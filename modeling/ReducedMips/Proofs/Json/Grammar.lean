import ReducedMips.Json.Parser
import ReducedMips.Json.Printer
import ReducedMips.Proofs.Json.Lexer
/-!
# Well-formed texts

A text denotes a value if it is written with the tokens of the value. The parser accepts just such
texts, however deep the value is nested, and gives that value.
-/
namespace ReducedMips.Json

/-- A property of values that passes from the parts of a value to the value. -/
@[elab_as_elim]
theorem induct {motive : Json → Prop} (null : motive .null) (boolean : ∀ b, motive (.boolean b))
    (integer : ∀ n, motive (.integer n)) (fraction : ∀ literal, motive (.fraction literal))
    (text : ∀ s, motive (.text s))
    (array : ∀ items, (∀ v ∈ items, motive v) → motive (.array items))
    (object : ∀ members, (∀ m ∈ members, motive m.2) → motive (.object members)) (v : Json) :
    motive v :=
  @Json.rec motive (fun items => ∀ v ∈ items, motive v) (fun members => ∀ m ∈ members, motive m.2)
    (fun m => motive m.2) null boolean integer fraction text array object
    (List.forall_mem_nil _) (fun _ _ hv hitems => List.forall_mem_cons.2 ⟨hv, hitems⟩)
    (List.forall_mem_nil _) (fun _ _ hm hmembers => List.forall_mem_cons.2 ⟨hm, hmembers⟩)
    (fun _ _ hv => hv) v

section Tokens

/-- Items of an array, each with the comma after it. -/
def itemsBefore (items : List Json) : List Token := items.flatMap fun v => v.tokens ++ [.comma]

/-- Members of an object, each with the comma after it. -/
def membersBefore (members : List (Option String × Json)) : List Token :=
  members.flatMap fun m => .text m.1 :: .colon :: (m.2.tokens ++ [.comma])

variable {token : Token} {front back : List Token}

theorem itemsBefore_cons_append (v : Json) (items : List Json) (back : List Token) :
    itemsBefore (v :: items) ++ back = v.tokens ++ .comma :: (itemsBefore items ++ back) := by
  rw [itemsBefore, List.flatMap_cons, List.append_assoc, List.append_assoc]
  rfl

theorem membersBefore_cons_append (key : Option String) (v : Json)
    (members : List (Option String × Json)) (back : List Token) :
    membersBefore ((key, v) :: members) ++ back =
      .text key :: .colon :: (v.tokens ++ .comma :: (membersBefore members ++ back)) := by
  rw [membersBefore, List.flatMap_cons, List.append_assoc, List.cons_append, List.cons_append,
    List.append_assoc]
  rfl

theorem itemTokens_append_singleton (items : List Json) (v : Json) :
    itemTokens (items ++ [v]) = itemsBefore items ++ v.tokens := by
  induction items with
  | nil => rfl
  | cons w items ih =>
    have hcons : itemTokens (w :: (items ++ [v])) = w.tokens ++ .comma :: itemTokens (items ++ [v]) := by
      cases items <;> rfl
    rw [List.cons_append, hcons, ih, itemsBefore_cons_append]

theorem memberTokens_append_singleton (members : List (Option String × Json))
    (key : Option String) (v : Json) : memberTokens (members ++ [(key, v)]) =
      membersBefore members ++ .text key :: .colon :: v.tokens := by
  induction members with
  | nil => rfl
  | cons m members ih =>
    obtain ⟨name, w⟩ := m
    have hcons : memberTokens ((name, w) :: (members ++ [(key, v)])) =
        .text name :: .colon :: (w.tokens ++ .comma :: memberTokens (members ++ [(key, v)])) := by
      cases members <;> rfl
    rw [List.cons_append, hcons, ih, membersBefore_cons_append]

theorem tokens_array (items : List Json) (v : Json) : (array (items ++ [v])).tokens =
    .leftBracket :: (itemsBefore items ++ (v.tokens ++ [.rightBracket])) := by
  rw [tokens, itemTokens_append_singleton, List.cons_append, List.append_assoc]

theorem tokens_object (members : List (Option String × Json)) (key : Option String) (v : Json) :
    (object (members ++ [(key, v)])).tokens =
      .leftBrace :: (membersBefore members ++ .text key :: .colon :: (v.tokens ++ [.rightBrace])) := by
  rw [tokens, memberTokens_append_singleton, List.cons_append, List.append_assoc]
  rfl

theorem isChain_apart_cons (htoken : token.isNumber = false) :
    (token :: back).IsChain Apart ↔ back.IsChain Apart := by
  rw [List.isChain_cons]
  refine and_iff_right fun next _ hnumber => ?_
  rw [htoken] at hnumber
  cases hnumber

theorem isChain_apart_append_cons (htoken : token.isNumber = false) :
    (front ++ token :: back).IsChain Apart ↔ front.IsChain Apart ∧ back.IsChain Apart := by
  rw [List.isChain_append, isChain_apart_cons htoken]
  refine and_congr_right fun _ => and_iff_left fun last _ next hnext _ => ?_
  cases hnext
  exact htoken

theorem apart_itemsBefore {items : List Json} (h : ∀ v ∈ items, v.tokens.IsChain Apart)
    (hback : back.IsChain Apart) : (itemsBefore items ++ back).IsChain Apart := by
  induction items with
  | nil => exact hback
  | cons v items ih =>
    obtain ⟨hv, hitems⟩ := List.forall_mem_cons.1 h
    rw [itemsBefore_cons_append]
    exact (isChain_apart_append_cons rfl).2 ⟨hv, ih hitems⟩

theorem apart_membersBefore {members : List (Option String × Json)}
    (h : ∀ m ∈ members, m.2.tokens.IsChain Apart) (hback : back.IsChain Apart) :
    (membersBefore members ++ back).IsChain Apart := by
  induction members with
  | nil => exact hback
  | cons m members ih =>
    obtain ⟨hm, hmembers⟩ := List.forall_mem_cons.1 h
    rw [membersBefore_cons_append, isChain_apart_cons rfl, isChain_apart_cons rfl]
    exact (isChain_apart_append_cons rfl).2 ⟨hm, ih hmembers⟩

/-- In the tokens of a value no two numbers stand next to each other. -/
theorem apart_tokens (v : Json) : v.tokens.IsChain Apart := by
  induction v using induct with
  | array items ih =>
    rcases List.eq_nil_or_concat' items with rfl | ⟨front, v, rfl⟩
    · exact (isChain_apart_cons rfl).2 (.singleton _)
    · obtain ⟨hfront, hv⟩ := List.forall_mem_append.1 ih
      rw [tokens_array, isChain_apart_cons rfl]
      exact apart_itemsBefore hfront
        ((isChain_apart_append_cons rfl).2 ⟨hv v List.mem_cons_self, .nil⟩)
  | object members ih =>
    rcases List.eq_nil_or_concat' members with rfl | ⟨front, ⟨key, v⟩, rfl⟩
    · exact (isChain_apart_cons rfl).2 (.singleton _)
    · obtain ⟨hfront, hv⟩ := List.forall_mem_append.1 ih
      rw [tokens_object, isChain_apart_cons rfl]
      refine apart_membersBefore hfront ?_
      rw [isChain_apart_cons rfl, isChain_apart_cons rfl]
      exact (isChain_apart_append_cons rfl).2 ⟨hv (key, v) List.mem_cons_self, .nil⟩
  | _ => exact .singleton _

end Tokens

section Completeness

def State.feedAll (state : State) (tokens : List Token) : Option State :=
  tokens.foldlM feed state

theorem State.feedAll_append (state : State) (front back : List Token) :
    state.feedAll (front ++ back) = state.feedAll front >>= fun state => state.feedAll back :=
  List.foldlM_append

/-- The parser completes the value when it is fed its tokens. -/
def Parses (v : Json) : Prop :=
  ∀ stack, (State.expectValue stack).feedAll v.tokens = some (.complete v stack)

theorem Parses.feedAll_append {v : Json} (h : v.Parses) (stack : List Frame) (tokens : List Token) :
    (State.expectValue stack).feedAll (v.tokens ++ tokens) =
      (State.complete v stack).feedAll tokens := by
  rw [State.feedAll_append, h]
  rfl

theorem feedAll_itemsBefore {items : List Json} (h : ∀ v ∈ items, v.Parses) (done : List Json)
    (stack : List Frame) (tokens : List Token) :
    (State.expectValue (.array done :: stack)).feedAll (itemsBefore items ++ tokens) =
      (State.expectValue (.array (items.reverse ++ done) :: stack)).feedAll tokens := by
  induction items generalizing done with
  | nil => rfl
  | cons v items ih =>
    obtain ⟨hv, hitems⟩ := List.forall_mem_cons.1 h
    rw [itemsBefore_cons_append, hv.feedAll_append, List.reverse_cons, List.append_assoc]
    exact ih hitems (v :: done)

theorem feedAll_membersBefore {members : List (Option String × Json)}
    (h : ∀ m ∈ members, m.2.Parses) (done : List (Option String × Json)) (stack : List Frame)
    (tokens : List Token) : (State.expectKey done stack).feedAll (membersBefore members ++ tokens) =
      (State.expectKey (members.reverse ++ done) stack).feedAll tokens := by
  induction members generalizing done with
  | nil => rfl
  | cons m members ih =>
    obtain ⟨hm, hmembers⟩ := List.forall_mem_cons.1 h
    obtain ⟨key, v⟩ := m
    rw [membersBefore_cons_append, List.reverse_cons, List.append_assoc]
    exact (hm.feedAll_append (.object done key :: stack) _).trans (ih hmembers ((key, v) :: done))

theorem feedAll_expectFirstItem (items : List Json) (v : Json) (stack : List Frame)
    (tokens : List Token) :
    (State.expectFirstItem stack).feedAll (itemsBefore items ++ (v.tokens ++ tokens)) =
      (State.expectValue (.array [] :: stack)).feedAll (itemsBefore items ++ (v.tokens ++ tokens)) := by
  cases items with
  | nil => cases v <;> rfl
  | cons w items => cases w <;> rfl

theorem feedAll_expectFirstKey (members : List (Option String × Json)) (key : Option String)
    (stack : List Frame) (tokens : List Token) :
    (State.expectFirstKey stack).feedAll (membersBefore members ++ .text key :: tokens) =
      (State.expectKey [] stack).feedAll (membersBefore members ++ .text key :: tokens) := by
  cases members <;> rfl

theorem parses (v : Json) : v.Parses := by
  induction v using induct with
  | array items ih =>
    intro stack
    rcases List.eq_nil_or_concat' items with rfl | ⟨front, v, rfl⟩
    · rfl
    · obtain ⟨hfront, hv⟩ := List.forall_mem_append.1 ih
      rw [tokens_array]
      change (State.expectFirstItem stack).feedAll _ = _
      rw [feedAll_expectFirstItem, feedAll_itemsBefore hfront,
        (hv v List.mem_cons_self).feedAll_append, List.append_nil]
      change some (State.complete (.array (v :: front.reverse).reverse) stack) = _
      rw [List.reverse_cons, List.reverse_reverse]
  | object members ih =>
    intro stack
    rcases List.eq_nil_or_concat' members with rfl | ⟨front, ⟨key, v⟩, rfl⟩
    · rfl
    · obtain ⟨hfront, hv⟩ := List.forall_mem_append.1 ih
      have hvalue : v.Parses := hv (key, v) List.mem_cons_self
      rw [tokens_object]
      change (State.expectFirstKey stack).feedAll _ = _
      rw [feedAll_expectFirstKey, feedAll_membersBefore hfront]
      change (State.expectValue (.object (front.reverse ++ []) key :: stack)).feedAll _ = _
      rw [hvalue.feedAll_append, List.append_nil]
      change some (State.complete (.object ((key, v) :: front.reverse).reverse) stack) = _
      rw [List.reverse_cons, List.reverse_reverse]
  | _ => exact fun _ => rfl

theorem ofTokens?_tokens (v : Json) : ofTokens? v.tokens = some v := by
  have hparse := v.parses []
  simp only [State.feedAll] at hparse
  simp only [ofTokens?]
  rw [hparse]

end Completeness

section Soundness

/-- The tokens that were taken since an array or object was opened, up to its next part. -/
def Frame.taken : Frame → List Token
  | .array done => .leftBracket :: itemsBefore done.reverse
  | .object done key => .leftBrace :: (membersBefore done.reverse ++ [.text key, .colon])

/-- The tokens that were taken into the open frames, innermost first. -/
def takenInto : List Frame → List Token
  | [] => []
  | frame :: stack => takenInto stack ++ frame.taken

/-- The tokens that were taken so far. -/
def State.taken : State → List Token
  | .expectValue stack => takenInto stack
  | .expectFirstItem stack => takenInto stack ++ [.leftBracket]
  | .expectFirstKey stack => takenInto stack ++ [.leftBrace]
  | .expectKey done stack => takenInto stack ++ .leftBrace :: membersBefore done.reverse
  | .expectColon done key stack =>
      takenInto stack ++ .leftBrace :: (membersBefore done.reverse ++ [.text key])
  | .complete value stack => takenInto stack ++ value.tokens

open State

variable {state next : State} {stack : List Frame} {token : Token} {tokens : List Token}

theorem taken_of_begin (h : begin stack token = some next) :
    next.taken = takenInto stack ++ [token] := by
  cases token <;> cases h <;> rfl

theorem itemsBefore_append_singleton (items : List Json) (v : Json) :
    itemsBefore (items ++ [v]) = itemsBefore items ++ (v.tokens ++ [.comma]) := by
  rw [itemsBefore, List.flatMap_append, List.flatMap_singleton]
  rfl

theorem membersBefore_append_singleton (members : List (Option String × Json))
    (key : Option String) (v : Json) : membersBefore (members ++ [(key, v)]) =
      membersBefore members ++ .text key :: .colon :: (v.tokens ++ [.comma]) := by
  rw [membersBefore, List.flatMap_append, List.flatMap_singleton]
  rfl

/-- What the parser has taken grows by each token that it accepts. -/
theorem taken_of_feed (h : state.feed token = some next) : next.taken = state.taken ++ [token] := by
  have hfirst (stack : List Frame) : takenInto (.array [] :: stack) = takenInto stack ++ [.leftBracket] :=
    rfl
  unfold feed at h
  split at h
  case h_1 => exact taken_of_begin h
  case h_3 => rw [taken_of_begin h, hfirst, taken]
  case h_12 => cases h
  -- nothing is in the array or object yet
  case h_2 | h_4 => cases h; exact (List.append_assoc ..).symm
  case h_5 => cases h; exact (List.append_assoc _ [Token.leftBrace] _).symm
  all_goals
    cases h
    simp only [taken, takenInto, Frame.taken, List.reverse_cons, itemsBefore_append_singleton,
      membersBefore_append_singleton, tokens_array, tokens_object, List.append_assoc,
      List.cons_append, List.nil_append]

theorem taken_of_feedAll (h : state.feedAll tokens = some next) :
    next.taken = state.taken ++ tokens := by
  induction tokens generalizing state with
  | nil =>
    cases h
    exact (List.append_nil _).symm
  | cons token tokens ih =>
    rw [feedAll, List.foldlM_cons, Option.bind_eq_bind, Option.bind_eq_some_iff] at h
    obtain ⟨between, hfeed, h⟩ := h
    rw [ih h, taken_of_feed hfeed, List.append_assoc, List.singleton_append]

theorem eq_tokens_of_ofTokens? {v : Json} (h : ofTokens? tokens = some v) : tokens = v.tokens := by
  simp only [ofTokens?] at h
  split at h
  · next hfeed =>
    cases h
    exact (taken_of_feedAll hfeed).symm
  · cases h

end Soundness

/-- The text is well formed and denotes the value. -/
def Denotes (text : String) (v : Json) : Prop := Spells v.tokens text.toList

/-- A text is read if and only if it is well formed, as the value that it denotes. -/
theorem parse?_eq_some_iff {text : String} {v : Json} : parse? text = some v ↔ Denotes text v := by
  simp only [parse?, Option.bind_eq_some_iff]
  constructor
  · rintro ⟨tokens, hlex, hparse⟩
    obtain rfl := eq_tokens_of_ofTokens? hparse
    exact spells_of_lex hlex
  · intro h
    exact ⟨v.tokens, (lex_eq_some_iff v.apart_tokens).2 h, v.ofTokens?_tokens⟩

end ReducedMips.Json
