import ReducedMips.Proofs.Json.Grammar
/-!
# Written values

The compact form and the spacious form of a value without fractions are written with the tokens of
the value, so the value is read back from them.
-/
namespace ReducedMips.Json

/-- All numbers in the value are integers. -/
inductive Plain : Json → Prop where
  | null : Plain .null
  | boolean (b : Bool) : Plain (.boolean b)
  | integer (n : Int) : Plain (.integer n)
  | text (s : Option String) : Plain (.text s)
  | array {items : List Json} (h : ∀ v ∈ items, Plain v) : Plain (.array items)
  | object {members : List (Option String × Json)} (h : ∀ m ∈ members, Plain m.2) :
      Plain (.object members)

theorem Plain.ofMembers {members : List (String × Json)} (h : ∀ m ∈ members, m.2.Plain) :
    (ofMembers members).Plain := by
  refine .object fun _ hm => ?_
  obtain ⟨m, hmem, rfl⟩ := List.mem_map.1 hm
  exact h m hmem

section Tokens

theorem eq_zero_of_head?_toDigits {n : Nat} (h : (Nat.toDigits 10 n).head? = some '0') : n = 0 := by
  induction n using Nat.strongRecOn with
  | ind n ih =>
    by_cases hn : n < 10
    · rw [Nat.toDigits_of_lt_base hn, List.head?_cons] at h
      have hdigit : ∀ k < 10, k.digitChar = '0' → k = 0 := by decide
      exact hdigit n hn (Option.some.inj h)
    · rw [Nat.toDigits_of_base_le (by decide) (Nat.le_of_not_lt hn)] at h
      cases hfront : Nat.toDigits 10 (n / 10) with
      | nil => exact absurd hfront Nat.toDigits_ne_nil
      | cons d digits =>
        rw [hfront] at h
        have hquot := ih (n / 10) (by omega) (by rw [hfront]; exact h)
        omega

theorem isNumber_toDigits (n : Nat) : IsNumber (Nat.toDigits 10 n) [] [] := by
  refine ⟨⟨⟨Nat.toDigits_ne_nil, fun c hc => ?_⟩, fun hhead => ?_⟩, .absent, .absent⟩
  · exact Nat.isDigit_of_mem_toDigits (by decide) (by decide) hc
  · rw [eq_zero_of_head?_toDigits hhead]
    rfl

theorem numberToken_toDigits (negative : Bool) {n : Nat} (hn : negative = true → n ≠ 0) :
    numberToken negative (Nat.toDigits 10 n) [] [] = .integer (if negative then -n else n) := by
  have hsign : ¬ (negative = true ∧ Nat.toDigits 10 n = ['0']) := by
    rintro ⟨hneg, hdigits⟩
    exact hn hneg (eq_zero_of_head?_toDigits (congrArg List.head? hdigits))
  unfold numberToken
  rw [if_pos ⟨rfl, rfl, hsign⟩, Nat.ofDigitChars_ten_toDigits]

theorem spelled_integer (n : Int) : (Token.integer n).Spelled (toString n).toList := by
  cases n with
  | ofNat n =>
    have hspell : (toString (Int.ofNat n)).toList = Nat.toDigits 10 n := Nat.toList_repr
    have hspelled := Token.Spelled.number false (isNumber_toDigits n)
    rw [numberToken_toDigits false (fun h => nomatch h), List.append_nil, List.append_nil] at hspelled
    exact hspell ▸ hspelled
  | negSucc n =>
    have hspell : (toString (Int.negSucc n)).toList = '-' :: Nat.toDigits 10 (n + 1) := by
      change ("-" ++ (n + 1).repr).toList = _
      rw [String.toList_append, Nat.toList_repr]
      rfl
    have hspelled := Token.Spelled.number true (isNumber_toDigits (n + 1))
    rw [numberToken_toDigits true fun _ => Nat.succ_ne_zero n, List.append_nil,
      List.append_nil] at hspelled
    exact hspell ▸ hspelled

theorem leftpad_toDigits_control : ∀ n < 0x20, (Nat.toDigits 16 n).leftpad 4 '0' =
    ['0', '0', (n / 16).digitChar, (n % 16).digitChar] := by decide

theorem codeUnit?_control : ∀ n < 0x20,
    codeUnit? '0' '0' (n / 16).digitChar (n % 16).digitChar = some n := by decide

theorem exists_piece (c : Char) : ∃ piece : StringPiece, piece.Spelled (escapeChar c) ∧
    ∀ {pieces chars}, StringPiece.Denote pieces chars →
      StringPiece.Denote (piece :: pieces) (c :: chars) := by
  simp only [escapeChar]
  split
  case h_8 hquote hslash _ _ _ _ _ =>
    -- a character without a letter of its own is escaped by its number if it is a control
    by_cases hc : c.toNat < 0x20
    · refine ⟨.unit c.toNat, ?_, fun h => ?_⟩
      · rw [if_pos hc, leftpad_toDigits_control _ hc]
        exact .number (codeUnit?_control _ hc)
      · have hleading : isLeadingSurrogate c.toNat = false := by simp [isLeadingSurrogate]; omega
        have htrailing : isTrailingSurrogate c.toNat = false := by simp [isTrailingSurrogate]; omega
        have hunit := StringPiece.Denote.unit hleading htrailing h
        rw [Char.ofNat_toNat] at hunit
        exact hunit
    · refine ⟨.char c, ?_, .char⟩
      rw [if_neg hc]
      exact .plain hquote hslash hc
  all_goals exact ⟨.char _, .escape rfl, .char⟩

theorem exists_pieces (chars : List Char) : ∃ pieces,
    StringPiece.SpelledAll pieces (chars.flatMap escapeChar) ∧ StringPiece.Denote pieces chars := by
  induction chars with
  | nil => exact ⟨[], .nil, .nil⟩
  | cons c chars ih =>
    obtain ⟨piece, hpiece, hchar⟩ := exists_piece c
    obtain ⟨pieces, hpieces, hchars⟩ := ih
    refine ⟨piece :: pieces, ?_, hchar hchars⟩
    rw [List.flatMap_cons]
    exact .cons hpiece hpieces

theorem spelled_literal (s : Option String) : (Token.text s).Spelled (literal s) := by
  cases s with
  | some s =>
    obtain ⟨pieces, hpieces, hchars⟩ := exists_pieces s.toList
    have hspelled := Token.Spelled.text hpieces hchars
    rw [String.ofList_toList] at hspelled
    exact hspelled
  | none =>
    have hpiece : StringPiece.Spelled (.unit 0xD800) ['\\', 'u', 'd', '8', '0', '0'] :=
      .number (by decide)
    refine .broken (.cons hpiece .nil) fun chars hchars => ?_
    cases hchars with
    | unit hleading => cases hleading

end Tokens

section Compact

theorem spells_flatMap_spelling {tokens : List Token}
    (h : ∀ token ∈ tokens, token.Spelled token.spelling) :
    Spells tokens (tokens.flatMap Token.spelling) := by
  induction tokens with
  | nil => exact .nil
  | cons token tokens ih =>
    obtain ⟨htoken, htokens⟩ := List.forall_mem_cons.1 h
    rw [List.flatMap_cons]
    exact .token htoken (ih htokens)

theorem spelled_itemsBefore {items : List Json}
    (h : ∀ v ∈ items, ∀ token ∈ v.tokens, token.Spelled token.spelling) :
    ∀ token ∈ itemsBefore items, token.Spelled token.spelling := by
  intro token htoken
  obtain ⟨v, hv, htoken⟩ := List.mem_flatMap.1 htoken
  rcases List.mem_append.1 htoken with htoken | htoken
  · exact h v hv token htoken
  · obtain rfl := List.mem_singleton.1 htoken
    exact .comma

theorem spelled_membersBefore {members : List (Option String × Json)}
    (h : ∀ m ∈ members, ∀ token ∈ m.2.tokens, token.Spelled token.spelling) :
    ∀ token ∈ membersBefore members, token.Spelled token.spelling := by
  intro token htoken
  obtain ⟨m, hm, htoken⟩ := List.mem_flatMap.1 htoken
  rw [List.mem_cons, List.mem_cons, List.mem_append, List.mem_singleton] at htoken
  rcases htoken with rfl | rfl | htoken | rfl
  · exact spelled_literal m.1
  · exact .colon
  · exact h m hm token htoken
  · exact .comma

theorem Plain.spelled_tokens {v : Json} (hv : v.Plain) :
    ∀ token ∈ v.tokens, token.Spelled token.spelling := by
  induction hv with
  | null => exact List.forall_mem_singleton.2 .null
  | boolean b => cases b; exacts [List.forall_mem_singleton.2 .no, List.forall_mem_singleton.2 .yes]
  | integer n => exact List.forall_mem_singleton.2 (spelled_integer n)
  | text s => exact List.forall_mem_singleton.2 (spelled_literal s)
  | @array items h ih =>
    rcases List.eq_nil_or_concat' items with rfl | ⟨front, v, rfl⟩
    · exact List.forall_mem_cons.2 ⟨.leftBracket, List.forall_mem_singleton.2 .rightBracket⟩
    · obtain ⟨hfront, hv⟩ := List.forall_mem_append.1 ih
      rw [tokens_array, List.forall_mem_cons, List.forall_mem_append, List.forall_mem_append,
        List.forall_mem_singleton]
      exact ⟨.leftBracket, spelled_itemsBefore hfront, hv v List.mem_cons_self, .rightBracket⟩
  | @object members h ih =>
    rcases List.eq_nil_or_concat' members with rfl | ⟨front, ⟨key, v⟩, rfl⟩
    · exact List.forall_mem_cons.2 ⟨.leftBrace, List.forall_mem_singleton.2 .rightBrace⟩
    · obtain ⟨hfront, hv⟩ := List.forall_mem_append.1 ih
      rw [tokens_object, List.forall_mem_cons, List.forall_mem_append, List.forall_mem_cons,
        List.forall_mem_cons, List.forall_mem_append, List.forall_mem_singleton]
      exact ⟨.leftBrace, spelled_membersBefore hfront, spelled_literal key, .colon,
        hv (key, v) List.mem_cons_self, .rightBrace⟩

/-- A value is read back from its compact form. -/
theorem Plain.parse?_compact {v : Json} (hv : v.Plain) : parse? v.compact = some v := by
  rw [parse?_eq_some_iff, Denotes, compact, String.toList_ofList]
  exact spells_flatMap_spelling hv.spelled_tokens

end Compact

section Spacious

variable {tokens : List Token} {text : List Char}

theorem Spells.newLine (h : Spells tokens text) (depth : Nat) :
    Spells tokens (newLine depth ++ text) := by
  have hspaces (n : Nat) : Spells tokens (List.replicate n ' ' ++ text) := by
    induction n with
    | zero => exact h
    | succ n ih => exact .blank rfl ih
  exact .blank rfl (hspaces (2 * depth))

/-- The characters are one way to write the value, before what follows it. -/
def WrittenAs (v : Json) (chars : List Char) : Prop :=
  ∀ {tokens text}, Spells tokens text → Spells (v.tokens ++ tokens) (chars ++ text)

theorem spells_itemLines {items : List Json} {depth : Nat}
    (h : ∀ v ∈ items, v.WrittenAs (v.spaciousAt depth)) (htext : Spells tokens text) :
    Spells (itemTokens items ++ tokens) (itemLines depth items ++ text) := by
  induction items with
  | nil => exact htext
  | cons v items ih =>
    obtain ⟨hv, hitems⟩ := List.forall_mem_cons.1 h
    cases items with
    | nil =>
      rw [itemLines, itemTokens, List.append_assoc]
      exact (hv htext).newLine depth
    | cons w items =>
      have hrest : Spells (.comma :: (itemTokens (w :: items) ++ tokens))
          (',' :: (itemLines depth (w :: items) ++ text)) := .token .comma (ih hitems)
      have hitem := (hv hrest).newLine depth
      rw [← List.cons_append, ← List.cons_append, ← List.append_assoc, ← List.append_assoc,
        ← List.append_assoc] at hitem
      exact hitem

theorem spells_memberLine {v : Json} {depth : Nat} (hv : v.WrittenAs (v.spaciousAt depth))
    (key : Option String) (htext : Spells tokens text) :
    Spells (.text key :: .colon :: (v.tokens ++ tokens))
      (newLine depth ++ (literal key ++ ':' :: ' ' :: (v.spaciousAt depth ++ text))) := by
  have hvalue : Spells (.colon :: (v.tokens ++ tokens)) (':' :: ' ' :: (v.spaciousAt depth ++ text)) :=
    .token .colon (.blank rfl (hv htext))
  exact (Spells.token (spelled_literal key) hvalue).newLine depth

theorem spells_memberLines {members : List (Option String × Json)} {depth : Nat}
    (h : ∀ m ∈ members, m.2.WrittenAs (m.2.spaciousAt depth)) (htext : Spells tokens text) :
    Spells (memberTokens members ++ tokens) (memberLines depth members ++ text) := by
  induction members with
  | nil => exact htext
  | cons m members ih =>
    obtain ⟨hv, hmembers⟩ := List.forall_mem_cons.1 h
    obtain ⟨key, v⟩ := m
    cases members with
    | nil =>
      have hmember := spells_memberLine hv key htext
      simp only [memberLines, memberTokens, List.append_assoc, List.cons_append]
      exact hmember
    | cons m members =>
      have hrest : Spells (.comma :: (memberTokens (m :: members) ++ tokens))
          (',' :: (memberLines depth (m :: members) ++ text)) := .token .comma (ih hmembers)
      have hmember := spells_memberLine hv key hrest
      simp only [memberLines, memberTokens, List.append_assoc, List.cons_append]
      exact hmember

theorem Plain.writtenAs_spaciousAt {v : Json} (hv : v.Plain) :
    ∀ depth, v.WrittenAs (v.spaciousAt depth) := by
  induction hv with
  | null => exact fun _ _ _ htext => .token .null htext
  | boolean b =>
    cases b
    · exact fun _ _ _ htext => .token .no htext
    · exact fun _ _ _ htext => .token .yes htext
  | integer n => exact fun _ _ _ htext => .token (spelled_integer n) htext
  | text s => exact fun _ _ _ htext => .token (spelled_literal s) htext
  | @array items h ih =>
    intro depth tokens text htext
    have hopen {tokens : List Token} {text : List Char} (h : Spells tokens text) :
        Spells (.leftBracket :: tokens) ('[' :: text) := .token .leftBracket h
    have hclose : Spells (.rightBracket :: tokens) (']' :: text) := .token .rightBracket htext
    cases items with
    | nil => exact hopen hclose
    | cons v items =>
      have hitems := spells_itemLines (fun v hv => ih v hv (depth + 1)) (hclose.newLine depth)
      simp only [spaciousAt, Json.tokens, List.append_assoc, List.cons_append, List.nil_append]
      exact hopen hitems
  | @object members h ih =>
    intro depth tokens text htext
    have hopen {tokens : List Token} {text : List Char} (h : Spells tokens text) :
        Spells (.leftBrace :: tokens) ('\x7b' :: text) := .token .leftBrace h
    have hclose : Spells (.rightBrace :: tokens) ('\x7d' :: text) := .token .rightBrace htext
    cases members with
    | nil => exact hopen hclose
    | cons m members =>
      have hmembers := spells_memberLines (fun m hm => ih m hm (depth + 1)) (hclose.newLine depth)
      simp only [spaciousAt, Json.tokens, List.append_assoc, List.cons_append, List.nil_append]
      exact hopen hmembers

/-- A printed value is read back. -/
theorem Plain.parse?_spacious {v : Json} (hv : v.Plain) : parse? (v.spacious ++ "\n") = some v := by
  have hspells := hv.writtenAs_spaciousAt 0 (.blank rfl .nil : Spells [] ['\n'])
  rw [List.append_nil] at hspells
  rw [parse?_eq_some_iff, Denotes, String.toList_append, spacious, String.toList_ofList]
  exact hspells

end Spacious

end ReducedMips.Json
