import Mathlib.Data.List.Chain
import ReducedMips.Proofs.Json.Literal
/-!
# Spelled tokens

A text is read as tokens if and only if it is written with them, with blanks anywhere between them.
Two numbers must not stand next to each other, since a number goes on as long as it can.
-/
namespace ReducedMips.Json

/-- The ways to write a token. -/
inductive Token.Spelled : Token → List Char → Prop
  | leftBrace : Spelled .leftBrace ['\x7b']
  | rightBrace : Spelled .rightBrace ['\x7d']
  | leftBracket : Spelled .leftBracket ['[']
  | rightBracket : Spelled .rightBracket [']']
  | colon : Spelled .colon [':']
  | comma : Spelled .comma [',']
  | null : Spelled .null ['n', 'u', 'l', 'l']
  | yes : Spelled (.boolean true) ['t', 'r', 'u', 'e']
  | no : Spelled (.boolean false) ['f', 'a', 'l', 's', 'e']
  | number (negative : Bool) {digits fraction exponent : List Char}
      (h : IsNumber digits fraction exponent) :
      Spelled (numberToken negative digits fraction exponent)
        ((if negative then ['-'] else []) ++ (digits ++ (fraction ++ exponent)))
  | text {pieces : List StringPiece} {spelling chars : List Char}
      (hpieces : StringPiece.SpelledAll pieces spelling)
      (hchars : StringPiece.Denote pieces chars) :
      Spelled (.text (some (String.ofList chars))) ('"' :: (spelling ++ ['"']))
  | broken {pieces : List StringPiece} {spelling : List Char}
      (hpieces : StringPiece.SpelledAll pieces spelling)
      (hchars : ∀ chars, ¬ StringPiece.Denote pieces chars) :
      Spelled (.text none) ('"' :: (spelling ++ ['"']))

/-- Whether the token is a number. -/
def Token.isNumber : Token → Bool
  | .integer _ => true
  | .fraction _ => true
  | _ => false

/-- A text is written with tokens, and with blanks before, between and after them. -/
inductive Spells : List Token → List Char → Prop
  | nil : Spells [] []
  | blank {c : Char} {tokens : List Token} {text : List Char} (hc : isSpace c = true)
      (h : Spells tokens text) : Spells tokens (c :: text)
  | token {token : Token} {tokens : List Token} {spelling text : List Char}
      (htoken : token.Spelled spelling) (h : Spells tokens text) :
      Spells (token :: tokens) (spelling ++ text)

/-- Tokens that are told apart without a blank between them. -/
def Apart (token next : Token) : Prop := token.isNumber = true → next.isNumber = false

variable {c : Char} {text rest spelling : List Char} {token : Token} {tokens done : List Token}

section Tokens

theorem isNumber_numberToken (negative : Bool) (digits fraction exponent : List Char) :
    (numberToken negative digits fraction exponent).isNumber = true := by
  unfold numberToken
  split <;> rfl

theorem scanToken?_digit (hc : c.isDigit = true) (text : List Char) :
    scanToken? (c :: text) = scanNumber? false (c :: text) := by
  rw [scanToken?]
  all_goals
    intro tail heq
    cases heq
    cases hc

theorem scanToken?_number (negative : Bool) {digits fraction exponent : List Char}
    (h : IsNumber digits fraction exponent) (hend : Delimited rest) :
    scanToken? ((if negative then ['-'] else []) ++ (digits ++ (fraction ++ exponent)) ++ rest) =
      some (numberToken negative digits fraction exponent, rest) := by
  have hscan := scanNumber?_append negative h hend
  rw [List.append_assoc, List.append_assoc, List.append_assoc]
  cases negative with
  | true => exact hscan
  | false =>
    obtain ⟨hne, hdigits⟩ := h.digits.1
    cases digits with
    | nil => contradiction
    | cons c digits => exact (scanToken?_digit (hdigits c List.mem_cons_self) _).trans hscan

theorem scanToken?_text {pieces : List StringPiece}
    (hpieces : StringPiece.SpelledAll pieces spelling) (rest : List Char) :
    scanToken? ('"' :: (spelling ++ ['"']) ++ rest) =
      some (.text ((decodePieces pieces []).map String.ofList), rest) := by
  have hscan := scanPieces_of_spelledAll hpieces rest []
  rw [List.cons_append, List.append_assoc, List.singleton_append, scanToken?, hscan]
  rfl

/-- A spelled token is taken whole; a number must end before what follows. -/
theorem scanToken?_append (h : token.Spelled spelling)
    (hend : token.isNumber = true → Delimited rest) :
    scanToken? (spelling ++ rest) = some (token, rest) := by
  cases h with
  | number negative h => exact scanToken?_number negative h (hend (isNumber_numberToken ..))
  | text hpieces hchars =>
    rw [scanToken?_text hpieces, decodePieces_eq_some_iff.2 hchars]
    rfl
  | @broken pieces spelling hpieces hchars =>
    have hnone : decodePieces pieces [] = none :=
      Option.eq_none_iff_forall_ne_some.2 fun chars h => hchars chars (decodePieces_eq_some_iff.1 h)
    rw [scanToken?_text hpieces, hnone]
    rfl
  | _ => rfl

theorem spelled_of_scanNumber? {negative : Bool}
    (h : scanNumber? negative text = some (token, rest)) : ∃ spelling, token.Spelled spelling ∧
      (if negative then ['-'] else []) ++ text = spelling ++ rest := by
  obtain ⟨digits, fraction, exponent, hnumber, rfl, rfl⟩ := isNumber_of_scanNumber? h
  refine ⟨_, .number negative hnumber, ?_⟩
  simp only [List.append_assoc]

theorem spelled_of_scanPieces {pieces : List StringPiece}
    (h : scanPieces text [] = some (pieces, rest)) : ∃ spelling,
      Token.Spelled (.text ((decodePieces pieces []).map String.ofList)) spelling ∧
        '"' :: text = spelling ++ rest := by
  obtain ⟨pieces, spelling, rfl, hpieces, rfl⟩ := spelledAll_of_scanPieces h
  refine ⟨'"' :: (spelling ++ ['"']), ?_, ?_⟩
  · cases hchars : decodePieces pieces [] with
    | some chars => exact .text hpieces (decodePieces_eq_some_iff.1 hchars)
    | none =>
      refine .broken hpieces fun chars hdenote => ?_
      rw [decodePieces_eq_some_iff.2 hdenote] at hchars
      cases hchars
  · rw [List.cons_append, List.append_assoc, List.singleton_append]

theorem spelled_of_scanToken? (h : scanToken? text = some (token, rest)) :
    ∃ spelling, token.Spelled spelling ∧ text = spelling ++ rest := by
  unfold scanToken? at h
  split at h
  case h_10 =>
    obtain ⟨⟨pieces, rest'⟩, hscan, hpair⟩ := Option.map_eq_some_iff.1 h
    obtain ⟨rfl, rfl⟩ := Prod.mk.inj hpair
    exact spelled_of_scanPieces hscan
  case h_11 => exact spelled_of_scanNumber? h
  case h_12 => exact spelled_of_scanNumber? h
  case h_1 => cases h; exact ⟨_, .leftBrace, rfl⟩
  case h_2 => cases h; exact ⟨_, .rightBrace, rfl⟩
  case h_3 => cases h; exact ⟨_, .leftBracket, rfl⟩
  case h_4 => cases h; exact ⟨_, .rightBracket, rfl⟩
  case h_5 => cases h; exact ⟨_, .colon, rfl⟩
  case h_6 => cases h; exact ⟨_, .comma, rfl⟩
  case h_7 => cases h; exact ⟨_, .null, rfl⟩
  case h_8 => cases h; exact ⟨_, .yes, rfl⟩
  case h_9 => cases h; exact ⟨_, .no, rfl⟩

end Tokens

section Texts

theorem scanToken?_blank (hc : isSpace c = true) (text : List Char) :
    scanToken? (c :: text) = none := by
  simp only [isSpace, Bool.or_eq_true, beq_iff_eq] at hc
  rcases hc with ((rfl | rfl) | rfl) | rfl <;> rfl

theorem lexInto_blank (hc : isSpace c = true) (text : List Char) (done : List Token) :
    lexInto (c :: text) done = lexInto text done := by
  rw [lexInto, if_pos hc]

theorem lexInto_token (h : scanToken? text = some (token, rest)) (done : List Token) :
    lexInto text done = lexInto rest (token :: done) := by
  cases text with
  | nil => cases h
  | cons c text =>
    have hc : ¬ isSpace c = true := by
      intro hc
      rw [scanToken?_blank hc] at h
      cases h
    rw [lexInto, if_neg hc]
    split
    · next hscan =>
      rw [h] at hscan
      cases hscan
      rfl
    · next hscan =>
      rw [h] at hscan
      cases hscan

theorem Token.Spelled.delimited (h : token.Spelled spelling) (hnumber : token.isNumber = false)
    (text : List Char) : Delimited (spelling ++ text) := by
  cases h with
  | number => rw [isNumber_numberToken] at hnumber; cases hnumber
  | _ =>
    intro c hc
    cases hc
    decide

theorem Spells.delimited (h : Spells tokens text)
    (hfirst : ∀ token ∈ tokens.head?, token.isNumber = false) : Delimited text := by
  cases h with
  | nil => exact fun _ hc => nomatch hc
  | blank hspace h =>
    intro c hc
    cases hc
    simp only [isSpace, Bool.or_eq_true, beq_iff_eq] at hspace
    rcases hspace with ((rfl | rfl) | rfl) | rfl <;> decide
  | token htoken h => exact htoken.delimited (hfirst _ rfl) _

theorem lexInto_of_spells (h : Spells tokens text) (hapart : tokens.IsChain Apart)
    (done : List Token) : lexInto text done = some (done.reverse ++ tokens) := by
  induction h generalizing done with
  | nil => rw [lexInto, List.append_nil]
  | blank hc h ih => rw [lexInto_blank hc, ih hapart]
  | @token token tokens spelling text htoken h ih =>
    obtain ⟨hnext, hapart⟩ := List.isChain_cons.1 hapart
    have hend (hnumber : token.isNumber = true) : Delimited text :=
      h.delimited fun next hmem => hnext next hmem hnumber
    rw [lexInto_token (scanToken?_append htoken hend), ih hapart, List.reverse_cons,
      List.append_assoc, List.singleton_append]

theorem spells_of_lexInto (h : lexInto text done = some tokens) :
    ∃ more, tokens = done.reverse ++ more ∧ Spells more text := by
  fun_induction lexInto text done with
  | case1 done =>
    cases h
    exact ⟨[], (List.append_nil _).symm, .nil⟩
  | case2 done c text hc ih =>
    obtain ⟨more, rfl, hmore⟩ := ih h
    exact ⟨more, rfl, .blank hc hmore⟩
  | case3 done c text hc token rest hscan hlength ih =>
    obtain ⟨more, rfl, hmore⟩ := ih h
    obtain ⟨spelling, htoken, htext⟩ := spelled_of_scanToken? hscan
    refine ⟨token :: more, ?_, htext ▸ .token htoken hmore⟩
    rw [List.reverse_cons, List.append_assoc, List.singleton_append]
  | case4 => cases h

theorem spells_of_lex (h : lex text = some tokens) : Spells tokens text := by
  obtain ⟨more, rfl, hmore⟩ := spells_of_lexInto h
  exact hmore

/-- The lexer finds the tokens with which a text is written, if they are told apart. -/
theorem lex_eq_some_iff (hapart : tokens.IsChain Apart) :
    lex text = some tokens ↔ Spells tokens text :=
  ⟨spells_of_lex, fun h => lexInto_of_spells h hapart []⟩

end Texts

end ReducedMips.Json
