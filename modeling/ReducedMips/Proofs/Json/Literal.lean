import Mathlib.Data.List.TakeWhile
import ReducedMips.Json.Token
/-!
# Literals

The ways to write the pieces of a string and the parts of a number. The scanner takes from the
start of a text just what is written in one of these ways, and a number up to where it cannot go on.
-/
namespace ReducedMips.Json

section Strings

/-- The ways to write a piece of a string literal. A control character must be escaped. -/
inductive StringPiece.Spelled : StringPiece → List Char → Prop
  | plain {c : Char} (hquote : c ≠ '"') (hslash : c ≠ '\\') (hcontrol : ¬ c.toNat < 0x20) :
      Spelled (.char c) [c]
  | escape {e c : Char} (h : shortEscape? e = some c) : Spelled (.char c) ['\\', e]
  | number {a b c d : Char} {u : Nat} (h : codeUnit? a b c d = some u) :
      Spelled (.unit u) ['\\', 'u', a, b, c, d]

/-- The pieces of a string literal, written one after the other. -/
inductive StringPiece.SpelledAll : List StringPiece → List Char → Prop
  | nil : SpelledAll [] []
  | cons {piece : StringPiece} {pieces : List StringPiece} {spelling text : List Char}
      (hpiece : piece.Spelled spelling) (h : SpelledAll pieces text) :
      SpelledAll (piece :: pieces) (spelling ++ text)

/-- The text that pieces denote. A leading surrogate goes with the trailing one after it. -/
inductive StringPiece.Denote : List StringPiece → List Char → Prop
  | nil : Denote [] []
  | char {c : Char} {pieces : List StringPiece} {text : List Char} (h : Denote pieces text) :
      Denote (.char c :: pieces) (c :: text)
  | unit {u : Nat} {pieces : List StringPiece} {text : List Char}
      (hleading : isLeadingSurrogate u = false) (htrailing : isTrailingSurrogate u = false)
      (h : Denote pieces text) : Denote (.unit u :: pieces) (Char.ofNat u :: text)
  | pair {u v : Nat} {pieces : List StringPiece} {text : List Char}
      (hleading : isLeadingSurrogate u = true) (htrailing : isTrailingSurrogate v = true)
      (h : Denote pieces text) :
      Denote (.unit u :: .unit v :: pieces) (pairedChar u v :: text)

open StringPiece

variable {piece : StringPiece} {pieces done : List StringPiece} {spelling text rest : List Char}

theorem scanPieces_of_spelled (h : piece.Spelled spelling) (rest : List Char)
    (done : List StringPiece) :
    scanPieces (spelling ++ rest) done = scanPieces rest (piece :: done) := by
  cases h with
  | @plain c hquote hslash hcontrol =>
    change scanPieces (c :: rest) done = _
    rw [scanPieces, if_neg hcontrol]
    · exact hquote
    · intro _ _ _ _ _ heq _
      exact hslash heq
    · intro _ _ heq _
      exact hslash heq
  | @escape e c h =>
    change scanPieces ('\\' :: e :: rest) done = _
    rw [scanPieces, h]
    intro _ _ _ _ _ heq _
    rw [heq] at h
    cases h
  | @number a b c d u h =>
    change scanPieces ('\\' :: 'u' :: a :: b :: c :: d :: rest) done = _
    rw [scanPieces, h]

theorem scanPieces_of_spelledAll (h : SpelledAll pieces text) (rest : List Char)
    (done : List StringPiece) :
    scanPieces (text ++ '"' :: rest) done = some (done.reverse ++ pieces, rest) := by
  induction h generalizing done with
  | nil =>
    rw [List.nil_append, scanPieces, List.append_nil]
  | cons hpiece h ih =>
    rw [List.append_assoc, scanPieces_of_spelled hpiece, ih, List.reverse_cons, List.append_assoc,
      List.singleton_append]

theorem spelledAll_of_scanPieces (h : scanPieces text done = some (pieces, rest)) :
    ∃ more spelling, pieces = done.reverse ++ more ∧ SpelledAll more spelling ∧
      text = spelling ++ '"' :: rest := by
  -- what is scanned next is written before all that follows
  have hcons {piece : StringPiece} {written tail : List Char} {done : List StringPiece}
      (hpiece : piece.Spelled written)
      (htail : ∃ more spelling, pieces = (piece :: done).reverse ++ more ∧
        SpelledAll more spelling ∧ tail = spelling ++ '"' :: rest) :
      ∃ more spelling, pieces = done.reverse ++ more ∧ SpelledAll more spelling ∧
        written ++ tail = spelling ++ '"' :: rest := by
    obtain ⟨more, spelling, rfl, hmore, rfl⟩ := htail
    refine ⟨piece :: more, written ++ spelling, ?_, .cons hpiece hmore, ?_⟩
    · rw [List.reverse_cons, List.append_assoc, List.singleton_append]
    · rw [List.append_assoc]
  fun_induction scanPieces text done with
  | case1 tail done =>
    obtain ⟨rfl, rfl⟩ := Prod.mk.inj (Option.some.inj h)
    exact ⟨[], [], (List.append_nil _).symm, .nil, rfl⟩
  | case2 a b c d tail done u hu ih => exact hcons (.number hu) (ih h)
  | case3 => cases h
  | case4 c tail done hc e he ih => exact hcons (.escape he) (ih h)
  | case5 => cases h
  | case6 => cases h
  | case7 c tail done hquote hunit hescape hcontrol ih =>
    have hslash : c ≠ '\\' := by
      intro heq
      cases tail with
      | nil => cases h
      | cons e tail => exact hescape e tail heq rfl
    exact hcons (.plain hquote hslash hcontrol) (ih h)
  | case8 => cases h

theorem decodePieces_of_denote (h : Denote pieces text) (done : List Char) :
    decodePieces pieces done = some (done.reverse ++ text) := by
  induction h generalizing done with
  | nil => rw [decodePieces, List.append_nil]
  | char h ih => rw [decodePieces, ih, List.reverse_cons, List.append_assoc, List.singleton_append]
  | @unit u pieces text hleading htrailing h ih =>
    have hstep : decodePieces (.unit u :: pieces) done =
        decodePieces pieces (Char.ofNat u :: done) := by
      cases pieces with
      | nil => simp [decodePieces, hleading, htrailing]
      | cons piece pieces => cases piece <;> simp [decodePieces, hleading, htrailing]
    rw [hstep, ih, List.reverse_cons, List.append_assoc, List.singleton_append]
  | pair hleading htrailing h ih =>
    rw [decodePieces, if_pos hleading, if_pos htrailing, ih, List.reverse_cons, List.append_assoc,
      List.singleton_append]

theorem denote_of_decodePieces {done : List Char} (h : decodePieces pieces done = some text) :
    ∃ more, text = done.reverse ++ more ∧ Denote pieces more := by
  have hcons {c : Char} {pieces tail : List StringPiece} {done : List Char}
      (hdenote : ∀ more, Denote tail more → Denote pieces (c :: more))
      (htail : ∃ more, text = (c :: done).reverse ++ more ∧ Denote tail more) :
      ∃ more, text = done.reverse ++ more ∧ Denote pieces more := by
    obtain ⟨more, rfl, hmore⟩ := htail
    refine ⟨c :: more, ?_, hdenote more hmore⟩
    rw [List.reverse_cons, List.append_assoc, List.singleton_append]
  fun_induction decodePieces pieces done with
  | case1 done =>
    cases h
    exact ⟨[], (List.append_nil _).symm, .nil⟩
  | case2 c tail done ih => exact hcons (fun _ => .char) (ih h)
  | case3 u v tail done hu hv ih => exact hcons (fun _ => .pair hu hv) (ih h)
  | case4 => cases h
  | case5 => cases h
  | case6 u v tail done hu hv ih =>
    exact hcons (fun _ => .unit (Bool.eq_false_iff.2 hu) (Bool.eq_false_iff.2 hv)) (ih h)
  | case7 => cases h
  | case8 u tail done _ hu ih =>
    obtain ⟨hleading, htrailing⟩ := Bool.or_eq_false_iff.1 (Bool.eq_false_iff.2 hu)
    exact hcons (fun _ => .unit hleading htrailing) (ih h)

theorem decodePieces_eq_some_iff : decodePieces pieces [] = some text ↔ Denote pieces text := by
  constructor
  · intro h
    obtain ⟨more, rfl, hmore⟩ := denote_of_decodePieces h
    exact hmore
  · intro h
    exact decodePieces_of_denote h []

end Strings

section Numbers

/-- Digits, at least one. -/
def IsDigits (digits : List Char) : Prop := digits ≠ [] ∧ ∀ c ∈ digits, c.isDigit = true

/-- The integer part of a number: zero, or digits that do not begin with zero. -/
def IsWhole (digits : List Char) : Prop :=
  IsDigits digits ∧ (digits.head? = some '0' → digits = ['0'])

/-- The fraction of a number. -/
inductive IsFraction : List Char → Prop
  | absent : IsFraction []
  | present {digits : List Char} (h : IsDigits digits) : IsFraction ('.' :: digits)

/-- The exponent of a number. -/
inductive IsExponent : List Char → Prop
  | absent : IsExponent []
  | present {c : Char} {sign digits : List Char} (hc : c = 'e' ∨ c = 'E')
      (hsign : sign = [] ∨ sign = ['+'] ∨ sign = ['-']) (h : IsDigits digits) :
      IsExponent (c :: sign ++ digits)

/-- The parts of a number. -/
structure IsNumber (digits fraction exponent : List Char) : Prop where
  digits : IsWhole digits
  fraction : IsFraction fraction
  exponent : IsExponent exponent

/-- Digits end before a text. -/
def DigitsEnd (rest : List Char) : Prop := ∀ c ∈ rest.head?, c.isDigit = false

/-- A number ends before a text. -/
def Delimited (rest : List Char) : Prop :=
  ∀ c ∈ rest.head?, c.isDigit = false ∧ c ≠ '.' ∧ c ≠ 'e' ∧ c ≠ 'E'

variable {text digits fraction exponent rest : List Char}

theorem digitsEnd_of_delimited (h : Delimited rest) : DigitsEnd rest := fun c hc => (h c hc).1

theorem scanDigits?_append (hdigits : IsDigits digits) (hend : DigitsEnd rest) :
    scanDigits? (digits ++ rest) = some (digits, rest) := by
  obtain ⟨hne, hall⟩ := hdigits
  have hstop : rest.takeWhile Char.isDigit = [] ∧ rest.dropWhile Char.isDigit = rest := by
    cases rest with
    | nil => exact ⟨rfl, rfl⟩
    | cons c rest =>
      rw [List.takeWhile_cons, List.dropWhile_cons, hend c rfl]
      exact ⟨rfl, rfl⟩
  simp only [scanDigits?]
  rw [List.takeWhile_append_of_pos hall, List.dropWhile_append_of_pos hall, hstop.1, hstop.2,
    List.append_nil]
  cases digits with
  | nil => contradiction
  | cons c digits => rfl

theorem isDigits_of_scanDigits? (h : scanDigits? text = some (digits, rest)) :
    text = digits ++ rest ∧ IsDigits digits := by
  simp only [scanDigits?] at h
  split at h
  · cases h
  · next hne =>
    obtain ⟨rfl, rfl⟩ := Prod.mk.inj (Option.some.inj h)
    exact ⟨List.takeWhile_append_dropWhile.symm, hne, fun _ => List.mem_takeWhile_imp⟩

theorem scanInteger?_append (hwhole : IsWhole digits) (hend : DigitsEnd rest) :
    scanInteger? (digits ++ rest) = some (digits, rest) := by
  obtain ⟨hdigits, hzero⟩ := hwhole
  simp only [scanInteger?]
  rw [scanDigits?_append hdigits hend]
  split
  · next heq =>
    obtain ⟨rfl, -⟩ := Prod.mk.inj (Option.some.inj heq)
    cases hzero rfl
  · rfl

theorem isWhole_of_scanInteger? (h : scanInteger? text = some (digits, rest)) :
    text = digits ++ rest ∧ IsWhole digits := by
  simp only [scanInteger?] at h
  split at h
  · cases h
  · next hzero =>
    obtain ⟨htext, hdigits⟩ := isDigits_of_scanDigits? h
    refine ⟨htext, hdigits, fun hhead => ?_⟩
    cases digits with
    | nil => cases hhead
    | cons c digits =>
      obtain rfl := Option.some.inj hhead
      cases digits with
      | nil => rfl
      | cons d digits => exact absurd h (hzero d digits rest)

theorem IsFraction.digitsEnd (h : IsFraction fraction) (hend : DigitsEnd rest) :
    DigitsEnd (fraction ++ rest) := by
  cases h with
  | absent => exact hend
  | present =>
    intro c hc
    cases hc
    decide

theorem IsExponent.head?_append (h : IsExponent exponent) (hend : Delimited rest) :
    ∀ c ∈ (exponent ++ rest).head?, c.isDigit = false ∧ c ≠ '.' := by
  cases h with
  | absent => exact fun c hc => ⟨(hend c hc).1, (hend c hc).2.1⟩
  | present hletter hsign hdigits =>
    intro c hc
    cases hc
    rcases hletter with rfl | rfl <;> decide

theorem scanFraction?_append (hfraction : IsFraction fraction)
    (hend : ∀ c ∈ rest.head?, c.isDigit = false ∧ c ≠ '.') :
    scanFraction? (fraction ++ rest) = some (fraction, rest) := by
  cases hfraction with
  | absent =>
    rw [List.nil_append, scanFraction?]
    rintro tail rfl
    exact (hend '.' rfl).2 rfl
  | present hdigits =>
    rw [List.cons_append, scanFraction?, scanDigits?_append hdigits fun c hc => (hend c hc).1]
    rfl

theorem isFraction_of_scanFraction? (h : scanFraction? text = some (fraction, rest)) :
    text = fraction ++ rest ∧ IsFraction fraction := by
  simp only [scanFraction?] at h
  split at h
  · obtain ⟨⟨digits, rest'⟩, hscan, hpair⟩ := Option.map_eq_some_iff.1 h
    obtain ⟨rfl, rfl⟩ := Prod.mk.inj hpair
    obtain ⟨rfl, hdigits⟩ := isDigits_of_scanDigits? hscan
    exact ⟨rfl, .present hdigits⟩
  · obtain ⟨rfl, rfl⟩ := Prod.mk.inj (Option.some.inj h)
    exact ⟨rfl, .absent⟩

theorem scanSign_append {sign : List Char} (hsign : sign = [] ∨ sign = ['+'] ∨ sign = ['-'])
    (hdigits : IsDigits digits) : scanSign (sign ++ (digits ++ rest)) = (sign, digits ++ rest) := by
  obtain ⟨hne, hall⟩ := hdigits
  rcases hsign with rfl | rfl | rfl
  · cases digits with
    | nil => contradiction
    | cons c digits =>
      have hc := hall c List.mem_cons_self
      rw [List.nil_append, List.cons_append, scanSign]
      · intro tail heq
        cases heq
        cases hc
      · intro tail heq
        cases heq
        cases hc
  · rfl
  · rfl

theorem scanSign_sound (text : List Char) : text = (scanSign text).1 ++ (scanSign text).2 ∧
    ((scanSign text).1 = [] ∨ (scanSign text).1 = ['+'] ∨ (scanSign text).1 = ['-']) := by
  unfold scanSign
  split
  · exact ⟨rfl, .inr (.inl rfl)⟩
  · exact ⟨rfl, .inr (.inr rfl)⟩
  · exact ⟨rfl, .inl rfl⟩

theorem scanExponent?_append (hexponent : IsExponent exponent) (hend : Delimited rest) :
    scanExponent? (exponent ++ rest) = some (exponent, rest) := by
  cases hexponent with
  | absent =>
    cases rest with
    | nil => rfl
    | cons c rest =>
      obtain ⟨-, -, he, hE⟩ := hend c rfl
      exact if_neg (not_or.2 ⟨he, hE⟩)
  | @present c sign digits hc hsign hdigits =>
    rw [List.cons_append, List.cons_append, List.append_assoc, scanExponent?, if_pos hc,
      scanSign_append hsign hdigits, scanDigits?_append hdigits (digitsEnd_of_delimited hend)]
    rfl

theorem isExponent_of_scanExponent? (h : scanExponent? text = some (exponent, rest)) :
    text = exponent ++ rest ∧ IsExponent exponent := by
  cases text with
  | nil =>
    obtain ⟨rfl, rfl⟩ := Prod.mk.inj (Option.some.inj h)
    exact ⟨rfl, .absent⟩
  | cons c text =>
    simp only [scanExponent?] at h
    split at h
    · next hc =>
      obtain ⟨⟨digits, rest'⟩, hscan, hpair⟩ := Option.map_eq_some_iff.1 h
      obtain ⟨rfl, rfl⟩ := Prod.mk.inj hpair
      obtain ⟨htext, hsign⟩ := scanSign_sound text
      obtain ⟨hrest, hdigits⟩ := isDigits_of_scanDigits? hscan
      refine ⟨?_, .present hc hsign hdigits⟩
      rw [List.cons_append, List.cons_append, List.append_assoc, ← hrest, ← htext]
    · obtain ⟨rfl, rfl⟩ := Prod.mk.inj (Option.some.inj h)
      exact ⟨rfl, .absent⟩

/-- A number is taken whole where it ends before what follows. -/
theorem scanNumber?_append (negative : Bool) (h : IsNumber digits fraction exponent)
    (hend : Delimited rest) : scanNumber? negative (digits ++ (fraction ++ (exponent ++ rest))) =
      some (numberToken negative digits fraction exponent, rest) := by
  have hexponent := h.exponent.head?_append hend
  have hfraction := h.fraction.digitsEnd fun c hc => (hexponent c hc).1
  simp only [scanNumber?, scanInteger?_append h.digits hfraction,
    scanFraction?_append h.fraction hexponent, scanExponent?_append h.exponent hend,
    Option.bind_eq_bind, Option.bind_some]
  rfl

theorem isNumber_of_scanNumber? {negative : Bool} {token : Token}
    (h : scanNumber? negative text = some (token, rest)) : ∃ digits fraction exponent,
      IsNumber digits fraction exponent ∧ text = digits ++ (fraction ++ (exponent ++ rest)) ∧
        token = numberToken negative digits fraction exponent := by
  simp only [scanNumber?, Option.bind_eq_bind, Option.bind_eq_some_iff, Option.pure_def,
    Option.some.injEq, Prod.mk.injEq] at h
  obtain ⟨⟨digits, _⟩, hscan, ⟨fraction, _⟩, hscan', ⟨exponent, _⟩, hscan'', rfl, rfl⟩ := h
  obtain ⟨rfl, hdigits⟩ := isWhole_of_scanInteger? hscan
  obtain ⟨rfl, hfraction⟩ := isFraction_of_scanFraction? hscan'
  obtain ⟨rfl, hexponent⟩ := isExponent_of_scanExponent? hscan''
  exact ⟨digits, fraction, exponent, ⟨hdigits, hfraction, hexponent⟩, rfl, rfl⟩

end Numbers

end ReducedMips.Json
