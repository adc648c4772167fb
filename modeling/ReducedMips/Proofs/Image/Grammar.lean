import ReducedMips.Proofs.Exact.Basic
import ReducedMips.Proofs.Image.Numbers
import ReducedMips.Proofs.Tokens
/-!
# The grammar of images

An image is a text whose tokens are binary numbers of one width. A reader accepts such texts and no
others. Of what is wrong with a text it reports the first bad token, its width before its
characters, and only where no token is bad, a wrong number of tokens.
-/
namespace ReducedMips

namespace Numeral

theorem eq_of_binaryValue {cs ds : List Char} (hc : ∀ c ∈ cs, IsBinary c)
    (hd : ∀ d ∈ ds, IsBinary d) (hlen : cs.length = ds.length)
    (hv : binaryValue cs = binaryValue ds) : cs = ds := by
  induction cs generalizing ds with
  | nil => exact (List.length_eq_zero_iff.1 hlen.symm).symm
  | cons c cs ih =>
    cases ds with
    | nil => cases hlen
    | cons d ds =>
      have hlen' : cs.length = ds.length := Nat.succ.inj hlen
      have hcs := binaryValue_lt cs
      have hds := binaryValue_lt ds
      have ih := ih (fun e he => hc e (List.mem_cons_of_mem c he))
        (fun e he => hd e (List.mem_cons_of_mem d he)) hlen'
      simp only [binaryValue, hlen'] at hv hcs
      -- the rest of a number is less than the weight of its first digit
      have hhead : c = d := by
        rcases hc c List.mem_cons_self with rfl | rfl <;>
          rcases hd d List.mem_cons_self with rfl | rfl
        · rfl
        · simp at hv
          omega
        · simp at hv
          omega
        · rfl
      subst hhead
      rw [ih (Nat.add_left_cancel hv)]

end Numeral

namespace Image

open Numeral

/-- What a reader reports of a bad token: a wrong width, or else the first character that is no
binary digit. -/
inductive Malformed (width line : Nat) : List Char → ImageError → Prop
  | width {token : List Char} (hlen : token.length ≠ width) :
      Malformed width line token (.width line width token.length)
  | character {left right : List Char} {ch : Char} (hlen : (left ++ ch :: right).length = width)
      (hleft : ∀ c ∈ left, IsBinary c) (hch : ¬ IsBinary ch) :
      Malformed width line (left ++ ch :: right) (.character line ch)

/-- What a reader reports of tokens: the error of the first bad one, whatever comes after it. -/
def FirstError (width : Nat) (tokens : List (List Char)) (e : ImageError) : Prop :=
  ∃ before token after, tokens = before ++ token :: after ∧ (∀ t ∈ before, IsNumber width t) ∧
    Malformed width (before.length + 1) token e

/-- What the image of a program with given tokens is read as. -/
inductive ReadsProgram (tokens : List (List Char)) : Except ImageError Program → Prop
  | ok {p : Program} (hnumbers : ∀ t ∈ tokens, IsNumber 8 t)
      (hbytes : p.toList.map BitVec.toNat = tokens.map binaryValue) : ReadsProgram tokens (.ok p)
  | malformed {e : ImageError} (h : FirstError 8 tokens e) : ReadsProgram tokens (.error e)

/-- What the image of a memory with given tokens is read as. A cell keeps all the digits of its
token. -/
inductive ReadsMemory (capacity : Nat) (tokens : List (List Char)) :
    Except ImageError Memory → Prop
  | ok {m : Memory} (hnumbers : ∀ t ∈ tokens, IsNumber 32 t) (hcount : tokens.length = capacity)
      (hcells : m.toList.map BitVec.toInt = tokens.map fun t => Exact.signed (binaryValue t))
      (hdigits : m.toList.map binary = tokens) : ReadsMemory capacity tokens (.ok m)
  | malformed {e : ImageError} (h : FirstError 32 tokens e) :
      ReadsMemory capacity tokens (.error e)
  | count (hnumbers : ∀ t ∈ tokens, IsNumber 32 t) (hcount : tokens.length ≠ capacity) :
      ReadsMemory capacity tokens (.error (.lineCount capacity tokens.length))

variable {width : Nat} {tokens : List (List Char)}

theorem digits_ofNat {token : List Char} (h : IsNumber width token) :
    digits (BitVec.ofNat width (binaryValue token)) = token := by
  obtain ⟨rfl, hbinary⟩ := h
  apply eq_of_binaryValue (fun _ => isBinary_of_mem_digits) hbinary (length_digits _)
  rw [binaryValue_digits, BitVec.toNat_ofNat, Nat.mod_eq_of_lt (binaryValue_lt token)]

theorem toNat_ofNat_of_isNumber {token : List Char} (h : IsNumber width token) :
    (BitVec.ofNat width (binaryValue token)).toNat = binaryValue token := by
  rw [← binaryValue_digits, digits_ofNat h]

theorem readNumber_of_malformed {line : Nat} {token : List Char} {e : ImageError}
    (h : Malformed width line token e) : readNumber width line token = .error e := by
  simp only [readNumber]
  cases h with
  | width hlen => rw [if_pos hlen]
  | @character left right ch hlen hleft hch =>
    have hfind : (left ++ ch :: right).find? (!isBinaryDigit ·) = some ch := by
      rw [List.find?_eq_some_iff_append]
      refine ⟨by simpa [← isBinaryDigit_iff] using hch, left, right, rfl, ?_⟩
      intro c hc
      simp [isBinaryDigit_iff.2 (hleft c hc)]
    rw [if_neg (not_not_intro hlen), hfind]

theorem isNumber_or_malformed (width line : Nat) (token : List Char) :
    IsNumber width token ∨ ∃ e, Malformed width line token e := by
  by_cases hlen : token.length = width
  · cases hfind : token.find? (fun c => !decide (IsBinary c)) with
    | none =>
      left
      refine ⟨hlen, fun c hc => ?_⟩
      simpa using List.find?_eq_none.1 hfind c hc
    | some ch =>
      obtain ⟨hch, left, right, rfl, hleft⟩ := List.find?_eq_some_iff_append.1 hfind
      right
      exact ⟨_, .character hlen (by simpa using hleft) (by simpa using hch)⟩
  · exact .inr ⟨_, .width hlen⟩

/-- Reading stops at the first bad token. -/
private theorem mapM_of_malformed {before after : List (List Char)} {token : List Char}
    {e : ImageError} {line : Nat} (hbefore : ∀ t ∈ before, IsNumber width t)
    (htoken : Malformed width (before.length + line) token e) :
    ((before ++ token :: after).zipIdx line).mapM
      (fun (token, line) => readNumber width line token) = .error e := by
  induction before generalizing line with
  | nil =>
    rw [List.length_nil, Nat.zero_add] at htoken
    rw [List.nil_append, List.zipIdx_cons, List.mapM_cons]
    dsimp only
    rw [readNumber_of_malformed htoken]
    rfl
  | cons t before ih =>
    rw [List.length_cons, Nat.add_assoc, Nat.add_comm 1] at htoken
    have ih := ih (fun s hs => hbefore s (List.mem_cons_of_mem t hs)) htoken
    rw [List.cons_append, List.zipIdx_cons, List.mapM_cons]
    dsimp only
    rw [readNumber_of_isNumber line (hbefore t List.mem_cons_self), ih]
    rfl

theorem readNumbers_of_firstError {text : List Char} {e : ImageError}
    (h : FirstError width (Text.tokens text) e) : readNumbers width text = .error e := by
  obtain ⟨before, token, after, htokens, hbefore, htoken⟩ := h
  simp only [readNumbers]
  rw [htokens]
  exact mapM_of_malformed hbefore htoken

theorem forall_isNumber_or_firstError (width : Nat) (tokens : List (List Char)) :
    (∀ t ∈ tokens, IsNumber width t) ∨ ∃ e, FirstError width tokens e := by
  cases hfind : tokens.find? (fun t => !decide (IsNumber width t)) with
  | none =>
    left
    intro t ht
    simpa using List.find?_eq_none.1 hfind t ht
  | some token =>
    obtain ⟨hbad, before, after, htokens, hbefore⟩ := List.find?_eq_some_iff_append.1 hfind
    right
    obtain hnumber | ⟨e, he⟩ := isNumber_or_malformed width (before.length + 1) token
    · simp [hnumber] at hbad
    · exact ⟨e, before, token, after, htokens, by simpa using hbefore, he⟩

theorem parseProgram_eq_iff {text : String} {answer : Except ImageError Program} :
    parseProgram text = answer ↔ ReadsProgram (Text.tokens text.toList) answer := by
  constructor
  · rintro rfl
    obtain h | ⟨e, h⟩ := forall_isNumber_or_firstError 8 (Text.tokens text.toList)
    · rw [parseProgram_of_ok (readNumbers_of_forall h)]
      refine .ok h ?_
      rw [Program.toList_ofList, List.map_map, List.map_map]
      exact List.map_congr_left fun t ht => toNat_ofNat_of_isNumber (h t ht)
    · rw [parseProgram_of_error (readNumbers_of_firstError h)]
      exact .malformed h
  · intro h
    cases h with
    | ok hnumbers hbytes =>
      rw [parseProgram_of_ok (readNumbers_of_forall hnumbers), ← hbytes, map_ofNat_toNat,
        Program.ofList_toList]
    | malformed h => exact parseProgram_of_error (readNumbers_of_firstError h)

theorem parseMemory_eq_iff {text : String} {capacity : Nat} {answer : Except ImageError Memory} :
    parseMemory text capacity = answer ↔
      ReadsMemory capacity (Text.tokens text.toList) answer := by
  constructor
  · rintro rfl
    obtain h | ⟨e, h⟩ := forall_isNumber_or_firstError 32 (Text.tokens text.toList)
    · rw [parseMemory_of_ok (readNumbers_of_forall h), List.length_map]
      by_cases hcount : (Text.tokens text.toList).length = capacity
      · rw [if_pos hcount]
        refine .ok h hcount ?_ ?_
        · rw [Memory.toList_ofList, List.map_map, List.map_map]
          exact List.map_congr_left fun t _ => BitVec.toInt_ofNat' (binaryValue t)
        · rw [Memory.toList_ofList, List.map_map, List.map_map]
          exact (List.map_congr_left fun t ht => digits_ofNat (h t ht)).trans (List.map_id _)
      · rw [if_neg hcount]
        exact .count h hcount
    · rw [parseMemory_of_error (readNumbers_of_firstError h)]
      exact .malformed h
  · intro h
    cases h with
    | @ok m hnumbers hcount hcells hdigits =>
      have hcapacity : capacity = m.toList.length := by
        rw [← hcount, ← hdigits, List.length_map]
      rw [hcapacity]
      exact parseMemory_of_tokens hdigits.symm
    | malformed h => exact parseMemory_of_error (readNumbers_of_firstError h) capacity
    | count hnumbers hcount =>
      rw [parseMemory_of_ok (readNumbers_of_forall hnumbers), List.length_map, if_neg hcount]

/-- The readers accept the images of their grammar and no others, and each text has one answer. -/
theorem images_read_exactly (text : String) (capacity : Nat) :
    ∃ tokens, (∀ ts, Text.Tokenizes text.toList ts ↔ ts = tokens) ∧
      (∀ answer, parseProgram text = answer ↔ ReadsProgram tokens answer) ∧
      ∀ answer, parseMemory text capacity = answer ↔ ReadsMemory capacity tokens answer := by
  refine ⟨Text.tokens text.toList, ?_, ?_, ?_⟩
  · intro ts
    exact Text.tokenizes_iff
  · intro answer
    exact parseProgram_eq_iff
  · intro answer
    exact parseMemory_eq_iff

/-- A bad character in the second number wins over the short number after it. -/
example : parseProgram "00000101\u00A0000a000b 1\n" = .error (.character 2 'a') := rfl

end Image

end ReducedMips
