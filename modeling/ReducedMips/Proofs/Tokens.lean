import ReducedMips.Proofs.Text
/-!
# Tokens

The tokens of a text are its maximal runs of characters that are not blank. Each text falls into
tokens in one way, and this is how it is divided.
-/
namespace ReducedMips.Text

/-- A text and its tokens. A token ends where the text ends or where a blank follows. -/
inductive Tokenizes : List Char → List (List Char) → Prop
  | nil : Tokenizes [] []
  | blank {c : Char} {text : List Char} {ts : List (List Char)} (hc : isBlank c = true)
      (h : Tokenizes text ts) : Tokenizes (c :: text) ts
  | token {t rest : List Char} {ts : List (List Char)} (hne : t ≠ [])
      (ht : ∀ c ∈ t, isBlank c = false) (hrest : ∀ c ∈ rest.head?, isBlank c = true)
      (h : Tokenizes rest ts) : Tokenizes (t ++ rest) (t :: ts)

theorem tokens_cons_blank {c : Char} (hc : isBlank c = true) (text : List Char) :
    tokens (c :: text) = tokens text :=
  runs_append_separator hc [] text

theorem tokens_append_token {t rest : List Char} (hne : t ≠ [])
    (ht : ∀ c ∈ t, isBlank c = false) (hrest : ∀ c ∈ rest.head?, isBlank c = true) :
    tokens (t ++ rest) = t :: tokens rest := by
  have hruns : runs isBlank t = [t] := runs_of_forall hne ht
  cases rest with
  | nil =>
    rw [List.append_nil]
    exact hruns
  | cons c rest =>
    have hc : isBlank c = true := hrest c rfl
    rw [tokens_cons_blank hc]
    change runs isBlank (t ++ c :: rest) = t :: runs isBlank rest
    rw [runs_append_separator hc, hruns, List.singleton_append]

theorem Tokenizes.tokens_eq {text : List Char} {ts : List (List Char)} (h : Tokenizes text ts) :
    tokens text = ts := by
  induction h with
  | nil => rfl
  | blank hc h ih => rw [tokens_cons_blank hc, ih]
  | token hne ht hrest h ih => rw [tokens_append_token hne ht hrest, ih]

theorem exists_tokenizes (text : List Char) : ∃ ts, Tokenizes text ts := by
  induction text with
  | nil => exact ⟨[], .nil⟩
  | cons c text ih =>
    obtain ⟨ts, h⟩ := ih
    cases hc : isBlank c with
    | true => exact ⟨ts, .blank hc h⟩
    | false =>
      -- the character starts a token of its own or joins the one that follows
      have hsingle : ∀ d ∈ [c], isBlank d = false := by simpa using hc
      cases h with
      | nil => exact ⟨[[c]], .token (List.cons_ne_nil c []) hsingle (by simp) .nil⟩
      | blank hd h =>
        exact ⟨[c] :: ts, .token (List.cons_ne_nil c []) hsingle (by simpa using hd) (.blank hd h)⟩
      | @token t rest ts hne ht hrest h =>
        refine ⟨(c :: t) :: ts, .token (List.cons_ne_nil c t) ?_ hrest h⟩
        exact List.forall_mem_cons.2 ⟨hc, ht⟩

/-- A text falls into its tokens in one way. -/
theorem tokenizes_iff {text : List Char} {ts : List (List Char)} :
    Tokenizes text ts ↔ ts = tokens text := by
  constructor
  · intro h
    exact h.tokens_eq.symm
  · rintro rfl
    obtain ⟨ts, h⟩ := exists_tokenizes text
    rwa [h.tokens_eq]

end ReducedMips.Text
