import Mathlib.Data.List.Nodup
import ReducedMips.Json.Reader
import ReducedMips.Snapshot
/-!
# Fields of structures

A number in the range of its type is read back. The fields of a structure are found in an object
whatever the order of its keys, and in the array of their values.
-/
namespace ReducedMips.Json

theorem unsigned?_toNat {width : Nat} (x : BitVec width) :
    unsigned? width (.integer x.toNat) = some x := by
  have hx := x.isLt
  have hmax : (BitVec.allOnes width).toNat = 2 ^ width - 1 := BitVec.toNat_allOnes
  have hrange : (0 : Int) ≤ x.toNat ∧ (x.toNat : Int) ≤ (BitVec.allOnes width).toNat := by
    rw [hmax]
    omega
  rw [unsigned?, if_pos hrange, BitVec.ofInt_natCast, BitVec.ofNat_toNat, BitVec.setWidth_eq]

theorem word?_ofWord (w : Word) : (ofWord w).word? = some w := unsigned?_toNat w

theorem count?_ofCount (n : Count) : (ofCount n).count? = some n := unsigned?_toNat n

theorem signed?_ofSigned (w : Word) : (ofSigned w).signed? = some w := by
  have hlow : -2 ^ 31 ≤ w.toInt := BitVec.le_toInt w
  have hhigh : w.toInt < 2 ^ 31 := BitVec.toInt_lt
  have hrange : (BitVec.intMin 32).toInt ≤ w.toInt ∧ w.toInt ≤ (BitVec.intMax 32).toInt := by
    have hmin : (BitVec.intMin 32).toInt = -2 ^ 31 := by decide
    have hmax : (BitVec.intMax 32).toInt = 2 ^ 31 - 1 := by decide
    omega
  rw [ofSigned, signed?, if_pos hrange, BitVec.ofInt_toInt]

theorem mapM_signed?_map_ofSigned (words : List Word) :
    (words.map ofSigned).mapM signed? = some words := by
  have hread : signed? ∘ ofSigned = pure := funext signed?_ofSigned
  rw [List.mapM_map, hread]
  exact List.mapM_pure.trans (congrArg some (List.map_id words))

theorem count?_eq_some_iff {value : Json} {n : Count} :
    value.count? = some n ↔ value = ofCount n := by
  constructor
  · intro h
    cases value with
    | integer k =>
      simp only [count?, unsigned?] at h
      split at h
      · next hrange =>
        obtain ⟨hnonneg, hmax⟩ := hrange
        rw [BitVec.toNat_allOnes] at hmax
        cases h
        rw [ofCount, BitVec.toNat_ofInt]
        congr 1
        omega
      · cases h
    | _ => cases h
  · rintro rfl
    exact count?_ofCount n

theorem text?_eq_some_iff {value : Json} {s : String} :
    value.text? = some s ↔ value = ofText s := by
  cases value with
  | text t => simp [text?, ofText]
  | _ => simp [text?, ofText]

/-- The members that give the named fields their values. A field may have none. -/
def present : List String → List (Option Json) → List (String × Json)
  | name :: names, value :: values => (value.map (name, ·)).toList ++ present names values
  | _, _ => []

/-- A value in JSON that supplies the named fields with values: an object of members in any order,
or an array of the first values, when there are none after them. -/
inductive Supplies (values : List (Option Json)) (names : List String) : Json → Prop
  | object {members : List (String × Json)} (h : members.Perm (present names values)) :
      Supplies values names (ofMembers members)
  | array {items : List Json} {missing : Nat}
      (h : values = items.map some ++ List.replicate missing none) :
      Supplies values names (.array items)

variable {names : List String} {values : List (Option Json)} {members : List (String × Json)}
  {unknown : UnknownKeys}

theorem sublist_keys_present : ((present names values).map Prod.fst).Sublist names := by
  induction names generalizing values with
  | nil => exact .slnil
  | cons name names ih =>
    cases values with
    | nil => exact List.nil_sublist _
    | cons value values =>
      cases value with
      | none => exact ih.cons name
      | some v => exact ih.cons_cons name

theorem mem_of_mem_present {m : String × Json} (h : m ∈ present names values) : m.1 ∈ names :=
  sublist_keys_present.mem (List.mem_map_of_mem h)

theorem member?_eq_some_iff {key : String} {value : Option Json} :
    member? (members.map fun (key, value) => (some key, value)) key = some value ↔
      members.filter (·.1 = key) = (value.map (key, ·)).toList := by
  have hfilter : (members.map fun (key, value) => (some key, value)).filter (·.1 = some key) =
      (members.filter (·.1 = key)).map fun (key, value) => (some key, value) := by
    rw [List.filter_map]
    congr 2
    funext m
    simp
  have hkeys : ∀ m ∈ members.filter (·.1 = key), m.1 = key :=
    fun m hm => of_decide_eq_true (List.mem_filter.1 hm).2
  rw [member?, hfilter]
  generalize members.filter (·.1 = key) = found at hkeys
  match found with
  | [] => cases value <;> simp
  | [(k, v)] =>
    obtain rfl : k = key := hkeys _ List.mem_cons_self
    cases value <;> simp
  | _ :: _ :: _ => cases value <;> simp

theorem mapM_eq_some_iff {f : String → Option (Option Json)} :
    names.mapM f = some values ↔
      values.length = names.length ∧ ∀ m ∈ names.zip values, f m.1 = some m.2 := by
  induction names generalizing values with
  | nil => cases values <;> simp
  | cons name names ih =>
    rw [List.mapM_cons]
    cases values with
    | nil => simp [Option.bind_eq_some_iff]
    | cons value values =>
      have hzip : (∀ m ∈ (name :: names).zip (value :: values), f m.1 = some m.2) ↔
          f name = some value ∧ ∀ m ∈ names.zip values, f m.1 = some m.2 := by
        rw [List.zip_cons_cons, List.forall_mem_cons]
      rw [hzip, List.length_cons, List.length_cons, Nat.succ_inj]
      constructor
      · intro h
        obtain ⟨v, hv, h⟩ := Option.bind_eq_some_iff.1 h
        obtain ⟨vs, hvs, h⟩ := Option.bind_eq_some_iff.1 h
        obtain ⟨rfl, rfl⟩ := List.cons.inj (Option.some.inj h)
        exact ⟨(ih.1 hvs).1, hv, (ih.1 hvs).2⟩
      · rintro ⟨hlength, hv, hvs⟩
        rw [hv, ih.2 ⟨hlength, hvs⟩]
        rfl

/-- The members with another key than the given one. -/
def others (name : String) (members : List (String × Json)) : List (String × Json) :=
  members.filter fun m => !decide (m.1 = name)

theorem filter_others {name key : String} (hne : key ≠ name) (members : List (String × Json)) :
    (others name members).filter (·.1 = key) = members.filter (·.1 = key) := by
  rw [others, List.filter_filter]
  apply List.filter_congr
  intro m _
  by_cases hm : m.1 = key <;> simp [hm, hne]

theorem filter_present_eq_nil {name : String} (h : name ∉ names) :
    (present names values).filter (·.1 = name) = [] := by
  rw [List.filter_eq_nil_iff]
  intro m hm heq
  exact h (of_decide_eq_true heq ▸ mem_of_mem_present hm)

theorem others_present {name : String} (h : name ∉ names) :
    others name (present names values) = present names values := by
  rw [others, List.filter_eq_self]
  intro m hm
  have hne : m.1 ≠ name := fun heq => h (heq ▸ mem_of_mem_present hm)
  simp [hne]

theorem perm_present_cons_iff {name : String} {value : Option Json} (hname : name ∉ names) :
    members.Perm (present (name :: names) (value :: values)) ↔
      members.filter (·.1 = name) = (value.map (name, ·)).toList ∧
        (others name members).Perm (present names values) := by
  let first := (value.map (name, ·)).toList
  have hfirst : (first ++ present names values).filter (·.1 = name) = first := by
    rw [List.filter_append, filter_present_eq_nil hname, List.append_nil]
    cases value <;> simp [first]
  have hothers : others name (first ++ present names values) = present names values := by
    have hnone : others name first = [] := by
      cases value <;> simp [others, first]
    rw [others, List.filter_append, ← others, ← others, hnone, others_present hname,
      List.nil_append]
  rw [present]
  constructor
  · intro h
    have hperm := h.filter fun m => decide (m.1 = name)
    rw [hfirst] at hperm
    refine ⟨?_, hothers ▸ h.filter _⟩
    cases value with
    | none => exact List.perm_nil.1 hperm
    | some v => exact List.perm_singleton.1 hperm
  · rintro ⟨hmembers, h⟩
    have hdivide := List.filter_append_perm (fun m : String × Json => decide (m.1 = name)) members
    rw [hmembers] at hdivide
    exact hdivide.symm.trans (h.append_left _)

theorem perm_present_iff (hnodup : names.Nodup) (hlength : values.length = names.length)
    (hkeys : ∀ m ∈ members, m.1 ∈ names) :
    (∀ m ∈ names.zip values, members.filter (·.1 = m.1) = (m.2.map (m.1, ·)).toList) ↔
      members.Perm (present names values) := by
  induction names generalizing members values with
  | nil =>
    have hnil : members = [] := List.eq_nil_iff_forall_not_mem.2 fun m hm => nomatch hkeys m hm
    subst hnil
    simp [present]
  | cons name names ih =>
    cases values with
    | nil => cases hlength
    | cons value values =>
      obtain ⟨hname, hnodup⟩ := List.nodup_cons.1 hnodup
      -- the members with other keys are left to the other names
      have hothers : ∀ m ∈ others name members, m.1 ∈ names := by
        intro m hm
        obtain ⟨hmem, hne⟩ := List.mem_filter.1 hm
        exact (List.mem_cons.1 (hkeys m hmem)).resolve_left (by simpa using hne)
      rw [perm_present_cons_iff hname, List.zip_cons_cons, List.forall_mem_cons,
        ← ih hnodup (Nat.succ.inj hlength) hothers]
      refine and_congr_right fun _ => forall₂_congr fun m hm => ?_
      have hne : m.1 ≠ name := by
        rintro rfl
        exact hname (List.of_mem_zip hm).1
      rw [filter_others hne]

/-- The values of distinct fields are found in an object if and only if its members are those that
give them. -/
theorem fields?_ofMembers_iff (hnodup : names.Nodup) (hkeys : ∀ m ∈ members, m.1 ∈ names) :
    (ofMembers members).fields? names unknown = some values ↔
      values.length = names.length ∧ members.Perm (present names values) := by
  rw [ofMembers, fields?, if_pos ?accepts, mapM_eq_some_iff]
  case accepts =>
    rw [List.all_eq_true, List.forall_mem_map]
    intro m hm
    simp [acceptsKey, hkeys m hm]
  simp only [member?_eq_some_iff]
  constructor
  · rintro ⟨hlength, h⟩
    exact ⟨hlength, (perm_present_iff hnodup hlength hkeys).1 h⟩
  · rintro ⟨hlength, h⟩
    exact ⟨hlength, (perm_present_iff hnodup hlength hkeys).2 h⟩

theorem exists_ofMembers {ms : List (Option String × Json)}
    (h : ∀ m ∈ ms, acceptsKey names .refused m.1 = true) :
    ∃ members, object ms = ofMembers members ∧ ∀ m ∈ members, m.1 ∈ names := by
  induction ms with
  | nil => exact ⟨[], rfl, List.forall_mem_nil _⟩
  | cons m ms ih =>
    obtain ⟨hm, hms⟩ := List.forall_mem_cons.1 h
    obtain ⟨members, hobject, hkeys⟩ := ih hms
    obtain ⟨key, value⟩ := m
    cases key with
    | none => cases hm
    | some key =>
      refine ⟨(key, value) :: members, ?_, ?_⟩
      · rw [ofMembers, List.map_cons, object.inj hobject]
      · rw [List.forall_mem_cons]
        exact ⟨by simpa [acceptsKey] using hm, hkeys⟩

theorem fields?_array_iff {items : List Json} :
    (array items).fields? names unknown = some values ↔ values.length = names.length ∧
      ∃ missing, values = items.map some ++ List.replicate missing none := by
  rw [fields?]
  constructor
  · intro h
    split at h
    · next hle =>
      obtain rfl := Option.some.inj h
      refine ⟨?_, names.length - items.length, rfl⟩
      rw [List.length_append, List.length_map, List.length_replicate]
      omega
    · cases h
  · rintro ⟨hlength, missing, rfl⟩
    rw [List.length_append, List.length_map, List.length_replicate] at hlength
    rw [if_pos (by omega), show names.length - items.length = missing by omega]

theorem fields?_refused_iff (hnodup : names.Nodup) {value : Json} :
    value.fields? names .refused = some values ↔
      values.length = names.length ∧ Supplies values names value := by
  constructor
  · intro h
    cases value with
    | object ms =>
      have haccepts : ∀ m ∈ ms, acceptsKey names .refused m.1 = true := by
        rw [fields?] at h
        split at h
        · next haccepts => exact List.all_eq_true.1 haccepts
        · cases h
      obtain ⟨members, hobject, hkeys⟩ := exists_ofMembers haccepts
      rw [hobject] at h ⊢
      obtain ⟨hlength, h⟩ := (fields?_ofMembers_iff hnodup hkeys).1 h
      exact ⟨hlength, .object h⟩
    | array items =>
      obtain ⟨hlength, missing, h⟩ := fields?_array_iff.1 h
      exact ⟨hlength, .array h⟩
    | _ => cases h
  · rintro ⟨hlength, h⟩
    cases h with
    | object h =>
      exact (fields?_ofMembers_iff hnodup fun m hm => mem_of_mem_present (h.mem_iff.1 hm)).2
        ⟨hlength, h⟩
    | array h => exact fields?_array_iff.2 ⟨hlength, _, h⟩

theorem present_map_some_append (names : List String) (given : List Json) (missing : Nat) :
    present names (given.map some ++ List.replicate missing none) = names.zip given := by
  induction names generalizing given missing with
  | nil => rfl
  | cons name names ih =>
    cases given with
    | cons value given =>
      rw [List.map_cons, List.cons_append, present, ih]
      rfl
    | nil =>
      cases missing with
      | zero => rfl
      | succ missing =>
        have hnone : present names (List.replicate missing none) = names.zip [] := ih [] missing
        rw [List.zip_nil_right] at hnone ⊢
        exact hnone

theorem fields?_ofMembers {given : List Json} (hnodup : names.Nodup)
    (hlength : given.length = names.length) (h : members.Perm (names.zip given)) :
    (ofMembers members).fields? names unknown = some (given.map some) := by
  have hpresent := present_map_some_append names given 0
  rw [List.replicate_zero, List.append_nil] at hpresent
  rw [← hpresent] at h
  exact (fields?_ofMembers_iff hnodup fun m hm => mem_of_mem_present (h.mem_iff.1 hm)).2
    ⟨(List.length_map some).trans hlength, h⟩

/-- An array gives the same fields as the object that assigns its items to the first names. -/
theorem fields?_array_eq_ofMembers {given : List Json} (hnodup : names.Nodup)
    (hlength : given.length ≤ names.length) : (array given).fields? names unknown =
      (ofMembers (names.zip given)).fields? names unknown := by
  have hpresent := present_map_some_append names given (names.length - given.length)
  have hkeys : ∀ m ∈ names.zip given, m.1 ∈ names := fun m hm => (List.of_mem_zip hm).1
  rw [fields?, if_pos hlength, (fields?_ofMembers_iff hnodup hkeys).2 ⟨?_, .of_eq hpresent.symm⟩]
  rw [List.length_append, List.length_map, List.length_replicate]
  omega

theorem fields?_array {given : List Json} (hlength : given.length = names.length) :
    (array given).fields? names unknown = some (given.map some) :=
  fields?_array_iff.2 ⟨(List.length_map some).trans hlength, 0, (List.append_nil _).symm⟩

end ReducedMips.Json
