import Mathlib.Data.List.Forall2
import ReducedMips.Proofs.Json.RoundTrip
import ReducedMips.Proofs.Json.Reader
/-!
# Snapshots of structures

A structure is written as an object with its fields in order. It is read from the values of its
fields, whether these are given by an object with its keys in any order or by an array in the order
of the fields.
-/
namespace ReducedMips

open Json

namespace Snapshot

/-- What is written has no fractions in it and is read back. -/
class Lawful (α : Type) [Snapshot α] : Prop where
  plain_toJson (value : α) : (toJson value).Plain
  ofJson?_toJson (value : α) : ofJson? (toJson value) = some value

theorem read?_write [Snapshot α] [Lawful α] (value : α) : read? α (write value) = some value := by
  rw [read?, write, (Lawful.plain_toJson value).parse?_compact, Option.bind_some,
    Lawful.ofJson?_toJson]

/-- A field of a structure, with its type and how its values are written and read. -/
structure StructField (α : Type) where
  name : String
  Value : Type
  get : α → Value
  toJson : Value → Json
  ofJson? : Json → Option Value

namespace StructField

variable {α : Type}

def word (name : String) (get : α → Word) : StructField α := ⟨name, Word, get, ofWord, word?⟩

def count (name : String) (get : α → Count) : StructField α := ⟨name, Count, get, ofCount, count?⟩

def words (name : String) (get : α → List Word) : StructField α :=
  ⟨name, List Word, get, fun words => .array (words.map ofSigned),
    fun json => json.items?.bind (List.mapM signed?)⟩

def part [Snapshot β] (name : String) (get : α → β) : StructField α :=
  ⟨name, β, get, Snapshot.toJson, Snapshot.ofJson?⟩

/-- The field of a structure as a member of an object. -/
def member (value : α) (f : StructField α) : String × Json := (f.name, f.toJson (f.get value))

/-- A value in JSON gives the field the content that it has in a structure. -/
def Gives (value : α) (f : StructField α) (json : Json) : Prop :=
  f.ofJson? json = some (f.get value)

/-- What is written for the field has no fractions in it and is read back. -/
structure Lawful (f : StructField α) : Prop where
  plain_toJson (x : f.Value) : (f.toJson x).Plain
  ofJson?_toJson (x : f.Value) : f.ofJson? (f.toJson x) = some x

theorem lawful_word (name : String) (get : α → Word) : (word name get).Lawful :=
  ⟨fun x => .integer x.toNat, word?_ofWord⟩

theorem lawful_count (name : String) (get : α → Count) : (count name get).Lawful :=
  ⟨fun x => .integer x.toNat, count?_ofCount⟩

theorem lawful_words (name : String) (get : α → List Word) : (words name get).Lawful where
  plain_toJson x := by
    refine .array fun v hv => ?_
    obtain ⟨w, -, rfl⟩ := List.mem_map.1 hv
    exact .integer w.toInt
  ofJson?_toJson := mapM_signed?_map_ofSigned

theorem lawful_part [Snapshot β] [Snapshot.Lawful β] (name : String) (get : α → β) :
    (part name get).Lawful :=
  ⟨fun x : β => Snapshot.Lawful.plain_toJson x, fun x : β => Snapshot.Lawful.ofJson?_toJson x⟩

end StructField

/-- A structure is written as an object with its fields in order, and it is read from the values
that are given for its fields. -/
structure HasFields (α : Type) [Snapshot α] (fields : List (StructField α)) : Prop where
  nodup : (fields.map StructField.name).Nodup
  lawful : ∀ f ∈ fields, f.Lawful
  toJson_eq (value : α) : toJson value = ofMembers (fields.map (StructField.member value))
  ofJson?_iff {json : Json} {given : List Json} (value : α)
    (hlength : given.length = fields.length)
    (h : json.fields? (fields.map StructField.name) .ignored = some (given.map some)) :
    ofJson? json = some value ↔ List.Forall₂ (StructField.Gives value) fields given

namespace HasFields

variable {α : Type} [Snapshot α] {fields : List (StructField α)} {given : List Json}
  {members : List (String × Json)}

theorem gives_toJson (h : HasFields α fields) (value : α) :
    List.Forall₂ (StructField.Gives value) fields
      (fields.map fun f => f.toJson (f.get value)) := by
  rw [List.forall₂_map_right_iff, List.forall₂_same]
  intro f hf
  exact (h.lawful f hf).ofJson?_toJson (f.get value)

theorem ofJson?_ofMembers (h : HasFields α fields) (hlength : given.length = fields.length)
    (hmembers : members.Perm ((fields.map StructField.name).zip given)) (value : α) :
    ofJson? (ofMembers members) = some value ↔
      List.Forall₂ (StructField.Gives value) fields given :=
  h.ofJson?_iff value hlength
    (fields?_ofMembers h.nodup (hlength.trans (List.length_map StructField.name).symm) hmembers)

theorem ofJson?_array (h : HasFields α fields) (hlength : given.length = fields.length)
    (value : α) :
    ofJson? (.array given : Json) = some value ↔
      List.Forall₂ (StructField.Gives value) fields given :=
  h.ofJson?_iff value hlength
    (fields?_array (hlength.trans (List.length_map StructField.name).symm))

omit [Snapshot α] in
theorem map_member (fields : List (StructField α)) (value : α) :
    fields.map (StructField.member value) =
      (fields.map StructField.name).zip (fields.map fun f => f.toJson (f.get value)) :=
  List.zip_map'.symm

theorem ofJson?_of_perm (h : HasFields α fields) (value : α)
    (hmembers : members.Perm (fields.map (StructField.member value))) :
    ofJson? (ofMembers members) = some value := by
  rw [map_member] at hmembers
  exact (h.ofJson?_ofMembers (List.length_map _) hmembers value).2 (h.gives_toJson value)

theorem plain_ofMembers (h : HasFields α fields) (value : α)
    (hmembers : members.Perm (fields.map (StructField.member value))) :
    (ofMembers members).Plain := by
  refine .ofMembers fun m hm => ?_
  obtain ⟨f, hf, rfl⟩ := List.mem_map.1 (hmembers.mem_iff.1 hm)
  exact (h.lawful f hf).plain_toJson (f.get value)

theorem plain_array (h : HasFields α fields) (value : α) :
    (Json.array (fields.map fun f => f.toJson (f.get value))).Plain := by
  refine .array fun json hjson => ?_
  obtain ⟨f, hf, rfl⟩ := List.mem_map.1 hjson
  exact (h.lawful f hf).plain_toJson (f.get value)

theorem toLawful (h : HasFields α fields) : Lawful α where
  plain_toJson value := by
    rw [h.toJson_eq]
    exact h.plain_ofMembers value (List.Perm.refl _)
  ofJson?_toJson value := by
    rw [h.toJson_eq]
    exact h.ofJson?_of_perm value (List.Perm.refl _)

end HasFields

/-- Every value is read back from what is written for it, and what is written for an accepted text
is accepted and written in the same way. -/
structure RoundTrips (α : Type) [Snapshot α] : Prop where
  reads (value : α) : read? α (write value) = some value
  settles {text output : String} (h : (read? α text).map write = some output) :
    (read? α output).map write = some output

theorem roundTrips (α : Type) [Snapshot α] [Lawful α] : RoundTrips α where
  reads := read?_write
  settles h := by
    obtain ⟨value, -, rfl⟩ := Option.map_eq_some_iff.1 h
    rw [read?_write]
    rfl

/-- A structure is written as an object with its fields in order. It is read from an object with
its keys in any order as from the array of the same values, namely as the structure whose fields
have these values. -/
structure ReadsByFields (α : Type) [Snapshot α] (fields : List (StructField α)) : Prop where
  write_eq (value : α) : write value = (ofMembers (fields.map (StructField.member value))).compact
  forms {given : List Json} {members : List (String × Json)} {object array : String}
    (hlength : given.length = fields.length)
    (hmembers : members.Perm ((fields.map StructField.name).zip given))
    (hobject : parse? object = some (ofMembers members))
    (harray : parse? array = some (.array given)) :
    read? α object = read? α array ∧
      ∀ value, read? α array = some value ↔ List.Forall₂ (StructField.Gives value) fields given
  reads_object {members : List (String × Json)} (value : α)
    (h : members.Perm (fields.map (StructField.member value))) :
    read? α (ofMembers members).compact = some value
  reads_array (value : α) :
    read? α (Json.array (fields.map fun f => f.toJson (f.get value))).compact = some value

theorem HasFields.readsByFields {α : Type} [Snapshot α] {fields : List (StructField α)}
    (h : HasFields α fields) : ReadsByFields α fields where
  write_eq value := congrArg compact (h.toJson_eq value)
  forms := by
    intro given members object array hlength hmembers hobject harray
    rw [read?, read?, hobject, harray, Option.bind_some, Option.bind_some]
    have hread := h.ofJson?_array hlength
    refine ⟨Option.ext fun value => ?_, hread⟩
    rw [hread, h.ofJson?_ofMembers hlength hmembers]
  reads_object value hmembers := by
    rw [read?, (h.plain_ofMembers value hmembers).parse?_compact, Option.bind_some,
      h.ofJson?_of_perm value hmembers]
  reads_array value := by
    rw [read?, (h.plain_array value).parse?_compact, Option.bind_some,
      (h.ofJson?_array (List.length_map _) value).2 (h.gives_toJson value)]

end Snapshot

end ReducedMips
