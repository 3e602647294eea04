import HumanDataFactory.Python.Json

/-!
# JSON Schema

The keywords that structured outputs use: typed values, closed objects with
required properties, arrays, and enumerations.
-/

namespace HumanDataFactory

namespace Json

/-- The integers of JSON Schema: a number without a fractional part. -/
def integer? : Json → Option ℤ
  | int z => some z
  | float (.finite q) => if q.den = 1 then some q.num else none
  | _ => none

end Json

/-- `object` stands for `additionalProperties: false`. -/
inductive Schema
  | object (properties : List (String × Schema)) (required : List String)
  | array (items : Schema)
  | string (enum : Option (List String))
  | integer (enum : List ℤ)
  | boolean

namespace Schema

mutual

def Admits : Schema → Json → Prop
  | object properties required, .obj kvs =>
      (∀ k ∈ required, (Json.lookup kvs k).isSome = true) ∧
        ∀ kv ∈ kvs, AdmitsProperty properties kv
  | array items, .arr xs => ∀ x ∈ xs, Admits items x
  | string enum, .str s => ∀ ss ∈ enum, s ∈ ss
  | integer enum, x => ∃ z ∈ enum, x.integer? = some z
  | boolean, .bool _ => True
  | _, _ => False

/-- A member of an object is one of its properties. -/
def AdmitsProperty : List (String × Schema) → String × Json → Prop
  | [], _ => False
  | (k, schema) :: properties, kv =>
      if kv.1 = k then Admits schema kv.2 else AdmitsProperty properties kv

end

variable {properties : List (String × Schema)} {required : List String} {x : Json}

theorem exists_of_admits_object (h : (object properties required).Admits x) :
    ∃ kvs, x = .obj kvs ∧ (∀ k ∈ required, (Json.lookup kvs k).isSome = true) ∧
      ∀ kv ∈ kvs, AdmitsProperty properties kv := by
  cases x with
  | obj kvs =>
      rw [Admits] at h
      exact ⟨kvs, rfl, h⟩
  | _ => simp [Admits] at h

theorem exists_of_admits_array {items : Schema} (h : (array items).Admits x) :
    ∃ xs, x = .arr xs ∧ ∀ y ∈ xs, items.Admits y := by
  cases x with
  | arr xs =>
      rw [Admits] at h
      exact ⟨xs, rfl, h⟩
  | _ => simp [Admits] at h

theorem exists_of_admits_string {enum : Option (List String)} (h : (string enum).Admits x) :
    ∃ s, x = .str s ∧ ∀ ss ∈ enum, s ∈ ss := by
  cases x with
  | str s =>
      rw [Admits] at h
      exact ⟨s, rfl, h⟩
  | _ => simp [Admits] at h

theorem exists_of_admits_integer {enum : List ℤ} (h : (integer enum).Admits x) :
    ∃ z ∈ enum, x.integer? = some z := by
  rwa [Admits] at h

/-- The schema of a property holds of its value. -/
theorem admits_of_property {k : String} {v : Json} {schema : Schema}
    (h : AdmitsProperty properties (k, v))
    (hschema : properties.find? (fun p ↦ p.1 = k) = some (k, schema)) : schema.Admits v := by
  induction properties with
  | nil => simp at hschema
  | cons p properties ih =>
      obtain ⟨k', schema'⟩ := p
      rw [AdmitsProperty] at h
      by_cases hk : k = k'
      · subst hk
        have heq : schema' = schema := by simpa using hschema
        rw [if_pos rfl] at h
        exact heq ▸ h
      · rw [if_neg hk] at h
        have hk' : k' ≠ k := fun heq ↦ hk heq.symm
        exact ih h (by simpa [hk'] using hschema)

/-- A required property is there, with a value its schema admits. -/
theorem index_of_admits (h : (object properties required).Admits x) {k : String}
    {schema : Schema} (hk : k ∈ required)
    (hschema : properties.find? (fun p ↦ p.1 = k) = some (k, schema)) :
    ∃ v, x.index k = .ok v ∧ x.field k = v ∧ schema.Admits v := by
  obtain ⟨kvs, rfl, hrequired, hproperties⟩ := exists_of_admits_object h
  obtain ⟨v, hv⟩ := Option.isSome_iff_exists.mp (hrequired k hk)
  have hmem : (k, v) ∈ kvs := by
    obtain ⟨kv, hkv, rfl⟩ := Option.map_eq_some_iff.mp hv
    have hkey : kv.1 = k := by simpa using List.find?_some hkv
    rw [← hkey]
    exact List.mem_of_find?_eq_some hkv
  refine ⟨v, ?_, ?_, admits_of_property (hproperties _ hmem) hschema⟩
  · simp [Json.index, hv]
  · simp [Json.field, hv]

end Schema

end HumanDataFactory
