import Mathlib.Data.List.Nodup
import Mathlib.Tactic.Common

/-!
# Reading records from JSON

JSON values, and the way a record is read from an object: field by field, each one looked up by
its name. A name that occurs twice is an error, and a name that no field has is passed over.

## Main definitions

* `Json`: JSON values; an object keeps its fields in order, and repeated ones
* `Json.lookup`, `Json.required`, `Json.defaulted`: the fields of a record
* `Json.nullable`, `Json.elements`: values that may be null, and lists
* `Json.Layout`: the fields of a record before others
* `Json.Absent`: a field that is left out or null

## Main results

* `Json.lookup_append`, `Json.lookup_of_mem`: fields of other names are passed over
* `Json.Layout.required`, `Json.Layout.optional`: the fields of a record are found
-/

inductive Json where
  | null
  | bool (b : Bool)
  | integer (n : Int)
  | float (text : String)
  | string (text : String)
  | array (values : List Json)
  | object (fields : List (String × Json))

namespace Json

variable {α : Type}

/-- The value of a name, if there is one. More than one is an error. -/
def lookup (name : String) (fields : List (String × Json)) : Option (Option Json) :=
  match fields.filter (·.1 = name) with
  | [] => some none
  | [field] => some (some field.2)
  | _ => none

/-- A field that has to be there. -/
def required (read : Json → Option α) (name : String) (fields : List (String × Json)) :
    Option α :=
  match lookup name fields with
  | some (some value) => read value
  | _ => none

/-- A field that may be left out. -/
def defaulted (read : Json → Option α) (default : α) (name : String)
    (fields : List (String × Json)) : Option α :=
  match lookup name fields with
  | some (some value) => read value
  | some none => some default
  | none => none

/-- A value that may be null. -/
def nullable (read : Json → Option α) : Json → Option (Option α)
  | .null => some none
  | value => (read value).map some

/-- The elements of an array. -/
def elements (read : Json → Option α) : Json → Option (List α)
  | .array values => values.mapM read
  | _ => none

/-- The fields of an object. -/
def fields : Json → Option (List (String × Json))
  | .object fields => some fields
  | _ => none

def text : Json → Option String
  | .string text => some text
  | _ => none

def boolean : Json → Option Bool
  | .bool b => some b
  | _ => none

section Lookup

variable {name : String} {fs extra : List (String × Json)} {value : Json}

theorem filter_of_not_mem (h : name ∉ fs.map Prod.fst) : fs.filter (·.1 = name) = [] := by
  rw [List.filter_eq_nil_iff]
  intro field hfield heq
  exact h (List.mem_map.mpr ⟨field, hfield, by simpa using heq⟩)

/-- **Fields of other names are passed over.** -/
theorem lookup_append (h : name ∉ extra.map Prod.fst) :
    lookup name (fs ++ extra) = lookup name fs := by
  rw [lookup, lookup, List.filter_append, filter_of_not_mem h, List.append_nil]

/-- **The value of a name** among fields of different names. -/
theorem lookup_of_mem (hnodup : (fs.map Prod.fst).Nodup) (hmem : (name, value) ∈ fs) :
    lookup name fs = some (some value) := by
  obtain ⟨pre, post, rfl⟩ := List.append_of_mem hmem
  rw [List.map_append, List.map_cons, List.nodup_middle, List.nodup_cons, List.mem_append,
    not_or] at hnodup
  obtain ⟨⟨hpre, hpost⟩, -⟩ := hnodup
  simp [lookup, filter_of_not_mem hpre, filter_of_not_mem hpost]

theorem lookup_of_not_mem (h : name ∉ fs.map Prod.fst) : lookup name fs = some none := by
  rw [lookup, filter_of_not_mem h]

end Lookup

section Read

variable {read : Json → Option α} {name : String} {fs : List (String × Json)}

theorem required_append {extra : List (String × Json)} (h : name ∉ extra.map Prod.fst) :
    required read name (fs ++ extra) = required read name fs := by
  rw [required, required, lookup_append h]

theorem defaulted_append {extra : List (String × Json)} {default : α}
    (h : name ∉ extra.map Prod.fst) :
    defaulted read default name (fs ++ extra) = defaulted read default name fs := by
  rw [defaulted, defaulted, lookup_append h]

theorem required_of_mem {v : Json} (hnodup : (fs.map Prod.fst).Nodup) (hmem : (name, v) ∈ fs) :
    required read name fs = read v := by
  rw [required, lookup_of_mem hnodup hmem]

theorem defaulted_of_mem {v : Json} {default : α} (hnodup : (fs.map Prod.fst).Nodup)
    (hmem : (name, v) ∈ fs) : defaulted read default name fs = read v := by
  rw [defaulted, lookup_of_mem hnodup hmem]

theorem defaulted_of_not_mem {default : α} (h : name ∉ fs.map Prod.fst) :
    defaulted read default name fs = some default := by
  rw [defaulted, lookup_of_not_mem h]

end Read

/-- The fields of a record, whose names are different, before other fields. -/
structure Layout (names : List String) (known extra : List (String × Json)) : Prop where
  nodup : (known.map Prod.fst).Nodup
  fresh : ∀ name ∈ extra.map Prod.fst, name ∉ names

namespace Layout

variable {names : List String} {known extra : List (String × Json)} {read : Json → Option α}
  {name : String} {v : Json} {default : α}

theorem not_mem_extra (h : Layout names known extra) (hname : name ∈ names) :
    name ∉ extra.map Prod.fst := fun hextra => h.fresh name hextra hname

/-- A field that the record has. -/
theorem required (h : Layout names known extra) (hname : name ∈ names) (hmem : (name, v) ∈ known) :
    Json.required read name (known ++ extra) = read v := by
  rw [required_append (h.not_mem_extra hname), required_of_mem h.nodup hmem]

theorem defaulted (h : Layout names known extra) (hname : name ∈ names)
    (hmem : (name, v) ∈ known) : Json.defaulted read default name (known ++ extra) = read v := by
  rw [defaulted_append (h.not_mem_extra hname), defaulted_of_mem h.nodup hmem]

/-- A field that the record does not have. -/
theorem missing (h : Layout names known extra) (hname : name ∈ names)
    (hmissing : name ∉ known.map Prod.fst) :
    Json.defaulted read default name (known ++ extra) = some default := by
  rw [defaulted_append (h.not_mem_extra hname), defaulted_of_not_mem hmissing]

/-- A field that the record has if there is a value for it. -/
theorem optional {β γ : Type} {read : Json → Option (Option β)} {value : Option γ}
    {write : γ → Json} {f : γ → β} (h : Layout names known extra) (hname : name ∈ names)
    (hmem : ∀ v, (name, v) ∈ known ↔ ∃ x, value = some x ∧ write x = v)
    (hread : ∀ x, read (write x) = some (some (f x))) :
    Json.defaulted read none name (known ++ extra) = some (value.map f) := by
  cases value with
  | none =>
    refine h.missing hname fun hknown => ?_
    obtain ⟨field, hfield, rfl⟩ := List.mem_map.mp hknown
    obtain ⟨x, hx, -⟩ := (hmem field.2).mp hfield
    cases hx
  | some x => rw [h.defaulted hname ((hmem _).mpr ⟨x, rfl, rfl⟩), hread, Option.map_some]

end Layout

/-- There is no field of the name, or it is null. -/
def Absent (name : String) (fields : List (String × Json)) : Prop :=
  lookup name fields = some none ∨ lookup name fields = some (some .null)

section Null

variable {read : Json → Option α} {name : String} {fs : List (String × Json)} {value : Json}

/-- Null reads as a field that is left out. -/
theorem Absent.defaulted (h : Absent name fs) :
    Json.defaulted (nullable read) none name fs = some none := by
  unfold Json.defaulted
  rcases h with h | h
  · rw [h]
  · rw [h]
    rfl

theorem defaulted_of_lookup {default : α} (h : lookup name fs = some (some value)) :
    defaulted read default name fs = read value := by
  rw [defaulted, h]

theorem nullable_of_read {x : α} (h : value ≠ .null) (hread : read value = some x) :
    nullable read value = some (some x) := by
  cases value with
  | null => exact absurd rfl h
  | _ => rw [nullable, hread, Option.map_some]; simp

/-- A value that is not null is never read as nothing. -/
theorem nullable_nullable_ne (value : Json) :
    nullable (nullable read) value ≠ some (some none) := by
  intro h
  cases value with
  | null => cases h
  | _ => simp [nullable] at h

end Null

theorem elements_map {β : Type} {read : Json → Option α} {write : β → Json} {f : β → α}
    (h : ∀ x, read (write x) = some (f x)) (xs : List β) :
    elements read (.array (xs.map write)) = some (xs.map f) := by
  show (xs.map write).mapM read = _
  induction xs with
  | nil => rfl
  | cons x xs ih =>
    rw [List.map_cons, List.mapM_cons, h, ih]
    rfl

end Json
