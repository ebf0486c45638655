import Mathlib.Data.List.Basic

/-! JSON values, and how a loosely typed document hands out its members: what is
absent, and what an absent member would have, reads as null. A library that does so is a
parameter of the code that uses one. -/
namespace IotFirmware

inductive Json where
  | null
  | bool (b : Bool)
  | number (literal : List UInt8)
  | string (text : List UInt8)
  | array (items : List Json)
  | object (members : List (List UInt8 × Json))

namespace Json

def isNull : Json → Bool
  | null => true
  | _ => false

def member (key : List UInt8) : Json → Json
  | object members => (members.lookup key).getD null
  | _ => null

def textOr (default : List UInt8) : Json → List UInt8
  | string text => text
  | _ => default

theorem member_object (key : List UInt8) (members : List (List UInt8 × Json)) :
    (object members).member key = (members.lookup key).getD null := rfl

/-- Only a member that is there reads as something else than null. -/
theorem lookup_of_member {key : List UInt8} {j v : Json} (h : j.member key = v) (hv : v ≠ null) :
    ∃ members, j = object members ∧ members.lookup key = some v := by
  cases j with
  | object members =>
    rw [member_object] at h
    cases hlookup : members.lookup key with
    | none => exact absurd (by rw [← h, hlookup]; rfl) hv
    | some found => exact ⟨members, rfl, by rw [hlookup, ← h, hlookup]; rfl⟩
  | null | bool | number | string | array => exact absurd h.symm hv

theorem string_of_textOr {j : Json} (h : j.textOr [] ≠ []) : ∃ text, j = string text ∧ j.textOr [] = text := by
  cases j with
  | string text => exact ⟨text, rfl, rfl⟩
  | null | bool | number | array | object => exact absurd rfl h

end Json

/-- A library that parses documents and hands out what is in them: a member of a value by its
key, whether a value is null, and a value as a string, with a default. -/
structure JsonAccess where
  deserializeJson : List UInt8 → Option Json
  member : Json → List UInt8 → Json
  isNull : Json → Bool
  textOr : Json → List UInt8 → List UInt8

namespace JsonAccess

/-- What is documented. There is no document in an empty input, what is no object has no
members, and every value that is no string reads as the default. -/
structure Documented (lib : JsonAccess) : Prop where
  empty_input : lib.deserializeJson [] = none
  member_object : ∀ members key, lib.member (.object members) key = (members.lookup key).getD .null
  member_other : ∀ j key, (∀ members, j ≠ .object members) → lib.member j key = .null
  isNull_iff : ∀ j, lib.isNull j = true ↔ j = .null
  textOr_string : ∀ text default, lib.textOr (.string text) default = text
  textOr_other : ∀ j default, (∀ text, j ≠ .string text) → lib.textOr j default = default

variable {lib : JsonAccess}

theorem Documented.member_eq (hlib : lib.Documented) (j : Json) (key : List UInt8) :
    lib.member j key = j.member key := by
  cases j with
  | object members => exact hlib.member_object members key
  | null | bool | number | string | array => exact hlib.member_other _ key fun _ => by simp

theorem Documented.isNull_eq (hlib : lib.Documented) (j : Json) : lib.isNull j = j.isNull := by
  rw [Bool.eq_iff_iff, hlib.isNull_iff]
  cases j <;> simp [Json.isNull]

theorem Documented.textOr_eq (hlib : lib.Documented) (j : Json) (default : List UInt8) :
    lib.textOr j default = j.textOr default := by
  cases j with
  | string text => exact hlib.textOr_string text default
  | null | bool | number | array | object => exact hlib.textOr_other _ default fun _ => by simp

def ofParser (deserializeJson : List UInt8 → Option Json) : JsonAccess where
  deserializeJson := deserializeJson
  member j key := j.member key
  isNull := Json.isNull
  textOr j default := j.textOr default

theorem ofParser_documented {deserializeJson : List UInt8 → Option Json} (hempty : deserializeJson [] = none) :
    (ofParser deserializeJson).Documented where
  empty_input := hempty
  member_object _ _ := rfl
  member_other j key h := by
    cases j with
    | object members => exact absurd rfl (h members)
    | null | bool | number | string | array => rfl
  isNull_iff j := by
    change j.isNull = true ↔ j = .null
    cases j <;> simp [Json.isNull]
  textOr_string _ _ := rfl
  textOr_other j default h := by
    cases j with
    | string text => exact absurd rfl (h text)
    | null | bool | number | array | object => rfl

end JsonAccess
end IotFirmware
