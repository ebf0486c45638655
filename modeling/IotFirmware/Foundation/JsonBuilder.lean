import IotFirmware.Foundation.JsonText
import IotFirmware.Foundation.NumberText

/-! A library that builds JSON documents member by member, in memory it may not get, and
writes them to a buffer: its calls, and what is documented of them. -/
namespace IotFirmware
open NumberText

def intText (i : Int) : List UInt8 := if i < 0 then 0x2D :: decimalText i.natAbs else decimalText i.natAbs

/-- What a member is set to; a float by its bits. -/
inductive JsonScalar where
  | null
  | int (i : Int)
  | float (bits : UInt32)
  | string (text : List UInt8)

def JsonScalar.json (floatJson : UInt32 → Json) : JsonScalar → Json
  | null => .null
  | int i => .number (intText i)
  | float bits => floatJson bits
  | string text => .string text

/-- The calls: a new document on a heap, `doc[key] = value`, `doc.overflowed()` and
`serializeJson(doc, out, outLen)`, with the bytes it writes. -/
structure JsonBuilder where
  Heap : Type
  Doc : Type
  document : Heap → Doc
  set : List UInt8 → JsonScalar → Doc → Doc
  overflowed : Doc → Bool
  serializeJson : Doc → (outLen : ℕ) → List UInt8
  /-- The members in the document, in the order in which they are written. -/
  members : Doc → List (List UInt8 × Json)
  /-- A float as it is written. -/
  floatJson : UInt32 → Json

namespace JsonBuilder

/-- What is documented. A member whose memory is not there is lost, and the document says
so from then on; one that fits is behind those before it. The text is minified, and whole where
the buffer has room for it and the terminator. -/
structure Documented (lib : JsonBuilder) : Prop where
  members_document : ∀ heap, lib.members (lib.document heap) = []
  overflowed_set : ∀ key value doc, lib.overflowed doc = true → lib.overflowed (lib.set key value doc) = true
  members_set : ∀ key value doc, lib.overflowed (lib.set key value doc) = false →
    key ∉ (lib.members doc).map Prod.fst →
      lib.members (lib.set key value doc) = lib.members doc ++ [(key, value.json lib.floatJson)]
  float_cases : ∀ bits, lib.floatJson bits = .null ∨
    ∃ literal, lib.floatJson bits = .number literal ∧ Json.isNumber literal = true ∧ literal.length ≤ 24
  serializeJson_eq : ∀ doc outLen, (Json.object (lib.members doc)).Plain →
    (Json.object (lib.members doc)).write.length < outLen →
      lib.serializeJson doc outLen = (Json.object (lib.members doc)).write

variable {lib : JsonBuilder}

def setAll (lib : JsonBuilder) (assignments : List (List UInt8 × JsonScalar)) (doc : lib.Doc) : lib.Doc :=
  assignments.foldl (fun doc a => lib.set a.1 a.2 doc) doc

theorem Documented.overflowed_setAll (hlib : lib.Documented) {assignments : List (List UInt8 × JsonScalar)}
    {doc : lib.Doc} (h : lib.overflowed doc = true) : lib.overflowed (lib.setAll assignments doc) = true := by
  induction assignments generalizing doc with
  | nil => exact h
  | cons a assignments ih => exact ih (hlib.overflowed_set a.1 a.2 doc h)

/-- Where no memory is missing, all members are there. -/
theorem Documented.members_setAll (hlib : lib.Documented) {assignments : List (List UInt8 × JsonScalar)}
    {doc : lib.Doc} (hmemory : lib.overflowed (lib.setAll assignments doc) = false)
    (hkeys : ((lib.members doc).map Prod.fst ++ assignments.map Prod.fst).Nodup) :
    lib.members (lib.setAll assignments doc) =
      lib.members doc ++ assignments.map fun a => (a.1, a.2.json lib.floatJson) := by
  induction assignments generalizing doc with
  | nil => exact (List.append_nil _).symm
  | cons a assignments ih =>
    have hone : lib.overflowed (lib.set a.1 a.2 doc) = false := by
      rw [← Bool.not_eq_true]
      intro hlost
      have hall : lib.overflowed (lib.setAll assignments (lib.set a.1 a.2 doc)) = true := hlib.overflowed_setAll hlost
      exact Bool.false_ne_true (hmemory.symm.trans hall)
    have hnew : a.1 ∉ (lib.members doc).map Prod.fst := fun hmem =>
      (List.nodup_append.mp hkeys).2.2 a.1 hmem a.1 List.mem_cons_self rfl
    have hset := hlib.members_set a.1 a.2 doc hone hnew
    have hrest := @ih (lib.set a.1 a.2 doc) hmemory (by
      rw [hset, List.map_append, List.append_assoc]
      exact hkeys)
    rw [setAll, List.foldl_cons, ← setAll, hrest, hset, List.append_assoc]
    rfl

end JsonBuilder

structure SlotDocument where
  free : ℕ
  members : List (List UInt8 × Json)
  overflowed : Bool

/-- The library on such heaps, with these floats and no others. -/
def slotBuilder (floatTable : List (UInt32 × List UInt8)) : JsonBuilder where
  Heap := ℕ
  Doc := SlotDocument
  document free := ⟨free, [], false⟩
  set key value doc :=
    let json := value.json fun bits => ((floatTable.find? (·.1 = bits)).map (·.2)).elim .null .number
    if doc.free = 0 then { doc with overflowed := true }
    else { doc with free := doc.free - 1, members := doc.members ++ [(key, json)] }
  overflowed := SlotDocument.overflowed
  serializeJson doc outLen := (Json.object doc.members).write.take outLen
  members := SlotDocument.members
  floatJson bits := ((floatTable.find? (·.1 = bits)).map (·.2)).elim .null .number

theorem slotBuilder_documented {floatTable : List (UInt32 × List UInt8)}
    (hfloats : ∀ e ∈ floatTable, Json.isNumber e.2 = true ∧ e.2.length ≤ 24) : (slotBuilder floatTable).Documented where
  members_document _ := rfl
  overflowed_set key value doc h := by
    simp only [slotBuilder] at h ⊢
    split
    · rfl
    · exact h
  members_set key value doc hmemory _ := by
    have hfree : ¬ doc.free = 0 := by
      intro hfree
      simp [slotBuilder, hfree] at hmemory
    simp only [slotBuilder, if_neg hfree]
  float_cases bits := by
    cases h : floatTable.find? (·.1 = bits) with
    | none => exact .inl (by simp [slotBuilder, h])
    | some e =>
      obtain ⟨hnumber, hlength⟩ := hfloats e (List.mem_of_find?_eq_some h)
      exact .inr ⟨e.2, by simp [slotBuilder, h], hnumber, hlength⟩
  serializeJson_eq doc outLen _ hroom := List.take_of_length_le hroom.le

end IotFirmware
