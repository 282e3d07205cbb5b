import ObjectStore.Catalog.Shape
import ObjectStore.Proofs.Cbor.Records
import ObjectStore.Proofs.Cbor.Skipping

/-! # Every shape is read as it is written

The bodies of every shape are recovered by the reader of the shape, up to what is not part of a
body, and passed over by the reader that ignores them: no body refuses to be written, and none is
nested deeper than two levels. So a record gives back its id and its body, and the id alone, in
front of whatever bytes.
-/

namespace ObjectStore

open Cbor

namespace Catalog

variable {levels : Nat}

/-! ## Bodies -/

theorem recovers_textField {name s : String} (short : (utf8 name).length ≤ keySize)
    (fits : (Value.text s).Fits) :
    Recovers (textField name) (levels + 1) (.ofFields [(name, .text s)]) s := by
  have found : [Field.of name .text id fun _ text => some text].find?
      (fun field => utf8 field.name = utf8 name) =
        some (Field.of name .text id fun _ text => some text) := by
    simp [Field.of]
  exact recovers_fields (some s) (.of found short rfl rfl (recovers_text fits) .nil) (by simp) rfl

theorem Reading.recovers {r : Reading} (fits : r.body.Fits) :
    Recovers Reading.reader (levels + 2) r.body r := by
  obtain ⟨device, value, samples⟩ := r
  have fields := Value.fits_ofFields fits
  have name : (Value.text device).Fits := fields ("device", _) (by simp)
  have plain : (Value.ofInt value.toInt).write.refusal = none := by
    cases value.toInt <;> rfl
  refine recovers_fields ⟨some device, some value, some samples⟩ ?_ (by simp) rfl
  refine .of rfl (by decide) rfl rfl (recovers_text name) ?_
  refine .of rfl (by decide) rfl plain recovers_i64 ?_
  cases samples with
  | none => exact .of rfl (by decide) rfl rfl recovers_none .nil
  | some samples =>
      let list : Value := .ofList (samples.map fun n => .ofUInt64 n.toUInt64)
      have list_fits : list.Fits := fields ("samples", list) (by simp [list])
      have present : Present list := present_ofList plain_numbers list_fits.1
      refine .of rfl (by decide) rfl (Value.refusal_list.mpr plain_numbers) ?_ .nil
      exact recovers_some (recovers_numbers list_fits fun _ => recovers_u16) present

theorem Sample.recovers {s : Sample} (fits : s.body.Fits) :
    Recovers Sample.reader (levels + 2) s.body s := by
  have fields := Value.fits_ofFields fits
  let list : Value := .ofList (s.tags.map fun n => .ofUInt64 n.toUInt64)
  have name : (Value.text s.name).Fits := fields ("name", _) (by simp)
  have list_fits : list.Fits := fields ("tags", list) (by simp [list])
  refine recovers_fields ⟨some s.name, some s.tags⟩ ?_ (by simp) rfl
  refine .of rfl (by decide) rfl rfl (recovers_text name) ?_
  refine .of rfl (by decide) rfl (Value.refusal_list.mpr plain_numbers) ?_ .nil
  exact recovers_numbers list_fits fun _ => recovers_u32

namespace Shape

/-- What of a body is kept in a record: not the id, and no tags. -/
def stored : (shape : Shape) → shape.Carrier → shape.Carrier
  | event, e => { e with id := 0 }
  | note, n => { n with id := 0, tags := none }
  | tag, t => { t with id := 0 }
  | reading, r => r
  | sample, s => s
  | text, s => s
  | u64, n => n
  | u8, n => n
  | i64, n => n
  | bool, b => b
  | float, bits => bits
  | unit, u => u
  | optionalU64, n => n
  | listU8, bytes => bytes
  | listText, texts => texts
  | mapTextU64, entries => entries

theorem recovers (shape : Shape) (v : shape.Carrier) (fits : (shape.body v).Fits) :
    Recovers shape.reader (levels + 2) (shape.body v) (shape.stored v) := by
  cases shape with
  | event => exact Event.recovers fits
  | note =>
      have short : (utf8 "text").length ≤ keySize := by decide
      have text : (Value.text v.text).Fits := Value.fits_ofFields fits ("text", _) (by simp)
      exact recovers_map (fun text => ({ text } : Note)) (recovers_textField short text)
  | tag =>
      have short : (utf8 "name").length ≤ keySize := by decide
      have name : (Value.text v.name).Fits := Value.fits_ofFields fits ("name", _) (by simp)
      exact recovers_map (fun name => ({ name } : Tag)) (recovers_textField short name)
  | reading => exact Reading.recovers fits
  | sample => exact Sample.recovers fits
  | text => exact recovers_text fits
  | u64 => exact recovers_u64
  | u8 => exact recovers_u8
  | i64 => exact recovers_i64
  | bool => exact recovers_bool
  | float => exact recovers_float
  | unit => exact recovers_unit
  | optionalU64 =>
      cases v with
      | none => exact recovers_none
      | some n => exact recovers_some recovers_u64 present_ofUInt64
  | listU8 => exact recovers_numbers fits fun _ => recovers_u8
  | listText =>
      obtain ⟨length, texts⟩ := Value.fits_ofList fits
      exact recovers_list length (fun _ _ => rfl) fun s member => recovers_text (texts s member)
  | mapTextU64 =>
      obtain ⟨length, entries⟩ := fits
      rw [List.length_map] at length
      have keys := List.forall_mem_map.mp (Value.fitEntries_iff.mp entries)
      refine recovers_entries length (fun entry _ => ?_) (fun entry member => (keys entry member).1)
        fun _ _ => recovers_u64
      rw [write_ofUInt64]

theorem plain (shape : Shape) (v : shape.Carrier) : (shape.body v).write.refusal = none := by
  have texts : ∀ s, (Value.text s).write.refusal = none := fun _ => rfl
  have whole : ∀ n, (Value.ofInt n).write.refusal = none := by
    intro n
    cases n <;> rfl
  have number : ∀ n, (Value.ofUInt64 n).write.refusal = none := by
    intro n
    rw [write_ofUInt64]
  have numbers : ∀ {α : Type} (items : List α) (f : α → UInt64),
      (Value.ofList (items.map fun a => .ofUInt64 (f a))).write.refusal = none :=
    fun _ _ => Value.refusal_list.mpr plain_numbers
  cases shape with
  | event => exact Value.refusal_ofFields.mpr (by simp [texts, number, ofBytes, numbers])
  | note | tag => exact Value.refusal_ofFields.mpr (by simp [texts])
  | reading =>
      obtain ⟨device, value, samples⟩ := v
      cases samples with
      | none => exact Value.refusal_ofFields.mpr (by simp [whole, Value.write])
      | some samples => exact Value.refusal_ofFields.mpr (by simp [texts, whole, numbers])
  | sample => exact Value.refusal_ofFields.mpr (by simp [texts, numbers])
  | text | bool | float | unit => rfl
  | u64 => exact number v
  | u8 => exact number v.toUInt64
  | i64 => exact whole v.toInt
  | optionalU64 =>
      cases v with
      | none => rfl
      | some n => exact number n
  | listU8 => exact numbers v _
  | listText => exact Value.refusal_list.mpr (List.forall_mem_map.mpr fun s _ => texts s)
  | mapTextU64 =>
      exact Value.refusal_map.mpr (List.forall_mem_map.mpr fun entry _ => ⟨rfl, number entry.2⟩)

theorem depth_le (shape : Shape) (v : shape.Carrier) : (shape.body v).depth ≤ 2 := by
  have number : ∀ n, (Value.ofUInt64 n).depth = 0 := fun _ => rfl
  have whole : ∀ n, (Value.ofInt n).depth = 0 := by
    intro n
    cases n <;> rfl
  have numbers : ∀ {α : Type} (items : List α) (f : α → UInt64),
      (Value.ofList (items.map fun a => .ofUInt64 (f a))).depth ≤ 1 :=
    fun _ _ => depth_ofList.mpr (List.forall_mem_map.mpr fun _ _ => Nat.le_refl _)
  cases shape with
  | event => exact depth_ofFields.mpr (by simp [Value.depth, number, ofBytes, numbers])
  | note | tag => exact depth_ofFields.mpr (by simp [Value.depth])
  | reading =>
      obtain ⟨device, value, samples⟩ := v
      cases samples with
      | none => exact depth_ofFields.mpr (by simp [Value.depth, whole])
      | some samples => exact depth_ofFields.mpr (by simp [Value.depth, whole, numbers])
  | sample => exact depth_ofFields.mpr (by simp [Value.depth, numbers])
  | text | bool | float | unit | u64 | u8 => exact Nat.zero_le _
  | i64 => exact Nat.le_trans (Nat.le_of_eq (whole v.toInt)) (Nat.zero_le _)
  | optionalU64 => cases v <;> exact Nat.zero_le _
  | listU8 => exact Nat.le_succ_of_le (numbers v _)
  | listText => exact depth_ofList.mpr (List.forall_mem_map.mpr fun _ _ => Nat.zero_le _)
  | mapTextU64 =>
      refine Nat.succ_le_succ (depthEntries_le.mpr ?_)
      exact List.forall_mem_map.mpr fun _ _ => ⟨Nat.zero_le _, Nat.zero_le _⟩

/-- The fast way to an id reads past any body. -/
theorem recovers_ignored (shape : Shape) (v : shape.Carrier) (fits : (shape.body v).Fits)
    (enough : 2 ≤ levels) : Recovers .ignored levels (shape.body v) () := by
  intro rest
  have shallow : (shape.body v).depth ≤ levels := Nat.le_trans (shape.depth_le v) enough
  simp only [Reader.ignored, skip_written _ (shape.plain v) fits, shallow, if_true, Except.map]

end Shape

end Catalog

/-! ## Records -/

/-- A record stands for what was put into it. Every body of every shape can be written under every
    id, and whatever bytes come behind, the record is read back as that id and that body, and the id
    can be read without the body. -/
theorem Catalog.Shape.record_roundtrip (shape : Shape) (id : UInt64) (v : shape.Carrier)
    (fits : (shape.body v).Fits) :
    ∃ record, Record.encode id (shape.body v) = .ok record ∧ ∀ rest,
      Record.decode shape.reader (record ++ rest) = .ok (id, shape.stored v) ∧
        Record.peekId (record ++ rest) = .ok id := by
  have plain : (Record.write id (shape.body v)).refusal = none :=
    Output.refusal_append.mpr ⟨rfl, shape.plain v⟩
  refine ⟨(Record.write id (shape.body v)).bytes, ?_, fun rest => ⟨?_, ?_⟩⟩
  · simp only [Record.encode, plain]
  · exact Record.decode_written (shape.recovers v fits rest)
  · rw [Record.peekId, Record.decode_written (shape.recovers_ignored v fits (by decide) rest)]
    rfl

/-- What a device with a non-ASCII name measured, below zero and with samples. -/
theorem Catalog.Shape.reading_roundtrip :
    let r : Reading := ⟨"Gerät", -300, some [1, 65535]⟩
    (reading.body r).Fits ∧ ∃ record, Record.encode 7 (reading.body r) = .ok record ∧ ∀ rest,
      Record.decode Reading.reader (record ++ rest) = .ok (7, r) ∧
        Record.peekId (record ++ rest) = .ok 7 := by
  intro r
  have fits : (reading.body r).Fits := by
    refine ⟨by decide, ?_, ?_, ?_, trivial, ?_, ⟨by decide, trivial, trivial, trivial⟩, trivial⟩
    all_goals
      change (utf8 _).length < 2 ^ 64
      decide
  exact ⟨fits, record_roundtrip reading 7 r fits⟩

end ObjectStore
