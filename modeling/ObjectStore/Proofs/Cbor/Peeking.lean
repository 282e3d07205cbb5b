import ObjectStore.Proofs.Cbor.Shapes
import ObjectStore.Proofs.Cbor.Surveyed

/-! # Looking at the id alone

An id that is read together with its body is read without it, if only the body can be passed over
with the levels there are. Typed reading does not count tags, passing over does; so the survey of
the body tells in which of the records that can be read the id can be looked at.
-/

namespace ObjectStore

open Cbor

/-! ## Bodies -/

namespace Catalog

theorem surveyable_textField {name : String} : (textField name).Surveyable := by
  refine .ofFields fun field member => ?_
  cases List.mem_singleton.mp member
  exact Reader.Surveyable.text.field

theorem Event.surveyable : Event.reader.Surveyable := by
  refine Reader.Surveyable.ofFields fun field member => ?_
  simp only [List.mem_cons, List.not_mem_nil, or_false] at member
  rcases member with rfl | rfl | rfl
  · exact Reader.Surveyable.text.field
  · exact Reader.Surveyable.int.field
  · exact (Reader.Surveyable.list .int).field

theorem Reading.surveyable : Reading.reader.Surveyable := by
  refine Reader.Surveyable.ofFields fun field member => ?_
  simp only [List.mem_cons, List.not_mem_nil, or_false] at member
  rcases member with rfl | rfl | rfl
  · exact Reader.Surveyable.text.field
  · exact Reader.Surveyable.int.field
  · exact (Reader.Surveyable.option (.list .int)).field

theorem Sample.surveyable : Sample.reader.Surveyable := by
  refine Reader.Surveyable.ofFields fun field member => ?_
  simp only [List.mem_cons, List.not_mem_nil, or_false] at member
  rcases member with rfl | rfl
  · exact Reader.Surveyable.text.field
  · exact (Reader.Surveyable.list .int).field

/-- What the reader of any shape takes for a body can be surveyed. -/
theorem Shape.surveyable (shape : Shape) : shape.reader.Surveyable := by
  cases shape with
  | event => exact Event.surveyable
  | note => exact (surveyable_textField.map : Note.reader.Surveyable)
  | tag => exact (surveyable_textField.map : Tag.reader.Surveyable)
  | reading => exact Reading.surveyable
  | sample => exact Sample.surveyable
  | text => exact .text
  | u64 | u8 | i64 => exact .int
  | bool => exact .bool
  | float => exact .float
  | unit => exact .unit
  | optionalU64 => exact .option .int
  | listU8 => exact .list .int
  | listText => exact .list .text
  | mapTextU64 => exact .entries .int

end Catalog

/-! ## Records -/

namespace Cbor

/-- Survey a value of any type. -/
def Survey.reader : Reader Survey where
  read _ input := take input input
  ofByte _ := .ok {}

namespace Reader

variable {α β : Type} {first : Reader α} {reader : Reader β} {a : α} {b : β} {levels : Nat}
  {input rest : Bytes}

theorem Surveyable.element (surveyable : reader.Surveyable) {left : Option Nat}
    (read : Reader.element (reader.read levels) left input = .ok (b, rest)) :
    ∃ s, Reader.element (Survey.reader.read levels) left input = .ok (s, rest) ∧
      s.Verdict levels rest
        ((Reader.element (Reader.ignored.read levels) left input).map Prod.snd) := by
  have one : ∀ {rest}, reader.read levels input = .ok (b, rest) →
      ∃ s, Survey.reader.read levels input = .ok (s, rest) ∧
        s.Verdict levels rest ((Reader.ignored.read levels input).map Prod.snd) := by
    intro rest read
    obtain ⟨s, surveyed⟩ := (surveyable.spans read).survey (Nat.le_refl _)
    have same : (Reader.ignored.read levels input).map Prod.snd = skip levels input := by
      simp only [Reader.ignored]
      cases skip levels input <;> rfl
    exact ⟨s, surveyed, same ▸ Survey.take_verdict surveyed⟩
  cases left with
  | some left =>
      cases left with
      | zero => cases read
      | succ left => exact one read
  | none =>
      simp only [Reader.element] at read ⊢
      split at read
      · cases read
      · rename_i unstopped
        simp only [if_neg unstopped]
        exact one read

theorem Surveyable.both (surveyable : reader.Surveyable)
    (read : (Reader.both first reader).read (levels + 1) input = .ok ((a, b), rest)) :
    ∃ s result, (Reader.both first Survey.reader).read (levels + 1) input = .ok ((a, s), rest) ∧
      s.Verdict levels rest result ∧
      (Reader.both first .ignored).read (levels + 1) input =
        result.map fun rest => ((a, ()), rest) := by
  obtain ⟨head, content, untagged, later⟩ := pair_bind_eq_ok.mp read
  simp only [Reader.both, untagged, bind, Except.bind]
  cases head with
  | array length =>
      obtain ⟨a, behind, one, later⟩ := pair_bind_eq_ok.mp later
      obtain ⟨b, rest, two, same⟩ := pair_bind_eq_ok.mp later
      cases same
      obtain ⟨s, surveyed, verdict⟩ := surveyable.element two
      refine ⟨s, _, ?_, verdict, ?_⟩
      · simp only [deeper, one, surveyed, pure, Except.pure]
      · simp only [deeper, one]
        cases Reader.element (Reader.ignored.read levels) (length.map (· - 1)) behind <;> rfl
  | bytes length =>
      obtain ⟨all, behind, taken, later⟩ := pair_bind_eq_ok.mp later
      simp only [taken]
      cases all with
      | nil => cases later
      | cons x more =>
          cases more with
          | nil =>
              obtain ⟨a, -, ended⟩ := bind_eq_ok.mp later
              cases ended
          | cons y more =>
              obtain ⟨a, one, later⟩ := bind_eq_ok.mp later
              obtain ⟨b, -, same⟩ := bind_eq_ok.mp later
              cases same
              refine ⟨{}, .ok rest, ?_, .passed Survey.clear_empty, ?_⟩
              · simp only [one, Survey.reader, pure, Except.pure]
              · simp only [one, Reader.ignored, pure, Except.pure, Except.map]
  | _ => cases later

end Reader

end Cbor

instance Except.decidableEq {ε α : Type} [DecidableEq ε] [DecidableEq α] :
    DecidableEq (Except ε α)
  | .ok a, .ok b => decidable_of_iff (a = b) ⟨congrArg Except.ok, Except.ok.inj⟩
  | .error a, .error b => decidable_of_iff (a = b) ⟨congrArg Except.error, Except.error.inj⟩
  | .ok _, .error _ | .error _, .ok _ => .isFalse nofun

/-- If the body of a record is read as one of any shape, its survey says whether the id can be
    looked at without it. It can, and is the same, where things in the body are nested at most 255
    deep and all numbers in it fit; otherwise one of the two is what is wrong with the record. -/
theorem Catalog.Shape.peekId_of_decode (shape : Shape) {record : Bytes} {id : UInt64}
    {body : shape.Carrier} (decoded : Record.decode shape.reader record = .ok (id, body)) :
    ∃ s, Record.decode Survey.reader record = .ok (id, s) ∧
      (s.Clear 255 ∧ Record.peekId record = .ok id ∨
        255 < s.depth ∧ Record.peekId record = .error (.unreadable .tooDeep) ∨
        s.overlarge = true ∧ Record.peekId record = .error (.unreadable .unfitting)) := by
  simp only [Record.peekId, Record.decode] at decoded ⊢
  split at decoded
  · cases decoded
  · rename_i some
    simp only [some, Bool.false_eq_true, if_false]
    split at decoded
    · rename_i value rest read
      cases decoded
      obtain ⟨s, result, surveyed, verdict, passed⟩ := shape.surveyable.both read
      have levels : Record.levels = 255 + 1 := rfl
      rw [levels, surveyed, passed]
      refine ⟨s, rfl, ?_⟩
      cases verdict with
      | passed clear => exact .inl ⟨clear, rfl⟩
      | tooDeep deep => exact .inr (.inl ⟨deep, rfl⟩)
      | unfitting overlarge => exact .inr (.inr ⟨overlarge, rfl⟩)
    · cases decoded

/-- The id in front of a tagged map without a length, with its fields in another order, a key and a
    list in byte strings, a name in segments, an unknown field, and bytes behind it. -/
theorem Catalog.Shape.peekId_sample :
    let record : Bytes := [0x82, 0x07, 0xd9, 0xd9, 0xf7, 0xbf,
      0x44, 0x74, 0x61, 0x67, 0x73, 0x42, 0x01, 0x02,
      0x61, 0x78, 0x81, 0xc2, 0x41, 0x05,
      0x64, 0x6e, 0x61, 0x6d, 0x65, 0x7f, 0x61, 0x61, 0x61, 0x62, 0xff, 0xff, 0x00]
    Record.decode Sample.reader record = .ok (7, ⟨"ab", [1, 2]⟩) ∧
      ∃ s, Record.decode Survey.reader record = .ok (7, s) ∧
        (s.Clear 255 ∧ Record.peekId record = .ok 7 ∨
          255 < s.depth ∧ Record.peekId record = .error (.unreadable .tooDeep) ∨
          s.overlarge = true ∧ Record.peekId record = .error (.unreadable .unfitting)) := by
  intro record
  have decoded : Record.decode Sample.reader record = .ok (7, ⟨"ab", [1, 2]⟩) := by decide +kernel
  exact ⟨decoded, peekId_of_decode sample decoded⟩

/-- The id behind which a text is tagged once too often, and the one in front of a tagged byte
    string that is the list of its bytes, but as a number is too large, cannot be looked at. -/
theorem Catalog.Shape.decoded_unpeekable :
    let tagged : Bytes := [0x82, 0x07] ++ List.replicate 256 0xc1 ++ [0x61, 0x61]
    let large : Bytes := [0x82, 0x07, 0xc3, 0x50] ++ List.replicate 16 0xff
    (Record.decode .text tagged = .ok (7, "a") ∧
      Record.peekId tagged = .error (.unreadable .tooDeep)) ∧
    (Record.decode (.list .u8) large = .ok (7, List.replicate 16 0xff) ∧
      Record.peekId large = .error (.unreadable .unfitting)) := by
  decide +kernel

end ObjectStore
