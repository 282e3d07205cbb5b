import ObjectStore.Proofs.Cbor.Shapes
import ObjectStore.Proofs.Events.Map
import ObjectStore.Proofs.Notes.FanOut
import ObjectStore.Proofs.Store.Lasting

/-! # Records of events, notes and tags

The records that the boxes of a store of events, notes and tags store are what is written of some
object under the id they are stored under. Such a record is read back as an object with that id, if
it fits into memory; what it is read back as is the object that was written, but for the tags of a
note, which are kept as links.
-/

namespace ObjectStore

open Cbor

/-! ## Records that fit -/

namespace Record

variable {id : ObjectId} {body : Value} {record : Bytes}

theorem encode_eq_ok :
    encode id body = .ok record ↔
      (write id body).refusal = none ∧ record = (write id body).bytes := by
  simp only [encode]
  cases (write id body).refusal <;> simp [eq_comm]

theorem encode_of_made {body? : Except CodecError Value} (written : made id body? = .ok record) :
    ∃ body, body? = .ok body ∧ encode id body = .ok record := by
  cases body? with
  | error why => cases written
  | ok body =>
      refine ⟨body, rfl, encode_eq_ok.mpr ?_⟩
      simp only [made] at written
      cases refusal : (write id body).refusal <;> rw [refusal] at written <;> cases written
      exact ⟨rfl, rfl⟩

theorem fits_of_encode (encoded : encode id body = .ok record) (short : record.length < 2 ^ 64) :
    body.Fits := by
  obtain ⟨plain, rfl⟩ := encode_eq_ok.mp encoded
  have whole : (write id body).bytes =
      ((Head.array (some 2)).write ++ (Head.positive id.toNat).write) ++ body.write.bytes := rfl
  rw [whole, List.length_append] at short
  exact Value.fits_of_length body (Output.refusal_append.mp plain).2 (by omega)

end Record

namespace Catalog

/-! ## Reading back -/

variable {id : ObjectId} {record : Bytes}

theorem decodeWith_record {T : Type} {reader : Reader T} {body : Value} {object : T}
    (setId : T → ObjectId → T) (recovers : Recovers reader 255 body object) :
    decodeWith reader setId (Record.write id body).bytes = .ok (setId object id) := by
  have decoded : Record.decode reader (Record.write id body).bytes = .ok (id, object) := by
    rw [← List.append_nil (Record.write id body).bytes]
    exact Record.decode_written (recovers [])
  simp only [decodeWith, decoded, bind, Except.bind, pure, Except.pure]

theorem Event.decode_of_fits {event : Event} (fits : event.body.Fits) :
    eventBinding.decode (eventTotal.record id event) = .ok { event with id } := by
  have recovers : Recovers Event.reader 255 event.body { event with id := 0 } :=
    Event.recovers fits
  exact decodeWith_record (fun e id => { e with id }) recovers

theorem Note.decode_of_fits {note : Note} (fits : note.body.Fits) :
    noteBinding.decode (noteTotal.record id note) = .ok { note with id, tags := none } := by
  have recovers : Recovers Note.reader 255 note.body { note with id := 0, tags := none } :=
    Shape.recovers .note note fits
  exact decodeWith_record (fun n id => { n with id }) recovers

theorem Tag.decode_of_fits {tag : Tag} (fits : tag.body.Fits) :
    tagBinding.decode (tagTotal.record id tag) = .ok { tag with id } := by
  have recovers : Recovers Tag.reader 255 tag.body { tag with id := 0 } :=
    Shape.recovers .tag tag fits
  exact decodeWith_record (fun t id => { t with id }) recovers

/-! ## The boxes of a store -/

/-- The boxes of a store of events, notes and tags. -/
inductive Fixture : {T : Type} → Box T → Prop where
  | event : Fixture eventBox
  | note : Fixture noteBox
  | tag : Fixture tagBox

/-- A record of an entity type is what is written of one of its objects under an id. -/
inductive Written : EntityId → ObjectId → Bytes → Prop where
  | event {id : ObjectId} {record : Bytes} (event : Event) :
      Record.encode id event.body = .ok record → Written eventBox.entity id record
  | note {id : ObjectId} {record : Bytes} (note : Note) :
      Record.encode id note.body = .ok record → Written noteBox.entity id record
  | tag {id : ObjectId} {record : Bytes} (tag : Tag) :
      Record.encode id tag.body = .ok record → Written tagBox.entity id record

variable {T : Type} {b : Box T}

/-- A record that was written under an id is read back as an object with that id. -/
theorem Written.decodes (fixture : Fixture b) (written : Written b.entity id record)
    (short : record.length < 2 ^ 64) :
    ∃ object, b.binding.decode record = .ok object ∧ b.binding.id object = .ok id := by
  cases fixture with
  | event =>
      cases written with
      | event event encoded =>
          obtain ⟨-, rfl⟩ := Record.encode_eq_ok.mp encoded
          exact ⟨_, Event.decode_of_fits (Record.fits_of_encode encoded short), rfl⟩
  | note =>
      cases written with
      | note note encoded =>
          obtain ⟨-, rfl⟩ := Record.encode_eq_ok.mp encoded
          exact ⟨_, Note.decode_of_fits (Record.fits_of_encode encoded short), rfl⟩
  | tag =>
      cases written with
      | tag tag encoded =>
          obtain ⟨-, rfl⟩ := Record.encode_eq_ok.mp encoded
          exact ⟨_, Tag.decode_of_fits (Record.fits_of_encode encoded short), rfl⟩

theorem Fixture.bound (fixture : Fixture b) :
    smallModel.bound? b.binding.name = some b.descriptor := by
  cases fixture <;> rfl

theorem Fixture.member (fixture : Fixture b) : b.descriptor ∈ smallModel.entities := by
  cases fixture <;> decide

theorem Fixture.written (fixture : Fixture b) {object : T}
    (made : Record.made id (b.binding.body object) = .ok record) : Written b.entity id record := by
  obtain ⟨body, bodied, encoded⟩ := Record.encode_of_made made
  cases fixture <;> cases bodied
  · exact .event object encoded
  · exact .note object encoded
  · exact .tag object encoded

theorem tagBox_lawful : tagBox.Lawful smallModel Written where
  record := Fixture.tag.written
  putRelated _ _ _ := .pure
  loadRelated _ _ := .pure

theorem tagBinding_lawful : tagBinding.Lawful smallModel Written := by
  intro descriptor bound
  obtain rfl : tagBox.descriptor = descriptor := Option.some.inj bound
  exact tagBox_lawful

theorem Fixture.lawful (fixture : Fixture b) : b.Lawful smallModel Written := by
  cases fixture with
  | event =>
      exact ⟨Fixture.event.written, fun _ _ _ => .pure, fun _ _ => .pure⟩
  | tag => exact tagBox_lawful
  | note =>
      refine ⟨Fixture.note.written, fun lasting txn id => .bind .current fun note => ?_,
        fun txn note => .bind ?_ fun _ => .pure⟩
      · split
        · exact .focus (fun _ _ => rfl) (Store.replaceLinks_lasts lasting tagBinding_lawful)
        · exact .pure
      · exact Store.relatedObjects_maintains (tagBox_lawful.loadRelated txn)

end Catalog

end ObjectStore
