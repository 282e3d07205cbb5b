import ObjectStore.Catalog.Bindings
import ObjectStore.Proofs.Cbor.Readers

/-! # Records are read as they are written

A record is the pair of an id and a body, and the body of an event is a map of named fields. What
was written of an event under an id is read back as that event with that id, if its text and its
payload are of a length that a head can carry.
-/

namespace ObjectStore

open Cbor

theorem Record.read_write {α : Type} {reader : Reader α} {id : UInt64} {body : Value}
    {rest : Bytes} :
    (Reader.both .u64 reader).read Record.levels ((Record.write id body).bytes ++ rest) =
      (reader.read 255 (body.write.bytes ++ rest)).map fun read => ((id, read.1), read.2) := by
  have two : 2 < 2 ^ 64 := by decide
  have written : (Record.write id body).bytes ++ rest = (Head.array (some 2)).write ++
      ((Head.positive id.toNat).write ++ (body.write.bytes ++ rest)) := by
    rw [← List.append_assoc, ← List.append_assoc]
    rfl
  rw [written, Record.levels]
  simp only [Reader.both, readUntagged_of_read (read_array two _) (by simp), Reader.deeper,
    Reader.element, read_u64, Option.map_some, Nat.reduceSub, bind, Except.bind, pure,
    Except.pure]
  cases reader.read 255 (body.write.bytes ++ rest) <;> rfl

theorem Record.decode_write {α : Type} {reader : Reader α} {id : UInt64} {body : Value}
    {rest : Bytes} :
    Record.decode reader ((Record.write id body).bytes ++ rest) =
      ((reader.read 255 (body.write.bytes ++ rest)).map fun read => (id, read.1)).mapError
        .unreadable := by
  have some : ((Record.write id body).bytes ++ rest).isEmpty = false := rfl
  simp only [Record.decode, some, Bool.false_eq_true, if_false, Record.read_write]
  cases reader.read 255 (body.write.bytes ++ rest) <;> rfl

/-- A record is read back as its id and its body, if the body is. -/
theorem Record.decode_written {α : Type} {reader : Reader α} {id : UInt64} {body : Value} {a : α}
    {rest : Bytes} (read : reader.read 255 (body.write.bytes ++ rest) = .ok (a, rest)) :
    Record.decode reader ((Record.write id body).bytes ++ rest) = .ok (id, a) := by
  rw [Record.decode_write, read]
  rfl

namespace Catalog.Event

variable {e : Event} {id : ObjectId}

/-- An event that fits into memory: the lengths of its text and its payload are 64-bit numbers. -/
structure Fits (e : Event) : Prop where
  source : (utf8 e.source).length < 2 ^ 64
  payload : e.payload.length < 2 ^ 64

theorem Fits.body (fits : e.Fits) : e.body.Fits := by
  have payload : (ofBytes e.payload).Fits := by
    refine ⟨by rw [List.length_map]; exact fits.payload, Value.fitItems_iff.mpr ?_⟩
    exact List.forall_mem_map.mpr fun _ _ => trivial
  refine ⟨by simp, ?_, fits.source, ?_, trivial, ?_, payload, trivial⟩
  · exact (by decide : (utf8 "source").length < 2 ^ 64)
  · exact (by decide : (utf8 "seq").length < 2 ^ 64)
  · exact (by decide : (utf8 "payload").length < 2 ^ 64)

theorem plain_body : e.body.write.refusal = none := by
  have seq : (Value.ofUInt64 e.seq).write.refusal = none := by rw [write_ofUInt64]
  have payload : (ofBytes e.payload).write.refusal = none := Value.refusal_list.mpr plain_numbers
  exact Value.refusal_ofFields.mpr (by simp [seq, payload, Value.write])

theorem recovers {levels : Nat} (fits : e.body.Fits) :
    Recovers reader (levels + 2) e.body { e with id := 0 } := by
  have fields := Value.fits_ofFields fits
  have source : (Value.text e.source).Fits := fields ("source", _) (by simp)
  have payload : (ofBytes e.payload).Fits := fields ("payload", ofBytes e.payload) (by simp)
  refine recovers_fields ⟨some e.source, some e.seq, some e.payload⟩ ?_ (by simp) rfl
  refine .of rfl (by decide) rfl rfl (recovers_text source) ?_
  refine .of rfl (by decide) rfl (by rw [write_ofUInt64]) recovers_u64 ?_
  refine .of rfl (by decide) rfl (Value.refusal_list.mpr plain_numbers) ?_ .nil
  exact recovers_numbers payload fun _ => recovers_u8

/-- The record of an event under an id. -/
def record (e : Event) (id : ObjectId) : Bytes :=
  (Record.write id e.body).bytes

theorem decode_record (fits : e.Fits) :
    eventBinding.decode (e.record id) = .ok { e with id } := by
  have decoded : Record.decode reader (e.record id) = .ok (id, { e with id := 0 }) := by
    rw [record, ← List.append_nil (Record.write id e.body).bytes]
    exact Record.decode_written (recovers fits.body [])
  simp only [eventBinding, decodeWith, decoded, bind, Except.bind, pure, Except.pure]

theorem write_record : Record.write id e.body = ⟨e.record id, none⟩ := by
  have plain : (Record.write id e.body).refusal = none :=
    Output.refusal_append.mpr ⟨rfl, plain_body⟩
  rw [record, ← plain]

end Catalog.Event

end ObjectStore
