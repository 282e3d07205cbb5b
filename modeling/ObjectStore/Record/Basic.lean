import ObjectStore.Cbor.Fields
import ObjectStore.Cbor.Value

/-! # Records

A stored record is a pair: the id of the object, then its body. The id can be read without knowing
what the body is, which is then passed over.

Reading looks at the first item only; whatever follows it is not part of the record.
-/

namespace ObjectStore

open Cbor

/-- Why an object could not be turned into a record or back. -/
inductive CodecError where
  /-- The value refused to be written, with these words. -/
  | refused (why : String)
  /-- The object cannot be written. -/
  | unencodable (why : String)
  /-- The record is not one of such an object. -/
  | unreadable (why : ReadError)
  /-- The object that was read is rejected. -/
  | rejected (why : String)
  /-- There are no bytes to read. -/
  | emptyRecord
  deriving DecidableEq, Repr

/-- A text in quotes; quotes and backslashes in it are marked by a backslash. -/
def quoted (text : String) : String :=
  let marked := text.toList.flatMap fun c => if c = '"' ∨ c = '\\' then ['\\', c] else [c]
  .ofList ('"' :: marked ++ ['"'])

namespace CodecError

/-- What a codec error says. -/
def message : CodecError → String
  | refused why => "encoding failed: Value(" ++ quoted why ++ ")"
  | unencodable why => "encoding failed: " ++ why
  | unreadable why => "decoding failed: " ++ why.text
  | rejected why => "decoding failed: " ++ why
  | emptyRecord => "invalid record structure: empty record"

end CodecError

namespace Record

/-- How deep the items of a record may be nested, the record itself included. -/
def levels : Nat := 256

/-- Put out the record of an id and a body. -/
def write (id : UInt64) (body : Value) : Output :=
  (⟨(Head.array (some 2)).write ++ (Head.positive id.toNat).write, none⟩ : Output) ++ body.write

/-- The record of an id and a body. -/
def encode (id : UInt64) (body : Value) : Except CodecError Bytes :=
  let output := write id body
  match output.refusal with
  | some why => .error (.refused why)
  | none => .ok output.bytes

/-- The id and the body of a record. -/
def decode {α : Type} (reader : Reader α) (record : Bytes) : Except CodecError (UInt64 × α) :=
  if record.isEmpty then .error .emptyRecord
  else match (Reader.both .u64 reader).read levels record with
    | .ok (value, _) => .ok value
    | .error why => .error (.unreadable why)

/-- The id of a record with any body. -/
def peekId (record : Bytes) : Except CodecError UInt64 :=
  (decode .ignored record).map Prod.fst

end Record

end ObjectStore
