import ObjectStore.Catalog.Objects

/-! # Shapes of bodies

The types of body a record can be read as, each with how its values are written and read.
-/

namespace ObjectStore.Catalog

open Cbor

/-- A type of body. -/
inductive Shape where
  | event
  | note
  | tag
  | reading
  | sample
  | text
  | u64
  | u8
  | i64
  | bool
  | float
  | unit
  | optionalU64
  | listU8
  | listText
  | mapTextU64
  deriving DecidableEq, Repr

namespace Shape

/-- The bodies of a shape. A float is known by its double-width bits. -/
@[reducible] def Carrier : Shape → Type
  | event => Event
  | note => Note
  | tag => Tag
  | reading => Reading
  | sample => Sample
  | text => String
  | u64 => UInt64
  | u8 => UInt8
  | i64 => Int64
  | bool => Bool
  | float => UInt64
  | unit => Unit
  | optionalU64 => Option UInt64
  | listU8 => Bytes
  | listText => List String
  | mapTextU64 => List (String × UInt64)

def body : (shape : Shape) → shape.Carrier → Value
  | event, e => e.body
  | note, n => n.body
  | tag, t => t.body
  | reading, r => r.body
  | sample, s => s.body
  | text, s => .text s
  | u64, n => .ofUInt64 n
  | u8, n => .ofUInt64 n.toUInt64
  | i64, n => .ofInt n.toInt
  | bool, b => .bool b
  | float, bits => .float bits
  | unit, _ => .null
  | optionalU64, some n => .ofUInt64 n
  | optionalU64, none => .null
  | listU8, bytes => ofBytes bytes
  | listText, texts => .ofList (texts.map .text)
  | mapTextU64, entries => .map true (entries.map fun entry => (.text entry.1, .ofUInt64 entry.2))

def reader : (shape : Shape) → Reader shape.Carrier
  | event => Event.reader
  | note => Note.reader
  | tag => Tag.reader
  | reading => Reading.reader
  | sample => Sample.reader
  | text => .text
  | u64 => .u64
  | u8 => .u8
  | i64 => .i64
  | bool => .bool
  | float => .float
  | unit => .unit
  | optionalU64 => .option .u64
  | listU8 => .list .u8
  | listText => .list .text
  | mapTextU64 => .entries .u64

end Shape

end ObjectStore.Catalog
