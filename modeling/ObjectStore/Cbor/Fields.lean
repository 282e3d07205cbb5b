import ObjectStore.Cbor.Reader

/-! # Records of named fields

A value with named fields is a map whose keys are the names, in any order. An unknown key and its
value are passed over; a field may be given once, and all but optional ones have to be given. That
one is given twice is noticed at its second key, that one is missing at the end of the map.
-/

namespace ObjectStore.Cbor

/-- A field of a value that is put together in `σ` as its fields are read. -/
structure Field (σ : Type) where
  name : String
  /-- Whether the field was read already. -/
  isRead : σ → Bool
  /-- Read the field's value into what was put together so far. -/
  readInto : (levels : Nat) → σ → Bytes → Except ReadError (σ × Bytes)

namespace Field

/-- A field read by a reader into its place in `σ`. -/
def of {σ α : Type} (name : String) (reader : Reader α) (place : σ → Option α)
    (fill : σ → α → σ) : Field σ where
  name
  isRead s := (place s).isSome
  readInto levels s input := do
    let (a, input) ← reader.read levels input
    return (fill s a, input)

end Field

/-- How many bytes a key may have. -/
def keySize : Nat := 4096

/-- Read a key: a text or byte string of known length. -/
def readKey (input : Bytes) : Except ReadError (Bytes × Bytes) := do
  match ← Head.readUntagged input with
  | (.text (some n), rest) => if n ≤ keySize then wholeText n rest else .error .unfitting
  | (.bytes (some n), rest) => if n ≤ keySize then takeBytes n rest else .error .unfitting
  | _ => .error .unfitting

/-- Read one entry of a map into what was put together so far. -/
def readEntry {σ : Type} (fields : List (Field σ)) (levels : Nat) (s : σ) (input : Bytes) :
    Except ReadError (σ × Bytes) := do
  let (key, input) ← readKey input
  match fields.find? (fun field => utf8 field.name = key) with
  | some field => if field.isRead s then .error .unfitting else field.readInto levels s input
  | none => return (s, ← skip levels input)

namespace Reader

/-- A field's value: the one read, or that of a field left out. -/
def orMissing {α : Type} (reader : Reader α) (read : Option α) : Except ReadError α :=
  match read with
  | some a => .ok a
  | none =>
    match reader.missing? with
    | some a => .ok a
    | none => .error .unfitting

/-- Values with named fields, finished from what was put together. -/
def fields {σ α : Type} (fields : List (Field σ)) (start : σ)
    (finish : σ → Except ReadError α) : Reader α where
  read levels input := do
    match ← Head.readUntagged input with
    | (.map length, rest) => deeper levels fun levels => do
      let (s, rest) ← run (readEntry fields levels) length start rest
      return (← finish s, rest)
    | _ => .error .unfitting

end Reader

end ObjectStore.Cbor
