import ObjectStore.Cbor.Skip

/-! # Typed reading

A `Reader` reads the values of one type. Tags in front of a value are passed over, save where a
value may be absent. A byte string may stand for an array of small numbers, so a reader also says
which value one such byte stands for.

What does not fit is noticed at the head of an item, before its content is read, and of several
mistakes the first in reading order is reported.
-/

namespace ObjectStore.Cbor

/-- How the values of a type are read. -/
structure Reader (α : Type) where
  /-- Take a value off the input, with so many levels of nesting left. -/
  read : (levels : Nat) → Bytes → Except ReadError (α × Bytes)
  /-- The value of one byte of a byte string that stands for an array. -/
  ofByte : UInt8 → Except ReadError α := fun _ => .error .unfitting
  /-- The value of a field that is left out. -/
  missing? : Option α := none

/-- Take the first head that is no tag off the input. Every tag takes a byte, so that the input is
`budget` enough. -/
def untagged : (budget : Bytes) → Bytes → Except ReadError (Head × Bytes)
  | [], _ => .error .ended
  | _ :: budget, input => do
    match ← Head.read input with
    | (.tag _, rest) => untagged budget rest
    | (head, rest) => return (head, rest)

/-- Take the first head that is no tag off the input. -/
def Head.readUntagged (input : Bytes) : Except ReadError (Head × Bytes) :=
  untagged input input

/-- Only go on if a number lies within the bounds of a type. -/
def bounded {α : Type} (low high : Int) (of : Int → α) (n : Int) : Except ReadError α :=
  if low ≤ n ∧ n ≤ high then .ok (of n) else .error .unfitting

/-- Add the bytes of a piece to the significant bytes of a big number. -/
def addSignificant : Bytes → Bytes → Except ReadError Bytes
  | digits, [] => .ok digits
  | digits, b :: bs =>
    if digits.length = bigSize then .error .unfitting
    else if digits = [] ∧ b = 0 then addSignificant digits bs
    else addSignificant (digits ++ [b]) bs

/-- Read a segment of a big number, in pieces as long as the largest one. -/
def bigPieces : (fuel : Nat) → (digits : Bytes) → (unread : Nat) → Bytes →
    Except ReadError (Bytes × Bytes)
  | 0, _, _, _ => .error .ended
  | fuel + 1, digits, unread, input =>
    if unread = 0 then .ok (digits, input)
    else do
      let (piece, input) ← takeBytes (min bigSize unread) input
      let digits ← addSignificant digits piece
      bigPieces fuel digits (unread - min bigSize unread) input

/-- Read a big number behind its tag. -/
def readBig (input : Bytes) : Except ReadError (Nat × Bytes) := do
  match ← Head.read input with
  | (.bytes length, rest) =>
    let (digits, rest) ←
      stringOf bytesLength? (fun digits length => bigPieces (length + 1) digits length) length []
        rest
    return (ofBigEndian digits, rest)
  | _ => .error .unfitting

/-- Read a whole number behind any tags. Every tag takes a byte, so that the input is `budget`
enough. -/
def readInt : (budget : Bytes) → Bytes → Except ReadError (Int × Bytes)
  | [], _ => .error .ended
  | _ :: budget, input => do
    match ← Head.read input with
    | (.positive n, rest) => return (n, rest)
    | (.negative n, rest) => return (-1 - n, rest)
    | (.tag number, rest) =>
      if number = bigPositive then
        let (n, rest) ← readBig rest
        return (n, rest)
      else if number = bigNegative then
        let (n, rest) ← readBig rest
        return (-1 - n, rest)
      else readInt budget rest
    | _ => .error .unfitting

namespace Reader

def map {α β : Type} (f : α → β) (reader : Reader α) : Reader β where
  read levels input := (reader.read levels input).map fun (a, rest) => (f a, rest)
  ofByte b := (reader.ofByte b).map f
  missing? := reader.missing?.map f

/-- Read a value whose head says all but its content. -/
def ofHead {α : Type} (content : Head → Bytes → Except ReadError (α × Bytes)) : Reader α where
  read _ input := do
    let (head, rest) ← Head.readUntagged input
    content head rest

/-- Whole numbers within bounds. -/
def int {α : Type} (low high : Int) (of : Int → α) : Reader α where
  read _ input := do
    let (n, rest) ← readInt input input
    return (← bounded low high of n, rest)
  ofByte b := bounded low high of b.toNat

def u8 : Reader UInt8 := int 0 0xff fun n => .ofNat n.toNat

def u16 : Reader UInt16 := int 0 0xffff fun n => .ofNat n.toNat

def u32 : Reader UInt32 := int 0 0xffffffff fun n => .ofNat n.toNat

def u64 : Reader UInt64 := int 0 0xffffffffffffffff fun n => .ofNat n.toNat

def i64 : Reader Int64 := int (-0x8000000000000000) 0x7fffffffffffffff Int64.ofInt

def bool : Reader Bool :=
  ofHead fun
    | .simple 20, rest => .ok (false, rest)
    | .simple 21, rest => .ok (true, rest)
    | _, _ => .error .unfitting

/-- Floats, by their double-width bits. A small whole number in a byte string is one too. -/
def float : Reader UInt64 :=
  { ofHead (fun
      | .float bits, rest => .ok (bits, rest)
      | _, _ => .error .unfitting) with
    ofByte := fun b => .ok (floatOfByte b) }

def text : Reader String :=
  ofHead fun
    | .text length, rest => do
      let (chars, rest) ← textContent length rest
      return (.ofList chars, rest)
    | _, _ => .error .unfitting

def unit : Reader Unit :=
  ofHead fun
    | .simple 22, rest | .simple 23, rest => .ok ((), rest)
    | _, _ => .error .unfitting

/-- A value or none. A tag belongs to the value, so behind one there has to be a value. -/
def option {α : Type} (reader : Reader α) : Reader (Option α) where
  read levels input := do
    match ← Head.read input with
    | (.simple 22, rest) | (.simple 23, rest) => return (none, rest)
    | _ =>
      let (a, rest) ← reader.read levels input
      return (some a, rest)
  missing? := some none

/-- One level deeper, if there is one. -/
def deeper {α : Type} : (levels : Nat) → ((levels : Nat) → Except ReadError α) → Except ReadError α
  | 0, _ => .error .tooDeep
  | levels + 1, content => content levels

/-- Lists: an array, or a byte string that stands for one. -/
def list {α : Type} (reader : Reader α) : Reader (List α) where
  read levels input := do
    match ← Head.readUntagged input with
    | (.array length, rest) => deeper levels fun levels => listOf (reader.read levels) length rest
    | (.bytes length, rest) =>
      let (bytes, rest) ← bytesContent length rest
      return (← bytes.mapM reader.ofByte, rest)
    | _ => .error .unfitting

/-- Read an element of an array with so many elements left, if there is one. -/
def element {α : Type} (read : Bytes → Except ReadError (α × Bytes)) (left : Option Nat)
    (input : Bytes) : Except ReadError (α × Bytes) :=
  match left with
  | some 0 => .error .unfitting
  | some _ => read input
  | none => if input.head? = some stopByte then .error .unfitting else read input

/-- Pairs: the first two elements of an array or of a byte string that stands for one. What follows
them in the array is not looked at. -/
def both {α β : Type} (first : Reader α) (second : Reader β) : Reader (α × β) where
  read levels input := do
    match ← Head.readUntagged input with
    | (.array length, rest) => deeper levels fun levels => do
      let (a, rest) ← element (first.read levels) length rest
      let (b, rest) ← element (second.read levels) (length.map (· - 1)) rest
      return ((a, b), rest)
    | (.bytes length, rest) =>
      let (bytes, rest) ← bytesContent length rest
      match bytes with
      | a :: b :: _ => return ((← first.ofByte a, ← second.ofByte b), rest)
      | [a] =>
        let _ ← first.ofByte a
        .error .unfitting
      | [] => .error .unfitting
    | _ => .error .unfitting

/-- Any value, not looked at. -/
def ignored : Reader Unit where
  read levels input := (skip levels input).map ((), ·)
  ofByte _ := .ok ()

/-- The entries of a map from texts, in reading order. -/
def entries {α : Type} (reader : Reader α) : Reader (List (String × α)) where
  read levels input := do
    match ← Head.readUntagged input with
    | (.map length, rest) => deeper levels (fun levels => listOf (entry levels) length rest)
    | _ => .error .unfitting
where
  entry (levels : Nat) (input : Bytes) : Except ReadError ((String × α) × Bytes) := do
    let (key, input) ← text.read levels input
    let (value, input) ← reader.read levels input
    return ((key, value), input)

end Reader

end ObjectStore.Cbor
