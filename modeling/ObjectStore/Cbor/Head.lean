import ObjectStore.Engine.Snapshot
import ObjectStore.Cbor.Float

/-! # Heads

Every CBOR item begins with a head: three bits for its kind and five for an argument, which may
continue in the next one, two, four or eight bytes. `Head.read` takes a head off the input and
answers with the rest; `Head.write` writes the shortest form.
-/

namespace ObjectStore.Cbor

/-- Why input cannot be read. -/
inductive ReadError where
  /-- The input ends before the item does. -/
  | ended
  /-- The input is not CBOR. -/
  | malformed
  /-- The input is CBOR of another shape than the one asked for. -/
  | unfitting
  /-- Items are nested deeper than the limit. -/
  | tooDeep
  deriving DecidableEq, Repr

namespace ReadError

/-- The class an error is reported as. -/
def text : ReadError → String
  | ended => "Io"
  | malformed => "Syntax"
  | unfitting => "Semantic"
  | tooDeep => "RecursionLimitExceeded"

end ReadError

/-- The head of an item. A length is absent where the item goes on until a stop. -/
inductive Head where
  | positive (n : Nat)
  /-- The number `-1 - n`. -/
  | negative (n : Nat)
  | bytes (length : Option Nat)
  | text (length : Option Nat)
  | array (length : Option Nat)
  | map (length : Option Nat)
  | tag (number : Nat)
  | simple (number : Nat)
  /-- A float, by its double-width bits. -/
  | float (bits : UInt64)
  /-- The end of an item without a length. -/
  | stop
  deriving DecidableEq, Repr

/-- The lowest `width` bytes of a number, the highest first. -/
def bigEndian : Nat → Nat → Bytes
  | 0, _ => []
  | width + 1, n => .ofNat (n / twoTo (8 * width)) :: bigEndian width n

/-- The number that bytes stand for, the highest byte first. -/
def ofBigEndian (bytes : Bytes) : Nat :=
  bytes.foldl (fun n b => n * 256 + b.toNat) 0

/-- Take `n` bytes off the input. -/
def takeBytes (n : Nat) (input : Bytes) : Except ReadError (Bytes × Bytes) :=
  let taken := input.take n
  if taken.length = n then .ok (taken, input.drop n) else .error .ended

/-- The argument of a head. -/
inductive Argument where
  /-- A number, and the number of bytes it took beside the first. -/
  | value (width : Nat) (n : Nat)
  /-- The item goes on until a stop. -/
  | unbounded
  deriving DecidableEq, Repr

namespace Argument

/-- Take an argument off the input, given the five bits of the first byte. -/
def read (info : Nat) (input : Bytes) : Except ReadError (Argument × Bytes) :=
  let following (width : Nat) : Except ReadError (Argument × Bytes) := do
    let (taken, rest) ← takeBytes width input
    return (value width (ofBigEndian taken), rest)
  match info with
  | 24 => following 1
  | 25 => following 2
  | 26 => following 4
  | 27 => following 8
  | 28 | 29 | 30 => .error .malformed
  | 31 => .ok (.unbounded, input)
  | n => .ok (value 0 n, input)

/-- The shortest form of an argument behind the three bits of a kind. -/
def write (kind : Nat) (n : Nat) : Bytes :=
  let first (info : Nat) : UInt8 := .ofNat (kind * 32 + info)
  if n < 24 then [first n]
  else if n < 0x100 then first 24 :: bigEndian 1 n
  else if n < 0x10000 then first 25 :: bigEndian 2 n
  else if n < 0x100000000 then first 26 :: bigEndian 4 n
  else first 27 :: bigEndian 8 n

end Argument

namespace Head

/-- The head of a kind with an argument. -/
def ofArgument (kind : Nat) (argument : Argument) : Except ReadError Head :=
  match kind, argument with
  | 0, .value _ n => .ok (positive n)
  | 1, .value _ n => .ok (negative n)
  | 2, .value _ n => .ok (bytes (some n))
  | 2, .unbounded => .ok (bytes none)
  | 3, .value _ n => .ok (text (some n))
  | 3, .unbounded => .ok (text none)
  | 4, .value _ n => .ok (array (some n))
  | 4, .unbounded => .ok (array none)
  | 5, .value _ n => .ok (map (some n))
  | 5, .unbounded => .ok (map none)
  | 6, .value _ n => .ok (tag n)
  | 7, .value 2 n => .ok (float (FloatFormat.half.widen n))
  | 7, .value 4 n => .ok (float (FloatFormat.single.widen n))
  | 7, .value 8 n => .ok (float (.ofNat n))
  | 7, .value _ n => .ok (simple n)
  | 7, .unbounded => .ok stop
  | _, _ => .error .malformed

def read : Bytes → Except ReadError (Head × Bytes)
  | [] => .error .ended
  | first :: rest => do
    let (argument, rest) ← Argument.read (first.toNat % 32) rest
    let head ← ofArgument (first.toNat / 32) argument
    return (head, rest)

/-- The shortest form of a float. -/
def writeFloat (bits : UInt64) : Bytes :=
  match FloatFormat.half.narrow? bits with
  | some n => 0xf9 :: bigEndian 2 n
  | none =>
    match FloatFormat.single.narrow? bits with
    | some n => 0xfa :: bigEndian 4 n
    | none => 0xfb :: bigEndian 8 bits.toNat

/-- The byte that begins an item of a kind without a length. -/
def openByte (kind : Nat) : UInt8 := .ofNat (kind * 32 + 31)

/-- The shortest form of a head. -/
def write : Head → Bytes
  | positive n => Argument.write 0 n
  | negative n => Argument.write 1 n
  | bytes (some n) => Argument.write 2 n
  | bytes none => [openByte 2]
  | text (some n) => Argument.write 3 n
  | text none => [openByte 3]
  | array (some n) => Argument.write 4 n
  | array none => [openByte 4]
  | map (some n) => Argument.write 5 n
  | map none => [openByte 5]
  | tag n => Argument.write 6 n
  | simple n => Argument.write 7 n
  | float bits => writeFloat bits
  | stop => [openByte 7]

end Head

end ObjectStore.Cbor
