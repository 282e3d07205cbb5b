import ObjectStore.Cbor.Text

/-! # Values

The values that can be written as CBOR items: whole numbers of up to 128 bits with their sign,
floats, texts, byte strings, and lists and maps, whose length may be known beforehand or not. A
value may also refuse to be written; what came before it has then been put out already.
-/

namespace ObjectStore.Cbor

/-- A value to be written. -/
inductive Value where
  | null
  | bool (b : Bool)
  /-- The whole number `n`. -/
  | natural (n : BitVec 128)
  /-- The whole number `-1 - n`. -/
  | negative (n : BitVec 127)
  /-- A float, by its double-width bits. -/
  | float (bits : UInt64)
  | text (s : String)
  | bytes (b : Bytes)
  /-- A list; `sized` if its length is known beforehand. -/
  | list (sized : Bool) (items : List Value)
  /-- A map; `sized` if its length is known beforehand. -/
  | map (sized : Bool) (entries : List (Value × Value))
  /-- A value that cannot be written, and says why. -/
  | refuse (why : String)
  deriving Inhabited

/-- What writing puts out, and why it stopped if it did. -/
structure Output where
  bytes : Bytes
  refusal : Option String := none
  deriving DecidableEq, Repr

namespace Output

/-- One output behind another; nothing comes behind a refusal. -/
def append (first second : Output) : Output :=
  match first.refusal with
  | some _ => first
  | none => ⟨first.bytes ++ second.bytes, second.refusal⟩

instance : Append Output := ⟨append⟩

end Output

namespace Value

/-- A small natural number. -/
def ofUInt64 (n : UInt64) : Value := natural (.ofNat 128 n.toNat)

/-- A whole number of up to 128 bits. -/
def ofInt : Int → Value
  | .ofNat n => natural (.ofNat 128 n)
  | .negSucc n => negative (.ofNat 127 n)

def ofList (items : List Value) : Value := list true items

def ofFields (fields : List (String × Value)) : Value :=
  map true (fields.map fun field => (text field.1, field.2))

/-- A value inside so many lists of one item. -/
def nest (depth : Nat) (v : Value) : Value :=
  depth.repeat (fun v => ofList [v]) v

/-- How many bytes a number takes. -/
def byteCount (n : Nat) : Nat :=
  if n = 0 then 0 else n.log2 / 8 + 1

/-- A whole number too large for a head: its tag and its bytes, without leading zeros. -/
def writeBig (tag n : Nat) : Bytes :=
  (Head.tag tag).write ++ (Head.bytes (some (byteCount n))).write ++ bigEndian (byteCount n) n

/-- The head of a run of items or entries. -/
def writeLength (kind : Option Nat → Head) (sized : Bool) (length : Nat) : Output :=
  ⟨(kind (if sized then some length else none)).write, none⟩

/-- The end of a run of items or entries. -/
def writeEnd (sized : Bool) : Output :=
  ⟨if sized then [] else Head.stop.write, none⟩

mutual

def write : Value → Output
  | null => ⟨(Head.simple 22).write, none⟩
  | bool b => ⟨(Head.simple (if b then 21 else 20)).write, none⟩
  | natural n =>
    ⟨if n.toNat < twoTo 64 then (Head.positive n.toNat).write else writeBig 2 n.toNat, none⟩
  | negative n =>
    ⟨if n.toNat < twoTo 64 then (Head.negative n.toNat).write else writeBig 3 n.toNat, none⟩
  | float bits => ⟨(Head.float bits).write, none⟩
  | text s => ⟨(Head.text (some (utf8 s).length)).write ++ utf8 s, none⟩
  | bytes b => ⟨(Head.bytes (some b.length)).write ++ b, none⟩
  | list sized items => writeLength .array sized items.length ++ writeItems items ++ writeEnd sized
  | map sized entries =>
    writeLength .map sized entries.length ++ writeEntries entries ++ writeEnd sized
  | refuse why => ⟨[], some why⟩

def writeItems : List Value → Output
  | [] => ⟨[], none⟩
  | v :: vs => v.write ++ writeItems vs

def writeEntries : List (Value × Value) → Output
  | [] => ⟨[], none⟩
  | (k, v) :: entries => k.write ++ v.write ++ writeEntries entries

end

end Value

end ObjectStore.Cbor
