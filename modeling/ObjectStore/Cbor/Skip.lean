import ObjectStore.Cbor.Items

/-! # Skipping items

Passing over an item of any shape. Arrays, maps and tags may be nested as deep as there are levels
left. A tag for a big number directly before a short byte string of known length is one number, for
which no level is needed. So the head behind a tag is read before a level is asked for, and a mistake
in that head is reported even where no level is left.
-/

namespace ObjectStore.Cbor

/-- How many bytes a string may have to be taken in one piece. -/
def wholeSize : Nat := 4096

/-- How many bytes a big number may have. -/
def bigSize : Nat := 16

/-- The tag of a big number. -/
def bigPositive : Nat := 2

/-- The tag of a big number `n` that stands for `-1 - n`. -/
def bigNegative : Nat := 3

/-- Pass over the content of a text. -/
def skipText (length : Option Nat) (input : Bytes) : Except ReadError Bytes :=
  match length with
  | some n =>
    if n ≤ wholeSize then (wholeText n input).map Prod.snd
    else (textContent length input).map Prod.snd
  | none => (textContent length input).map Prod.snd

/-- Pass over a run of items, given how to pass over one. -/
def skipRun (item : Bytes → Except ReadError Bytes) (length : Option Nat) (input : Bytes) :
    Except ReadError Bytes :=
  (run (fun (_ : Unit) input => (item input).map ((), ·)) length () input).map Prod.snd

/-- Pass over the bytes of a big number. A negative one has to fit 128 bits with its sign. -/
def skipBig (tag length : Nat) (input : Bytes) : Except ReadError Bytes := do
  let (taken, input) ← takeBytes length input
  if tag = bigNegative ∧ twoTo 127 ≤ ofBigEndian taken then .error .unfitting
  else return input

/-- The length of the byte string behind a tag, if the two are one number. -/
def bigLength? (tag : Nat) : (next : Head) → Option Nat
  | .bytes (some n) =>
    if (tag = bigPositive ∨ tag = bigNegative) ∧ n ≤ bigSize then some n else none
  | _ => none

/-- Pass over an item, given how to pass over what is nested in it; without that, nothing may be. -/
def skipItem (inner : Option (Bytes → Except ReadError Bytes)) (input : Bytes) :
    Except ReadError Bytes := do
  let nested (content : (Bytes → Except ReadError Bytes) → Except ReadError Bytes) :=
    match inner with
    | some skip => content skip
    | none => .error .tooDeep
  let (head, rest) ← Head.read input
  match head with
  | .positive _ | .negative _ | .float _ => return rest
  | .simple n => if 20 ≤ n ∧ n ≤ 23 then return rest else .error .unfitting
  | .stop => .error .unfitting
  | .text length => skipText length rest
  | .bytes length => (bytesContent length rest).map Prod.snd
  | .array length => nested fun skip => skipRun skip length rest
  | .map length => nested fun skip => skipRun (fun input => skip input >>= skip) length rest
  | .tag number =>
    let (next, content) ← Head.read rest
    match bigLength? number next with
    | some n => skipBig number n content
    | none => nested fun skip => skip rest

/-- Pass over an item that may nest others `levels` deep. -/
def skip : (levels : Nat) → Bytes → Except ReadError Bytes
  | 0, input => skipItem none input
  | levels + 1, input => skipItem (some (skip levels)) input

end ObjectStore.Cbor
