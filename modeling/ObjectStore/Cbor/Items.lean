import ObjectStore.Cbor.Text

/-! # Runs of items

The content of an array or map is a run of items: a known number of them, or as many as come before
a stop. A run is read item by item, each adding to what was read before.
-/

namespace ObjectStore.Cbor

/-- The byte of a stop. -/
def stopByte : UInt8 := 0xff

/-- Read `n` items. -/
def times {σ : Type} (item : σ → Bytes → Except ReadError (σ × Bytes)) :
    (n : Nat) → σ → Bytes → Except ReadError (σ × Bytes)
  | 0, read, input => .ok (read, input)
  | n + 1, read, input => do
    let (read, input) ← item read input
    times item n read input

/-- Read items until a stop. Every item takes a byte, so that the input is `budget` enough. -/
def untilStop {σ : Type} (item : σ → Bytes → Except ReadError (σ × Bytes)) :
    (budget : Bytes) → σ → Bytes → Except ReadError (σ × Bytes)
  | [], _, _ => .error .ended
  | _ :: budget, read, input =>
    if input.head? = some stopByte then .ok (read, input.tail)
    else do
      let (read, input) ← item read input
      untilStop item budget read input

/-- Read a run of a known length, or up to a stop. -/
def run {σ : Type} (item : σ → Bytes → Except ReadError (σ × Bytes)) (length : Option Nat)
    (read : σ) (input : Bytes) : Except ReadError (σ × Bytes) :=
  match length with
  | some n => times item n read input
  | none => untilStop item input read input

/-- Read a run of items as a list. -/
def listOf {α : Type} (item : Bytes → Except ReadError (α × Bytes)) (length : Option Nat)
    (input : Bytes) : Except ReadError (List α × Bytes) := do
  let (items, rest) ← run (fun items input => do
    let (a, input) ← item input
    return (a :: items, input)) length [] input
  return (items.reverse, rest)

end ObjectStore.Cbor
