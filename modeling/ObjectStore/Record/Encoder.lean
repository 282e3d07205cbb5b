import ObjectStore.Record.Basic

/-! # Encoders and their pool

An encoder writes records into a buffer that it keeps, so that the next record needs no new one. A
pool keeps encoders nobody uses. The one returned last is handed out first, one whose buffer has
grown too large is let go, and so is one for which there is no room.
-/

namespace ObjectStore

/-- Writes records into a buffer of its own. -/
structure Encoder where
  /-- The record written last; empty if there is none. -/
  buffer : Bytes := []
  /-- How many bytes fit into the buffer before it has to grow. -/
  capacity : Nat := 0
  deriving DecidableEq, Repr

namespace Encoder

/-- The capacity after making room for `needed` bytes: it doubles, from eight at least. -/
def grown (capacity needed : Nat) : Nat :=
  if needed ≤ capacity then capacity
  else grow (needed + 1) (max 8 (2 * capacity))
where
  /-- Double until there is room. -/
  grow : (fuel : Nat) → Nat → Nat
    | 0, capacity => max capacity needed
    | fuel + 1, capacity => if needed ≤ capacity then capacity else grow fuel (2 * capacity)

/-- Write a record over what the buffer holds. A refusal leaves the buffer empty, but as large as
it became. -/
def encode (e : Encoder) (id : UInt64) (body : Cbor.Value) : Except CodecError Unit × Encoder :=
  let output := Record.write id body
  let capacity := grown e.capacity output.bytes.length
  match output.refusal with
  | some why => (.error (.refused why), { buffer := [], capacity })
  | none => (.ok (), { buffer := output.bytes, capacity })

/-- Empty the buffer, which keeps its size. -/
def reset (e : Encoder) : Encoder :=
  { e with buffer := [] }

end Encoder

/-- The encoders nobody uses. -/
structure EncoderPool where
  /-- An encoder with so large a buffer is let go when it is returned. -/
  retainLimit : Nat
  /-- How many encoders are kept. -/
  maxIdle : Nat
  /-- The encoders kept, the one returned last first. -/
  idle : List Encoder := []
  deriving DecidableEq, Repr

namespace EncoderPool

/-- Take an encoder out, a new one if none is kept. -/
def acquire (pool : EncoderPool) : Encoder × EncoderPool :=
  match pool.idle with
  | [] => ({}, pool)
  | e :: idle => (e, { pool with idle })

/-- Return an encoder. -/
def release (pool : EncoderPool) (e : Encoder) : EncoderPool :=
  if e.capacity < pool.retainLimit ∧ pool.idle.length < pool.maxIdle then
    { pool with idle := e.reset :: pool.idle }
  else pool

/-- Write one record with an encoder of the pool, and return the encoder. If there is no body to
write, an encoder is taken all the same. -/
def encode (pool : EncoderPool) (id : UInt64) (body : Except CodecError Cbor.Value) :
    Except CodecError Bytes × EncoderPool :=
  let (e, pool) := pool.acquire
  match body with
  | .error why => (.error why, pool.release e)
  | .ok body =>
    let (result, e) := e.encode id body
    (result.map fun _ => e.buffer, pool.release e)

end EncoderPool

end ObjectStore
