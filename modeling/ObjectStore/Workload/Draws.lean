import ObjectStore.Workload.Scenario

/-! # Drawn data

Data for measuring a store with, made from a source of random numbers. The source is a function
from the place of a draw to the number drawn.
-/

namespace ObjectStore.Workload

open Catalog

/-- A source of random numbers. -/
abbrev Source := Nat → UInt64

/-- As many random bytes. -/
def randomBytes (source : Source) (size : Nat) : Bytes :=
  (List.range size).map fun i => (source i).toUInt8

/-- As many events with random payloads. -/
def randomEvents (source : Source) (count size : Nat) : List Event :=
  (List.range count).map fun i =>
    let payload := randomBytes (fun j => source (i * size + j)) size
    { source := "bench", seq := .ofNat i, payload }

/-- A note with tags, neither of them stored. -/
def taggedNote (tags : Nat) : Note :=
  { text := "bench", tags := some (tagsOf "tag-" tags) }

/-- An id to look up: one of the ids up to `largest`, or, about once in `missEvery` times unless
that is 0, one above them. -/
def randomLookup (source : Source) (largest missEvery : UInt64) (i : Nat) : ObjectId :=
  let id := 1 + source (2 * i + 1) % max largest 1
  if missEvery ≠ 0 ∧ source (2 * i) % missEvery = 0 then largest + id else id

/-- As many ids to look up. -/
def randomLookups (source : Source) (count : Nat) (largest missEvery : UInt64) : List ObjectId :=
  (List.range count).map (randomLookup source largest missEvery)

end ObjectStore.Workload
