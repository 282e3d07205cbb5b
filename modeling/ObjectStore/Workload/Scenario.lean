import ObjectStore.Catalog.Bindings
import ObjectStore.Store.Opening
import ObjectStore.Store.Removal

/-! # Scenarios

Stores of events, notes and tags over a new engine, with something in them to begin with.
-/

namespace ObjectStore

open Catalog

namespace Session

/-- An empty store of events, notes and tags over a new engine. -/
def fresh (arrays : Bool) (config : Config) : Except StoreError Session :=
  (openOn { machine := .fresh arrays } smallModel config).1

end Session

namespace Workload

/-- The text of a family of objects followed by the number of one of them. -/
def numbered (family : String) (i : Nat) : String :=
  family ++ toString i

/-- Numbered tags, none of them stored. -/
def tagsOf (family : String) (count : Nat) : List Tag :=
  (List.range count).map fun i => { name := numbered family i }

/-- Go on with what a program ended in. -/
def orFail {α : Type} : Except StoreError α → StoreM α
  | .ok a => return a
  | .error why => throw why

/-- Store as many events of a sensor, and answer their ids. -/
def populate (count : Nat) : StoreM (List ObjectId) := do
  let b ← Store.boxFor eventBinding
  let batch : List Event := (List.range count).map fun seq =>
    { source := "sensor", seq := .ofNat seq }
  let (ids, _) ← Editing.runOn batch (b.putMany none)
  orFail ids

/-- Store some tags, and notes that have all of them; answer the notes. -/
def tagNotes (notes tags : Nat) : StoreM (List Note) := do
  let tagBox ← Store.boxFor tagBinding
  let (result, shared) ← Editing.runOn (tagsOf "tag-" tags) (tagBox.putMany none)
  let _ ← orFail result
  let noteBox ← Store.boxFor noteBinding
  let batch : List Note := (List.range notes).map fun i =>
    { text := numbered "note-" i, tags := some shared }
  let (result, batch) ← Editing.runOn batch (noteBox.putMany none)
  let _ ← orFail result
  return batch

/-- How much a store holds. -/
structure Census where
  events : Nat
  notes : Nat
  tags : Nat
  deriving DecidableEq, Repr

def census : StoreM Census := do
  return {
    events := ← (← Store.boxFor eventBinding).count none
    notes := ← (← Store.boxFor noteBinding).count none
    tags := ← (← Store.boxFor tagBinding).count none }

/-- The tags the first note is linked to. -/
def firstNoteTags : StoreM (List ObjectId) := do
  (← Store.boxFor noteBinding).relationIds none noteTags 1

end Workload

end ObjectStore
