import Mathlib.Data.List.ReduceOption
import ObjectStore.Proofs.Keys.Written
import ObjectStore.Proofs.Store.OwnTransaction
import ObjectStore.Proofs.Store.Reads

/-! # Reading events, notes and tags

Where every record that a transaction sees was written under its id, every read in it succeeds. An
object is what its record decodes to and, of a note, the tags its links lead to, by ascending id:
links lead to tags by their keys, and a tag that is read carries its key as its id.
-/

namespace ObjectStore

/-- The object of an id as its record alone tells it. -/
def Box.objectOf? {T : Type} (b : Box T) (s : Snapshot) (id : ObjectId) : Option T :=
  (s.record? b.entity id).bind fun record => (b.binding.decode record).toOption

namespace Catalog

variable {T : Type} {b : Box T} {s : Snapshot} {store : Store} {e : Engine} {txn : Txn}
  {id source : ObjectId}

/-- The tags a source is linked to, by ascending id. Those that are not stored are passed over. -/
def tagsOf (s : Snapshot) (source : ObjectId) : List Tag :=
  (s.targets noteTags.id source).toList.filterMap (tagBox.objectOf? s)

/-- A note with the tags it is linked to. -/
def withTags (s : Snapshot) (note : Note) : Note :=
  { note with tags := some (tagsOf s note.id) }

/-- Every record was written under its id, which is not 0, and fits into memory. -/
structure Keyed (s : Snapshot) : Prop where
  written : s.All Written
  short : s.All fun _ _ record => record.length < 2 ^ 64
  nonzero : s.All fun _ id _ => id ≠ 0

theorem Keyed.objectOf (keyed : Keyed s) (fixture : Fixture b)
    (stored : s.contains b.entity id = true) :
    ∃ record object, s.record? b.entity id = some record ∧
      b.binding.decode record = .ok object ∧ b.objectOf? s id = some object ∧
      b.binding.id object = .ok id ∧ id ≠ 0 := by
  obtain ⟨record, found⟩ := Snapshot.contains_iff.mp stored
  obtain ⟨object, decoded, carried⟩ :=
    (keyed.written _ _ _ found).decodes fixture (keyed.short _ _ _ found)
  refine ⟨record, object, found, decoded, ?_, carried, keyed.nonzero _ _ _ found⟩
  rw [Box.objectOf?, found, Option.bind_some, decoded]
  rfl

theorem objectOf?_missing (missing : s.contains b.entity id = false) : b.objectOf? s id = none := by
  have none : s.record? b.entity id = none := by
    rw [← Option.not_isSome_iff_eq_none, Option.isSome_iff_exists, ← Snapshot.contains_iff, missing]
    decide
  rw [Box.objectOf?, none, Option.bind_none]

theorem Keyed.reads (keyed : Keyed s) (fixture : Fixture b) (ids : List ObjectId) :
    List.Forall₂ b.Reads (ids.map (s.record? b.entity)) (ids.map (b.objectOf? s)) := by
  rw [List.forall₂_map_left_iff, List.forall₂_map_right_iff, List.forall₂_same]
  intro id _
  cases stored : s.contains b.entity id with
  | true =>
      obtain ⟨record, object, found, decoded, read, -⟩ := keyed.objectOf fixture stored
      rw [found, read]
      exact .found decoded
  | false =>
      have none : s.record? b.entity id = none := by
        rw [← Option.not_isSome_iff_eq_none, Option.isSome_iff_exists, ← Snapshot.contains_iff,
          stored]
        decide
      rw [none, objectOf?_missing stored]
      exact .missing

/-! ## In an open transaction -/

/-- An open store of events, notes and tags over an engine that knows them. -/
structure Attached (store : Store) (e : Engine) : Prop where
  opened : store.closed = false
  model : store.model = smallModel
  able : store.strategy = .resultArray → e.arrays = true
  entities : ∀ entity ∈ smallModel.entities, e.entities.contains entity.id = true
  relations : ∀ relation ∈ smallModel.relations, e.relations.contains relation.id = true

/-- A transaction of an open store sees a snapshot. -/
structure Sees (txn : Txn) (s : Snapshot) (v : Store × Engine) : Prop extends
    Attached v.1 v.2 where
  view : v.2.view (some txn.handle) = .ok s

section Sees

variable (keyed : Keyed s)
include keyed

theorem relatedObjects_ends (sees : Sees txn s (store, e)) (nonzero : source ≠ 0) :
    Ends (Store.relatedObjects tagBinding txn noteTags source) (store, e) (.ok (tagsOf s source))
      (store, e) := by
  have known : e.entities.contains tagBox.entity = true :=
    sees.entities tagBox.descriptor (by decide)
  have linked : e.perform callerThread (.relGetIds (some txn.handle) noteTags.id source) =
      .ok ((s.targets noteTags.id source).toList, e) :=
    Engine.perform_relGetIds (sees.relations noteTags (by decide)) sees.view
  have bound : store.model.bound? tagBinding.name = some tagBox.descriptor := by
    rw [sees.model]
    rfl
  unfold Store.relatedObjects
  rw [if_neg nonzero]
  refine Ends.bind (Ends.ofHost (HostM.request_ends linked)) ?_
  refine Ends.bind (StoreM.boxFor_ends sees.opened bound) ?_
  refine Ends.bind (Box.readMany_ends_of_simple known sees.view (keyed.reads .tag _) sees.opened
    sees.able rfl) ?_
  rw [Box.reduceOption_placed, Box.reduceOption_eq, List.filterMap_map]
  exact Ends.pure

theorem loads_note {note : Note} (sees : Sees txn s (store, e)) (nonzero : note.id ≠ 0) :
    noteBox.Loads txn (store, e) (withTags s) note := by
  change Ends (noteBinding.loadRelated txn note) (store, e) (.ok (withTags s note)) (store, e)
  exact Ends.bind (relatedObjects_ends keyed sees nonzero) Ends.pure

/-- What goes with an object is loaded by whoever sees it, and leaves the id of the object. -/
theorem Fixture.loads (fixture : Fixture b) : ∃ load : T → T,
    (∀ {txn : Txn} {store : Store} {e : Engine}, Sees txn s (store, e) → ∀ object id,
      b.binding.id object = .ok id → id ≠ 0 → b.Loads txn (store, e) load object) ∧
      ∀ object, b.binding.id (load object) = b.binding.id object := by
  cases fixture with
  | event => exact ⟨fun event => event, fun _ _ _ _ _ => Box.loads_of_simple rfl, fun _ => rfl⟩
  | tag => exact ⟨fun tag => tag, fun _ _ _ _ _ => Box.loads_of_simple rfl, fun _ => rfl⟩
  | note =>
      refine ⟨withTags s, ?_, fun _ => rfl⟩
      rintro txn store e sees note _ ⟨⟩ nonzero
      exact loads_note keyed sees nonzero

theorem Fixture.getIn_ends (fixture : Fixture b) (stored : s.contains b.entity id = true) :
    ∃ object, b.binding.id object = .ok id ∧ ∀ {txn : Txn} {store : Store} {e : Engine},
      Sees txn s (store, e) → Ends (b.getIn txn id) (store, e) (.ok (some object)) (store, e) := by
  obtain ⟨load, loads, same⟩ := fixture.loads keyed
  obtain ⟨record, object, found, decoded, -, carried, nonzero⟩ := keyed.objectOf fixture stored
  refine ⟨load object, (same object).trans carried, fun sees => ?_⟩
  have known := sees.entities b.descriptor fixture.member
  exact Box.getIn_ends sees.opened known sees.view found decoded
    (loads sees object id carried nonzero)

theorem Fixture.existing_ends {load : T → T} {selection : Selection} {ids : List ObjectId}
    (fixture : Fixture b) (sees : Sees txn s (store, e))
    (loads : ∀ object id, b.binding.id object = .ok id → id ≠ 0 →
      b.Loads txn (store, e) load object)
    (selects : b.selected s selection = ids.map (s.record? b.entity)) :
    Ends (do return (← b.readMany txn selection true).reduceOption : StoreM (List T)) (store, e)
      (.ok ((ids.filterMap (b.objectOf? s)).map load)) (store, e) := by
  have known := sees.entities b.descriptor fixture.member
  have read : List.Forall₂ b.Reads (b.selected s selection) (ids.map (b.objectOf? s)) :=
    selects ▸ keyed.reads fixture ids
  have loaded : ∀ object, some object ∈ ids.map (b.objectOf? s) →
      b.Loads txn (store, e) load object := by
    intro object member
    obtain ⟨id, -, is⟩ := List.mem_map.mp member
    cases stored : s.contains b.entity id with
    | true =>
        obtain ⟨record, object', -, -, found, carried, nonzero⟩ := keyed.objectOf fixture stored
        obtain rfl : object' = object := Option.some.inj (found.symm.trans is)
        exact loads object' id carried nonzero
    | false => simp [objectOf?_missing stored] at is
  refine Ends.bind (Box.readMany_ends known sees.view read sees.opened sees.able loaded) ?_
  rw [List.reduceOption_map, Box.reduceOption_placed, Box.reduceOption_eq, List.filterMap_map]
  exact Ends.pure

theorem Fixture.getAllIn_ends (fixture : Fixture b) :
    ∃ objects, objects.map b.binding.id = (s.ids b.entity).map .ok ∧
      ∀ {txn : Txn} {store : Store} {e : Engine}, Sees txn s (store, e) →
        Ends (b.getAllIn txn) (store, e) (.ok objects) (store, e) := by
  obtain ⟨load, loads, same⟩ := fixture.loads keyed
  refine ⟨_, ?_, fun sees => fixture.existing_ends keyed sees (loads sees)
    Snapshot.map_some_recordList⟩
  have carried : ∀ id ∈ s.ids b.entity,
      (b.objectOf? s id).map (b.binding.id ∘ load) = some (.ok id) := by
    intro id listed
    obtain ⟨record, object, -, -, found, carried, -⟩ :=
      keyed.objectOf fixture (Snapshot.mem_ids.mp listed)
    rw [found, Option.map_some, Function.comp_apply, same, carried]
  rw [List.map_map, List.map_filterMap, List.filterMap_congr carried, List.filterMap_eq_map']

end Sees

/-! ## With a transaction or without -/

/-- What ends alike in every transaction that sees a snapshot ends so in the one that is given, and
without one if the snapshot is what is committed. -/
theorem reading_leads {α : Type} {txn : Option Txn} {program : Txn → StoreM α}
    {r : Except StoreError α} (attached : Attached store e) (exclusive : e.Exclusive)
    (view : e.view (txn.map Txn.handle) = .ok s)
    (ends : ∀ {txn : Txn} {store : Store} {e : Engine}, Sees txn s (store, e) →
      Ends (program txn) (store, e) r (store, e)) :
    Leads (Box.reading txn program) (store, e) fun r' _ => r' = r := by
  cases txn with
  | some txn => exact (ends ⟨attached, view⟩).leads rfl
  | none =>
      obtain rfl : e.committed = s := Engine.view_eq_ok.mp view
      refine (Store.reading_leads attached.opened exclusive fun e₁ within => ends ⟨?_, ?_⟩).mono
        fun r' _ left => left.1
      · refine ⟨attached.opened, attached.model, ?_, ?_, ?_⟩
        · exact within.schema.arrays ▸ attached.able
        · exact within.schema.entities ▸ attached.entities
        · exact within.schema.relations ▸ attached.relations
      · exact Engine.view_eq_ok.mpr ⟨.read, by rw [within.txns, Std.ExtTreeMap.getElem?_insert_self]⟩

end Catalog

end ObjectStore
