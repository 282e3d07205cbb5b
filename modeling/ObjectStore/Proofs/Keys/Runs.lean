import ObjectStore.Proofs.Keys.Reading
import ObjectStore.Proofs.Store.BoxRuns
import ObjectStore.Proofs.Store.OwnTransaction

/-! # The id in a record is its key

A store of events, notes and tags is used through its boxes only, in whatever way. Then every
record, committed or in an open transaction, is what is written of an object under the key it is
stored under. So while the store is open every stored key is read as an object with that id, and all
objects are read in the order of their keys.
-/

namespace ObjectStore

open Catalog

section Reads

variable {T : Type}

/-- A record is what is written of some object of the box under an id. -/
def Box.Makes (b : Box T) (id : ObjectId) (record : Bytes) : Prop :=
  ∃ object body, b.binding.body object = .ok body ∧ Record.encode id body = .ok record

/-- What a snapshot holds for a box is read through a transaction, or through none: every key as an
object with that id, and all objects in the order of their keys. -/
structure Box.ReadsKeys (b : Box T) (txn : Option Txn) (view : Snapshot) (s : Session) : Prop where
  get {id : ObjectId} : view.contains b.entity id = true →
    ∃ object s', (b.get txn id).run s = (.ok (some object), s') ∧ b.binding.id object = .ok id
  getAll : ∃ (ids : List ObjectId) (objects : List T) (s' : Session),
    (b.getAll txn).run s = (.ok objects, s') ∧
    objects.map b.binding.id = ids.map .ok ∧ ids.Pairwise (· < ·) ∧
      ∀ id, id ∈ ids ↔ view.contains b.entity id = true

/-- The ids inside the records of a session are their keys. -/
structure Session.Keyed (s : Session) : Prop where
  committed {T : Type} {b : Box T} {id : ObjectId} {record : Bytes} : Fixture b →
    s.host.machine.engine.committed.record? b.entity id = some record → b.Makes id record
  opened {T : Type} {b : Box T} {txn : Handle} {t : OpenTxn} {id : ObjectId} {record : Bytes} :
    Fixture b → s.host.machine.engine.txns[txn]? = some t →
      t.state.record? b.entity id = some record → b.Makes id record
  /-- No record is longer than what fits into memory. -/
  reads {T : Type} {b : Box T} {txn : Option Txn} {view : Snapshot} : Fixture b →
    s.store.closed = false → s.host.machine.engine.view (txn.map Txn.handle) = .ok view →
      (view.All fun _ _ record => record.length < 2 ^ 64) → b.ReadsKeys txn view s

end Reads

namespace Catalog

variable {T : Type} {b : Box T}

/-- A binding of events, notes or tags. -/
def Bound (binding : Binding T) : Prop :=
  ∃ descriptor, Fixture ⟨descriptor, binding⟩

theorem Bound.lawful {binding : Binding T} (bound : Bound binding) :
    binding.Lawful smallModel Written := by
  obtain ⟨descriptor, fixture⟩ := bound
  intro descriptor' found
  obtain rfl : descriptor = descriptor' := Option.some.inj (fixture.bound.symm.trans found)
  exact fixture.lawful

theorem Written.makes {id : ObjectId} {record : Bytes} (fixture : Fixture b)
    (written : Written b.entity id record) : b.Makes id record := by
  cases fixture with
  | event => cases written with | event event encoded => exact ⟨event, _, rfl, encoded⟩
  | note => cases written with | note note encoded => exact ⟨note, _, rfl, encoded⟩
  | tag => cases written with | tag tag encoded => exact ⟨tag, _, rfl, encoded⟩

end Catalog

namespace Session

variable {arrays : Bool} {config : Config} {s s₀ : Session} {actions : List BoxAction}

theorem Fresh.tended (h : s.Fresh config) : s.Shows (Store.Tended Written s) := by
  refine shows_tended.mpr ⟨h.faults, rfl, rfl, rfl, rfl, ⟨rfl, rfl, rfl⟩,
    fun _ => Std.le_refl _, h.exclusive, h.numbered,
    ⟨?_, ?_⟩, ?_⟩
  · simp [Snapshot.All, h.committed, Snapshot.record?, Snapshot.table]
  · simp [h.txns]
  · simp [h.opened.queue]

theorem Sound.attached (h : s.Sound) (opened : s.store.closed = false) :
    Attached s.store s.host.machine.engine :=
  ⟨opened, h.model, h.strategy, h.entities, h.relations⟩

theorem run_of_leads {α : Type} {program : StoreM α} {v : Store × Engine} {r : Except StoreError α}
    (shows : Viewed.Shows s v) (leads : Leads program v fun r' _ => r' = r) :
    ∃ s', program.run s = (r, s') := by
  obtain ⟨-, -, same⟩ := leads s shows
  exact ⟨_, Prod.ext same rfl⟩

theorem keyed_of_written (sound : s.Sound) (written : s.host.machine.engine.All Written) :
    s.Keyed where
  committed fixture found := (written.committed _ _ _ found).makes fixture
  opened fixture found held := (written.opened found _ _ _ held).makes fixture
  reads {T b txn view} fixture opened seen short := by
    have attached := sound.attached opened
    have keyed : Catalog.Keyed view := by
      refine ⟨written.view seen, short, fun entity id record found => ?_⟩
      have reached : s.host.machine.engine.Reaches view := sound.numbered.view seen
      exact (reached entity id (Snapshot.contains_iff.mpr ⟨record, found⟩)).1
    constructor
    · intro id stored
      obtain ⟨object, carried, ends⟩ := fixture.getIn_ends keyed stored
      obtain ⟨s', ran⟩ := run_of_leads sound.shows
        (reading_leads attached sound.exclusive seen ends)
      exact ⟨object, s', ran, carried⟩
    · obtain ⟨objects, carried, ends⟩ := fixture.getAllIn_ends keyed
      obtain ⟨s', ran⟩ := run_of_leads sound.shows
        (reading_leads attached sound.exclusive seen ends)
      exact ⟨_, objects, s', ran, carried, Snapshot.pairwise_ids, fun id => Snapshot.mem_ids⟩

/-- What is done with a new store through its boxes leaves it sound, and every record in it written
    under its id. -/
theorem sound_of_use (opened : fresh arrays config = .ok s₀)
    (through : ∀ action ∈ actions, action.Uses Fixture Bound) :
    (s₀.use actions).Sound ∧ (s₀.use actions).host.machine.engine.All Written := by
  have fresh := fresh_of_opened opened
  have lawful : ∀ action ∈ actions, action.Lawful s₀.store.model Written := by
    rw [fresh.opened.model_eq]
    exact fun action member => (through action member).mono Fixture.lawful Bound.lawful
  have tended := use_tended lawful fresh.tended
  exact ⟨fresh.sound.of_tended tended, (shows_tended.mp tended).2.all⟩

/-- Whatever is done with a new store through the boxes of events, notes and tags, the ids inside
    its records are their keys. -/
theorem ids_in_records_are_keys (opened : fresh arrays config = .ok s₀)
    (through : ∀ action ∈ actions, action.Uses Fixture Bound) : (s₀.use actions).Keyed := by
  obtain ⟨sound, written⟩ := sound_of_use opened through
  exact keyed_of_written sound written

/-- An event is put, a note with a tag is written by the worker, and a transaction that is open has
    stored another tag and, in one batch, an event with an id and one without. -/
def mixedRun : List BoxAction :=
  [.call eventBox (.put { source := "sensor", seq := 7 }),
    .later (.put noteBox .put { text := "note", tags := some [{ name := "tag" }] }),
    .awaitCompletion, .begin .write,
    .store tagBox ⟨2, .write⟩ (.insert { name := "other" }),
    .store eventBox ⟨2, .write⟩ (.putMany [{ id := 5 }, { seq := 1 }])]

/-- The open transaction of such a run reads three events, and the note with its tag. -/
theorem ids_in_open_transaction_are_keys : ∃ s₀ view, fresh true {} = .ok s₀ ∧
    (s₀.use mixedRun).host.machine.engine.view (some 2) = .ok view ∧
    view.ids eventBox.entity = [1, 2, 5] ∧ view.ids noteBox.entity = [1] ∧
    eventBox.ReadsKeys (some ⟨2, .write⟩) view (s₀.use mixedRun) ∧
    noteBox.ReadsKeys (some ⟨2, .write⟩) view (s₀.use mixedRun) := by
  have eval : (fresh true {}).toOption.map (fun s₀ =>
      let s := s₀.use mixedRun
      (s.store.closed, (s.host.machine.engine.view (some 2)).toOption.map fun view =>
        (view.ids eventBox.entity, view.ids noteBox.entity,
          decide (view.All fun _ _ record => record.length < 2 ^ 64)))) =
      some (false, some ([1, 2, 5], [1], true)) := by decide +kernel
  obtain ⟨s₀, opened, seen⟩ := of_eval eval
  simp only [Prod.mk.injEq, Option.map_eq_some_iff, decide_eq_true_eq] at seen
  obtain ⟨closed, view, is, events, notes, short⟩ := seen
  have view_ok := ok_of_toOption is
  have keyed : (s₀.use mixedRun).Keyed := by
    refine ids_in_records_are_keys opened ?_
    simp only [mixedRun, List.forall_mem_cons]
    exact ⟨⟨.event, trivial⟩, .note, trivial, trivial, ⟨.tag, trivial⟩, ⟨.event, trivial⟩, by simp⟩
  exact ⟨s₀, view, opened, view_ok, events, notes, keyed.reads .event closed view_ok short,
    keyed.reads .note closed view_ok short⟩

end Session

end ObjectStore
