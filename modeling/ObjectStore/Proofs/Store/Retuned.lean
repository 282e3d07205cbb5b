import ObjectStore.Proofs.Events.Map
import ObjectStore.Proofs.Notes.FanOut
import ObjectStore.Proofs.Store.AtOnce
import ObjectStore.Proofs.Store.Reachable

/-! # Stores that are tuned differently

The chunk size, the other settings and the tier of its engine tune a store. They do not change what
a bulk put comes to, if no object of it carries an id past the sequence: on two stores over engines
that hold the same, it fails on both, or answers the same ids, leaves the objects the same and the
engines holding the same again.
-/

namespace ObjectStore

open Catalog

/-! ## Plans that tuning does not change -/

namespace Draft

variable {base base' : Engine}

section Entities

variable (same : base.entities = base'.entities)
include same

theorem idForPut_alike : idForPut base = idForPut base' := by
  funext entity candidate d
  simp only [idForPut, known, same]

theorem put_alike : put base = put base' := by
  funext entity id record mode d
  simp only [put, known, same]

end Entities

section Relations

variable (same : base.relations = base'.relations)
include same

theorem relPut_alike : relPut base = relPut base' := by
  funext relation source target d
  simp only [relPut, linkable, same]

theorem relRemove_alike : relRemove base = relRemove base' := by
  funext relation source target d
  simp only [relRemove, linkable, same]

theorem relGetIds_alike : relGetIds base = relGetIds base' := by
  funext relation source d
  simp only [relGetIds, linkable, same]

end Relations

end Draft

/-- Single objects are stored alike. -/
structure Setting.Alike (u v : Setting) : Prop where
  model : u.store.model = v.store.model
  closed : u.store.closed = v.store.closed
  entities : u.base.entities = v.base.entities
  relations : u.base.relations = v.base.relations

namespace Binding.Account

variable {T : Type} {binding : Binding T} {account : binding.Account} {total : binding.Total}
  {entity : EntityDescriptor} {u v : Setting} {objects : List T} {d : Draft}

section Related

variable (related : account.related u = account.related v)
include related

theorem encode_alike : account.encode entity u = account.encode entity v := by
  funext id
  simp only [encode, related]

theorem atOnce_alike : account.atOnce total entity u objects d =
    account.atOnce total entity v objects d := by
  simp only [atOnce, encode_alike related]

variable (alike : u.Alike v)
include alike

theorem putObject_alike : account.putObject entity u = account.putObject entity v := by
  have storeUnder : account.storeUnder entity u = account.storeUnder entity v := by
    funext id mode
    simp only [Account.storeUnder, encode_alike related, Draft.put_alike alike.entities]
  funext mode
  simp only [putObject, write, storeUnder, Draft.idForPut_alike alike.entities, Setting.opened,
    alike.closed]

theorem linkTargets_alike : account.linkTargets entity u = account.linkTargets entity v := by
  have linkTarget : account.linkTarget entity u = account.linkTarget entity v := by
    funext relation source linked
    simp only [Account.linkTarget, putObject_alike related alike,
      Draft.relPut_alike alike.relations]
  funext relation source linked w
  simp only [linkTargets]
  generalize w.2 = d
  induction w.1 generalizing linked d with
  | nil => rfl
  | cons object objects ih => simp only [linkTargets.go, linkTarget, ih]

theorem replaceLinks_alike : account.replaceLinks u = account.replaceLinks v := by
  have registered : u.store.registered binding.name = v.store.registered binding.name := by
    simp only [Store.registered, alike.model, alike.closed]
  funext relation source stored
  simp only [replaceLinks, registered, linkTargets_alike related alike,
    Draft.relGetIds_alike alike.relations, Draft.relRemove_alike alike.relations]

end Related

end Binding.Account

namespace Catalog

variable {u v : Setting}

theorem noteAccount_alike (alike : u.Alike v) : noteAccount.related u = noteAccount.related v := by
  have tags : tagAccount.related u = tagAccount.related v := rfl
  funext id
  simp only [noteAccount, Binding.Account.replaceLinks_alike tags alike]

theorem noteAccount_apart (small : u.store.model = smallModel) :
    noteAccount.Apart noteBox.entity u := by
  have tags : tagAccount.Apart noteBox.entity u := fun _ => .pure
  have others (entity : EntityDescriptor)
      (found : u.store.registered tagBinding.name = .ok entity) : noteBox.entity ≠ entity.id := by
    have bound : smallModel.bound? tagBinding.name = some tagBox.descriptor := rfl
    rw [Store.registered, small, bound] at found
    split at found <;> cases found
    decide
  exact fun id => .bind .read fun note =>
    .ite (fun _ => .focus (Binding.Account.replaceLinks_apart tags others)) fun _ => .pure

end Catalog

/-! ## Plans in a transaction of their own -/

namespace Engine

variable {e : Engine} {d : Draft}

/-- The engine once the caller has the writer slot, but for the transaction. -/
def begun (e : Engine) : Engine :=
  { e with nextHandle := e.nextHandle + 1, writer := some callerThread }

/-- The engine once a transaction of the caller was committed at a draft. -/
def published (e : Engine) (d : Draft) : Engine :=
  { e with
    committed := d.view
    sequences := d.sequences
    relationWrites := d.relationWrites
    nextHandle := e.nextHandle + 1 }

theorem begin_drafted (free : e.writer = none) : e.begin callerThread .write =
    .ok (e.nextHandle, e.begun.drafted e.nextHandle (e.draft e.committed)) :=
  begin_eq_ok.mpr ⟨fun _ => free, rfl, rfl⟩

theorem within_drafted :
    e.Within callerThread .write d.view (e.begun.drafted e.nextHandle d) :=
  ⟨⟨rfl, rfl, rfl⟩, rfl, rfl, rfl, rfl⟩

theorem commit_drafted (exclusive : e.Exclusive) (free : e.writer = none) :
    (e.begun.drafted e.nextHandle d).commit e.nextHandle = .ok (e.published d) := by
  refine commit_eq_ok.mpr ⟨_, within_drafted.found, ?_⟩
  have erased : (e.txns.insert e.nextHandle ⟨.write, d.view⟩).erase e.nextHandle = e.txns :=
    (@within_drafted e d).erase exclusive
  simp only [published, drafted, begun, free, erased]

end Engine

theorem Store.runIn_computes {σ α : Type} {store : Store} {e : Engine} {objects : σ}
    {program : Txn → Editing σ α} {plan : Plan σ α} (opened : store.closed = false)
    (exclusive : e.Exclusive) (free : e.writer = none)
    (computes : Editing.Computes ⟨store, e.begun, ⟨e.nextHandle, .write⟩⟩
      (program ⟨e.nextHandle, .write⟩) plan) :
    Leads (runIn .write program) (objects, store, e) fun r w => succeeded (r, w) =
      (succeeded (plan (objects, e.draft e.committed))).map fun (a, objects, d) =>
        (a, objects, store, e.published d) := by
  refine runIn_leads opened (Engine.begin_drafted free)
    (Leads.mono (computes (objects, e.draft e.committed)) ?_)
  rintro r w ⟨rfl, rfl⟩
  rcases plan (objects, e.draft e.committed) with ⟨why | a, objects', d⟩
  · obtain ⟨e', aborted, -⟩ :=
      (@Engine.within_drafted e d).abort exclusive fun _ => free
    exact ⟨e', aborted, rfl⟩
  · exact ⟨_, Engine.commit_drafted exclusive free, rfl⟩

/-! ## Bulk puts -/

namespace Box

variable {T : Type} {b : Box T} {total : b.binding.Total} {account : b.binding.Account}
  {objects : List T} {store : Store} {e : Engine}

/-- Where a bulk put in a transaction of its own works. -/
def setting (store : Store) (e : Engine) : Setting :=
  ⟨store, e.begun, ⟨e.nextHandle, .write⟩⟩

variable (account total) in
/-- What a bulk put comes to if it succeeds: the ids, the objects, and the engine. -/
def bulk (store : Store) (e : Engine) (objects : List T) :
    Option (List ObjectId × List T × Engine) :=
  if objects = [] then some ([], [], e)
  else if e.writer = none then
    (account.atOnce total b.descriptor (setting store e) objects (e.draft e.committed)).map
      fun (assigned, objects, d) =>
        (assigned.map Assigned.id, total.given assigned objects, e.published d)
  else none

theorem putMany_bulk (opened : store.closed = false)
    (size : 0 < store.config.chunkSize ∧ store.config.chunkSize ≤ maxIdsPerBlock)
    (able : store.arrays = e.arrays) (exclusive : e.Exclusive)
    (known : e.entities.contains b.entity = true)
    (apart : account.Apart b.entity (setting store e))
    (settled : Binding.Account.Settled total b.entity objects (e.draft e.committed)) :
    Leads (b.putMany none) (objects, store, e) fun r w => succeeded (r, w) =
      (bulk total account store e objects).map fun (ids, objects, e) =>
        (ids, objects, store, e) := by
  by_cases some : objects = []
  · subst some
    exact Ends.bind (Ends.ofStore (StoreM.ensureOpen_ends opened))
      (Ends.bind Editing.current_ends (Leads.pure rfl))
  by_cases free : e.writer = none
  · have written := @Binding.Account.writeMany_atOnce _ _ account total b.descriptor
      (setting store e) objects _ known settled apart some size able
    have computes := @Binding.Account.writeMany_computes _ _ account b.descriptor (setting store e)
    rw [bulk, if_neg some, if_pos free, ← written]
    unfold putMany
    apply Ends.bind (Ends.ofStore (StoreM.ensureOpen_ends opened))
    apply Ends.bind Editing.current_ends
    rw [if_neg (by simpa using some)]
    refine Leads.bind ((Store.runIn_computes opened exclusive free computes).mono ?_)
    rintro (why | assigned) w ended
    · rw [succeeded_error, eq_comm, Option.map_eq_none_iff] at ended
      exact ended ▸ rfl
    · obtain ⟨⟨assigned', changed, d⟩, stored, same⟩ := Option.map_eq_some_iff.mp ended.symm
      cases same
      rw [stored]
      simp only [Onward]
      refine Ends.bind (writeBack_ends total) ?_
      exact Leads.pure rfl
  · rw [bulk, if_neg some, if_neg free]
    refine (putMany_unbegun some opened free).mono ?_
    rintro r w ⟨⟨why, rfl, -⟩, rfl⟩
    rfl

/-- What a bulk put comes to is the same over an engine of the other tier. -/
theorem bulk_alike {store' : Store} {arrays : Bool}
    (related : account.related (setting store' { e with arrays }) =
      account.related (setting store e)) :
    bulk total account store' { e with arrays } objects =
      (bulk total account store e objects).map fun (ids, objects, e) =>
        (ids, objects, { e with arrays }) := by
  have same : account.atOnce total b.descriptor (setting store' { e with arrays }) =
      account.atOnce total b.descriptor (setting store e) := by
    funext objects d
    exact Binding.Account.atOnce_alike related
  simp only [bulk, same]
  split
  · rfl
  · split
    · rw [Option.map_map]
      rfl
    · rfl

end Box

/-- A bulk put of events or of notes. -/
inductive BulkPut where
  | events (objects : List Event)
  | notes (objects : List Note)

namespace BulkPut

@[reducible] def Objects : BulkPut → Type
  | events _ => List Event
  | notes _ => List Note

/-- The objects as they are before the call. -/
def objects : (call : BulkPut) → call.Objects
  | events objects => objects
  | notes objects => objects

/-- The ids the objects carry before the call. -/
def ids : BulkPut → List ObjectId
  | events objects => objects.map Event.id
  | notes objects => objects.map Note.id

def entity : BulkPut → EntityId
  | events _ => eventBox.entity
  | notes _ => noteBox.entity

/-- Put the objects in a transaction of their own. -/
def perform : (call : BulkPut) → Editing call.Objects (List ObjectId)
  | events _ => do (← Store.boxFor eventBinding).putMany none
  | notes _ => do (← Store.boxFor noteBinding).putMany none

/-- Perform a call on a session: how it ends, the objects, and the session afterwards. -/
def step (call : BulkPut) (s : Session) :
    Except StoreError (List ObjectId) × call.Objects × Session :=
  let ((r, objects), s') := call.perform.run call.objects s
  (r, objects, s')

/-- What a call comes to if it succeeds: the ids, the objects, and the engine. -/
def bulk (store : Store) (e : Engine) : (call : BulkPut) →
    Option (List ObjectId × call.Objects × Engine)
  | events objects => if store.closed then none else
    @Box.bulk _ eventBox eventTotal eventAccount store e objects
  | notes objects => if store.closed then none else
    @Box.bulk _ noteBox noteTotal noteAccount store e objects

end BulkPut

namespace Session

variable {s t s' : Session} {call : BulkPut} {arrays arrays' : Bool} {config config' : Config}

/-- A session over an engine that holds the same, with other settings, or on the other tier. -/
structure Retuned (s : Session) (arrays : Bool) (config : Config) (t : Session) : Prop where
  faults : t.host.faults = []
  engine : t.host.machine.engine = { s.host.machine.engine with arrays }
  accepted : config.check = .ok ()
  strategy : config.strategyFor arrays = .ok t.store.strategy
  config : t.store.config = config
  arrays : t.store.arrays = arrays
  model : t.store.model = s.store.model
  closed : t.store.closed = s.store.closed

theorem Sound.retuned (sound : s.Sound) (retuned : s.Retuned arrays config t) : t.Sound where
  faults := retuned.faults
  exclusive := by
    rw [retuned.engine]
    exact ⟨sound.exclusive.below, sound.exclusive.taken, sound.exclusive.single⟩
  numbered := by
    rw [retuned.engine]
    exact ⟨sound.numbered.committed, sound.numbered.opened⟩
  size := by
    have accepted := retuned.accepted
    rw [retuned.config]
    simp only [Config.check] at accepted
    grind
  able := by
    rw [retuned.engine, retuned.arrays]
  strategy := by
    intro array
    have decided := retuned.strategy
    rw [array] at decided
    rw [retuned.engine]
    simp only [Config.strategyFor, ReadStrategy.detect] at decided
    grind
  model := retuned.model.trans sound.model
  entities := by
    rw [retuned.engine]
    exact sound.entities
  relations := by
    rw [retuned.engine]
    exact sound.relations

theorem Sound.putMany_bulk {T : Type} {b : Box T} {total : b.binding.Total}
    {account : b.binding.Account} {objects : List T} (sound : s.Sound)
    (opened : s.store.closed = false)
    (bound : smallModel.bound? b.binding.name = some b.descriptor)
    (known : b.descriptor ∈ smallModel.entities)
    (apart : account.Apart b.entity (Box.setting s.store s.host.machine.engine))
    (carried : ∀ id ∈ objects.map total.idOf, id ≤ s.host.machine.engine.lastId b.entity) :
    Leads (do (← Store.boxFor b.binding).putMany none : Editing (List T) (List ObjectId))
      (objects, s.store, s.host.machine.engine) fun r w => succeeded (r, w) =
        (Box.bulk total account s.store s.host.machine.engine objects).map
          fun (ids, objects, e) => (ids, objects, s.store, e) := by
  have boxed : Ends (Store.boxFor b.binding) (s.store, s.host.machine.engine) (.ok b)
      (s.store, s.host.machine.engine) :=
    StoreM.boxFor_ends opened (by rw [sound.model]; exact bound)
  refine Ends.bind (Ends.ofStore boxed) (Box.putMany_bulk opened sound.size sound.able
    sound.exclusive (sound.entities _ known) apart ⟨fun object member => ?_, fun id stored => ?_⟩)
  · exact carried _ (List.mem_map_of_mem member)
  · exact (sound.numbered.committed b.entity id stored).2

theorem Sound.bulk (sound : s.Sound)
    (carried : ∀ id ∈ call.ids, id ≤ s.host.machine.engine.lastId call.entity) :
    Leads call.perform (call.objects, s.store, s.host.machine.engine) fun r w =>
      succeeded (r, w) = (call.bulk s.store s.host.machine.engine).map fun (ids, objects, e) =>
        (ids, objects, s.store, e) := by
  cases closed : s.store.closed with
  | true =>
      have none {T : Type} {binding : Binding T} {objects : List T} :
          Leads (do (← Store.boxFor binding).putMany none : Editing (List T) (List ObjectId))
            (objects, s.store, s.host.machine.engine) fun r w => succeeded (r, w) = none :=
        Ends.bind_error (Ends.ofStore
          (Ends.bind_error (StoreM.ensureOpen_closed closed) ⟨rfl, rfl⟩)) rfl
      cases call with
      | events | notes =>
          rw [BulkPut.bulk, if_pos closed, Option.map_none]
          exact none
  | false =>
      have opened : ¬ s.store.closed = true := by simp [closed]
      cases call with
      | events objects =>
          rw [BulkPut.bulk, if_neg opened]
          exact @Sound.putMany_bulk _ _ eventBox eventTotal eventAccount objects sound closed rfl
            (by decide) (fun _ => .pure) carried
      | notes objects =>
          rw [BulkPut.bulk, if_neg opened]
          exact @Sound.putMany_bulk _ _ noteBox noteTotal noteAccount objects sound closed rfl
            (by decide) (noteAccount_apart sound.model) carried

theorem bulk_retuned (retuned : s.Retuned arrays config t) :
    call.bulk t.store t.host.machine.engine =
      (call.bulk s.store s.host.machine.engine).map fun (ids, objects, e) =>
        (ids, objects, { e with arrays }) := by
  have alike : (Box.setting t.store { s.host.machine.engine with arrays }).Alike
      (Box.setting s.store s.host.machine.engine) :=
    ⟨retuned.model, retuned.closed, rfl, rfl⟩
  rw [retuned.engine]
  cases call <;> rw [BulkPut.bulk, BulkPut.bulk, retuned.closed] <;> split
  · rfl
  · exact Box.bulk_alike rfl
  · rfl
  · exact Box.bulk_alike (noteAccount_alike alike)

section Step

variable {ids : List ObjectId} {objects : call.Objects} {e : Engine} (sound : s.Sound)
  (carried : ∀ id ∈ call.ids, id ≤ s.host.machine.engine.lastId call.entity)
include sound carried

theorem Sound.step_eq (done : call.bulk s.store s.host.machine.engine = some (ids, objects, e)) :
    ∃ s', call.step s = (.ok ids, objects, s') ∧ s'.host.faults = [] ∧
      s'.host.machine.engine = e ∧ s'.store = { s.store with pool := s'.store.pool } := by
  obtain ⟨w, ⟨same, shown, kept⟩, ended⟩ :=
    sound.bulk carried (call.objects, s) ⟨rfl, sound.shows⟩
  rw [show Runs.run call.perform.run (call.objects, s) = call.step s from rfl]
    at same shown kept ended
  generalize call.step s = stepped at same shown kept ended
  obtain ⟨why | answer, found, s'⟩ := stepped <;> rw [done] at ended <;> cases ended
  exact ⟨s', congrArg (_, ·, _) same, shown.1, shown.2, kept⟩

theorem Sound.step_failed (none : call.bulk s.store s.host.machine.engine = none) :
    Failed (call.step s).1 := by
  obtain ⟨w, -, ended⟩ := sound.bulk carried (call.objects, s) ⟨rfl, sound.shows⟩
  rw [show Runs.run call.perform.run (call.objects, s) = call.step s from rfl, none] at ended
  generalize call.step s = stepped at ended
  obtain ⟨why | answer, found, s'⟩ := stepped
  · exact ⟨why, rfl⟩
  · cases ended

end Step

/-- Neither the chunk size nor the tier of the engine changes what a bulk put comes to, if no object
    carries an id past the sequence. -/
theorem putMany_retuned (reachable : s.Reachable arrays config)
    (retuned : s.Retuned arrays' config' t)
    (carried : ∀ id ∈ call.ids, id ≤ s.host.machine.engine.lastId call.entity) :
    Failed (call.step s).1 ∧ Failed (call.step t).1 ∨
      ∃ ids objects s' t', call.step s = (.ok ids, objects, s') ∧
        call.step t = (.ok ids, objects, t') ∧ s'.Retuned arrays' config' t' := by
  have sound := reachable.sound
  have carried' : ∀ id ∈ call.ids, id ≤ t.host.machine.engine.lastId call.entity := by
    rw [retuned.engine]
    exact carried
  have same := @bulk_retuned s t call _ _ retuned
  cases done : call.bulk s.store s.host.machine.engine with
  | none =>
      rw [done] at same
      exact .inl ⟨sound.step_failed carried done, (sound.retuned retuned).step_failed carried' same⟩
  | some ended =>
      obtain ⟨ids, objects, e⟩ := ended
      rw [done] at same
      obtain ⟨s', stepped, -, engine, kept⟩ := sound.step_eq carried done
      obtain ⟨t', stepped', plain, engine', kept'⟩ :=
        (sound.retuned retuned).step_eq carried' same
      refine .inr ⟨ids, objects, s', t', stepped, stepped', plain, ?_, retuned.accepted, ?_, ?_, ?_,
        ?_, ?_⟩
      · rw [engine', engine]
      all_goals rw [kept']
      · exact retuned.strategy
      · exact retuned.config
      · exact retuned.arrays
      · rw [kept]
        exact retuned.model
      · rw [kept]
        exact retuned.closed

/-- Two notes, each with a tag that is not stored, are put one by one, on an engine with arrays and
    on one without. -/
theorem putMany_notes_retuned : ∃ s t s' t', fresh true { chunkSize := 1 } = .ok s ∧
    fresh false {} = .ok t ∧
    (BulkPut.notes [{ tags := some [{}] }, { tags := some [{}] }]).step s =
      (.ok [1, 2],
        [{ id := 1, tags := some [{ id := 1 }] }, { id := 2, tags := some [{ id := 2 }] }], s') ∧
    (BulkPut.notes [{ tags := some [{}] }, { tags := some [{}] }]).step t =
      (.ok [1, 2],
        [{ id := 1, tags := some [{ id := 1 }] }, { id := 2, tags := some [{ id := 2 }] }], t') ∧
    t'.host.machine.engine.committed = s'.host.machine.engine.committed := by
  have eval : (fresh true { chunkSize := 1 }).toOption.map (fun s =>
      let ended := (BulkPut.notes [{ tags := some [{}] }, { tags := some [{}] }]).step s
      (ended.1.toOption, ended.2.1)) =
      some (some [1, 2],
        [{ id := 1, tags := some [{ id := 1 }] }, { id := 2, tags := some [{ id := 2 }] }]) := by
    decide +kernel
  have held : (fresh false {}).toOption.map (·.host.machine.engine) =
      (fresh true { chunkSize := 1 }).toOption.map
        fun s => { s.host.machine.engine with arrays := false } := rfl
  obtain ⟨s, opened, looked⟩ := of_eval eval
  dsimp only at looked
  rw [opened] at held
  obtain ⟨t, opened', same⟩ := of_eval held
  have fresh := fresh_of_opened opened
  have fresh' := fresh_of_opened opened'
  have arrays : t.store.arrays = false := by rw [fresh'.opened.arrays, same]
  have retuned : s.Retuned false {} t :=
    ⟨fresh'.faults, same, rfl, by rw [← fresh'.opened.strategy, same], fresh'.opened.config_eq,
      arrays, fresh'.opened.model_eq.trans fresh.opened.model_eq.symm,
      fresh'.opened.closed.trans fresh.opened.closed.symm⟩
  have ended := @putMany_retuned s t (.notes [{ tags := some [{}] }, { tags := some [{}] }]) _ _ _ _
    (reachable_of_fresh opened) retuned (by simp [BulkPut.ids])
  rcases ended with ⟨⟨why, failed⟩, -⟩ | ⟨ids, objects, s', t', done, done', again⟩
  · rw [failed] at looked
    cases looked
  · rw [done] at looked
    cases looked
    exact ⟨s, t, s', t', opened, opened', done, done', by rw [again.engine]⟩

end Session

end ObjectStore
