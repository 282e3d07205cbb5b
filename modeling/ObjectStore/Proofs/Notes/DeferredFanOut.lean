import ObjectStore.Proofs.Keys.Written
import ObjectStore.Proofs.Notes.Relinking
import ObjectStore.Proofs.Store.BoxRuns
import ObjectStore.Proofs.Store.Retuned

/-! # Deferred notes whose record is refused

The tags of a note whose put is deferred are stored and linked when the call is made, in a
transaction that is committed before the record is queued. A record that the worker is refused
leaves nothing of its own, but what was stored on the way stays.
-/

namespace ObjectStore

open Catalog

/-! ## What a deferred put does -/

namespace Box

variable {T : Type} {b : Box T} {total : b.binding.Total} {account : b.binding.Account}
  {mode : PutMode} {object : T} {store : Store} {e e₀ : Engine} {id current : ObjectId}

/-- An object is put under the id it carries, or under one that is handed out for it. -/
inductive Takes (b : Box T) (mode : PutMode) (current : ObjectId) (e : Engine) :
    ObjectId → Engine → Prop where
  | carried : mode = .update → current ≠ 0 → Takes b mode current e current e
  | granted {id : ObjectId} {e₀ : Engine} : mode ≠ .update →
      e.idForPut none b.entity current = .ok (id, e₀) → Takes b mode current e id e₀

namespace Takes

variable (takes : b.Takes mode current e id e₀)
include takes

theorem moved : ∃ sequences, e₀ = { e with sequences } := by
  cases takes with
  | carried update saved => exact ⟨e.sequences, rfl⟩
  | granted new granted => exact ⟨_, (Engine.idForPut_alone granted).1⟩

theorem committed : e₀.committed = e.committed := by
  obtain ⟨sequences, rfl⟩ := takes.moved
  rfl

theorem ne_zero : id ≠ 0 := by
  cases takes with
  | carried update saved => exact saved
  | granted new granted => exact Engine.idForPut_ne_zero granted

theorem same_of_saved (saved : current ≠ 0) : current = id := by
  cases takes with
  | carried update saved => rfl
  | granted new granted =>
      obtain ⟨-, -, drawn⟩ := Engine.idForPut_eq_ok.mp granted
      rw [if_neg saved] at drawn
      exact drawn.1.symm

theorem elsewhere {entity : EntityId} (apart : b.entity ≠ entity) :
    e₀.lastId entity = e.lastId entity := by
  cases takes with
  | carried update saved => rfl
  | granted new granted =>
      obtain ⟨-, -, drawn⟩ := Engine.idForPut_eq_ok.mp granted
      split at drawn
      · rw [drawn.2.2, Engine.lastId_setLastId, if_neg apart]
      · rw [drawn.2, Engine.lastId_observe, if_neg apart]

theorem covered {record : Bytes} : (QueuedWrite.put b.entity id record mode).Covered e₀ := by
  cases takes with
  | carried update saved => exact .inl update
  | granted new granted =>
      exact .inr (@Engine.granted_le_lastId _ _ callerThread ⟨.idForPut none b.entity current, id⟩
        _ _ granted .single)

/-- A put under an id that the object did not carry is not refused, whatever the writes make of the
    snapshot that were queued before. -/
theorem served {record : Bytes} {s : Snapshot} {writes : List QueuedWrite} (new : id ≠ current)
    (covered : ∀ write ∈ writes, write.Covered e) (unused : ∀ id, s.contains b.entity id = true →
      e.committed.contains b.entity id = true) (numbered : e.Numbered) :
    ∃ s', (QueuedWrite.put b.entity id record mode).effect e
      (QueuedWrite.settle e s writes).1 = .ok s' := by
  cases takes with
  | carried update saved => exact absurd rfl new
  | granted mode_ne granted =>
      have past : e.lastId b.entity < id := Engine.lastId_lt_granted granted new
      have free : s.contains b.entity id = false := by
        refine Bool.eq_false_iff.mpr fun stored => ?_
        exact absurd (numbered.committed.unused past) (by simp [unused id stored])
      exact Engine.put_granted granted mode_ne (QueuedWrite.settle_unused covered past free)

end Takes

/-- What a deferred put was that was answered with `id`. On the engine `e₀`, which has that id for
    the object, what goes with the object was stored and committed, which left the object as
    `object₁` and the draft `d`; then its record was queued. -/
structure PutAside (total : b.binding.Total) (account : b.binding.Account) (mode : PutMode)
    (object : T) (store : Store) (e : Engine) (id : ObjectId) (w : T × Store × Engine) (e₀ : Engine)
    (object₁ : T) (d : Draft) : Prop where
  takes : b.Takes mode (total.idOf object) e id e₀
  related : succeeded (account.related (setting store e₀) id (object, e₀.draft e₀.committed)) =
    some ((), object₁, d)
  ends : w = (if id = total.idOf object then object₁ else total.withId object₁ id,
    { store with queue := { store.queue with
      pending := store.queue.pending ++ [.put b.entity id (total.record id object₁) mode] } },
    e₀.published d)

section PutLater

variable (opened : store.closed = false) (taking : store.queue.shut = false)
  (exclusive : e.Exclusive) (free : e.writer = none) (relations : b.descriptor.hasRelations = true)
include opened taking exclusive free relations

theorem putUnder_leads (takes : b.Takes mode (total.idOf object) e id e₀) :
    Leads (do
      if b.descriptor.hasRelations then
        Store.runIn .write fun txn => b.binding.putRelated txn id
      let record ← b.encode id (← Editing.current)
      Store.submit (.put b.entity id record mode)
      if id ≠ total.idOf object then b.assignId id
      return id : Editing T ObjectId) (object, store, e₀) fun r w => ∀ answer, r = .ok answer →
        ∃ e₀ object₁ d, PutAside total account mode object store e answer w e₀ object₁ d := by
  obtain ⟨sequences, same⟩ := takes.moved
  have exclusive₀ : e₀.Exclusive := same ▸ ⟨exclusive.below, exclusive.taken, exclusive.single⟩
  have free₀ : e₀.writer = none := same ▸ free
  rw [if_pos relations]
  have stored := @Store.runIn_computes _ _ store e₀ object
    (fun txn => b.binding.putRelated txn id) _ opened exclusive₀ free₀
    (account.computes (setting store e₀) id)
  apply stored.onward
  · rintro ⟨⟩ ⟨object₁, store₁, e₁⟩ done
    obtain ⟨⟨⟨⟩, object₂, d⟩, related, equal⟩ := Option.map_eq_some_iff.mp done.symm
    cases equal
    apply Ends.bind Editing.current_ends
    apply Ends.bind (Ends.ofStore (encode_ends total))
    apply Ends.bind (Ends.ofStore (Store.submit_ends taking))
    by_cases carried : id = total.idOf object
    · rw [if_neg (not_not_intro carried)]
      apply Leads.pure
      rintro _ ⟨⟩
      exact ⟨e₀, object₁, d, takes, related, by rw [if_pos carried]⟩
    · rw [if_pos carried]
      apply Ends.bind (assignId_ends total)
      apply Leads.pure
      rintro _ ⟨⟩
      exact ⟨e₀, object₁, d, takes, related, by rw [if_neg carried]⟩
  · rintro why w - answer ⟨⟩

theorem putLater_leads : Leads (b.putLater mode) (object, store, e) fun r w =>
    ∀ id, r = .ok id →
      ∃ e₀ object₁ d, PutAside total account mode object store e id w e₀ object₁ d := by
  apply Ends.bind (Ends.ofStore (StoreM.ensureOpen_ends opened))
  apply Ends.bind (currentId_ends total)
  by_cases unsaved : mode = .update ∧ total.idOf object = 0
  · rw [if_pos unsaved]
    have refused : Ends (Editing.ofStore (StoreM.misuse (.updateUnsaved b.name)) : Editing T Unit)
        (object, store, e) (.error (.misuse (.updateUnsaved b.name))) (object, store, e) :=
      Ends.ofStore Ends.throw
    exact Ends.bind_error refused (by rintro _ ⟨⟩)
  · rw [if_neg unsaved]
    cases mode with
    | update =>
        exact Ends.bind Ends.pure
          (putUnder_leads opened taking exclusive free relations
            (.carried rfl fun zero => unsaved ⟨rfl, zero⟩))
    | put | insert | putNew =>
        rcases Store.allocateOne_alone e b.entity (total.idOf object) with
          ⟨id, sequences, granted, ends⟩ | ⟨why, ends⟩
        · exact Ends.bind (Ends.ofStore (Ends.ofHost (ends e.committed)))
            (putUnder_leads opened taking exclusive free relations (.granted (by simp) granted))
        · exact Ends.bind_error (Ends.ofStore (Ends.ofHost (ends e.committed))) (by rintro _ ⟨⟩)

end PutLater

end Box

/-! ## What a refused record leaves -/

/-- A snapshot in which a note was filed under its tags, if they are loaded: those without an id
    were stored under the numbers after `last`, and the note was linked to all of them and to
    nothing else. -/
structure Snapshot.Filed (s : Snapshot) (last id : ObjectId) (note : Note) (s' : Snapshot) :
    Prop where
  table (entity : EntityId) : s'.table entity =
    if tagBox.entity = entity then
      (s.table entity).insertMany (newRecords last (note.tags.getD []))
    else s.table entity
  targets (relation : RelationId) (source target : ObjectId) :
    target ∈ s'.targets relation source ↔
      if (noteTags.id = relation ∧ id = source) ∧ note.tags ≠ none then
        target ∈ (numberTags last (note.tags.getD [])).map Tag.id
      else target ∈ s.targets relation source

/-- The links of a note, and the stored tags, are the same in two snapshots. -/
structure Snapshot.SameTags (id : ObjectId) (s s' : Snapshot) : Prop where
  targets (target : ObjectId) :
    target ∈ s'.targets noteTags.id id ↔ target ∈ s.targets noteTags.id id
  table : s'.table tagBox.entity = s.table tagBox.entity

theorem Snapshot.Filed.sameTags_iff {s s' : Snapshot} {last id : ObjectId} {note : Note}
    (filed : s.Filed last id note s') (room : Box.HasRoom last ((note.tags.getD []).map Tag.id))
    (reached : ∀ id, s.contains tagBox.entity id = true → id ≤ last) :
    SameTags id s s' ↔ note.tags = none ∨
      0 ∉ note.tagIds ∧ ∀ target, target ∈ s.targets noteTags.id id ↔ target ∈ note.tagIds := by
  have table := filed.table tagBox.entity
  have targets := filed.targets noteTags.id id
  rw [if_pos rfl] at table
  cases loaded : note.tags with
  | none =>
      simp only [loaded, newRecords, Option.getD_none] at table targets
      refine iff_of_true ⟨fun target => by simpa using targets target, ?_⟩ (.inl rfl)
      simpa using table
  | some tags =>
      simp only [loaded, Option.getD_some, and_self, ne_eq, reduceCtorEq, not_false_eq_true,
        if_true] at table targets room
      have ids : note.tagIds = tags.map Tag.id := by simp [Note.tagIds, loaded]
      have saved_of (same : SameTags id s s') : 0 ∉ tags.map Tag.id := by
        intro unsaved
        have inserted : (s.insertMany tagBox.entity (newRecords last tags)).contains tagBox.entity
            (last + 1) = true :=
          contains_insertMany.mpr (.inl ⟨rfl, mem_newRecords unsaved⟩)
        have stored : s.contains tagBox.entity (last + 1) = true := by
          rwa [contains, insertMany_table, if_pos rfl, ← table, same.table] at inserted
        have next := (Box.room_next room).2 (List.count_pos_iff.mpr unsaved)
        have held := UInt64.le_iff_toNat_le.mp (reached _ stored)
        omega
      constructor
      · intro same
        have saved := saved_of same
        refine .inr ⟨ids ▸ saved, fun target => ?_⟩
        rw [← same.targets, targets, (numberTags_saved saved).1, ids]
      · rintro (⟨⟨⟩⟩ | ⟨saved, linked⟩)
        rw [ids] at saved linked
        obtain ⟨same, none⟩ := @numberTags_saved last tags saved
        refine ⟨fun target => ?_, ?_⟩
        · rw [targets, same, linked]
        · simpa [none] using table

namespace Session

variable {arrays : Bool} {config : Config} {s s₁ : Session} {mode : PutMode} {note note' : Note}
  {id : ObjectId}

/-- What is left of a deferred put of a note, answered with `id`, whose record is refused: the note
    carried that id before, it was filed when the call was made, and the record leaves nothing. -/
structure LeavesFiled (s s₁ : Session) (note note' : Note) (id : ObjectId) : Prop where
  carried : note.id = id
  numbered : note' = { note with
    tags := note.tags.map (numberTags (s.host.machine.engine.lastId tagBox.entity)) }
  filed : s.host.machine.engine.committed.Filed (s.host.machine.engine.lastId tagBox.entity) id note
    s₁.host.machine.engine.committed
  record : s₁.awaitCompletion.host.machine.engine =
    (s₁.withQueue s.store.queue).awaitCompletion.host.machine.engine
  /-- If nothing was queued before, links and tags are as they were only if there was nothing to
      store and nothing to link. -/
  same_iff : s.store.queue.pending = [] → (Snapshot.SameTags id s.host.machine.engine.committed
      s₁.awaitCompletion.host.machine.engine.committed ↔
    note.tags = none ∨ 0 ∉ note.tagIds ∧ ∀ target,
      target ∈ s.host.machine.engine.committed.targets noteTags.id id ↔ target ∈ note.tagIds)

/-- The session `s₁` after a deferred put of a note that was answered with `id`. -/
structure Aside (s s₁ : Session) (mode : PutMode) (note note' : Note) (id : ObjectId) (e₀ : Engine)
    (note₁ : Note) (d : Draft) : Prop where
  opened : s.store.closed = false
  takes : noteBox.Takes mode note.id s.host.machine.engine id e₀
  related : succeeded (noteAccount.related (Box.setting s.store e₀) id
    (note, e₀.draft e₀.committed)) = some ((), note₁, d)
  object : note' = if id = note.id then note₁ else { note₁ with id }
  faults : s₁.host.faults = []
  engine : s₁.host.machine.engine = e₀.published d
  queue : s₁.store.queue = { s.store.queue with
    pending := s.store.queue.pending ++ [.put noteBox.entity id (noteTotal.record id note₁) mode] }
  closed : s₁.store.closed = s.store.closed
  /-- What it kept, whatever its records. -/
  tended : s₁.Shows (Store.Tended (fun _ _ _ => True) s)

theorem Sound.aside (sound : s.Sound) (steady : s.Steady)
    (answered : (WriteCall.put noteBox mode note).on (noteBox.putLater mode) s =
      (.ok id, note', s₁)) : ∃ e₀ note₁ d, s.Aside s₁ mode note note' id e₀ note₁ d := by
  have shows : Viewed.Shows (note, s) (note, s.store, s.host.machine.engine) := ⟨rfl, sound.shows⟩
  have ran : Runs.run (noteBox.putLater mode).run (note, s) = (.ok id, note', s₁) := answered
  have lasting : Store.Lasting smallModel Written (Store.Tended (fun _ _ _ => True) s) := by
    rw [← sound.model]
    exact Store.Tended.lasting.mono fun _ _ _ _ => trivial
  have lasts : Editing.Lasts (Store.Tended (fun _ _ _ => True) s) (noteBox.putLater mode) :=
    Box.putLater_lasts lasting Fixture.note.lawful
  have tended : Session.Shows (Store.Tended (fun _ _ _ => True) s)
      (Runs.run (noteBox.putLater mode).run (note, s)).2.2 := lasts.shows sound.tended
  rw [ran] at tended
  cases opened : s.store.closed with
  | true =>
      have refused : Leads (noteBox.putLater mode) (note, s.store, s.host.machine.engine)
          fun r _ => r = .error .closed :=
        Ends.bind_error (Ends.ofStore (StoreM.ensureOpen_closed opened)) rfl
      obtain ⟨-, -, failed⟩ := refused _ shows
      rw [ran] at failed
      cases failed
  | false =>
      have leads := @Box.putLater_leads _ noteBox noteTotal noteAccount mode note s.store _ opened
        (steady.taking opened) sound.exclusive steady.free rfl
      obtain ⟨w, shown, ends⟩ := leads _ shows
      rw [ran] at shown ends
      obtain ⟨e₀, note₁, d, aside⟩ := ends id rfl
      obtain ⟨object, ⟨faults, engine⟩, store⟩ := shown
      simp only [aside.ends] at object engine store
      exact ⟨e₀, note₁, d, opened, aside.takes, aside.related, object, faults, engine,
        by rw [store], by rw [store], tended⟩

namespace Aside

variable {e₀ : Engine} {note₁ : Note} {d : Draft} (sound : s.Sound)
  (aside : s.Aside s₁ mode note note' id e₀ note₁ d)
include sound aside

theorem tagged :
    note₁ = { note with
      tags := note.tags.map (numberTags (s.host.machine.engine.lastId tagBox.entity)) } ∧
    Draft.Tagged (e₀.draft e₀.committed) id (note.tags.getD []) (fun target =>
      target ∈ note₁.tagIds ∨ (note.tags = none ∨ note.id = 0) ∧
        target ∈ s.host.machine.engine.committed.targets noteTags.id id) d := by
  have tagging := sound.tagging aside.opened
  obtain ⟨sequences, same⟩ := aside.takes.moved
  have here : (Box.setting s.store e₀).store.Tagging (Box.setting s.store e₀).base := by
    rw [same]
    exact ⟨aside.opened, tagging.bound, tagging.notes, tagging.tags, tagging.links⟩
  have stored := related_tagged here aside.takes.same_of_saved aside.related
  rwa [show (e₀.draft e₀.committed).lastId tagBox.entity = s.host.machine.engine.lastId
      tagBox.entity from aside.takes.elsewhere (by decide),
    show (e₀.draft e₀.committed).view = s.host.machine.engine.committed from
      aside.takes.committed] at stored

theorem filed (carried : note.id = id) : s.host.machine.engine.committed.Filed
    (s.host.machine.engine.lastId tagBox.entity) id note s₁.host.machine.engine.committed := by
  obtain ⟨same, tagged⟩ := aside.tagged sound
  have view : s₁.host.machine.engine.committed = d.view := by rw [aside.engine]; rfl
  have before : (e₀.draft e₀.committed).view = s.host.machine.engine.committed :=
    aside.takes.committed
  have last : (e₀.draft e₀.committed).lastId tagBox.entity =
      s.host.machine.engine.lastId tagBox.entity := aside.takes.elsewhere (by decide)
  have table := tagged.table
  have targets := tagged.targets
  rw [before, last, ← view] at table
  rw [before, ← view, same] at targets
  have saved : note.id ≠ 0 := carried ▸ aside.takes.ne_zero
  refine ⟨table, fun relation source target => (targets relation source target).trans ?_⟩
  cases loaded : note.tags <;> by_cases here : noteTags.id = relation ∧ id = source <;>
    simp [Note.tagIds, here, saved]

theorem steady (steady : s.Steady) : s₁.Steady ∧ (s₁.withQueue s.store.queue).Steady := by
  obtain ⟨-, tended⟩ := shows_tended.mp aside.tended
  obtain ⟨sequences, same⟩ := aside.takes.moved
  have free : s₁.host.machine.engine.writer = none := by
    rw [aside.engine]
    exact (congrArg Engine.writer same).trans steady.free
  have earlier : ∀ write ∈ s.store.queue.pending, write.Covered s₁.host.machine.engine :=
    fun write member => (steady.covered write member).mono tended.grown
  have reached : s₁.host.machine.engine.lastId noteBox.entity = e₀.lastId noteBox.entity := by
    rw [aside.engine]
    exact ((aside.tagged sound).2.last noteBox.entity).trans (if_neg (by decide))
  have taking : s₁.store.closed = false → s.store.queue.shut = false :=
    fun _ => steady.taking aside.opened
  refine ⟨⟨aside.faults, free, tended.numbered, ?_, ?_⟩,
    aside.faults, free, tended.numbered, earlier, taking⟩
  · rw [aside.queue]
    intro write member
    rcases List.mem_append.mp member with before | last
    · exact earlier write before
    · obtain rfl := List.mem_singleton.mp last
      have covered : (QueuedWrite.put noteBox.entity id (noteTotal.record id note₁) mode).Covered
          e₀ := aside.takes.covered
      exact covered.imp_right fun covered => by rwa [reached]
  · rw [aside.queue]
    exact taking

theorem carried_of_refused {why : Refusal} (steady : s.Steady)
    (refused : (QueuedWrite.put noteBox.entity id (noteTotal.record id note₁) mode).effect
      s₁.host.machine.engine (QueuedWrite.settle s₁.host.machine.engine
        s₁.host.machine.engine.committed s.store.queue.pending).1 = .error why) :
    note.id = id := by
  by_contra new
  obtain ⟨-, tended⟩ := shows_tended.mp aside.tended
  have notes : s₁.host.machine.engine.committed.table noteBox.entity =
      s.host.machine.engine.committed.table noteBox.entity := by
    rw [aside.engine]
    refine ((aside.tagged sound).2.table noteBox.entity).trans ?_
    rw [if_neg (by decide)]
    exact congrArg (Snapshot.table · noteBox.entity) aside.takes.committed
  obtain ⟨after, done⟩ := @Box.Takes.served _ noteBox mode _ _ _ _ aside.takes
    (noteTotal.record id note₁) s₁.host.machine.engine.committed s.store.queue.pending
    (Ne.symm new) steady.covered (fun id stored => by rwa [Snapshot.contains, ← notes]) sound.numbered
  rw [QueuedWrite.effect_congr tended.schema, QueuedWrite.settle_congr tended.schema] at refused
  rw [done] at refused
  cases refused

end Aside

/-- A deferred put of a note whose record is refused leaves the note filed under its tags, and
    nothing else. One that is made at once and fails leaves nothing. -/
theorem refused_record_leaves_tags {status : Status} (reachable : s.Reachable arrays config)
    (steady : s.Steady)
    (answered : (WriteCall.put noteBox mode note).on (noteBox.putLater mode) s =
      (.ok id, note', s₁))
    (refused : s₁.refusals = (s₁.withQueue s.store.queue).refusals ++ [some status]) :
    s.LeavesFiled s₁ note note' id ∧ ∀ why object s',
      (WriteCall.put noteBox mode note).on (noteBox.putObject none mode) s =
        (.error why, object, s') →
      s'.host.machine.engine.committed = s.host.machine.engine.committed := by
  have sound := reachable.sound
  obtain ⟨e₀, note₁, d, aside⟩ := sound.aside steady answered
  obtain ⟨steady₁, before⟩ := aside.steady sound steady
  obtain ⟨⟨why, failed⟩, record⟩ := steady₁.refused_last before aside.queue refused
  have carried := aside.carried_of_refused sound steady failed
  obtain ⟨same, tagged⟩ := aside.tagged sound
  have filed := aside.filed sound carried
  refine ⟨⟨carried, ?_, filed, record, fun idle => ?_⟩, ?_⟩
  · rw [aside.object, if_pos carried.symm, same]
  · have settled : s₁.awaitCompletion.host.machine.engine = s₁.host.machine.engine := by
      rw [record, before.engine_awaitCompletion]
      exact settled_of_idle idle
    rw [settled]
    have room := tagged.room
    rw [show (e₀.draft e₀.committed).lastId tagBox.entity = s.host.machine.engine.lastId
      tagBox.entity from aside.takes.elsewhere (by decide)] at room
    exact filed.sameTags_iff room fun id stored => (sound.numbered.committed _ id stored).2
  · intro why object s' ended
    obtain ⟨w, ⟨-, ⟨-, engine⟩, -⟩, settled⟩ := @Box.putObject_settled _ noteBox note s.store
      s.host.machine.engine mode noteBinding_confined sound.exclusive (note, s) ⟨rfl, sound.shows⟩
    rw [show Runs.run (noteBox.putObject none mode).run (note, s) = (.error why, object, s')
      from ended] at engine settled
    rw [engine]
    rcases settled.failed rfl with ⟨kept, -⟩ | ⟨_, _, _, ⟨⟩⟩
    exact kept

/-- A note that is not stored, with a tag that is not stored either. -/
def unstoredNote : Note :=
  { id := 5, text := "n", tags := some [{ name := "a" }] }

/-- Such a note is filed under its tag although its record is refused. -/
theorem refused_update_leaves_tags : ∃ s note' s₁, fresh true {} = .ok s ∧
    (WriteCall.put noteBox .update unstoredNote).on (noteBox.putLater .update) s =
      (.ok 5, note', s₁) ∧
    s₁.refusals = (s₁.withQueue s.store.queue).refusals ++ [some .idNotFound] ∧
    s.LeavesFiled s₁ unstoredNote note' 5 := by
  have eval : (fresh true {}).toOption.map (fun s =>
      let (r, _, s₁) := (WriteCall.put noteBox .update unstoredNote).on (noteBox.putLater .update) s
      (r.toOption, s₁.refusals, (s₁.withQueue s.store.queue).refusals)) =
      some (some 5, [some .idNotFound], []) := by
    decide +kernel
  obtain ⟨s, opened, looked⟩ := of_eval eval
  obtain ⟨done, refused, before⟩ := by simpa only [Prod.mk.injEq] using looked
  have answered := Prod.ext (y := (_, _, _)) (ok_of_toOption done) rfl
  have failed := refused.trans (congrArg (· ++ [some Status.idNotFound]) before.symm)
  exact ⟨s, _, _, opened, answered, failed, (refused_record_leaves_tags (reachable_of_fresh opened)
    (steady_of_openOn opened) answered failed).1⟩

/-- Before the call the note had no links and no tag was stored; afterwards it is linked to a tag
    that is. -/
theorem refused_update_changes_links : ∃ s note' s₁, fresh true {} = .ok s ∧
    s.host.machine.engine.writer = none ∧
    (WriteCall.put noteBox .update unstoredNote).on (noteBox.putLater .update) s =
      (.ok 5, note', s₁) ∧
    s₁.awaitCompletion.takeFailures.1.map StoreError.status? = [some .idNotFound] ∧
    ¬ Snapshot.SameTags 5 s.host.machine.engine.committed
      s₁.awaitCompletion.host.machine.engine.committed := by
  have eval : (fresh true {}).toOption.map (fun s =>
      let (r, _, s₁) := (WriteCall.put noteBox .update unstoredNote).on (noteBox.putLater .update) s
      (s.host.machine.engine.writer, r.toOption,
        s₁.awaitCompletion.takeFailures.1.map StoreError.status?,
        (s.host.machine.engine.committed.targets noteTags.id 5).contains 1,
        (s₁.awaitCompletion.host.machine.engine.committed.targets noteTags.id 5).contains 1)) =
      some (none, some 5, [some .idNotFound], false, true) := by
    decide +kernel
  obtain ⟨s, opened, looked⟩ := of_eval eval
  obtain ⟨free, done, refused, before, after⟩ := by simpa only [Prod.mk.injEq] using looked
  have answered := Prod.ext (y := (_, _, _)) (ok_of_toOption done) rfl
  refine ⟨s, _, _, opened, free, answered, refused, fun same => ?_⟩
  rw [← Bool.not_eq_true, Std.ExtTreeSet.contains_iff_mem, ← same.targets,
    ← Std.ExtTreeSet.contains_iff_mem] at before
  exact before after

end Session

end ObjectStore
