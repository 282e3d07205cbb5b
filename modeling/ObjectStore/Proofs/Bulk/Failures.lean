import ObjectStore.Proofs.Bulk.Shortage
import ObjectStore.Proofs.Notes.Batches
import ObjectStore.Proofs.Store.QueuedWrites
import ObjectStore.Proofs.Store.Retuned

/-! # Bulk puts that fail

A bulk put keeps to what its engine can do: its blocks of ids are not too large, each id comes with
a record, none is 0, and what is stored as new is new. So it fails only if its transaction cannot
begin or a sequence has too few ids left, which is known beforehand.
-/

namespace ObjectStore

open Catalog

/-! ## Calls -/

namespace Draft

variable {base : Engine} {entity : EntityId} {d : Draft} {why : Refusal}
  (known : base.entities.contains entity = true)
include known

theorem idForPut_refused {candidate : ObjectId}
    (refused : idForPut base entity candidate d = .error why) :
    why = .exhausted entity ∧ ¬ Box.HasRoom (d.lastId entity) [candidate] := by
  unfold idForPut Draft.known at refused
  rw [if_pos known] at refused
  split at refused
  · subst candidate
    split at refused <;> cases refused
    refine ⟨rfl, ?_⟩
    rw [Box.HasRoom, List.count_singleton_self]
    omega
  · cases refused

theorem idsForPut_refused {chunk : List ObjectId} (some : chunk.count 0 ≠ 0)
    (size : chunk.length ≤ maxIdsPerBlock)
    (refused : idsForPut base entity (chunk.count 0) d = .error why) :
    why = .exhausted entity ∧ ¬ Box.HasRoom (d.lastId entity) chunk := by
  have few : ¬ (chunk.count 0 = 0 ∨ maxIdsPerBlock < chunk.count 0) := by
    have bound := @List.count_le_length _ _ 0 chunk
    omega
  unfold idsForPut Draft.known at refused
  rw [if_neg few, if_pos known] at refused
  split at refused <;> cases refused
  exact ⟨rfl, ‹_›⟩

theorem put_served {id : ObjectId} {record : Bytes} (nonzero : id ≠ 0) :
    put base entity id record .put d =
      .ok ((), d.stored entity [(id, record)] (max (d.lastId entity) id)) := by
  simp only [put, Draft.known, known, if_true, Snapshot.checkPut, if_neg nonzero]
  rfl

theorem putMany_served {ids : List ObjectId} {records : List Bytes} {mode : PutMode}
    (arrays : base.arrays = true) (even : records.length = ids.length)
    (checked : d.view.checkPutMany mode entity ∅ ids = .ok ()) :
    putMany base entity ids records mode d =
      .ok ((), d.stored entity (ids.zip records) (ids.foldl max (d.lastId entity))) := by
  simp only [putMany, arrays, if_true, Draft.known, known, even, checked]
  rfl

end Draft

/-! ## A batch -/

/-- Why storing a batch fails: there is no room for it in the sequence of its entity type, or what
goes with its objects runs short of ids. -/
def StoreError.TooFew (own other : EntityId) (operation : String) (room : Prop) (goal : Nat)
    (why : StoreError) : Prop :=
  why = .exhausted operation own ∧ ¬ room ∨ why.Short other goal

/-- What of a batch is to come: chunks which there is room for if there is for the whole of it, and
what goes with their objects, which takes `count` ids. -/
structure Draft.Awaits (d : Draft) (own other : EntityId) (room : Prop) (goal : Nat)
    (chunks : List (List ObjectId)) (count : Nat) : Prop where
  reached : ∀ id, d.view.contains own id = true → id ≤ d.lastId own
  ahead : room → Box.HasRoomForAll (d.lastId own) chunks
  due : d.Due other count goal

namespace Draft.Awaits

variable {d d₁ d₂ : Draft} {own other : EntityId} {room : Prop} {goal count count' : Nat}
  {chunk : List ObjectId} {chunks : List (List ObjectId)}
  (h : d.Awaits own other room goal (chunk :: chunks) count)
include h

theorem full {operation : String} (full : ¬ Box.HasRoom (d.lastId own) chunk) :
    (StoreError.exhausted operation own).TooFew own other operation room goal :=
  .inl ⟨rfl, fun all => full (h.ahead all).1⟩

variable (drawn : d.Drawn own chunk d₁) (apart : own ≠ other)
include drawn apart

theorem due_drawn : d₁.Due other count goal := by
  rw [Draft.Due, drawn.others apart]
  exact h.due

theorem stored (records : List Bytes) (kept : d₂.stock own = d₁.stock own)
    (due : d₂.Due other count' goal) :
    (d₂.stored own ((Box.chunkIds (d.lastId own) chunk).zip records)
      ((Box.chunkIds (d.lastId own) chunk).foldl max (d₂.lastId own))).Awaits own other room goal
        chunks count' := by
  obtain ⟨table, last⟩ := Prod.mk.inj kept
  rw [last, drawn.last]
  refine ⟨fun id stored => ?_, fun all => ?_, ?_⟩
  · rw [Draft.lastId_stored]
    rw [Draft.view_stored, Snapshot.contains_insertMany] at stored
    rcases stored with ⟨-, new⟩ | old
    · obtain ⟨⟨id, record⟩, listed, rfl⟩ := List.mem_map.mp new
      exact Box.le_lastAfter drawn.room (List.of_mem_zip listed).1
    · rw [Snapshot.contains, table, drawn.table] at old
      exact Std.le_trans (h.reached id old) (Box.last_le_lastAfter drawn.room)
  · rw [Draft.lastId_stored]
    exact (h.ahead all).2
  · rwa [Draft.Due, Draft.stored, Draft.lastId_setLastId, if_neg apart]

end Draft.Awaits

theorem Plan.Meets.allocateBlock {T : Type} {entity : EntityDescriptor} {u : Setting}
    {bad : StoreError → Prop} {w : List T × Draft} {chunk : List ObjectId}
    {good : ObjectId → List T × Draft → Prop}
    (known : u.base.entities.contains entity.id = true) (size : chunk.length ≤ maxIdsPerBlock)
    (drawn : ∀ first d, Box.assign first chunk = Box.assign (w.2.lastId entity.id + 1) chunk →
      w.2.Drawn entity.id chunk d → good first (w.1, d))
    (full : ¬ Box.HasRoom (w.2.lastId entity.id) chunk →
      bad (.exhausted "ids_for_put" entity.id)) :
    Plan.Meets bad (Binding.Account.allocateBlock T entity u (chunk.count 0)) w good := by
  unfold Binding.Account.allocateBlock
  refine .ite (fun none => ?_) fun some => .ask (fun first d done => ?_) fun why refused => ?_
  · exact .pure (drawn 0 w.2 (Box.assign_of_count_eq_zero none) (.of_none none))
  · obtain ⟨rfl, numbered⟩ := Draft.Drawn.of_block done
    exact drawn _ d rfl numbered
  · obtain ⟨rfl, short⟩ := Draft.idsForPut_refused known some size refused
    exact full short

namespace Binding.Account

variable {T : Type} {binding : Binding T} {account : binding.Account} {total : binding.Total}
  {entity : EntityDescriptor} {u : Setting} {object : T} {objects : List T} {d : Draft}
  {ids : List ObjectId} {chunks : List (List ObjectId)} {other : EntityId}
  {needs : T → List ObjectId} {room : Prop} {rest goal : Nat}

section Storing

variable (total) (demands : account.Demands entity u other needs)
include demands

theorem encodeAll_meets (even : ids.length = objects.length) (nonzero : ∀ id ∈ ids, id ≠ 0)
    (due : d.Due other (rest + (objects.flatMap needs).count 0) goal) :
    Plan.Meets (StoreError.Short other goal) (Plan.forEach (account.encode entity u) ids)
      (objects, d) fun records w => records.length = ids.length ∧ w.2.Due other rest goal := by
  refine Plan.Meets.forEach
    (fun objects d => d.Due other (rest + (objects.flatMap needs).count 0) goal) even ?_ due
  intro id member object _ objects d due
  rw [List.flatMap_cons, List.count_append, Nat.add_comm (List.count 0 (needs object)),
    ← Nat.add_assoc] at due
  exact demands (nonzero id member) due

variable (apart : account.Apart entity.id u) (beside : entity.id ≠ other)
  (known : u.base.entities.contains entity.id = true)
include apart beside known

theorem writeChunk_meets (arrays : u.base.arrays = true) (size : objects.length ≤ maxIdsPerBlock)
    (before : d.Awaits entity.id other room goal (objects.map total.idOf :: chunks)
      (rest + (objects.flatMap needs).count 0)) :
    Plan.Meets (StoreError.TooFew entity.id other "ids_for_put" room goal)
      (account.writeChunk entity u) (objects, d)
      fun _ w => w.2.Awaits entity.id other room goal chunks rest := by
  refine .bind (.read total.mapM_id (.bind (.allocateBlock known (by simpa using size) ?_ ?_)))
  case refine_2 => exact before.full
  intro first d₁ numbered drawn
  dsimp only at numbered drawn ⊢
  rw [numbered]
  have each : (Box.chunkIds (d.lastId entity.id) (objects.map total.idOf)).length =
      objects.length := by
    simp [Box.chunkIds]
  have encoded := encodeAll_meets demands each (fun id => Box.ne_zero_of_mem_chunkIds drawn.room)
    (before.due_drawn drawn beside)
  refine .bind (((encoded.failing fun _ => .inr).apart (encodeAll_apart apart)).mono ?_)
  rintro records ⟨objects', d₂⟩ ⟨⟨even, due⟩, kept⟩
  obtain ⟨table, -⟩ := Prod.mk.inj kept
  have checked := @Box.checkPutMany_numbered d₂.view _ entity.id _ drawn.room fun id past => by
    rw [Snapshot.contains, table, drawn.table, Bool.eq_false_iff]
    exact fun stored => Std.not_le.mpr past (before.reached id stored)
  exact .bind (.served (Draft.putMany_served known arrays even checked)
    (.pure (before.stored drawn beside records kept due)))

theorem writeOne_meets
    (before : d.Awaits entity.id other room goal ([total.idOf object] :: chunks)
      (rest + (needs object).count 0)) :
    Plan.Meets (StoreError.TooFew entity.id other "id_for_put" room goal)
      (account.writeOne entity u) (object, d)
      fun _ w => w.2.Awaits entity.id other room goal chunks rest := by
  unfold writeOne write
  refine .bind (.read (total.id_eq object) (.bind ?_))
  rw [if_neg (by simp)]
  refine .bind (.ask (fun id d₁ done => ?_) fun why refused => ?_)
  case refine_2 =>
    obtain ⟨rfl, full⟩ := Draft.idForPut_refused known refused
    exact before.full full
  obtain ⟨numbered, drawn⟩ := Draft.Drawn.of_one done
  have ids : Box.chunkIds (d.lastId entity.id) [total.idOf object] = [id] := by
    simp [Box.chunkIds, numbered]
  have nonzero : id ≠ 0 := Box.ne_zero_of_mem_chunkIds drawn.room (by simp [ids])
  have encoded := demands nonzero (before.due_drawn drawn beside)
  refine .bind (((encoded.failing fun _ => .inr).apart (encode_apart apart)).mono ?_)
  rintro record ⟨object', d₂⟩ ⟨due, kept⟩
  have stored := before.stored drawn beside [record] kept due
  rw [ids] at stored
  exact .bind (.served (Draft.put_served known nonzero) (.pure (.pure stored)))

/-- Storing a batch fails only if there is no room for it or what goes with its objects runs short
    of ids. -/
theorem writeMany_meets
    (size : 0 < u.store.config.chunkSize ∧ u.store.config.chunkSize ≤ maxIdsPerBlock)
    (able : u.store.arrays = u.base.arrays)
    (reached : ∀ id, d.view.contains entity.id id = true → id ≤ d.lastId entity.id) :
    Plan.Meets (StoreError.TooFew entity.id other u.store.numberingCall
        (Box.HasRoomForAll (d.lastId entity.id) (u.store.cut (objects.map total.idOf)))
        ((d.lastId other).toNat + (objects.flatMap needs).count 0))
      (account.writeMany entity u) (objects, d) fun _ _ => True := by
  have start : d.Awaits entity.id other
      (Box.HasRoomForAll (d.lastId entity.id) (u.store.cut (objects.map total.idOf)))
      ((d.lastId other).toNat + (objects.flatMap needs).count 0)
      (u.store.cut (objects.map total.idOf)) ((objects.flatMap needs).count 0) :=
    ⟨reached, fun all => all, rfl⟩
  generalize Box.HasRoomForAll _ (u.store.cut _) = room at *
  generalize (d.lastId other).toNat + _ = goal at *
  rw [Store.cut_map, Store.cut] at start
  unfold Store.numberingCall
  cases arrays : u.store.arrays with
  | true =>
      rw [arrays, if_pos rfl] at start
      rw [writeMany_chunkwise arrays, if_pos rfl]
      have whole : (Editing.chunked u.store.config.chunkSize objects objects).flatten = objects :=
        Editing.flatten_chunked (Nat.le_refl _)
      refine .bind ((Plan.Meets.forChunks (fun parts d => d.Awaits entity.id other room goal
        (parts.map (List.map total.idOf)) ((parts.flatten.flatMap needs).count 0)) ?_ ?_).mono
          fun _ _ _ => .pure trivial)
      · intro chunk member parts d before
        rw [List.flatten_cons, List.flatMap_append, List.count_append, Nat.add_comm] at before
        have small := Nat.le_trans (Editing.length_of_mem_chunked size.1 chunk member).2 size.2
        exact writeChunk_meets total demands apart beside known (able ▸ arrays) small before
      · rwa [whole]
  | false =>
      rw [arrays, if_neg Bool.false_ne_true, List.map_map] at start
      rw [writeMany_onewise arrays, if_neg Bool.false_ne_true]
      refine (Plan.Meets.forEach (fun objects d => d.Awaits entity.id other room goal
        (objects.map fun object => [total.idOf object]) ((objects.flatMap needs).count 0)) rfl ?_
          start).mono fun _ _ _ => trivial
      intro _ _ object _ objects d before
      rw [List.map_cons, List.flatMap_cons, List.count_append, Nat.add_comm] at before
      exact writeOne_meets total demands apart beside known before

end Storing

end Binding.Account

/-! ## Transactions of their own -/

namespace Store

variable {store : Store} {e : Engine} {σ α : Type} {objects : σ} {program : Txn → Editing σ α}

theorem runIn_meets {plan : Plan σ α} {bad : StoreError → Prop} {good : α → σ × Draft → Prop}
    (opened : store.closed = false) (exclusive : e.Exclusive)
    (computes : Editing.Computes ⟨store, e.begun, ⟨e.nextHandle, .write⟩⟩
      (program ⟨e.nextHandle, .write⟩) plan)
    (meets : plan.Meets bad (objects, e.draft e.committed) good) :
    Leads (runIn .write program) (objects, store, e) fun r _ =>
      ∀ why, r = .error why → e.Unbegun why ∨ bad why := by
  by_cases free : e.writer = none
  · refine runIn_leads opened (Engine.begin_drafted free)
      (Leads.mono (computes (objects, e.draft e.committed)) ?_)
    rintro r w ⟨rfl, rfl⟩
    unfold Plan.Meets at meets
    generalize plan (objects, e.draft e.committed) = done at meets
    rcases done with ⟨why | a, objects', d⟩
    · obtain ⟨e', aborted, -⟩ :=
        (@Engine.within_drafted e d).abort exclusive fun _ => free
      refine ⟨e', aborted, ?_⟩
      rintro _ ⟨⟩
      exact .inr meets
    · refine ⟨_, Engine.commit_drafted exclusive free, ?_⟩
      rintro _ ⟨⟩
  · refine runIn_unbegun opened free ?_
    rintro why unbegun _ ⟨⟩
    exact .inl unbegun

end Store

theorem Box.putMany_meets {T : Type} {b : Box T} {account : b.binding.Account} {store : Store}
    {e : Engine} {objects : List T} {bad : StoreError → Prop}
    {good : List Assigned → List T × Draft → Prop} (total : b.binding.Total)
    (opened : store.closed = false) (exclusive : e.Exclusive)
    (meets : (account.writeMany b.descriptor (setting store e)).Meets bad
      (objects, e.draft e.committed) good) :
    Leads (b.putMany none) (objects, store, e) fun r _ =>
      ∀ why, r = .error why → e.Unbegun why ∨ bad why := by
  have computes := @Binding.Account.writeMany_computes _ _ account b.descriptor (setting store e)
  refine Ends.bind (Ends.ofStore (StoreM.ensureOpen_ends opened)) ?_
  refine Ends.bind Editing.current_ends ?_
  split
  · refine Leads.pure ?_
    rintro _ ⟨⟩
  · refine (Store.runIn_meets opened exclusive computes meets).onward (fun assigned w _ => ?_) ?_
    · refine Ends.bind (writeBack_ends total) (Leads.pure ?_)
      rintro _ ⟨⟩
    · rintro why w failed _ ⟨⟩
      exact failed why rfl

/-! ## Sessions -/

namespace BulkPut

variable {s : Session} {call : BulkPut} {why : StoreError}

/-- Why a bulk put on a session fails. -/
inductive Refused (s : Session) : BulkPut → StoreError → Prop where
  /-- The caller has a write transaction already. -/
  | held {call : BulkPut} :
    s.host.machine.engine.writer = some callerThread → Refused s call .writerHeld
  /-- The sequence of the entity type has too few ids left for the batch. -/
  | batch {call : BulkPut} :
    ¬ Box.HasRoomForAll (s.host.machine.engine.lastId call.entity) (s.store.cut call.ids) →
      Refused s call (.exhausted s.store.numberingCall call.entity)
  /-- The sequence of tags has too few ids left for those of the notes that have none. -/
  | tags {notes : List Note} :
    ¬ Box.HasRoom (s.host.machine.engine.lastId tagBox.entity) ((allTags notes).map Tag.id) →
      Refused s (.notes notes) (.exhausted "id_for_put" tagBox.entity)

theorem Refused.status (refused : call.Refused s why) : why.status? = some .illegalState := by
  cases refused <;> rfl

/-- A bulk put does not end well: it fails, or waits while another thread has the writer slot. -/
def Unserved (s : Session) (call : BulkPut) (why : StoreError) : Prop :=
  call.Refused s why ∨ why = .waits ∧ s.host.machine.engine.HeldByOther callerThread

theorem Unserved.of_unbegun (unbegun : s.host.machine.engine.Unbegun why) : call.Unserved s why := by
  cases unbegun with
  | held own => exact .inl (.held own)
  | waits other => exact .inr ⟨rfl, other⟩

end BulkPut

namespace Session

variable {s : Session} {call : BulkPut} {arrays : Bool} {config : Config} {why : StoreError}

theorem Sound.putMany_meets {T : Type} {b : Box T} {account : b.binding.Account}
    {objects : List T} {other : EntityId} {needs : T → List ObjectId} (total : b.binding.Total)
    (sound : s.Sound) (opened : s.store.closed = false)
    (bound : smallModel.bound? b.binding.name = some b.descriptor)
    (known : b.descriptor ∈ smallModel.entities)
    (demands : account.Demands b.descriptor (Box.setting s.store s.host.machine.engine) other needs)
    (apart : account.Apart b.entity (Box.setting s.store s.host.machine.engine))
    (beside : b.entity ≠ other) :
    Leads (do (← Store.boxFor b.binding).putMany none : Editing (List T) (List ObjectId))
      (objects, s.store, s.host.machine.engine) fun r _ => ∀ why, r = .error why →
        s.host.machine.engine.Unbegun why ∨ why.TooFew b.entity other s.store.numberingCall
          (Box.HasRoomForAll (s.host.machine.engine.lastId b.entity)
            (s.store.cut (objects.map total.idOf)))
          ((s.host.machine.engine.lastId other).toNat + (objects.flatMap needs).count 0) := by
  have boxed : Ends (Store.boxFor b.binding) (s.store, s.host.machine.engine) (.ok b)
      (s.store, s.host.machine.engine) :=
    StoreM.boxFor_ends opened (by rw [sound.model]; exact bound)
  have meets := @Binding.Account.writeMany_meets _ _ account total b.descriptor
    (Box.setting s.store s.host.machine.engine) objects
    (s.host.machine.engine.draft s.host.machine.engine.committed) other needs demands apart beside
    (sound.entities _ known) sound.size sound.able
    fun id stored => (sound.numbered.committed b.entity id stored).2
  exact Ends.bind (Ends.ofStore boxed)
    (Box.putMany_meets total opened sound.exclusive meets)

theorem Sound.refused (sound : s.Sound) (opened : s.store.closed = false) :
    Leads call.perform (call.objects, s.store, s.host.machine.engine) fun r _ =>
      ∀ why, r = .error why → call.Unserved s why := by
  cases call with
  | events events =>
      have put := @Sound.putMany_meets s _ eventBox eventAccount events tagBox.entity (fun _ => [])
        eventTotal sound opened rfl (by decide) eventAccount_demands (fun _ => .pure) (by decide)
      refine put.mono fun r _ failed why error => ?_
      rcases failed why error with unbegun | ⟨rfl, full⟩ | ⟨-, short⟩
      · exact .of_unbegun unbegun
      · exact .inl (.batch full)
      · have bound := (s.host.machine.engine.lastId tagBox.entity).toNat_lt
        have none : (0 : ObjectId) ∉ events.flatMap fun _ => [] := by simp [List.mem_flatMap]
        rw [List.count_eq_zero_of_not_mem none, Engine.maxId] at short
        omega
  | notes notes =>
      obtain ⟨_, bound, notes', tags, links⟩ := sound.tagging opened
      have tagging : s.store.Tagging s.host.machine.engine.begun :=
        ⟨opened, bound, notes', tags, links⟩
      have put := @Sound.putMany_meets s _ noteBox noteAccount notes tagBox.entity _ noteTotal
        sound opened rfl (by decide) (noteAccount_demands tagging) (noteAccount_apart sound.model)
        (by decide)
      refine put.mono fun r _ failed why error => ?_
      rcases failed why error with unbegun | ⟨rfl, full⟩ | ⟨rfl, short⟩
      · exact .of_unbegun unbegun
      · exact .inl (.batch full)
      · rw [← List.map_flatMap] at short
        exact .inl (.tags (Nat.not_le.mpr short))

/-- A bulk put on an open store fails only if the caller has a write transaction already or for want
of ids, and waits only for another thread's write transaction. -/
theorem failed_bulk_put_refused (reachable : s.Reachable arrays config)
    (opened : s.store.closed = false) (failed : (call.step s).1 = .error why) :
    call.Refused s why ∧ why.status? = some .illegalState ∨
      why = .waits ∧ s.host.machine.engine.HeldByOther callerThread := by
  have sound := reachable.sound
  obtain ⟨w, -, ended⟩ := sound.refused opened (call.objects, s) ⟨rfl, sound.shows⟩
  exact (ended why failed).imp_left fun refused => ⟨refused, refused.status⟩

/-- Two notes of which the second has a tag that is not stored. -/
def newlyTagged : BulkPut :=
  .notes [{ id := 3, tags := some [⟨7, "a"⟩] }, { tags := some [{ name := "b" }] }]

/-- The last id was granted to a tag, so that none is left for another one. -/
theorem newlyTagged_refused : ∃ s, s.Reachable true {} ∧ s.store.closed = false ∧
    (newlyTagged.step s).1 = .error (.exhausted "id_for_put" tagBox.entity) ∧
    newlyTagged.Refused s (.exhausted "id_for_put" tagBox.entity) := by
  let last : ThreadId × Call := (workerThread, .idForPut none tagBox.entity (.ofNat Engine.maxId))
  let used (s : Session) : Session :=
    { s with host := { s.host with machine := (s.host.machine.run [last]).2 } }
  have eval : (fresh true {}).toOption.map (fun s =>
      ((used s).store.closed, (newlyTagged.step (used s)).1)) =
        some (false, .error (.exhausted "id_for_put" tagBox.entity)) := by
    decide +kernel
  obtain ⟨s, opened, ended⟩ := of_eval eval
  obtain ⟨closed, failed⟩ := Prod.mk.inj ended
  have reachable : (used s).Reachable true {} :=
    ⟨s, opened, ⟨[last], by simp [last, Call.defines], rfl⟩, rfl, rfl, rfl, rfl, rfl⟩
  obtain ⟨refused, -⟩ | ⟨⟨⟩, -⟩ := failed_bulk_put_refused reachable closed failed
  exact ⟨used s, reachable, closed, failed, refused⟩

end Session

end ObjectStore
