import ObjectStore.Proofs.Notes.FanOut
import ObjectStore.Proofs.Store.Reachable

/-! # Ids after a failed write

A write of notes that fails leaves the notes with the ids they had. The tags it came to keep the ids
they were given on the way, although the transaction in which these were stored was rolled back. So
a failed write hands no id to any object unless it `Spends` one on a tag, and whether it does is
known before: the store is open, its writer slot is free, an id is left for a tag, and the write
comes to a tag without one.
-/

namespace ObjectStore

open Catalog

/-- How a write ends: whether an id was handed out to a related object, and, if it failed, that all
    objects carry the ids of their own that they had. -/
structure Ended {σ : Type} [Carries σ] (due left : Prop) (before after : σ) (failed : Prop) :
    Prop where
  related : related after = related before ↔ ¬ (due ∧ left)
  own : failed → own after = own before

namespace Ended

variable {σ : Type} [Carries σ] {due due' left failed : Prop} {before after : σ}

theorem of_handed (h : Handed due left before after failed) :
    Ended due left before after failed :=
  ⟨h.kept, fun _ => h.filled.own⟩

theorem unchanged (undue : ¬ due) : Ended due left before before failed :=
  ⟨iff_of_true rfl fun both => undue both.1, fun _ => rfl⟩

end Ended

/-! ## Writes in their own transaction -/

section Own

variable {σ α : Type} [Carries σ] {program : Txn → Editing σ α} {objects : σ} {store : Store}
  {e : Engine} {due left : Prop}

/-- What is handed out in a transaction of its own is handed out however the transaction ends. -/
theorem Store.runIn_handed (opened : store.closed = false)
    (body : ∀ e₁, e.Within callerThread .write e.committed e₁ →
      (∀ entity, e₁.lastId entity = e.lastId entity) →
        Leads (program ⟨e.nextHandle, .write⟩) (objects, store, e₁) fun r w =>
          Handed due left objects w.1 (Failed r)) :
    Leads (runIn .write program) (objects, store, e) fun r w =>
      Handed (e.writer = none ∧ due) left objects w.1 (Failed r) := by
  by_cases free : e.writer = none
  · obtain ⟨e₁, begun, within, same⟩ := Engine.begin_within callerThread fun _ => free
    have txn : Ends (beginTxn .write) (store, e) (.ok ⟨e.nextHandle, .write⟩) (store, e₁) :=
      Ends.bind (StoreM.ensureOpen_ends opened) (Ends.ofHost (Txn.begin_ends begun))
    rw [and_iff_right free]
    apply Ends.bind (Ends.ofStore txn)
    refine Leads.bind (Editing.outcome_leads ((body e₁ within same).mono ?_))
    rintro (why | a) ⟨found, v⟩ handed
    · have dropped : Halts (Txn.drop ⟨e.nextHandle, .write⟩) :=
        HostM.perform_halts.bind fun _ => .pure
      simp only [Onward]
      refine (Editing.Still.ofStore dropped.ofHost found v).onward ?_ ?_
      · exact fun _ w same => Leads.throw (same ▸ handed.failing fun _ => ⟨why, rfl⟩)
      · exact fun why' w same => same ▸ handed.failing fun _ => ⟨why', rfl⟩
    · have kept : Editing.Still (do
          Txn.commit ⟨e.nextHandle, .write⟩
          return a : Editing σ α) :=
        .bind (.ofStore HostM.request_halts.ofHost) fun _ => .pure
      simp only [Onward]
      refine (kept found v).mono fun r w same => ?_
      exact same ▸ handed.failing fun failed => absurd failed not_failed_ok
  · exact runIn_unbegun opened free fun why _ => .of_kept .refl rfl fun due => free due.1

end Own

namespace Box

variable {store : Store} {e : Engine} {note : Note} {notes : List Note} {mode : PutMode}
  {due left : Prop}

/-! ## A note -/

theorem putObject_ended (opened : store.closed = false) (saved : ¬ (mode = .update ∧ note.id = 0))
    (written : Leads (Store.runIn .write fun txn => noteBox.write (some txn) note.id mode)
      (note, store, e) fun r w => Handed due left note w.1 (Failed r)) :
    Leads (noteBox.putObject none mode) (note, store, e) fun r w =>
      Ended due left note w.1 (Failed r) := by
  apply Ends.bind (Ends.ofStore (StoreM.ensureOpen_ends opened))
  apply Ends.bind (currentId_ends (b := noteBox) noteTotal)
  simp only [show noteTotal.idOf note = note.id from rfl, saved, if_false, Option.isNone_none,
    and_self, if_true]
  refine written.onward (fun id w handed => ?_) fun why w handed => .of_handed handed
  split
  · refine Ends.bind (assignId_ends (b := noteBox) noteTotal) (Leads.pure ?_)
    exact ⟨handed.kept, fun failed => absurd failed not_failed_ok⟩
  · exact Leads.pure (.of_handed handed)

theorem put_ended (tagging : store.Tagging e) (new : mode ≠ .update) :
    Leads (noteBox.putObject none mode) (note, store, e) fun r w =>
      Ended (e.writer = none ∧ HasRoom (e.lastId noteBox.entity) [note.id] ∧ 0 ∈ related note)
        e.TagLeft note w.1 (Failed r) := by
  refine putObject_ended tagging.opened (fun both => new both.1) ?_
  refine Store.runIn_handed tagging.opened fun e₁ within same => ?_
  have left : e₁.TagLeft ↔ e.TagLeft := Engine.tagLeft_congr (same _)
  rw [← left, ← same]
  exact write_handed tagging within new

theorem update_ended (tagging : store.Tagging e) :
    Leads (noteBox.update none) (note, store, e) fun r w =>
      Ended (e.writer = none ∧ note.id ≠ 0 ∧ 0 ∈ related note) e.TagLeft note w.1 (Failed r) := by
  refine Leads.onward (P := fun r w => Ended (e.writer = none ∧ note.id ≠ 0 ∧ 0 ∈ related note)
    e.TagLeft note w.1 (Failed r)) ?_ ?_ ?_
  · by_cases saved : note.id = 0
    · refine (putObject_unsaved (b := noteBox) noteTotal tagging.opened saved).leads ?_
      exact .unchanged fun due => due.2.1 saved
    · refine putObject_ended tagging.opened (fun both => saved both.2) ?_
      refine Store.runIn_handed tagging.opened fun e₁ within same => ?_
      have left : e₁.TagLeft ↔ e.TagLeft := Engine.tagLeft_congr (same _)
      rw [← left, and_iff_right saved]
      exact Box.update_handed tagging within saved
  · exact fun id w ended => Leads.pure ⟨ended.related, fun failed => absurd failed not_failed_ok⟩
  · exact fun why w ended => ⟨ended.related, fun _ => ended.own ⟨why, rfl⟩⟩

/-! ## Several notes -/

theorem related_given {assigned : List Assigned} :
    related (noteTotal.given assigned notes) = related notes := by
  induction assigned generalizing notes with
  | nil => rfl
  | cons a assigned ih =>
      cases notes with
      | nil => rfl
      | cons note notes =>
          have same : related (if a.fresh then noteTotal.withId note a.id else note) =
              related note := by
            split <;> rfl
          rw [Binding.Total.given, related_notes, related_notes, same, ih]

theorem putMany_ended (tagging : store.Tagging e)
    (size : 0 < store.config.chunkSize ∧ store.config.chunkSize ≤ maxIdsPerBlock)
    (able : store.arrays = e.arrays)
    (reached : ∀ id, e.committed.contains noteBox.entity id = true → id ≤ e.lastId noteBox.entity) :
    Leads (noteBox.putMany none) (notes, store, e) fun r w =>
      Ended (e.writer = none ∧ BulkReaches (e.lastId noteBox.entity) (store.cut notes)) e.TagLeft
        notes w.1 (Failed r) := by
  apply Ends.bind (Ends.ofStore (StoreM.ensureOpen_ends tagging.opened))
  apply Ends.bind Editing.current_ends
  by_cases none : notes = []
  · subst none
    have cut : store.cut ([] : List Note) = [] := by
      unfold Store.cut
      split <;> rfl
    rw [cut]
    exact Leads.pure (.unchanged fun due => due.2)
  · rw [if_neg (by simpa using none)]
    have written : Leads (Store.runIn .write noteBox.writeMany) (notes, store, e) fun r w =>
        Handed (e.writer = Option.none ∧
          BulkReaches (e.lastId noteBox.entity) (store.cut notes)) e.TagLeft notes w.1
            (Failed r) := by
      refine Store.runIn_handed tagging.opened fun e₁ within same => ?_
      have left : e₁.TagLeft ↔ e.TagLeft := Engine.tagLeft_congr (same _)
      have writing : noteBox.Writing e e.committed e₁ := by
        refine ⟨within, within.known.trans tagging.notes, ?_⟩
        rw [same]
        exact reached
      rw [← left, ← same]
      exact writeMany_handed tagging size able writing
    refine written.onward (fun assigned w handed => ?_) fun why w handed => ?_
    · refine Ends.bind (writeBack_ends (b := noteBox) noteTotal) (Leads.pure ⟨?_, ?_⟩)
      · rw [related_given]
        exact handed.kept
      · exact fun failed => absurd failed not_failed_ok
    · exact ⟨handed.kept, fun _ => handed.filled.own⟩

/-! ## Links -/

theorem relationReplace_ended {relation : Relation} {source : ObjectId} {tags : Option (List Tag)}
    (tagging : store.Tagging e) :
    Leads (noteBox.relationReplace tagBinding none relation source note) (tags, store, e) fun r w =>
      Ended (e.writer = none ∧ relation.source = noteBox.entity ∧
          Store.ReplacingReaches e e.committed relation source note.id tags) e.TagLeft tags w.1
        (Failed r) := by
  apply Ends.bind (Ends.ofStore (StoreM.ensureOpen_ends tagging.opened))
  by_cases here : relation.source = noteBox.entity
  · have checked : Ends (noteBox.checkSource relation) (store, e) (.ok ()) (store, e) := by
      rw [checkSource, if_neg (not_not_intro here)]
      exact Ends.pure
    apply Ends.bind (Ends.ofStore checked)
    apply Ends.bind (Ends.ofStore (idOf_ends (b := noteBox) noteTotal))
    apply Ends.bind Editing.current_ends
    rw [and_iff_right here]
    cases tags with
    | none =>
        have undue : ¬ (e.writer = none ∧
            Store.ReplacingReaches e e.committed relation source note.id none) := fun due => due.2
        dsimp only
        split
        · exact Leads.ofStore (StoreM.misuse_ends.leads (.unchanged undue))
        · exact Leads.pure (.unchanged undue)
    | some tags =>
        refine Leads.mono (Store.runIn_handed tagging.opened fun e₁ within same => ?_)
          fun r w handed => .of_handed handed
        have left : e₁.TagLeft ↔ e.TagLeft := Engine.tagLeft_congr (same _)
        rw [← left]
        exact Store.replaceLinks_handed tagging.opened tagging.bound within
          (within.known.trans tagging.tags)
  · have foreign : Ends (noteBox.checkSource relation) (store, e)
        (.error (.misuse (.foreignSource relation.id relation.source noteBox.name)))
          (store, e) := by
      rw [checkSource, if_pos here]
      exact StoreM.misuse_ends
    exact Ends.bind_error (Ends.ofStore foreign) (.unchanged fun due => here due.2.1)

end Box

/-! ## Calls -/

/-- A call that writes notes, or the tags of a note, in a transaction of its own. -/
inductive NoteWrite where
  | put (note : Note)
  | insert (note : Note)
  | update (note : Note)
  | putMany (notes : List Note)
  | replace (relation : Relation) (source : ObjectId) (note : Note) (tags : Option (List Tag))

namespace NoteWrite

/-- The objects a call is given to change. -/
@[reducible] def Objects : NoteWrite → Type
  | put _ | insert _ | update _ => Note
  | putMany _ => List Note
  | replace .. => Option (List Tag)

/-- The type of a call's answer. -/
@[reducible] def Answer : NoteWrite → Type
  | put _ | insert _ => ObjectId
  | update _ | replace .. => Unit
  | putMany _ => List ObjectId

instance : (call : NoteWrite) → Carries call.Objects
  | put _ | insert _ | update _ => inferInstanceAs (Carries Note)
  | putMany _ => inferInstanceAs (Carries (List Note))
  | replace .. => inferInstanceAs (Carries (Option (List Tag)))

/-- The objects as they are before the call. -/
def objects : (call : NoteWrite) → call.Objects
  | put note | insert note | update note => note
  | putMany notes => notes
  | replace _ _ _ tags => tags

/-- Perform a call on the box that a store has for notes. -/
def perform : (call : NoteWrite) → Editing call.Objects call.Answer
  | put _ => do (← Store.boxFor noteBinding).put none
  | insert _ => do (← Store.boxFor noteBinding).insert none
  | update _ => do (← Store.boxFor noteBinding).update none
  | putMany _ => do (← Store.boxFor noteBinding).putMany none
  | replace relation source note _ => do
    (← Store.boxFor noteBinding).relationReplace tagBinding none relation source note

/-- Perform a call on a session: how it ends, the objects, and the session afterwards. -/
def step (call : NoteWrite) (s : Session) :
    Except StoreError call.Answer × call.Objects × Session :=
  let ((r, objects), s') := call.perform.run call.objects s
  (r, objects, s')

/-- The call, once begun, comes to a tag without an id. A note that is put needs an id of its own
    before that, and one that is updated must carry one; a relation must start at notes. -/
def Reaches (store : Store) (e : Engine) : NoteWrite → Prop
  | put note | insert note =>
    Box.HasRoom (e.lastId noteBox.entity) [note.id] ∧ 0 ∈ related note
  | update note => note.id ≠ 0 ∧ 0 ∈ related note
  | putMany notes => Box.BulkReaches (e.lastId noteBox.entity) (store.cut notes)
  | replace relation source note tags => relation.source = noteBox.entity ∧
    Store.ReplacingReaches e e.committed relation source note.id tags

/-- The call hands out an id to a tag: it can begin, there is an id left, and it comes to a tag
    without one. -/
def Spends (call : NoteWrite) (s : Session) : Prop :=
  s.store.closed = false ∧ s.host.machine.engine.writer = none ∧ s.host.machine.engine.TagLeft ∧
    call.Reaches s.store s.host.machine.engine

end NoteWrite

namespace Session

variable {s s' : Session} {call : NoteWrite}

theorem Sound.ended (h : s.Sound) (opened : s.store.closed = false) :
    Leads call.perform (call.objects, s.store, s.host.machine.engine) fun r w =>
      Ended (s.host.machine.engine.writer = none ∧ call.Reaches s.store s.host.machine.engine)
        s.host.machine.engine.TagLeft call.objects w.1 (Failed r) := by
  have tagging := h.tagging opened
  have boxed {σ : Type} {objects : σ} : Ends (Editing.ofStore (Store.boxFor noteBinding))
      (objects, s.store, s.host.machine.engine) (.ok noteBox)
      (objects, s.store, s.host.machine.engine) := by
    refine Ends.ofStore (StoreM.boxFor_ends opened ?_)
    rw [h.model]
    rfl
  cases call with
  | put note => exact Ends.bind boxed (Box.put_ended tagging PutMode.noConfusion)
  | insert note => exact Ends.bind boxed (Box.put_ended tagging PutMode.noConfusion)
  | update note => exact Ends.bind boxed (Box.update_ended tagging)
  | putMany notes =>
      exact Ends.bind boxed (Box.putMany_ended tagging h.size h.able fun id stored =>
        (h.numbered.committed noteBox.entity id stored).2)
  | replace relation source note tags =>
      exact Ends.bind boxed (Box.relationReplace_ended tagging)

theorem ended_of_closed {v : Store × Engine} (closed : v.1.closed = true) :
    Ends call.perform (call.objects, v) (.error .closed) (call.objects, v) := by
  have none {σ α : Type} {objects : σ} {f : Box Note → Editing σ α} :
      Ends (Editing.ofStore (Store.boxFor noteBinding) >>= f) (objects, v) (.error .closed)
        (objects, v) :=
    Ends.bind_error (Ends.ofStore (Ends.bind_error (StoreM.ensureOpen_closed closed) ⟨rfl, rfl⟩))
      ⟨rfl, rfl⟩
  cases call <;> exact none

theorem NoteWrite.step_leads {r : Except StoreError call.Answer} {objects : call.Objects}
    {v : Store × Engine} {Q : Except StoreError call.Answer → call.Objects × Store × Engine → Prop}
    (shows : Viewed.Shows s v) (done : call.step s = (r, objects, s'))
    (leads : Leads call.perform (call.objects, v) Q) : ∃ v', Q r (objects, v') := by
  obtain ⟨⟨found, v'⟩, ⟨same, -⟩, holds⟩ := leads (call.objects, s) ⟨rfl, shows⟩
  rw [show Runs.run call.perform.run (call.objects, s) = (r, objects, s') from done] at same holds
  obtain rfl : objects = found := same
  exact ⟨v', holds⟩

/-- A write that fails leaves the objects with the ids of their own that they had, and their tags
    with theirs unless it spends one on them. -/
theorem failed_write_ids {arrays : Bool} {config : Config} {why : StoreError}
    {objects : call.Objects} (reachable : s.Reachable arrays config)
    (failed : call.step s = (.error why, objects, s')) :
    own objects = own call.objects ∧
      (related objects = related call.objects ↔ ¬ call.Spends s) := by
  have sound := reachable.sound
  cases opened : s.store.closed with
  | true =>
      obtain ⟨v', -, same⟩ := NoteWrite.step_leads sound.shows failed (ended_of_closed opened)
      obtain rfl : objects = call.objects := congrArg Prod.fst same
      refine ⟨rfl, iff_of_true rfl fun spends => ?_⟩
      cases opened.symm.trans spends.1
  | false =>
      obtain ⟨v', ended⟩ := NoteWrite.step_leads sound.shows failed (sound.ended opened)
      refine ⟨ended.own ⟨why, rfl⟩, ended.related.trans (not_congr ?_)⟩
      exact ⟨fun ⟨⟨free, reaches⟩, left⟩ => ⟨opened, free, left, reaches⟩,
        fun ⟨_, free, left, reaches⟩ => ⟨⟨free, reaches⟩, left⟩⟩

/-- A note that is not stored cannot be updated, and its tag carries an id already. -/
theorem failed_update_ids : ∃ s why objects s', fresh true {} = .ok s ∧
    (NoteWrite.update { id := 5, tags := some [{ id := 3 }] }).step s = (.error why, objects, s') ∧
      own objects = [5] ∧ related objects = [3] := by
  have eval : (fresh true {}).toOption.map (fun s =>
      ((NoteWrite.update { id := 5, tags := some [{ id := 3 }] }).step s).1.toOption) =
      some none := by
    decide +kernel
  obtain ⟨s, opened, failed⟩ := of_eval eval
  obtain ⟨why, failed⟩ := error_of_toOption failed
  have ended := failed_write_ids (reachable_of_fresh opened) (Prod.ext (y := (_, _, _)) failed rfl)
  refine ⟨s, why, _, _, opened, Prod.ext failed rfl, ended.1, ended.2.mpr fun spends => ?_⟩
  have saved : (0 : ObjectId) ∉ [3] := by decide
  exact saved spends.2.2.2.2

/-- The tag of a note that is not stored is given an id by an update that fails, and no tag is
    stored. -/
theorem failed_update_spends : ∃ s why objects s', fresh true {} = .ok s ∧
    (NoteWrite.update { id := 5, tags := some [{}] }).step s = (.error why, objects, s') ∧
      related objects = [1] ∧
        s'.host.machine.engine.committed.contains tagBox.entity 1 = false := by
  have eval : (fresh true {}).toOption.map (fun s =>
      let (r, objects, s') := (NoteWrite.update { id := 5, tags := some [{}] }).step s
      (r.toOption, objects, s'.host.machine.engine.committed.contains tagBox.entity 1)) =
      some (none, { id := 5, tags := some [{ id := 1 }] }, false) := by
    decide +kernel
  obtain ⟨s, opened, looked⟩ := of_eval eval
  obtain ⟨failed, objects, stored⟩ := by simpa only [Prod.mk.injEq] using looked
  obtain ⟨why, failed⟩ := error_of_toOption failed
  exact ⟨s, why, _, _, opened, Prod.ext failed rfl, congrArg related objects, stored⟩

end Session

end ObjectStore
