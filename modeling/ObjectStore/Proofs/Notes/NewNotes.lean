import ObjectStore.Proofs.Keys.Runs
import ObjectStore.Proofs.Links.Linking
import ObjectStore.Proofs.Links.Standing
import ObjectStore.Proofs.Notes.Relinking

/-! # The links of notes that are stored for the first time

The links of a note that carries no id are not looked up before its tags are linked: it is taken to
have none. So the new note is linked to its tags and to whatever its new id was linked to before,
which is something only if links were written for an id that was not handed out yet. Other notes of
a batch do not change these links, unless one of them is stored under the same id.
-/

namespace ObjectStore

open Catalog Editing

/-! ## Drafts -/

/-- A draft in which notes were stored under some ids: only their links are other than before, and a
note that carried no id is linked to its own tags, besides what its id was linked to, if it is the
only one of that id. -/
structure Draft.Linked (d : Draft) (ids : List ObjectId) (notes : List Note)
    (own : List (List ObjectId)) (d' : Draft) : Prop where
  length_ids : ids.length = notes.length
  length_own : own.length = notes.length
  others {source : ObjectId} : source ∉ ids →
    d'.view.targets noteTags.id source = d.view.targets noteTags.id source
  new {id : ObjectId} {note : Note} {tags : List ObjectId} :
    (id, note, tags) ∈ ids.zip (notes.zip own) → note.id = 0 → ids.count id = 1 → ∀ target,
      target ∈ d'.view.targets noteTags.id id ↔
        target ∈ tags ∨ target ∈ d.view.targets noteTags.id id

namespace Draft.Linked

variable {d d₀ d₁ d' : Draft} {ids ids' : List ObjectId} {notes notes' : List Note}
  {own own' : List (List ObjectId)}

theorem of_links (same : d'.view.links = d.view.links) : d.Linked [] [] [] d' where
  length_ids := rfl
  length_own := rfl
  others _ := Snapshot.targets_eq_of_links same
  new member := by simp at member

theorem append (first : d.Linked ids notes own d₁) (rest : d₁.Linked ids' notes' own' d') :
    d.Linked (ids ++ ids') (notes ++ notes') (own ++ own') d' where
  length_ids := by
    rw [List.length_append, List.length_append, first.length_ids, rest.length_ids]
  length_own := by
    rw [List.length_append, List.length_append, first.length_own, rest.length_own]
  others absent := by
    rw [List.mem_append, not_or] at absent
    rw [rest.others absent.2, first.others absent.1]
  new {id note tags} member unsaved single target := by
    have even : own.length = notes.length := first.length_own
    rw [List.zip_append even.symm, List.zip_append (by simp [first.length_ids, even]),
      List.mem_append] at member
    rw [List.count_append] at single
    rcases member with here | later
    · have once := List.count_pos_iff.mpr (List.of_mem_zip here).1
      have absent : id ∉ ids' := List.count_eq_zero.mp (by omega)
      rw [rest.others absent, first.new here unsaved (by omega)]
    · have once := List.count_pos_iff.mpr (List.of_mem_zip later).1
      have absent : id ∉ ids := List.count_eq_zero.mp (by omega)
      rw [rest.new later unsaved (by omega), first.others absent]

theorem before (h : d.Linked ids notes own d') (same : d.view.links = d₀.view.links) :
    d₀.Linked ids notes own d' :=
  (of_links same).append h

theorem stored {entity : EntityId} {entries : List (ObjectId × Bytes)}
    (h : d.Linked ids notes own d₁) (view : d'.view = d₁.view.insertMany entity entries) :
    d.Linked ids notes own d' := by
  have same : d'.view.links = d₁.view.links := by
    rw [view]
    rfl
  have both := h.append (of_links same)
  rwa [List.append_nil, List.append_nil, List.append_nil] at both

theorem of_note {id : ObjectId} {note : Note} {tags : List ObjectId}
    (others : ∀ source, id ≠ source →
      d'.view.targets noteTags.id source = d.view.targets noteTags.id source)
    (new : note.id = 0 → ∀ target, target ∈ d'.view.targets noteTags.id id ↔
      target ∈ tags ∨ target ∈ d.view.targets noteTags.id id) : d.Linked [id] [note] [tags] d' where
  length_ids := rfl
  length_own := rfl
  others absent := others _ fun same => absent (same ▸ List.mem_singleton_self _)
  new member unsaved _ := by
    obtain ⟨rfl, rfl, rfl⟩ := by simpa using member
    exact new unsaved

theorem of_steps {α β : Type} {R : α → Note → Draft → β → Note → Draft → Prop}
    {f : α × β → ObjectId} {as : List α} {bs : List β}
    (each : ∀ a note d b note' d', R a note d b note' d' →
      d.Linked [f (a, b)] [note] [note'.tagIds] d')
    (even : as.length = notes.length) (steps : Steps R as notes d bs notes' d') :
    bs.length = as.length ∧
      d.Linked ((as.zip bs).map f) notes (notes'.map Note.tagIds) d' := by
  induction steps with
  | nil =>
      obtain rfl := List.length_eq_zero_iff.mp even.symm
      exact ⟨rfl, of_links rfl⟩
  | empty =>
      obtain rfl := List.length_eq_zero_iff.mp even
      exact ⟨rfl, of_links rfl⟩
  | cons first _ ih =>
      obtain ⟨same, rest⟩ := ih (Nat.succ.inj even)
      exact ⟨congrArg (· + 1) same, (each _ _ _ _ _ _ first).append rest⟩

theorem of_chunks {α : Type}
    {R : α → List Note → Draft → List Box.Assigned → List Note → Draft → Prop} {as : List α}
    {chunks chunks' : List (List Note)} {assigned : List (List Box.Assigned)}
    (each : ∀ a notes d assigned notes' d', R a notes d assigned notes' d' →
      d.Linked (assigned.map Box.Assigned.id) notes (notes'.map Note.tagIds) d')
    (even : as.length = chunks.length) (steps : Steps R as chunks d assigned chunks' d') :
    d.Linked (assigned.flatten.map Box.Assigned.id) chunks.flatten
      (chunks'.flatten.map Note.tagIds) d' := by
  induction steps with
  | nil =>
      obtain rfl := List.length_eq_zero_iff.mp even.symm
      exact of_links rfl
  | empty => exact of_links rfl
  | cons first _ ih =>
      have both := (each _ _ _ _ _ _ first).append (ih (Nat.succ.inj even))
      rwa [← List.map_append, ← List.map_append] at both

end Draft.Linked

/-! ## Programs -/

namespace Store

variable {u : Setting} {how : Option TxnMode} {d : Draft} {note : Note} {notes : List Note}
  {id current : ObjectId} {mode : PutMode}

/-- The tags of a note are objects without relations. -/
def PlainTags (store : Store) : Prop :=
  ∀ entity, store.registered tagBinding.name = .ok entity → entity.hasRelations = false

variable (plain : u.store.PlainTags)
include plain

/-- A note is linked to its tags. One that carried no id keeps the links its new id had. -/
theorem putRelated_ensures (same : note.id ≠ 0 → note.id = id) :
    Ensures u how (noteBinding.putRelated u.txn id) (note, d) fun _ w =>
      w.1.id = note.id ∧ d.Linked [id] [note] [w.1.tagIds] w.2 := by
  refine .bind (.current ?_)
  cases loaded : note.tags with
  | none =>
      refine .pure ⟨rfl, .of_note (fun _ _ => rfl) fun _ target => ?_⟩
      simp [Note.tagIds, loaded]
  | some tags =>
      refine .focus ?_
      rw [loaded]
      refine (replaceLinks_ensures same fun entity known _ _ _ => plain entity known).mono ?_
      rintro _ ⟨_, d'⟩ ⟨entity, now, ids, entries, last, writes, -, -, rfl, relinks⟩
      have carries : ∀ tag ∈ tags, tagBinding.id tag = .ok 0 → tagBinding.Carries tag := by
        rintro tag - - id _ ⟨⟩
        rfl
      have carried : (now.map Tag.id).map Except.ok = ids.map (Except.ok (ε := StoreError)) := by
        rw [List.map_map]
        exact relinks.saves.map_id carries
      obtain rfl : now.map Tag.id = ids :=
        List.map_injective_iff.mpr (fun _ _ => Except.ok.inj) carried
      refine ⟨rfl, .of_note (fun source other => ?_) fun unsaved target => ?_⟩
      · ext target
        rw [relinks.targets_iff, if_neg fun same => other same.2]
      · rw [relinks.links_iff, if_pos unsaved]
        simp [Note.tagIds]

theorem storeUnder_ensures (same : note.id ≠ 0 → note.id = id) :
    Ensures u how (noteBox.storeUnder (some u.txn) id mode) (note, d) fun id' w =>
      id' = id ∧ how = some .write ∧ d.Linked [id] [note] [w.1.tagIds] w.2 := by
  simp only [Box.storeUnder, if_true]
  refine .bind ((putRelated_ensures plain same).mono ?_)
  rintro _ ⟨note', d₁⟩ ⟨-, linked⟩
  refine .bind (.current (.bind (.encode fun record _ => ?_)))
  refine .bind (.write Draft.serves_put rfl rfl fun _ d₂ able put => .pure ⟨rfl, able, ?_⟩)
  exact linked.stored (Draft.view_of_put put)

theorem write_ensures (carried : note.id = current) :
    Ensures u how (noteBox.write (some u.txn) current mode) (note, d) fun id w =>
      how = some .write ∧ d.Linked [id] [note] [w.1.tagIds] w.2 := by
  by_cases update : mode = .update
  · subst update
    rw [Box.write_update_eq]
    refine (storeUnder_ensures plain fun _ => carried).mono ?_
    rintro _ w ⟨rfl, able, linked⟩
    exact ⟨able, linked⟩
  · rw [Box.write_eq update]
    refine .bind (.allocateOne fun id d₁ _ drawn => ?_)
    obtain ⟨view, kept⟩ := Draft.view_of_idForPut drawn
    have same : note.id ≠ 0 → note.id = id := fun saved => by
      rw [kept (carried ▸ saved), carried]
    refine (storeUnder_ensures plain same).mono ?_
    rintro _ w ⟨rfl, able, linked⟩
    exact ⟨able, linked.before (congrArg Snapshot.links view)⟩

theorem writeOne_ensures : Ensures u how (noteBox.writeOne u.txn) (note, d) fun a w =>
    how = some .write ∧ d.Linked [a.id] [note] [w.1.tagIds] w.2 := by
  refine .bind (.currentId fun current carried => ?_)
  have carried : note.id = current := Except.ok.inj carried
  exact .bind ((write_ensures plain carried).mono fun id w stored => .pure stored)

theorem writeChunk_ensures : Ensures u how (noteBox.writeChunk u.txn) (notes, d) fun assigned w =>
    how = some .write ∧
      d.Linked (assigned.map Box.Assigned.id) notes (w.1.map Note.tagIds) w.2 := by
  have currents : notes.mapM noteBinding.id = .ok (notes.map Note.id) := List.mapM_pure
  have carried (v : Store × Engine) :
      Ends (notes.mapM noteBox.idOf) v (.ok (notes.map Note.id)) v :=
    currents ▸ Binding.Account.idsOf_ends
  refine .bind (.current (.bind (.reading carried ?_)))
  rintro _ ⟨⟩
  refine .bind (.allocateBlock fun first d₁ same => ?_)
  have kept {id : ObjectId} {note : Note} (member : (id, note) ∈
      ((Box.assign first (notes.map Note.id)).map Box.Assigned.id).zip notes)
      (saved : note.id ≠ 0) : note.id = id := by
    obtain ⟨i, listed⟩ := List.mem_iff_getElem?.mp member
    obtain ⟨given, here⟩ := List.getElem?_zip_eq_some.mp listed
    have carried : (notes.map Note.id)[i]? = some note.id := by rw [List.getElem?_map, here]; rfl
    rw [Box.getElem?_assign carried saved] at given
    exact Option.some.inj given
  have even : ((Box.assign first (notes.map Note.id)).map Box.Assigned.id).length =
      notes.length := by simp
  generalize Box.assign first (notes.map Note.id) = assigned at kept even ⊢
  refine .bind (.mono (.forEach (R := fun id note d _ note' d' =>
    d.Linked [id] [note] [note'.tagIds] d') fun id note member d => ?_) ?_)
  · simp only [if_true]
    refine .bind ((putRelated_ensures plain (kept member)).mono ?_)
    rintro _ ⟨note', d₂⟩ ⟨-, linked⟩
    exact .bind (.current (.encode fun record _ => linked))
  · rintro records ⟨notes', d₂⟩ steps
    obtain ⟨length, linked⟩ := Draft.Linked.of_steps (f := Prod.fst)
      (fun _ _ _ _ _ _ linked => linked) even steps
    rw [List.map_fst_zip (Nat.le_of_eq length.symm)] at linked
    refine .bind (.write Draft.serves_putMany rfl rfl fun _ d₃ able put => .pure ⟨able, ?_⟩)
    have linked := linked.before (congrArg Snapshot.links same)
    exact linked.stored (Draft.view_of_putMany put)

theorem writeMany_ensures (some : notes ≠ []) : Ensures u how (noteBox.writeMany u.txn) (notes, d)
    fun assigned w => how = .some .write ∧
      d.Linked (assigned.map Box.Assigned.id) notes (w.1.map Note.tagIds) w.2 := by
  refine .store fun pool => .ite (fun _ => .bind (.forChunks ?_)) fun _ => .bind (.current ?_)
  case refine_1 =>
    generalize cut : chunked _ notes notes = chunks
    have whole : chunks.flatten = notes := cut ▸ flatten_chunked (Nat.le_refl _)
    have filled : chunks ≠ [] := fun none => some (by rw [← whole, none]; rfl)
    refine (Ensures.forEach (R := fun _ notes d assigned notes' d' => how = .some .write ∧
      d.Linked (assigned.map Box.Assigned.id) notes (notes'.map Note.tagIds) d')
      fun _ chunk _ _ => writeChunk_ensures plain).mono ?_
    rintro assigned ⟨chunks', d'⟩ steps
    refine .pure ⟨steps.holds filled rfl fun _ _ _ _ _ _ written => written.1, ?_⟩
    have linked := Draft.Linked.of_chunks (fun _ _ _ _ _ _ written => written.2) rfl steps
    rwa [whole] at linked
  case refine_2 =>
    refine (Ensures.forEach (R := fun _ note d a note' d' => how = .some .write ∧
      d.Linked [a.id] [note] [note'.tagIds] d') fun _ note _ _ => writeOne_ensures plain).mono ?_
    rintro assigned ⟨notes', d'⟩ steps
    refine ⟨steps.holds some rfl fun _ _ _ _ _ _ written => written.1, ?_⟩
    obtain ⟨length, linked⟩ := Draft.Linked.of_steps (f := fun p => p.2.id)
      (fun _ _ _ _ _ _ written => written.2) rfl steps
    have ids : (notes.zip assigned).map (fun p => p.2.id) = assigned.map Box.Assigned.id := by
      conv => rhs; rw [← List.map_snd_zip (Nat.le_of_eq length), List.map_map]
      rfl
    rwa [ids] at linked

end Store

/-! ## Calls -/

/-- An engine on which notes were stored in a transaction, or without one. -/
def Engine.LinkedFrom (e : Engine) (txn : Option Handle) (ids : List ObjectId) (notes : List Note)
    (own : List (List ObjectId)) (e' : Engine) : Prop :=
  ∃ mode view d, e.Stands txn mode view ∧ e' = e.redrafted mode d txn ∧
    (e.draft view).Linked ids notes own d

namespace Store

variable {store : Store} {e : Engine} {txn : Option Txn} {note : Note} {notes : List Note}
  {mode : PutMode} (plain : store.PlainTags) (exclusive : e.Exclusive)
include plain exclusive

omit plain exclusive in
theorem giveId_leads {id current : ObjectId} {v : Store × Engine}
    {Q : ObjectId → Note × Store × Engine → Prop}
    (h : ∀ note', note'.tagIds = note.tagIds → Q id (note', v)) :
    Leads (if id ≠ current then noteBox.assignId id >>= fun _ => pure id else pure id) (note, v)
      fun r w => ∀ a, r = .ok a → Q a w := by
  split
  · refine Ends.bind (Box.assignId_ends noteTotal) (Leads.pure ?_)
    rintro _ ⟨⟩
    exact h _ rfl
  · refine Leads.pure ?_
    rintro _ ⟨⟩
    exact h _ rfl

theorem putObject_leads : Leads (noteBox.putObject txn mode) (note, store, e) fun r w =>
    ∀ id, r = .ok id → store.closed = false ∧ w.2.1 = store ∧
      e.LinkedFrom (txn.map Txn.handle) [id] [note] [w.1.tagIds] w.2.2 := by
  cases closed : store.closed with
  | true =>
      refine Ends.bind_error (Ends.ofStore (StoreM.ensureOpen_closed closed)) ?_
      rintro _ ⟨⟩
  | false =>
      refine Ends.bind (Ends.ofStore (StoreM.ensureOpen_ends closed)) ?_
      refine Ends.bind (Box.currentId_ends noteTotal) ?_
      by_cases misused : mode = .update ∧ noteTotal.idOf note = 0
      · rw [if_pos misused]
        refine Ends.bind_error (Ends.ofStore StoreM.misuse_ends) ?_
        rintro _ ⟨⟩
      · rw [if_neg misused]
        have written := @given_or_own Note ObjectId store e note
          (fun txn => noteBox.write (some txn) note.id mode) txn
          (fun _ d id w => d.Linked [id] [note] [w.1.tagIds] w.2) exclusive
          fun base txn how d _ => (write_ensures plain rfl).mono fun id w stored =>
            ⟨.write, stored.1, stored.2⟩
        cases txn <;>
        · refine written.onward (fun id w ended => ?_) fun why w _ id failed => by cases failed
          obtain ⟨mode, view, note', d, stands, rfl, linked⟩ := ended id rfl
          refine giveId_leads fun note'' same => ⟨rfl, rfl, mode, view, d, stands, rfl, ?_⟩
          rwa [same]

omit plain exclusive in
theorem tagIds_given {assigned : List Box.Assigned} :
    (noteTotal.given assigned notes).map Note.tagIds = notes.map Note.tagIds := by
  induction assigned generalizing notes with
  | nil => rfl
  | cons a assigned ih =>
      cases notes with
      | nil => rfl
      | cons note notes =>
          rw [Binding.Total.given, List.map_cons, List.map_cons, ih]
          split <;> rfl

theorem putMany_leads (some : notes ≠ []) :
    Leads (noteBox.putMany txn) (notes, store, e) fun r w => ∀ ids, r = .ok ids →
      store.closed = false ∧ w.2.1 = store ∧
        e.LinkedFrom (txn.map Txn.handle) ids notes (w.1.map Note.tagIds) w.2.2 := by
  cases closed : store.closed with
  | true =>
      refine Ends.bind_error (Ends.ofStore (StoreM.ensureOpen_closed closed)) ?_
      rintro _ ⟨⟩
  | false =>
      refine Ends.bind (Ends.ofStore (StoreM.ensureOpen_ends closed)) ?_
      refine Ends.bind Editing.current_ends ?_
      rw [if_neg (by simpa using some)]
      have written := @given_or_own (List Note) (List Box.Assigned) store e notes
        noteBox.writeMany txn (fun _ d assigned w =>
          d.Linked (assigned.map Box.Assigned.id) notes (w.1.map Note.tagIds) w.2) exclusive
        fun base txn how d _ => (writeMany_ensures plain some).mono fun id w stored =>
          ⟨.write, stored.1, stored.2⟩
      cases txn <;>
      · refine written.onward (fun assigned w ended => ?_) fun why w _ ids failed => by cases failed
        obtain ⟨mode, view, notes', d, stands, rfl, linked⟩ := ended assigned rfl
        refine Ends.bind (Box.writeBack_ends noteTotal) (Leads.pure ?_)
        rintro _ ⟨⟩
        refine ⟨rfl, rfl, mode, view, d, stands, rfl, ?_⟩
        rwa [tagIds_given]

end Store

/-! ## Sessions -/

theorem Box.relationIds_ends {T : Type} {b : Box T} {txn : Option Txn} {relation : Relation}
    {source : ObjectId} {store : Store} {e : Engine} {view : Snapshot}
    (opened : store.closed = false) (starts : relation.source = b.entity)
    (known : e.relations.contains relation.id = true)
    (seen : e.view (txn.map Txn.handle) = .ok view) :
    Ends (b.relationIds txn relation source) (store, e)
      (.ok (view.targets relation.id source).toList) (store, e) := by
  have asked : e.perform callerThread (.relGetIds (txn.map Txn.handle) relation.id source) =
      .ok ((view.targets relation.id source).toList, e) :=
    Engine.perform_relGetIds known seen
  refine Ends.bind (StoreM.ensureOpen_ends opened) ?_
  rw [checkSource, if_neg (not_not_intro starts)]
  exact Ends.ofHost (HostM.request_ends asked)

namespace Session

variable {s s' : Session} {txn : Option Txn}

/-- A note starts out with links to its tags, and with those its id had before. They are its own if
and only if the id was linked to none but these. -/
def StartsLinked (s : Session) (txn : Option Txn) (id : ObjectId) (note : Note) (s' : Session) :
    Prop :=
  ∃ before linked s'', s.host.machine.engine.view (txn.map Txn.handle) = .ok before ∧
    (noteBox.relationIds txn noteTags id).run s' = (.ok linked, s'') ∧
    linked.Pairwise (· < ·) ∧
    (∀ target, target ∈ linked ↔
      target ∈ note.tagIds ∨ target ∈ before.targets noteTags.id id) ∧
    ((∀ target, target ∈ linked ↔ target ∈ note.tagIds) ↔
      ∀ target ∈ before.targets noteTags.id id, target ∈ note.tagIds)

/-- How notes without ids start out that are stored next. -/
structure NewNotes (s : Session) : Prop where
  /-- A note is put, inserted or updated. -/
  single {txn : Option Txn} {mode : PutMode} {note note' : Note} {id : ObjectId} {s' : Session} :
    note.id = 0 → (noteBox.putObject txn mode).run note s = ((.ok id, note'), s') →
      s.StartsLinked txn id note' s'
  /-- Several notes are put, of which no other has the note's id. -/
  batch {txn : Option Txn} {notes notes' : List Note} {ids : List ObjectId} {s' : Session} :
    (noteBox.putMany txn).run notes s = ((.ok ids, notes'), s') →
      ∀ {id note note'}, (id, note, note') ∈ ids.zip (notes.zip notes') → note.id = 0 →
        ids.count id = 1 → s.StartsLinked txn id note' s'

theorem Sound.plainTags (sound : s.Sound) : s.store.PlainTags := by
  intro entity known
  have bound : s.store.model.bound? tagBinding.name = some tagBox.descriptor := by
    rw [sound.model]
    rfl
  unfold Store.registered at known
  grind

theorem Sound.startsLinked {ids : List ObjectId} {notes : List Note} {own : List (List ObjectId)}
    {id : ObjectId} {note note' : Note} {e : Engine} (sound : s.Sound)
    (opened : s.store.closed = false) (shows : Viewed.Shows s' (s.store, e))
    (stored : s.host.machine.engine.LinkedFrom (txn.map Txn.handle) ids notes own e)
    (member : (id, note, note'.tagIds) ∈ ids.zip (notes.zip own)) (unsaved : note.id = 0)
    (single : ids.count id = 1) : s.StartsLinked txn id note' s' := by
  obtain ⟨mode, view, d, stands, rfl, linked⟩ := stored
  have known := sound.relations noteTags (by decide)
  have schema : s.host.machine.engine.SameSchema
      (s.host.machine.engine.redrafted mode d (txn.map Txn.handle)) :=
    Engine.Stands.schema_redrafted
  rw [← schema.relations] at known
  have reads := @Box.relationIds_ends _ noteBox txn noteTags id s.store _ d.view opened rfl known
    stands.redrafted.seen
  obtain ⟨s'', ran⟩ := run_of_leads shows (reads.leads rfl)
  have links : ∀ target, target ∈ (d.view.targets noteTags.id id).toList ↔
      target ∈ note'.tagIds ∨ target ∈ view.targets noteTags.id id := fun target => by
    rw [Std.ExtTreeSet.mem_toList, linked.new member unsaved single]
    rfl
  refine ⟨view, _, s'', stands.seen, ran, Snapshot.pairwise_targets, links, ?_⟩
  simp only [links]
  refine forall_congr' fun target => ⟨fun own old => own.mp (.inr old), fun own => ?_⟩
  exact or_iff_left_of_imp own

/-- After whatever was done with a new store through its boxes, a note that is stored for the first
    time is linked to its tags and to what its id was linked to before. -/
theorem new_notes_linked {arrays : Bool} {config : Config} {s₀ : Session}
    {actions : List BoxAction} (opened : fresh arrays config = .ok s₀)
    (through : ∀ action ∈ actions, action.Uses Fixture Bound) : (s₀.use actions).NewNotes := by
  obtain ⟨sound, -⟩ := sound_of_use opened through
  constructor
  case single =>
    intro txn mode note note' id s' unsaved done
    have stored : Leads (noteBox.putObject txn mode) (note, _, _) _ :=
      Store.putObject_leads sound.plainTags sound.exclusive
    obtain ⟨⟨_, store, e⟩, ⟨rfl, shows⟩, ended⟩ := stored.of_run ⟨rfl, sound.shows⟩ done
    obtain ⟨opened, rfl, linked⟩ := ended id rfl
    exact sound.startsLinked opened shows linked (.head _) unsaved (by simp)
  case batch =>
    intro txn notes notes' ids s' done id note note' member unsaved single
    have some : notes ≠ [] := List.ne_nil_of_mem (List.of_mem_zip (List.of_mem_zip member).2).1
    have stored : Leads (noteBox.putMany txn) (notes, _, _) _ :=
      Store.putMany_leads sound.plainTags sound.exclusive some
    obtain ⟨⟨_, store, e⟩, ⟨rfl, shows⟩, ended⟩ := stored.of_run ⟨rfl, sound.shows⟩ done
    obtain ⟨opened, rfl, linked⟩ := ended ids rfl
    have member : (id, note, note'.tagIds) ∈ ids.zip (notes.zip (notes'.map Note.tagIds)) := by
      rw [List.zip_map_right, List.zip_map_right]
      exact List.mem_map_of_mem member
    exact sound.startsLinked opened shows linked member unsaved single

/-- A link is written for a note that is not stored. -/
def strayLink : List BoxAction :=
  [.call noteBox (.relationPut noteTags 1 5)]

/-- Two notes that carry no ids, and between them one that does. -/
def mixedNotes : List Note :=
  [{ text := "first", tags := some [{ name := "a" }, ⟨5, "b"⟩] }, { id := 7, text := "second" },
    { text := "third" }]

/-- The first note of a batch has its tags only, the last one has none. -/
theorem mixed_notes_start_linked : ∃ s₀ notes s', fresh false {} = .ok s₀ ∧
    (noteBox.putMany none).run mixedNotes (s₀.use strayLink) = ((.ok [1, 7, 8], notes), s') ∧
    (s₀.use strayLink).StartsLinked none 1
      { text := "first", tags := some [⟨1, "a"⟩, ⟨5, "b"⟩], id := 1 } s' ∧
    (s₀.use strayLink).StartsLinked none 8 { id := 8, text := "third" } s' := by
  have eval : (fresh false {}).toOption.map (fun s₀ =>
      ((noteBox.putMany none).run mixedNotes (s₀.use strayLink)).1.map Except.toOption id) =
      some (some [1, 7, 8], [{ text := "first", tags := some [⟨1, "a"⟩, ⟨5, "b"⟩], id := 1 },
        { id := 7, text := "second" }, { id := 8, text := "third" }]) := by
    decide +kernel
  obtain ⟨s₀, opened, seen⟩ := of_eval eval
  obtain ⟨answered, changed⟩ := Prod.mk.inj seen
  have done : (noteBox.putMany none).run mixedNotes (s₀.use strayLink) = ((.ok [1, 7, 8], _), _) :=
    Prod.ext (Prod.ext (ok_of_toOption answered) changed) rfl
  have starts : (s₀.use strayLink).NewNotes := by
    refine new_notes_linked opened ?_
    simp only [strayLink, List.forall_mem_cons]
    exact ⟨⟨.note, trivial⟩, by simp⟩
  refine ⟨s₀, _, _, opened, done, starts.batch done (.head _) rfl (by decide), ?_⟩
  exact starts.batch done (.tail _ (.tail _ (.head _))) rfl (by decide)

/-- A note starts out with a link to a tag it does not have. -/
theorem new_note_linked_astray : ∃ s₀ note s' s'', fresh true {} = .ok s₀ ∧
    (noteBox.put none).run { text := "n", tags := some [{ name := "a" }] } (s₀.use strayLink) =
      ((.ok 1, note), s') ∧ note.tagIds = [1] ∧
    (noteBox.relationIds none noteTags 1).run s' = (.ok [1, 5], s'') := by
  have eval : (fresh true {}).toOption.map (fun s₀ =>
      let ended := (noteBox.put none).run { text := "n", tags := some [{ name := "a" }] }
        (s₀.use strayLink)
      (ended.1.1.toOption, ended.1.2.tagIds,
        ((noteBox.relationIds none noteTags 1).run ended.2).1.toOption)) =
      some (some 1, [1], some [1, 5]) := by
    decide +kernel
  obtain ⟨s₀, opened, seen⟩ := of_eval eval
  simp only [Prod.mk.injEq] at seen
  obtain ⟨answered, own, linked⟩ := seen
  exact ⟨s₀, _, _, _, opened, Prod.ext (Prod.ext (ok_of_toOption answered) rfl) rfl, own,
    Prod.ext (ok_of_toOption linked) rfl⟩

end Session

end ObjectStore
