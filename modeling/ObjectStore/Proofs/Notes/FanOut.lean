import ObjectStore.Proofs.Notes.Targets
import ObjectStore.Proofs.Store.BulkPut
import ObjectStore.Proofs.Store.Reachable

/-! # Notes with their tags

Writing a note stores its tags on the way, once its own id is known. So a tag is given an id exactly
if the write of its note, or an earlier one of the same batch, comes that far while there are ids
left for tags. A note whose tags all carry ids is written as one without tags is.
-/

namespace ObjectStore

open Catalog

/-- The box of notes. -/
@[reducible] def noteBox : Box Note :=
  ⟨⟨11, "Note", true, noteBinding.name⟩, noteBinding⟩

instance : Carries Note where
  own note := [note.id]
  related note := related note.tags

/-- In transactions begun on `base` notes can be stored with their tags. -/
structure Store.Tagging (store : Store) (base : Engine) : Prop where
  opened : store.closed = false
  bound : store.model.bound? tagBinding.name = some tagBox.descriptor
  notes : base.entities.contains noteBox.entity = true
  tags : base.entities.contains tagBox.entity = true
  links : base.relations.contains noteTags.id = true

theorem Session.Sound.tagging {s : Session} (h : s.Sound) (opened : s.store.closed = false) :
    s.store.Tagging s.host.machine.engine where
  opened := opened
  bound := by
    rw [h.model]
    rfl
  notes := h.entities noteBox.descriptor (by decide)
  tags := h.entities tagBox.descriptor (by decide)
  links := h.relations noteTags List.mem_cons_self

namespace Box

variable {base e : Engine} {s : Snapshot} {store : Store} {id : ObjectId} {note : Note}
  {notes : List Note} {txn : Txn}

theorem related_tags_of_note : related note = (note.tags.getD []).map Tag.id := by
  rcases note with ⟨id, text, _ | tags⟩
  · rfl
  · exact Store.related_tags

/-! ## One note -/

theorem putRelated_fills : Editing.Fills (noteBinding.putRelated txn id) := by
  refine .bind Editing.current_fills fun note => ?_
  split
  · refine fun note v => Editing.focus_leads ((Store.replaceLinks_fills _ v).mono ?_)
    exact fun r w filled => ⟨rfl, filled.related⟩
  · exact .pure

theorem putRelated_handed (tagging : store.Tagging base)
    (within : base.Within callerThread .write s e) (nonzero : id ≠ 0) :
    Leads (noteBinding.putRelated ⟨base.nextHandle, .write⟩ id) (note, store, e) fun r w =>
      Handed (0 ∈ related note) e.TagLeft note w.1 (Failed r) := by
  have known : e.entities.contains tagBox.entity = true := within.known.trans tagging.tags
  apply Ends.bind Editing.current_ends
  cases loaded : note.tags with
  | none =>
      simp only [Option.isSome_none, Bool.false_eq_true, if_false]
      refine Leads.pure (.of_kept .refl rfl ?_)
      rw [related_tags_of_note, loaded]
      exact List.not_mem_nil
  | some tags =>
      simp only [Option.isSome_some, if_true]
      have due : Store.ReplacingReaches base s noteTags id note.id (some tags) ↔
          0 ∈ related note := by
        rw [Store.ReplacingReaches, and_iff_right (.inr tagging.links),
          Store.reaches_iff ⟨nonzero, tagging.links⟩, related_tags_of_note, loaded]
        rfl
      apply Editing.focus_leads
      rw [loaded, ← due]
      refine (Store.replaceLinks_handed tagging.opened tagging.bound within known).mono ?_
      intro r w handed
      have before : related note = related (some tags) := congrArg related loaded
      refine ⟨⟨rfl, ?_⟩, ?_, handed.stuck⟩
      · rw [before]
        exact handed.filled.related
      · rw [before]
        exact handed.kept

theorem quiet_of_saved (tagging : store.Tagging base) (saved : 0 ∉ related note) :
    noteBox.Quiet base store note := by
  intro _ s e id writing nonzero
  rw [related_tags_of_note] at saved
  cases loaded : note.tags with
  | none =>
      refine ⟨s, e, Ends.bind Editing.current_ends ?_, writing, rfl, fun _ => rfl⟩
      simp only [loaded, Option.isSome_none, Bool.false_eq_true, if_false]
      exact Ends.pure
  | some tags =>
      have all : ∀ tag ∈ tags, tag.id ≠ 0 := by
        intro tag member zero
        rw [loaded] at saved
        exact saved (List.mem_map.mpr ⟨tag, member, zero⟩)
      obtain ⟨s', e', ends, within, records, same⟩ := Store.replaceLinks_ends note.id
        tagging.opened tagging.bound writing.within ⟨nonzero, tagging.links⟩ all
      refine ⟨s', e', Ends.bind Editing.current_ends ?_, ?_, records, same⟩
      · simp only [loaded, Option.isSome_some, if_true]
        apply Editing.focus_leads
        rw [loaded]
        refine ends.leads ⟨rfl, ?_⟩
        rw [← loaded]
      · exact writing.later within records (by rw [same]; exact Std.le_refl _)

theorem encodeUnder_handed (tagging : store.Tagging base)
    (within : base.Within callerThread .write s e) (nonzero : id ≠ 0) :
    Leads (noteBox.encodeUnder ⟨base.nextHandle, .write⟩ id) (note, store, e) fun r w =>
      Handed (0 ∈ related note) e.TagLeft note w.1 (Failed r) :=
  Editing.handed_still (putRelated_handed tagging within nonzero) fun _ objects v =>
    Ends.bind Editing.current_ends
      (Editing.Still.ofStore (encode_halts (b := noteBox) noteTotal) objects v)

theorem storeUnder_handed {mode : PutMode} (tagging : store.Tagging base)
    (within : base.Within callerThread .write s e) (nonzero : id ≠ 0) :
    Leads (noteBox.storeUnder (some ⟨base.nextHandle, .write⟩) id mode) (note, store, e) fun r w =>
      Handed (0 ∈ related note) e.TagLeft note w.1 (Failed r) := by
  rw [storeUnder_eq]
  exact Editing.handed_still (encodeUnder_handed tagging within nonzero) fun record =>
    .bind (.ofStore HostM.request_halts.ofHost) fun _ => .pure

/-- A note is given its id before its tags are stored, so they are given theirs only if it could be
    given one. -/
theorem write_handed {mode : PutMode} {current : ObjectId} (tagging : store.Tagging base)
    (within : base.Within callerThread .write s e) (new : mode ≠ .update) :
    Leads (noteBox.write (some ⟨base.nextHandle, .write⟩) current mode) (note, store, e) fun r w =>
      Handed (HasRoom (e.lastId noteBox.entity) [current] ∧ 0 ∈ related note) e.TagLeft note w.1
        (Failed r) := by
  have known : e.entities.contains noteBox.entity = true := within.known.trans tagging.notes
  by_cases room : HasRoom (e.lastId noteBox.entity) [current]
  · obtain ⟨id, next, granted, -⟩ := Engine.idForPut_numbered known within.writable room
    rw [and_iff_right room]
    refine write_leads new granted ?_
    have left : (e.setLastId noteBox.entity next).TagLeft ↔ e.TagLeft :=
      Engine.tagLeft_congr (Engine.lastId_setLastId.trans (if_neg (by decide)))
    rw [← left]
    exact storeUnder_handed tagging within.setLastId (Engine.idForPut_ne_zero granted)
  · have failed : Ends (noteBox.write (some ⟨base.nextHandle, .write⟩) current mode)
        (note, store, e) (.error (.exhausted "id_for_put" noteBox.entity)) (note, store, e) :=
      write_exhausted new known within.writable room
    exact failed.leads (.of_kept .refl rfl fun due => room due.1)

theorem update_handed {current : ObjectId} (tagging : store.Tagging base)
    (within : base.Within callerThread .write s e) (saved : current ≠ 0) :
    Leads (noteBox.write (some ⟨base.nextHandle, .write⟩) current .update) (note, store, e)
      fun r w => Handed (0 ∈ related note) e.TagLeft note w.1 (Failed r) := by
  rw [write_update_eq]
  exact storeUnder_handed tagging within saved

/-! ## Several notes -/

theorem related_notes {note : Note} {notes : List Note} :
    related (note :: notes) = related note ++ related notes :=
  List.flatMap_cons ..

theorem encodeAll_handed {ids : List ObjectId} (tagging : store.Tagging base)
    (even : ids.length = notes.length) (nonzero : ∀ id ∈ ids, id ≠ 0)
    (writing : noteBox.Writing base s e) :
    Leads (Editing.forEach (noteBox.encodeUnder ⟨base.nextHandle, .write⟩) ids) (notes, store, e)
      fun r w => Handed (0 ∈ related notes) e.TagLeft notes w.1 (Failed r) := by
  induction ids generalizing notes s e with
  | nil =>
      have none : notes = [] := List.length_eq_zero_iff.mp even.symm
      subst none
      exact Editing.forEach_nil (.of_kept .refl rfl List.not_mem_nil)
  | cons id ids ih =>
      cases notes with
      | nil => cases even
      | cons note notes =>
          apply Editing.forEach_cons
          rw [related_notes, List.mem_append]
          have here : id ≠ 0 := nonzero id List.mem_cons_self
          by_cases unsaved : 0 ∈ related note
          · rw [or_iff_left_of_imp fun _ => unsaved]
            refine (encodeUnder_handed tagging writing.within here).mono ?_
            rintro (why | record) ⟨note', v⟩ handed
            · exact handed.cons_failed.failing fun _ => ⟨why, rfl⟩
            · simp only [Editing.Rest]
              refine (Editing.Fills.forEach (fun id => encodeUnder_fills (b := noteBox) noteTotal
                fun _ _ => putRelated_fills) notes v).mono fun r w filled => ?_
              exact handed.cons_failed.goes_on not_failed_ok unsaved (Filled.refl.cons filled)
          · rw [or_iff_right unsaved]
            obtain ⟨s₁, e₁, first, writing₁, -, same⟩ := encodeUnder_ends (b := noteBox) noteTotal
              (quiet_of_saved tagging unsaved) writing here
            refine first.leads ?_
            simp only [Editing.Rest]
            have left : e₁.TagLeft ↔ e.TagLeft := Engine.tagLeft_congr (same _)
            rw [← left]
            refine (ih (Nat.succ.inj even)
              (fun id member => nonzero id (List.mem_cons_of_mem _ member)) writing₁).mono ?_
            rintro r w handed
            refine handed.cons_same.failing ?_
            rintro ⟨why, rfl⟩
            exact ⟨why, rfl⟩

theorem writeChunk_handed (tagging : store.Tagging base) (size : notes.length ≤ maxIdsPerBlock)
    (writing : noteBox.Writing base s e) :
    Leads (noteBox.writeChunk ⟨base.nextHandle, .write⟩) (notes, store, e) fun r w =>
      Handed (HasRoom (e.lastId noteBox.entity) (notes.map Note.id) ∧ 0 ∈ related notes) e.TagLeft
        notes w.1 (Failed r) := by
  have bounded : (notes.map Note.id).length ≤ maxIdsPerBlock := by rwa [List.length_map]
  by_cases room : HasRoom (e.lastId noteBox.entity) (notes.map Note.id)
  · rw [and_iff_right room]
    obtain ⟨first, e₁, allocated, numbered, within₁, last₁⟩ :=
      allocateBlock_ends writing room bounded
    have grown : e.lastId noteBox.entity ≤ e₁.lastId noteBox.entity := by
      rw [last₁, if_pos rfl, UInt64.le_iff_toNat_le, toNat_block room]
      omega
    have left : e₁.TagLeft ↔ e.TagLeft :=
      Engine.tagLeft_congr ((last₁ _).trans (if_neg (by decide)))
    have nonzero : ∀ id ∈ chunkIds (e.lastId noteBox.entity) (notes.map Note.id), id ≠ 0 :=
      fun id => ne_zero_of_mem_chunkIds room
    apply Ends.bind Editing.current_ends
    refine Ends.bind (Ends.ofStore (mapM_ends fun note => idOf_ends (b := noteBox) noteTotal)) ?_
    apply Ends.bind (Ends.ofStore (Ends.ofHost allocated))
    rw [show notes.map noteTotal.idOf = notes.map Note.id from rfl, numbered, ← left]
    refine Editing.handed_still ?_ fun records =>
      .bind (.ofStore HostM.request_halts.ofHost) fun _ => .pure
    exact encodeAll_handed tagging (by simp) nonzero (writing.later within₁ rfl grown)
  · exact (writeChunk_refused noteTotal rfl bounded writing room).leads
      (.of_kept .refl rfl fun due => room due.1)

theorem writeOne_handed (tagging : store.Tagging base) (writing : noteBox.Writing base s e) :
    Leads (noteBox.writeOne ⟨base.nextHandle, .write⟩) (note, store, e) fun r w =>
      Handed (HasRoom (e.lastId noteBox.entity) [note.id] ∧ 0 ∈ related note) e.TagLeft note w.1
        (Failed r) := by
  apply Ends.bind (currentId_ends (b := noteBox) noteTotal)
  exact Editing.handed_still (write_handed tagging writing.within PutMode.noConfusion) fun id =>
    .pure

/-- Storing chunks one after another comes to a tag without an id: there are ids for its chunk and
    for those before it, whose tags all carry ids. -/
def BulkReaches : (last : ObjectId) → List (List Note) → Prop
  | _, [] => False
  | last, chunk :: chunks => HasRoom last (chunk.map Note.id) ∧
    (0 ∈ related chunk ∨ BulkReaches (lastAfter last (chunk.map Note.id)) chunks)

theorem forEach_handed {τ β : Type} [Carries τ] {step : Editing τ β} (parts : τ → List Note)
    {items : List τ} (same : ∀ item, related item = related (parts item))
    (handed : ∀ item ∈ items, ∀ {s e}, noteBox.Writing base s e →
      Leads step (item, store, e) fun r w =>
        Handed (HasRoom (e.lastId noteBox.entity) ((parts item).map Note.id) ∧ 0 ∈ related item)
          e.TagLeft item w.1 (Failed r))
    (served : ∀ item ∈ items, 0 ∉ related item → ∀ {s e}, noteBox.Writing base s e →
      HasRoom (e.lastId noteBox.entity) ((parts item).map Note.id) →
        ∃ answered s' e', Ends step (item, store, e) (.ok answered) (item, store, e') ∧
          Stored (b := noteBox) noteTotal base s e [(parts item).map Note.id] (parts item) s' e')
    (refused : ∀ item ∈ items, ∀ {s e}, noteBox.Writing base s e →
      ¬ HasRoom (e.lastId noteBox.entity) ((parts item).map Note.id) →
        ∃ why, Ends step (item, store, e) (.error why) (item, store, e))
    (fills : Editing.Fills step) (writing : noteBox.Writing base s e) :
    Leads (Editing.forEach (fun _ => step) items) (items, store, e) fun r w =>
      Handed (BulkReaches (e.lastId noteBox.entity) (items.map parts)) e.TagLeft items w.1
        (Failed r) := by
  induction items generalizing s e with
  | nil => exact Editing.forEach_nil (.of_kept .refl rfl id)
  | cons item items ih =>
      have member : item ∈ item :: items := List.mem_cons_self
      apply Editing.forEach_cons
      rw [List.map_cons, BulkReaches, ← same]
      by_cases room : HasRoom (e.lastId noteBox.entity) ((parts item).map Note.id)
      · by_cases unsaved : 0 ∈ related item
        · have due : HasRoom (e.lastId noteBox.entity) ((parts item).map Note.id) ∧
              0 ∈ related item := ⟨room, unsaved⟩
          rw [or_iff_left_of_imp fun _ => unsaved]
          refine (handed item member writing).mono ?_
          rintro (why | answered) ⟨item', v⟩ handed
          · exact handed.cons_failed.failing fun _ => ⟨why, rfl⟩
          · -- the id is handed out already: whatever the rest does, it only fills in more
            simp only [Editing.Rest]
            refine (Editing.Fills.forEach (fun _ => fills) items v).mono fun r w filled => ?_
            exact handed.cons_failed.goes_on not_failed_ok due (Filled.refl.cons filled)
        · obtain ⟨answered, s₁, e₁, first, stored⟩ := served item member unsaved writing room
          have left : e₁.TagLeft ↔ e.TagLeft :=
            Engine.tagLeft_congr ((stored.last _).trans (if_neg (by decide)))
          have last : e₁.lastId noteBox.entity =
              lastAfter (e.lastId noteBox.entity) ((parts item).map Note.id) := stored.here
          rw [and_iff_right room, or_iff_right unsaved]
          refine first.leads ?_
          simp only [Editing.Rest]
          rw [← last, ← left]
          refine (ih (fun item member => handed item (List.mem_cons_of_mem _ member))
            (fun item member => served item (List.mem_cons_of_mem _ member))
            (fun item member => refused item (List.mem_cons_of_mem _ member))
            stored.writing).mono ?_
          rintro r w handed
          refine handed.cons_same.failing ?_
          rintro ⟨why, rfl⟩
          exact ⟨why, rfl⟩
      · obtain ⟨why, ends⟩ := refused item member writing room
        exact ends.leads (.of_kept .refl rfl fun due => room due.1)

theorem forEach_writeChunk_handed {chunks : List (List Note)} (tagging : store.Tagging base)
    (size : ∀ chunk ∈ chunks, chunk.length ≤ maxIdsPerBlock) (arrays : base.arrays = true)
    (writing : noteBox.Writing base s e) :
    Leads (Editing.forEach (fun _ => noteBox.writeChunk ⟨base.nextHandle, .write⟩) chunks)
      (chunks, store, e) fun r w =>
        Handed (BulkReaches (e.lastId noteBox.entity) chunks) e.TagLeft chunks w.1 (Failed r) := by
  refine Leads.mono (forEach_handed id (fun _ => rfl)
    (fun chunk member _ _ => writeChunk_handed tagging (size chunk member)) ?_ ?_
    (writeChunk_fills (b := noteBox) noteTotal fun _ _ => putRelated_fills) writing) ?_
  · intro chunk member saved s e writing room
    obtain ⟨s', e', ends, stored⟩ := writeChunk_ends (b := noteBox) noteTotal rfl arrays
      (by simpa using size chunk member) (fun note here => quiet_of_saved tagging fun unsaved =>
        saved (List.mem_flatMap.mpr ⟨note, here, unsaved⟩)) writing room
    exact ⟨_, s', e', ends, stored⟩
  · intro chunk member s e writing full
    exact ⟨_, writeChunk_refused (b := noteBox) noteTotal rfl (by simpa using size chunk member)
      writing full⟩
  · intro r w handed
    rwa [List.map_id] at handed

theorem forEach_writeOne_handed (tagging : store.Tagging base)
    (writing : noteBox.Writing base s e) :
    Leads (Editing.forEach (fun _ => noteBox.writeOne ⟨base.nextHandle, .write⟩) notes)
      (notes, store, e) fun r w =>
        Handed (BulkReaches (e.lastId noteBox.entity) (notes.map ([·]))) e.TagLeft notes w.1
          (Failed r) := by
  refine forEach_handed ([·]) (fun note => ?_) (fun note _ => writeOne_handed tagging) ?_ ?_
    (writeOne_fills (b := noteBox) noteTotal fun _ _ => putRelated_fills) writing
  · exact (List.append_nil _).symm
  · intro note _ saved s e writing room
    obtain ⟨assigned, s', e', ends, -, stored⟩ := writeOne_ends (b := noteBox) noteTotal rfl
      (quiet_of_saved tagging saved) writing room
    exact ⟨assigned, s', e', ends, stored⟩
  · intro note _ s e writing full
    exact ⟨_, writeOne_refused (b := noteBox) noteTotal rfl writing full⟩

/-- An id is handed out exactly if the batch, cut as the store cuts it, comes to a tag without
    one. -/
theorem writeMany_handed (tagging : store.Tagging base)
    (size : 0 < store.config.chunkSize ∧ store.config.chunkSize ≤ maxIdsPerBlock)
    (able : store.arrays = base.arrays) (writing : noteBox.Writing base s e) :
    Leads (noteBox.writeMany ⟨base.nextHandle, .write⟩) (notes, store, e) fun r w =>
      Handed (BulkReaches (e.lastId noteBox.entity) (store.cut notes)) e.TagLeft notes w.1
        (Failed r) := by
  refine Leads.bind (Leads.ofStore (StoreM.store_leads fun pool => ?_))
  simp only [Onward]
  cases arrays : store.arrays with
  | true =>
      have cut : Editing.chunked store.config.chunkSize notes notes = store.cut notes := by
        rw [Store.cut, if_pos arrays]
      have bounded : ∀ chunk ∈ store.cut notes, chunk.length ≤ maxIdsPerBlock := by
        intro chunk member
        rw [← cut] at member
        exact Nat.le_trans (Editing.length_of_mem_chunked size.1 chunk member).2 size.2
      have whole : (store.cut notes).flatten = notes := Store.flatten_cut
      simp only [if_true]
      refine Editing.handed_still (Editing.forChunks_leads cut ?_) fun chunks => .pure
      refine (forEach_writeChunk_handed tagging bounded (able.symm.trans arrays) writing).mono ?_
      intro r w handed
      have flat := handed.flatten
      rwa [whole] at flat
  | false =>
      have cut : store.cut notes = notes.map ([·]) := by
        rw [Store.cut, if_neg (by simp [arrays])]
      rw [cut]
      exact Ends.bind Editing.current_ends (forEach_writeOne_handed tagging writing)

end Box

end ObjectStore
