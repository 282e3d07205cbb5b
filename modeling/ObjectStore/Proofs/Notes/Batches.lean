import ObjectStore.Proofs.Notes.Relinking

/-! # Batches of new notes

The notes of a batch are stored one after another, and the tags of a note right before it. So where
neither notes nor tags are stored yet, the tags are numbered as one list, along the tags of each note
and from note to note, and every note is linked to its own tags.
-/

namespace ObjectStore

open Catalog

namespace Catalog

/-- The tags of several notes, as far as they are loaded. -/
def allTags (notes : List Note) : List Tag :=
  notes.flatMap fun note => note.tags.getD []

/-- The notes with ids for their tags: those that have none are numbered from the one after
    `last`. -/
def numberNotes (last : ObjectId) : List Note → List Note
  | [] => []
  | note :: notes =>
    { note with tags := note.tags.map (numberTags last) } ::
      numberNotes (lastNumber last (note.tags.getD [])) notes

/-- The notes under ids of their own. -/
def underIds (ids : List ObjectId) (notes : List Note) : List Note :=
  List.zipWith (fun id note => { note with id }) ids notes

/-- The text of a note and the names of its tags, in their order. -/
def Note.content (note : Note) : String × Option (List String) :=
  (note.text, note.tags.map (·.map Tag.name))

/-- A note that is not stored, with loaded tags of which none is stored. -/
structure Unsaved (note : Note) : Prop where
  id : note.id = 0
  loaded : note.tags ≠ none
  tags : ∀ tag ∈ note.tags.getD [], tag.id = 0

variable {last : ObjectId} {notes : List Note}

theorem allTags_numberNotes : allTags (numberNotes last notes) = numberTags last (allTags notes) := by
  induction notes generalizing last with
  | nil => rfl
  | cons note notes ih =>
      have tail : allTags (numberNotes last (note :: notes)) =
          numberTags last (note.tags.getD []) ++
            allTags (numberNotes (lastNumber last (note.tags.getD [])) notes) := by
        cases tags : note.tags <;> simp [allTags, numberNotes, tags, numberTags]
      rw [tail, ih, ← numberTags_append]
      rfl

theorem tagIds_numbered {note : Note} :
    ({ note with tags := note.tags.map (numberTags last) } : Note).tagIds =
      (numberTags last (note.tags.getD [])).map Tag.id := by
  cases note.tags <;> simp [Note.tagIds, numberTags]

theorem length_numberNotes : (numberNotes last notes).length = notes.length := by
  induction notes generalizing last with
  | nil => rfl
  | cons note notes ih => simp [numberNotes, ih]

theorem content_numberNotes : (numberNotes last notes).map Note.content = notes.map Note.content := by
  induction notes generalizing last with
  | nil => rfl
  | cons note notes ih =>
      rw [numberNotes, List.map_cons, List.map_cons, ih]
      cases tags : note.tags <;> simp [Note.content, tags, names_numberTags]

theorem mem_numberNotes {note : Note} (member : note ∈ numberNotes last notes) :
    ∃ before ∈ notes, ∃ last', note = { before with tags := before.tags.map (numberTags last') } := by
  induction notes generalizing last with
  | nil => cases member
  | cons first notes ih =>
      rcases List.mem_cons.mp member with rfl | later
      · exact ⟨first, .head _, last, rfl⟩
      · obtain ⟨before, listed, same⟩ := ih later
        exact ⟨before, .tail _ listed, same⟩

section UnderIds

variable {ids : List ObjectId} {note : Note}

theorem mem_underIds : note ∈ underIds ids notes ↔
    ∃ id before, (id, before) ∈ ids.zip notes ∧ note = { before with id } := by
  rw [underIds, ← List.map_uncurry_zip_eq_zipWith, List.mem_map]
  constructor
  · rintro ⟨⟨id, before⟩, member, rfl⟩
    exact ⟨id, before, member, rfl⟩
  · rintro ⟨id, before, member, rfl⟩
    exact ⟨(id, before), member, rfl⟩

variable (even : ids.length = notes.length)
include even

theorem map_id_underIds : (underIds ids notes).map Note.id = ids := by
  rw [underIds, ← List.map_uncurry_zip_eq_zipWith, List.map_map]
  exact List.map_fst_zip (Nat.le_of_eq even)

theorem content_underIds : (underIds ids notes).map Note.content = notes.map Note.content := by
  have second : (ids.zip notes).map Prod.snd = notes := List.map_snd_zip (Nat.le_of_eq even.symm)
  rw [underIds, ← List.map_uncurry_zip_eq_zipWith, List.map_map]
  conv => rhs; rw [← second, List.map_map]
  rfl

end UnderIds

end Catalog

namespace Draft

variable {d d₁ d' : Draft} {ids : List ObjectId} {id : ObjectId} {note : Note} {notes : List Note}

/-- A draft in which the tags of several notes were stored, and the notes were linked to them. -/
structure Filed (d : Draft) (ids : List ObjectId) (notes : List Note) (d' : Draft) : Prop extends
    d.TagsStored (allTags notes) d' where
  targets (relation : RelationId) (source target : ObjectId) :
    target ∈ d'.view.targets relation source ↔
      (noteTags.id = relation ∧
        ∃ note, (source, note) ∈ ids.zip (numberNotes (d.lastId tagBox.entity) notes) ∧
          target ∈ note.tagIds) ∨
      target ∈ d.view.targets relation source

theorem filed_nil : d.Filed [] [] d where
  toTagsStored := tagsStored_nil
  targets relation source target := by simp

theorem Filed.cons {links : ObjectId → Prop} (first : d.Tagged id (note.tags.getD []) links d₁)
    (linked : ∀ target, links target ↔
      target ∈ (numberTags (d.lastId tagBox.entity) (note.tags.getD [])).map Tag.id ∨
        target ∈ d.view.targets noteTags.id id)
    (rest : d₁.Filed ids notes d') : d.Filed (id :: ids) (note :: notes) d' where
  toTagsStored := first.toTagsStored.append rest.toTagsStored
  targets relation source target := by
    rw [rest.targets, first.targets, first.last, if_pos rfl, numberNotes, List.zip_cons_cons]
    simp only [List.mem_cons, Prod.mk.injEq]
    constructor
    · rintro (⟨here, note', member, listed⟩ | before)
      · exact .inl ⟨here, note', .inr member, listed⟩
      · split at before
        case isFalse => exact .inr before
        case isTrue same =>
          obtain ⟨here, rfl⟩ := same
          subst here
          rcases (linked target).mp before with numbered | old
          · exact .inl ⟨rfl, _, .inl ⟨rfl, rfl⟩, tagIds_numbered ▸ numbered⟩
          · exact .inr old
    · rintro (⟨here, note', ⟨rfl, rfl⟩ | member, listed⟩ | old)
      · right
        rw [if_pos ⟨here, rfl⟩]
        exact (linked target).mpr (.inl (tagIds_numbered ▸ listed))
      · exact .inl ⟨here, note', member, listed⟩
      · right
        split
        case isFalse => exact old
        case isTrue same =>
          obtain ⟨here, rfl⟩ := same
          subst here
          exact (linked target).mpr (.inr old)

end Draft

namespace Catalog

variable {u : Setting} {d d' : Draft} {id : ObjectId} {ids : List ObjectId} {record : Bytes}
  {records : List Bytes} {note note' : Note} {notes notes' : List Note}

theorem encode_run (tagging : u.store.Tagging u.base) (unsaved : note.id = 0)
    (done : succeeded (noteAccount.encode noteBox.descriptor u id (note, d)) =
      some (record, note', d')) :
    note' = { note with tags := note.tags.map (numberTags (d.lastId tagBox.entity)) } ∧
      record = noteTotal.record id note' ∧
      ∃ links, d.Tagged id (note.tags.getD []) links d' ∧ ∀ target, links target ↔
        target ∈ (numberTags (d.lastId tagBox.entity) (note.tags.getD [])).map Tag.id ∨
          target ∈ d.view.targets noteTags.id id := by
  have plan : noteAccount.encode noteBox.descriptor u id = (do
      noteAccount.related u id
      Plan.read fun note => Record.made id (noteBinding.body note) : Plan Note Bytes) := rfl
  rw [plan, Plan.succeeded_bind] at done
  obtain ⟨⟨⟨⟩, note₁, d₁⟩, related, written⟩ := Option.bind_eq_some_iff.mp done
  rw [Plan.read_run] at written
  have same : note.id ≠ 0 → note.id = id := fun saved => absurd unsaved saved
  obtain ⟨rfl, tagged⟩ := related_tagged tagging same related
  cases written
  refine ⟨rfl, rfl, _, tagged, fun target => ?_⟩
  rw [tagIds_numbered]
  simp [unsaved]

theorem encodeAll_run (tagging : u.store.Tagging u.base) (unsaved : ∀ note ∈ notes, note.id = 0)
    (even : ids.length = notes.length)
    (done : succeeded (Plan.forEach (noteAccount.encode noteBox.descriptor u) ids (notes, d)) =
      some (records, notes', d')) :
    notes' = numberNotes (d.lastId tagBox.entity) notes ∧
      records = List.zipWith noteTotal.record ids notes' ∧ d.Filed ids notes d' := by
  induction ids generalizing notes d records notes' with
  | nil =>
      obtain rfl : notes = [] := List.length_eq_zero_iff.mp even.symm
      cases done
      exact ⟨rfl, rfl, Draft.filed_nil⟩
  | cons id ids ih =>
      cases notes with
      | nil => cases even
      | cons note notes =>
          rw [Plan.succeeded_forEach] at done
          obtain ⟨⟨record, note₁, d₁⟩, encoded, rest⟩ := Option.bind_eq_some_iff.mp done
          obtain ⟨⟨records₁, notes₁, d₂⟩, others, same⟩ := Option.map_eq_some_iff.mp rest
          cases same
          obtain ⟨rfl, rfl, links, tagged, linked⟩ :=
            encode_run tagging (unsaved note (.head _)) encoded
          obtain ⟨rfl, rfl, filed⟩ := ih (fun note member => unsaved note (.tail _ member))
            (Nat.succ.inj even) others
          rw [tagged.last, if_pos rfl]
          exact ⟨rfl, rfl, .cons tagged linked filed⟩

end Catalog

/-! ## What is stored of a batch -/

/-- A snapshot in which the notes of a batch were stored with their tags: each is there under its id,
    linked to its tags, which are there as well. Nothing that was stored before is lost, and the notes
    before have the tags they had. -/
structure Snapshot.Batched (s : Snapshot) (batch : List Note) (s' : Snapshot) : Prop where
  listed : s'.ids noteBox.entity = s.ids noteBox.entity ++ batch.map Note.id
  loaded : ∀ note ∈ batch, note.tags ≠ none
  ascending : ∀ note ∈ batch, note.tagIds.Pairwise (· < ·)
  stored : ∀ note ∈ batch,
    s'.record? noteBox.entity note.id = some (noteTotal.record note.id note)
  linked : ∀ note ∈ batch, ∀ target,
    target ∈ s'.targets noteTags.id note.id ↔ target ∈ note.tagIds
  tags : ∀ note ∈ batch, ∀ tag ∈ note.tags.getD [],
    s'.record? tagBox.entity tag.id = some (tagTotal.record tag.id tag)
  kept (entity : EntityId) (id : ObjectId) (record : Bytes) :
    s.record? entity id = some record → s'.record? entity id = some record
  keptLinks : ∀ id ∈ s.ids noteBox.entity, ∀ target,
    target ∈ s'.targets noteTags.id id ↔ target ∈ s.targets noteTags.id id
  keptTags : ∀ id ∈ s.ids noteBox.entity, ∀ target ∈ s.targets noteTags.id id,
    s'.record? tagBox.entity target = s.record? tagBox.entity target

theorem Snapshot.Batched.nil {s : Snapshot} : s.Batched [] s where
  listed := by simp
  loaded := by simp
  ascending := by simp
  stored := by simp
  linked := by simp
  tags := by simp
  kept _ _ _ found := found
  keptLinks _ _ _ := .rfl
  keptTags _ _ _ _ := rfl

namespace Draft

variable {d d' : Draft} {ids : List ObjectId} {notes : List Note}

/-- The records of the store, and the links from notes to tags, keep to the ids that were handed
    out. -/
structure Reached (d : Draft) : Prop where
  records : ∀ entity id, d.view.contains entity id = true → id ≤ d.lastId entity
  sources : ∀ source target, target ∈ d.view.targets noteTags.id source →
    source ≤ d.lastId noteBox.entity
  targets : ∀ source target, target ∈ d.view.targets noteTags.id source →
    target ≤ d.lastId tagBox.entity

theorem id_of_mem_allTags (unsaved : ∀ note ∈ notes, Unsaved note) :
    ∀ tag ∈ allTags notes, tag.id = 0 := by
  intro tag member
  obtain ⟨note, listed, here⟩ := List.mem_flatMap.mp member
  exact (unsaved note listed).tags tag here

theorem Filed.ascending {note : Note} (filed : d.Filed ids notes d')
    (unsaved : ∀ note ∈ notes, Unsaved note)
    (listed : note ∈ numberNotes (d.lastId tagBox.entity) notes) :
    note.tagIds.Pairwise (· < ·) := by
  have order := (ids_numberTags_new (id_of_mem_allTags unsaved) filed.room).1
  rw [← allTags_numberNotes, allTags, List.map_flatMap, List.pairwise_flatMap] at order
  exact order.1 note listed

section Stored

variable {last id source target : ObjectId} {note : Note} {tag : Tag} {numbered : List Note}
  {d₂ : Draft} (filed : d.Filed ids notes d')
  (done : d'.stored noteBox.entity (noteTotal.entries ids numbered) last = d₂)
include filed done

theorem Filed.table_stored (entity : EntityId) : d₂.view.table entity =
    if noteBox.entity = entity then
      (d.view.table entity).insertMany (noteTotal.entries ids numbered)
    else if tagBox.entity = entity then
      (d.view.table entity).insertMany (newRecords (d.lastId tagBox.entity) (allTags notes))
    else d.view.table entity := by
  rw [← done, view_stored, Snapshot.insertMany_table, filed.table]
  split
  · rename_i here
    rw [if_neg (here ▸ by decide)]
  · rfl

theorem Filed.tag_kept (unsaved : ∀ note ∈ notes, Unsaved note)
    (given : id ≤ d.lastId tagBox.entity) :
    d₂.view.record? tagBox.entity id = d.view.record? tagBox.entity id := by
  rw [Snapshot.record?, filed.table_stored done, if_neg (by decide), if_pos rfl,
    getElem?_newRecords_below (id_of_mem_allTags unsaved) filed.room given]
  rfl

theorem Filed.note_stored (same : ids.length = numbered.length) (distinct : ids.Nodup)
    (listed : (id, note) ∈ ids.zip numbered) :
    d₂.view.record? noteBox.entity id = some (noteTotal.record id note) := by
  rw [Snapshot.record?, filed.table_stored done, if_pos rfl]
  refine getElem?_insertMany ((noteTotal.map_fst_entries same).symm ▸ distinct) ?_
  rw [Binding.Total.entries, ← List.map_uncurry_zip_eq_zipWith]
  exact List.mem_map.mpr ⟨(id, note), listed, rfl⟩

theorem Filed.kept {entity : EntityId} {record : Bytes} (reached : d.Reached)
    (unsaved : ∀ note ∈ notes, Unsaved note) (same : ids.length = numbered.length)
    (other : ∀ id ∈ d.view.ids noteBox.entity, id ∉ ids)
    (found : d.view.record? entity id = some record) : d₂.view.record? entity id = some record := by
  have stored : d.view.contains entity id = true := Snapshot.contains_iff.mpr ⟨record, found⟩
  by_cases notes : noteBox.entity = entity
  · subst notes
    have unlisted := other id (Snapshot.mem_ids.mpr stored)
    rw [← noteTotal.map_fst_entries same] at unlisted
    rw [Snapshot.record?, filed.table_stored done, if_pos rfl, getElem?_insertMany_other unlisted]
    exact found
  by_cases tags : tagBox.entity = entity
  · subst tags
    rw [filed.tag_kept done unsaved (reached.records _ id stored)]
    exact found
  · rw [Snapshot.record?, filed.table_stored done, if_neg notes, if_neg tags]
    exact found

variable (numbers : numberNotes (d.lastId tagBox.entity) notes = numbered)
include numbers

theorem Filed.mem_targets : target ∈ d₂.view.targets noteTags.id source ↔
    (∃ note, (source, note) ∈ ids.zip numbered ∧ target ∈ note.tagIds) ∨
      target ∈ d.view.targets noteTags.id source := by
  rw [← done, targets_stored, filed.targets, numbers]
  simp

theorem Filed.tag_stored (unsaved : ∀ note ∈ notes, Unsaved note) (listed : note ∈ numbered)
    (here : tag ∈ note.tags.getD []) :
    d₂.view.record? tagBox.entity tag.id = some (tagTotal.record tag.id tag) := by
  rw [Snapshot.record?, filed.table_stored done, if_neg (by decide), if_pos rfl]
  refine getElem?_newRecords (id_of_mem_allTags unsaved) filed.room ?_
  rw [← allTags_numberNotes, numbers]
  exact List.mem_flatMap.mpr ⟨note, listed, here⟩

theorem Filed.mem_targets_new (same : ids.length = numbered.length) (distinct : ids.Nodup)
    (unlinked : target ∉ d.view.targets noteTags.id id) (listed : (id, note) ∈ ids.zip numbered) :
    target ∈ d₂.view.targets noteTags.id id ↔ target ∈ note.tagIds := by
  rw [filed.mem_targets done numbers, or_iff_left unlinked]
  constructor
  · rintro ⟨found, listed', here⟩
    have fst : ((ids.zip numbered).map Prod.fst).Nodup := by
      rwa [List.map_fst_zip (Nat.le_of_eq same)]
    cases List.inj_on_of_nodup_map fst listed listed' rfl
    exact here
  · exact fun here => ⟨note, listed, here⟩

end Stored

/-- Unsaved notes that were filed under new ids are stored once their records are. -/
theorem Filed.batched {last : ObjectId} (filed : d.Filed ids notes d') (reached : d.Reached)
    (unsaved : ∀ note ∈ notes, Unsaved note) (even : ids.length = notes.length)
    (ascending : ids.Pairwise (· < ·)) (past : ∀ id ∈ ids, d.lastId noteBox.entity < id) :
    d.view.Batched (underIds ids (numberNotes (d.lastId tagBox.entity) notes))
      (d'.stored noteBox.entity
        (noteTotal.entries ids (numberNotes (d.lastId tagBox.entity) notes)) last).view := by
  have same : ids.length = (numberNotes (d.lastId tagBox.entity) notes).length := by
    rw [length_numberNotes, even]
  have loaded : ∀ note ∈ numberNotes (d.lastId tagBox.entity) notes, note.tags ≠ none := by
    intro note member
    obtain ⟨original, listed, last', rfl⟩ := mem_numberNotes member
    simpa using (unsaved original listed).loaded
  have ascends : ∀ note ∈ numberNotes (d.lastId tagBox.entity) notes,
      note.tagIds.Pairwise (· < ·) := fun note listed => filed.ascending unsaved listed
  generalize numbers : numberNotes (d.lastId tagBox.entity) notes = numbered at *
  generalize done : d'.stored noteBox.entity (noteTotal.entries ids numbered) last = d₂
  have distinct : ids.Nodup := ascending.imp UInt64.ne_of_lt
  -- a stored id was reached, and the new ones are past it
  have below : ∀ id ∈ d.view.ids noteBox.entity, ∀ new ∈ ids, id < new :=
    fun id stored new member => UInt64.lt_of_le_of_lt
      (reached.records _ id (Snapshot.mem_ids.mp stored)) (past new member)
  have other : ∀ id ∈ d.view.ids noteBox.entity, id ∉ ids :=
    fun id stored new => UInt64.lt_irrefl _ (below id stored id new)
  constructor
  case listed =>
    have keys := noteTotal.map_fst_entries same
    have table := (filed.table_stored done noteBox.entity).trans (if_pos rfl)
    rw [map_id_underIds same, Snapshot.ids_insertMany table, keys]
    · rwa [keys]
    · rwa [keys]
  case loaded =>
    intro note member
    obtain ⟨id, before, listed, rfl⟩ := mem_underIds.mp member
    exact loaded before (List.of_mem_zip listed).2
  case ascending =>
    intro note member
    obtain ⟨id, before, listed, rfl⟩ := mem_underIds.mp member
    exact ascends before (List.of_mem_zip listed).2
  case stored =>
    intro note member
    obtain ⟨id, before, listed, rfl⟩ := mem_underIds.mp member
    have found := filed.note_stored done same distinct listed
    exact found
  case linked =>
    intro note member target
    obtain ⟨id, before, listed, rfl⟩ := mem_underIds.mp member
    have unlinked : target ∉ d.view.targets noteTags.id id := fun old =>
      UInt64.not_le.mpr (past id (List.of_mem_zip listed).1) (reached.sources id target old)
    have linked := filed.mem_targets_new done numbers same distinct unlinked listed
    exact linked
  case tags =>
    intro note member tag here
    obtain ⟨id, before, listed, rfl⟩ := mem_underIds.mp member
    exact filed.tag_stored done numbers unsaved (List.of_mem_zip listed).2 here
  case kept =>
    exact fun entity id record found => filed.kept done reached unsaved same other found
  case keptLinks =>
    intro id stored target
    rw [filed.mem_targets done numbers, or_iff_right]
    rintro ⟨found, listed, -⟩
    exact other id stored (List.of_mem_zip listed).1
  case keptTags =>
    intro id stored target linked
    exact filed.tag_kept done unsaved (reached.targets id target linked)

end Draft

end ObjectStore
