import ObjectStore.Proofs.Keys.Runs
import ObjectStore.Proofs.Notes.Batches
import ObjectStore.Proofs.Store.Retuned

/-! # New notes are read back with their tags

Notes that are put for the first time, with tags that are new as well, are read back as they stand
after the call, each with its tags in their order. The links of a note are read by ascending id, and
that is the order of its tags because they were numbered in order.
-/

namespace ObjectStore

open Catalog

/-! ## What is stored -/

namespace Catalog

variable {u : Setting} {d d' : Draft} {notes notes' : List Note} {assigned : List Box.Assigned}

/-- A batch of unsaved notes that is stored at once is stored under new ids. -/
theorem batched_of_atOnce (tagging : u.store.Tagging u.base) (reached : d.Reached)
    (unsaved : ∀ note ∈ notes, Unsaved note)
    (done : noteAccount.atOnce noteTotal noteBox.descriptor u notes d =
      some (assigned, notes', d')) :
    d.view.Batched (noteTotal.given assigned notes') d'.view ∧
      (noteTotal.given assigned notes').map Note.id = assigned.map Box.Assigned.id ∧
      (noteTotal.given assigned notes').map Note.content = notes.map Note.content := by
  obtain ⟨room, records, changed, d₁, encoded, same⟩ := Binding.Account.atOnce_eq_some done
  cases same
  have new : ∀ id ∈ notes.map Note.id, id = 0 := by
    intro id member
    obtain ⟨note, listed, rfl⟩ := List.mem_map.mp member
    exact (unsaved note listed).id
  have even : (Box.chunkIds (d.lastId noteBox.entity) (notes.map Note.id)).length =
      notes.length := by
    simp [Box.chunkIds]
  obtain ⟨rfl, rfl, filed⟩ := encodeAll_run tagging (fun note member => (unsaved note member).id)
    even encoded
  obtain ⟨ascending, past⟩ := Box.chunkIds_new room new
  have same : (Box.chunkIds (d.lastId noteBox.entity) (notes.map Note.id)).length =
      (numberNotes (d.lastId tagBox.entity) notes).length := by
    rw [even, length_numberNotes]
  have given : noteTotal.given
      (Box.assign (d.lastId noteBox.descriptor.id + 1) (notes.map noteTotal.idOf))
      (numberNotes (d.lastId tagBox.entity) notes) =
        underIds (Box.chunkIds (d.lastId noteBox.entity) (notes.map Note.id))
          (numberNotes (d.lastId tagBox.entity) notes) := by
    rw [Binding.Total.given_eq_zipWith, List.zipWith_comm]
    · rfl
    · simp [length_numberNotes]
    · intro a note member old
      have fresh := Box.fresh_of_mem_assign new (List.of_mem_zip member).1
      rw [old] at fresh
      cases fresh
  have batched := @Draft.Filed.batched _ _ _ _
    (.ofNat ((d.lastId noteBox.entity).toNat + (notes.map Note.id).count 0)) filed reached unsaved
    even ascending past
  rw [← noteTotal.zip_records] at batched
  rw [given, map_id_underIds same, content_underIds same, content_numberNotes]
  exact ⟨batched, rfl, rfl⟩

end Catalog

/-! ## What is read -/

namespace Snapshot.Batched

variable {s s' : Snapshot} {batch : List Note} {note : Note} {tag : Tag}
  (batched : s.Batched batch s') (keyed : Keyed s')
include batched keyed

theorem objectOf?_tag (member : note ∈ batch) (listed : tag ∈ note.tags.getD []) :
    tagBox.objectOf? s' tag.id = some tag := by
  have found := batched.tags note member tag listed
  have short := keyed.short _ _ _ found
  have encoded : Record.encode tag.id tag.body = .ok (tagTotal.record tag.id tag) :=
    Record.encode_eq_ok.mpr ⟨tagTotal.plain tag tag.id, rfl⟩
  rw [Box.objectOf?, found, Option.bind_some, Tag.decode_of_fits (Record.fits_of_encode encoded short)]
  rfl

theorem objectOf?_note (member : note ∈ batch) :
    noteBox.objectOf? s' note.id = some { note with tags := none } := by
  have found := batched.stored note member
  have short := keyed.short _ _ _ found
  have encoded : Record.encode note.id note.body = .ok (noteTotal.record note.id note) :=
    Record.encode_eq_ok.mpr ⟨noteTotal.plain note note.id, rfl⟩
  rw [Box.objectOf?, found, Option.bind_some,
    Note.decode_of_fits (Record.fits_of_encode encoded short)]
  rfl

theorem tagsOf_note (member : note ∈ batch) : tagsOf s' note.id = note.tags.getD [] := by
  have order : (s'.targets noteTags.id note.id).toList = note.tagIds := by
    refine Snapshot.pairwise_targets.eq_of_mem_iff (batched.ascending note member) fun target => ?_
    rw [Std.ExtTreeSet.mem_toList, batched.linked note member]
  have each : ∀ tag ∈ note.tags.getD [], tagBox.objectOf? s' tag.id = some tag :=
    fun tag listed => batched.objectOf?_tag keyed member listed
  rw [tagsOf, order, Note.tagIds, List.filterMap_map]
  exact (List.filterMap_congr each).trans (List.filterMap_some)

theorem withTags_note (member : note ∈ batch) :
    (noteBox.objectOf? s' note.id).map (withTags s') = some note := by
  rw [batched.objectOf?_note keyed member, Option.map_some, withTags, batched.tagsOf_note keyed member]
  cases tags : note.tags with
  | none => exact absurd tags (batched.loaded note member)
  | some tags' =>
      rw [Option.getD_some, ← tags]

theorem read_batch :
    ((batch.map Note.id).filterMap (noteBox.objectOf? s')).map (withTags s') = batch := by
  have each : ∀ note ∈ batch, (noteBox.objectOf? s' note.id).map (withTags s') = some note :=
    fun note member => batched.withTags_note keyed member
  rw [List.filterMap_map, List.map_filterMap]
  exact (List.filterMap_congr each).trans List.filterMap_some

theorem keyed_before : Keyed s where
  written entity id record found := keyed.written entity id record (batched.kept _ _ _ found)
  short entity id record found := keyed.short entity id record (batched.kept _ _ _ found)
  nonzero entity id record found := keyed.nonzero entity id record (batched.kept _ _ _ found)

omit keyed in
theorem tagsOf_before {id : ObjectId} (listed : id ∈ s.ids noteBox.entity) :
    tagsOf s' id = tagsOf s id := by
  have order : (s'.targets noteTags.id id).toList = (s.targets noteTags.id id).toList := by
    refine Snapshot.pairwise_targets.eq_of_mem_iff Snapshot.pairwise_targets fun target => ?_
    rw [Std.ExtTreeSet.mem_toList, Std.ExtTreeSet.mem_toList, batched.keptLinks id listed]
  rw [tagsOf, tagsOf, order]
  refine List.filterMap_congr fun target linked => ?_
  rw [Box.objectOf?, Box.objectOf?,
    batched.keptTags id listed target (Std.ExtTreeSet.mem_toList.mp linked)]

theorem read_before :
    ((s.ids noteBox.entity).filterMap (noteBox.objectOf? s')).map (withTags s') =
      ((s.ids noteBox.entity).filterMap (noteBox.objectOf? s)).map (withTags s) := by
  rw [List.map_filterMap, List.map_filterMap]
  refine List.filterMap_congr fun id listed => ?_
  obtain ⟨record, note, found, decoded, is, carried, -⟩ :=
    (batched.keyed_before keyed).objectOf .note (Snapshot.mem_ids.mp listed)
  have still : noteBox.objectOf? s' id = some note := by
    rw [Box.objectOf?, batched.kept _ _ _ found, Option.bind_some, decoded]
    rfl
  obtain rfl : note.id = id := Except.ok.inj carried
  rw [is, still, Option.map_some, Option.map_some, withTags, withTags,
    batched.tagsOf_before listed]

theorem read_all :
    ((s'.ids noteBox.entity).filterMap (noteBox.objectOf? s')).map (withTags s') =
      ((s.ids noteBox.entity).filterMap (noteBox.objectOf? s)).map (withTags s) ++ batch := by
  rw [batched.listed, List.filterMap_append, List.map_append, batched.read_before keyed,
    batched.read_batch keyed]

theorem saved (member : note ∈ batch) : note.id ≠ 0 ∧ 0 ∉ note.tagIds := by
  refine ⟨keyed.nonzero _ _ _ (batched.stored note member), fun unsaved => ?_⟩
  obtain ⟨tag, listed, zero⟩ := List.mem_map.mp unsaved
  exact keyed.nonzero _ _ _ (batched.tags note member tag listed) zero

end Snapshot.Batched

/-! ## Puts -/

namespace Box

variable {T : Type} {b : Box T} {total : b.binding.Total} {account : b.binding.Account}
  {object : T} {store : Store} {e : Engine}

theorem bulk_eq_some {objects objects' : List T} {ids : List ObjectId} {e' : Engine}
    (done : bulk total account store e objects = some (ids, objects', e')) :
    objects = [] ∧ ids = [] ∧ objects' = [] ∧ e' = e ∨
      ∃ assigned changed d, account.atOnce total b.descriptor (setting store e) objects
          (e.draft e.committed) = some (assigned, changed, d) ∧
        ids = assigned.map Assigned.id ∧ objects' = total.given assigned changed ∧
        e' = e.published d := by
  unfold bulk at done
  split at done
  case isTrue none =>
    cases done
    exact .inl ⟨none, rfl, rfl, rfl⟩
  case isFalse =>
    split at done
    case isFalse => cases done
    case isTrue =>
      obtain ⟨⟨assigned, changed, d⟩, atOnce, same⟩ := Option.map_eq_some_iff.mp done
      cases same
      exact .inr ⟨assigned, changed, d, atOnce, rfl, rfl, rfl⟩

theorem writeOne_of_write {u : Setting} {d d' : Draft} {id : ObjectId} {object' : T}
    (done : succeeded (account.write b.descriptor u (total.idOf object) .put (object, d)) =
      some (id, object', d')) :
    succeeded (account.writeOne b.descriptor u (object, d)) =
      some (⟨id, id ≠ total.idOf object⟩, object', d') := by
  rw [Binding.Account.writeOne, Plan.succeeded_bind, Plan.read_run, total.id_eq, succeeded_ok,
    Option.bind_some, Plan.succeeded_bind, done]
  rfl

theorem put_atOnce (opened : store.closed = false) (exclusive : e.Exclusive)
    (known : e.entities.contains b.entity = true)
    (relations : b.descriptor.hasRelations = true) (apart : account.Apart b.entity (setting store e))
    (settled : Binding.Account.Settled total b.entity [object] (e.draft e.committed)) :
    Leads (b.put none) (object, store, e) fun r w => ∀ id, r = .ok id →
      ∃ assigned objects d, account.atOnce total b.descriptor (setting store e) [object]
          (e.draft e.committed) = some (assigned, objects, d) ∧
        assigned.map Assigned.id = [id] ∧ total.given assigned objects = [w.1] ∧
        w.2 = (store, e.published d) := by
  unfold put putObject
  apply Ends.bind (Ends.ofStore (StoreM.ensureOpen_ends opened))
  apply Ends.bind (currentId_ends total)
  rw [if_neg (fun update => PutMode.noConfusion update.1), if_pos ⟨rfl, relations⟩]
  by_cases free : e.writer = none
  · have written := @Binding.Account.writeOne_atOnce _ _ account total b.descriptor
      (setting store e) object _ known apart settled
    have computes := @Binding.Account.write_computes _ _ account b.descriptor (setting store e)
      (total.idOf object) .put
    have ran := @Store.runIn_computes _ _ store e object
      (fun txn => b.write (some txn) (total.idOf object) .put) _ opened exclusive free computes
    apply ran.onward
    · rintro id ⟨object₁, store₁, e₁⟩ done
      obtain ⟨⟨id', object₂, d⟩, stored, same⟩ := Option.map_eq_some_iff.mp done.symm
      cases same
      rw [writeOne_of_write stored] at written
      dsimp only
      by_cases carried : id = total.idOf object
      · rw [if_neg (not_not_intro carried)]
        apply Leads.pure
        rintro _ ⟨⟩
        exact ⟨_, _, d, written.symm, rfl, by simp [Binding.Total.given, carried], rfl⟩
      · rw [if_pos carried]
        apply Ends.bind (assignId_ends total)
        apply Leads.pure
        rintro _ ⟨⟩
        exact ⟨_, _, d, written.symm, rfl, by simp [Binding.Total.given, carried], rfl⟩
    · rintro why w - id ⟨⟩
  · refine Leads.bind (Store.runIn_unbegun opened free ?_)
    rintro why - id ⟨⟩

end Box

/-! ## Stores -/

/-- Every link from a note to a tag keeps to the ids that notes and tags were given. -/
def Engine.LinksReached (e : Engine) : Prop :=
  ∀ source target, target ∈ e.committed.targets noteTags.id source →
    source ≤ e.lastId noteBox.entity ∧ target ≤ e.lastId tagBox.entity

theorem Engine.linksReached_iff {e : Engine} : e.LinksReached ↔
    ∀ row ∈ (e.committed.linkTable noteTags.id).toList, ∀ target ∈ row.2.toList,
      row.1 ≤ e.lastId noteBox.entity ∧ target ≤ e.lastId tagBox.entity := by
  constructor
  · intro linked row listed target member
    have found := Std.ExtTreeMap.mem_toList_iff_getElem?_eq_some.mp listed
    refine linked row.1 target ?_
    rw [Snapshot.targets, Std.ExtTreeMap.getD_eq_getD_getElem?, found]
    exact Std.ExtTreeSet.mem_toList.mp member
  · intro rows source target member
    rw [Snapshot.targets, Std.ExtTreeMap.getD_eq_getD_getElem?] at member
    cases found : (e.committed.linkTable noteTags.id)[source]? with
    | none => simp [found] at member
    | some row =>
        rw [found] at member
        exact rows (source, row) (Std.ExtTreeMap.mem_toList_iff_getElem?_eq_some.mpr found) target
          (Std.ExtTreeSet.mem_toList.mpr member)

instance {e : Engine} : Decidable e.LinksReached :=
  -- targets are looked for in their list, not among all ids
  let _each (row : ObjectId × IdSet) : Decidable (∀ target ∈ row.2.toList,
      row.1 ≤ e.lastId noteBox.entity ∧ target ≤ e.lastId tagBox.entity) :=
    List.decidableBAll _ _
  decidable_of_iff _ Engine.linksReached_iff.symm

theorem Engine.Numbered.reached {e : Engine} (numbered : e.Numbered) (linked : e.LinksReached) :
    (e.draft e.committed).Reached where
  records entity id stored := (numbered.committed entity id stored).2
  sources source target member := (linked source target member).1
  targets source target member := (linked source target member).2

namespace Session

variable {arrays : Bool} {config : Config} {s s' s₀ : Session} {actions : List BoxAction}
  {note note' : Note} {notes notes' batch : List Note} {id : ObjectId} {ids : List ObjectId}

/-- The notes of a batch, which were put on one session, are read back on the next under the ids that
    were answered: as they stand after the call, and after the notes that were there before. -/
structure ReadsBack (s : Session) (notes : List Note) (ids : List ObjectId) (batch : List Note)
    (s' : Session) : Prop where
  carried : batch.map Note.id = ids
  content : batch.map Note.content = notes.map Note.content
  saved : ∀ note ∈ batch, note.id ≠ 0 ∧ 0 ∉ note.tagIds
  existing : ∃ s₁, (noteBox.getManyExisting none ids).run s' = (.ok batch, s₁)
  all : ∃ before s₁ s₂, (noteBox.getAll none).run s = (.ok before, s₁) ∧
    (noteBox.getAll none).run s' = (.ok (before ++ batch), s₂)

/-- Notes that were put on one session and are a batch under their ids on the next. -/
structure Stored (s : Session) (notes : List Note) (ids : List ObjectId) (batch : List Note)
    (s' : Session) : Prop where
  opened : s.store.closed = false
  still : s'.store.closed = false
  batched : s.host.machine.engine.committed.Batched batch s'.host.machine.engine.committed
  carried : batch.map Note.id = ids
  content : batch.map Note.content = notes.map Note.content

section Stored

variable (sound : s.Sound) (linked : s.host.machine.engine.LinksReached)
include sound linked

theorem Sound.atOnce_stored {assigned : List Box.Assigned} {d : Draft}
    (opened : s.store.closed = false) (unsaved : ∀ note ∈ notes, Unsaved note)
    (done : noteAccount.atOnce noteTotal noteBox.descriptor
        (Box.setting s.store s.host.machine.engine) notes
        (s.host.machine.engine.draft s.host.machine.engine.committed) =
      some (assigned, notes', d))
    (still : s'.store = { s.store with pool := s'.store.pool })
    (published : s'.host.machine.engine = s.host.machine.engine.published d) :
    s.Stored notes (assigned.map Box.Assigned.id) (noteTotal.given assigned notes') s' := by
  have tagging := sound.tagging opened
  have here : (Box.setting s.store s.host.machine.engine).store.Tagging
      (Box.setting s.store s.host.machine.engine).base :=
    ⟨opened, tagging.bound, tagging.notes, tagging.tags, tagging.links⟩
  obtain ⟨batched, same, content⟩ :=
    batched_of_atOnce here (sound.numbered.reached linked) unsaved done
  refine ⟨opened, ?_, ?_, same, content⟩
  · rw [still]
    exact opened
  · rw [published]
    exact batched

theorem Sound.putMany_stored (unsaved : ∀ note ∈ notes, Unsaved note)
    (done : (BoxCall.putMany notes).step noteBox s = (.ok ids, notes', s')) :
    s.Stored notes ids notes' s' := by
  cases opened : s.store.closed with
  | true =>
      have refused : Leads ((BoxCall.putMany notes).perform noteBox)
          (notes, s.store, s.host.machine.engine) fun r _ => r = .error .closed :=
        Ends.bind_error (Ends.ofStore (StoreM.ensureOpen_closed opened)) rfl
      obtain ⟨-, -, ended⟩ := BoxCall.step_leads sound.shows refused done
      cases ended
  | false =>
      have new : ∀ note ∈ notes, note.id ≤ s.host.machine.engine.lastId noteBox.entity := by
        intro note member
        rw [(unsaved note member).id]
        exact UInt64.zero_le
      have leads := @Box.putMany_bulk _ noteBox noteTotal noteAccount notes s.store
        s.host.machine.engine opened sound.size sound.able sound.exclusive
        (sound.entities noteBox.descriptor (by decide)) (noteAccount_apart sound.model)
        ⟨new, fun id stored => (sound.numbered.committed noteBox.entity id stored).2⟩
      obtain ⟨store, kept, ended⟩ :=
        @BoxCall.step_leads _ noteBox (.putMany notes) _ _ _ _ _ sound.shows leads done
      rw [succeeded_ok, eq_comm, Option.map_eq_some_iff] at ended
      obtain ⟨⟨ids', objects, e⟩, stored, same⟩ := ended
      simp only [Prod.mk.injEq] at same
      obtain ⟨rfl, rfl, rfl, engine⟩ := same
      rcases Box.bulk_eq_some stored with
        ⟨rfl, rfl, rfl, rfl⟩ | ⟨assigned, changed, d, atOnce, rfl, rfl, rfl⟩
      · have still : s'.store.closed = false := by rw [kept]; exact opened
        exact ⟨opened, still, engine ▸ .nil, rfl, rfl⟩
      · exact sound.atOnce_stored linked opened unsaved atOnce kept engine.symm

theorem Sound.put_stored (unsaved : Unsaved note)
    (done : (BoxCall.put note).step noteBox s = (.ok id, note', s')) :
    s.Stored [note] [id] [note'] s' := by
  cases opened : s.store.closed with
  | true =>
      have refused : Leads ((BoxCall.put note).perform noteBox)
          (note, s.store, s.host.machine.engine) fun r _ => r = .error .closed :=
        Ends.bind_error (Ends.ofStore (StoreM.ensureOpen_closed opened)) rfl
      obtain ⟨-, -, ended⟩ := BoxCall.step_leads sound.shows refused done
      cases ended
  | false =>
      have new : ∀ other ∈ [note], other.id ≤ s.host.machine.engine.lastId noteBox.entity := by
        intro other member
        rw [List.mem_singleton.mp member, unsaved.id]
        exact UInt64.zero_le
      have leads := @Box.put_atOnce _ noteBox noteTotal noteAccount note s.store
        s.host.machine.engine opened sound.exclusive
        (sound.entities noteBox.descriptor (by decide)) rfl (noteAccount_apart sound.model)
        ⟨new, fun id stored => (sound.numbered.committed noteBox.entity id stored).2⟩
      obtain ⟨store, kept, ended⟩ :=
        @BoxCall.step_leads _ noteBox (.put note) _ _ _ _ _ sound.shows leads done
      obtain ⟨assigned, objects, d, atOnce, same, given, ended⟩ := ended id rfl
      simp only [Prod.mk.injEq] at ended
      obtain ⟨rfl, engine⟩ := ended
      have stored := sound.atOnce_stored linked opened
        (fun other member => List.mem_singleton.mp member ▸ unsaved) atOnce kept engine
      rwa [same, given] at stored

end Stored

section Reads

variable (sound : s.Sound) (opened : s.store.closed = false)
  (keyed : Catalog.Keyed s.host.machine.engine.committed)
include sound opened keyed

theorem Sound.selects_notes (selection : Selection)
    (selects : noteBox.selected s.host.machine.engine.committed selection =
      ids.map (s.host.machine.engine.committed.record? noteBox.entity)) :
    ∃ s₁, (Box.reading none fun txn => do
        return (← noteBox.readMany txn selection true).reduceOption : StoreM (List Note)).run s =
      (.ok ((ids.filterMap (noteBox.objectOf? s.host.machine.engine.committed)).map
        (withTags s.host.machine.engine.committed)), s₁) := by
  refine run_of_leads sound.shows (reading_leads (sound.attached opened) sound.exclusive
    (Engine.view_eq_ok.mpr rfl) fun sees => ?_)
  refine Fixture.note.existing_ends keyed sees ?_ selects
  rintro note _ ⟨⟩ nonzero
  exact loads_note keyed sees nonzero

theorem Sound.get_note (found : (noteBox.objectOf? s.host.machine.engine.committed id).map
    (withTags s.host.machine.engine.committed) = some note) :
    ∃ s₁, (noteBox.get none id).run s = (.ok (some note), s₁) := by
  obtain ⟨object, is, loaded⟩ := Option.map_eq_some_iff.mp found
  have stored : s.host.machine.engine.committed.contains noteBox.entity id = true := by
    cases stored : s.host.machine.engine.committed.contains noteBox.entity id with
    | true => rfl
    | false => rw [objectOf?_missing stored] at is; cases is
  obtain ⟨record, note', found, decoded, is', carried, nonzero⟩ := keyed.objectOf .note stored
  obtain rfl : note' = object := Option.some.inj (is'.symm.trans is)
  refine run_of_leads sound.shows (reading_leads (sound.attached opened) sound.exclusive
    (Engine.view_eq_ok.mpr rfl) fun {txn store e} sees => ?_)
  have known : e.entities.contains noteBox.entity = true :=
    sees.entities noteBox.descriptor (by decide)
  have nonzero' : note'.id ≠ 0 := by
    obtain rfl : note'.id = id := Except.ok.inj carried
    exact nonzero
  rw [← loaded]
  exact Box.getIn_ends sees.opened known sees.view found decoded (loads_note keyed sees nonzero')

end Reads

namespace Stored

variable (stored : s.Stored notes ids batch s') (sound : s.Sound) (sound' : s'.Sound)
  (keyed : Catalog.Keyed s'.host.machine.engine.committed)
include stored sound' keyed

theorem get_note (member : note ∈ batch) :
    ∃ s₁, (noteBox.get none note.id).run s' = (.ok (some note), s₁) :=
  sound'.get_note stored.still keyed (stored.batched.withTags_note keyed member)

include sound

theorem readsBack : s.ReadsBack notes ids batch s' where
  carried := stored.carried
  content := stored.content
  saved note member := stored.batched.saved keyed member
  existing := by
    have read := stored.batched.read_batch keyed
    rw [stored.carried] at read
    exact read ▸ sound'.selects_notes stored.still keyed (.ids ids) rfl
  all := by
    obtain ⟨s₁, before⟩ := sound.selects_notes stored.opened (stored.batched.keyed_before keyed) .all
      Snapshot.map_some_recordList
    obtain ⟨s₂, after⟩ :=
      sound'.selects_notes stored.still keyed .all Snapshot.map_some_recordList
    rw [stored.batched.read_all keyed] at after
    exact ⟨_, s₁, s₂, before, after⟩

end Stored

/-- Unsaved notes that are put on a session are read back with their tags, whether they are put as a
    batch or alone. No record may be longer than what fits into memory. -/
structure RoundTrips (s : Session) : Prop where
  batch {notes notes' : List Note} {ids : List ObjectId} {s' : Session} :
    (∀ note ∈ notes, Unsaved note) →
      (BoxCall.putMany notes).step noteBox s = (.ok ids, notes', s') →
      (s'.host.machine.engine.committed.All fun _ _ record => record.length < 2 ^ 64) →
      s.ReadsBack notes ids notes' s'
  single {note note' : Note} {id : ObjectId} {s' : Session} :
    Unsaved note → (BoxCall.put note).step noteBox s = (.ok id, note', s') →
      (s'.host.machine.engine.committed.All fun _ _ record => record.length < 2 ^ 64) →
      s.ReadsBack [note] [id] [note'] s' ∧
        ∃ s₁, (noteBox.get none id).run s' = (.ok (some note'), s₁)

theorem Sound.keyed (sound : s.Sound) (written : s.host.machine.engine.All Written)
    (short : s.host.machine.engine.committed.All fun _ _ record => record.length < 2 ^ 64) :
    Catalog.Keyed s.host.machine.engine.committed where
  written := written.committed
  short := short
  nonzero entity id record found :=
    (sound.numbered.committed entity id (Snapshot.contains_iff.mpr ⟨record, found⟩)).1

/-- On a store that was only used through its boxes, and whose links keep to the ids that were given,
    unsaved notes with unsaved tags are read back with their tags in order. -/
theorem notes_round_trip (opened : fresh arrays config = .ok s₀)
    (through : ∀ action ∈ actions, action.Uses Fixture Bound)
    (linked : (s₀.use actions).host.machine.engine.LinksReached) :
    (s₀.use actions).RoundTrips := by
  obtain ⟨sound, -⟩ := sound_of_use opened through
  have after (call : BoxCall Note) (binds : call.Binds Bound) :
      (call.step noteBox (s₀.use actions)).2.2.Sound ∧
        (call.step noteBox (s₀.use actions)).2.2.host.machine.engine.All Written := by
    have through' : ∀ action ∈ actions ++ [.call noteBox call], action.Uses Fixture Bound := by
      simpa [or_imp, forall_and] using And.intro through ⟨.note, binds⟩
    have used : s₀.use (actions ++ [.call noteBox call]) =
        (call.step noteBox (s₀.use actions)).2.2 := by
      rw [use, List.foldl_append]
      rfl
    exact used ▸ sound_of_use opened through'
  constructor
  case batch =>
    intro notes notes' ids s' unsaved done short
    have stored := sound.putMany_stored linked unsaved done
    obtain ⟨sound', written⟩ := after (.putMany notes) trivial
    rw [done] at sound' written
    exact stored.readsBack sound sound' (sound'.keyed written short)
  case single =>
    intro note note' id s' unsaved done short
    have stored := sound.put_stored linked unsaved done
    obtain ⟨sound', written⟩ := after (.put note) trivial
    rw [done] at sound' written
    have keyed := sound'.keyed written short
    refine ⟨stored.readsBack sound sound' keyed, ?_⟩
    obtain rfl : note'.id = id := List.singleton_inj.mp stored.carried
    exact stored.get_note sound' keyed (.head _)

/-- A note is put with two tags, and one of them is removed again. -/
def tagRun : List BoxAction :=
  [.call noteBox (.put { text := "first", tags := some [{ name := "a" }, { name := "b" }] }),
    .call tagBox (.removeId 1)]

/-- Two notes that are not stored, one of them without tags. -/
def unsavedNotes : List Note :=
  [{ text := "second", tags := some [{ name := "d" }, { name := "c" }] },
    { text := "third", tags := some [] }]

/-- The notes once they are put after such a run. -/
def savedNotes : List Note :=
  [{ id := 2, text := "second", tags := some [⟨3, "d"⟩, ⟨4, "c"⟩] },
    { id := 3, text := "third", tags := some [] }]

/-- Put chunk by chunk, the notes are read back. -/
theorem two_notes_round_trip : ∃ s₀ s', fresh true { chunkSize := 1 } = .ok s₀ ∧
    (s₀.use tagRun).host.machine.engine.LinksReached ∧
    (BoxCall.putMany unsavedNotes).step noteBox (s₀.use tagRun) = (.ok [2, 3], savedNotes, s') ∧
    (s₀.use tagRun).ReadsBack unsavedNotes [2, 3] savedNotes s' := by
  have eval : (fresh true { chunkSize := 1 }).toOption.map (fun s₀ =>
      let ended := (BoxCall.putMany unsavedNotes).step noteBox (s₀.use tagRun)
      (decide (s₀.use tagRun).host.machine.engine.LinksReached, ended.1.toOption, ended.2.1,
        decide (ended.2.2.host.machine.engine.committed.All
          fun _ _ record => record.length < 2 ^ 64))) =
      some (true, some [2, 3], savedNotes, true) := by decide +kernel
  obtain ⟨s₀, opened, seen⟩ := of_eval eval
  simp only [Prod.mk.injEq, decide_eq_true_eq] at seen
  obtain ⟨linked, answered, changed, short⟩ := seen
  have trips : (s₀.use tagRun).RoundTrips := by
    refine notes_round_trip opened ?_ linked
    simp only [tagRun, List.forall_mem_cons]
    exact ⟨⟨.note, trivial⟩, ⟨.tag, trivial⟩, by simp⟩
  have unsaved : ∀ note ∈ unsavedNotes, Unsaved note := by
    simp only [unsavedNotes, List.forall_mem_cons]
    exact ⟨⟨rfl, by simp, by simp⟩, ⟨rfl, by simp, by simp⟩, by simp⟩
  have done : (BoxCall.putMany unsavedNotes).step noteBox (s₀.use tagRun) = (.ok [2, 3],
      savedNotes, ((BoxCall.putMany unsavedNotes).step noteBox (s₀.use tagRun)).2.2) :=
    Prod.ext (ok_of_toOption answered) (Prod.ext changed rfl)
  exact ⟨s₀, _, opened, linked, done, trips.batch unsaved done short⟩

end Session

end ObjectStore
