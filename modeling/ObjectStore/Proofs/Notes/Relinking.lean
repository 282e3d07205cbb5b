import ObjectStore.Proofs.Notes.FanOut
import ObjectStore.Proofs.Store.AtOnce

/-! # The tags of a note, stored and linked

What storing the tags of a note comes to if it does not fail. Tags without an id are numbered from
the sequence on, in their order, and stored under their numbers; the note is linked to all its tags
afterwards, and to no others if it was stored before. No other record, sequence or link changes.
-/

namespace ObjectStore

namespace Catalog

/-! ## Numbering -/

/-- The tags with ids: those that have none are numbered from the one after `last`. -/
def numberTags (last : ObjectId) : List Tag → List Tag
  | [] => []
  | tag :: tags =>
    if tag.id = 0 then { tag with id := last + 1 } :: numberTags (last + 1) tags
    else tag :: numberTags last tags

/-- The records of the tags that have no id, under their numbers. -/
def newRecords (last : ObjectId) : List Tag → List (ObjectId × Bytes)
  | [] => []
  | tag :: tags =>
    if tag.id = 0 then (last + 1, tagTotal.record (last + 1) tag) :: newRecords (last + 1) tags
    else newRecords last tags

/-- The number of the last of the tags. -/
def lastNumber (last : ObjectId) (tags : List Tag) : ObjectId :=
  .ofNat (last.toNat + (tags.map Tag.id).count 0)

end Catalog

open Catalog

namespace Catalog

variable {last : ObjectId} {tag : Tag} {tags tags' : List Tag}

theorem lastNumber_cons : lastNumber last (tag :: tags) =
    lastNumber (if tag.id = 0 then last + 1 else last) tags := by
  simp only [lastNumber, List.map_cons, List.count_cons, beq_iff_eq, ← UInt64.toNat_inj]
  split
  · simp only [UInt64.toNat_ofNat', UInt64.toNat_add, UInt64.toNat_one]
    omega
  · rfl

theorem numberTags_append : numberTags last (tags ++ tags') =
    numberTags last tags ++ numberTags (lastNumber last tags) tags' := by
  induction tags generalizing last with
  | nil => simp [numberTags, lastNumber]
  | cons tag tags ih =>
      rw [List.cons_append, numberTags, numberTags, lastNumber_cons]
      split <;> simp [ih]

theorem newRecords_append : newRecords last (tags ++ tags') =
    newRecords last tags ++ newRecords (lastNumber last tags) tags' := by
  induction tags generalizing last with
  | nil => simp [newRecords, lastNumber]
  | cons tag tags ih =>
      rw [List.cons_append, newRecords, newRecords, lastNumber_cons]
      split <;> simp [ih]

theorem numberTags_saved (saved : 0 ∉ tags.map Tag.id) :
    numberTags last tags = tags ∧ newRecords last tags = [] := by
  induction tags with
  | nil => exact ⟨rfl, rfl⟩
  | cons tag tags ih =>
      rw [List.map_cons, List.mem_cons, not_or] at saved
      have carried : tag.id ≠ 0 := Ne.symm saved.1
      obtain ⟨same, none⟩ := ih saved.2
      rw [numberTags, newRecords, if_neg carried, if_neg carried, same]
      exact ⟨rfl, none⟩

theorem mem_newRecords (unsaved : 0 ∈ tags.map Tag.id) :
    last + 1 ∈ (newRecords last tags).map Prod.fst := by
  induction tags with
  | nil => cases unsaved
  | cons tag tags ih =>
      rw [newRecords]
      split
      case isTrue zero => exact List.mem_cons_self
      case isFalse carried =>
        rcases List.mem_cons.mp unsaved with zero | later
        · exact absurd zero.symm carried
        · exact ih later

/-- Tags are numbered as a batch of them would be. -/
theorem ids_numberTags :
    (numberTags last tags).map Tag.id = Box.chunkIds last (tags.map Tag.id) := by
  induction tags generalizing last with
  | nil => rfl
  | cons tag tags ih =>
      rw [numberTags, Box.chunkIds, List.map_cons, Box.assign]
      split
      case isTrue zero =>
        rw [List.map_cons, ih]
        rfl
      case isFalse carried =>
        rw [List.map_cons, ih]
        rfl

theorem names_numberTags : (numberTags last tags).map Tag.name = tags.map Tag.name := by
  induction tags generalizing last with
  | nil => rfl
  | cons tag tags ih =>
      rw [numberTags]
      split <;> simp [ih]

theorem newRecords_unsaved (unsaved : ∀ tag ∈ tags, tag.id = 0) : newRecords last tags =
    (numberTags last tags).map fun tag => (tag.id, tagTotal.record tag.id tag) := by
  induction tags generalizing last with
  | nil => rfl
  | cons tag tags ih =>
      have here : tag.id = 0 := unsaved tag (.head _)
      rw [newRecords, numberTags, if_pos here, if_pos here, List.map_cons,
        ih fun tag member => unsaved tag (.tail _ member)]
      rfl

section Stored

variable {t : Table} {id : ObjectId} (unsaved : ∀ tag ∈ tags, tag.id = 0)
  (room : Box.HasRoom last (tags.map Tag.id))
include unsaved room

theorem ids_numberTags_new : ((numberTags last tags).map Tag.id).Pairwise (· < ·) ∧
    ∀ tag ∈ numberTags last tags, last < tag.id := by
  have new : ∀ id ∈ tags.map Tag.id, id = 0 := by simpa using unsaved
  obtain ⟨ascending, past⟩ := Box.chunkIds_new room new
  rw [← ids_numberTags] at ascending past
  exact ⟨ascending, fun tag member => past tag.id (List.mem_map_of_mem member)⟩

theorem getElem?_newRecords (member : tag ∈ numberTags last tags) :
    (t.insertMany (newRecords last tags))[tag.id]? = some (tagTotal.record tag.id tag) := by
  rw [newRecords_unsaved unsaved]
  refine getElem?_insertMany ?_ (List.mem_map.mpr ⟨tag, member, rfl⟩)
  rw [List.map_map]
  exact (ids_numberTags_new unsaved room).1.imp UInt64.ne_of_lt

theorem getElem?_newRecords_below (below : id ≤ last) :
    (t.insertMany (newRecords last tags))[id]? = t[id]? := by
  refine getElem?_insertMany_other fun listed => ?_
  rw [newRecords_unsaved unsaved, List.map_map] at listed
  obtain ⟨tag, member, rfl⟩ := List.mem_map.mp listed
  exact UInt64.not_le.mpr ((ids_numberTags_new unsaved room).2 tag member) below

end Stored

theorem lastNumber_append : lastNumber last (tags ++ tags') =
    lastNumber (lastNumber last tags) tags' := by
  induction tags generalizing last with
  | nil => simp [lastNumber]
  | cons tag tags ih => rw [List.cons_append, lastNumber_cons, lastNumber_cons, ih]

end Catalog

theorem Plan.ask_run {σ α : Type} {operation : String} {op : Draft → Except Refusal (α × Draft)}
    {w w' : σ × Draft} {a : α} (done : succeeded (Plan.ask operation op w) = some (a, w')) :
    w'.1 = w.1 ∧ op w.2 = .ok (a, w'.2) := by
  unfold Plan.ask at done
  split at done
  case h_1 served =>
    cases done
    exact ⟨rfl, served⟩
  case h_2 => cases done

theorem Plan.succeeded_focus {σ τ α : Type} {part : σ → τ} {fill : σ → τ → σ} {p : Plan τ α}
    {objects : σ} {d : Draft} : succeeded (Plan.focus part fill p (objects, d)) =
      (succeeded (p (part objects, d))).map fun (a, changed, d) => (a, fill objects changed, d) := by
  simp only [Plan.focus]
  rcases p (part objects, d) with ⟨why | a, changed, d⟩ <;> rfl

theorem Box.hasRoom_of_saved {last : ObjectId} {ids : List ObjectId} (saved : 0 ∉ ids) :
    Box.HasRoom last ids := by
  have bound := last.toNat_lt
  simp only [HasRoom, List.count_eq_zero_of_not_mem saved, Engine.maxId]
  omega

namespace Draft

variable {d d' d₁ : Draft} {source : ObjectId} {tags tags' : List Tag} {P Q : ObjectId → Prop}

/-- A draft in which some tags were stored, whatever else of it are links. -/
structure TagsStored (d : Draft) (tags : List Tag) (d' : Draft) : Prop where
  room : Box.HasRoom (d.lastId tagBox.entity) (tags.map Tag.id)
  table (entity : EntityId) : d'.view.table entity =
    if tagBox.entity = entity then
      (d.view.table entity).insertMany (newRecords (d.lastId tagBox.entity) tags)
    else d.view.table entity
  last (entity : EntityId) : d'.lastId entity =
    if tagBox.entity = entity then lastNumber (d.lastId entity) tags else d.lastId entity

theorem tagsStored_nil : d.TagsStored [] d where
  room := Box.hasRoom_of_saved (by simp)
  table entity := by simp [newRecords]
  last entity := by simp [lastNumber]

theorem TagsStored.append (first : d.TagsStored tags d₁) (rest : d₁.TagsStored tags' d') :
    d.TagsStored (tags ++ tags') d' where
  room := by
    have later := rest.room
    rw [first.last, if_pos rfl] at later
    rw [List.map_append]
    exact Box.hasRoom_append.mpr ⟨first.room, later⟩
  table entity := by
    rw [rest.table, first.last, if_pos rfl, first.table, newRecords_append]
    split
    · rw [Std.ExtTreeMap.insertMany_append]
    · rfl
  last entity := by
    rw [rest.last, first.last]
    split
    · rw [lastNumber_append]
    · rfl

/-- A draft in which some tags were stored, and the links of a source changed. -/
structure Tagged (d : Draft) (source : ObjectId) (tags : List Tag) (links : ObjectId → Prop)
    (d' : Draft) : Prop extends d.TagsStored tags d' where
  targets (relation : RelationId) (source' target : ObjectId) :
    target ∈ d'.view.targets relation source' ↔
      if noteTags.id = relation ∧ source = source' then links target
      else target ∈ d.view.targets relation source'

theorem Tagged.append (first : d.Tagged source tags P d₁) (rest : d₁.Tagged source tags' Q d') :
    d.Tagged source (tags ++ tags') Q d' where
  toTagsStored := first.toTagsStored.append rest.toTagsStored
  targets relation source' target := by
    rw [rest.targets]
    split
    · rfl
    · rw [first.targets, if_neg ‹_›]

theorem Tagged.congr (h : d.Tagged source tags P d') (same : ∀ id, P id ↔ Q id) :
    d.Tagged source tags Q d' where
  toTagsStored := h.toTagsStored
  targets relation source' target := by rw [h.targets, same]

theorem targets_stored {entity : EntityId} {entries : List (ObjectId × Bytes)} {last : ObjectId}
    {relation : RelationId} :
    (d.stored entity entries last).view.targets relation source = d.view.targets relation source :=
  Snapshot.targets_eq_of_links rfl

theorem tagged_nil {P : ObjectId → Prop} (same : ∀ id, P id ↔ id ∈ d.view.targets noteTags.id source) :
    d.Tagged source [] P d where
  toTagsStored := tagsStored_nil
  targets relation source' target := by grind

theorem tagged_saved {tag : Tag} (saved : tag.id ≠ 0) :
    d.Tagged source [tag] (· ∈ d.view.targets noteTags.id source) d where
  room := Box.hasRoom_of_saved (by simpa using saved.symm)
  table entity := by simp [newRecords, saved]
  last entity := by simp [lastNumber, saved]
  targets relation source' target := by grind

theorem tagged_stored {tag : Tag} (unsaved : tag.id = 0)
    (room : Box.HasRoom (d.lastId tagBox.entity) [0]) :
    d.Tagged source [tag] (· ∈ d.view.targets noteTags.id source)
      (d.stored tagBox.entity
        [(d.lastId tagBox.entity + 1, tagTotal.record (d.lastId tagBox.entity + 1) tag)]
        (d.lastId tagBox.entity + 1)) where
  room := by rwa [List.map_singleton, unsaved]
  table entity := by
    rw [view_stored, Snapshot.insertMany_table]
    simp [newRecords, unsaved]
  last entity := by
    rw [stored, lastId_setLastId]
    split
    · subst entity
      simp [lastNumber, unsaved]
    · rfl
  targets relation source' target := by
    rw [targets_stored]
    grind

/-- A draft in which only the links of a source changed. -/
structure Relinked (d : Draft) (source : ObjectId) (links : ObjectId → Prop) (d' : Draft) :
    Prop where
  records : d'.view.records = d.view.records
  sequences : d'.sequences = d.sequences
  targets (relation : RelationId) (source' target : ObjectId) :
    target ∈ d'.view.targets relation source' ↔
      if noteTags.id = relation ∧ source = source' then links target
      else target ∈ d.view.targets relation source'

theorem relinked_of_relPut {base : Engine} {target : ObjectId}
    (done : relPut base noteTags.id source target d = .ok ((), d')) :
    d.Relinked source (fun id => target = id ∨ id ∈ d.view.targets noteTags.id source) d' := by
  unfold relPut linkable at done
  split at done
  case isFalse => cases done
  case isTrue =>
    split at done
    case isTrue => cases done
    case isFalse =>
      cases done
      refine ⟨rfl, rfl, fun relation source' id => ?_⟩
      rw [Snapshot.mem_targets_link]
      grind

theorem relinked_of_relRemove {base : Engine} {target : ObjectId}
    (done : relRemove base noteTags.id source target d = .ok ((), d')) :
    d.Relinked source (fun id => id ∈ d.view.targets noteTags.id source ∧ id ≠ target) d' := by
  unfold relRemove linkable at done
  split at done
  case isFalse => cases done
  case isTrue =>
    cases done
    refine ⟨Snapshot.unlink_records, rfl, fun relation source' id => ?_⟩
    rw [Snapshot.mem_targets_unlink]
    grind

theorem Relinked.refl (same : ∀ id, P id ↔ id ∈ d.view.targets noteTags.id source) :
    d.Relinked source P d :=
  ⟨rfl, rfl, by grind⟩

theorem Relinked.trans (first : d.Relinked source P d₁) (then' : d₁.Relinked source Q d') :
    d.Relinked source Q d' where
  records := then'.records.trans first.records
  sequences := then'.sequences.trans first.sequences
  targets relation source' target := by
    rw [then'.targets]
    split
    · rfl
    · rw [first.targets, if_neg ‹_›]

theorem Relinked.congr (h : d.Relinked source P d') (same : ∀ id, P id ↔ Q id) :
    d.Relinked source Q d' :=
  ⟨h.records, h.sequences, fun relation source' target => by rw [h.targets, same]⟩

theorem Tagged.relinked (first : d.Tagged source tags P d₁) (then' : d₁.Relinked source Q d') :
    d.Tagged source tags Q d' where
  room := first.room
  table entity := by rw [Snapshot.table_eq_of_records then'.records, first.table]
  last entity := by rw [lastId, then'.sequences, ← lastId, first.last]
  targets relation source' target := by
    rw [then'.targets]
    split
    · rfl
    · rw [first.targets, if_neg ‹_›]

end Draft

namespace Binding.Account

theorem putNew_eq {T : Type} {binding : Binding T} {account : binding.Account}
    {total : binding.Total} {entity : EntityDescriptor} {u : Setting} {object : T} {d : Draft}
    (opened : u.store.closed = false) (known : u.base.entities.contains entity.id = true)
    (simple : entity.hasRelations = false) (unsaved : total.idOf object = 0)
    (room : Box.HasRoom (d.lastId entity.id) [0]) :
    account.putObject entity u .put (object, d) =
      (.ok (d.lastId entity.id + 1), total.withId object (d.lastId entity.id + 1),
        d.stored entity.id
          [(d.lastId entity.id + 1, total.record (d.lastId entity.id + 1) object)]
          (d.lastId entity.id + 1)) := by
  have opened : u.opened = .ok () := if_neg (by simp [opened])
  have new : d.lastId entity.id + 1 ≠ 0 :=
    Box.ne_zero_of_mem_chunkIds room (by simp [Box.chunkIds, Box.assign])
  have enough : (d.lastId entity.id).toNat ≠ Engine.maxId := by
    simp only [Box.HasRoom, List.count_singleton_self] at room
    omega
  have drawn : Draft.idForPut u.base entity.id 0 d =
      .ok (d.lastId entity.id + 1, d.setLastId entity.id (d.lastId entity.id + 1)) := by
    simp only [Draft.idForPut, Draft.known, known, if_true, if_neg enough]
  have stored := @put_stored entity u d known _ _ _ (total.record (d.lastId entity.id + 1) object) _
    (.moved (d.lastId entity.id + 1)) rfl new (by simp)
  have carried : binding.id object = .ok 0 := unsaved ▸ total.id_eq object
  simp only [putObject, write, storeUnder, encode, Plan.bind_run, Plan.ofExcept, Plan.read,
    Plan.pure_run, Plan.ask, Plan.edit, opened, carried, drawn, total.made, stored, total.setId_eq, new,
    simple, ne_eq, not_false_eq_true, reduceCtorEq, false_and, if_false, if_true,
    Bool.false_eq_true]

theorem putNew_full {T : Type} {binding : Binding T} {account : binding.Account}
    {total : binding.Total} {entity : EntityDescriptor} {u : Setting} {object : T} {d : Draft}
    (opened : u.store.closed = false) (known : u.base.entities.contains entity.id = true)
    (unsaved : total.idOf object = 0) (full : ¬ Box.HasRoom (d.lastId entity.id) [0]) :
    account.putObject entity u .put (object, d) =
      (.error (.exhausted "id_for_put" entity.id), object, d) := by
  have opened : u.opened = .ok () := if_neg (by simp [opened])
  have carried : binding.id object = .ok 0 := unsaved ▸ total.id_eq object
  have refused := @idForPut_full T entity u object d known 0 full
  simp only [putObject, write, Plan.bind_run, Plan.ofExcept, Plan.read, opened, carried, refused,
    reduceCtorEq, false_and, if_false]

section Tagging

variable {u : Setting} {d d' : Draft} {source target : ObjectId} {tag tag' : Tag}
  {tags tags' : List Tag} {linked linked' : IdSet}

/-- Linking a target that is known takes it off the ids that are linked without being wanted. -/
theorem linkTo_run {T : Type} {object object' : T}
    (below : ∀ target ∈ linked, target ∈ d.view.targets noteTags.id source)
    (done : succeeded ((do
      if linked.contains target then return linked.erase target
      Plan.ask "rel_put" (Draft.relPut u.base noteTags.id source target)
      return linked : Plan T IdSet) (object, d)) = some (linked', object', d')) :
    object' = object ∧ (∀ id, id ∈ linked' ↔ id ∈ linked ∧ id ≠ target) ∧
      d.Relinked source (fun id => target = id ∨ id ∈ d.view.targets noteTags.id source) d' := by
  by_cases wanted : linked.contains target = true
  · rw [if_pos wanted] at done
    cases done
    have known := below target (Std.ExtTreeSet.contains_iff_mem.mp wanted)
    exact ⟨rfl, by grind, .refl (by grind)⟩
  · rw [if_neg wanted, Plan.succeeded_bind, Option.bind_eq_some_iff] at done
    obtain ⟨⟨⟨⟩, object₁, d₁⟩, asked, done⟩ := done
    obtain ⟨rfl, linked⟩ := Plan.ask_run asked
    cases done
    exact ⟨rfl, by grind, Draft.relinked_of_relPut linked⟩

theorem linkTarget_run (tagging : u.store.Tagging u.base)
    (below : ∀ target ∈ linked, target ∈ d.view.targets noteTags.id source)
    (done : succeeded (tagAccount.linkTarget tagBox.descriptor u noteTags source linked (tag, d)) =
      some (linked', tag', d')) :
    [tag'] = numberTags (d.lastId tagBox.entity) [tag] ∧
      (∀ id, id ∈ linked' ↔ id ∈ linked ∧ id ≠ tag'.id) ∧
      d.Tagged source [tag]
        (fun id => tag'.id = id ∨ id ∈ d.view.targets noteTags.id source) d' := by
  have carried : tagBinding.id tag = .ok tag.id := rfl
  rw [linkTarget, Plan.succeeded_bind, Plan.read_run, carried, succeeded_ok, Option.bind_some]
    at done
  by_cases unsaved : tag.id = 0
  · rw [if_pos unsaved, Plan.succeeded_bind] at done
    by_cases room : Box.HasRoom (d.lastId tagBox.entity) [0]
    · have put := @putNew_eq _ _ tagAccount tagTotal tagBox.descriptor u tag d tagging.opened
        tagging.tags rfl unsaved room
      rw [put, succeeded_ok, Option.bind_some] at done
      obtain ⟨rfl, rest, linked⟩ := linkTo_run
        (fun target member => by rw [Draft.targets_stored]; exact below target member) done
      refine ⟨?_, rest, ((Draft.tagged_stored unsaved room).relinked linked).congr fun id => ?_⟩
      · rw [numberTags, if_pos unsaved]
        rfl
      · rw [Draft.targets_stored]
        rfl
    · have full := @putNew_full _ _ tagAccount tagTotal tagBox.descriptor u tag d tagging.opened
        tagging.tags unsaved room
      rw [full] at done
      cases done
  · rw [if_neg unsaved, Plan.succeeded_bind, Plan.pure_run, succeeded_ok, Option.bind_some] at done
    obtain ⟨rfl, rest, linked⟩ := linkTo_run below done
    exact ⟨by simp [numberTags, unsaved], rest, (Draft.tagged_saved unsaved).relinked linked⟩

theorem succeeded_linkTargets :
    succeeded (tagAccount.linkTargets tagBox.descriptor u noteTags source linked (tag :: tags, d)) =
      (succeeded (tagAccount.linkTarget tagBox.descriptor u noteTags source linked (tag, d))).bind
        fun (linked, tag, d) =>
          (succeeded (tagAccount.linkTargets tagBox.descriptor u noteTags source linked (tags, d))).map
            fun (linked, tags, d) => (linked, tag :: tags, d) := by
  simp only [linkTargets, linkTargets.go]
  rcases tagAccount.linkTarget tagBox.descriptor u noteTags source linked (tag, d) with
    ⟨why | linked, tag, d⟩
  · rfl
  · simp only [succeeded_ok, Option.bind_some]
    rcases linkTargets.go tagAccount tagBox.descriptor u noteTags source linked tags d with
      ⟨why | linked, tags, d⟩ <;> rfl

theorem linkTargets_run (tagging : u.store.Tagging u.base)
    (below : ∀ target ∈ linked, target ∈ d.view.targets noteTags.id source)
    (done : succeeded (tagAccount.linkTargets tagBox.descriptor u noteTags source linked (tags, d)) =
      some (linked', tags', d')) :
    tags' = numberTags (d.lastId tagBox.entity) tags ∧
      (∀ id, id ∈ linked' ↔ id ∈ linked ∧ id ∉ tags'.map Tag.id) ∧
      d.Tagged source tags
        (fun id => id ∈ tags'.map Tag.id ∨ id ∈ d.view.targets noteTags.id source) d' := by
  induction tags generalizing linked d linked' tags' d' with
  | nil =>
      cases done
      exact ⟨rfl, by simp, Draft.tagged_nil (by simp)⟩
  | cons tag tags ih =>
      rw [succeeded_linkTargets, Option.bind_eq_some_iff] at done
      obtain ⟨⟨linked₁, tag₁, d₁⟩, first, done⟩ := done
      obtain ⟨⟨linked₂, tags₂, d₂⟩, rest, same⟩ := Option.map_eq_some_iff.mp done
      cases same
      obtain ⟨numbered, left, stored⟩ := linkTarget_run tagging below first
      have below₁ : ∀ target ∈ linked₁, target ∈ d₁.view.targets noteTags.id source := by
        intro target member
        rw [stored.targets, if_pos ⟨rfl, rfl⟩]
        exact .inr (below target ((left target).mp member).1)
      obtain ⟨rfl, left', stored'⟩ := ih below₁ rest
      have last : d₁.lastId tagBox.entity = lastNumber (d.lastId tagBox.entity) [tag] := by
        rw [stored.last, if_pos rfl]
      refine ⟨?_, ?_, ?_⟩
      · rw [← List.singleton_append (l := tags), numberTags_append, ← last, ← numbered,
          List.singleton_append]
      · intro id
        rw [left', left, List.map_cons, List.mem_cons]
        grind
      · refine (stored.append stored').congr fun id => ?_
        rw [stored.targets, if_pos ⟨rfl, rfl⟩, List.map_cons, List.mem_cons]
        grind

theorem unlinkAll_run {T : Type} {object object' : T} {unwanted : List ObjectId}
    (done : succeeded ((unwanted.forM fun target =>
      Plan.ask "rel_remove" (Draft.relRemove u.base noteTags.id source target) : Plan T Unit)
        (object, d)) = some ((), object', d')) :
    object' = object ∧ d.Relinked source
      (fun id => id ∈ d.view.targets noteTags.id source ∧ id ∉ unwanted) d' := by
  induction unwanted generalizing d with
  | nil =>
      cases done
      exact ⟨rfl, .refl (by simp)⟩
  | cons target unwanted ih =>
      rw [List.forM, Plan.succeeded_bind, Option.bind_eq_some_iff] at done
      obtain ⟨⟨⟨⟩, object₁, d₁⟩, asked, done⟩ := done
      obtain ⟨rfl, removed⟩ := Plan.ask_run asked
      have first := Draft.relinked_of_relRemove removed
      obtain ⟨same, rest⟩ := ih done
      refine ⟨same, (first.trans rest).congr fun id => ?_⟩
      rw [first.targets, if_pos ⟨rfl, rfl⟩, List.mem_cons]
      grind

/-- Replacing the links of a source, if it does not fail, stores the targets that have no id and
    leaves links to all of them, and to no others if the source was stored. -/
theorem replaceLinks_run {targets' : Option (List Tag)} {stored : ObjectId}
    (tagging : u.store.Tagging u.base) (same : stored ≠ 0 → stored = source)
    (done : succeeded (tagAccount.replaceLinks u noteTags source stored (some tags, d)) =
      some ((), targets', d')) :
    targets' = some (numberTags (d.lastId tagBox.entity) tags) ∧
      d.Tagged source tags (fun id =>
        id ∈ (numberTags (d.lastId tagBox.entity) tags).map Tag.id ∨
          stored = 0 ∧ id ∈ d.view.targets noteTags.id source) d' := by
  have registered : u.store.registered tagBinding.name = .ok tagBox.descriptor := by
    simp [Store.registered, tagging.opened, tagging.bound]
  rw [replaceLinks, Plan.succeeded_bind, Plan.read_run, succeeded_ok, Option.bind_some] at done
  -- what the source is linked to, if it is stored
  obtain ⟨linked, known, rest⟩ : ∃ linked : List ObjectId,
      (∀ id, id ∈ linked ↔ stored ≠ 0 ∧ id ∈ d.view.targets noteTags.id source) ∧
      succeeded ((do
        let entity ← Plan.ofExcept (u.store.registered tagBinding.name)
        let unwanted ← Plan.focus (fun targets => targets.getD []) (fun _ targets => some targets)
          (tagAccount.linkTargets entity u noteTags source (.ofList linked))
        unwanted.toList.forM fun target =>
          Plan.ask "rel_remove" (Draft.relRemove u.base noteTags.id source target) :
        Plan (Option (List Tag)) Unit) (some tags, d)) = some ((), targets', d') := by
    by_cases new : stored = 0
    · rw [if_pos new] at done
      exact ⟨[], by simp [new], done⟩
    · rw [if_neg new, Plan.succeeded_bind, Option.bind_eq_some_iff] at done
      obtain ⟨⟨linked, object₁, d₁⟩, asked, rest⟩ := done
      obtain ⟨rfl, read⟩ := Plan.ask_run asked
      rw [same new] at read
      unfold Draft.relGetIds Draft.linkable at read
      split at read
      case isFalse => cases read
      case isTrue =>
        cases read
        exact ⟨_, by simp [new, Std.ExtTreeSet.mem_toList], rest⟩
  rw [registered, Plan.succeeded_bind] at rest
  have opened : succeeded (Plan.ofExcept (.ok tagBox.descriptor) (some tags, d)) =
      some (tagBox.descriptor, some tags, d) := rfl
  rw [opened, Option.bind_some, Plan.succeeded_bind, Plan.succeeded_focus, Option.bind_map,
    Option.bind_eq_some_iff] at rest
  obtain ⟨⟨unwanted, tags₁, d₁⟩, numbered, removed⟩ := rest
  have below : ∀ target ∈ Std.ExtTreeSet.ofList linked,
      target ∈ d.view.targets noteTags.id source := by
    intro target member
    exact ((known target).mp (by simpa using member)).2
  obtain ⟨rfl, left, tagged⟩ := linkTargets_run tagging below numbered
  obtain ⟨rfl, relinked⟩ := unlinkAll_run removed
  refine ⟨rfl, (tagged.relinked relinked).congr fun id => ?_⟩
  rw [tagged.targets, if_pos ⟨rfl, rfl⟩, Std.ExtTreeSet.mem_toList, left, Std.ExtTreeSet.mem_ofList,
    List.contains_iff_mem, known, Option.getD_some]
  grind

end Tagging

end Binding.Account

namespace Catalog

variable {u : Setting} {d d' : Draft} {id : ObjectId} {note note' : Note} {tags : List Tag}

theorem related_eq : noteAccount.related u id (note, d) =
    (if note.tags.isSome then
      Plan.focus Note.tags (fun note tags => { note with tags })
        (tagAccount.replaceLinks u noteTags id note.id)
    else pure () : Plan Note Unit) (note, d) := rfl

theorem related_unloaded (unloaded : note.tags = none) :
    succeeded (noteAccount.related u id (note, d)) = some ((), note, d) := by
  have absent : ¬ note.tags.isSome = true := by simp [unloaded]
  rw [related_eq, if_neg absent]
  rfl

theorem related_run (tagging : u.store.Tagging u.base) (same : note.id ≠ 0 → note.id = id)
    (loaded : note.tags = some tags)
    (done : succeeded (noteAccount.related u id (note, d)) = some ((), note', d')) :
    note' = { note with tags := some (numberTags (d.lastId tagBox.entity) tags) } ∧
      d.Tagged id tags (fun target =>
        target ∈ (numberTags (d.lastId tagBox.entity) tags).map Tag.id ∨
          note.id = 0 ∧ target ∈ d.view.targets noteTags.id id) d' := by
  have present : note.tags.isSome = true := by simp [loaded]
  rw [related_eq, if_pos present, Plan.succeeded_focus, loaded] at done
  obtain ⟨⟨⟨⟩, targets, d₁⟩, replaced, whole⟩ := Option.map_eq_some_iff.mp done
  cases whole
  obtain ⟨rfl, tagged⟩ := Binding.Account.replaceLinks_run tagging same replaced
  exact ⟨rfl, tagged⟩

theorem related_tagged (tagging : u.store.Tagging u.base) (same : note.id ≠ 0 → note.id = id)
    (done : succeeded (noteAccount.related u id (note, d)) = some ((), note', d')) :
    note' = { note with tags := note.tags.map (numberTags (d.lastId tagBox.entity)) } ∧
      d.Tagged id (note.tags.getD []) (fun target =>
        target ∈ note'.tagIds ∨
          (note.tags = none ∨ note.id = 0) ∧ target ∈ d.view.targets noteTags.id id) d' := by
  cases loaded : note.tags with
  | none =>
      rw [related_unloaded loaded] at done
      cases done
      refine ⟨by rw [Option.map_none, ← loaded], Draft.tagged_nil fun target => ?_⟩
      simp [Note.tagIds, loaded]
  | some tags =>
      obtain ⟨rfl, tagged⟩ := related_run tagging same loaded done
      refine ⟨rfl, tagged.congr fun target => ?_⟩
      simp [Note.tagIds]

end Catalog

end ObjectStore
