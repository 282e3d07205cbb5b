import Mathlib.Data.List.Sort
import ObjectStore.Engine.Records

/-! # Views of a snapshot

What each change of a snapshot does to its two views, the tables of records and the sets of
targets. Records and links do not meet: a change of the one leaves the other as it was.
-/

namespace ObjectStore

theorem values_eq {β : Type} {t : Std.ExtTreeMap ObjectId β} :
    t.values = t.toList.map Prod.snd := by
  obtain ⟨t⟩ := t
  refine Std.ExtDTreeMap.inductionOn t fun d => ?_
  show d.inner.values = (Std.DTreeMap.Internal.Impl.Const.toList d.inner).map Prod.snd
  rw [Std.DTreeMap.Internal.Impl.values_eq_map_snd,
    Std.DTreeMap.Internal.Impl.Const.toList_eq_toListModel_map]
  simp

section Tables

variable {t : Table} {entries : List (ObjectId × Bytes)} {id : ObjectId} {record : Bytes}

/-- A record that is stored under one of several different ids is found there. -/
theorem getElem?_insertMany (distinct : (entries.map Prod.fst).Nodup)
    (listed : (id, record) ∈ entries) : (t.insertMany entries)[id]? = some record := by
  refine Std.ExtTreeMap.getElem?_insertMany_list_of_mem (Std.compare_eq_iff_eq.mpr rfl) ?_ listed
  rw [List.nodup_iff_pairwise_ne, List.pairwise_map] at distinct
  exact distinct.imp fun other same => other (Std.compare_eq_iff_eq.mp same)

/-- Under other ids a table holds what it held. -/
theorem getElem?_insertMany_other (other : id ∉ entries.map Prod.fst) :
    (t.insertMany entries)[id]? = t[id]? :=
  Std.ExtTreeMap.getElem?_insertMany_list_of_contains_eq_false
    (Bool.eq_false_iff.mpr fun listed => other (List.contains_iff_mem.mp listed))

end Tables

namespace Snapshot

variable {s : Snapshot} {entity entity' : EntityId} {relation relation' : RelationId}
  {id id' source source' target target' : ObjectId}

/-! ## Records -/

theorem table_eq_of_records {s s' : Snapshot} (same : s.records = s'.records) :
    s.table entity = s'.table entity := by
  simp only [table, same]

@[simp] theorem setTable_links {table : Table} : (s.setTable entity table).links = s.links := rfl

@[simp] theorem setTable_table {table : Table} :
    (s.setTable entity table).table entity' =
      if entity = entity' then table else s.table entity' := by
  simp only [setTable, Snapshot.table]
  split
  · have none : table = ∅ := Std.ExtTreeMap.isEmpty_iff.mp ‹_›
    grind
  · grind

theorem setTable_setTable {table table' : Table} :
    (s.setTable entity table).setTable entity table' = s.setTable entity table' := by
  simp only [setTable, mk.injEq, and_true]
  ext other : 1
  grind

/-- The tables of two entity types are set in either order. -/
theorem setTable_comm {table table' : Table} (apart : entity ≠ entity') :
    (s.setTable entity table).setTable entity' table' =
      (s.setTable entity' table').setTable entity table := by
  simp only [setTable, mk.injEq, and_true]
  ext other : 1
  grind

@[simp] theorem insert_links {record : Bytes} : (s.insert entity id record).links = s.links := rfl

@[simp] theorem insert_table {record : Bytes} :
    (s.insert entity id record).table entity' =
      if entity = entity' then (s.table entity').insert id record else s.table entity' := by
  simp only [insert, setTable_table]
  split <;> simp [*]

theorem contains_insert {record : Bytes} :
    (s.insert entity id record).contains entity' id' = true ↔
      entity = entity' ∧ id = id' ∨ s.contains entity' id' = true := by
  simp only [contains, insert_table]
  split <;> grind

@[simp] theorem insertMany_links {entries : List (ObjectId × Bytes)} :
    (s.insertMany entity entries).links = s.links := rfl

@[simp] theorem insertMany_table {entries : List (ObjectId × Bytes)} :
    (s.insertMany entity entries).table entity' =
      if entity = entity' then (s.table entity').insertMany entries else s.table entity' := by
  simp only [insertMany, setTable_table]
  split
  · subst entity'
    exact Std.ExtTreeMap.insertMany_list_eq_foldl.symm
  · rfl

theorem contains_insertMany {entries : List (ObjectId × Bytes)} :
    (s.insertMany entity entries).contains entity' id' = true ↔
      entity = entity' ∧ id' ∈ entries.map Prod.fst ∨ s.contains entity' id' = true := by
  simp only [contains, insertMany_table]
  split
  · simp [*, Std.ExtTreeMap.contains_insertMany_list, or_comm]
  · simp [*]

@[simp] theorem eraseMany_links {ids : List ObjectId} : (s.eraseMany entity ids).links = s.links :=
  rfl

@[simp] theorem eraseMany_table {ids : List ObjectId} :
    (s.eraseMany entity ids).table entity' =
      if entity = entity' then ids.foldl (fun table id => table.erase id) (s.table entity')
      else s.table entity' := by
  simp only [eraseMany, setTable_table]
  split <;> simp [*]

theorem getElem?_eraseAll {ids : List ObjectId} {table : Table} :
    (ids.foldl (fun table id => table.erase id) table)[id]? =
      if id ∈ ids then none else table[id]? := by
  induction ids generalizing table with
  | nil => simp
  | cons first ids ih =>
      simp only [List.foldl_cons, ih, List.mem_cons]
      grind

theorem contains_eraseMany {ids : List ObjectId} :
    (s.eraseMany entity ids).contains entity' id = true ↔
      s.contains entity' id = true ∧ ¬ (entity = entity' ∧ id ∈ ids) := by
  simp only [contains, Std.ExtTreeMap.contains_eq_isSome_getElem?, eraseMany_table]
  split
  · rw [getElem?_eraseAll]
    grind
  · simp [*]

/-! ## Listing -/

theorem pairwise_ids : (s.ids entity).Pairwise (· < ·) :=
  Std.ExtTreeMap.ordered_keys.imp fun less => Std.compare_eq_lt.mp less

theorem mem_ids : id ∈ s.ids entity ↔ s.contains entity id = true := by
  rw [ids, Std.ExtTreeMap.mem_keys, contains, Std.ExtTreeMap.mem_iff_contains]

theorem contains_iff : s.contains entity id = true ↔ ∃ record, s.record? entity id = some record := by
  rw [contains, record?, ← Std.ExtTreeMap.mem_iff_contains, Std.ExtTreeMap.mem_iff_isSome_getElem?,
    Option.isSome_iff_exists]

/-- The records by ascending id are those of the ids. -/
theorem map_some_recordList :
    (s.recordList entity).map some = (s.ids entity).map (s.record? entity) := by
  rw [recordList, values_eq, ids, ← Std.ExtTreeMap.map_fst_toList_eq_keys, List.map_map,
    List.map_map]
  refine List.map_congr_left fun entry member => ?_
  exact (Std.ExtTreeMap.mem_toList_iff_getElem?_eq_some.mp member).symm

/-- Records that are stored past all others are listed behind them. -/
theorem ids_insertMany {s' : Snapshot} {entries : List (ObjectId × Bytes)}
    (table : s'.table entity = (s.table entity).insertMany entries)
    (ascending : (entries.map Prod.fst).Pairwise (· < ·))
    (past : ∀ id ∈ s.ids entity, ∀ new ∈ entries.map Prod.fst, id < new) :
    s'.ids entity = s.ids entity ++ entries.map Prod.fst := by
  refine pairwise_ids.eq_of_mem_iff (List.pairwise_append.mpr ⟨pairwise_ids, ascending, past⟩) ?_
  intro id
  have stored : s'.contains entity id = (s.insertMany entity entries).contains entity id := by
    rw [contains, contains, table, insertMany_table, if_pos rfl]
  rw [mem_ids, stored, contains_insertMany, List.mem_append, mem_ids, or_comm]
  simp

/-- The targets of a source, ascending. -/
theorem pairwise_targets : (s.targets relation source).toList.Pairwise (· < ·) :=
  Std.ExtTreeSet.ordered_toList.imp fun less => Std.compare_eq_lt.mp less

/-! ## Links -/

@[simp] theorem setLinks_records {links : LinkTable} :
    (s.setLinks relation links).records = s.records := rfl

@[simp] theorem setLinks_linkTable {links : LinkTable} :
    (s.setLinks relation links).linkTable relation' =
      if relation = relation' then links else s.linkTable relation' := by
  simp only [setLinks, linkTable]
  split
  · have none : links = ∅ := Std.ExtTreeMap.isEmpty_iff.mp ‹_›
    grind
  · grind

@[simp] theorem link_records : (s.link relation source target).records = s.records := rfl

@[simp] theorem unlink_records : (s.unlink relation source target).records = s.records := by
  simp only [unlink]
  split <;> rfl

@[simp] theorem unlinkSource_records : (s.unlinkSource relation id).records = s.records := by
  simp only [unlinkSource]
  split <;> rfl

theorem foldl_records {α : Type} {change : Snapshot → α → Snapshot}
    (kept : ∀ s a, (change s a).records = s.records) {changes : List α} :
    (changes.foldl change s).records = s.records := by
  induction changes generalizing s with
  | nil => rfl
  | cons a changes ih => rw [List.foldl_cons, ih, kept]

@[simp] theorem unlinkTarget_records : (s.unlinkTarget relation id).records = s.records :=
  foldl_records fun _ _ => unlink_records

@[simp] theorem unlinkObject_records {outgoing incoming : List RelationId} :
    (s.unlinkObject outgoing incoming id).records = s.records := by
  simp only [unlinkObject]
  rw [foldl_records fun _ _ => unlinkTarget_records, foldl_records fun _ _ => unlinkSource_records]

theorem unlinkObjects_records {outgoing incoming : List RelationId} {ids : List ObjectId} :
    (ids.foldl (fun s id => s.unlinkObject outgoing incoming id) s).records = s.records :=
  foldl_records fun _ _ => unlinkObject_records

theorem targets_eq_of_links {s s' : Snapshot} (same : s'.links = s.links) :
    s'.targets relation source = s.targets relation source := by
  rw [targets, targets, linkTable, linkTable, same]

theorem targets_setLinks {links : LinkTable} : (s.setLinks relation links).targets relation' source =
    if relation = relation' then links.getD source ∅ else s.targets relation' source := by
  rw [targets, setLinks_linkTable]
  split <;> rfl

/-- A link is added to those of its source. -/
theorem mem_targets_link : target' ∈ (s.link relation source target).targets relation' source' ↔
    (relation = relation' ∧ source = source' ∧ target = target') ∨
      target' ∈ s.targets relation' source' := by
  rw [link, targets_setLinks, Std.ExtTreeMap.getD_insert]
  grind [targets]

/-- A link is taken off those of its source. -/
theorem mem_targets_unlink : target' ∈ (s.unlink relation source target).targets relation' source' ↔
    target' ∈ s.targets relation' source' ∧
      ¬ (relation = relation' ∧ source = source' ∧ target = target') := by
  unfold unlink
  split
  · rw [targets_setLinks]
    split
    · subst relation'
      split
      case isTrue none =>
        have none := Std.ExtTreeSet.isEmpty_iff.mp none
        rw [Std.ExtTreeMap.getD_erase]
        grind [targets]
      case isFalse =>
        rw [Std.ExtTreeMap.getD_insert]
        grind [targets]
    · grind
  · grind

/-! ## Checks -/

theorem checkPut_eq_ok {mode : PutMode} {stored : Bool} {u : Unit} :
    checkPut mode entity id stored = .ok u ↔
      id ≠ 0 ∧ ((mode = .insert ∨ mode = .putNew) → stored = false) ∧
        (mode = .update → stored = true) := by
  simp only [checkPut]
  split
  · simp [*]
  · cases mode <;> cases stored <;> simp [*]

/-- Nonzero ids pass, if those that have to be new are new and none is there twice. -/
theorem checkPutMany_ok {mode : PutMode} {seen : IdSet} {ids : List ObjectId}
    (nonzero : ∀ id ∈ ids, id ≠ 0) (known : mode ≠ .update)
    (new : mode ≠ .put → ids.Nodup ∧ ∀ id ∈ ids, s.contains entity id = false ∧ id ∉ seen) :
    s.checkPutMany mode entity seen ids = .ok () := by
  induction ids generalizing seen with
  | nil => rfl
  | cons first ids ih =>
      have passed : checkPut mode entity first (s.contains entity first || seen.contains first) =
          .ok () := by
        refine checkPut_eq_ok.mpr ⟨nonzero first List.mem_cons_self, ?_, fun u => absurd u known⟩
        intro strict
        obtain ⟨-, unused⟩ := new (by rintro rfl; simp at strict)
        obtain ⟨unstored, unseen⟩ := unused first List.mem_cons_self
        rw [unstored, Bool.false_or, Bool.eq_false_iff, ne_eq, Std.ExtTreeSet.contains_iff_mem]
        exact unseen
      rw [checkPutMany, passed]
      refine ih (fun id member => nonzero id (List.mem_cons_of_mem _ member)) fun strict => ?_
      obtain ⟨distinct, unused⟩ := new strict
      rw [List.nodup_cons] at distinct
      refine ⟨distinct.2, fun id member => ?_⟩
      obtain ⟨unstored, unseen⟩ := unused id (List.mem_cons_of_mem _ member)
      refine ⟨unstored, fun inserted => ?_⟩
      rw [Std.ExtTreeSet.mem_insert, Std.compare_eq_iff_eq] at inserted
      cases inserted with
      | inl same => exact distinct.1 (same ▸ member)
      | inr seen => exact unseen seen

/-- Ids that pass are nonzero, whatever the mode. -/
theorem ne_zero_of_checkPutMany {mode : PutMode} {seen : IdSet} {ids : List ObjectId} {u : Unit}
    (checked : s.checkPutMany mode entity seen ids = .ok u) : ∀ id ∈ ids, id ≠ 0 := by
  induction ids generalizing seen with
  | nil => simp
  | cons first ids ih =>
      simp only [checkPutMany, bind, Except.bind] at checked
      split at checked
      · cases checked
      · rename_i passed
        intro id member
        cases member with
        | head => exact (checkPut_eq_ok.mp passed).1
        | tail _ member => exact ih checked id member

end Snapshot

end ObjectStore
