import Mathlib.Data.Finset.Card
import ObjectStore.Proofs.Engine.FailedCalls
import ObjectStore.Proofs.Engine.Tidy

/-! # Removing objects

Objects that are removed take their links with them: those that start at them, in the relations that
start at their entity type, and those that end at them, in the relations that end there
(`Snapshot.Without`). A snapshot in normal form is known by that, so whichever call removes the same
objects leaves the same snapshot, be it at once or one by one.
-/

namespace ObjectStore

namespace Snapshot

variable {s s' s'' : Snapshot} {entity : EntityId} {relation relation' : RelationId}
  {id source target : ObjectId} {ids : List ObjectId} {outgoing incoming : List RelationId}

/-! ## Links of objects that are removed -/

theorem mem_targets_unlinkSource :
    target ∈ (s.unlinkSource relation id).targets relation' source ↔
      target ∈ s.targets relation' source ∧ ¬ (relation = relation' ∧ source = id) := by
  rw [unlinkSource]
  split
  · rw [targets_setLinks]
    split
    · subst relation'
      rw [Std.ExtTreeMap.getD_erase]
      grind [targets]
    · grind
  case isFalse none =>
    have empty : source = id → relation = relation' → s.targets relation' source = ∅ := by
      rintro rfl rfl
      exact Std.ExtTreeMap.getD_eq_fallback none
    grind

theorem mem_targets_unlinkEach {sources : List (ObjectId × IdSet)} :
    target ∈ (sources.foldl (fun s entry => s.unlink relation entry.1 id) s).targets relation'
        source ↔
      target ∈ s.targets relation' source ∧
        ¬ (relation = relation' ∧ target = id ∧ source ∈ sources.map Prod.fst) := by
  induction sources generalizing s with
  | nil => simp
  | cons entry sources ih =>
      rw [List.foldl_cons, ih, mem_targets_unlink, List.map_cons, List.mem_cons]
      grind

theorem mem_targets_unlinkTarget :
    target ∈ (s.unlinkTarget relation id).targets relation' source ↔
      target ∈ s.targets relation' source ∧ ¬ (relation = relation' ∧ target = id) := by
  have listed : id ∈ s.targets relation source →
      source ∈ ((s.linkTable relation).toList.filter fun entry => entry.2.contains id).map
        Prod.fst := by
    intro linked
    cases found : (s.linkTable relation)[source]? with
    | none =>
        rw [targets, Std.ExtTreeMap.getD_eq_getD_getElem?, found] at linked
        simp at linked
    | some targets =>
        rw [Snapshot.targets, Std.ExtTreeMap.getD_eq_getD_getElem?, found,
          Option.getD_some] at linked
        refine List.mem_map.mpr ⟨(source, targets), List.mem_filter.mpr ⟨?_, ?_⟩, rfl⟩
        · exact Std.ExtTreeMap.mem_toList_iff_getElem?_eq_some.mpr found
        · exact Std.ExtTreeSet.contains_iff_mem.mpr linked
  rw [unlinkTarget, mem_targets_unlinkEach]
  grind

theorem mem_targets_unlinkSources {relations : List RelationId} :
    target ∈ (relations.foldl (fun s relation => s.unlinkSource relation id) s).targets relation'
        source ↔
      target ∈ s.targets relation' source ∧ ¬ (relation' ∈ relations ∧ source = id) := by
  induction relations generalizing s with
  | nil => simp
  | cons relation relations ih =>
      rw [List.foldl_cons, ih, mem_targets_unlinkSource, List.mem_cons]
      grind

theorem mem_targets_unlinkTargets {relations : List RelationId} :
    target ∈ (relations.foldl (fun s relation => s.unlinkTarget relation id) s).targets relation'
        source ↔
      target ∈ s.targets relation' source ∧ ¬ (relation' ∈ relations ∧ target = id) := by
  induction relations generalizing s with
  | nil => simp
  | cons relation relations ih =>
      rw [List.foldl_cons, ih, mem_targets_unlinkTarget, List.mem_cons]
      grind

theorem mem_targets_unlinkObject :
    target ∈ (s.unlinkObject outgoing incoming id).targets relation source ↔
      target ∈ s.targets relation source ∧ ¬ (relation ∈ outgoing ∧ source = id) ∧
        ¬ (relation ∈ incoming ∧ target = id) := by
  rw [unlinkObject, mem_targets_unlinkTargets, mem_targets_unlinkSources, and_assoc]

theorem mem_targets_unlinkObjects :
    target ∈ (ids.foldl (fun s id => s.unlinkObject outgoing incoming id) s).targets relation
        source ↔
      target ∈ s.targets relation source ∧ ¬ (relation ∈ outgoing ∧ source ∈ ids) ∧
        ¬ (relation ∈ incoming ∧ target ∈ ids) := by
  induction ids generalizing s with
  | nil => simp
  | cons id ids ih =>
      rw [List.foldl_cons, ih, mem_targets_unlinkObject]
      simp only [List.mem_cons]
      grind

/-! ## Snapshots without objects -/

/-- `s'` is `s` without the objects `gone` of an entity type, and without the links they took part
in, in the relations that start or end at that entity type. -/
structure Without (relations : Std.ExtTreeMap RelationId Endpoints) (entity : EntityId)
    (gone : Finset ObjectId) (s s' : Snapshot) : Prop where
  records (entity' : EntityId) (id : ObjectId) : s'.record? entity' id =
    if entity = entity' ∧ id ∈ gone then none else s.record? entity' id
  links (relation : RelationId) (source target : ObjectId) :
    target ∈ s'.targets relation source ↔ target ∈ s.targets relation source ∧
      ∀ ends, relations[relation]? = some ends →
        ¬ (ends.source = entity ∧ source ∈ gone) ∧ ¬ (ends.target = entity ∧ target ∈ gone)

/-- The different ones of some ids that are stored. -/
def stored (s : Snapshot) (entity : EntityId) (ids : List ObjectId) : Finset ObjectId :=
  (ids.filter (s.contains entity)).toFinset

theorem mem_stored : id ∈ s.stored entity ids ↔ id ∈ ids ∧ s.contains entity id = true := by
  rw [stored, List.mem_toFinset, List.mem_filter]

namespace Without

variable {relations : Std.ExtTreeMap RelationId Endpoints} {gone gone' : Finset ObjectId}

theorem unique (h : Without relations entity gone s s') (h' : Without relations entity gone s s'')
    (tidy : s'.Tidy) (tidy' : s''.Tidy) : s' = s'' := by
  refine tidy.ext tidy' (fun entity' id => ?_) fun relation source => ?_
  · rw [h.records, h'.records]
  · exact Std.ExtTreeSet.ext_mem fun target => by rw [h.links, h'.links]

theorem refl : Without relations entity ∅ s s where
  records entity' id := by simp
  links relation source target := by simp

theorem trans (h : Without relations entity gone s s')
    (h' : Without relations entity gone' s' s'') :
    Without relations entity (gone ∪ gone') s s'' where
  records entity' id := by
    rw [h'.records, h.records]
    simp only [Finset.mem_union]
    grind
  links relation source target := by
    rw [h'.links, h.links]
    simp only [Finset.mem_union]
    grind

theorem contains (h : Without relations entity gone s s') :
    s'.contains entity id = true ↔ s.contains entity id = true ∧ id ∉ gone := by
  rw [contains_iff, contains_iff, h.records]
  grind

end Without

end Snapshot

namespace Engine

open Snapshot (Without)

variable {e : Engine} {thread : ThreadId} {txn : Option Handle} {s : Snapshot} {entity : EntityId}
  {relation : RelationId} {id : ObjectId} {ids : List ObjectId}

theorem mem_outgoing : relation ∈ e.outgoing entity ↔
    ∃ ends, e.relations[relation]? = some ends ∧ ends.source = entity := by
  simp only [outgoing, List.mem_map, List.mem_filter, Prod.exists, decide_eq_true_eq,
    Std.ExtTreeMap.mem_toList_iff_getElem?_eq_some]
  grind

theorem mem_incoming : relation ∈ e.incoming entity ↔
    ∃ ends, e.relations[relation]? = some ends ∧ ends.target = entity := by
  simp only [incoming, List.mem_map, List.mem_filter, Prod.exists, decide_eq_true_eq,
    Std.ExtTreeMap.mem_toList_iff_getElem?_eq_some]
  grind

/-- Once their records are dropped and their links, it is a snapshot without these objects. -/
theorem without_of_unlinked {s' : Snapshot} {gone : Finset ObjectId} (links : s'.links = s.links)
    (records : ∀ entity' id, s'.record? entity' id =
      if entity = entity' ∧ id ∈ gone then none else s.record? entity' id)
    (listed : ∀ id, id ∈ ids ↔ id ∈ gone) :
    Without e.relations entity gone s
      (ids.foldl (fun s id => s.unlinkObject (e.outgoing entity) (e.incoming entity) id) s') where
  records entity' id := by
    rw [← records, Snapshot.record?, Snapshot.table_eq_of_records Snapshot.unlinkObjects_records]
    rfl
  links relation source target := by
    rw [Snapshot.mem_targets_unlinkObjects, Snapshot.targets_eq_of_links links, mem_outgoing,
      mem_incoming, listed, listed]
    grind

theorem without_eraseMany {gone : Finset ObjectId} (listed : ∀ id, id ∈ ids ↔ id ∈ gone) :
    Without e.relations entity gone s
      (ids.foldl (fun s id => s.unlinkObject (e.outgoing entity) (e.incoming entity) id)
        (s.eraseMany entity ids)) := by
  refine without_of_unlinked Snapshot.eraseMany_links (fun entity' id => ?_) listed
  simp only [Snapshot.record?, Snapshot.eraseMany_table, ← listed]
  split
  · rw [Snapshot.getElem?_eraseAll]
    simp [*]
  · simp [*]

theorem without_removeMany :
    (s.removeMany entity (e.outgoing entity) (e.incoming entity) ids).1 =
        (s.stored entity ids).card ∧
      Without e.relations entity (s.stored entity ids) s
        (s.removeMany entity (e.outgoing entity) (e.incoming entity) ids).2 := by
  have listed : ∀ id, id ∈ (Std.ExtTreeSet.ofList (ids.filter (s.contains entity)) : IdSet).toList ↔
      id ∈ s.stored entity ids := by
    intro id
    rw [Std.ExtTreeSet.mem_toList, Std.ExtTreeSet.mem_ofList, Snapshot.mem_stored,
      List.contains_iff_mem, List.mem_filter]
  refine ⟨?_, without_eraseMany listed⟩
  rw [show s.stored entity ids = _ from Finset.ext fun id => (listed id).symm.trans
    List.mem_toFinset.symm, List.toFinset_card_of_nodup]
  · rfl
  · exact Std.ExtTreeSet.ordered_toList.imp fun less same => by simp [same] at less

theorem without_remove :
    Without e.relations entity {id} s
      ((s.eraseMany entity [id]).unlinkObject (e.outgoing entity) (e.incoming entity) id) :=
  @without_eraseMany e s entity [id] {id} fun other => by simp

theorem without_removeAll :
    Without e.relations entity (s.ids entity).toFinset s
      ((s.ids entity).foldl
        (fun s id => s.unlinkObject (e.outgoing entity) (e.incoming entity) id)
        (s.setTable entity ∅)) := by
  refine without_of_unlinked Snapshot.setTable_links (fun entity' id => ?_) fun id => ?_
  · have missing : id ∉ s.ids entity → s.record? entity id = none := by
      intro unlisted
      rw [Snapshot.mem_ids, Snapshot.contains, ← Std.ExtTreeMap.mem_iff_contains] at unlisted
      exact Std.ExtTreeMap.getElem?_eq_none unlisted
    simp only [Snapshot.record?, Snapshot.setTable_table, List.mem_toFinset]
    split
    · subst entity'
      split
      · simp
      · rw [← Snapshot.record?, missing (by grind)]
        simp
    · simp [*]
  · exact List.mem_toFinset.symm

/-! ## The calls -/

/-- Objects of an entity type can be removed. -/
structure Removes (e : Engine) (txn : Option Handle) (entity : EntityId) (s : Snapshot) : Prop where
  writes : e.WritesOn txn s
  defined : e.entities.contains entity = true
  tidy : s.Tidy

namespace Removes

theorem remove_eq (h : e.Removes txn entity s) : e.remove thread txn entity id =
    if s.contains entity id then
      .ok (e.withView txn
        ((s.eraseMany entity [id]).unlinkObject (e.outgoing entity) (e.incoming entity) id))
    else .error (.refused .missing) := by
  have known : e.requireEntity entity = .ok () := requireEntity_eq_ok.mpr h.defined
  rw [remove, known, h.writes.write_eq]
  split <;> rfl

theorem removeMany_eq (h : e.Removes txn entity s) : e.removeMany thread txn entity ids =
    .ok ((s.stored entity ids).card, e.withView txn
      (s.removeMany entity (e.outgoing entity) (e.incoming entity) ids).2) := by
  have known : e.requireEntity entity = .ok () := requireEntity_eq_ok.mpr h.defined
  rw [removeMany, known, h.writes.write_eq, ← (without_removeMany (e := e)).1]
  rfl

theorem withView {s' : Snapshot} (h : e.Removes txn entity s) (tidy : s'.Tidy) :
    (e.withView txn s').Removes txn entity s' where
  writes := h.writes.withView
  defined := by cases txn <;> exact h.defined
  tidy := tidy

theorem tidy_removeMany (h : e.Removes txn entity s) :
    (s.removeMany entity (e.outgoing entity) (e.incoming entity) ids).2.Tidy :=
  h.tidy.setTable.unlinkObjects

/-- Whatever removes the stored ones of some ids leaves what their removal at once leaves. -/
theorem removeMany_eq_of_without {s' : Snapshot} (h : e.Removes txn entity s)
    (without : Without e.relations entity (s.stored entity ids) s s') (tidy : s'.Tidy) :
    e.removeMany thread txn entity ids =
      .ok ((s.stored entity ids).card, e.withView txn s') := by
  rw [h.removeMany_eq, without_removeMany.2.unique without h.tidy_removeMany tidy]

theorem removeAll_eq (h : e.Removes txn entity s) :
    e.removeAll thread txn entity = e.removeMany thread txn entity (s.ids entity) := by
  have known : e.requireEntity entity = .ok () := requireEntity_eq_ok.mpr h.defined
  have all : s.stored entity (s.ids entity) = (s.ids entity).toFinset := by
    rw [Snapshot.stored, List.filter_eq_self.mpr fun id listed => Snapshot.mem_ids.mp listed]
  have different : (s.ids entity).Nodup :=
    Snapshot.pairwise_ids.imp fun less same => by simp [same] at less
  rw [h.removeMany_eq_of_without (all ▸ without_removeAll) h.tidy.setTable.unlinkObjects, all,
    List.toFinset_card_of_nodup different, removeAll, known, h.writes.write_eq]
  rfl

theorem remove_eq_removeMany (h : e.Removes txn entity s)
    (stored : s.contains entity id = true) :
    (e.remove thread txn entity id).map (1, ·) = e.removeMany thread txn entity [id] := by
  have one : s.stored entity [id] = {id} := by
    rw [Snapshot.stored, List.filter_singleton, stored]
    rfl
  rw [h.removeMany_eq_of_without (one ▸ without_remove) h.tidy.setTable.unlinkObject, one,
    h.remove_eq, if_pos stored]
  rfl

end Removes

end Engine

namespace Machine

open Snapshot (Without)
open Engine (without_remove relations_withView withView_withView)

variable {m : Machine} {thread : ThreadId} {txn : Option Handle} {entity : EntityId}
  {ids : List ObjectId} {s : Snapshot}

/-- Remove objects one after another, passing over those that are not found, and answer how many
there were. -/
def removeEach (m : Machine) (thread : ThreadId) (txn : Option Handle) (entity : EntityId) :
    List ObjectId → Except Stop Nat × Machine
  | [] => (.ok 0, m)
  | id :: ids =>
    match m.act thread (.remove txn entity id) with
    | (.ok (), m) =>
      let (removed, m) := m.removeEach thread txn entity ids
      (removed.map (· + 1), m)
    | (.error (.failed .notFound), m) => m.removeEach thread txn entity ids
    | (.error stop, m) => (.error stop, m)

theorem removeEach_eq (h : m.engine.Removes txn entity s) :
    ∃ s', Without m.engine.relations entity (s.stored entity ids) s s' ∧ s'.Tidy ∧
      (m.removeEach thread txn entity ids).1 = .ok (s.stored entity ids).card ∧
      (m.removeEach thread txn entity ids).2.engine = m.engine.withView txn s' ∧
      ∀ other, (m.removeEach thread txn entity ids).2.slot other = m.slot other := by
  induction ids generalizing m s with
  | nil => exact ⟨s, .refl, h.tidy, rfl, h.writes.withView_self.symm, fun _ => rfl⟩
  | cons id ids ih =>
      cases stored : s.contains entity id with
      | true =>
          generalize removed : (s.eraseMany entity [id]).unlinkObject (m.engine.outgoing entity)
            (m.engine.incoming entity) id = s₁
          have first : Without m.engine.relations entity {id} s s₁ := removed ▸ without_remove
          have tidy₁ : s₁.Tidy := removed ▸ h.tidy.setTable.unlinkObject
          obtain ⟨s', without, tidy, result, engine, slots⟩ :=
            @ih (m.ended thread (.ok ((), m.engine.withView txn s₁))).2 s₁ (h.withView tidy₁)
          rw [show (m.ended thread (.ok ((), m.engine.withView txn s₁))).2.engine.relations =
            m.engine.relations from relations_withView] at without
          rw [removeEach, act_eq_ended fun _ => rfl, Engine.perform, h.remove_eq, if_pos stored,
            removed]
          have both : s.stored entity (id :: ids) = {id} ∪ s₁.stored entity ids := by
            ext other
            rw [Snapshot.mem_stored, Finset.mem_union, Snapshot.mem_stored, first.contains]
            grind
          refine ⟨s', both ▸ first.trans without, tidy, ?_, ?_, ?_⟩
          · have apart : id ∉ s₁.stored entity ids := by
              rw [Snapshot.mem_stored, first.contains]
              simp
            rw [both, Finset.singleton_union, Finset.card_insert_of_notMem apart]
            exact congrArg (Except.map (· + 1)) result
          · exact engine.trans withView_withView
          · exact fun other => (slots other).trans slot_ended_ok
      | false =>
          obtain ⟨s', without, tidy, result, engine, slots⟩ := @ih
            (m.ended thread (.error (.refused .missing) : Except Halt (Unit × Engine))).2 s h
          have missing : ¬ s.contains entity id = true := Bool.eq_false_iff.mp stored
          rw [removeEach, act_eq_ended fun _ => rfl, Engine.perform, h.remove_eq, if_neg missing]
          have same : s.stored entity (id :: ids) = s.stored entity ids := by
            rw [Snapshot.stored, List.filter_cons_of_neg missing]
            rfl
          rw [same]
          exact ⟨s', without, tidy, result, engine,
            fun other => (slots other).trans slot_ended_missing⟩

/-- Two ways of making a call end with the same answer, the same engine and the same slots. -/
structure Alike {α : Type} (call call' : Except Stop α × Machine) : Prop where
  answer : call'.1 = call.1
  machine : call.2.Same call'.2

/-- What the calls that remove objects do, where a write is made on `s`. -/
structure Removal (m : Machine) (thread : ThreadId) (txn : Option Handle) (entity : EntityId)
    (s : Snapshot) : Prop where
  view : m.engine.view txn = .ok s
  /-- Of a list of ids the stored ones are removed with their links, and counted; nothing else is
  changed. -/
  many (ids : List ObjectId) : ∃ s', Without m.engine.relations entity (s.stored entity ids) s s' ∧
    (m.act thread (.removeMany txn entity ids)).1 = .ok (s.stored entity ids).card ∧
    (m.act thread (.removeMany txn entity ids)).2.engine = m.engine.withView txn s' ∧
    ∀ other, (m.act thread (.removeMany txn entity ids)).2.slot other = m.slot other
  /-- Nothing is changed if none of them is stored. -/
  none {ids : List ObjectId} : (∀ id ∈ ids, s.contains entity id = false) →
    (m.act thread (.removeMany txn entity ids)).1 = .ok 0 ∧
      m.Same (m.act thread (.removeMany txn entity ids)).2
  one {id : ObjectId} : s.contains entity id = true →
    (m.act thread (.remove txn entity id)).1 = .ok () ∧
      (m.act thread (.removeMany txn entity [id])).2.Same (m.act thread (.remove txn entity id)).2
  all : Alike (m.act thread (.removeMany txn entity (s.ids entity)))
    (m.act thread (.removeAll txn entity))
  each (ids : List ObjectId) : Alike (m.act thread (.removeMany txn entity ids))
    (m.removeEach thread txn entity ids)

/-- Objects are removed with exactly their links, by whatever call. -/
theorem removal_exact {arrays : Bool} (arises : m.engine.Arises arrays)
    (defined : m.engine.entities.contains entity = true) (may : m.engine.MayWrite txn) :
    ∃ s, m.Removal thread txn entity s := by
  obtain ⟨s, writes⟩ := arises.writesOn may
  have tidy : s.Tidy := arises.tidy.snapshots.view writes.view
  have h : m.engine.Removes txn entity s := ⟨writes, defined, tidy⟩
  have many {ids : List ObjectId} {s' : Snapshot}
      (without : Without m.engine.relations entity (s.stored entity ids) s s') (tidy' : s'.Tidy) :
      m.act thread (.removeMany txn entity ids) =
        m.ended thread (.ok ((s.stored entity ids).card, m.engine.withView txn s')) := by
    rw [act_eq_ended fun _ => rfl, Engine.perform, h.removeMany_eq_of_without without tidy']
  refine ⟨s, writes.view, fun ids => ?many, fun {ids} unstored => ?none, fun {id} stored => ?one,
    ?all, fun ids => ?each⟩
  case many =>
    have without := (@Engine.without_removeMany m.engine s entity ids).2
    rw [many without h.tidy_removeMany]
    exact ⟨_, without, rfl, rfl, fun _ => slot_ended_ok⟩
  case none =>
    have nothing : s.stored entity ids = ∅ := by
      rw [Snapshot.stored, List.filter_eq_nil_iff.mpr (by simpa using unstored)]
      rfl
    rw [many (nothing ▸ .refl) tidy, nothing, h.writes.withView_self]
    exact ⟨rfl, rfl, fun _ => slot_ended_ok⟩
  case one =>
    have same : (m.engine.remove thread txn entity id).map (1, ·) = _ :=
      h.remove_eq_removeMany stored
    rw [act_eq_ended fun _ => rfl, act_eq_ended fun _ => rfl, Engine.perform, Engine.perform,
      ← same, h.remove_eq, if_pos stored]
    exact ⟨rfl, rfl, fun _ => rfl⟩
  case all =>
    rw [act_eq_ended fun _ => rfl, act_eq_ended fun _ => rfl, Engine.perform, Engine.perform,
      h.removeAll_eq]
    exact ⟨rfl, rfl, fun _ => rfl⟩
  case each =>
    obtain ⟨s', without, tidy', result, engine, slots⟩ := @removeEach_eq m thread txn entity ids s h
    rw [many without tidy']
    exact ⟨result, engine, fun other => (slots other).trans slot_ended_ok.symm⟩

/-- Notes linked to tags and to each other: the ids are given with repeats, one that is missing and
0, and one of the notes is linked to itself. -/
theorem removal_exact_of_linked_notes :
    let m := ((fresh true).run [(0, .defineEntity 1 "Note"), (0, .defineEntity 2 "Tag"),
      (0, .defineRelation 1 1 2), (0, .defineRelation 2 1 1), (0, .put none 1 5 [1] .put),
      (0, .put none 1 6 [2] .put), (0, .put none 2 5 [3] .put), (0, .relPut none 1 5 5),
      (0, .relPut none 1 6 5), (0, .relPut none 2 5 5), (0, .relPut none 2 6 5),
      (0, .relPut none 2 6 6)]).2
    (m.act 0 (.removeMany none 1 [5, 0, 5, 9])).1 = .ok 1 ∧
      (m.removeEach 0 none 1 [5, 0, 5, 9]).1 = .ok 1 ∧
      ∃ s, (m.act 0 (.removeMany none 1 [5, 0, 5, 9])).2.engine.committed = s ∧
        s.record? 1 5 = none ∧ s.record? 2 5 = some [3] ∧ 5 ∉ s.targets 2 6 ∧ 6 ∈ s.targets 2 6 ∧
        5 ∈ s.targets 1 6 := by
  intro m
  have arises : m.engine.Arises true := arises_run .fresh
  have may : m.engine.MayWrite none := by
    rintro txn ⟨s, found⟩
    have closed : m.engine.txns = ∅ := rfl
    simp [closed] at found
  obtain ⟨s, removal⟩ : ∃ s, m.Removal 0 none 1 s := removal_exact arises rfl may
  obtain rfl : m.engine.committed = s := Except.ok.inj removal.view
  obtain ⟨s', without, counted, left, -⟩ := removal.many [5, 0, 5, 9]
  have each := (removal.each [5, 0, 5, 9]).answer
  have one : (m.engine.committed.stored 1 [5, 0, 5, 9]) = {5} := rfl
  rw [one] at counted without
  refine ⟨counted, each.trans counted, s', congrArg Engine.committed left,
    (without.records 1 5).trans rfl, (without.records 2 5).trans rfl, fun linked => ?_,
    (without.links 2 6 6).mpr ⟨Std.ExtTreeSet.contains_iff_mem.mp rfl, ?_⟩,
    (without.links 1 6 5).mpr ⟨Std.ExtTreeSet.contains_iff_mem.mp rfl, ?_⟩⟩
  · exact (((without.links 2 6 5).mp linked).2 ⟨1, 1⟩ rfl).2 ⟨rfl, Finset.mem_singleton_self 5⟩
  · rintro ends ⟨⟩
    decide
  · rintro ends ⟨⟩
    decide

end Machine

end ObjectStore
