import ObjectStore.Proofs.Engine.Removal

/-! # Well-formed snapshots

Snapshots are kept in one form: no record and no link is of id 0, tables of records belong to
entity types that are defined and tables of links to relations that are, and no source is kept
without targets. This is put together from what is known of records (`Engine.All`), of links
(`Snapshot.AllLinks`) and of empty tables (`Snapshot.Tidy`). Every call keeps it, in the committed
snapshot and in that of every open transaction, whichever of them it writes to and whatever is
defined in between.
-/

namespace ObjectStore

variable {R R' : RelationId → ObjectId → ObjectId → Prop}

/-- The link a call makes, if it makes one, has a property. -/
def Call.Links (R : RelationId → ObjectId → ObjectId → Prop) : Call → Prop
  | relPut _ relation source target => R relation source target
  | _ => True

namespace Snapshot

variable {s s' : Snapshot} {relation : RelationId} {source target : ObjectId}

theorem All.mono {W W' : EntityId → ObjectId → Bytes → Prop} (h : s.All W)
    (weaker : ∀ {entity id record}, W entity id record → W' entity id record) : s.All W' :=
  fun entity id record found => weaker (h entity id record found)

/-- Every link of a snapshot has a property. -/
def AllLinks (R : RelationId → ObjectId → ObjectId → Prop) (s : Snapshot) : Prop :=
  ∀ relation source target, target ∈ s.targets relation source → R relation source target

namespace AllLinks

theorem mono (h : s.AllLinks R)
    (weaker : ∀ {relation source target}, R relation source target → R' relation source target) :
    s.AllLinks R' :=
  fun relation source target member => weaker (h relation source target member)

theorem of_fewer (h : s.AllLinks R) (fewer : ∀ {relation source target},
    target ∈ s'.targets relation source → target ∈ s.targets relation source) : s'.AllLinks R :=
  fun relation source target member => h relation source target (fewer member)

theorem of_links (h : s.AllLinks R) (same : s'.links = s.links) : s'.AllLinks R :=
  h.of_fewer fun member => by rwa [targets_eq_of_links same] at member

theorem link (h : s.AllLinks R) (allowed : R relation source target) :
    (s.link relation source target).AllLinks R := by
  intro relation' source' target' member
  rcases mem_targets_link.mp member with ⟨rfl, rfl, rfl⟩ | old
  · exact allowed
  · exact h relation' source' target' old

theorem unlink (h : s.AllLinks R) : (s.unlink relation source target).AllLinks R :=
  h.of_fewer fun member => (mem_targets_unlink.mp member).1

theorem without {relations : Std.ExtTreeMap RelationId Endpoints} {entity : EntityId}
    {gone : Finset ObjectId} (h : s.AllLinks R) (left : Without relations entity gone s s') :
    s'.AllLinks R :=
  h.of_fewer fun member => ((left.links _ _ _).mp member).1

end AllLinks

theorem Tidy.exists_record {entity : EntityId} {table : Table} (h : s.Tidy)
    (found : s.records[entity]? = some table) : ∃ id record, s.record? entity id = some record := by
  have kept : s.table entity = table := by
    rw [Snapshot.table, Std.ExtTreeMap.getD_eq_getD_getElem?, found, Option.getD_some]
  obtain ⟨id, member⟩ : ∃ id, id ∈ table := not_forall_not.mp fun none =>
    h.records found (Std.ExtTreeMap.eq_empty_iff_forall_not_mem.mpr none)
  refine ⟨id, table[id], ?_⟩
  rw [record?, kept]
  exact Std.ExtTreeMap.getElem?_eq_some_getElem member

theorem Tidy.exists_link {links : LinkTable} (h : s.Tidy)
    (found : s.links[relation]? = some links) :
    ∃ source target, target ∈ s.targets relation source := by
  have kept : s.linkTable relation = links := by
    rw [linkTable, Std.ExtTreeMap.getD_eq_getD_getElem?, found, Option.getD_some]
  obtain ⟨source, member⟩ : ∃ source, source ∈ links := not_forall_not.mp fun none =>
    h.links found (Std.ExtTreeMap.eq_empty_iff_forall_not_mem.mpr none)
  have row : (s.linkTable relation)[source]? = some links[source] := by
    rw [kept]
    exact Std.ExtTreeMap.getElem?_eq_some_getElem member
  obtain ⟨target, linked⟩ : ∃ target, target ∈ links[source] := not_forall_not.mp fun none =>
    h.targets row (Std.ExtTreeSet.eq_empty_iff_forall_not_mem.mpr none)
  refine ⟨source, target, ?_⟩
  rwa [Snapshot.targets, Std.ExtTreeMap.getD_eq_getD_getElem?, row, Option.getD_some]

end Snapshot

namespace Engine

open Snapshot (AllLinks)

variable {e e' : Engine} {s : Snapshot} {thread : ThreadId} {served : Served} {arrays : Bool}

/-! ## Links -/

theorem allLinks_written {write : Served} {txn : Option Handle} (h : e.Throughout (AllLinks R))
    (links : served.call.Links R) (plays : served.part = .writes txn write)
    (done : e.perform thread served.call = .ok (served.answer, e')) :
    e'.Throughout (AllLinks R) := by
  obtain ⟨call, answer⟩ := served
  cases call with
  | put txn entity id record mode =>
      obtain ⟨-, s, e₁, wrote, -, rfl⟩ := put_eq_ok.mp (changing_eq_ok.mp done)
      rw [observe_eq_recount]
      exact (h.wrote wrote fun all => all.of_links Snapshot.insert_links).recount
  | putMany txn entity ids records mode =>
      obtain ⟨-, -, -, s, e₁, wrote, -, rfl⟩ := putMany_eq_ok.mp (changing_eq_ok.mp done)
      rw [observe_eq_recount]
      exact (h.wrote wrote fun all => all.of_links Snapshot.insertMany_links).recount
  | remove txn entity id =>
      obtain ⟨-, s, -, wrote⟩ := remove_eq_ok.mp (changing_eq_ok.mp done)
      exact h.wrote wrote fun all => all.without without_remove
  | removeMany txn entity ids =>
      obtain ⟨-, s, wrote, -⟩ := removeMany_eq_ok.mp done
      exact h.wrote wrote fun all => all.without without_removeMany.2
  | removeAll txn entity =>
      obtain ⟨-, s, wrote, -⟩ := removeAll_eq_ok.mp done
      exact h.wrote wrote fun all => all.without without_removeAll
  | relPut txn relation source target =>
      obtain ⟨-, -, s, e₁, wrote, rfl⟩ := relPut_eq_ok.mp (changing_eq_ok.mp done)
      exact (h.wrote wrote fun all => all.link links).of_same rfl id
  | relRemove txn relation source target =>
      obtain ⟨-, s, e₁, wrote, rfl⟩ := relRemove_eq_ok.mp (changing_eq_ok.mp done)
      exact (h.wrote wrote fun all => all.unlink).of_same rfl id
  | _ => simp [Served.part] at plays

/-! ## What a served call stores and links -/

/-- A record that may be stored. -/
def MayStore (e : Engine) (entity : EntityId) (id : ObjectId) (_ : Bytes) : Prop :=
  id ≠ 0 ∧ e.entities.contains entity = true

/-- A link that may be made. -/
def MayLink (e : Engine) (relation : RelationId) (source target : ObjectId) : Prop :=
  source ≠ 0 ∧ target ≠ 0 ∧ e.relations.contains relation = true

theorem stores_of_perform (done : e.perform thread served.call = .ok (served.answer, e')) :
    served.call.Stores e.MayStore := by
  obtain ⟨call, answer⟩ := served
  cases call with
  | put txn entity id record mode =>
      obtain ⟨known, s, -, -, checked, -⟩ := put_eq_ok.mp (changing_eq_ok.mp done)
      exact Call.stores_put.mpr ⟨(Snapshot.checkPut_eq_ok.mp checked).1, known⟩
  | putMany txn entity ids records mode =>
      obtain ⟨-, known, -, s, -, -, checked, -⟩ := putMany_eq_ok.mp (changing_eq_ok.mp done)
      refine Call.stores_putMany.mpr fun entry member => ⟨?_, known⟩
      exact Snapshot.ne_zero_of_checkPutMany checked entry.1 (List.of_mem_zip member).1
  | _ => exact Call.stores_of_nil rfl

theorem links_of_perform (done : e.perform thread served.call = .ok (served.answer, e')) :
    served.call.Links e.MayLink := by
  obtain ⟨call, answer⟩ := served
  cases call with
  | relPut txn relation source target =>
      obtain ⟨⟨ends, known⟩, ⟨from_some, to_some⟩, -⟩ := relPut_eq_ok.mp (changing_eq_ok.mp done)
      refine ⟨from_some, to_some, ?_⟩
      rw [← Std.ExtTreeMap.mem_iff_contains, Std.ExtTreeMap.mem_iff_isSome_getElem?, known]
      rfl
  | _ => trivial

/-- What is defined stays defined. -/
structure Extends (e e' : Engine) : Prop where
  entities {entity : EntityId} : e.entities.contains entity = true →
    e'.entities.contains entity = true
  relations {relation : RelationId} : e.relations.contains relation = true →
    e'.relations.contains relation = true

theorem extends_of_perform (done : e.perform thread served.call = .ok (served.answer, e')) :
    e.Extends e' := by
  cases quiet : served.call.defines with
  | false =>
      have schema : e.SameSchema e' :=
        SameSchema.moved ⟨rfl, rfl, rfl⟩ quiet (moved_of_perform done)
      exact ⟨fun known => schema.entities ▸ known, fun known => schema.relations ▸ known⟩
  | true =>
      obtain ⟨call, answer⟩ := served
      cases call with
      | defineEntity entity name =>
          cases done
          exact ⟨fun known => by simp [defineEntity, known], id⟩
      | defineRelation relation source target =>
          have defined := changing_eq_ok.mp done
          simp only [defineRelation, unit_bind_eq_ok] at defined
          obtain ⟨-, -, made⟩ := defined
          cases made
          exact ⟨id, fun known => by simp [known]⟩
      | _ => cases quiet

theorem allRecords_perform (h : e.All e.MayStore)
    (done : e.perform thread served.call = .ok (served.answer, e')) : e'.All e'.MayStore := by
  have grown := extends_of_perform done
  have kept := h.perform (stores_of_perform done) done
  have still {entity : EntityId} {id : ObjectId} {record : Bytes} :
      e.MayStore entity id record → e'.MayStore entity id record :=
    fun may => ⟨may.1, grown.entities may.2⟩
  exact ⟨kept.committed.mono still, fun found => (kept.opened found).mono still⟩

theorem allLinks_perform (h : e.Throughout (AllLinks e.MayLink))
    (done : e.perform thread served.call = .ok (served.answer, e')) :
    e'.Throughout (AllLinks e'.MayLink) := by
  have grown := extends_of_perform done
  have kept := h.perform (fun plays => allLinks_written h (links_of_perform done) plays done) done
  have still {relation : RelationId} {source target : ObjectId} :
      e.MayLink relation source target → e'.MayLink relation source target :=
    fun may => ⟨may.1, may.2.1, grown.relations may.2.2⟩
  exact ⟨kept.committed.mono still, fun found => (kept.opened found).mono still⟩

theorem Arises.allRecords (h : e.Arises arrays) : e.All e.MayStore := by
  induction h with
  | fresh => exact ⟨by simp [Snapshot.All, Snapshot.record?, Snapshot.table], by simp⟩
  | served _ done ih => exact allRecords_perform ih done

theorem Arises.allLinks (h : e.Arises arrays) : e.Throughout (AllLinks e.MayLink) := by
  induction h with
  | fresh => exact ⟨by simp [AllLinks, Snapshot.targets, Snapshot.linkTable], by simp⟩
  | served _ done ih => exact allLinks_perform ih done

/-! ## The form of a snapshot -/

/-- A snapshot has the form in which an engine keeps it. -/
structure WellFormed (e : Engine) (s : Snapshot) : Prop where
  /-- No record is stored under id 0. -/
  records {entity : EntityId} {id : ObjectId} : s.contains entity id = true → id ≠ 0
  /-- Only defined entity types have records. -/
  tables {entity : EntityId} {table : Table} : s.records[entity]? = some table →
    e.entities.contains entity = true
  /-- No link starts or ends at id 0. -/
  links {relation : RelationId} {source target : ObjectId} :
    target ∈ s.targets relation source → source ≠ 0 ∧ target ≠ 0
  /-- Only defined relations have links. -/
  linkTables {relation : RelationId} {links : LinkTable} : s.links[relation]? = some links →
    e.relations.contains relation = true
  /-- A source that is kept has targets. -/
  sources {relation : RelationId} {source : ObjectId} {targets : IdSet} :
    (s.linkTable relation)[source]? = some targets → targets ≠ ∅

/-- As nothing empty is kept, what holds of all records and links holds of the tables too. -/
theorem wellFormed_of_tidy (tidy : s.Tidy) (records : s.All e.MayStore)
    (links : s.AllLinks e.MayLink) : e.WellFormed s where
  records stored := by
    obtain ⟨record, found⟩ := Snapshot.contains_iff.mp stored
    exact (records _ _ record found).1
  tables found := by
    obtain ⟨id, record, stored⟩ := tidy.exists_record found
    exact (records _ id record stored).2
  links member := by
    obtain ⟨start, stop, -⟩ := links _ _ _ member
    exact ⟨start, stop⟩
  linkTables found := by
    obtain ⟨source, target, member⟩ := tidy.exists_link found
    exact (links _ source target member).2.2
  sources := tidy.targets

theorem Arises.wellFormed (h : e.Arises arrays) : e.Throughout e.WellFormed :=
  have tidy := h.tidy.snapshots
  ⟨wellFormed_of_tidy tidy.committed h.allRecords.committed h.allLinks.committed, fun found =>
    wellFormed_of_tidy (tidy.opened found) (h.allRecords.opened found) (h.allLinks.opened found)⟩

theorem relGetIds_ascending {txn : Option Handle} {relation : RelationId} {source : ObjectId}
    (known : e.relations.contains relation = true) (view : e.view txn = .ok s) :
    ∃ ids, e.relGetIds txn relation source = .ok ids ∧ ids.Pairwise (· < ·) ∧
      ∀ target, target ∈ ids ↔ target ∈ s.targets relation source := by
  obtain ⟨ends, defined⟩ := Option.isSome_iff_exists.mp
    (Std.ExtTreeMap.mem_iff_isSome_getElem?.mp (Std.ExtTreeMap.mem_iff_contains.mpr known))
  have found : e.endpoints relation = .ok ends := endpoints_eq_ok.mpr defined
  refine ⟨(s.targets relation source).toList, ?_, Snapshot.pairwise_targets,
    fun target => Std.ExtTreeSet.mem_toList⟩
  simp only [relGetIds, found, view, bind, Except.bind, pure, Except.pure]

end Engine

namespace Machine

/-- What the engine keeps is well formed, and the targets of a source are listed in strictly
    ascending order, through any transaction that is open or through none. -/
structure WellFormed (m : Machine) : Prop where
  snapshots : m.engine.Throughout m.engine.WellFormed
  listed {txn : Option Handle} {s : Snapshot} {relation : RelationId} (thread : ThreadId)
      (source : ObjectId) : m.engine.view txn = .ok s →
    m.engine.relations.contains relation = true →
    ∃ ids, m.step thread (.relGetIds txn relation source) = some (.ok ids, m) ∧
      ids.Pairwise (· < ·) ∧ ∀ target, target ∈ ids ↔ target ∈ s.targets relation source

/-- Whatever calls any threads have made on a new engine, definitions in between included, all it
    keeps is well formed. -/
theorem run_well_formed (arrays : Bool) (calls : List (ThreadId × Call)) :
    ((fresh arrays).run calls).2.WellFormed where
  snapshots := (arises_run .fresh).wellFormed
  listed thread source view known := by
    obtain ⟨ids, answered, ascending, all⟩ := Engine.relGetIds_ascending known view
    refine ⟨ids, step_of_perform ?_, ascending, all⟩
    exact Engine.reading_eq_ok.mpr ⟨answered, rfl⟩

/-- An object that is removed is the only target of one source and one of two targets of another.
    The first is dropped with it; a transaction that was open before still lists all targets. -/
theorem removed_target_well_formed :
    let m := ((fresh true).run
      [(0, .defineEntity 1 "Note"), (0, .defineEntity 2 "Tag"), (0, .defineRelation 7 1 2),
        (0, .put none 2 9 [3] .put), (0, .relPut none 7 4 9), (1, .relPut none 7 5 9),
        (1, .relPut none 7 5 8), (1, .begin .read), (0, .remove none 2 9)]).2
    m.WellFormed ∧ (m.engine.committed.linkTable 7).keys = [5] ∧
      m.step 0 (.relGetIds none 7 5) = some (.ok [8], m) ∧
      m.step 0 (.relGetIds (some 1) 7 5) = some (.ok [8, 9], m) := by
  intro m
  exact ⟨run_well_formed true _, by decide +kernel, rfl, rfl⟩

end Machine

end ObjectStore
