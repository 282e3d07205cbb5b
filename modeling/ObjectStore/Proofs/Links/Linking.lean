import Mathlib.Data.Finset.Card
import ObjectStore.Proofs.Links.Success

/-! # What linking targets makes of a draft

A target that carries an id is linked as it is. One that carries none is numbered by the sequence,
stored, and linked then. An id that is taken off those still linked is not linked again, so a
second time in the list it is: the count of link writes grows by one for every target but those that
took off a link, and by one for every link that is left over (`Store.linkTargets_ensures`,
`Store.replaceLinks_ensures`).
-/

namespace ObjectStore

/-! ## Targets -/

section Saves

variable {T : Type} (binding : Binding T)

/-- What becomes of a target, given the last number of its type: the target, its id, what is stored,
and the last number afterwards. -/
inductive Binding.Saves (last : ObjectId) :
    T → T → ObjectId → List (ObjectId × Bytes) → ObjectId → Prop where
  | kept {target : T} {id : ObjectId} : binding.id target = .ok id → id ≠ 0 →
      Saves last target target id [] last
  | stored {target target' : T} {record : Bytes} : binding.id target = .ok 0 →
      last.toNat ≠ Engine.maxId → Record.made (last + 1) (binding.body target) = .ok record →
      binding.setId target (last + 1) = .ok target' →
      Saves last target target' (last + 1) [(last + 1, record)] (last + 1)

/-- What becomes of targets, one after another. -/
inductive Binding.SavesAll : ObjectId →
    List T → List T → List ObjectId → List (ObjectId × Bytes) → ObjectId → Prop where
  | nil {last : ObjectId} : SavesAll last [] [] [] [] last
  | cons {last last₁ last' id : ObjectId} {target target' : T} {targets targets' : List T}
      {ids : List ObjectId} {entries entries' : List (ObjectId × Bytes)} :
      binding.Saves last target target' id entries last₁ →
      SavesAll last₁ targets targets' ids entries' last' →
      SavesAll last (target :: targets) (target' :: targets') (id :: ids) (entries ++ entries')
        last'

/-- An object carries the id it is given. -/
def Binding.Carries (object : T) : Prop :=
  ∀ id object', binding.setId object id = .ok object' → binding.id object' = .ok id

end Saves

theorem Engine.succ_ne_zero {last : ObjectId} (room : last.toNat ≠ maxId) : last + 1 ≠ 0 := by
  have bound := last.toNat_lt
  intro zero
  have wrapped := congrArg UInt64.toNat zero
  rw [UInt64.toNat_add] at wrapped
  simp only [maxId, UInt64.reduceToNat] at room wrapped
  omega

theorem Binding.Saves.ne_zero {T : Type} {binding : Binding T} {last id last' : ObjectId}
    {target target' : T} {entries : List (ObjectId × Bytes)}
    (h : binding.Saves last target target' id entries last') : id ≠ 0 := by
  cases h with
  | kept _ nonzero => exact nonzero
  | stored _ room => exact Engine.succ_ne_zero room

theorem Binding.SavesAll.map_id {T : Type} {binding : Binding T} {last last' : ObjectId}
    {targets now : List T} {ids : List ObjectId} {entries : List (ObjectId × Bytes)}
    (h : binding.SavesAll last targets now ids entries last')
    (carries : ∀ target ∈ targets, binding.id target = .ok 0 → binding.Carries target) :
    now.map binding.id = ids.map .ok := by
  induction h with
  | nil => rfl
  | cons first _ ih =>
      rw [List.map_cons, List.map_cons, ih fun target member => carries target (.tail _ member)]
      congr 1
      cases first with
      | kept carried => exact carried
      | stored unsaved _ _ given => exact carries _ (.head _) unsaved _ _ given

/-! ## Drafts -/

/-- A draft in which records of an entity type were stored, the links of a source became `links`,
and link writes were counted. Only a write transaction makes anything of it. -/
structure Draft.Relinks (base : Engine) (how : Option TxnMode) (entity : EntityId)
    (relation : RelationId) (source : ObjectId) (d : Draft) (entries : List (ObjectId × Bytes))
    (last : ObjectId) (links : ObjectId → Prop) (writes : Nat) (d' : Draft) : Prop where
  able : how = some .write ∨ entries = [] ∧ writes = 0
  defined : entries ≠ [] → base.entities.contains entity = true
  table (other : EntityId) : d'.view.table other =
    if entity = other then (d.view.table other).insertMany entries else d.view.table other
  lastId (other : EntityId) : d'.lastId other = if entity = other then last else d.lastId other
  targets_iff (relation' : RelationId) (source' target : ObjectId) :
    target ∈ d'.view.targets relation' source' ↔
      if relation = relation' ∧ source = source' then links target
      else target ∈ d.view.targets relation' source'
  relationWrites : d'.relationWrites = d.relationWrites + writes

namespace Draft

variable {base : Engine} {entity : EntityId} {d d' : Draft} {id : ObjectId}

theorem idForPut_new (drawn : idForPut base entity 0 d = .ok (id, d')) :
    (d.lastId entity).toNat ≠ Engine.maxId ∧ id = d.lastId entity + 1 ∧
      d' = d.setLastId entity (d.lastId entity + 1) := by
  unfold idForPut known at drawn
  rw [if_pos rfl] at drawn
  split at drawn
  · split at drawn
    · cases drawn
    · cases drawn
      exact ⟨‹_›, rfl, rfl⟩
  · cases drawn

theorem put_run {record : Bytes} {mode : PutMode}
    (done : put base entity id record mode d = .ok ((), d')) :
    base.entities.contains entity = true ∧
      d' = d.stored entity [(id, record)] (max (d.lastId entity) id) := by
  unfold put known at done
  split at done
  · split at done
    · cases done
      exact ⟨‹_›, rfl⟩
    · cases done
  · cases done

end Draft

namespace Draft.Relinks

variable {base : Engine} {how : Option TxnMode} {entity : EntityId} {relation : RelationId}
  {source target : ObjectId} {d d₁ d' : Draft} {entries entries' : List (ObjectId × Bytes)}
  {last last' : ObjectId} {P Q : ObjectId → Prop} {writes writes' : Nat}

theorem links_iff (h : Relinks base how entity relation source d entries last P writes d') :
    target ∈ d'.view.targets relation source ↔ P target := by
  rw [h.targets_iff, if_pos ⟨rfl, rfl⟩]

theorem congr (h : Relinks base how entity relation source d entries last P writes d')
    (same : ∀ id, P id ↔ Q id) :
    Relinks base how entity relation source d entries last Q writes d' :=
  { h with targets_iff := fun relation' source' target => by rw [h.targets_iff, same] }

theorem refl (same : ∀ id, P id ↔ id ∈ d.view.targets relation source) :
    Relinks base how entity relation source d [] (d.lastId entity) P 0 d where
  able := .inr ⟨rfl, rfl⟩
  defined none := absurd rfl none
  table other := by
    split
    · exact Std.ExtTreeMap.insertMany_nil.symm
    · rfl
  lastId other := by
    split
    · subst other
      rfl
    · rfl
  targets_iff relation' source' target := by grind
  relationWrites := rfl

theorem trans (first : Relinks base how entity relation source d entries last P writes d₁)
    (then' : Relinks base how entity relation source d₁ entries' last' Q writes' d') :
    Relinks base how entity relation source d (entries ++ entries') last' Q (writes + writes')
      d' where
  able := by
    rcases first.able with able | ⟨rfl, rfl⟩
    · exact .inl able
    · rcases then'.able with able | ⟨rfl, rfl⟩
      · exact .inl able
      · exact .inr ⟨rfl, rfl⟩
  defined some := by
    by_cases none : entries = []
    · exact then'.defined fun none' => some (by rw [none, none']; rfl)
    · exact first.defined none
  table other := by
    rw [then'.table, first.table]
    split
    · rw [Std.ExtTreeMap.insertMany_append]
    · rfl
  lastId other := by
    rw [then'.lastId, first.lastId]
    split <;> rfl
  targets_iff relation' source' target := by
    rw [then'.targets_iff]
    split
    · rfl
    · rw [first.targets_iff, if_neg ‹_›]
  relationWrites := by rw [then'.relationWrites, first.relationWrites, Nat.add_assoc]

theorem links (first : Relinks base how entity relation source d entries last P writes d₁)
    (then' : Relinks base how entity relation source d₁ [] (d₁.lastId entity) Q writes' d') :
    Relinks base how entity relation source d entries last Q (writes + writes') d' := by
  have both := first.trans then'
  rwa [List.append_nil, first.lastId, if_pos rfl] at both

theorem of_relPut (able : how = some .write)
    (done : relPut base relation source target d = .ok ((), d')) :
    Relinks base how entity relation source d [] (d.lastId entity)
      (fun id => id = target ∨ id ∈ d.view.targets relation source) 1 d' := by
  unfold relPut linkable at done
  split at done
  case isFalse => cases done
  case isTrue =>
    split at done
    case isTrue => cases done
    case isFalse =>
      cases done
      have same : Relinks base how entity relation source d [] (d.lastId entity) _ 0 d :=
        refl fun _ => Iff.rfl
      refine { same with
        able := .inl able
        targets_iff := fun relation' source' id => ?_
        relationWrites := rfl }
      rw [Snapshot.mem_targets_link]
      grind

theorem of_relRemove (able : how = some .write)
    (done : relRemove base relation source target d = .ok ((), d')) :
    Relinks base how entity relation source d [] (d.lastId entity)
      (fun id => id ∈ d.view.targets relation source ∧ id ≠ target) 1 d' := by
  unfold relRemove linkable at done
  split at done
  case isFalse => cases done
  case isTrue =>
    cases done
    have same : Relinks base how entity relation source d [] (d.lastId entity) _ 0 d :=
      refl fun _ => Iff.rfl
    refine { same with
      able := .inl able
      table := fun other => ?_
      targets_iff := fun relation' source' id => ?_
      relationWrites := rfl }
    · rw [Snapshot.table_eq_of_records Snapshot.unlink_records]
      exact same.table other
    · rw [Snapshot.mem_targets_unlink]
      grind

theorem of_put {record : Bytes} {id : ObjectId} (able : how = some .write)
    (drawn : idForPut base entity 0 d = .ok (id, d₁))
    (done : put base entity id record .put d₁ = .ok ((), d')) :
    (d.lastId entity).toNat ≠ Engine.maxId ∧ id = d.lastId entity + 1 ∧
      Relinks base how entity relation source d [(id, record)] id
        (· ∈ d.view.targets relation source) 0 d' := by
  obtain ⟨room, rfl, rfl⟩ := idForPut_new drawn
  obtain ⟨defined, rfl⟩ := put_run done
  refine ⟨room, rfl, .inl able, fun _ => defined, fun other => ?_, fun other => ?_, ?_, rfl⟩
  · rw [view_stored, view_setLastId, Snapshot.insertMany_table]
  · have same : max (d.lastId entity + 1) (d.lastId entity + 1) = d.lastId entity + 1 := by
      rw [max_eq_ite, ite_self]
    rw [stored, lastId_setLastId, lastId_setLastId, if_pos rfl, same]
    split
    · rfl
    · exact (lastId_setLastId ..).trans (if_neg ‹_›)
  · intro relation' source' target
    rw [view_stored, view_setLastId, Snapshot.targets_eq_of_links Snapshot.insertMany_links]
    grind

end Draft.Relinks

/-! ## Programs -/

namespace Store

open Editing

variable {T : Type} {u : Setting} {how : Option TxnMode} {relation : Relation}
  {source : ObjectId} {d : Draft}

section Targets

variable {b : Box T} {target : T} {targets : List T} {linked : IdSet}

theorem putTarget_ensures (unsaved : b.binding.id target = .ok 0)
    (simple : b.descriptor.hasRelations = false) :
    Ensures u how (b.put (some u.txn)) (target, d) fun id w => ∃ entries,
      b.binding.Saves (d.lastId b.entity) target w.1 id entries id ∧
      d.Relinks u.base how b.entity relation.id source entries id
        (· ∈ d.view.targets relation.id source) 0 w.2 := by
  refine .bind (.ensureOpen fun _ => .bind (.currentId fun current carried => ?_))
  obtain rfl : current = 0 := Except.ok.inj (carried.symm.trans unsaved)
  simp only [reduceCtorEq, false_and, if_false, Option.isNone_some, Bool.false_eq_true, Box.write,
    simple, bind_assoc, pure_bind]
  refine .bind (.allocateOne fun id d₁ able drawn => .bind (.current (.bind ?_)))
  refine .encode fun record made => .bind (.write Draft.serves_put rfl rfl fun _ d₂ _ put => ?_)
  obtain ⟨room, rfl, stored⟩ := Draft.Relinks.of_put able drawn put
  rw [if_pos (Engine.succ_ne_zero room)]
  refine .bind (.assignId fun target' given => .pure ?_)
  exact ⟨_, .stored unsaved room made given, stored⟩

/-- A target that is linked is taken off the links that are left, another one is linked. -/
theorem linkTarget_ensures
    (simple : b.binding.id target = .ok 0 → b.descriptor.hasRelations = false)
    (below : ∀ id ∈ linked, id ∈ d.view.targets relation.id source) :
    Ensures u how (linkTarget b u.txn relation source linked) (target, d) fun left w =>
      ∃ id entries last writes, b.binding.Saves (d.lastId b.entity) target w.1 id entries last ∧
        (∀ other, other ∈ left ↔ other ∈ linked ∧ other ≠ id) ∧
        writes + linked.size = 1 + left.size ∧
        d.Relinks u.base how b.entity relation.id source entries last
          (fun other => other = id ∨ other ∈ d.view.targets relation.id source) writes w.2 := by
  -- what is left to do once the target is stored
  have linking {id last : ObjectId} {target' : T} {entries : List (ObjectId × Bytes)} {d₁ : Draft}
      (saves : b.binding.Saves (d.lastId b.entity) target target' id entries last)
      (stored : d.Relinks u.base how b.entity relation.id source entries last
        (· ∈ d.view.targets relation.id source) 0 d₁) :
      Ensures u how (do
        if linked.contains id then return linked.erase id
        HostM.request "rel_put" (.relPut (some u.txn.handle) relation.id source id)
        return linked) (target', d₁) fun left w =>
          ∃ id entries last writes, b.binding.Saves (d.lastId b.entity) target w.1 id entries last ∧
            (∀ other, other ∈ left ↔ other ∈ linked ∧ other ≠ id) ∧
            writes + linked.size = 1 + left.size ∧
            d.Relinks u.base how b.entity relation.id source entries last
              (fun other => other = id ∨ other ∈ d.view.targets relation.id source) writes w.2 := by
    refine .ite (fun wanted => .pure ?_) fun unwanted => ?_
    · have member := Std.ExtTreeSet.contains_iff_mem.mp wanted
      have filled : linked.size ≠ 0 := fun none => by
        rw [← Std.ExtTreeSet.eq_empty_iff_size_eq_zero] at none
        exact Std.ExtTreeSet.eq_empty_iff_forall_not_mem.mp none id member
      refine ⟨id, entries, last, 0, saves, by grind, ?_, stored.congr fun other => ?_⟩
      · rw [Std.ExtTreeSet.size_erase, if_pos wanted]
        omega
      · have known := below id member
        grind
    · refine .bind (.write Draft.serves_relPut rfl rfl fun _ d₂ able put => .pure ?_)
      have put := (stored.links (.of_relPut able put)).congr fun other =>
        or_congr_right stored.links_iff
      exact ⟨id, entries, last, 1, saves, by grind, rfl, put⟩
  refine .bind (.currentId fun current carried => ?_)
  by_cases unsaved : current = 0
  · subst unsaved
    rw [if_pos rfl]
    have put := @putTarget_ensures _ u how relation source d b target carried (simple carried)
    refine .bind (put.mono ?_)
    rintro id w ⟨entries, saves, stored⟩
    exact linking saves stored
  · rw [if_neg unsaved, pure_bind]
    exact linking (.kept carried unsaved) (.refl fun _ => Iff.rfl)

theorem linkTargets_ensures_nil {Q : IdSet → List T × Draft → Prop} (h : Q linked ([], d)) :
    Ensures u how (linkTargets b u.txn relation source linked) ([], d) Q := by
  refine linkTargets_nil ?_
  rintro _ ⟨⟩
  exact ⟨([], d), rfl, h⟩

theorem linkTargets_ensures_cons {Q : IdSet → List T × Draft → Prop}
    (h : Ensures u how (linkTarget b u.txn relation source linked) (target, d) fun linked w =>
      Ensures u how (linkTargets b u.txn relation source linked) (targets, w.2) fun left w' =>
        Q left (w.1 :: w'.1, w'.2)) :
    Ensures u how (linkTargets b u.txn relation source linked) (target :: targets, d) Q := by
  refine linkTargets_cons (Leads.mono h ?_)
  rintro (why | linked) v first
  · rintro _ ⟨⟩
  · obtain ⟨w, rfl, rest⟩ := first linked rfl
    rw [Further]
    refine Leads.mono rest fun r v last left succeeded => ?_
    obtain ⟨w', rfl, holds⟩ := last left succeeded
    exact ⟨(w.1 :: w'.1, w'.2), rfl, holds⟩

/-- Every target is stored and linked; the links that are left lead to none of them. Every target
    that takes no link off is written, a second one of an id as well. -/
theorem linkTargets_ensures
    (simple : ∀ target ∈ targets, b.binding.id target = .ok 0 → b.descriptor.hasRelations = false)
    (below : ∀ id ∈ linked, id ∈ d.view.targets relation.id source) :
    Ensures u how (linkTargets b u.txn relation source linked) (targets, d) fun left w =>
      ∃ ids entries last writes,
        b.binding.SavesAll (d.lastId b.entity) targets w.1 ids entries last ∧
        (∀ other, other ∈ left ↔ other ∈ linked ∧ other ∉ ids) ∧
        writes + linked.size = ids.length + left.size ∧
        d.Relinks u.base how b.entity relation.id source entries last
          (fun other => other ∈ ids ∨ other ∈ d.view.targets relation.id source) writes w.2 := by
  induction targets generalizing linked d with
  | nil =>
      refine linkTargets_ensures_nil ⟨[], [], _, 0, .nil, by simp, by simp, ?_⟩
      exact .refl (by simp)
  | cons target targets ih =>
      refine linkTargets_ensures_cons ((linkTarget_ensures (simple target (.head _)) below).mono ?_)
      rintro linked₁ ⟨target', d₁⟩ ⟨id, entries, last, writes, saves, left, count, relinks⟩
      have below₁ : ∀ id ∈ linked₁, id ∈ d₁.view.targets relation.id source := fun other member =>
        relinks.links_iff.mpr (.inr (below other ((left other).mp member).1))
      refine (ih (fun target member => simple target (.tail _ member)) below₁).mono ?_
      rintro left' ⟨targets', d'⟩ ⟨ids, entries', last', writes', saves', left'', count', relinks'⟩
      rw [relinks.lastId, if_pos rfl] at saves'
      refine ⟨id :: ids, entries ++ entries', last', writes + writes', .cons saves saves', ?_, ?_,
        (relinks.trans relinks').congr fun other => ?_⟩
      · intro other
        rw [left'', left, List.mem_cons]
        grind
      · rw [List.length_cons]
        omega
      · rw [relinks.links_iff, List.mem_cons]
        grind

end Targets

theorem unlinkAll_ensures {σ : Type} (entity : EntityId) {objects : σ}
    {unwanted : List ObjectId} :
    Ensures u how (unwanted.forM fun target =>
        (HostM.request "rel_remove" (.relRemove (some u.txn.handle) relation.id source target) :
          Editing σ Unit)) (objects, d) fun _ w => w.1 = objects ∧
      d.Relinks u.base how entity relation.id source [] (d.lastId entity)
        (fun id => id ∈ d.view.targets relation.id source ∧ id ∉ unwanted) unwanted.length w.2 := by
  induction unwanted generalizing d with
  | nil => exact .pure ⟨rfl, .refl (by simp)⟩
  | cons target unwanted ih =>
      refine .bind (.write Draft.serves_relRemove rfl rfl fun _ d₁ able removed => ?_)
      have first : d.Relinks u.base how entity relation.id source [] _ _ 1 d₁ :=
        .of_relRemove able removed
      refine ih.mono fun _ w rest => ⟨rest.1, ?_⟩
      rw [List.length_cons, Nat.add_comm]
      refine (first.links rest.2).congr fun id => ?_
      rw [first.links_iff, List.mem_cons]
      grind

end Store

/-! ## Sets of links -/

section Sets

variable {linked ids : List ObjectId} {left : IdSet}

theorem size_idSet {s : IdSet} {f : Finset ObjectId} (same : ∀ id, id ∈ s ↔ id ∈ f) :
    s.size = f.card := by
  have distinct : s.toList.Nodup :=
    Std.ExtTreeSet.distinct_toList.imp fun other same => other (Std.compare_eq_iff_eq.mpr same)
  have listed : s.toList.toFinset = f := by
    ext id
    rw [List.mem_toFinset, Std.ExtTreeSet.mem_toList, same]
  rw [← Std.ExtTreeSet.length_toList, ← List.toFinset_card_of_nodup distinct, listed]

/-- Writes are made for the targets that are not linked, for the links that are left over, and for
    every repetition of an id. -/
theorem count_writes {writes : Nat}
    (left_iff : ∀ id, id ∈ left ↔ id ∈ linked ∧ id ∉ ids)
    (count : writes + linked.toFinset.card = ids.length + left.size) :
    writes + left.size + ids.toFinset.card = (ids.toFinset \ linked.toFinset).card +
      (linked.toFinset \ ids.toFinset).card + ids.length := by
  have surplus : left.size = (linked.toFinset \ ids.toFinset).card :=
    size_idSet fun id => by
      rw [left_iff, Finset.mem_sdiff, List.mem_toFinset, List.mem_toFinset]
  have split := Finset.card_sdiff_add_card_inter linked.toFinset ids.toFinset
  have split' := Finset.card_sdiff_add_card_inter ids.toFinset linked.toFinset
  rw [Finset.inter_comm] at split'
  omega

end Sets

/-- What becomes of the targets of a source and of a draft when they are made the ones the source is
linked to, of which some are known. -/
structure Binding.Relinks {T : Type} (binding : Binding T) (base : Engine) (how : Option TxnMode)
    (entity : EntityId) (relation : RelationId) (source : ObjectId) (linked : List ObjectId)
    (d : Draft) (targets now : List T) (ids : List ObjectId) (entries : List (ObjectId × Bytes))
    (last : ObjectId) (writes : Nat) (d' : Draft) : Prop
    extends d.Relinks base how entity relation source entries last
      (fun id => id ∈ ids ∨ id ∈ d.view.targets relation source ∧ id ∉ linked) writes d' where
  saves : binding.SavesAll (d.lastId entity) targets now ids entries last
  count : writes + ids.toFinset.card =
    (ids.toFinset \ linked.toFinset).card + (linked.toFinset \ ids.toFinset).card + ids.length

namespace Store

open Editing

variable {T : Type} {u : Setting} {how : Option TxnMode} {relation : Relation}
  {source stored : ObjectId} {d : Draft} {binding : Binding T} {targets : List T}

theorem relink_ensures {linked : List ObjectId}
    (simple : ∀ entity, u.store.registered binding.name = .ok entity → ∀ target ∈ targets,
      binding.id target = .ok 0 → entity.hasRelations = false)
    (below : ∀ id ∈ linked, id ∈ d.view.targets relation.id source) :
    Ensures u how (do
        let b ← boxFor binding
        let unwanted ← Editing.focus (fun targets => targets.getD [])
          (fun _ targets => some targets)
          (linkTargets b u.txn relation source (.ofList linked))
        unwanted.toList.forM fun target =>
          HostM.request "rel_remove" (.relRemove (some u.txn.handle) relation.id source target) :
        Editing (Option (List T)) Unit) (some targets, d) fun _ w =>
      ∃ entity now ids entries last writes, u.store.registered binding.name = .ok entity ∧
        w.1 = some now ∧ binding.Relinks u.base how entity.id relation.id source linked d targets
          now ids entries last writes w.2 := by
  refine .boxFor fun entity registered => .bind (.focus ?_)
  have below' (id : ObjectId) (member : id ∈ Std.ExtTreeSet.ofList linked compare) :
      id ∈ d.view.targets relation.id source := below id (by simpa using member)
  refine (linkTargets_ensures (simple entity registered) below').mono ?_
  rintro left ⟨now, d₁⟩ ⟨ids, entries, last, writes, saves, left_iff, count, relinks⟩
  have left_iff : ∀ id, id ∈ left ↔ id ∈ linked ∧ id ∉ ids := by simpa using left_iff
  have size : (Std.ExtTreeSet.ofList linked compare).size = linked.toFinset.card :=
    size_idSet (by simp)
  rw [size] at count
  refine (unlinkAll_ensures entity.id).mono ?_
  rintro _ ⟨_, d'⟩ ⟨rfl, removed⟩
  rw [Std.ExtTreeSet.length_toList] at removed
  refine ⟨entity, now, ids, entries, last, writes + left.size, registered, rfl,
    (relinks.links removed).congr fun id => ?_, saves, count_writes left_iff count⟩
  rw [relinks.links_iff, Std.ExtTreeSet.mem_toList, left_iff]
  have := below id
  grind

theorem replaceLinks_ensures (same : stored ≠ 0 → stored = source)
    (simple : ∀ entity, u.store.registered binding.name = .ok entity → ∀ target ∈ targets,
      binding.id target = .ok 0 → entity.hasRelations = false) :
    Ensures u how (replaceLinks binding u.txn relation source stored) (some targets, d) fun _ w =>
      ∃ entity now ids entries last writes, u.store.registered binding.name = .ok entity ∧
        (stored ≠ 0 → how ≠ none ∧ u.base.relations.contains relation.id = true) ∧
        w.1 = some now ∧ binding.Relinks u.base how entity.id relation.id source
          (if stored = 0 then [] else (d.view.targets relation.id source).toList) d targets now ids
          entries last writes w.2 := by
  refine .bind (.current ?_)
  dsimp only
  split
  case isTrue new =>
    rw [pure_bind]
    refine (relink_ensures simple (by simp)).mono ?_
    rintro _ w ⟨entity, now, ids, entries, last, writes, registered, changed, relinks⟩
    exact ⟨entity, now, ids, entries, last, writes, registered, absurd new, changed, relinks⟩
  case isFalse old =>
    refine .bind (.relGetIds fun opened known => ?_)
    rw [same old]
    refine (relink_ensures simple fun id => Std.ExtTreeSet.mem_toList.mp).mono ?_
    rintro _ w ⟨entity, now, ids, entries, last, writes, registered, changed, relinks⟩
    exact ⟨entity, now, ids, entries, last, writes, registered, fun _ => ⟨opened, known⟩, changed,
      relinks⟩

end Store

end ObjectStore
