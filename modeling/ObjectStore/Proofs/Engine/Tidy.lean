import ObjectStore.Proofs.Engine.Holdings
import ObjectStore.Proofs.Engine.WriterSlot

/-! # Normal form

A snapshot keeps no empty table, no relation without links and no source without targets; an engine
keeps no sequence at 0. So a snapshot is known by what it shows: two that have the same records and
the same links are equal, whatever order they were filled in (`Snapshot.Tidy.ext`). Every call keeps
this form, so it holds of every engine that arises.
-/

namespace ObjectStore

/-- Maps that keep no default value are known by what they hold under each key. -/
theorem eq_of_getD {κ β : Type} {cmp : κ → κ → Ordering} [Std.TransCmp cmp] [Std.LawfulEqCmp cmp]
    {m m' : Std.ExtTreeMap κ β cmp} {default : β}
    (kept : ∀ {k : κ} {v : β}, m[k]? = some v → v ≠ default)
    (kept' : ∀ {k : κ} {v : β}, m'[k]? = some v → v ≠ default)
    (same : ∀ k, m.getD k default = m'.getD k default) : m = m' := by
  ext k : 1
  have shown := same k
  rw [Std.ExtTreeMap.getD_eq_getD_getElem?, Std.ExtTreeMap.getD_eq_getD_getElem?] at shown
  cases left : m[k]? with
  | none =>
      cases right : m'[k]? with
      | none => rfl
      | some v' =>
          rw [left, right] at shown
          exact absurd shown.symm (kept' right)
  | some v =>
      rw [left, Option.getD_some] at shown
      cases right : m'[k]? with
      | none =>
          rw [right] at shown
          exact absurd shown (kept left)
      | some v' =>
          rw [right, Option.getD_some] at shown
          rw [shown]

namespace Snapshot

variable {s s' : Snapshot} {entity : EntityId} {relation : RelationId} {id source target : ObjectId}

/-- Nothing empty is kept. -/
structure Tidy (s : Snapshot) : Prop where
  records {entity : EntityId} {table : Table} : s.records[entity]? = some table → table ≠ ∅
  links {relation : RelationId} {links : LinkTable} : s.links[relation]? = some links → links ≠ ∅
  targets {relation : RelationId} {source : ObjectId} {targets : IdSet} :
    (s.linkTable relation)[source]? = some targets → targets ≠ ∅

namespace Tidy

/-- Snapshots that show the same records and the same links are equal. -/
theorem ext (h : s.Tidy) (h' : s'.Tidy)
    (records : ∀ entity id, s.record? entity id = s'.record? entity id)
    (targets : ∀ relation source, s.targets relation source = s'.targets relation source) :
    s = s' := by
  have tables : s.records = s'.records :=
    eq_of_getD h.records h'.records fun entity => Std.ExtTreeMap.ext_getElem? (records entity)
  have links : s.links = s'.links :=
    eq_of_getD h.links h'.links fun relation =>
      eq_of_getD h.targets h'.targets (targets relation)
  cases s
  cases s'
  congr

theorem blank : Tidy {} where
  records found := by simp at found
  links found := by simp at found
  targets found := by simp [linkTable] at found

theorem setTable {table : Table} (h : s.Tidy) : (s.setTable entity table).Tidy where
  records {entity' table'} found := by
    have old := @h.records entity' table'
    simp only [Snapshot.setTable] at found
    split at found
    · grind
    case isFalse filled =>
      have filled : table ≠ ∅ := fun none => filled (none ▸ rfl)
      grind
  links := h.links
  targets := h.targets

/-- Other links of a relation, as long as each source has targets. -/
theorem setLinks {links : LinkTable} (h : s.Tidy)
    (full : ∀ {source : ObjectId} {targets : IdSet}, links[source]? = some targets → targets ≠ ∅) :
    (s.setLinks relation links).Tidy where
  records := h.records
  links {relation' links'} found := by
    have old := @h.links relation' links'
    simp only [Snapshot.setLinks] at found
    split at found
    · grind
    case isFalse filled =>
      have filled : links ≠ ∅ := fun none => filled (none ▸ rfl)
      grind
  targets {relation' source targets} found := by
    rw [setLinks_linkTable] at found
    split at found
    · exact full found
    · exact h.targets found

theorem link (h : s.Tidy) : (s.link relation source target).Tidy := by
  refine h.setLinks fun {source' targets} found => ?_
  have old := @h.targets relation source' targets
  have linked : (s.targets relation source).insert target ≠ ∅ := by
    intro none
    have member : target ∈ (∅ : IdSet) := none ▸ Std.ExtTreeSet.mem_insert_self
    simp at member
  grind

theorem unlink (h : s.Tidy) : (s.unlink relation source target).Tidy := by
  rw [Snapshot.unlink]
  split
  · refine h.setLinks fun {source' targets} found => ?_
    have old := @h.targets relation source' targets
    split at found
    · grind
    case isFalse filled =>
      have filled : (s.targets relation source).erase target ≠ ∅ := fun none => filled (none ▸ rfl)
      grind
  · exact h

theorem unlinkSource (h : s.Tidy) : (s.unlinkSource relation id).Tidy := by
  rw [Snapshot.unlinkSource]
  split
  · refine h.setLinks fun {source targets} found => ?_
    have old := @h.targets relation source targets
    grind
  · exact h

theorem unlinkTarget (h : s.Tidy) : (s.unlinkTarget relation id).Tidy :=
  List.foldlRecOn _ _ h fun _ tidy _ _ => tidy.unlink

theorem unlinkObject {outgoing incoming : List RelationId} (h : s.Tidy) :
    (s.unlinkObject outgoing incoming id).Tidy :=
  List.foldlRecOn _ _ (List.foldlRecOn _ _ h fun _ tidy _ _ => tidy.unlinkSource)
    fun _ tidy _ _ => tidy.unlinkTarget

theorem unlinkObjects {outgoing incoming : List RelationId} {ids : List ObjectId} (h : s.Tidy) :
    (ids.foldl (fun s id => s.unlinkObject outgoing incoming id) s).Tidy :=
  List.foldlRecOn _ _ h fun _ tidy _ _ => tidy.unlinkObject

end Tidy

end Snapshot

namespace Engine

variable {e e' : Engine} {thread : ThreadId} {served : Served} {arrays : Bool}

/-- Every snapshot is in normal form, and no sequence is at 0. -/
structure Tidy (e : Engine) : Prop where
  snapshots : e.Throughout Snapshot.Tidy
  sequences {entity : EntityId} {id : ObjectId} : e.sequences[entity]? = some id → id ≠ 0

namespace Tidy

theorem setLastId (h : e.Tidy) {entity : EntityId} {id : ObjectId} :
    (e.setLastId entity id).Tidy where
  snapshots := h.snapshots.of_same rfl fun found => found
  sequences {entity' id'} found := by
    have old := @h.sequences entity' id'
    simp only [Engine.setLastId] at found
    grind

theorem wrote {txn : Option Handle} {s s' : Snapshot} (h : e.Tidy) (wrote : e.Wrote txn s s' e')
    (kept : s.Tidy → s'.Tidy) : e'.Tidy where
  snapshots := h.snapshots.wrote wrote kept
  sequences := by cases wrote <;> exact h.sequences

/-- Every write leaves a snapshot in normal form. -/
theorem written {txn : Option Handle} {write : Served} (h : e.Tidy)
    (plays : served.part = .writes txn write)
    (done : e.perform thread served.call = .ok (served.answer, e')) : e'.Tidy := by
  obtain ⟨call, answer⟩ := served
  cases call with
  | put txn entity id record mode =>
      obtain ⟨-, s, e₁, wrote, -, rfl⟩ := put_eq_ok.mp (changing_eq_ok.mp done)
      exact (h.wrote wrote .setTable).setLastId
  | putMany txn entity ids records mode =>
      obtain ⟨-, -, -, s, e₁, wrote, -, rfl⟩ := putMany_eq_ok.mp (changing_eq_ok.mp done)
      exact (h.wrote wrote .setTable).setLastId
  | remove txn entity id =>
      obtain ⟨-, s, -, wrote⟩ := remove_eq_ok.mp (changing_eq_ok.mp done)
      exact h.wrote wrote fun tidy => tidy.setTable.unlinkObject
  | removeMany txn entity ids =>
      obtain ⟨-, s, wrote, -⟩ := removeMany_eq_ok.mp done
      exact h.wrote wrote fun tidy => tidy.setTable.unlinkObjects
  | removeAll txn entity =>
      obtain ⟨-, s, wrote, -⟩ := removeAll_eq_ok.mp done
      exact h.wrote wrote fun tidy => tidy.setTable.unlinkObjects
  | relPut txn relation source target =>
      obtain ⟨-, -, s, e₁, wrote, rfl⟩ := relPut_eq_ok.mp (changing_eq_ok.mp done)
      have linked := h.wrote wrote .link
      exact ⟨linked.snapshots.recount, linked.sequences⟩
  | relRemove txn relation source target =>
      obtain ⟨-, s, e₁, wrote, rfl⟩ := relRemove_eq_ok.mp (changing_eq_ok.mp done)
      have unlinked := h.wrote wrote .unlink
      exact ⟨unlinked.snapshots.recount, unlinked.sequences⟩
  | _ => simp [Served.part] at plays

theorem perform (h : e.Tidy)
    (done : e.perform thread served.call = .ok (served.answer, e')) : e'.Tidy where
  snapshots := h.snapshots.perform (fun plays => (h.written plays done).snapshots) done
  sequences := by
    cases moved_of_perform done with
    | defined defines =>
        obtain ⟨entities, relations, rfl⟩ := eq_of_defines defines done
        exact h.sequences
    | numbered => exact h.setLastId.sequences
    | wrote plays => exact (h.written plays done).sequences
    | _ => exact h.sequences

end Tidy

theorem Arises.tidy (h : e.Arises arrays) : e.Tidy := by
  induction h with
  | fresh => exact ⟨⟨.blank, fun found => by simp at found⟩, fun found => by simp at found⟩
  | served _ done ih => exact ih.perform done

theorem Arises.arrays_eq (h : e.Arises arrays) : e.arrays = arrays := by
  induction h with
  | fresh => rfl
  | @served e e' thread served _ done ih =>
      rw [← ih]
      cases quiet : served.call.defines with
      | false => exact arrays_of_perform quiet done
      | true =>
          obtain ⟨entities, relations, rfl⟩ := eq_of_defines quiet done
          rfl

/-! ## Where a write is made -/

/-- A write can be made: through the open write transaction or, while there is none, without one. -/
def MayWrite (e : Engine) : Option Handle → Prop
  | some txn => e.Writing txn
  | none => ∀ txn, ¬ e.Writing txn

/-- A write is made on the snapshot of its transaction or, without one, on the committed one. -/
inductive WritesOn (e : Engine) : Option Handle → Snapshot → Prop where
  | inTxn {txn : Handle} {s : Snapshot} : e.txns[txn]? = some ⟨.write, s⟩ → e.WritesOn (some txn) s
  | alone : e.writer = none → e.WritesOn none e.committed

theorem Arises.books (h : e.Arises arrays) : ∃ history, Books history e := by
  induction h with
  | fresh => exact ⟨[], .fresh arrays⟩
  | served _ done ih =>
      obtain ⟨history, books⟩ := ih
      exact ⟨_, books.served done⟩

/-- While no write transaction is open, the writer slot is free. -/
theorem Arises.writesOn {txn : Option Handle} (h : e.Arises arrays) (may : e.MayWrite txn) :
    ∃ s, e.WritesOn txn s := by
  cases txn with
  | some txn =>
      obtain ⟨s, found⟩ := may
      exact ⟨s, .inTxn found⟩
  | none =>
      refine ⟨e.committed, .alone (Option.eq_none_iff_forall_ne_some.mpr fun thread occupied => ?_)⟩
      obtain ⟨history, books⟩ := h.books
      obtain ⟨txn, working, -⟩ := books.held occupied
      exact may txn working

/-- The engine with another snapshot where a write is made. -/
def withView (e : Engine) : Option Handle → Snapshot → Engine
  | some txn, s => { e with txns := e.txns.insert txn ⟨.write, s⟩ }
  | none, s => { e with committed := s }

namespace WritesOn

variable {txn : Option Handle} {s s' : Snapshot}

theorem view (h : e.WritesOn txn s) : e.view txn = .ok s := by
  cases h with
  | inTxn found => exact view_eq_ok.mpr ⟨_, found⟩
  | alone => rfl

theorem withView (h : e.WritesOn txn s) : (e.withView txn s').WritesOn txn s' := by
  cases h with
  | inTxn => exact .inTxn Std.ExtTreeMap.getElem?_insert_self
  | alone free => exact .alone free

/-- The snapshot that is there already. -/
theorem withView_self (h : e.WritesOn txn s) : e.withView txn s = e := by
  cases h with
  | @inTxn txn s found =>
      have same : e.txns.insert txn ⟨.write, s⟩ = e.txns := by
        ext txn' : 1
        grind
      rw [Engine.withView, same]
  | alone => rfl

theorem observe {entity : EntityId} {ids : List ObjectId} (h : e.WritesOn txn s) :
    (e.observe entity ids).WritesOn txn s := by
  cases h with
  | inTxn found => exact .inTxn found
  | alone free => exact .alone (e := e.observe entity ids) free

theorem wrote (h : e.WritesOn txn s) : e.Wrote txn s s' (e.withView txn s') := by
  cases h with
  | inTxn found => exact .inTxn found
  | alone free => exact .alone free

/-- Whether a write succeeds is up to its change. -/
theorem write_eq {α : Type} {change : Snapshot → Except Refusal (α × Snapshot)}
    (h : e.WritesOn txn s) : e.write thread txn change =
      ((change s).mapError .refused).map fun (answer, s') => (answer, e.withView txn s') := by
  cases h with
  | inTxn found =>
      have opened : e.writeTxn _ = .ok _ := writeTxn_eq_ok.mpr ⟨found, rfl⟩
      simp only [write, opened, bind, Except.bind]
      cases change s <;> rfl
  | alone free =>
      have free : e.requireWriterFree thread = .ok () := requireWriterFree_eq_ok.mpr free
      simp only [write, free, bind, Except.bind]
      cases change e.committed <;> rfl

end WritesOn

theorem relations_withView {txn : Option Handle} {s : Snapshot} :
    (e.withView txn s).relations = e.relations := by
  cases txn <;> rfl

theorem withView_withView {txn : Option Handle} {s s' : Snapshot} :
    (e.withView txn s).withView txn s' = e.withView txn s' := by
  cases txn with
  | none => rfl
  | some txn =>
      have same : (e.txns.insert txn ⟨.write, s⟩).insert txn ⟨.write, s'⟩ =
          e.txns.insert txn ⟨.write, s'⟩ := by
        ext txn' : 1
        grind
      simp only [withView, same]

end Engine

end ObjectStore
