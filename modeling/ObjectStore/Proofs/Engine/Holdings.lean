import ObjectStore.Proofs.Engine.Runs

/-! # What an engine holds

The records of the committed snapshot and of the open transactions come from the calls that store
records: a served call adds no others. So a property that every stored record has is had by every
record the engine holds, wherever it is (`Engine.All`).
-/

namespace ObjectStore

/-- The records a call stores, each with its entity type and its id. -/
def Call.stores : Call → List (EntityId × ObjectId × Bytes)
  | put _ entity id record _ => [(entity, id, record)]
  | putMany _ entity ids records _ => (ids.zip records).map fun entry => (entity, entry)
  | _ => []

variable {W : EntityId → ObjectId → Bytes → Prop}

/-- Every record a call stores has a property. -/
def Call.Stores (W : EntityId → ObjectId → Bytes → Prop) (call : Call) : Prop :=
  ∀ entity id record, (entity, id, record) ∈ call.stores → W entity id record

theorem Call.stores_put {txn : Option Handle} {entity : EntityId} {id : ObjectId} {record : Bytes}
    {mode : PutMode} : (put txn entity id record mode).Stores W ↔ W entity id record := by
  simp only [Stores, stores, List.mem_singleton, Prod.mk.injEq]
  constructor
  · intro allowed
    exact allowed entity id record ⟨rfl, rfl, rfl⟩
  · rintro allowed _ _ _ ⟨rfl, rfl, rfl⟩
    exact allowed

theorem Call.stores_putMany {txn : Option Handle} {entity : EntityId} {ids : List ObjectId}
    {records : List Bytes} {mode : PutMode} :
    (putMany txn entity ids records mode).Stores W ↔
      ∀ entry ∈ ids.zip records, W entity entry.1 entry.2 := by
  simp only [Stores, stores, List.mem_map, Prod.mk.injEq, Prod.forall]
  constructor
  · intro allowed id record member
    exact allowed entity id record ⟨(id, record), member, rfl, rfl⟩
  · rintro allowed _ id record ⟨_, member, rfl, rfl⟩
    exact allowed id record member

theorem Call.stores_of_nil {call : Call} (none : call.stores = []) : call.Stores W := by
  simp [Stores, none]

namespace Snapshot

variable {s s' : Snapshot} {entity : EntityId} {id : ObjectId} {record : Bytes}

/-- Every record of a snapshot has a property. -/
def All (W : EntityId → ObjectId → Bytes → Prop) (s : Snapshot) : Prop :=
  ∀ entity id record, s.record? entity id = some record → W entity id record

theorem all_iff_toList : s.All W ↔
    ∀ entry ∈ s.records.toList, ∀ row ∈ entry.2.toList, W entry.1 row.1 row.2 := by
  constructor
  · intro all entry member row held
    have table : s.table entry.1 = entry.2 := by
      rw [Snapshot.table, Std.ExtTreeMap.getD_eq_getD_getElem?,
        Std.ExtTreeMap.mem_toList_iff_getElem?_eq_some.mp member, Option.getD_some]
    refine all entry.1 row.1 row.2 ?_
    rw [record?, table]
    exact Std.ExtTreeMap.mem_toList_iff_getElem?_eq_some.mp held
  · intro listed entity id record found
    rw [record?, Snapshot.table, Std.ExtTreeMap.getD_eq_getD_getElem?] at found
    cases held : s.records[entity]? with
    | none => simp [held] at found
    | some table =>
        rw [held, Option.getD_some] at found
        exact listed (entity, table) (Std.ExtTreeMap.mem_toList_iff_getElem?_eq_some.mpr held)
          (id, record) (Std.ExtTreeMap.mem_toList_iff_getElem?_eq_some.mpr found)

instance [∀ entity id record, Decidable (W entity id record)] : Decidable (s.All W) :=
  decidable_of_iff _ all_iff_toList.symm

namespace All

theorem of_records (h : s.All W) (same : s'.records = s.records) : s'.All W := by
  intro entity id record found
  rw [record?, table_eq_of_records same] at found
  exact h entity id record found

theorem insert (h : s.All W) (allowed : W entity id record) :
    (s.insert entity id record).All W := by
  intro entity' id' record' found
  simp only [record?, insert_table] at found
  have old := h entity' id' record'
  grind [record?]

theorem insertMany {entries : List (ObjectId × Bytes)} (h : s.All W)
    (allowed : ∀ entry ∈ entries, W entity entry.1 entry.2) :
    (s.insertMany entity entries).All W := by
  have filled : ∀ (entries : List (ObjectId × Bytes)) (table : Table),
      (∀ entry ∈ entries, W entity entry.1 entry.2) →
      (∀ id record, table[id]? = some record → W entity id record) →
      ∀ id record, (entries.foldl (fun table entry => table.insert entry.1 entry.2) table)[id]? =
        some record → W entity id record := by
    intro entries
    induction entries with
    | nil => exact fun table _ old => old
    | cons entry entries ih =>
        intro table allowed old
        refine ih (table.insert entry.1 entry.2) (fun entry member => allowed entry (.tail _ member)) ?_
        have first := allowed entry (.head _)
        grind
  intro entity' id' record' found
  simp only [record?, Snapshot.insertMany, setTable_table] at found
  split at found
  · subst entity'
    exact filled entries _ allowed (h entity) id' record' found
  · exact h entity' id' record' found

theorem eraseMany {ids : List ObjectId} (h : s.All W) : (s.eraseMany entity ids).All W := by
  intro entity' id' record' found
  simp only [record?, eraseMany_table] at found
  split at found
  · rw [getElem?_eraseAll] at found
    split at found
    · simp at found
    · exact h entity' id' record' found
  · exact h entity' id' record' found

theorem clear (h : s.All W) : (s.setTable entity ∅).All W := by
  intro entity' id' record' found
  simp only [record?, setTable_table] at found
  split at found
  · simp at found
  · exact h entity' id' record' found

end All

end Snapshot

namespace Engine

variable {e e' : Engine} {thread : ThreadId} {served : Served}

/-- The committed snapshot and those of the open transactions have a property. -/
structure Throughout (P : Snapshot → Prop) (e : Engine) : Prop where
  committed : P e.committed
  opened {txn : Handle} {t : OpenTxn} : e.txns[txn]? = some t → P t.state

namespace Throughout

variable {P : Snapshot → Prop}

theorem of_same (h : e.Throughout P) (committed : e'.committed = e.committed)
    (txns : ∀ {txn : Handle} {t : OpenTxn}, e'.txns[txn]? = some t → e.txns[txn]? = some t) :
    e'.Throughout P :=
  ⟨committed ▸ h.committed, fun found => h.opened (txns found)⟩

theorem recount (h : e.Throughout P) {sequences : Std.ExtTreeMap EntityId ObjectId}
    {writes : Nat} : (e.recount sequences writes).Throughout P :=
  h.of_same rfl id

theorem wrote {txn : Option Handle} {s s' : Snapshot} (h : e.Throughout P)
    (wrote : e.Wrote txn s s' e') (kept : P s → P s') : e'.Throughout P := by
  cases wrote with
  | alone free => exact ⟨kept h.committed, h.opened⟩
  | inTxn found =>
      refine ⟨h.committed, fun {txn t} opened => ?_⟩
      rw [Std.ExtTreeMap.getElem?_insert] at opened
      split at opened
      · cases opened
        exact kept (h.opened found)
      · exact h.opened opened

theorem view {txn : Option Handle} {s : Snapshot} (h : e.Throughout P)
    (view : e.view txn = .ok s) : P s := by
  have seen := view_eq_ok.mp view
  cases txn with
  | none => exact seen ▸ h.committed
  | some txn =>
      obtain ⟨mode, found⟩ := seen
      exact h.opened found

/-- A served call keeps the property, if it does so wherever it writes. -/
theorem perform (h : e.Throughout P)
    (written : ∀ {txn write}, served.part = .writes txn write → e'.Throughout P)
    (done : e.perform thread served.call = .ok (served.answer, e')) : e'.Throughout P := by
  have moved := moved_of_perform done
  cases moved with
  | defined defines =>
      obtain ⟨entities, relations, rfl⟩ := eq_of_defines defines done
      exact ⟨h.committed, h.opened⟩
  | read plays => exact h
  | numbered plays grows => exact h.of_same rfl id
  | began plays free =>
      refine ⟨h.committed, fun {txn t} found => ?_⟩
      rw [Std.ExtTreeMap.getElem?_insert] at found
      split at found
      · cases found
        exact h.committed
      · exact h.opened found
  | committed plays found =>
      refine ⟨h.opened found, fun {txn' t} left => h.opened (?_ : e.txns[txn']? = some t)⟩
      grind
  | aborted plays found | closed plays found =>
      refine ⟨h.committed, fun {txn' t} left => h.opened (?_ : e.txns[txn']? = some t)⟩
      grind
  | wrote plays => exact written plays

end Throughout

/-- Every record of the committed snapshot and of the open transactions has a property. -/
structure All (W : EntityId → ObjectId → Bytes → Prop) (e : Engine) : Prop where
  committed : e.committed.All W
  opened {txn : Handle} {t : OpenTxn} : e.txns[txn]? = some t → t.state.All W

theorem all_iff : e.All W ↔ e.Throughout (Snapshot.All W) :=
  ⟨fun h => ⟨h.committed, h.opened⟩, fun h => ⟨h.committed, h.opened⟩⟩

namespace All

theorem view {txn : Option Handle} {s : Snapshot} (h : e.All W) (view : e.view txn = .ok s) :
    s.All W :=
  (all_iff.mp h).view view

theorem written {write : Served} {txn : Option Handle} (h : e.All W)
    (stores : served.call.Stores W) (plays : served.part = .writes txn write)
    (done : e.perform thread served.call = .ok (served.answer, e')) :
    e'.Throughout (Snapshot.All W) := by
  have all := all_iff.mp h
  obtain ⟨call, answer⟩ := served
  cases call with
  | put txn entity id record mode =>
      obtain ⟨-, s, e₁, wrote, -, rfl⟩ := put_eq_ok.mp (changing_eq_ok.mp done)
      rw [observe_eq_recount]
      exact (all.wrote wrote fun all => all.insert (Call.stores_put.mp stores)).recount
  | putMany txn entity ids records mode =>
      obtain ⟨-, -, -, s, e₁, wrote, -, rfl⟩ := putMany_eq_ok.mp (changing_eq_ok.mp done)
      rw [observe_eq_recount]
      exact (all.wrote wrote fun all => all.insertMany (Call.stores_putMany.mp stores)).recount
  | remove txn entity id =>
      obtain ⟨-, s, -, wrote⟩ := remove_eq_ok.mp (changing_eq_ok.mp done)
      exact all.wrote wrote fun all => all.eraseMany.of_records Snapshot.unlinkObject_records
  | removeMany txn entity ids =>
      obtain ⟨-, s, wrote, -⟩ := removeMany_eq_ok.mp done
      exact all.wrote wrote fun all => all.eraseMany.of_records Snapshot.unlinkObjects_records
  | removeAll txn entity =>
      obtain ⟨-, s, wrote, -⟩ := removeAll_eq_ok.mp done
      exact all.wrote wrote fun all => all.clear.of_records Snapshot.unlinkObjects_records
  | relPut txn relation source target =>
      obtain ⟨-, -, s, e₁, wrote, rfl⟩ := relPut_eq_ok.mp (changing_eq_ok.mp done)
      exact (all.wrote wrote fun all => all.of_records Snapshot.link_records).of_same rfl id
  | relRemove txn relation source target =>
      obtain ⟨-, s, e₁, wrote, rfl⟩ := relRemove_eq_ok.mp (changing_eq_ok.mp done)
      exact (all.wrote wrote fun all => all.of_records Snapshot.unlink_records).of_same rfl id
  | _ => simp [Served.part] at plays

/-- A served call leaves only records of a property, if all that it stores have it. -/
theorem perform (h : e.All W) (stores : served.call.Stores W)
    (done : e.perform thread served.call = .ok (served.answer, e')) : e'.All W :=
  all_iff.mpr ((all_iff.mp h).perform (h.written stores · done) done)

end All

end Engine

end ObjectStore
