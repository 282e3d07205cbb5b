import ObjectStore.Proofs.Store.Accounts

/-! # Plans apart from an entity type

What is stored of the objects that go with one is of other entity types: it neither looks at nor
changes the table and the sequence of the object's own. So it comes to the same before and after
these change (`Plan.Apart`). That holds of the plans of a binding if it holds of the calls they are
made of and every box they store in is another one.
-/

namespace ObjectStore

/-! ## Calls -/

namespace Draft

/-- The draft with another table for an entity type. -/
def setTable (d : Draft) (entity : EntityId) (table : Table) : Draft :=
  { d with view := d.view.setTable entity table }

/-- The table and the sequence of an entity type. -/
def stock (d : Draft) (entity : EntityId) : Table × ObjectId :=
  (d.view.table entity, d.lastId entity)

/-- Changes of nothing but the table and the sequence of an entity type. -/
inductive Own (entity : EntityId) : (Draft → Draft) → Prop where
  | table (table : Table) : Own entity (·.setTable entity table)
  | last (id : ObjectId) : Own entity (·.setLastId entity id)

variable {d : Draft} {entity other : EntityId} {change : Draft → Draft} {id : ObjectId}

@[simp] theorem lastId_setLastId :
    (d.setLastId entity id).lastId other = if entity = other then id else d.lastId other := by
  simp only [lastId, setLastId]
  split <;> grind

@[simp] theorem view_setTable {table : Table} :
    (d.setTable entity table).view = d.view.setTable entity table := rfl

theorem setLastId_comm {id' : ObjectId} (apart : entity ≠ other) :
    (d.setLastId entity id).setLastId other id' = (d.setLastId other id').setLastId entity id := by
  simp only [setLastId, mk.injEq, and_true, true_and]
  ext id : 1
  grind

namespace Own

variable (own : Own entity change)
include own

theorem targets_eq {relation : RelationId} {source : ObjectId} :
    (change d).view.targets relation source = d.view.targets relation source := by
  cases own <;> rfl

theorem link_eq {relation : RelationId} {source target : ObjectId} :
    { change d with
      view := (change d).view.link relation source target
      relationWrites := (change d).relationWrites + 1 } =
        change { d with
          view := d.view.link relation source target
          relationWrites := d.relationWrites + 1 } := by
  cases own <;> rfl

theorem unlink_eq {relation : RelationId} {source target : ObjectId} :
    { change d with
      view := (change d).view.unlink relation source target
      relationWrites := (change d).relationWrites + 1 } =
        change { d with
          view := d.view.unlink relation source target
          relationWrites := d.relationWrites + 1 } := by
  cases own with
  | table table =>
      have same : (d.view.setTable entity table).unlink relation source target =
          (d.view.unlink relation source target).setTable entity table := by
        simp only [Snapshot.unlink, show (d.view.setTable entity table).targets relation source =
          d.view.targets relation source from rfl]
        split <;> rfl
      simp only [setTable, same]
  | last id => rfl

section Other

variable (apart : entity ≠ other)
include apart

theorem lastId_eq : (change d).lastId other = d.lastId other := by
  cases own with
  | table table => rfl
  | last id => rw [lastId_setLastId, if_neg apart]

theorem contains_eq : (change d).view.contains other id = d.view.contains other id := by
  cases own with
  | table table => rw [view_setTable, Snapshot.contains, Snapshot.setTable_table, if_neg apart]; rfl
  | last id => rfl

theorem setLastId_eq : (change d).setLastId other id = change (d.setLastId other id) := by
  cases own with
  | table table => rfl
  | last id => exact setLastId_comm apart

theorem insert_eq {record : Bytes} :
    { change d with view := (change d).view.insert other id record } =
      change { d with view := d.view.insert other id record } := by
  cases own with
  | table table =>
      simp only [setTable, Snapshot.insert, Snapshot.setTable_table, if_neg apart,
        Snapshot.setTable_comm apart]
  | last id => rfl

theorem observe_eq {ids : List ObjectId} :
    (change d).observe other ids = change (d.observe other ids) := by
  rw [observe, observe, own.lastId_eq apart, own.setLastId_eq apart]

end Other

end Own

/-- A call that has no part in the table and the sequence of an entity type. -/
structure Apart {α : Type} (entity : EntityId) (op : Draft → Except Refusal (α × Draft)) :
    Prop where
  commute {change : Draft → Draft} : Own entity change → ∀ d,
    op (change d) = (op d).map fun (a, d) => (a, change d)
  kept {d d' : Draft} {a : α} : op d = .ok (a, d') → d'.stock entity = d.stock entity

section Calls

variable {base : Engine} {relation : RelationId} {source target candidate : ObjectId}
  {record : Bytes} {mode : PutMode}

theorem apart_idForPut (apart : entity ≠ other) :
    Apart entity (idForPut base other candidate) where
  commute own d := by
    simp only [idForPut, known, own.lastId_eq apart, own.setLastId_eq apart, own.observe_eq apart]
    split <;> [split; skip] <;> [split; skip; skip] <;> rfl
  kept done := by
    simp only [idForPut, known, observe] at done
    grind [stock, view_setLastId, lastId_setLastId]

theorem apart_put (apart : entity ≠ other) :
    Apart entity (put base other candidate record mode) where
  commute own d := by
    simp only [put, known, own.contains_eq apart, own.insert_eq apart, own.observe_eq apart]
    split
    · split <;> rfl
    · rfl
  kept done := by
    simp only [put, known, observe] at done
    grind [stock, view_setLastId, lastId_setLastId, lastId, Snapshot.insert_table]

theorem apart_relPut : Apart entity (relPut base relation source target) where
  commute own d := by
    simp only [relPut, linkable, own.link_eq]
    split
    · split <;> rfl
    · rfl
  kept done := by
    simp only [relPut, linkable] at done
    split at done
    · split at done <;> cases done
      exact congrArg (·, _) (Snapshot.table_eq_of_records Snapshot.link_records)
    · cases done

theorem apart_relRemove : Apart entity (relRemove base relation source target) where
  commute own d := by
    simp only [relRemove, linkable, own.unlink_eq]
    split <;> rfl
  kept done := by
    simp only [relRemove, linkable] at done
    split at done <;> cases done
    exact congrArg (·, _) (Snapshot.table_eq_of_records Snapshot.unlink_records)

theorem apart_relGetIds : Apart entity (relGetIds base relation source) where
  commute own d := by
    simp only [relGetIds, linkable, own.targets_eq]
    split <;> rfl
  kept done := by
    simp only [relGetIds, linkable] at done
    split at done <;> cases done
    rfl

end Calls

end Draft

/-! ## Plans -/

namespace Plan

variable {σ τ α β : Type} {entity : EntityId} {p : Plan σ α} {f : α → Plan σ β}

/-- The plan has no part in the table and the sequence of an entity type. -/
structure Apart (entity : EntityId) (p : Plan σ α) : Prop where
  commute {change : Draft → Draft} : Draft.Own entity change → ∀ objects d,
    p (objects, change d) = ((p (objects, d)).1, (p (objects, d)).2.1, change (p (objects, d)).2.2)
  kept (objects : σ) (d : Draft) : (p (objects, d)).2.2.stock entity = d.stock entity

namespace Apart

theorem read {r : σ → Except StoreError α} : Apart entity (read r) :=
  ⟨fun _ _ _ => rfl, fun _ _ => rfl⟩

theorem pure {a : α} : Apart entity (Pure.pure a : Plan σ α) :=
  ⟨fun _ _ _ => rfl, fun _ _ => rfl⟩

theorem fail {why : StoreError} : Apart entity (fail why : Plan σ α) :=
  ⟨fun _ _ _ => rfl, fun _ _ => rfl⟩

theorem edit {r : σ → Except StoreError σ} : Apart entity (edit r) := by
  refine ⟨fun own objects d => ?_, fun objects d => ?_⟩ <;>
    simp only [Plan.edit] <;> cases r objects <;> rfl

theorem ask {operation : String} {op : Draft → Except Refusal (α × Draft)}
    (apart : Draft.Apart entity op) : Apart entity (ask operation op : Plan σ α) := by
  refine ⟨fun own objects d => ?_, fun objects d => ?_⟩
  · simp only [Plan.ask, apart.commute own]
    cases op d <;> rfl
  · simp only [Plan.ask]
    cases done : op d with
    | ok answered => exact apart.kept done
    | error why => rfl

theorem bind (first : Apart entity p) (rest : ∀ a, Apart entity (f a)) :
    Apart entity (p >>= f) := by
  refine ⟨fun own objects d => ?_, fun objects d => ?_⟩
  · rw [bind_run, bind_run, first.commute own]
    rcases p (objects, d) with ⟨why | a, objects', d'⟩
    · rfl
    · exact (rest a).commute own objects' d'
  · have kept := first.kept objects d
    rw [bind_run]
    generalize p (objects, d) = done at kept
    rcases done with ⟨why | a, objects', d'⟩
    · exact kept
    · exact ((rest a).kept objects' d').trans kept

theorem ofExcept_bind {r : Except StoreError α} (each : ∀ a, r = .ok a → Apart entity (f a)) :
    Apart entity (ofExcept r >>= f) := by
  cases r with
  | error why => exact ⟨fun _ _ _ => rfl, fun _ _ => rfl⟩
  | ok a => exact ⟨(each a rfl).commute, (each a rfl).kept⟩

theorem ite {c : Prop} [Decidable c] {p' : Plan σ α} (yes : c → Apart entity p)
    (no : ¬ c → Apart entity p') : Apart entity (if c then p else p') := by
  split
  · exact yes ‹_›
  · exact no ‹_›

theorem focus {part : τ → σ} {fill : τ → σ → τ} (h : Apart entity p) :
    Apart entity (focus part fill p) := by
  refine ⟨fun own objects d => ?_, fun objects d => h.kept _ d⟩
  simp only [Plan.focus, h.commute own]

theorem forM {step : α → Plan σ Unit} {as : List α} (each : ∀ a, Apart entity (step a)) :
    Apart entity (as.forM step) := by
  induction as with
  | nil => exact pure
  | cons a as ih => exact (each a).bind fun _ => ih

theorem forEach {step : α → Plan τ β} {as : List α} (each : ∀ a, Apart entity (step a)) :
    Apart entity (forEach step as) := by
  induction as with
  | nil => exact ⟨fun _ _ _ => rfl, fun _ _ => rfl⟩
  | cons a as ih =>
      refine ⟨fun own objects d => ?_, fun objects d => ?_⟩ <;>
        cases objects with
        | nil => rfl
        | cons object objects => ?_
      · simp only [Plan.forEach, (each a).commute own]
        rcases step a (object, d) with ⟨why | b, object', d'⟩
        · rfl
        · simp only [ih.commute own]
      · have kept := (each a).kept object d
        simp only [Plan.forEach]
        generalize step a (object, d) = done at kept
        rcases done with ⟨why | b, object', d'⟩
        · exact kept
        · exact (ih.kept objects d').trans kept

end Apart

end Plan

namespace Binding.Account

variable {T : Type} {binding : Binding T} {account : binding.Account} {entity : EntityDescriptor}
  {own : EntityId} {u : Setting} {id current source stored : ObjectId} {mode : PutMode}
  {relation : Relation} {linked : IdSet}

/-- What a binding stores of the objects that go with one is apart from an entity type. -/
def Apart (account : binding.Account) (own : EntityId) (u : Setting) : Prop :=
  ∀ id, Plan.Apart own (account.related u id)

section Storing

variable (related : account.Apart own u)
include related

theorem encode_apart : Plan.Apart own (account.encode entity u id) := by
  unfold encode
  exact .ite (fun _ => .bind (related id) fun _ => .read) fun _ => .read

theorem encodeAll_apart {ids : List ObjectId} :
    Plan.Apart own (Plan.forEach (account.encode entity u) ids) :=
  .forEach fun _ => encode_apart related

variable (apart : own ≠ entity.id)
include apart

theorem storeUnder_apart : Plan.Apart own (account.storeUnder entity u id mode) :=
  .bind (encode_apart related) fun _ => .bind (.ask (Draft.apart_put apart)) fun _ => .pure

theorem write_apart : Plan.Apart own (account.write entity u current mode) := by
  unfold write
  exact .ite (fun _ => storeUnder_apart related apart) fun _ =>
    .bind (.ask (Draft.apart_idForPut apart)) fun _ => storeUnder_apart related apart

theorem putObject_apart : Plan.Apart own (account.putObject entity u mode) := by
  refine .bind .read fun _ => .bind .read fun current => ?_
  have stored : Plan.Apart own (do
      let id ← account.write entity u current mode
      if id ≠ current then Plan.edit fun object => binding.setId object id
      return id) :=
    .bind (write_apart related apart) fun id =>
      .ite (fun _ => .bind .edit fun _ => .pure) fun _ => .pure
  exact .ite (fun _ => .bind .fail fun _ => stored) fun _ => stored

theorem linkTarget_apart : Plan.Apart own (account.linkTarget entity u relation source linked) := by
  refine .bind .read fun current => ?_
  have linking (target : ObjectId) : Plan.Apart own (do
      if linked.contains target then return linked.erase target
      Plan.ask "rel_put" (Draft.relPut u.base relation.id source target)
      return linked : Plan T IdSet) :=
    .ite (fun _ => .pure) fun _ => .bind (.ask Draft.apart_relPut) fun _ => .pure
  exact .ite (fun _ => .bind (putObject_apart related apart) linking) fun _ => .bind .pure linking

theorem linkTargets_apart :
    Plan.Apart own (account.linkTargets entity u relation source linked) := by
  refine ⟨fun change objects d => ?_, fun objects d => ?_⟩ <;>
    simp only [linkTargets] <;>
    induction objects generalizing linked d with
    | nil => rfl
    | cons object objects ih => ?_
  · simp only [linkTargets.go, (linkTarget_apart related apart).commute change]
    rcases account.linkTarget entity u relation source linked (object, d) with
      ⟨why | linked, object', d'⟩
    · rfl
    · simp only [ih]
  · have kept := (@linkTarget_apart _ _ account entity own u source relation linked related
      apart).kept object d
    simp only [linkTargets.go]
    generalize account.linkTarget entity u relation source linked (object, d) = done at kept
    rcases done with ⟨why | linked, object', d'⟩
    · exact kept
    · exact (ih d').trans kept

end Storing

/-- Replacing links is apart from an entity type of which no target is. -/
theorem replaceLinks_apart (related : account.Apart own u)
    (apart : ∀ entity, u.store.registered binding.name = .ok entity → own ≠ entity.id) :
    Plan.Apart own (account.replaceLinks u relation source stored) := by
  refine .bind .read fun targets => ?_
  cases targets with
  | none => exact .ite (fun _ => .fail) fun _ => .pure
  | some _ =>
      have linking (linked : List ObjectId) : Plan.Apart own (do
          let entity ← Plan.ofExcept (u.store.registered binding.name)
          let unwanted ← Plan.focus (fun targets => targets.getD []) (fun _ targets => some targets)
            (account.linkTargets entity u relation source (.ofList linked))
          unwanted.toList.forM fun target =>
            Plan.ask "rel_remove" (Draft.relRemove u.base relation.id source target) :
            Plan (Option (List T)) Unit) := by
        refine .ofExcept_bind fun entity found => ?_
        exact .bind (.focus (linkTargets_apart related (apart entity found))) fun _ =>
          .forM fun _ => .ask Draft.apart_relRemove
      exact .ite (fun _ => .bind .pure linking) fun _ =>
        .bind (.ask Draft.apart_relGetIds) linking

end Binding.Account

end ObjectStore
