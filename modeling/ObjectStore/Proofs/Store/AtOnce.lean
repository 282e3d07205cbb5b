import ObjectStore.Proofs.Store.Apart
import ObjectStore.Proofs.Store.BulkPut

/-! # A batch at once

However a batch is cut, if no object carries an id past the sequence, storing it comes to what
storing all of it by one call would: the new objects are numbered in order from the sequence on,
what goes with the objects is stored in their order, and then their records. A part that is stored
leaves the table and the sequence of the entity type as they are when storing goes on with the next
one, and nothing in between looks at them.
-/

namespace ObjectStore

/-- What something ended in, unless it failed. -/
def succeeded {α τ : Type} : Except StoreError α × τ → Option (α × τ)
  | (.ok a, w) => some (a, w)
  | (.error _, _) => none

@[simp] theorem succeeded_ok {α τ : Type} {a : α} {w : τ} :
    succeeded (.ok a, w) = some (a, w) := rfl

@[simp] theorem succeeded_error {α τ : Type} {why : StoreError} {w : τ} :
    succeeded ((.error why, w) : Except StoreError α × τ) = none := rfl

/-! ## Plans that succeed -/

namespace Plan

variable {σ τ α β : Type} {p : Plan σ α} {f : α → Plan σ β} {w : σ × Draft} {d : Draft}

theorem read_run {r : σ → Except StoreError α} : read r w = (r w.1, w) := rfl

theorem pure_run {a : α} : (Pure.pure a : Plan σ α) w = (.ok a, w) := rfl

theorem succeeded_bind :
    succeeded ((p >>= f) w) = (succeeded (p w)).bind fun done => succeeded (f done.1 done.2) := by
  rw [bind_run]
  rcases p w with ⟨why | a, w'⟩ <;> rfl

theorem succeeded_forEach {step : α → Plan τ β} {a : α} {as : List α} {object : τ}
    {objects : List τ} :
    succeeded (forEach step (a :: as) (object :: objects, d)) =
      (succeeded (step a (object, d))).bind fun (b, object, d) =>
        (succeeded (forEach step as (objects, d))).map fun (bs, objects, d) =>
          (b :: bs, object :: objects, d) := by
  simp only [forEach]
  rcases step a (object, d) with ⟨why | b, object', d'⟩
  · rfl
  · simp only [succeeded, Option.bind_some]
    rcases forEach step as (objects, d') with ⟨why | bs, objects', d''⟩ <;> rfl

theorem succeeded_forEach_append {step : α → Plan τ β} {as as' : List α} {objects objects' : List τ}
    (even : as.length = objects.length) :
    succeeded (forEach step (as ++ as') (objects ++ objects', d)) =
      (succeeded (forEach step as (objects, d))).bind fun (bs, objects, d) =>
        (succeeded (forEach step as' (objects', d))).map fun (bs', objects', d) =>
          (bs ++ bs', objects ++ objects', d) := by
  induction as generalizing objects d with
  | nil =>
      have none : objects = [] := List.length_eq_zero_iff.mp even.symm
      subst none
      simp only [List.nil_append, forEach, succeeded, Option.bind_some, Option.map_id_fun', id_eq]
  | cons a as ih =>
      cases objects with
      | nil => cases even
      | cons object objects =>
          simp only [List.cons_append, succeeded_forEach, Option.bind_assoc, ih (Nat.succ.inj even),
            Option.map_bind, Option.bind_map, Function.comp_def, Option.map_map]

theorem length_of_forEach {step : α → Plan τ β} {as : List α} {bs : List β} {objects : List τ}
    {w : List τ × Draft} (even : as.length = objects.length)
    (done : succeeded (forEach step as (objects, d)) = some (bs, w)) : bs.length = as.length := by
  induction as generalizing objects d bs w with
  | nil =>
      cases done
      rfl
  | cons a as ih =>
      cases objects with
      | nil => cases even
      | cons object objects =>
          rw [succeeded_forEach, Option.bind_eq_some_iff] at done
          obtain ⟨⟨b, object', d'⟩, -, rest⟩ := done
          obtain ⟨⟨bs', w'⟩, later, same⟩ := Option.map_eq_some_iff.mp rest
          cases same
          exact congrArg (· + 1) (ih (Nat.succ.inj even) later)

theorem Apart.kept_of_succeeded {entity : EntityId} (h : Apart entity p) {objects : σ} {a : α}
    {w' : σ × Draft} (done : ObjectStore.succeeded (p (objects, d)) = some (a, w')) :
    w'.2.stock entity = d.stock entity := by
  have kept := h.kept objects d
  generalize p (objects, d) = ended at done kept
  rcases ended with ⟨why | a, w⟩ <;> cases done
  exact kept

theorem Apart.succeeded {entity : EntityId} {change : Draft → Draft} (h : Apart entity p)
    (own : Draft.Own entity change) {objects : σ} :
    succeeded (p (objects, change d)) = (succeeded (p (objects, d))).map fun (a, objects, d) =>
      (a, objects, change d) := by
  rw [h.commute own]
  rcases p (objects, d) with ⟨why | a, objects', d'⟩ <;> rfl

end Plan

namespace Box

variable {next last : ObjectId} {ids ids' : List ObjectId}

theorem assign_append :
    assign next (ids ++ ids') = assign next ids ++ assign (next + .ofNat (ids.count 0)) ids' := by
  induction ids generalizing next with
  | nil => simp [assign]
  | cons id ids ih =>
      by_cases zero : id = 0
      · subst zero
        have behind : next + UInt64.ofNat (ids.count 0 + 1) = next + 1 + .ofNat (ids.count 0) := by
          rw [UInt64.ofNat_add]
          grind
        simp only [List.cons_append, assign, if_true, List.count_cons_self, behind, ih]
      · simp only [List.cons_append, assign, zero, if_false, List.count_cons_of_ne zero, ih]

theorem hasRoom_append : HasRoom last (ids ++ ids') ↔
    HasRoom last ids ∧ HasRoom (.ofNat (last.toNat + ids.count 0)) ids' := by
  constructor
  · intro room
    have first : HasRoom last ids := by
      simp only [HasRoom, List.count_append] at room ⊢
      omega
    refine ⟨first, ?_⟩
    simp only [HasRoom, List.count_append, toNat_block first] at room ⊢
    omega
  · rintro ⟨first, later⟩
    simp only [HasRoom, List.count_append, toNat_block first] at later ⊢
    omega

theorem assign_append_last : assign (last + 1) (ids ++ ids') =
    assign (last + 1) ids ++ assign (.ofNat (last.toNat + ids.count 0) + 1) ids' := by
  have behind : last + 1 + .ofNat (ids.count 0) = .ofNat (last.toNat + ids.count 0) + 1 := by
    rw [UInt64.ofNat_add, UInt64.ofNat_toNat]
    grind
  rw [assign_append, behind]

end Box

/-! ## Ids and records -/

namespace Draft

variable {d : Draft} {entity : EntityId} {last next current : ObjectId} {base : Engine}
  {change : Draft → Draft} {entries : List (ObjectId × Bytes)}

/-- The draft once records are stored and the sequence of their entity type is at `last`. -/
def stored (d : Draft) (entity : EntityId) (entries : List (ObjectId × Bytes)) (last : ObjectId) :
    Draft :=
  { d with view := d.view.insertMany entity entries }.setLastId entity last

/-- Granting ids moved a sequence from `last` to `next`, or left it as it was. -/
inductive Granted (entity : EntityId) (last : ObjectId) : ObjectId → (Draft → Draft) → Prop where
  | still : Granted entity last last fun d => d
  | moved (next : ObjectId) : Granted entity last next (·.setLastId entity next)

@[simp] theorem setLastId_setLastId {id id' : ObjectId} :
    (d.setLastId entity id).setLastId entity id' = d.setLastId entity id' := by
  simp only [setLastId, mk.injEq, and_true, true_and]
  ext other : 1
  grind

namespace Granted

variable (granted : Granted entity last next change)
include granted

theorem lastId_eq (here : d.lastId entity = last) : (change d).lastId entity = next := by
  cases granted with
  | still => exact here
  | moved => rw [lastId_setLastId, if_pos rfl]

theorem view_eq : (change d).view = d.view := by
  cases granted <;> rfl

theorem stored_eq : (change d).stored entity entries next = d.stored entity entries next := by
  cases granted with
  | still => rfl
  | moved =>
      exact @setLastId_setLastId { d with view := d.view.insertMany entity entries } entity next
        next

theorem succeeded {σ α : Type} {p : Plan σ α} (apart : p.Apart entity) {objects : σ} :
    succeeded (p (objects, change d)) = (succeeded (p (objects, d))).map fun (a, objects, d) =>
      (a, objects, change d) := by
  cases granted with
  | still => simp only [Option.map_id_fun', id_eq]
  | moved => exact apart.succeeded (.last next)

end Granted

theorem view_stored :
    (d.stored entity entries last).view = d.view.insertMany entity entries := rfl

@[simp] theorem lastId_stored : (d.stored entity entries last).lastId entity = last := by
  rw [stored, lastId_setLastId, if_pos rfl]

theorem stored_eq : d.stored entity entries last =
    (d.setTable entity ((d.view.table entity).insertMany entries)).setLastId entity last := by
  rw [setTable, Std.ExtTreeMap.insertMany_list_eq_foldl]
  rfl

/-- What is stored between two parts comes to the same before both of them. -/
theorem stored_between {table : Table} {entries' : List (ObjectId × Bytes)}
    (kept : d.view.table entity = table) :
    ((d.setTable entity (table.insertMany entries)).setLastId entity last).stored entity entries'
      next = d.stored entity (entries ++ entries') next := by
  have inserted : ((d.setTable entity (table.insertMany entries)).setLastId entity last).view.table
      entity = table.insertMany entries := by
    rw [view_setLastId, view_setTable, Snapshot.setTable_table, if_pos rfl]
  have again (table' : Table) : ((d.setTable entity (table.insertMany entries)).setLastId entity
      last).setTable entity table' = (d.setTable entity table').setLastId entity last := by
    rw [setTable, view_setLastId, view_setTable, Snapshot.setTable_setTable]
    rfl
  rw [stored_eq, stored_eq, inserted, again, setLastId_setLastId, kept,
    Std.ExtTreeMap.insertMany_append]

/-- Records under ids the sequence has reached are stored without moving it. -/
theorem observe_stored {ids : List ObjectId} (here : d.lastId entity = last)
    (reached : ∀ id ∈ ids, id ≤ last) :
    { d with view := d.view.insertMany entity entries }.observe entity ids =
      d.stored entity entries last := by
  have same : ids.foldl max last = last := by
    induction ids with
    | nil => rfl
    | cons id ids ih =>
        have first := reached id List.mem_cons_self
        rw [UInt64.le_iff_toNat_le] at first
        have kept : max last id = last := by
          rw [← UInt64.toNat_inj, toNat_max]
          omega
        rw [List.foldl_cons, kept, ih fun id member => reached id (List.mem_cons_of_mem _ member)]
  rw [observe, show lastId { d with view := d.view.insertMany entity entries } entity = last
    from here, same]
  rfl

end Draft

namespace Binding.Account

variable {T : Type} {binding : Binding T} (account : binding.Account) (total : binding.Total)
  (entity : EntityDescriptor) (u : Setting)

/-- What storing a batch by one call comes to, if it does not fail: the ids, the objects, and the
    draft. -/
def atOnce (objects : List T) (d : Draft) : Option (List Box.Assigned × List T × Draft) :=
  let last := d.lastId entity.id
  let currents := objects.map total.idOf
  let ids := Box.chunkIds last currents
  if last.toNat + currents.count 0 ≤ Engine.maxId then
    (succeeded (Plan.forEach (account.encode entity u) ids (objects, d))).map
      fun (records, objects, d) => (Box.assign (last + 1) currents, objects,
        d.stored entity.id (ids.zip records) (.ofNat (last.toNat + currents.count 0)))
  else none

variable {account total entity u} {objects objects' : List T} {object : T} {d : Draft}
  {ids : List ObjectId}

theorem atOnce_of_room
    (room : Box.HasRoom (d.lastId entity.id) (objects.map total.idOf)) :
    account.atOnce total entity u objects d =
      (succeeded (Plan.forEach (account.encode entity u)
        (Box.chunkIds (d.lastId entity.id) (objects.map total.idOf)) (objects, d))).map
        fun (records, objects', d') =>
          (Box.assign (d.lastId entity.id + 1) (objects.map total.idOf), objects',
            d'.stored entity.id
              ((Box.chunkIds (d.lastId entity.id) (objects.map total.idOf)).zip records)
              (.ofNat ((d.lastId entity.id).toNat + (objects.map total.idOf).count 0))) :=
  if_pos room

theorem atOnce_of_full
    (full : ¬ Box.HasRoom (d.lastId entity.id) (objects.map total.idOf)) :
    account.atOnce total entity u objects d = none :=
  if_neg full

theorem atOnce_eq_some {done : List Box.Assigned × List T × Draft}
    (stored : account.atOnce total entity u objects d = some done) :
    Box.HasRoom (d.lastId entity.id) (objects.map total.idOf) ∧ ∃ records objects' d',
      succeeded (Plan.forEach (account.encode entity u)
        (Box.chunkIds (d.lastId entity.id) (objects.map total.idOf)) (objects, d)) =
          some (records, objects', d') ∧
      done = (Box.assign (d.lastId entity.id + 1) (objects.map total.idOf), objects',
        d'.stored entity.id
          ((Box.chunkIds (d.lastId entity.id) (objects.map total.idOf)).zip records)
          (.ofNat ((d.lastId entity.id).toNat + (objects.map total.idOf).count 0))) := by
  by_cases room : Box.HasRoom (d.lastId entity.id) (objects.map total.idOf)
  · rw [atOnce_of_room room] at stored
    obtain ⟨⟨records, objects', d'⟩, encoded, same⟩ := Option.map_eq_some_iff.mp stored
    exact ⟨room, records, objects', d', encoded, same.symm⟩
  · rw [atOnce_of_full room] at stored
    cases stored

/-! ## A part -/

/-- No object of the batch carries an id past the sequence, and none is stored past it. -/
structure Settled (total : binding.Total) (entity : EntityId) (objects : List T) (d : Draft) :
    Prop where
  carried : ∀ object ∈ objects, total.idOf object ≤ d.lastId entity
  reached : ∀ id, d.view.contains entity id = true → id ≤ d.lastId entity

/-- The ids of a settled batch are ones its sequence comes to. -/
theorem Settled.le_last (settled : Settled total entity.id objects d)
    (room : Box.HasRoom (d.lastId entity.id) (objects.map total.idOf)) :
    ∀ id ∈ Box.chunkIds (d.lastId entity.id) (objects.map total.idOf),
      id ≤ .ofNat ((d.lastId entity.id).toNat + (objects.map total.idOf).count 0) := by
  intro id member
  rw [UInt64.le_iff_toNat_le, Box.toNat_block room]
  rcases (Box.mem_chunkIds room).mp member with ⟨carried, -⟩ | ⟨-, inside⟩
  · obtain ⟨object, listed, rfl⟩ := List.mem_map.mp carried
    have below := settled.carried object listed
    rw [UInt64.le_iff_toNat_le] at below
    omega
  · exact inside

variable (known : u.base.entities.contains entity.id = true)
include known

theorem allocateBlock_granted {currents : List ObjectId}
    (size : currents.length ≤ maxIdsPerBlock) (room : Box.HasRoom (d.lastId entity.id) currents) :
    ∃ first change, allocateBlock T entity u (currents.count 0) (objects, d) =
        (.ok first, objects, change d) ∧
      Draft.Granted entity.id (d.lastId entity.id)
        (.ofNat ((d.lastId entity.id).toNat + currents.count 0)) change ∧
      Box.assign first currents = Box.assign (d.lastId entity.id + 1) currents := by
  unfold allocateBlock
  by_cases none : currents.count 0 = 0
  · refine ⟨0, fun d => d, if_pos none ▸ rfl, ?_, Box.assign_of_count_eq_zero none⟩
    rw [none, Nat.add_zero, UInt64.ofNat_toNat]
    exact .still
  · have few : ¬ (currents.count 0 = 0 ∨ maxIdsPerBlock < currents.count 0) := by
      have bound := @List.count_le_length _ _ 0 currents
      omega
    have enough : (d.lastId entity.id).toNat + currents.count 0 ≤ Engine.maxId := room
    rw [if_neg none]
    refine ⟨.ofNat ((d.lastId entity.id).toNat + 1), _, ?_, .moved _, ?_⟩
    · simp only [Plan.ask, Draft.idsForPut, if_neg few, Draft.known, known, if_true, if_pos enough]
    · rw [UInt64.ofNat_add, UInt64.ofNat_toNat]
      rfl

theorem allocateBlock_full {currents : List ObjectId}
    (full : ¬ Box.HasRoom (d.lastId entity.id) currents) :
    succeeded (allocateBlock T entity u (currents.count 0) (objects, d)) = none := by
  unfold allocateBlock
  have some : currents.count 0 ≠ 0 := by
    intro none
    have bound := (d.lastId entity.id).toNat_lt
    simp only [Box.HasRoom, none, Engine.maxId] at full
    omega
  have refused : ∀ granted,
      Draft.idsForPut u.base entity.id (currents.count 0) d ≠ .ok granted := by
    intro granted done
    simp only [Draft.idsForPut, Draft.known, known, if_true] at done
    split at done
    · cases done
    · split at done
      · exact full ‹_›
      · cases done
  rw [if_neg some]
  simp only [Plan.ask]
  cases done : Draft.idsForPut u.base entity.id (currents.count 0) d with
  | ok granted => exact absurd done (refused granted)
  | error why => rfl

/-! ### By one call -/

variable (settled : Settled total entity.id objects d)
include settled

/-- Once a chunk has its ids and the objects that go with it are stored, its records are. -/
theorem putMany_stored (arrays : u.base.arrays = true) {change : Draft → Draft} {d' : Draft}
    {records : List Bytes}
    (room : Box.HasRoom (d.lastId entity.id) (objects.map total.idOf))
    (granted : Draft.Granted entity.id (d.lastId entity.id)
      (.ofNat ((d.lastId entity.id).toNat + (objects.map total.idOf).count 0)) change)
    (even : records.length = objects.length) (kept : d'.stock entity.id = d.stock entity.id) :
    Draft.putMany u.base entity.id
        (Box.chunkIds (d.lastId entity.id) (objects.map total.idOf)) records
        (if (objects.map total.idOf).all (· = 0) then .putNew else .put) (change d') =
      .ok ((), d'.stored entity.id
        ((Box.chunkIds (d.lastId entity.id) (objects.map total.idOf)).zip records)
        (.ofNat ((d.lastId entity.id).toNat + (objects.map total.idOf).count 0))) := by
  obtain ⟨table, last⟩ := Prod.mk.inj kept
  have lengths : (Box.chunkIds (d.lastId entity.id) (objects.map total.idOf)).length =
      records.length := by
    simp [Box.chunkIds, even]
  have checked := @Box.checkPutMany_numbered d'.view _ entity.id (objects.map total.idOf) room
    fun id above => by
      rw [Snapshot.contains, table, Bool.eq_false_iff]
      exact fun stored => Std.not_le.mpr above (settled.reached id stored)
  simp only [Draft.putMany, arrays, if_true, Draft.known, known, lengths, granted.view_eq, checked]
  rw [← granted.view_eq, Draft.observe_stored (granted.lastId_eq last) (settled.le_last room),
    granted.stored_eq]

variable (apart : account.Apart entity.id u)
include apart

/-- Storing a chunk by one call is storing it at once. -/
theorem writeChunk_atOnce (arrays : u.base.arrays = true) (size : objects.length ≤ maxIdsPerBlock) :
    succeeded (account.writeChunk entity u (objects, d)) =
      account.atOnce total entity u objects d := by
  have carried : objects.mapM binding.id = .ok (objects.map total.idOf) := total.mapM_id
  by_cases room : Box.HasRoom (d.lastId entity.id) (objects.map total.idOf)
  · obtain ⟨first, change, allocated, granted, numbered⟩ :=
      @allocateBlock_granted T entity u objects d known _ (by simpa using size) room
    rw [atOnce_of_room room]
    simp only [writeChunk, Plan.succeeded_bind, Plan.read_run, carried, succeeded_ok,
      Option.bind_some, allocated, numbered]
    rw [← Box.chunkIds, granted.succeeded (encodeAll_apart apart)]
    cases encoded : succeeded (Plan.forEach (account.encode entity u)
      (Box.chunkIds (d.lastId entity.id) (objects.map total.idOf)) (objects, d)) with
    | none => rfl
    | some done =>
        obtain ⟨records, objects', d'⟩ := done
        have even := Plan.length_of_forEach (by simp [Box.chunkIds]) encoded
        rw [Box.chunkIds, List.length_map, Box.length_assign, List.length_map] at even
        simp only [Option.map_some, Option.bind_some, Plan.ask, putMany_stored known settled arrays
          room granted even ((encodeAll_apart apart).kept_of_succeeded encoded)]
        rfl
  · rw [atOnce_of_full room]
    simp only [writeChunk, Plan.succeeded_bind, Plan.read_run, carried, succeeded_ok,
      Option.bind_some, allocateBlock_full known room, Option.bind_none]

/-! ### By a call of its own -/

omit settled apart in
theorem idForPut_granted {current : ObjectId} (room : Box.HasRoom (d.lastId entity.id) [current])
    (below : current ≤ d.lastId entity.id) :
    ∃ id change, Draft.idForPut u.base entity.id current d = .ok (id, change d) ∧
      Draft.Granted entity.id (d.lastId entity.id)
        (.ofNat ((d.lastId entity.id).toNat + [current].count 0)) change ∧
      Box.assign (d.lastId entity.id + 1) [current] = [⟨id, id ≠ current⟩] := by
  by_cases zero : current = 0
  · subst zero
    have new : d.lastId entity.id + 1 ≠ 0 :=
      Box.ne_zero_of_mem_chunkIds room (by simp [Box.chunkIds, Box.assign])
    have enough : (d.lastId entity.id).toNat ≠ Engine.maxId := by
      simp only [Box.HasRoom, List.count_singleton_self] at room
      omega
    have next : UInt64.ofNat ((d.lastId entity.id).toNat + [(0 : ObjectId)].count 0) =
        d.lastId entity.id + 1 := by
      rw [List.count_singleton_self, UInt64.ofNat_add, UInt64.ofNat_toNat]
      rfl
    refine ⟨d.lastId entity.id + 1, (·.setLastId entity.id (d.lastId entity.id + 1)), ?_, ?_, ?_⟩
    · simp only [Draft.idForPut, Draft.known, known, if_true, if_neg enough]
    · rw [next]
      exact .moved _
    · simp only [Box.assign, if_true, new, ne_eq, not_false_eq_true, decide_true]
  · have next : UInt64.ofNat ((d.lastId entity.id).toNat + [current].count 0) =
        d.lastId entity.id := by
      rw [List.count_singleton, if_neg (by simpa using zero), Nat.add_zero, UInt64.ofNat_toNat]
    have kept : max (d.lastId entity.id) current = d.lastId entity.id := by
      rw [UInt64.le_iff_toNat_le] at below
      rw [← UInt64.toNat_inj, toNat_max]
      omega
    refine ⟨current, (·.setLastId entity.id (d.lastId entity.id)), ?_, ?_, ?_⟩
    · simp only [Draft.idForPut, Draft.known, known, if_true, if_neg zero, Draft.observe,
        List.foldl_cons, List.foldl_nil, kept]
    · rw [next]
      exact .moved _
    · simp only [Box.assign, if_neg zero, ne_eq, not_true_eq_false, decide_false]

omit settled apart in
theorem idForPut_full {current : ObjectId} (full : ¬ Box.HasRoom (d.lastId entity.id) [current]) :
    Plan.ask "id_for_put" (Draft.idForPut u.base entity.id current) (object, d) =
      (.error (.exhausted "id_for_put" entity.id), object, d) := by
  have bound := (d.lastId entity.id).toNat_lt
  have zero : current = 0 := by
    refine Classical.byContradiction fun nonzero => full ?_
    simp only [Box.HasRoom, List.count_singleton, beq_iff_eq, nonzero, if_false, Engine.maxId]
    omega
  subst zero
  have last : (d.lastId entity.id).toNat = Engine.maxId := by
    simp only [Box.HasRoom, List.count_singleton_self, Engine.maxId] at full ⊢
    omega
  simp only [Plan.ask, Draft.idForPut, Draft.known, known, if_true, last]
  rfl

omit settled apart in
theorem put_stored {id last next : ObjectId} {record : Bytes} {change : Draft → Draft}
    (granted : Draft.Granted entity.id last next change) (here : d.lastId entity.id = last)
    (nonzero : id ≠ 0) (reached : ∀ x ∈ [id], x ≤ next) :
    Draft.put u.base entity.id id record .put (change d) =
      .ok ((), d.stored entity.id [(id, record)] next) := by
  have observed := @Draft.observe_stored (change d) entity.id next [(id, record)] [id]
    (granted.lastId_eq here) reached
  rw [granted.stored_eq] at observed
  rw [← observed]
  simp only [Draft.put, Draft.known, known, if_true, Snapshot.checkPut, if_neg nonzero]
  rfl

omit objects settled in
/-- Storing an object by a call of its own is storing a batch of it at once. -/
theorem writeOne_atOnce (settled : Settled total entity.id [object] d) :
    (succeeded (account.writeOne entity u (object, d))).map
        (fun (a, object, d) => ([a], [object], d)) =
      account.atOnce total entity u [object] d := by
  have new : PutMode.put ≠ .update := PutMode.noConfusion
  by_cases room : Box.HasRoom (d.lastId entity.id) ([object].map total.idOf)
  · obtain ⟨id, change, drawn, granted, numbered⟩ :=
      @idForPut_granted entity u d known (total.idOf object) room
        (settled.carried object List.mem_cons_self)
    have ids : Box.chunkIds (d.lastId entity.id) ([object].map total.idOf) = [id] := by
      simp only [Box.chunkIds, List.map_cons, List.map_nil, numbered]
    have reached := settled.le_last room
    have nonzero : id ≠ 0 :=
      Box.ne_zero_of_mem_chunkIds room (by rw [ids]; exact List.mem_cons_self)
    have encoding : Plan.Apart entity.id (account.encode entity u id) := encode_apart apart
    rw [atOnce_of_room room]
    rw [ids] at reached ⊢
    simp only [writeOne, write, storeUnder, new, if_false, Plan.succeeded_bind, Plan.read_run,
      total.id_eq, succeeded_ok, Option.bind_some, Plan.ask, drawn, Plan.pure_run,
      granted.succeeded encoding, Plan.succeeded_forEach]
    cases encoded : succeeded (account.encode entity u id (object, d)) with
    | none => rfl
    | some done =>
        obtain ⟨record, object', d'⟩ := done
        obtain ⟨-, last⟩ := Prod.mk.inj (encoding.kept_of_succeeded encoded)
        have put := @put_stored entity u d' known id _ _ record _ granted last nonzero reached
        simp only [Option.map_some, Option.bind_some, put, succeeded_ok, Plan.forEach,
          List.map_cons, List.map_nil, numbered, List.zip_cons_cons, List.zip_nil_right]
  · rw [atOnce_of_full room]
    simp only [writeOne, write, new, if_false, Plan.succeeded_bind, Plan.read_run, total.id_eq,
      succeeded_ok, Option.bind_some, idForPut_full known room, succeeded_error, Option.bind_none,
      Option.map_none]

/-! ### Part after part -/

omit known settled in
theorem atOnce_append_of_room
    (room : Box.HasRoom (d.lastId entity.id) (objects.map total.idOf))
    (later : Box.HasRoom (.ofNat ((d.lastId entity.id).toNat + (objects.map total.idOf).count 0))
      (objects'.map total.idOf)) :
    account.atOnce total entity u (objects ++ objects') d =
      (account.atOnce total entity u objects d).bind fun (assigned, objects, d) =>
        (account.atOnce total entity u objects' d).map fun (assigned', objects', d) =>
          (assigned ++ assigned', objects ++ objects', d) := by
  have encoding (ids : List ObjectId) :
      Plan.Apart entity.id (Plan.forEach (account.encode entity u) ids) := encodeAll_apart apart
  have whole : Box.HasRoom (d.lastId entity.id) ((objects ++ objects').map total.idOf) := by
    rw [List.map_append, Box.hasRoom_append]
    exact ⟨room, later⟩
  rw [atOnce_of_room room, Option.bind_map, atOnce_of_room whole]
  simp only [List.map_append, Box.chunkIds, Box.assign_append_last]
  rw [Plan.succeeded_forEach_append (by simp)]
  cases encoded : succeeded (Plan.forEach (account.encode entity u)
    ((Box.assign (d.lastId entity.id + 1) (objects.map total.idOf)).map Box.Assigned.id)
      (objects, d)) with
  | none => rfl
  | some done =>
      obtain ⟨records, changed, d'⟩ := done
      obtain ⟨table, -⟩ := Prod.mk.inj ((encoding _).kept_of_succeeded encoded)
      simp only [Option.bind_some, Function.comp]
      -- What was stored of the first part moves past what goes with the objects of the second.
      rw [atOnce_of_room (by rwa [Draft.lastId_stored]), Draft.lastId_stored, Draft.stored_eq,
        (encoding _).succeeded (.last _), (encoding _).succeeded (.table _), Box.chunkIds]
      cases encoded' : succeeded (Plan.forEach (account.encode entity u)
        ((Box.assign (.ofNat ((d.lastId entity.id).toNat + (objects.map total.idOf).count 0) + 1)
          (objects'.map total.idOf)).map Box.Assigned.id) (objects', d')) with
      | none => rfl
      | some done' =>
          obtain ⟨records', changed', d''⟩ := done'
          obtain ⟨table', -⟩ := Prod.mk.inj ((encoding _).kept_of_succeeded encoded')
          have lengths := Plan.length_of_forEach (by simp) encoded
          have counts : (d.lastId entity.id).toNat +
              (objects.map total.idOf ++ objects'.map total.idOf).count 0 =
                (UInt64.ofNat ((d.lastId entity.id).toNat +
                  (objects.map total.idOf).count 0)).toNat +
                    (objects'.map total.idOf).count 0 := by
            rw [List.count_append, Box.toNat_block room, Nat.add_assoc]
          simp only [Option.map_some, Draft.stored_between table', counts,
            List.zip_append lengths.symm]

omit known settled in
/-- Storing a part and then another at once is storing both at once. -/
theorem atOnce_append : account.atOnce total entity u (objects ++ objects') d =
    (account.atOnce total entity u objects d).bind fun (assigned, objects, d) =>
      (account.atOnce total entity u objects' d).map fun (assigned', objects', d) =>
        (assigned ++ assigned', objects ++ objects', d) := by
  by_cases whole : Box.HasRoom (d.lastId entity.id) ((objects ++ objects').map total.idOf)
  · rw [List.map_append, Box.hasRoom_append] at whole
    exact atOnce_append_of_room apart whole.1 whole.2
  · rw [atOnce_of_full whole]
    symm
    rw [Option.bind_eq_none_iff]
    intro done stored
    obtain ⟨room, records, changed, d', -, rfl⟩ := atOnce_eq_some stored
    rw [List.map_append, Box.hasRoom_append] at whole
    dsimp only
    rw [atOnce_of_full (by rw [Draft.lastId_stored]; exact fun later => whole ⟨room, later⟩),
      Option.map_none]

omit known settled in
/-- A settled batch of which a part is stored is settled from then on. -/
theorem Settled.later {done : List Box.Assigned × List T × Draft}
    (settled : Settled total entity.id (objects ++ objects') d)
    (stored : account.atOnce total entity u objects d = some done) :
    Settled total entity.id objects' done.2.2 := by
  have first : Settled total entity.id objects d :=
    ⟨fun object member => settled.carried object (List.mem_append_left _ member), settled.reached⟩
  obtain ⟨room, records, changed, d', encoded, rfl⟩ := atOnce_eq_some stored
  obtain ⟨table, -⟩ := Prod.mk.inj ((encodeAll_apart apart).kept_of_succeeded encoded)
  have grown : d.lastId entity.id ≤
      .ofNat ((d.lastId entity.id).toNat + (objects.map total.idOf).count 0) := by
    rw [UInt64.le_iff_toNat_le, Box.toNat_block room]
    omega
  refine ⟨fun object member => ?_, fun id contained => ?_⟩ <;> rw [Draft.lastId_stored]
  · exact Std.le_trans (settled.carried object (List.mem_append_right _ member)) grown
  · rw [Draft.view_stored, Snapshot.contains_insertMany] at contained
    rcases contained with ⟨-, new⟩ | before
    · obtain ⟨⟨id, record⟩, listed, rfl⟩ := List.mem_map.mp new
      exact first.le_last room id (List.of_mem_zip listed).1
    · rw [Snapshot.contains, table] at before
      exact Std.le_trans (settled.reached id before) grown

omit settled known in
/-- A step that stores its part as it would be at once stores all parts so. -/
theorem forEach_atOnce {τ β : Type} {step : Plan τ β} {parts : τ → List T}
    {answer : β → List Box.Assigned} {items : List τ} (some : items ≠ [])
    (each : ∀ item ∈ items, ∀ d, Settled total entity.id (parts item) d →
      (succeeded (step (item, d))).map (fun (b, item, d) => (answer b, parts item, d)) =
        account.atOnce total entity u (parts item) d)
    (settled : Settled total entity.id (items.flatMap parts) d) :
    (succeeded (Plan.forEach (fun _ => step) items (items, d))).map
        (fun (bs, items, d) => (bs.flatMap answer, items.flatMap parts, d)) =
      account.atOnce total entity u (items.flatMap parts) d := by
  induction items generalizing d with
  | nil => exact absurd rfl some
  | cons item items ih =>
      rw [List.flatMap_cons] at settled ⊢
      have first := each item List.mem_cons_self d
        ⟨fun object member => settled.carried object (List.mem_append_left _ member),
          settled.reached⟩
      rw [Plan.succeeded_forEach]
      cases items with
      | nil =>
          rw [List.flatMap_nil, List.append_nil, ← first]
          cases succeeded (step (item, d)) with
          | none => rfl
          | some done => simp [Plan.forEach]
      | cons next items =>
          rw [atOnce_append apart, ← first]
          cases stored : succeeded (step (item, d)) with
          | none => rfl
          | some done =>
              obtain ⟨b, item', d'⟩ := done
              rw [stored, Option.map_some] at first
              have later := @ih d' (List.cons_ne_nil _ _)
                (fun item member => each item (List.mem_cons_of_mem _ member))
                (settled.later apart first.symm)
              simp only [Option.map_some, Option.bind_some, ← later, Option.map_map]
              rfl

/-- However a batch is cut, storing it is storing it at once. -/
theorem writeMany_atOnce (some : objects ≠ [])
    (size : 0 < u.store.config.chunkSize ∧ u.store.config.chunkSize ≤ maxIdsPerBlock)
    (able : u.store.arrays = u.base.arrays) :
    succeeded (account.writeMany entity u (objects, d)) =
      account.atOnce total entity u objects d := by
  cases arrays : u.store.arrays with
  | true =>
      have whole : (Editing.chunked u.store.config.chunkSize objects objects).flatten = objects :=
        Editing.flatten_chunked (Nat.le_refl _)
      have chunks : Editing.chunked u.store.config.chunkSize objects objects ≠ [] := by
        intro none
        rw [none] at whole
        exact some whole.symm
      have small : ∀ chunk ∈ Editing.chunked u.store.config.chunkSize objects objects,
          chunk.length ≤ maxIdsPerBlock :=
        fun chunk member =>
          Nat.le_trans (Editing.length_of_mem_chunked size.1 chunk member).2 size.2
      have stored := @forEach_atOnce _ _ account total entity u d apart _ _
        (account.writeChunk entity u) (fun chunk => chunk) (fun assigned => assigned) _ chunks
        (fun chunk member d settled => by
          rw [writeChunk_atOnce known settled apart (able.symm.trans arrays) (small chunk member)]
          simp)
        (by rwa [List.flatMap_id', whole])
      simp only [List.flatMap_id', whole] at stored
      rw [← stored, writeMany_chunkwise arrays, Plan.succeeded_bind]
      simp only [Plan.forChunks, Plan.pure_run]
      rcases Plan.forEach (fun _ => account.writeChunk entity u)
        (Editing.chunked u.store.config.chunkSize objects objects)
          (Editing.chunked u.store.config.chunkSize objects objects, d) with ⟨why | bs, chunks, d'⟩
      · rfl
      · rfl
  | false =>
      have stored := @forEach_atOnce _ _ account total entity u d apart _ _
        (account.writeOne entity u) ([·]) ([·]) objects some
        (fun object _ d settled => writeOne_atOnce known apart settled)
        (by simpa using settled)
      simpa [writeMany_onewise arrays] using stored

end Binding.Account

end ObjectStore
