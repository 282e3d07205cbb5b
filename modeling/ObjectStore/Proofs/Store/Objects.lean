import ObjectStore.Proofs.Cbor.Records
import ObjectStore.Proofs.Store.Transaction

/-! # Objects that can always be kept

A binding is total if it can ask every object for its id, give it another and write its body. The
bindings of events, tags and notes are. Where the objects have no related ones, storing one is
allocating its id, writing its record and storing that.
-/

namespace ObjectStore

/-- What a binding that never fails does with an object. -/
structure Binding.Total {T : Type} (binding : Binding T) where
  idOf : T → ObjectId
  withId : T → ObjectId → T
  bodyOf : T → Cbor.Value
  id_eq (object : T) : binding.id object = .ok (idOf object)
  setId_eq (object : T) (id : ObjectId) : binding.setId object id = .ok (withId object id)
  body_eq (object : T) : binding.body object = .ok (bodyOf object)
  withId_idOf (object : T) : withId object (idOf object) = object
  plain (object : T) (id : ObjectId) : (Record.write id (bodyOf object)).refusal = none

namespace Binding.Total

variable {T : Type} {binding : Binding T}

/-- The record of an object under an id. -/
def record (total : binding.Total) (id : ObjectId) (object : T) : Bytes :=
  (Record.write id (total.bodyOf object)).bytes

theorem made (total : binding.Total) {id : ObjectId} {object : T} :
    Record.made id (binding.body object) = .ok (total.record id object) := by
  simp only [Record.made, total.body_eq, total.plain, record]

theorem mapM_id (total : binding.Total) {objects : List T} :
    objects.mapM binding.id = .ok (objects.map total.idOf) := by
  rw [show binding.id = fun object => pure (total.idOf object) from funext total.id_eq]
  exact List.mapM_pure

/-- The records of objects, each under its id. -/
def entries (total : binding.Total) (ids : List ObjectId) (objects : List T) :
    List (ObjectId × Bytes) :=
  List.zipWith (fun id object => (id, total.record id object)) ids objects

theorem map_fst_entries (total : binding.Total) {ids : List ObjectId} {objects : List T}
    (even : ids.length = objects.length) : (total.entries ids objects).map Prod.fst = ids := by
  induction ids generalizing objects with
  | nil => rfl
  | cons id ids ih =>
      cases objects with
      | nil => cases even
      | cons object objects =>
          rw [entries, List.zipWith_cons_cons, List.map_cons]
          exact congrArg (id :: ·) (ih (Nat.succ.inj even))

theorem zip_records (total : binding.Total) {ids : List ObjectId} {objects : List T} :
    ids.zip (List.zipWith total.record ids objects) = total.entries ids objects := by
  induction ids generalizing objects with
  | nil => rfl
  | cons id ids ih =>
      cases objects with
      | nil => rfl
      | cons object objects =>
          rw [entries, List.zipWith_cons_cons, List.zipWith_cons_cons, List.zip_cons_cons, ih]
          rfl

end Binding.Total

namespace Box

/-- What is left of a put once its id is known. -/
def storeUnder {T : Type} (b : Box T) (txn : Option Txn) (id : ObjectId) (mode : PutMode) :
    Editing T ObjectId := do
  if b.descriptor.hasRelations then
    match txn with
    | some txn => b.binding.putRelated txn id
    | none => pure ()
  let record ← b.encode id (← Editing.current)
  HostM.request "put" (.put (txn.map Txn.handle) b.entity id record mode)
  return id

variable {T : Type} {b : Box T} (total : b.binding.Total) {object : T} {store : Store}
  {e e₁ e₂ : Engine} {v : Store × Engine} {id current : ObjectId} {txn : Option Txn}
  {mode : PutMode} {why : Refusal} {message : String}
include total

theorem idOf_ends : Ends (b.idOf object) v (.ok (total.idOf object)) v := by
  rw [idOf, total.id_eq]
  exact Ends.pure

theorem currentId_ends : Ends b.currentId (object, v) (.ok (total.idOf object)) (object, v) := by
  unfold currentId
  exact Ends.bind Editing.current_ends (Ends.ofStore (idOf_ends total))

theorem assignId_ends :
    Ends (b.assignId id) (object, v) (.ok ()) (total.withId object id, v) := by
  unfold assignId
  apply Ends.bind Editing.current_ends
  rw [total.setId_eq]
  exact Editing.replace_ends

theorem encode_ends :
    Ends (b.encode id object) (store, e) (.ok (total.record id object)) (store, e) := by
  rw [encode, total.body_eq]
  exact StoreM.encodeRecord_ends (total.plain object id)

omit total in
/-- A put under an id of its own allocates it first. -/
theorem write_eq (new : mode ≠ .update) :
    b.write txn current mode = (do
      let id ← (Store.allocateOne (txn.map Txn.handle) b.entity current : HostM ObjectId)
      b.storeUnder txn id mode) := by
  cases mode with
  | update => exact absurd rfl new
  | put | insert | putNew => rfl

omit total in
theorem write_update_eq : b.write txn current .update = b.storeUnder txn current .update := rfl

theorem storeUnder_ends (simple : b.descriptor.hasRelations = false)
    (put : e.put callerThread (txn.map Txn.handle) b.entity id (total.record id object) mode =
      .ok e₁) :
    Ends (b.storeUnder txn id mode) (object, store, e) (.ok id) (object, store, e₁) := by
  have done : e.perform callerThread
      (.put (txn.map Txn.handle) b.entity id (total.record id object) mode) = .ok ((), e₁) :=
    Engine.changing_eq_ok.mpr put
  simp only [storeUnder, simple, Bool.false_eq_true, if_false]
  apply Ends.bind Editing.current_ends
  apply Ends.bind (Ends.ofStore (encode_ends total))
  exact Ends.bind (Ends.ofStore (Ends.ofHost (HostM.request_ends done))) Ends.pure

theorem storeUnder_refused (simple : b.descriptor.hasRelations = false)
    (refused : e.put callerThread (txn.map Txn.handle) b.entity id (total.record id object) mode =
      .error (.refused why)) (detail : why.detail? = some message) :
    Ends (b.storeUnder txn id mode) (object, store, e) (.error (.engine "put" why.status message))
      (object, store, e) := by
  have refused : e.perform callerThread
      (.put (txn.map Txn.handle) b.entity id (total.record id object) mode) =
        .error (.refused why) := by
    rw [Engine.perform, refused]
    rfl
  simp only [storeUnder, simple, Bool.false_eq_true, if_false]
  apply Ends.bind Editing.current_ends
  apply Ends.bind (Ends.ofStore (encode_ends total))
  exact Ends.bind_error (Ends.ofStore (Ends.ofHost (HostM.request_refused refused detail)))
    ⟨rfl, rfl⟩

omit total in
theorem write_leads {Q : Except StoreError ObjectId → T × Store × Engine → Prop}
    (new : mode ≠ .update)
    (allocated : e.idForPut (txn.map Txn.handle) b.entity current = .ok (id, e₁))
    (h : Leads (b.storeUnder txn id mode) (object, store, e₁) Q) :
    Leads (b.write txn current mode) (object, store, e) Q := by
  rw [write_eq new]
  exact Ends.bind (Ends.ofStore (Ends.ofHost (Store.allocateOne_ends allocated))) h

omit total in
theorem write_refused (new : mode ≠ .update)
    (refused : e.idForPut (txn.map Txn.handle) b.entity current = .error (.refused why))
    (detail : why.detail? = some message) :
    Ends (b.write txn current mode) (object, store, e)
      (.error (.engine "id_for_put" why.status message)) (object, store, e) := by
  rw [write_eq new]
  exact Ends.bind_error (Ends.ofStore (Ends.ofHost (Store.allocateOne_refused refused detail)))
    ⟨rfl, rfl⟩

/-! ## Putting an object -/

/-- An object carries the id it was stored under. -/
theorem putObject_ends (simple : b.descriptor.hasRelations = false) (opened : store.closed = false)
    (saved : ¬ (mode = .update ∧ total.idOf object = 0))
    (written : Ends (b.write txn (total.idOf object) mode) (object, store, e) (.ok id)
      (object, store, e₁)) :
    Ends (b.putObject txn mode) (object, store, e) (.ok id)
      (total.withId object id, store, e₁) := by
  unfold putObject
  apply Ends.bind (Ends.ofStore (StoreM.ensureOpen_ends opened))
  apply Ends.bind (currentId_ends total)
  simp only [saved, simple, Bool.false_eq_true, and_false, if_false]
  apply Ends.bind written
  split
  · exact Ends.bind (assignId_ends total) Ends.pure
  · have same : id = total.idOf object := Decidable.of_not_not ‹_›
    rw [same, total.withId_idOf]
    exact Ends.pure

theorem putObject_error {error : StoreError} (simple : b.descriptor.hasRelations = false)
    (opened : store.closed = false) (saved : ¬ (mode = .update ∧ total.idOf object = 0))
    (failed : Ends (b.write txn (total.idOf object) mode) (object, store, e) (.error error)
      (object, store, e₁)) :
    Ends (b.putObject txn mode) (object, store, e) (.error error) (object, store, e₁) := by
  unfold putObject
  apply Ends.bind (Ends.ofStore (StoreM.ensureOpen_ends opened))
  apply Ends.bind (currentId_ends total)
  simp only [saved, simple, Bool.false_eq_true, and_false, if_false]
  exact Ends.bind_error failed ⟨rfl, rfl⟩

theorem putObject_unsaved (opened : store.closed = false) (unsaved : total.idOf object = 0) :
    Ends (b.putObject txn .update) (object, store, e) (.error (.misuse (.updateUnsaved b.name)))
      (object, store, e) := by
  unfold putObject
  apply Ends.bind (Ends.ofStore (StoreM.ensureOpen_ends opened))
  apply Ends.bind (currentId_ends total)
  simp only [unsaved, and_self, if_true]
  exact Ends.bind_error (Ends.ofStore StoreM.misuse_ends) ⟨rfl, rfl⟩

end Box

namespace Catalog

/-- Every event can be kept. -/
def eventTotal : eventBinding.Total where
  idOf := Event.id
  withId e id := { e with id }
  bodyOf := Event.body
  id_eq _ := rfl
  setId_eq _ _ := rfl
  body_eq _ := rfl
  withId_idOf _ := rfl
  plain e id := by rw [Event.write_record]

theorem eventTotal_record {id : ObjectId} {event : Event} :
    eventTotal.record id event = event.record id := by
  rw [Binding.Total.record, Event.record]
  rfl

/-- Every tag can be kept. -/
def tagTotal : tagBinding.Total where
  idOf := Tag.id
  withId t id := { t with id }
  bodyOf := Tag.body
  id_eq _ := rfl
  setId_eq _ _ := rfl
  body_eq _ := rfl
  withId_idOf _ := rfl
  plain _ _ := rfl

/-- Every note can be kept. -/
def noteTotal : noteBinding.Total where
  idOf := Note.id
  withId n id := { n with id }
  bodyOf := Note.body
  id_eq _ := rfl
  setId_eq _ _ := rfl
  body_eq _ := rfl
  withId_idOf _ := rfl
  plain _ _ := rfl

end Catalog

end ObjectStore
