import ObjectStore.Proofs.Store.Reads
import ObjectStore.Proofs.Store.Twins
import ObjectStore.Store.Links

/-! # Programs that only look

A program that only looks around in a transaction ends as the transaction's snapshot decides: with
an answer that depends on nothing else, or with an error. Which error it is may depend on more, as
what is said of a failed call is fetched from a slot; whether there is one does not. `Looks` says so
of a program; it is put together along binds and lists.

All reads of a box only look, if loading what goes with its objects does.
-/

namespace ObjectStore

variable {store : Store} {base : Engine} {s : Snapshot} {α β : Type}

/-- In any transaction at the snapshot `s`, over any engine with the schema of `base`, a program
answers `r`, or fails if that is nothing. It leaves the store and the engine as they were. -/
def Looks (store : Store) (base : Engine) (s : Snapshot) (program : Txn → StoreM α)
    (r : Option α) : Prop :=
  ∀ (txn : Txn) (e : Engine), base.SameSchema e → e.view (some txn.handle) = .ok s →
    Leads (program txn) (store, e) fun r' v => r'.toOption = r ∧ v = (store, e)

namespace Looks

variable {program : Txn → StoreM α} {f : Txn → α → StoreM β} {r : Option α}

theorem pure {a : α} : Looks store base s (fun _ => Pure.pure a) (some a) :=
  fun _ _ _ _ => Leads.pure ⟨rfl, rfl⟩

theorem throw {why : StoreError} :
    Looks store base s (fun _ => (MonadExcept.throw why : StoreM α)) none :=
  fun _ _ _ _ => Leads.throw ⟨rfl, rfl⟩

theorem bind {r' : α → Option β} (first : Looks store base s program r)
    (next : ∀ a, Looks store base s (fun txn => f txn a) (r' a)) :
    Looks store base s (fun txn => program txn >>= f txn) (r.bind r') := by
  intro txn e schema view
  refine (first txn e schema view).onward ?_ ?_
  · rintro a _ ⟨rfl, rfl⟩
    exact next a txn e schema view
  · rintro why _ ⟨rfl, rfl⟩
    exact ⟨rfl, rfl⟩

theorem map (first : Looks store base s program r) {g : α → β} :
    Looks store base s (fun txn => do return g (← program txn)) (r.map g) := by
  rw [Option.map_eq_bind]
  exact first.bind fun _ => pure

theorem exists_bind (first : Looks store base s program r)
    (next : ∀ a, r = some a → ∃ r', Looks store base s (fun txn => f txn a) r') :
    ∃ r', Looks store base s (fun txn => program txn >>= f txn) r' := by
  cases r with
  | none =>
      refine ⟨none, fun txn e schema view => (first txn e schema view).onward ?_ ?_⟩
      · rintro a v ⟨ended, -⟩
        cases ended
      · rintro why v ⟨-, rfl⟩
        exact ⟨rfl, rfl⟩
  | some a =>
      obtain ⟨r', next⟩ := next a rfl
      refine ⟨r', fun txn e schema view => (first txn e schema view).onward ?_ ?_⟩
      · rintro a v ⟨⟨⟩, rfl⟩
        exact next txn e schema view
      · rintro why v ⟨ended, -⟩
        cases ended

theorem mapM {f : Txn → α → StoreM β} {r : α → Option β} {list : List α}
    (each : ∀ a, Looks store base s (fun txn => f txn a) (r a)) :
    Looks store base s (fun txn => list.mapM (f txn)) (list.mapM r) := by
  induction list with
  | nil => exact pure
  | cons a list ih =>
      simp only [List.mapM_cons]
      exact (each a).bind fun _ => ih.bind fun _ => pure

theorem relGetIds (operation : String) (relation : RelationId) (source : ObjectId) :
    ∃ r, Looks store base s (fun txn => StoreM.ofHost (HostM.request operation
      (.relGetIds (some txn.handle) relation source))) r := by
  cases known : base.relations.contains relation with
  | true =>
      refine ⟨some (s.targets relation source).toList, fun txn e schema view => ?_⟩
      have served := @Engine.perform_relGetIds e _ s relation source callerThread
        (by rw [schema.relations]; exact known) view
      exact (Ends.ofHost (HostM.request_ends served)).leads ⟨rfl, rfl⟩
  | false =>
      refine ⟨none, fun txn e schema view => Leads.ofHost (HostM.request_leads ?_ ?_)⟩
      · intro targets e' done
        obtain ⟨found, rfl⟩ := Engine.reading_eq_ok.mp done
        obtain ⟨ends, defined, -⟩ := bind_eq_ok.mp found
        have listed := Engine.endpoints_eq_ok.mp defined
        rw [schema.relations] at listed
        have contained := Std.ExtTreeMap.isSome_getElem?_iff_mem.mp (by rw [listed]; rfl)
        rw [Std.ExtTreeMap.mem_iff_contains, known] at contained
        cases contained
      · exact fun _ _ => ⟨rfl, rfl⟩

end Looks

/-! ## Boxes -/

/-- A store is open, and everything it knows of the engine is so. -/
structure Store.Serves (store : Store) (base : Engine) : Prop where
  opened : store.closed = false
  able : store.strategy = .resultArray → base.arrays = true
  known : ∀ entity ∈ store.model.entities, base.entities.contains entity.id = true

/-- A binding that loads what goes with an object by looking. -/
def Binding.Looks {T : Type} (binding : Binding T) (store : Store) (base : Engine) (s : Snapshot) :
    Prop :=
  ∀ object, ∃ r, ObjectStore.Looks store base s (fun txn => binding.loadRelated txn object) r

namespace Box

variable {T : Type} {b : Box T} {load : T → Option T} {selection : Selection}
  {existingOnly : Bool}

/-- What goes with an object of the box is loaded as `load` says, if anything can go with it. -/
def LoadsBy (b : Box T) (store : Store) (base : Engine) (s : Snapshot) (load : T → Option T) :
    Prop :=
  ∀ object, if b.descriptor.hasRelations then
      Looks store base s (fun txn => b.binding.loadRelated txn object) (load object)
    else load object = some object

theorem LoadsBy.looks (loads : b.LoadsBy store base s load) (object : T) :
    Looks store base s (fun txn => b.loadRelated txn object) (load object) := by
  have alone := loads object
  unfold loadRelated
  cases related : b.descriptor.hasRelations with
  | true => simpa only [related, if_true] using alone
  | false =>
      simp only [related, Bool.false_eq_true, if_false] at alone ⊢
      rw [alone]
      exact Looks.pure

theorem exists_loadsBy (looks : b.binding.Looks store base s) :
    ∃ load, b.LoadsBy store base s load := by
  cases related : b.descriptor.hasRelations with
  | true =>
      choose load each using looks
      exact ⟨load, fun object => by rw [if_pos related]; exact each object⟩
  | false => exact ⟨some, fun object => by simp [related]⟩

/-- What a single record is read as: an empty place if it is missing, and nothing if it cannot be
decoded or what goes with its object cannot be loaded. -/
def place (b : Box T) (load : T → Option T) : Option Bytes → Option (Option T)
  | none => some none
  | some record => do return some (← load (← (b.binding.decode record).toOption))

/-- An object with what goes with it. -/
def loadPlace (load : T → Option T) : Option T → Option (Option T)
  | none => some none
  | some object => do return some (← load object)

theorem placed_cons {object : Option T} {objects : List (Option T)} :
    placed existingOnly (object :: objects) =
      placed existingOnly [object] ++ placed existingOnly objects := by
  cases existingOnly <;> cases object <;> rfl

/-- The objects of records with what goes with them, if all records can be decoded first and then
all objects loaded. -/
def decodeThenLoad (b : Box T) (load : T → Option T) (existingOnly : Bool)
    (records : List (Option Bytes)) : Option (List (Option T)) :=
  (b.decodeAll existingOnly records).toOption.bind fun objects => objects.mapM (loadPlace load)

theorem decodeThenLoad_cons {record : Option Bytes} {records : List (Option Bytes)} :
    b.decodeThenLoad load existingOnly (record :: records) = (b.place load record).bind
      fun object => (b.decodeThenLoad load existingOnly records).map
        (placed existingOnly [object] ++ ·) := by
  unfold decodeThenLoad
  cases record with
  | none =>
      cases decoded : b.decodeAll existingOnly records with
      | error why => simp [decodeAll, decoded, place, bind, Except.bind, Except.toOption]
      | ok objects =>
          cases existingOnly <;>
            simp [decodeAll, decoded, place, bind, Except.bind, pure, Except.pure, Except.toOption,
              placed, loadPlace, Option.map_eq_bind]
  | some bytes =>
      cases first : b.binding.decode bytes with
      | error why => simp [decodeAll, first, place, bind, Except.bind, Except.toOption]
      | ok object =>
          cases decoded : b.decodeAll existingOnly records with
          | error why =>
              simp [decodeAll, first, decoded, place, bind, Except.bind, Except.toOption]
          | ok objects =>
              cases loaded : load object <;> cases existingOnly <;>
                simp [decodeAll, first, decoded, place, loaded, bind, Except.bind, pure,
                  Except.pure, Except.toOption, placed, loadPlace, Option.map_eq_bind]

theorem decodeThenLoad_eq {records : List (Option Bytes)} :
    b.decodeThenLoad load existingOnly records =
      (records.mapM (b.place load)).map (placed existingOnly) := by
  induction records with
  | nil => cases existingOnly <;> rfl
  | cons record records ih =>
      rw [decodeThenLoad_cons, ih, List.mapM_cons]
      cases b.place load record with
      | none => rfl
      | some object =>
          cases records.mapM (b.place load) with
          | none => rfl
          | some objects => exact congrArg some placed_cons.symm

theorem decode_looks {record : Bytes} :
    Looks store base s (fun _ => b.decode record) (b.binding.decode record).toOption := by
  unfold decode
  cases b.binding.decode record with
  | ok object => exact Looks.pure
  | error why => exact Looks.throw

theorem decoded_looks {records : List (Option Bytes)} :
    Looks store base s (fun _ => b.decoded existingOnly records)
      (b.decodeAll existingOnly records).toOption := by
  unfold decoded
  cases b.decodeAll existingOnly records with
  | ok objects => exact Looks.pure
  | error why => exact Looks.throw

theorem loadAll_looks (loads : b.LoadsBy store base s load) {objects : List (Option T)} :
    Looks store base s (fun txn =>
        if b.descriptor.hasRelations then
          objects.mapM fun
            | some object => do return some (← b.loadRelated txn object)
            | none => return none
        else return objects)
      (objects.mapM (loadPlace load)) := by
  cases related : b.descriptor.hasRelations with
  | true =>
      simp only [if_true]
      refine Looks.mapM fun object => ?_
      cases object with
      | none => exact Looks.pure
      | some object => exact (loads.looks object).bind fun _ => Looks.pure
  | false =>
      have same : objects.mapM (loadPlace load) = some objects := by
        have kept (object : Option T) : loadPlace load object = some object := by
          cases object with
          | none => rfl
          | some object =>
              have alone := loads object
              rw [if_neg (by simp [related])] at alone
              simp [loadPlace, alone]
        induction objects with
        | nil => rfl
        | cons object objects ih => simp [List.mapM_cons, kept, ih]
      rw [same]
      exact Looks.pure

section Reads

variable (serves : store.Serves base) (member : b.descriptor ∈ store.model.entities)
include serves member

theorem readArray_looks (arrays : base.arrays = true) :
    Looks store base s (fun txn => b.readArray txn selection existingOnly)
      (b.decodeAll existingOnly (b.selected s selection)).toOption := by
  intro txn e schema view
  have known : e.entities.contains b.entity = true := by
    rw [schema.entities]
    exact serves.known _ member
  rw [← schema.arrays] at arrays
  unfold readArray
  cases selection with
  | ids ids =>
      have served : e.perform callerThread (.getMany (some txn.handle) b.entity ids) =
          .ok (ids.map (s.record? b.entity), e) := by
        rw [Engine.perform, Engine.reading, Engine.getMany_eq arrays known view]
        rfl
      exact (Ends.ofHost (HostM.request_ends served)).bind (decoded_looks txn e schema view)
  | all =>
      have served : e.perform callerThread (.getAll (some txn.handle) b.entity) =
          .ok (s.recordList b.entity, e) := by
        rw [Engine.perform, Engine.reading, Engine.getAll_eq arrays known view]
        rfl
      exact (Ends.ofHost (HostM.request_ends served)).bind (decoded_looks txn e schema view)

/-- A visit ends early, but not before a record that decides its outcome. -/
theorem readVisit_looks :
    Looks store base s (fun txn => b.readVisit txn selection existingOnly)
      (b.decodeAll existingOnly (b.selected s selection)).toOption := by
  intro txn e schema view
  have known : e.entities.contains b.entity = true := by
    rw [schema.entities]
    exact serves.known _ member
  have visited : b.decodeAll existingOnly (b.visitor.visit [] (b.selected s selection)).reverse =
      b.decodeAll existingOnly (b.selected s selection) := decodeAll_visit
  rw [← visited]
  unfold readVisit
  cases selection with
  | ids ids =>
      have served : e.perform callerThread (.visitMany (some txn.handle) b.entity ids b.visitor) =
          .ok ((b.visitor.visit [] (ids.map (s.record? b.entity))).reverse, e) := by
        rw [Engine.perform, Engine.reading, Engine.visitMany_eq known view]
        rfl
      exact (Ends.ofHost (HostM.perform_ends served)).bind (decoded_looks txn e schema view)
  | all =>
      have served : e.perform callerThread (.visitAll (some txn.handle) b.entity b.visitor) =
          .ok ((b.visitor.visit [] ((s.recordList b.entity).map some)).reverse, e) := by
        rw [Engine.perform, Engine.reading, Engine.visitAll_eq known view]
        rfl
      exact (Ends.ofHost (HostM.perform_ends served)).bind (decoded_looks txn e schema view)

variable (loads : b.LoadsBy store base s load)
include loads

theorem getIn_looks (id : ObjectId) :
    Looks store base s (fun txn => b.getIn txn id) (b.place load (s.record? b.entity id)) := by
  intro txn e schema view
  have known : e.entities.contains b.entity = true := by
    rw [schema.entities]
    exact serves.known _ member
  cases stored : s.record? b.entity id with
  | none => exact (getIn_missing serves.opened known view stored).leads ⟨rfl, rfl⟩
  | some record =>
      have served : e.perform callerThread (.get (some txn.handle) b.entity id) =
          .ok (record, e) := by
        rw [Engine.perform, Engine.reading, Engine.get_eq known view stored]
        rfl
      have read : Looks store base s
          (fun txn => do return some (← b.loadRelated txn (← b.decode record)))
          (b.place load (some record)) :=
        decode_looks.bind fun object => (loads.looks object).bind fun _ => Looks.pure
      unfold getIn
      refine Ends.bind (StoreM.ensureOpen_ends serves.opened) ?_
      exact Ends.bind (Ends.ofHost (HostM.perform_ends served)) (read txn e schema view)

variable (selection existingOnly) in
/-- A bulk read comes to what the selected records come to one by one. -/
theorem readMany_looks : Looks store base s (fun txn => b.readMany txn selection existingOnly)
    (((b.selected s selection).mapM (b.place load)).map (placed existingOnly)) := by
  rw [← decodeThenLoad_eq]
  intro txn e schema view
  unfold readMany
  refine Ends.bind (StoreM.ensureOpen_ends serves.opened) ?_
  split
  · rename_i none
    subst none
    exact Leads.pure ⟨rfl, rfl⟩
  · refine Leads.bind (StoreM.store_leads fun pool => ?_)
    simp only [Onward]
    cases strategy : store.strategy with
    | resultArray =>
        exact ((readArray_looks serves member (serves.able strategy)).bind fun _ =>
          loadAll_looks loads) txn e schema view
    | visitor =>
        exact ((readVisit_looks serves member).bind fun _ => loadAll_looks loads) txn e schema view

end Reads

end Box

/-! ## Loading related objects -/

section Related

variable {T : Type} {binding : Binding T} (serves : store.Serves base)
include serves

theorem Store.boxFor_looks :
    ∃ r, Looks store base s (fun _ => boxFor binding) r ∧
      ∀ b, r = some b → b.binding = binding ∧ b.descriptor ∈ store.model.entities := by
  cases bound : store.model.bound? binding.name with
  | none =>
      refine ⟨none, fun txn e _ _ => ?_, by simp⟩
      refine Ends.bind (StoreM.ensureOpen_ends serves.opened) ?_
      refine Leads.bind (StoreM.store_leads fun pool => ?_)
      simp only [Onward, bound]
      exact Leads.throw ⟨rfl, rfl⟩
  | some descriptor =>
      refine ⟨some ⟨descriptor, binding⟩, fun txn e _ _ => ?_, ?_⟩
      · exact (StoreM.boxFor_ends serves.opened bound).leads ⟨rfl, rfl⟩
      · rintro b ⟨⟩
        exact ⟨rfl, List.mem_of_find?_eq_some bound⟩

theorem Store.relatedObjects_looks {relation : Relation} {source : ObjectId}
    (looks : binding.Looks store base s) :
    ∃ r, Looks store base s (fun txn => relatedObjects binding txn relation source) r := by
  obtain ⟨found, boxed, listed⟩ := @boxFor_looks store base s T binding serves
  obtain ⟨targets, asked⟩ :=
    @Looks.relGetIds store base s "rel_get_ids" relation.id source
  have rest : ∃ r, Looks store base s (fun txn => do
      let ids ← HostM.request "rel_get_ids" (.relGetIds (some txn.handle) relation.id source)
      (← boxFor binding).getManyExistingIn txn ids) r := by
    refine Looks.exists_bind asked fun ids _ => Looks.exists_bind boxed fun b isFound => ?_
    obtain ⟨rfl, member⟩ := listed b isFound
    obtain ⟨load, loads⟩ := Box.exists_loadsBy looks
    exact ⟨_, (Box.readMany_looks _ _ serves member loads).map⟩
  unfold relatedObjects
  split
  · exact Looks.exists_bind Looks.throw fun _ _ => rest
  · exact rest

end Related

end ObjectStore
