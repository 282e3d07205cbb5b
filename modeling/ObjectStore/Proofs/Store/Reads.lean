import Mathlib.Data.List.Forall2
import ObjectStore.Proofs.Store.OwnTransaction

/-! # Reading what can be decoded

Where every selected record decodes, and what goes with its object can be loaded, a read in an open
transaction answers with the objects of these records, whether they are handed over in an array or
to a visitor.
-/

namespace ObjectStore

namespace Visitor

variable {visitor : Visitor} {seen records : List (Option Bytes)}

/-- A visitor that stops at none of the records is handed all. -/
theorem visit_eq (goesOn : ∀ record ∈ records, ∀ seen, visitor (record :: seen) = true) :
    visitor.visit seen records = records.reverse ++ seen := by
  induction records generalizing seen with
  | nil => rfl
  | cons record records ih =>
      rw [visit, if_pos (goesOn record List.mem_cons_self seen)]
      rw [ih fun record member => goesOn record (List.mem_cons_of_mem _ member)]
      simp

end Visitor

namespace Engine

variable {e : Engine} {txn : Option Handle} {entity : EntityId} {s : Snapshot} {id : ObjectId}

theorem get_eq {record : Bytes} (known : e.entities.contains entity = true)
    (view : e.view txn = .ok s)
    (found : s.record? entity id = some record) : e.get txn entity id = .ok record := by
  simp only [get, requireEntity, known, if_true, view, found, bind, Except.bind, pure, Except.pure]

theorem get_missing (known : e.entities.contains entity = true) (view : e.view txn = .ok s)
    (missing : s.record? entity id = none) :
    e.get txn entity id = .error (.refused .missing) := by
  simp only [get, requireEntity, known, if_true, view, missing, bind, Except.bind, refuse]

theorem getMany_eq {ids : List ObjectId} (arrays : e.arrays = true)
    (known : e.entities.contains entity = true) (view : e.view txn = .ok s) :
    e.getMany txn entity ids = .ok (ids.map (s.record? entity)) := by
  simp only [getMany, requireArrays, arrays, requireEntity, known, if_true, view, bind, Except.bind,
    pure, Except.pure]

theorem getAll_eq (arrays : e.arrays = true) (known : e.entities.contains entity = true)
    (view : e.view txn = .ok s) : e.getAll txn entity = .ok (s.recordList entity) := by
  simp only [getAll, requireArrays, arrays, requireEntity, known, if_true, view, bind, Except.bind,
    pure, Except.pure]

theorem visitMany_eq {ids : List ObjectId} {visitor : Visitor}
    (known : e.entities.contains entity = true) (view : e.view txn = .ok s) :
    e.visitMany txn entity ids visitor =
      .ok (visitor.visit [] (ids.map (s.record? entity))).reverse := by
  simp only [visitMany, requireEntity, known, if_true, view, bind, Except.bind, pure, Except.pure]

theorem visitAll_eq {visitor : Visitor} (known : e.entities.contains entity = true)
    (view : e.view txn = .ok s) :
    e.visitAll txn entity visitor =
      .ok (visitor.visit [] ((s.recordList entity).map some)).reverse := by
  simp only [visitAll, requireEntity, known, if_true, view, bind, Except.bind, pure, Except.pure]

theorem count_eq (known : e.entities.contains entity = true) (view : e.view txn = .ok s) :
    e.count txn entity 0 = .ok (s.size entity) := by
  simp only [count, requireEntity, known, if_true, view, bind, Except.bind, pure, Except.pure,
    Nat.lt_irrefl, if_false]

theorem perform_relGetIds {relation : RelationId} {source : ObjectId} {thread : ThreadId}
    (known : e.relations.contains relation = true) (view : e.view txn = .ok s) :
    e.perform thread (.relGetIds txn relation source) =
      .ok ((s.targets relation source).toList, e) := by
  obtain ⟨ends, found⟩ := Option.isSome_iff_exists.mp
    (Std.ExtTreeMap.isSome_getElem?_iff_mem.mpr known)
  refine reading_eq_ok.mpr ⟨?_, rfl⟩
  rw [relGetIds, endpoints_eq_ok.mpr found, view]
  rfl

end Engine

namespace Box

variable {T : Type} {b : Box T} {record : T → Bytes} {objects : List (Option T)}
  {existingOnly : Bool} {store : Store} {e : Engine} {s : Snapshot} {txn : Txn} {id : ObjectId}
  {selection : Selection}

/-- The objects of records, without the empty places if only existing ones are asked for. -/
def placed (existingOnly : Bool) (objects : List (Option T)) : List (Option T) :=
  if existingOnly then objects.filter Option.isSome else objects

theorem reduceOption_eq {objects : List (Option T)} :
    objects.reduceOption = objects.filterMap fun object => object := rfl

/-- The objects that are there are the same. -/
theorem reduceOption_placed :
    (placed existingOnly objects).reduceOption = objects.reduceOption := by
  unfold placed
  split
  · induction objects with
    | nil => rfl
    | cons object objects ih =>
        cases object with
        | none => simpa [reduceOption_eq] using ih
        | some object => simpa [reduceOption_eq] using ih
  · rfl

/-- A record is read as an object, a missing record as none. -/
inductive Reads (b : Box T) : Option Bytes → Option T → Prop where
  | missing : b.Reads none none
  | found {record : Bytes} {object : T} : b.binding.decode record = .ok object →
      b.Reads (some record) (some object)

theorem forall₂_reads {record : T → Bytes}
    (decodes : ∀ object, some object ∈ objects → b.binding.decode (record object) = .ok object) :
    List.Forall₂ b.Reads (objects.map (Option.map record)) objects := by
  rw [List.forall₂_map_left_iff, List.forall₂_same]
  rintro (none | object) member
  · exact .missing
  · exact .found (decodes object member)

theorem decodeAll_eq {records : List (Option Bytes)} (read : List.Forall₂ b.Reads records objects) :
    b.decodeAll existingOnly records = .ok (placed existingOnly objects) := by
  induction read with
  | nil => simp [decodeAll, placed]
  | cons first _ ih =>
      cases first with
      | missing =>
          simp only [decodeAll, ih, bind, Except.bind, pure, Except.pure, placed]
          cases existingOnly <;> simp
      | found decodes =>
          simp only [decodeAll, decodes, ih, bind, Except.bind, pure, Except.pure, placed]
          cases existingOnly <;> simp

theorem visitor_wants {records : List (Option Bytes)} (read : List.Forall₂ b.Reads records objects) :
    ∀ record ∈ records, ∀ seen, b.visitor (record :: seen) = true := by
  induction read with
  | nil => simp
  | cons first _ ih =>
      refine List.forall_mem_cons.mpr ⟨fun seen => ?_, ih⟩
      cases first with
      | missing => rfl
      | found decodes => rw [visitor, decodes, Except.isOk, Except.toBool]

/-- What goes with an object is loaded as `load` says, if anything can go with it. -/
def Loads (b : Box T) (txn : Txn) (v : Store × Engine) (load : T → T) (object : T) : Prop :=
  if b.descriptor.hasRelations then
    Ends (b.binding.loadRelated txn object) v (.ok (load object)) v
  else load object = object

theorem loads_of_simple {v : Store × Engine} {object : T}
    (simple : b.descriptor.hasRelations = false) : b.Loads txn v (fun object => object) object := by
  simp only [Loads, simple, Bool.false_eq_true, if_false]

theorem Loads.ends {v : Store × Engine} {load : T → T} {object : T}
    (loads : b.Loads txn v load object) :
    Ends (b.loadRelated txn object) v (.ok (load object)) v := by
  unfold Loads at loads
  unfold loadRelated
  split at loads
  · rw [if_pos ‹_›]
    exact loads
  · rw [if_neg ‹_›, loads]
    exact Ends.pure

/-- The records that are selected, in the order in which they are read. -/
def selected (b : Box T) (s : Snapshot) : Selection → List (Option Bytes)
  | .ids ids => ids.map (s.record? b.entity)
  | .all => (s.recordList b.entity).map some

section Open

variable (opened : store.closed = false) (known : e.entities.contains b.entity = true)
  (view : e.view (some txn.handle) = .ok s)
include opened known view

/-- An object whose record is stored is read. -/
theorem getIn_ends {object : T} {load : T → T} {bytes : Bytes}
    (found : s.record? b.entity id = some bytes) (decodes : b.binding.decode bytes = .ok object)
    (loads : b.Loads txn (store, e) load object) :
    Ends (b.getIn txn id) (store, e) (.ok (some (load object))) (store, e) := by
  have served : e.perform callerThread (.get (some txn.handle) b.entity id) = .ok (bytes, e) := by
    rw [Engine.perform, Engine.reading, Engine.get_eq known view found]
    rfl
  unfold getIn
  apply Ends.bind (StoreM.ensureOpen_ends opened)
  apply Ends.bind (Ends.ofHost (HostM.perform_ends served))
  simp only [decode, decodes]
  exact Ends.bind Ends.pure (Ends.bind loads.ends Ends.pure)

theorem getIn_missing (missing : s.record? b.entity id = none) :
    Ends (b.getIn txn id) (store, e) (.ok none) (store, e) := by
  have refused : e.perform callerThread (.get (some txn.handle) b.entity id) =
      .error (.refused .missing) := by
    rw [Engine.perform, Engine.reading, Engine.get_missing known view missing]
    rfl
  unfold getIn
  apply Ends.bind (StoreM.ensureOpen_ends opened)
  apply Ends.bind (Ends.ofHost (HostM.perform_refused refused))
  exact Ends.pure

end Open

section Bulk

variable (known : e.entities.contains b.entity = true) (view : e.view (some txn.handle) = .ok s)
  (read : List.Forall₂ b.Reads (b.selected s selection) objects)
include known view read

omit known view in
theorem decoded_ends : Ends (b.decoded existingOnly (b.selected s selection)) (store, e)
    (.ok (placed existingOnly objects)) (store, e) := by
  rw [decoded, decodeAll_eq read]
  exact Ends.pure

theorem readArray_ends (arrays : e.arrays = true) :
    Ends (b.readArray txn selection existingOnly) (store, e) (.ok (placed existingOnly objects))
      (store, e) := by
  cases selection with
  | ids ids =>
      have served : e.perform callerThread (.getMany (some txn.handle) b.entity ids) =
          .ok (ids.map (s.record? b.entity), e) := by
        rw [Engine.perform, Engine.reading, Engine.getMany_eq arrays known view]
        rfl
      unfold readArray
      exact Ends.bind (Ends.ofHost (HostM.request_ends served)) (decoded_ends read)
  | all =>
      have served : e.perform callerThread (.getAll (some txn.handle) b.entity) =
          .ok (s.recordList b.entity, e) := by
        rw [Engine.perform, Engine.reading, Engine.getAll_eq arrays known view]
        rfl
      unfold readArray
      exact Ends.bind (Ends.ofHost (HostM.request_ends served)) (decoded_ends read)

omit known view in
/-- The visitor of a box wants every record if it can read them. -/
theorem visit_selected :
    (b.visitor.visit [] (b.selected s selection)).reverse = b.selected s selection := by
  rw [Visitor.visit_eq (visitor_wants read), List.append_nil, List.reverse_reverse]

theorem readVisit_ends :
    Ends (b.readVisit txn selection existingOnly) (store, e) (.ok (placed existingOnly objects))
      (store, e) := by
  have visited := visit_selected read
  cases selection with
  | ids ids =>
      have served : e.perform callerThread (.visitMany (some txn.handle) b.entity ids b.visitor) =
          .ok (ids.map (s.record? b.entity), e) := by
        simp only [selected] at visited
        rw [Engine.perform, Engine.reading, Engine.visitMany_eq known view, visited]
        rfl
      unfold readVisit
      exact Ends.bind (Ends.ofHost (HostM.perform_ends served)) (decoded_ends read)
  | all =>
      have served : e.perform callerThread (.visitAll (some txn.handle) b.entity b.visitor) =
          .ok ((s.recordList b.entity).map some, e) := by
        simp only [selected] at visited
        rw [Engine.perform, Engine.reading, Engine.visitAll_eq known view, visited]
        rfl
      unfold readVisit
      exact Ends.bind (Ends.ofHost (HostM.perform_ends served)) (decoded_ends read)

omit known view read in
/-- What goes with each of several objects is loaded in order. -/
theorem loadAll_ends {load : T → T} {v : Store × Engine} {objects : List (Option T)}
    (loads : ∀ object, some object ∈ objects → Ends (b.loadRelated txn object) v
      (.ok (load object)) v) :
    Ends (objects.mapM fun
        | some object => do return some (← b.loadRelated txn object)
        | none => return none : StoreM (List (Option T))) v
      (.ok (objects.map (Option.map load))) v := by
  induction objects with
  | nil => exact Ends.pure
  | cons object objects ih =>
      rw [List.mapM_cons]
      have rest := ih fun object member => loads object (List.mem_cons_of_mem _ member)
      cases object with
      | none => exact Ends.bind Ends.pure (Ends.bind rest Ends.pure)
      | some object =>
          have first := loads object List.mem_cons_self
          exact Ends.bind (Ends.bind first Ends.pure) (Ends.bind rest Ends.pure)

/-- A bulk read answers with the objects of the selected records, by either strategy. -/
theorem readMany_ends {load : T → T} (opened : store.closed = false)
    (able : store.strategy = .resultArray → e.arrays = true)
    (loads : ∀ object, some object ∈ objects → b.Loads txn (store, e) load object) :
    Ends (b.readMany txn selection existingOnly) (store, e)
      (.ok ((placed existingOnly objects).map (Option.map load))) (store, e) := by
  have listed {object : T} (member : some object ∈ placed existingOnly objects) :
      b.Loads txn (store, e) load object := by
    refine loads object ?_
    unfold placed at member
    split at member
    · exact List.mem_of_mem_filter member
    · exact member
  have loaded : Ends (if b.descriptor.hasRelations then
      (placed existingOnly objects).mapM fun
        | some object => do return some (← b.loadRelated txn object)
        | none => return none
      else return placed existingOnly objects : StoreM (List (Option T))) (store, e)
      (.ok ((placed existingOnly objects).map (Option.map load))) (store, e) := by
    split
    · exact loadAll_ends fun object member => (listed member).ends
    · rename_i simple
      have same : ∀ object ∈ placed existingOnly objects, object.map load = object := by
        rintro (none | object) member
        · rfl
        · have alone := listed member
          simp only [Loads, simple, Bool.false_eq_true, if_false] at alone
          rw [Option.map_some, alone]
      rw [List.map_congr_left same, List.map_id']
      exact Ends.pure
  unfold readMany
  apply Ends.bind (StoreM.ensureOpen_ends opened)
  split
  · rename_i none
    subst none
    have empty : objects = [] := by simpa [selected] using read
    subst empty
    cases existingOnly <;> exact Ends.pure
  · refine Leads.bind (StoreM.store_leads fun pool => ?_)
    simp only [Onward]
    cases strategy : store.strategy with
    | resultArray => exact Ends.bind (readArray_ends known view read (able strategy)) loaded
    | visitor => exact Ends.bind (readVisit_ends known view read) loaded

theorem readMany_ends_of_simple (opened : store.closed = false)
    (able : store.strategy = .resultArray → e.arrays = true)
    (simple : b.descriptor.hasRelations = false) :
    Ends (b.readMany txn selection existingOnly) (store, e) (.ok (placed existingOnly objects))
      (store, e) := by
  have ends : Ends (b.readMany txn selection existingOnly) (store, e)
      (.ok ((placed existingOnly objects).map (Option.map fun object => object))) (store, e) :=
    readMany_ends known view read opened able fun _ _ => loads_of_simple simple
  simpa using ends

end Bulk

end Box

end ObjectStore
