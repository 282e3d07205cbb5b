import ObjectStore.Proofs.Engine.OpenTransaction
import ObjectStore.Proofs.Store.Filling
import ObjectStore.Catalog.Bindings

/-! # Programs that stay in a transaction

What a store does with an object in a transaction is done through that transaction: whatever the
program ends in, nothing else of the engine has changed, and the object carries the id of its own
that it had. Of the object's binding it is asked only that storing and loading related objects stay
in the transaction too (`Binding.Confined`).

`Maintains P p` says that a program keeps a property of the view, `Editing.Keeps f P p` that it also
keeps what `f` says of the objects. Both are put together along the binds of a program.
-/

namespace ObjectStore

/-! ## What is kept along a program -/

section Maintains

variable {m : Type → Type} [Monad m] {W V : Type} [Runs m W] [Viewed W V] {α β : Type}
  {P : V → Prop}

/-- From views with a property the program leads to views that have it. -/
def Maintains (P : V → Prop) (p : ExceptT StoreError m α) : Prop :=
  ∀ v, P v → Leads p v fun _ v' => P v'

namespace Maintains

theorem pure {a : α} : Maintains P (Pure.pure a : ExceptT StoreError m α) :=
  fun _ holds => Leads.pure holds

theorem throw {why : StoreError} :
    Maintains P (MonadExcept.throw why : ExceptT StoreError m α) :=
  fun _ holds => Leads.throw holds

theorem bind {p : ExceptT StoreError m α} {f : α → ExceptT StoreError m β} (first : Maintains P p)
    (next : ∀ a, Maintains P (f a)) : Maintains P (p >>= f) :=
  fun v holds => (first v holds).onward (fun a v' kept => next a v' kept) fun _ _ kept => kept

/-- A program that leaves the view alone keeps all of it. -/
theorem of_ends {p : ExceptT StoreError m α} {r : V → Except StoreError α}
    (ends : ∀ v, Ends p v (r v) v) : Maintains P p :=
  fun v holds => (ends v).leads holds

theorem mapM {m : Type → Type} [Monad m] [LawfulMonad m] {W V : Type} [Runs m W] [Viewed W V]
    {P : V → Prop} {f : α → ExceptT StoreError m β} {as : List α}
    (each : ∀ a, Maintains P (f a)) : Maintains P (as.mapM f) := by
  induction as with
  | nil => exact .pure
  | cons a as ih =>
      rw [List.mapM_cons]
      exact (each a).bind fun _ => ih.bind fun _ => .pure

theorem forM {step : α → ExceptT StoreError m Unit} {as : List α}
    (each : ∀ a, Maintains P (step a)) : Maintains P (as.forM step) := by
  induction as with
  | nil => exact .pure
  | cons a as ih => exact (each a).bind fun _ => ih

end Maintains

end Maintains

section Lifts

variable {α σ : Type} {P : Store × Engine → Prop}

theorem Maintains.ofHost {program : HostM α}
    (h : ∀ store, Maintains (fun e => P (store, e)) program) :
    Maintains P (StoreM.ofHost program) :=
  fun v holds => Leads.ofHost (h v.1 v.2 holds)

end Lifts

namespace Editing

variable {σ τ γ α β : Type} {f : σ → γ} {P : Store × Engine → Prop}

/-- From views with a property the program leads to views that have it, and to objects of which `f`
    says what it said before. -/
def Keeps (f : σ → γ) (P : Store × Engine → Prop) (p : Editing σ α) : Prop :=
  ∀ objects v, P v → Leads p (objects, v) fun _ w => f w.1 = f objects ∧ P w.2

namespace Keeps

theorem pure {a : α} : Keeps f P (Pure.pure a : Editing σ α) :=
  fun _ _ holds => Leads.pure ⟨rfl, holds⟩

theorem bind {p : Editing σ α} {next : α → Editing σ β} (first : Keeps f P p)
    (rest : ∀ a, Keeps f P (next a)) : Keeps f P (p >>= next) := by
  refine fun objects v holds => (first objects v holds).onward (fun a w kept => ?_)
    fun _ _ kept => kept
  exact (rest a w.1 w.2 kept.2).mono fun _ _ later => ⟨later.1.trans kept.1, later.2⟩

theorem ofStore {program : StoreM α} (h : Maintains P program) :
    Keeps f P (ofStore program : Editing σ α) :=
  fun _ v holds => Leads.ofStore ((h v holds).mono fun _ _ kept => ⟨rfl, kept⟩)

theorem current : Keeps f P (current : Editing σ σ) :=
  fun _ _ holds => current_ends.leads ⟨rfl, holds⟩

/-- A program on a part of the objects keeps what does not depend on that part. -/
theorem focus {δ : Type} {g : τ → δ} {part : σ → τ} {fill : σ → τ → σ} {program : Editing τ α}
    (apart : ∀ objects changed, f (fill objects changed) = f objects) (h : Keeps g P program) :
    Keeps f P (focus part fill program) :=
  fun _ v holds => focus_leads ((h _ v holds).mono fun _ _ kept => ⟨apart .., kept.2⟩)

theorem forEach {step : α → Editing σ β} {as : List α} (each : ∀ a, Keeps f P (step a)) :
    Keeps (List.map f) P (forEach step as) := by
  intro objects
  induction as generalizing objects with
  | nil => exact fun v holds => forEach_nil ⟨rfl, holds⟩
  | cons a as ih =>
      intro v holds
      cases objects with
      | nil => exact forEach_empty ⟨rfl, holds⟩
      | cons object objects =>
          refine forEach_cons ((each a object v holds).mono ?_)
          rintro (why | b) ⟨object', v⟩ ⟨same, kept⟩
          · exact ⟨congrArg (· :: objects.map f) same, kept⟩
          · simp only [Rest]
            exact (ih objects v kept).mono fun r w later =>
              ⟨congrArg₂ List.cons same later.1, later.2⟩

theorem forChunks {size : Nat} {chunk : Editing (List σ) β} (each : Keeps (List.map f) P chunk) :
    Keeps (List.map f) P (forChunks size chunk) := by
  intro objects v holds
  refine forChunks_leads rfl ((forEach (fun _ => each) _ v holds).mono ?_)
  rintro r w ⟨same, kept⟩
  refine ⟨?_, kept⟩
  rw [List.map_flatten, same, ← List.map_flatten, flatten_chunked (Nat.le_refl _)]

theorem forM {as : List α} {step : α → Editing σ Unit} (each : ∀ a, Keeps f P (step a)) :
    Keeps f P (as.forM step) := by
  induction as with
  | nil => exact .pure
  | cons a as ih => exact (each a).bind fun _ => ih

end Keeps

end Editing

/-! ## Parts that leave the view alone -/

section Still

variable {P : Store × Engine → Prop} {T : Type} {b : Box T} {id : ObjectId} {object : T}
  {v : Store × Engine}

/-- What a binding is registered for, or the error of asking for its box. -/
def Store.registered (store : Store) (binding : String) : Except StoreError EntityDescriptor :=
  if store.closed then .error .closed
  else match store.model.bound? binding with
    | some descriptor => .ok descriptor
    | none => .error (.notRegistered binding)

theorem StoreM.boxFor_finds {store : Store} {e : Engine} {binding : Binding T} :
    Ends (Store.boxFor binding) (store, e) ((store.registered binding.name).map (⟨·, binding⟩))
      (store, e) := by
  unfold Store.registered
  cases opened : store.closed with
  | true => exact Ends.bind_error (StoreM.ensureOpen_closed opened) ⟨rfl, rfl⟩
  | false =>
      refine Ends.bind (StoreM.ensureOpen_ends opened)
        (Leads.bind (StoreM.store_leads fun pool => ?_))
      simp only [Onward]
      cases store.model.bound? binding.name with
      | some descriptor => exact Ends.pure
      | none => exact Ends.throw

namespace Maintains

theorem store : Maintains P StoreM.store :=
  fun _ holds => StoreM.store_leads fun _ => holds

theorem ensureOpen : Maintains P StoreM.ensureOpen := by
  refine store.bind fun store => ?_
  split
  · exact .throw
  · exact .pure

theorem idOf : Maintains P (b.idOf object) :=
  .of_ends fun _ => Box.idOf_reads

theorem encode : Maintains P (b.encode id object) :=
  .of_ends fun _ => Box.encode_makes

theorem decoded {existingOnly : Bool} {records : List (Option Bytes)} :
    Maintains P (b.decoded existingOnly records) := by
  unfold Box.decoded
  split
  · exact .pure
  · exact .throw

/-- What is done with a box that is found keeps a property, if it does for every box of the
    binding. -/
theorem boxFor {binding : Binding T} {α : Type} {program : Box T → StoreM α}
    (each : ∀ descriptor, Maintains P (program ⟨descriptor, binding⟩)) :
    Maintains P (Store.boxFor binding >>= program) := by
  rintro ⟨store, e⟩ holds
  have finds := @StoreM.boxFor_finds _ store e binding
  cases found : store.registered binding.name <;> rw [found] at finds
  case error why => exact Ends.bind_error finds holds
  case ok descriptor => exact Ends.bind finds (each descriptor _ holds)

end Maintains

theorem Editing.Keeps.boxFor {σ γ α : Type} {f : σ → γ} {binding : Binding T}
    {program : Box T → Editing σ α}
    (each : ∀ descriptor, Editing.Keeps f P (program ⟨descriptor, binding⟩)) :
    Editing.Keeps f P (Editing.ofStore (Store.boxFor binding) >>= program) := by
  rintro objects ⟨store, e⟩ holds
  have finds := @StoreM.boxFor_finds _ store e binding
  cases found : store.registered binding.name <;> rw [found] at finds
  case error why => exact Ends.bind_error (Ends.ofStore finds) ⟨rfl, holds⟩
  case ok descriptor => exact Ends.bind (Ends.ofStore finds) (each descriptor _ _ holds)

end Still

/-! ## Calls on the engine -/

namespace HostM

variable {P : Engine → Prop} {call : Call} {operation : String}

theorem perform_maintains (served : ∀ e answer e', P e →
    e.perform callerThread call = .ok (answer, e') → P e') : Maintains P (perform call) := by
  intro e holds
  cases ended : e.perform callerThread call with
  | ok done => exact (perform_ends ended).leads (served e done.1 done.2 holds ended)
  | error halt =>
      cases halt with
      | refused why => exact (perform_refused ended).leads holds
      | waits => exact (perform_waits ended).leads holds

theorem failure_maintains {status : Status} : Maintains P (failure operation status) :=
  fun _ holds => failure_leads fun _ => holds

theorem request_maintains (served : ∀ e answer e', P e →
    e.perform callerThread call = .ok (answer, e') → P e') :
    Maintains P (request operation call) :=
  fun e holds => request_leads (fun answer e' done => served e answer e' holds done)
    fun _ _ => holds

end HostM

namespace Store

variable {P : Engine → Prop} {txn : Option Handle} {entity : EntityId}

theorem allocateOne_maintains {candidate : ObjectId} (served : ∀ e answer e', P e →
    e.perform callerThread (.idForPut txn entity candidate) = .ok (answer, e') → P e') :
    Maintains P (allocateOne txn entity candidate) := by
  have asked : Maintains P (askId txn entity candidate) := by
    refine (HostM.perform_maintains served).bind fun reply => ?_
    split <;> exact .pure
  have slot {change : ErrorSlot → ErrorSlot} : Maintains P (onCallerSlot change) :=
    .of_ends fun _ => onCallerSlot_ends
  have host : Maintains P (get : HostM Host) := by
    rintro e holds h shows
    exact ⟨e, shows, holds⟩
  refine asked.bind fun id => ?_
  split
  · exact .pure
  · refine slot.bind fun _ => asked.bind fun id => ?_
    split
    · exact slot.bind fun _ => .pure
    · refine host.bind fun host => slot.bind fun _ => ?_
      split <;> exact .throw

theorem allocateBlock_maintains {count : Nat} (served : ∀ e answer e', P e →
    e.perform callerThread (.idsForPut txn entity count) = .ok (answer, e') → P e') :
    Maintains P (allocateBlock txn entity count) := by
  unfold allocateBlock
  split
  · exact .pure
  · exact HostM.request_maintains served

end Store

/-! ## Reading -/

/-- Whether a call only reads. -/
def Call.looks : Call → Bool
  | get .. | getMany .. | getAll .. | visitMany .. | visitAll .. | count .. | isEmpty ..
  | contains .. | containsMany .. | relGetIds .. => true
  | _ => false

theorem Engine.eq_of_looks {e e' : Engine} {thread : ThreadId} {call : Call} {answer : call.Answer}
    (looks : call.looks = true) (done : e.perform thread call = .ok (answer, e')) : e' = e := by
  cases call with
  | get | getMany | getAll | visitMany | visitAll | count | isEmpty | contains | containsMany
  | relGetIds => exact (reading_eq_ok.mp done).2
  | _ => simp [Call.looks] at looks

namespace Maintains

variable {P : Store × Engine → Prop} {call : Call} {operation : String} {status : Status}

/-- A call that only reads keeps whatever there is to keep. -/
theorem look (looks : call.looks = true) :
    Maintains P (StoreM.ofHost (HostM.request operation call)) :=
  .ofHost fun _ => HostM.request_maintains fun _ _ _ holds done =>
    Engine.eq_of_looks looks done ▸ holds

theorem peek (looks : call.looks = true) : Maintains P (StoreM.ofHost (HostM.perform call)) :=
  .ofHost fun _ => HostM.perform_maintains fun _ _ _ holds done =>
    Engine.eq_of_looks looks done ▸ holds

theorem failure : Maintains P (StoreM.ofHost (HostM.failure operation status)) :=
  .ofHost fun _ => HostM.failure_maintains

end Maintains

namespace Box

variable {P : Store × Engine → Prop} {T : Type} {b : Box T} {txn : Txn} {id : ObjectId}
  (loads : ∀ object, Maintains P (b.binding.loadRelated txn object))
include loads

theorem loadRelated_maintains {object : T} : Maintains P (b.loadRelated txn object) := by
  unfold loadRelated
  split
  · exact loads object
  · exact .pure

theorem getIn_maintains : Maintains P (b.getIn txn id) := by
  refine .bind .ensureOpen fun _ => .bind (.peek rfl) fun reply => ?_
  split
  · refine .bind ?_ fun object => .bind (loadRelated_maintains loads) fun _ => .pure
    unfold decode
    split
    · exact .pure
    · exact .throw
  · exact .pure
  · exact .bind .failure fun _ => .throw

theorem readMany_maintains {selection : Selection} {existingOnly : Bool} :
    Maintains P (b.readMany txn selection existingOnly) := by
  have visited {operation : String} {reply : Reply (List (Option Bytes))} :
      Maintains P (readVisit.finish b existingOnly operation reply) := by
    unfold readVisit.finish
    split
    · exact .decoded
    · exact .bind .decoded fun _ => .bind .failure fun _ => .throw
  have array : Maintains P (b.readArray txn selection existingOnly) := by
    unfold readArray
    split <;> exact .bind (.look rfl) fun _ => .decoded
  have visit : Maintains P (b.readVisit txn selection existingOnly) := by
    unfold readVisit
    split <;> exact .bind (.peek rfl) fun _ => visited
  refine .bind .ensureOpen fun _ => ?_
  split
  · exact .pure
  · refine .bind .store fun store => ?_
    cases store.strategy <;>
      [refine .bind array fun objects => ?_; refine .bind visit fun objects => ?_]
    all_goals
      split
      · refine .mapM fun object => ?_
        split
        · exact .bind (loadRelated_maintains loads) fun _ => .pure
        · exact .pure
      · exact .pure

theorem getManyExistingIn_maintains {ids : List ObjectId} :
    Maintains P (b.getManyExistingIn txn ids) :=
  .bind (readMany_maintains loads) fun _ => .pure

end Box

/-- Related objects are read, and nothing else, if those that go with them are. -/
theorem Store.relatedObjects_maintains {T : Type} {P : Store × Engine → Prop} {binding : Binding T}
    {txn : Txn} {relation : Relation} {source : ObjectId}
    (loads : ∀ object, Maintains P (binding.loadRelated txn object)) :
    Maintains P (relatedObjects binding txn relation source) := by
  have reading : Maintains P (do
      let ids ← HostM.request "rel_get_ids" (.relGetIds (some txn.handle) relation.id source)
      (← boxFor binding).getManyExistingIn txn ids : StoreM (List T)) := by
    refine .bind (.look rfl) fun ids => .boxFor fun descriptor => ?_
    exact Box.getManyExistingIn_maintains loads
  unfold relatedObjects
  split
  · exact .bind .throw fun _ => reading
  · exact reading

/-! ## Through a transaction -/

/-- All of the engine but an open transaction is as it is in `base`. -/
def Store.Staying (base : Engine) (handle : Handle) (mode : TxnMode) (v : Store × Engine) : Prop :=
  ∃ s, base.InTxn handle mode s v.2

/-- What a binding does for related objects, it does in the transaction it is given, and it leaves
    the id of the object itself. -/
structure Binding.Confined {T : Type} (binding : Binding T) : Prop where
  putRelated {base : Engine} {mode : TxnMode} (txn : Txn) (id : ObjectId) :
    Editing.Keeps binding.id (Store.Staying base txn.handle mode) (binding.putRelated txn id)
  loadRelated {base : Engine} {mode : TxnMode} (txn : Txn) (object : T) :
    Maintains (Store.Staying base txn.handle mode) (binding.loadRelated txn object)

variable {base : Engine} {mode : TxnMode} {txn : Txn} {operation : String}

theorem Engine.InTxn.allows {call : Call} {e e' : Engine} {answer : call.Answer} {handle : Handle}
    (through : call.through = some handle) (inside : ∃ s, base.InTxn handle mode s e)
    (done : e.perform callerThread call = .ok (answer, e')) :
    ∃ s, base.InTxn handle mode s e' := by
  obtain ⟨s, inside⟩ := inside
  exact @Engine.InTxn.perform _ _ _ _ _ _ _ ⟨call, answer⟩ inside through done

namespace StoreM

theorem request_stays {call : Call} (through : call.through = some txn.handle) :
    Maintains (Store.Staying base txn.handle mode) (ofHost (HostM.request operation call)) :=
  .ofHost fun _ => HostM.request_maintains fun _ _ _ => Engine.InTxn.allows through

end StoreM

namespace Box

variable {T : Type} {b : Box T} {id current : ObjectId} {how : PutMode}

/-! ### Storing -/

theorem currentId_keeps {P : Store × Engine → Prop} : Editing.Keeps b.binding.id P b.currentId :=
  .bind .current fun _ => .ofStore .idOf

variable (confined : b.binding.Confined)
include confined

theorem encodeUnder_stays :
    Editing.Keeps b.binding.id (Store.Staying base txn.handle mode) (b.encodeUnder txn id) := by
  have encoded : Editing.Keeps b.binding.id (Store.Staying base txn.handle mode)
      (do b.encode id (← Editing.current) : Editing T Bytes) :=
    .bind .current fun _ => .ofStore .encode
  unfold encodeUnder
  split
  · exact .bind (confined.putRelated txn id) fun _ => encoded
  · exact encoded

theorem write_stays : Editing.Keeps b.binding.id (Store.Staying base txn.handle mode)
    (b.write (some txn) current how) := by
  have stored (id : ObjectId) : Editing.Keeps b.binding.id (Store.Staying base txn.handle mode)
      (b.storeUnder (some txn) id how) := by
    rw [storeUnder_eq]
    exact .bind (encodeUnder_stays confined) fun _ =>
      .bind (.ofStore (StoreM.request_stays rfl)) fun _ => .pure
  by_cases update : how = .update
  · subst update
    rw [write_update_eq]
    exact stored current
  · rw [write_eq update]
    refine .bind (.ofStore (.ofHost fun _ => ?_)) stored
    exact Store.allocateOne_maintains fun _ _ _ => Engine.InTxn.allows rfl

/-- An object may be given an id at the end, so nothing is said of it. -/
theorem putObject_stays : Editing.Keeps (fun _ => ()) (Store.Staying base txn.handle mode)
    (b.putObject (some txn) how) := by
  have forget {α : Type} {p : Editing T α}
      (h : Editing.Keeps b.binding.id (Store.Staying base txn.handle mode) p) :
      Editing.Keeps (fun _ => ()) (Store.Staying base txn.handle mode) p :=
    fun object v holds => (h object v holds).mono fun _ _ kept => ⟨rfl, kept.2⟩
  have assigned (id : ObjectId) :
      Editing.Keeps (fun _ => ()) (Store.Staying base txn.handle mode) (b.assignId id) := by
    intro object v holds
    refine Ends.bind Editing.current_ends ?_
    split
    · exact Editing.replace_ends.leads ⟨rfl, holds⟩
    · exact Leads.throw ⟨rfl, holds⟩
  have stored (current : ObjectId) :
      Editing.Keeps (fun _ => ()) (Store.Staying base txn.handle mode) (do
        let id ← b.write (some txn) current how
        if id ≠ current then b.assignId id
        return id) := by
    refine .bind (forget (write_stays confined)) fun id => ?_
    split
    · exact .bind (assigned id) fun _ => .pure
    · exact .pure
  refine .bind (.ofStore .ensureOpen) fun _ => .bind (forget currentId_keeps) fun current => ?_
  simp only [Option.isNone_some, Bool.false_eq_true, false_and, if_false]
  split
  · exact .bind (.ofStore .throw) fun _ => stored current
  · exact stored current

theorem writeOne_stays : Editing.Keeps b.binding.id (Store.Staying base txn.handle mode)
    (b.writeOne txn) :=
  .bind currentId_keeps fun _ => .bind (write_stays confined) fun _ => .pure

theorem writeChunk_stays : Editing.Keeps (List.map b.binding.id)
    (Store.Staying base txn.handle mode) (b.writeChunk txn) := by
  refine .bind .current fun objects => .bind (.ofStore (.mapM fun _ => .idOf)) fun currents => ?_
  refine .bind (.ofStore (.ofHost fun _ => ?_)) fun first => ?_
  · exact Store.allocateBlock_maintains fun _ _ _ => Engine.InTxn.allows rfl
  · refine .bind (.forEach fun id => encodeUnder_stays confined) fun records => ?_
    exact .bind (.ofStore (StoreM.request_stays rfl)) fun _ => .pure

theorem writeMany_stays : Editing.Keeps (List.map b.binding.id)
    (Store.Staying base txn.handle mode) (b.writeMany txn) := by
  refine .bind (.ofStore .store) fun store => ?_
  split
  · exact .bind (.forChunks (writeChunk_stays confined)) fun _ => .pure
  · exact .bind .current fun _ => .forEach fun _ => writeOne_stays confined

/-! ### Reading -/

theorem getIn_stays :
    Maintains (Store.Staying base txn.handle mode) (b.getIn txn id) :=
  getIn_maintains (confined.loadRelated txn)

theorem readMany_stays {selection : Selection} {existingOnly : Bool} :
    Maintains (Store.Staying base txn.handle mode) (b.readMany txn selection existingOnly) :=
  readMany_maintains (confined.loadRelated txn)

theorem getManyExistingIn_stays {ids : List ObjectId} :
    Maintains (Store.Staying base txn.handle mode) (b.getManyExistingIn txn ids) :=
  getManyExistingIn_maintains (confined.loadRelated txn)

end Box

/-! ### Links -/

namespace Store

variable {P : Type} {binding : Binding P} (confined : binding.Confined) {relation : Relation}
  {source stored : ObjectId}
include confined

theorem linkTarget_stays {b : Box P} (bound : b.binding = binding) {linked : IdSet} :
    Editing.Keeps (fun _ => ()) (Staying base txn.handle mode)
      (linkTarget b txn relation source linked) := by
  subst bound
  refine .bind (.bind .current fun _ => .ofStore .idOf) fun current => ?_
  have linked (target : ObjectId) : Editing.Keeps (fun _ => ()) (Staying base txn.handle mode) (do
      if linked.contains target then return linked.erase target
      HostM.request "rel_put" (.relPut (some txn.handle) relation.id source target)
      return linked : Editing P IdSet) := by
    split
    · exact .pure
    · exact .bind (.ofStore (StoreM.request_stays rfl)) fun _ => .pure
  split
  · exact .bind (Box.putObject_stays confined) linked
  · exact .bind .pure linked

theorem linkTargets_stays {b : Box P} (bound : b.binding = binding) {linked : IdSet} :
    Editing.Keeps (fun _ => ()) (Staying base txn.handle mode)
      (linkTargets b txn relation source linked) := by
  intro objects
  induction objects generalizing linked with
  | nil => exact fun v holds => linkTargets_nil ⟨rfl, holds⟩
  | cons object objects ih =>
      intro v holds
      refine linkTargets_cons ((linkTarget_stays confined bound object v holds).mono ?_)
      rintro (why | linked) ⟨object', v⟩ ⟨-, kept⟩
      · exact ⟨rfl, kept⟩
      · rw [Further]
        exact (ih v kept).mono fun r w later => ⟨rfl, later.2⟩

theorem replaceLinks_stays : Editing.Keeps (fun _ => ()) (Staying base txn.handle mode)
    (replaceLinks binding txn relation source stored) := by
  have linking (linked : List ObjectId) :
      Editing.Keeps (fun _ => ()) (Staying base txn.handle mode) (do
        let b ← boxFor binding
        let unwanted ← Editing.focus (fun targets => targets.getD [])
          (fun _ targets => some targets) (linkTargets b txn relation source (.ofList linked))
        unwanted.toList.forM fun target =>
          HostM.request "rel_remove" (.relRemove (some txn.handle) relation.id source target) :
        Editing (Option (List P)) Unit) := by
    refine .boxFor fun descriptor => .bind ?_ fun unwanted => ?_
    · exact .focus (fun _ _ => rfl) (linkTargets_stays confined rfl)
    · exact .forM fun target => .ofStore (StoreM.request_stays rfl)
  refine .bind .current fun targets => ?_
  split
  · split
    · exact .ofStore .throw
    · exact .pure
  · split
    · exact .bind .pure linking
    · exact .bind (.ofStore (StoreM.request_stays rfl)) linking

theorem relatedObjects_stays :
    Maintains (Staying base txn.handle mode) (relatedObjects binding txn relation source) :=
  relatedObjects_maintains (confined.loadRelated txn)

end Store

/-! ## The example bindings -/

namespace Catalog

theorem eventBinding_confined : eventBinding.Confined := ⟨fun _ _ => .pure, fun _ _ => .pure⟩

theorem tagBinding_confined : tagBinding.Confined := ⟨fun _ _ => .pure, fun _ _ => .pure⟩

theorem labelBinding_confined : labelBinding.Confined := ⟨fun _ _ => .pure, fun _ _ => .pure⟩

theorem markerBinding_confined : markerBinding.Confined := ⟨fun _ _ => .pure, fun _ _ => .pure⟩

theorem noteBinding_confined : noteBinding.Confined where
  putRelated txn id := by
    refine .bind .current fun note => ?_
    split
    · exact .focus (fun _ _ => rfl) (Store.replaceLinks_stays tagBinding_confined)
    · exact .pure
  loadRelated txn note :=
    .bind (Store.relatedObjects_stays tagBinding_confined) fun _ => .pure

theorem folderBinding_confined : folderBinding.Confined where
  putRelated txn id := by
    refine .bind .current fun folder => .bind ?_ fun _ => .boxFor fun descriptor => ?_
    · exact .focus (fun _ _ => rfl) (Store.replaceLinks_stays noteBinding_confined)
    · refine .bind (.focus (g := fun _ => ()) (fun _ _ => rfl) ?_) fun _ => .pure
      exact Box.putObject_stays (b := ⟨descriptor, eventBinding⟩) eventBinding_confined
  loadRelated txn folder :=
    .bind (Store.relatedObjects_stays noteBinding_confined) fun _ => .pure

end Catalog

end ObjectStore
