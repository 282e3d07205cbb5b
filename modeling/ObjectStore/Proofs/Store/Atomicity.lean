import ObjectStore.Proofs.Store.Reachable
import ObjectStore.Proofs.Store.Staying

/-! # Calls that are transactions of their own

A call on a box that is given no transaction either makes one engine call at the end, before which
nothing but id sequences moves, or runs in a transaction that it begins and ends. So it leaves the
open transactions and the writer slot as they were, and if it fails, what is committed and the ids
of the objects it was given.

There is one exception. An object is given its new id once it is stored, and if the binding refuses
to do that, the call fails although what it stored is committed.
-/

namespace ObjectStore

open Catalog

/-! ## Engines afterwards -/

namespace Engine

variable {e e' : Engine} {failed failed' : Prop}

/-- Nothing but id sequences and the count of link writes has moved. -/
def Recounted (e e' : Engine) : Prop :=
  ∃ sequences writes, e' = e.recount sequences writes

theorem Recounted.refl : e.Recounted e :=
  ⟨e.sequences, e.relationWrites, rfl⟩

theorem Recounted.exclusive (h : e.Recounted e') (exclusive : e.Exclusive) : e'.Exclusive := by
  obtain ⟨sequences, writes, rfl⟩ := h
  exact exclusive.recount

/-- An engine after a transaction that is over: none is left open, and if it failed, nothing is
    committed. -/
structure AllOrNothing (e : Engine) (failed : Prop) (e' : Engine) : Prop where
  txns : e'.txns = e.txns
  writer : e'.writer = e.writer
  committed : failed → e'.committed = e.committed

namespace AllOrNothing

theorem refl : e.AllOrNothing failed e :=
  ⟨rfl, rfl, fun _ => rfl⟩

theorem of_recounted (h : e.Recounted e') : e.AllOrNothing failed e' := by
  obtain ⟨sequences, writes, rfl⟩ := h
  exact ⟨rfl, rfl, fun _ => rfl⟩

theorem after {e₁ : Engine} (first : e.Recounted e₁) (h : e₁.AllOrNothing failed e') :
    e.AllOrNothing failed e' := by
  obtain ⟨sequences, writes, rfl⟩ := first
  exact ⟨h.txns, h.writer, h.committed⟩

theorem mono (h : e.AllOrNothing failed e') (fails : failed' → failed) :
    e.AllOrNothing failed' e' :=
  ⟨h.txns, h.writer, fun failed => h.committed (fails failed)⟩

end AllOrNothing

/-- A call without a transaction that is served is a transaction of its own. -/
theorem allOrNothing_of_perform {thread : ThreadId} {served : Served}
    (data : served.call.onData = true) (alone : served.call.through = none)
    (done : e.perform thread served.call = .ok (served.answer, e')) :
    e.AllOrNothing False e' := by
  obtain ⟨quiet, part⟩ := Served.part_of_onData data
  rw [alone] at part
  cases moved_of_perform done with
  | defined defines => simp [quiet] at defines
  | read plays => exact .refl
  | numbered plays grows => exact .of_recounted ⟨_, _, rfl⟩
  | began plays | committed plays | aborted plays => simp [plays] at part
  | closed plays found => rcases plays with plays | plays <;> simp [plays] at part
  | wrote plays wrote turns covers grows =>
      simp only [plays, reduceCtorEq, Served.Part.writes.injEq, exists_eq_right', false_or] at part
      subst part
      cases wrote with
      | alone free => exact ⟨rfl, rfl, False.elim⟩

theorem recounted_of_idForPut {base : Engine} {txn : Option Handle} {entity : EntityId}
    {candidate id : ObjectId} {thread : ThreadId} (h : base.Recounted e)
    (done : e.perform thread (.idForPut txn entity candidate) = .ok (id, e')) :
    base.Recounted e' := by
  obtain ⟨sequences, writes, rfl⟩ := h
  obtain ⟨-, -, granted⟩ := idForPut_eq_ok.mp done
  split at granted
  · obtain ⟨-, -, rfl⟩ := granted
    exact ⟨_, _, rfl⟩
  · obtain ⟨-, rfl⟩ := granted
    exact ⟨_, _, rfl⟩

end Engine

/-! ## Programs -/

/-- On an engine with one writer at most the program is a transaction that ends. -/
def StoreM.Atomic {α : Type} (p : StoreM α) : Prop :=
  ∀ store e, e.Exclusive → Leads p (store, e) fun r v => e.AllOrNothing (Failed r) v.2

/-- On an engine with one writer at most the program is a transaction that ends, and leaves what `f`
    says of the objects. -/
def Editing.Atomic {σ γ α : Type} (f : σ → γ) (p : Editing σ α) : Prop :=
  ∀ objects store e, e.Exclusive →
    Leads p (objects, store, e) fun r w => f w.1 = f objects ∧ e.AllOrNothing (Failed r) w.2.2

/-- Nothing but id sequences has moved since the engine was `base`. -/
def Store.Counting (base : Engine) (v : Store × Engine) : Prop :=
  base.Recounted v.2

namespace StoreM.Atomic

variable {α β : Type} {p : StoreM α} {operation : String} {call : Call}

theorem of_counting (h : ∀ base, Maintains (Store.Counting base) p) : Atomic p :=
  fun _ e _ => (h e (_, e) .refl).mono fun _ _ counted => .of_recounted counted

theorem after {next : α → StoreM β} (first : ∀ base, Maintains (Store.Counting base) p)
    (last : ∀ a, Atomic (next a)) : Atomic (p >>= next) := by
  intro store e exclusive
  refine (first e (store, e) .refl).onward (fun a v counted => ?_) fun _ _ => .of_recounted
  exact (last a v.1 v.2 (counted.exclusive exclusive)).mono fun _ _ ended => ended.after counted

theorem request (data : call.onData = true) (alone : call.through = none) :
    Atomic (ofHost (HostM.request operation call)) := by
  refine fun store e _ => Leads.ofHost (HostM.request_leads ?_ fun _ _ => .refl)
  intro answer e' done
  have served := @Engine.allOrNothing_of_perform e e' callerThread ⟨call, answer⟩ data alone done
  exact served.mono not_failed_ok

end StoreM.Atomic

namespace Editing.Atomic

variable {σ γ α β : Type} {f : σ → γ} {p : Editing σ α}

theorem ofStore {program : StoreM α} (h : program.Atomic) :
    Atomic f (ofStore program : Editing σ α) :=
  fun _ store e exclusive =>
    Leads.ofStore ((h store e exclusive).mono fun _ _ ended => ⟨rfl, ended⟩)

theorem of_counting (h : ∀ base, Keeps f (Store.Counting base) p) : Atomic f p :=
  fun objects _ e _ => (h e objects (_, e) .refl).mono fun _ _ kept =>
    ⟨kept.1, .of_recounted kept.2⟩

theorem after {next : α → Editing σ β} (first : ∀ base, Keeps f (Store.Counting base) p)
    (last : ∀ a, Atomic f (next a)) : Atomic f (p >>= next) := by
  intro objects store e exclusive
  refine (first e objects (store, e) .refl).onward (fun a w kept => ?_) fun _ _ kept =>
    ⟨kept.1, .of_recounted kept.2⟩
  refine (last a w.1 w.2.1 w.2.2 (kept.2.exclusive exclusive)).mono fun _ _ ended => ?_
  exact ⟨ended.1.trans kept.1, ended.2.after kept.2⟩

theorem answering {g : α → β} (h : Atomic f p) : Atomic f (do return g (← p)) := by
  intro objects store e exclusive
  refine (h objects store e exclusive).onward (fun a w ended => Leads.pure ?_) fun why w ended => ?_
  · exact ⟨ended.1, ended.2.mono fun failed => absurd failed not_failed_ok⟩
  · exact ⟨ended.1, ended.2.mono fun _ => ⟨why, rfl⟩⟩

end Editing.Atomic

/-! ## Transactions that are begun and ended -/

namespace Store

variable {σ γ α : Type} {f : σ → γ} {mode : TxnMode}

theorem runIn_atomic {program : Txn → Editing σ α}
    (stays : ∀ base txn, Editing.Keeps f (Staying base txn.handle mode) (program txn)) :
    Editing.Atomic f (runIn mode program) := by
  intro objects store e exclusive
  cases opened : store.closed with
  | true =>
      have none : Ends (beginTxn mode) (store, e) (.error .closed) (store, e) :=
        Ends.bind_error (StoreM.ensureOpen_closed opened) ⟨rfl, rfl⟩
      exact Ends.bind_error (Ends.ofStore none) ⟨rfl, .refl⟩
  | false =>
      by_cases free : mode = .write → e.writer = none
      · refine own_leads opened exclusive free fun e₁ within _ => ?_
        have open₁ : Staying e₁ e.nextHandle mode (store, e₁) :=
          ⟨e.committed, Engine.InTxn.refl within.found⟩
        refine (stays e₁ ⟨e.nextHandle, mode⟩ objects (store, e₁) open₁).mono ?_
        rintro r w ⟨same, s, inside⟩
        refine ⟨s, within.inTxn inside, fun e' past _ => ⟨same, past.txns, past.writer, ?_⟩⟩
        rintro ⟨why, rfl⟩
        exact past.committed
      · obtain ⟨rfl, taken⟩ := Classical.not_imp.mp free
        exact runIn_unbegun opened taken fun why _ => ⟨rfl, .refl⟩

theorem reading_atomic {program : Txn → StoreM α}
    (stays : ∀ base txn, Maintains (Staying base txn.handle .read) (program txn)) :
    StoreM.Atomic (Box.reading none program) := by
  intro store e exclusive
  have own : Editing.Atomic (fun _ => ()) (runIn .read fun txn =>
      (program txn : Editing Unit α)) :=
    runIn_atomic fun base txn => .ofStore (stays base txn)
  exact runInTxn_leads ((own () store e exclusive).mono fun _ _ ended => ended.2)

end Store

/-! ## Calls on a box -/

namespace Box

variable {T : Type} {b : Box T}

/-- A call on a box that ended as a transaction of its own. If it failed and its transaction did
    not, one of the objects could not be given its new id. -/
structure Settled {α : Type} (b : Box T) (e : Engine) (before after : List T)
    (r : Except StoreError α) (e' : Engine) : Prop where
  txns : e'.txns = e.txns
  writer : e'.writer = e.writer
  failed {why : StoreError} : r = .error why →
    e'.committed = e.committed ∧ after.map b.binding.id = before.map b.binding.id ∨
      ∃ object ∈ after, ∃ id, b.binding.setId object id = .error why

theorem Settled.of_atomic {α : Type} {e e' : Engine} {before after : List T}
    {r : Except StoreError α} (same : after.map b.binding.id = before.map b.binding.id)
    (ended : e.AllOrNothing (Failed r) e') : b.Settled e before after r e' :=
  ⟨ended.txns, ended.writer, fun failed => .inl ⟨ended.committed ⟨_, failed⟩, same⟩⟩

/-! ### Storing -/

theorem write_atomic {current : ObjectId} {how : PutMode}
    (simple : b.descriptor.hasRelations = false) :
    Editing.Atomic b.binding.id (b.write none current how) := by
  have stored (id : ObjectId) : Editing.Atomic b.binding.id (b.storeUnder none id how) := by
    simp only [storeUnder, simple, Bool.false_eq_true, if_false]
    refine .after (fun _ => .current) fun object =>
      .after (fun _ => .ofStore .encode) fun record => ?_
    exact .answering (.ofStore (.request rfl rfl))
  by_cases update : how = .update
  · subst update
    rw [write_update_eq]
    exact stored current
  · rw [write_eq update]
    refine .after (fun base => .ofStore (.ofHost fun _ => ?_)) stored
    exact Store.allocateOne_maintains fun _ _ _ => Engine.recounted_of_idForPut

theorem assignId_settled {id : ObjectId} {object : T} {v : Store × Engine} :
    Leads (b.assignId id) (object, v) fun r w =>
      w.2 = v ∧ ∀ why, r = .error why → b.binding.setId w.1 id = .error why := by
  refine Ends.bind Editing.current_ends ?_
  cases given : b.binding.setId object id with
  | ok changed => exact Editing.replace_ends.leads ⟨rfl, fun _ failed => by cases failed⟩
  | error why =>
      refine Leads.throw ⟨rfl, ?_⟩
      rintro _ ⟨⟩
      exact given

/-- What is stored as a transaction of its own is stored for good before the object is given its
    id. -/
theorem assigning_settled {p : Editing T ObjectId} {current : ObjectId} {object : T} {store : Store}
    {e : Engine} (exclusive : e.Exclusive) (atomic : Editing.Atomic b.binding.id p) :
    Leads (do
      let id ← p
      if id ≠ current then b.assignId id
      return id : Editing T ObjectId) (object, store, e) fun r w =>
        b.Settled e [object] [w.1] r w.2.2 := by
  refine (atomic object store e exclusive).onward ?_ ?_
  · rintro id w ⟨same, ended⟩
    have kept : b.Settled e [object] [w.1] (Except.ok id) w.2.2 :=
      .of_atomic (congrArg ([·]) same) ended
    split
    · refine assignId_settled.onward ?_ ?_
      · rintro _ ⟨changed, v⟩ ⟨rfl, -⟩
        exact Leads.pure ⟨kept.txns, kept.writer, fun failed => by cases failed⟩
      · rintro why ⟨changed, v⟩ ⟨rfl, refused⟩
        refine ⟨kept.txns, kept.writer, ?_⟩
        rintro _ ⟨⟩
        exact .inr ⟨changed, List.mem_singleton_self _, id, refused why rfl⟩
    · exact Leads.pure kept
  · rintro why w ⟨same, ended⟩
    exact .of_atomic (congrArg ([·]) same) (ended.mono fun _ => ⟨why, rfl⟩)

theorem putObject_settled {object : T} {store : Store} {e : Engine} {how : PutMode}
    (confined : b.binding.Confined) (exclusive : e.Exclusive) :
    Leads (b.putObject none how) (object, store, e) fun r w =>
      b.Settled e [object] [w.1] r w.2.2 := by
  have nothing {why : StoreError} :
      b.Settled e [object] [object] (.error why : Except StoreError ObjectId) e :=
    .of_atomic rfl .refl
  cases opened : store.closed with
  | true => exact Ends.bind_error (Ends.ofStore (StoreM.ensureOpen_closed opened)) nothing
  | false =>
      refine Ends.bind (Ends.ofStore (StoreM.ensureOpen_ends opened)) ?_
      have asked : Ends b.currentId (object, store, e) (b.binding.id object) (object, store, e) :=
        Ends.bind Editing.current_ends (Ends.ofStore idOf_reads)
      cases carried : b.binding.id object with
      | error why => exact Ends.bind_error (carried ▸ asked) nothing
      | ok current =>
          refine Ends.bind (carried ▸ asked) ?_
          simp only [Option.isNone_none, true_and]
          split
          · exact Ends.bind_error (Ends.ofStore StoreM.misuse_ends) nothing
          · cases related : b.descriptor.hasRelations with
            | true =>
                exact assigning_settled exclusive
                  (Store.runIn_atomic fun base txn => write_stays confined)
            | false => exact assigning_settled exclusive (write_atomic related)

/-- Giving objects their ids stops at the first one that is refused its own. -/
theorem writeBack_settled {assigned : List Assigned} {objects : List T} {v : Store × Engine} :
    Leads (b.writeBack assigned) (objects, v) fun r w =>
      w.2 = v ∧ ∀ why, r = .error why → ∃ object ∈ w.1, ∃ id,
        b.binding.setId object id = .error why := by
  have given : Leads (Editing.forEach
      (fun a : Assigned => if a.fresh then b.assignId a.id else pure ()) assigned) (objects, v)
        fun r w => w.2 = v ∧ ∀ why, r = .error why → ∃ object ∈ w.1, ∃ id,
          b.binding.setId object id = .error why := by
    induction assigned generalizing objects with
    | nil => exact Editing.forEach_nil ⟨rfl, fun _ failed => by cases failed⟩
    | cons a assigned ih =>
        cases objects with
        | nil => exact Editing.forEach_empty ⟨rfl, fun _ failed => by cases failed⟩
        | cons object objects =>
            have first : Leads (if a.fresh then b.assignId a.id else pure ()) (object, v) fun r w =>
                w.2 = v ∧ ∀ why, r = .error why → b.binding.setId w.1 a.id = .error why := by
              split
              · exact assignId_settled
              · exact Leads.pure ⟨rfl, fun _ failed => by cases failed⟩
            refine Editing.forEach_cons (first.mono ?_)
            rintro (why | _) ⟨object', v'⟩ ⟨rfl, refused⟩
            · refine ⟨rfl, ?_⟩
              rintro _ ⟨⟩
              exact ⟨object', List.mem_cons_self, a.id, refused why rfl⟩
            · rw [Editing.Rest]
              refine ih.mono ?_
              rintro r w ⟨same, refused⟩
              refine ⟨same, fun why failed => ?_⟩
              cases r with
              | ok answers => cases failed
              | error why' =>
                  cases failed
                  obtain ⟨object, member, id, given⟩ := refused why rfl
                  exact ⟨object, List.mem_cons_of_mem _ member, id, given⟩
  exact given.onward (fun _ w done => Leads.pure ⟨done.1, fun _ failed => by cases failed⟩)
    fun why w done => ⟨done.1, fun why' failed => done.2 why' (by cases failed; rfl)⟩

theorem putMany_settled {objects : List T} {store : Store} {e : Engine}
    (confined : b.binding.Confined) (exclusive : e.Exclusive) :
    Leads (b.putMany none) (objects, store, e) fun r w => b.Settled e objects w.1 r w.2.2 := by
  cases opened : store.closed with
  | true =>
      exact Ends.bind_error (Ends.ofStore (StoreM.ensureOpen_closed opened)) (.of_atomic rfl .refl)
  | false =>
      refine Ends.bind (Ends.ofStore (StoreM.ensureOpen_ends opened)) ?_
      refine Ends.bind Editing.current_ends ?_
      split
      · exact Leads.pure (.of_atomic rfl .refl)
      · have atomic : Editing.Atomic (List.map b.binding.id) (Store.runIn .write b.writeMany) :=
          Store.runIn_atomic fun base txn => writeMany_stays confined
        refine (atomic objects store e exclusive).onward ?_ ?_
        · rintro assigned w ⟨-, ended⟩
          refine writeBack_settled.onward ?_ ?_
          · rintro _ ⟨changed, v⟩ ⟨rfl, -⟩
            exact Leads.pure ⟨ended.txns, ended.writer, fun failed => by cases failed⟩
          · rintro why ⟨changed, v⟩ ⟨rfl, refused⟩
            refine ⟨ended.txns, ended.writer, ?_⟩
            rintro _ ⟨⟩
            exact .inr (refused why rfl)
        · rintro why w ⟨same, ended⟩
          exact .of_atomic same (ended.mono fun _ => ⟨why, rfl⟩)

/-! ### Removing and reading -/

theorem request_atomic {operation : String} {call : Call} (data : call.onData = true)
    (alone : call.through = none) : StoreM.Atomic (do
      StoreM.ensureOpen
      HostM.request operation call : StoreM call.Answer) :=
  .after (fun _ => .ensureOpen) fun _ => .request data alone

theorem removeId_atomic {id : ObjectId} : StoreM.Atomic (b.removeId none id) := by
  refine .after (fun _ => .ensureOpen) fun _ => ?_
  intro store e exclusive
  cases ended : e.perform callerThread (.remove none b.entity id) with
  | ok done =>
      have served := @Engine.allOrNothing_of_perform e done.2 callerThread
        ⟨.remove none b.entity id, done.1⟩ rfl rfl ended
      refine Ends.bind (Ends.ofHost (HostM.perform_ends ended)) (Leads.pure ?_)
      exact served.mono not_failed_ok
  | error halt =>
      cases halt with
      | refused why =>
          refine Ends.bind (Ends.ofHost (HostM.perform_refused ended))
            (StoreM.Atomic.of_counting (fun base => ?_) _ _ exclusive)
          split
          · exact .pure
          · exact .throw
          · exact .bind (.ofHost fun _ => HostM.failure_maintains) fun _ => .throw
      | waits => exact Ends.bind_error (Ends.ofHost (HostM.perform_waits ended)) .refl

theorem remove_atomic {object : T} : StoreM.Atomic (b.remove object) :=
  .after (fun _ => .idOf) fun _ => removeId_atomic

theorem removeIds_atomic {ids : List ObjectId} : StoreM.Atomic (b.removeIds none ids) := by
  refine .after (fun _ => .ensureOpen) fun _ => ?_
  split
  · exact .of_counting fun _ => .pure
  · exact .request rfl rfl

theorem removeMany_atomic {objects : List T} : StoreM.Atomic (b.removeMany objects) :=
  .after (fun _ => .mapM fun _ => .idOf) fun _ => removeIds_atomic

theorem checkSource_maintains {P : Store × Engine → Prop} {relation : Relation} :
    Maintains P (b.checkSource relation) := by
  unfold checkSource
  split
  · exact .throw
  · exact .pure

theorem linking_atomic {relation : Relation} {operation : String} {call : Call}
    (data : call.onData = true) (alone : call.through = none) : StoreM.Atomic (do
      StoreM.ensureOpen
      b.checkSource relation
      HostM.request operation call : StoreM call.Answer) :=
  .after (fun _ => .ensureOpen) fun _ =>
    .after (fun _ => checkSource_maintains) fun _ => .request data alone

theorem relationReplace_atomic {P : Type} {targets : Binding P} {relation : Relation}
    {source : ObjectId} {object : T} (confined : targets.Confined) :
    Editing.Atomic (fun _ => ()) (b.relationReplace targets none relation source object) := by
  refine .after (fun _ => .ofStore .ensureOpen) fun _ => ?_
  refine .after (fun _ => .ofStore checkSource_maintains) fun _ => ?_
  refine .after (fun _ => .ofStore .idOf) fun stored => .after (fun _ => .current) fun objects => ?_
  cases objects with
  | some objects => exact Store.runIn_atomic fun base txn => Store.replaceLinks_stays confined
  | none =>
      dsimp only
      split
      · exact .of_counting fun _ => .ofStore .throw
      · exact .of_counting fun _ => .pure

end Box

/-- A call on a box that is given no transaction. -/
inductive BoxCall (T : Type) : Type 1 where
  | put (object : T)
  | insert (object : T)
  | update (object : T)
  | putMany (objects : List T)
  | remove (object : T)
  | removeId (id : ObjectId)
  | removeIds (ids : List ObjectId)
  | removeMany (objects : List T)
  | removeAll
  | relationPut (relation : Relation) (source target : ObjectId)
  | relationRemove (relation : Relation) (source target : ObjectId)
  | relationReplace {P : Type} (binding : Binding P) (relation : Relation) (source : ObjectId)
      (object : T) (targets : Option (List P))
  | relationIds (relation : Relation) (source : ObjectId)
  | get (id : ObjectId)
  | getMany (ids : List ObjectId)
  | getManyExisting (ids : List ObjectId)
  | getAll
  | count
  | countMax (limit : Nat)
  | isEmpty
  | contains (id : ObjectId)
  | containsIds (ids : List ObjectId)

namespace BoxCall

variable {T : Type}

/-- The objects a call is given to change. -/
@[reducible] def Objects : BoxCall T → Type
  | put _ | insert _ | update _ => T
  | putMany _ => List T
  | @relationReplace _ P .. => Option (List P)
  | _ => Unit

/-- The type of a call's answer. -/
@[reducible] def Answer : BoxCall T → Type
  | put _ | insert _ => ObjectId
  | putMany _ | relationIds .. => List ObjectId
  | removeIds _ | removeMany _ | removeAll | count | countMax _ => Nat
  | get _ => Option T
  | getMany _ => List (Option T)
  | getManyExisting _ | getAll => List T
  | isEmpty | contains _ | containsIds _ => Bool
  | update _ | remove _ | removeId _ | relationPut .. | relationRemove .. | relationReplace .. =>
    Unit

/-- The objects as they are before the call. -/
def objects : (call : BoxCall T) → call.Objects
  | put object | insert object | update object => object
  | putMany objects => objects
  | relationReplace _ _ _ _ targets => targets
  | remove _ | removeId _ | removeIds _ | removeMany _ | removeAll | relationPut .. |
    relationRemove .. | relationIds .. | get _ | getMany _ | getManyExisting _ | getAll | count |
    countMax _ | isEmpty | contains _ | containsIds _ => ()

/-- Of the objects a call is given those of the box's own type. -/
def outer : (call : BoxCall T) → call.Objects → List T
  | put _, object | insert _, object | update _, object => [object]
  | putMany _, objects => objects
  | _, _ => []

/-- What a call asks of the bindings it uses: that they stay in its transaction. -/
def Confined (b : Box T) : BoxCall T → Prop
  | relationReplace binding .. => b.binding.Confined ∧ binding.Confined
  | _ => b.binding.Confined

/-- Perform a call on a box. -/
def perform (b : Box T) : (call : BoxCall T) → Editing call.Objects call.Answer
  | put _ => b.put none
  | insert _ => b.insert none
  | update _ => b.update none
  | putMany _ => b.putMany none
  | remove object => b.remove object
  | removeId id => b.removeId none id
  | removeIds ids => b.removeIds none ids
  | removeMany objects => b.removeMany objects
  | removeAll => b.removeAll
  | relationPut relation source target => b.relationPut relation source target
  | relationRemove relation source target => b.relationRemove relation source target
  | relationReplace binding relation source object _ =>
    b.relationReplace binding none relation source object
  | relationIds relation source => b.relationIds none relation source
  | get id => b.get none id
  | getMany ids => b.getMany none ids
  | getManyExisting ids => b.getManyExisting none ids
  | getAll => b.getAll none
  | count => b.count none
  | countMax limit => b.countMax none limit
  | isEmpty => b.isEmpty
  | contains id => b.contains id
  | containsIds ids => b.containsIds ids

/-- Perform a call on a session: how it ends, the objects, and the session afterwards. -/
def step (b : Box T) (call : BoxCall T) (s : Session) :
    Except StoreError call.Answer × call.Objects × Session :=
  let ((r, objects), s') := (call.perform b).run call.objects s
  (r, objects, s')

theorem step_leads {b : Box T} {call : BoxCall T} {s s' : Session}
    {r : Except StoreError call.Answer} {objects : call.Objects}
    {Q : Except StoreError call.Answer → call.Objects × Store × Engine → Prop}
    (shows : Viewed.Shows s (s.store, s.host.machine.engine))
    (leads : Leads (call.perform b) (call.objects, s.store, s.host.machine.engine) Q)
    (done : call.step b s = (r, objects, s')) :
    ∃ store, s'.store = { store with pool := s'.store.pool } ∧
      Q r (objects, store, s'.host.machine.engine) := by
  have start : Viewed.Shows (call.objects, s) (call.objects, s.store, s.host.machine.engine) :=
    ⟨rfl, shows⟩
  obtain ⟨⟨objects', store, e⟩, ⟨same, ⟨-, engine⟩, kept⟩, ended⟩ := leads _ start
  rw [show Runs.run (call.perform b).run (call.objects, s) = (r, objects, s') from done]
    at same engine kept ended
  cases same
  cases engine
  exact ⟨store, kept, ended⟩

theorem settled {b : Box T} {store : Store} {e : Engine} (exclusive : e.Exclusive) :
    (call : BoxCall T) → call.Confined b →
      Leads (call.perform b) (call.objects, store, e) fun r w =>
        b.Settled e (call.outer call.objects) (call.outer w.1) r w.2.2 := by
  -- a call that is given no objects to change
  have plain {α : Type} {p : StoreM α} (atomic : p.Atomic) :
      Leads (Editing.ofStore p : Editing Unit α) ((), store, e) fun r w =>
        b.Settled e [] [] r w.2.2 :=
    Leads.ofStore ((atomic store e exclusive).mono fun _ _ ended => .of_atomic rfl ended)
  intro call confined
  cases call with
  | put object | insert object => exact Box.putObject_settled confined exclusive
  | update object =>
      refine (Box.putObject_settled confined exclusive).onward (fun _ w kept => Leads.pure ?_) ?_
      · exact ⟨kept.txns, kept.writer, fun failed => by cases failed⟩
      · exact fun why w kept =>
          ⟨kept.txns, kept.writer, fun failed => kept.failed (by cases failed; rfl)⟩
  | putMany objects => exact Box.putMany_settled confined exclusive
  | remove object => exact plain Box.remove_atomic
  | removeId id => exact plain Box.removeId_atomic
  | removeIds ids => exact plain Box.removeIds_atomic
  | removeMany objects => exact plain Box.removeMany_atomic
  | removeAll => exact plain (Box.request_atomic rfl rfl)
  | relationPut relation source target => exact plain (Box.linking_atomic rfl rfl)
  | relationRemove relation source target => exact plain (Box.linking_atomic rfl rfl)
  | relationReplace binding relation source object targets =>
      exact (Box.relationReplace_atomic confined.2 targets store e exclusive).mono fun _ _ ended =>
        .of_atomic rfl ended.2
  | relationIds relation source => exact plain (Box.linking_atomic rfl rfl)
  | get id => exact plain (Store.reading_atomic fun _ _ => Box.getIn_stays confined)
  | getMany ids => exact plain (Store.reading_atomic fun _ _ => Box.readMany_stays confined)
  | getManyExisting ids =>
      exact plain (Store.reading_atomic fun _ _ => Box.getManyExistingIn_stays confined)
  | getAll =>
      exact plain (Store.reading_atomic fun _ _ =>
        .bind (Box.readMany_stays confined) fun _ => .pure)
  | count => exact plain (Box.request_atomic rfl rfl)
  | countMax limit => exact plain (Box.request_atomic rfl rfl)
  | isEmpty => exact plain (Box.request_atomic rfl rfl)
  | contains id => exact plain (Box.request_atomic rfl rfl)
  | containsIds ids => exact plain (Box.request_atomic rfl rfl)

end BoxCall

theorem Store.openOn_maintains {model : Model} {config : Config} {arrays : Bool} :
    Maintains (Engine.Arises arrays) (openOn model config) := by
  have checked {α : Type} {x : Except Misuse α} :
      Maintains (Engine.Arises arrays) (openOn.check x) := by
    cases x with
    | ok a => exact .pure
    | error why => exact .throw
  have requested {operation : String} {call : Call} :
      Maintains (Engine.Arises arrays) (HostM.request operation call) :=
    HostM.request_maintains fun _ answer _ arises done =>
      @Engine.Arises.served _ _ _ _ ⟨call, answer⟩ arises done
  refine .bind checked fun _ => .bind (.forM fun _ => requested) fun _ =>
    .bind (.forM fun _ => requested) fun _ => .bind (fun e arises => ?_) fun _ =>
      .bind checked fun _ => .pure
  exact host_leads fun _ _ => arises

namespace Session

/-- A session, open or closed, over an engine that any threads have called in any way. -/
structure Running (s : Session) : Prop where
  faults : s.host.faults = []
  engine : ∃ arrays, s.host.machine.engine.Arises arrays

theorem running_of_openOn {arrays : Bool} {model : Model} {config : Config} {s : Session}
    (opened : (openOn { machine := .fresh arrays } model config).1 = .ok s) : s.Running := by
  obtain ⟨e, ⟨plain, rfl⟩, arises⟩ := @Store.openOn_maintains model config arrays { arrays } .fresh
    { machine := .fresh arrays } ⟨rfl, rfl⟩
  simp only [openOn] at opened
  generalize ran : (Store.openOn model config).run { machine := .fresh arrays } = ended at opened
  rw [show Runs.run (Store.openOn model config).run { machine := .fresh arrays } = ended
    from ran] at plain arises
  rcases ended with ⟨why | store, host⟩ <;> cases opened
  exact ⟨plain, arrays, arises⟩

/-- A call that is given no transaction leaves the open transactions and the writer slot as they
    were. If it fails, all records and links that are committed and the ids of its objects are as
    they were, unless it failed because an object that was stored could not be given its id. -/
theorem call_settled {T : Type} {b : Box T} {call : BoxCall T} {s s' : Session}
    {r : Except StoreError call.Answer} {objects : call.Objects} (running : s.Running)
    (confined : call.Confined b) (done : call.step b s = (r, objects, s')) :
    b.Settled s.host.machine.engine (call.outer call.objects) (call.outer objects) r
      s'.host.machine.engine := by
  obtain ⟨arrays, arises⟩ := running.engine
  have shows : Viewed.Shows (call.objects, s) (call.objects, s.store, s.host.machine.engine) :=
    ⟨rfl, ⟨running.faults, rfl⟩, rfl⟩
  obtain ⟨w, ⟨same, shown, -⟩, settled⟩ :=
    BoxCall.settled arises.exclusive call confined (call.objects, s) shows
  rw [show Runs.run (call.perform b).run (call.objects, s) = (r, objects, s') from done]
    at same shown settled
  rw [show objects = w.1 from same, show s'.host.machine.engine = w.2.2 from shown.2]
  exact settled

/-- The box of the labels in a store of all example objects. -/
def labelBox : Box Label :=
  ⟨⟨13, "Label", false, labelBinding.name⟩, labelBinding⟩

/-- A chunk that was stored is taken back when a later one cannot be. -/
theorem putMany_second_chunk_settled : ∃ s why objects s',
    (openOn { machine := .fresh true } fullModel { chunkSize := 1 }).1 = .ok s ∧
    (BoxCall.putMany [{ text := "a" }, { text := unencodable }]).step labelBox s =
      (.error why, objects, s') ∧
    s'.host.machine.engine.committed = s.host.machine.engine.committed ∧
    s'.host.machine.engine.writer = s.host.machine.engine.writer := by
  have eval : (openOn { machine := .fresh true } fullModel { chunkSize := 1 }).1.toOption.map
      (fun s =>
        let (r, objects, _) :=
          (BoxCall.putMany [{ text := "a" }, { text := unencodable }]).step labelBox s
        (r.toOption, objects)) =
      some (none, [{ text := "a" }, { text := unencodable }]) := by
    decide +kernel
  obtain ⟨s, opened, looked⟩ := exists_of_eval eval
  obtain ⟨failed, objects⟩ := by simpa only [Prod.mk.injEq] using looked
  obtain ⟨why, failed⟩ := error_of_toOption failed
  have done := Prod.ext (y := (_, _, _)) failed rfl
  have settled := @call_settled _ labelBox (.putMany [{ text := "a" }, { text := unencodable }]) s
    _ _ _ (running_of_openOn opened) labelBinding_confined done
  refine ⟨s, why, _, _, opened, done, ?_, settled.writer⟩
  rcases settled.failed rfl with ⟨same, -⟩ | ⟨object, member, id, refused⟩
  · exact same
  · -- both labels can be given an id
    have given : ∀ object ∈ [({ text := "a" } : Label), { text := unencodable }],
        object.text ≠ badSet := by
      decide
    have accepted : labelBinding.setId object id = .ok { object with id } :=
      if_neg (given object (objects ▸ member))
    cases accepted.symm.trans refused

/-- Two labels are committed by a call that fails, as the second cannot be given its id; the first
    carries its own by then. -/
theorem putMany_unassigned_committed : ∃ s why objects s',
    (openOn { machine := .fresh true } fullModel {}).1 = .ok s ∧
    (BoxCall.putMany [{ text := "a" }, { text := badSet }]).step labelBox s =
      (.error why, objects, s') ∧
    objects.map Label.id = [1, 0] ∧ s.host.machine.engine.committed.size labelBox.entity = 0 ∧
      s'.host.machine.engine.committed.size labelBox.entity = 2 := by
  have eval : (openOn { machine := .fresh true } fullModel {}).1.toOption.map
      (fun s =>
        let (r, objects, s') :=
          (BoxCall.putMany [{ text := "a" }, { text := badSet }]).step labelBox s
        (r.toOption, objects.map Label.id, s.host.machine.engine.committed.size labelBox.entity,
          s'.host.machine.engine.committed.size labelBox.entity)) =
      some (none, [1, 0], 0, 2) := by
    decide +kernel
  obtain ⟨s, opened, looked⟩ := exists_of_eval eval
  obtain ⟨failed, ids, before, after⟩ := by simpa only [Prod.mk.injEq] using looked
  obtain ⟨why, failed⟩ := error_of_toOption failed
  exact ⟨s, why, _, _, opened, Prod.ext failed rfl, ids, before, after⟩

end Session

end ObjectStore
