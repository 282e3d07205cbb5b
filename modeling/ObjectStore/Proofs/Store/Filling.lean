import Mathlib.Data.List.Forall2
import ObjectStore.Proofs.Store.Chunks

/-! # Ids that are filled in

Whatever happens while objects are stored, the objects themselves are only ever changed in one way:
a related object that carries no id may be given one. So an id that was filled in stays, however the
program goes on, and objects whose related ones all carry ids are as they were.

`Halts p` says that a program ends from every view, and `Fills p` that it only fills in ids on the
way. Both are put together along the binds of a program and ask nothing of the engine.
-/

namespace ObjectStore

/-! ## Ids of objects -/

/-- The ids that objects carry: their own ones, and those of the objects that go with them. -/
class Carries (σ : Type) where
  own : σ → List ObjectId
  related : σ → List ObjectId

export Carries (own related)

instance {σ : Type} [Carries σ] : Carries (List σ) where
  own objects := objects.flatMap own
  related objects := objects.flatMap related

instance {σ : Type} [Carries σ] : Carries (Option σ) where
  own objects := objects.elim [] own
  related objects := objects.elim [] related

/-- The ids are the same but for some that were 0. -/
def IdsFilled (before after : List ObjectId) : Prop :=
  List.Forall₂ (fun id id' => id ≠ 0 → id' = id) before after

namespace IdsFilled

variable {before after later : List ObjectId}

theorem refl : IdsFilled before before :=
  List.forall₂_same.mpr fun _ _ _ => rfl

theorem trans (first : IdsFilled before after) (second : IdsFilled after later) :
    IdsFilled before later := by
  induction first generalizing later with
  | nil => exact second
  | cons head _ ih =>
      cases second with
      | cons head' tail' =>
          refine .cons (fun nonzero => ?_) (ih tail')
          rw [head' (head nonzero ▸ nonzero), head nonzero]

/-- An id that was filled in stays. -/
theorem kept_of_kept (first : IdsFilled before after) (second : IdsFilled after later)
    (same : later = before) : after = before := by
  induction first generalizing later with
  | nil => rfl
  | @cons id id' _ _ head _ ih =>
      cases second with
      | cons head' tail' =>
          obtain ⟨rfl, rest⟩ := List.cons.inj same
          refine congrArg₂ List.cons ?_ (ih tail' rest)
          by_cases zero : id' = 0
          · exact Decidable.byContradiction fun other =>
              other (head fun empty => other (zero.trans empty.symm))
          · exact (head' zero).symm

theorem kept_of_saved (h : IdsFilled before after) (saved : 0 ∉ before) : after = before := by
  induction h with
  | nil => rfl
  | cons head _ ih =>
      rw [List.mem_cons, not_or] at saved
      rw [head (Ne.symm saved.1), ih saved.2]

theorem append {before' after' : List ObjectId} (first : IdsFilled before after)
    (second : IdsFilled before' after') : IdsFilled (before ++ before') (after ++ after') :=
  List.rel_append first second

end IdsFilled

/-- Objects are the same but for ids of related objects that were filled in. -/
structure Filled {σ : Type} [Carries σ] (before after : σ) : Prop where
  own : own after = own before
  related : IdsFilled (related before) (related after)

namespace Filled

variable {σ : Type} [Carries σ] {before after later : σ}

theorem refl : Filled before before :=
  ⟨rfl, .refl⟩

theorem trans (first : Filled before after) (second : Filled after later) : Filled before later :=
  ⟨second.own.trans first.own, first.related.trans second.related⟩

theorem cons {rest rest' : List σ} (first : Filled before after) (others : Filled rest rest') :
    Filled (before :: rest) (after :: rest') :=
  ⟨congrArg₂ (· ++ ·) first.own others.own, first.related.append others.related⟩

theorem own_flatten {chunks : List (List σ)} :
    ObjectStore.own chunks.flatten = ObjectStore.own chunks := by
  induction chunks with
  | nil => rfl
  | cons chunk chunks ih =>
      exact (List.flatMap_append ..).trans (congrArg (ObjectStore.own chunk ++ ·) ih)

theorem related_flatten {chunks : List (List σ)} :
    ObjectStore.related chunks.flatten = ObjectStore.related chunks := by
  induction chunks with
  | nil => rfl
  | cons chunk chunks ih =>
      exact (List.flatMap_append ..).trans (congrArg (ObjectStore.related chunk ++ ·) ih)

theorem flatten {chunks chunks' : List (List σ)} (h : Filled chunks chunks') :
    Filled chunks.flatten chunks'.flatten := by
  refine ⟨?_, ?_⟩
  · rw [own_flatten, own_flatten, h.own]
  · rw [related_flatten, related_flatten]
    exact h.related

/-- An id that was filled in on the way is still there. -/
theorem kept_of_kept (first : Filled before after) (second : Filled after later)
    (same : ObjectStore.related later = ObjectStore.related before) :
    ObjectStore.related after = ObjectStore.related before :=
  first.related.kept_of_kept second.related same

end Filled

/-! ## Programs that end -/

section Halts

variable {m : Type → Type} [Monad m] {W V : Type} [Runs m W] [Viewed W V] {α β : Type}

/-- From every view the program ends. -/
def Halts (p : ExceptT StoreError m α) : Prop :=
  ∀ v, Leads p v fun _ _ => True

theorem Halts.pure {a : α} : Halts (Pure.pure a : ExceptT StoreError m α) :=
  fun _ => Leads.pure trivial

theorem Halts.throw {why : StoreError} :
    Halts (MonadExcept.throw why : ExceptT StoreError m α) :=
  fun _ => Leads.throw trivial

theorem Halts.bind {p : ExceptT StoreError m α} {f : α → ExceptT StoreError m β} (first : Halts p)
    (next : ∀ a, Halts (f a)) : Halts (p >>= f) :=
  fun v => (first v).onward (fun a v' _ => next a v') fun _ _ _ => trivial

theorem Halts.of_ends {p : ExceptT StoreError m α} {r : V → Except StoreError α} {f : V → V}
    (ends : ∀ v, Ends p v (r v) (f v)) : Halts p :=
  fun v => (ends v).leads trivial

end Halts

section Programs

variable {α σ : Type}

theorem Halts.ofHost {program : HostM α} (h : Halts program) : Halts (StoreM.ofHost program) :=
  fun _ => Leads.ofHost (h _)

theorem Halts.ofStore {program : StoreM α} (h : Halts program) :
    Halts (Editing.ofStore program : Editing σ α) :=
  fun _ => Leads.ofStore (h _)

theorem mapM_halts {β : Type} {f : α → StoreM β} {as : List α} (each : ∀ a, Halts (f a)) :
    Halts (as.mapM f) := by
  induction as with
  | nil => exact .pure
  | cons a as ih =>
      rw [List.mapM_cons]
      exact (each a).bind fun _ => ih.bind fun _ => .pure

theorem HostM.perform_halts {call : Call} : Halts (HostM.perform call) := by
  intro e
  cases ended : e.perform callerThread call with
  | ok done => exact (perform_ends ended).leads trivial
  | error halt =>
      cases halt with
      | refused why => exact (perform_refused ended).leads trivial
      | waits => exact (perform_waits ended).leads trivial

theorem HostM.request_halts {operation : String} {call : Call} :
    Halts (HostM.request operation call) :=
  fun _ => request_leads (fun _ _ _ => trivial) fun _ _ => trivial

theorem StoreM.store_halts : Halts StoreM.store :=
  fun _ => store_leads fun _ => trivial

theorem StoreM.ensureOpen_halts : Halts ensureOpen := by
  refine store_halts.bind fun store => ?_
  split
  · exact .throw
  · exact .pure

/-- A box that is found is one for the binding. -/
theorem StoreM.boxFor_leads {binding : Binding α} {v : Store × Engine} :
    Leads (Store.boxFor binding) v fun r _ => ∀ b, r = .ok b → ∃ d, b = ⟨d, binding⟩ := by
  refine (ensureOpen_halts v).onward (fun _ v' _ => ?_) fun why _ _ b wrong => by cases wrong
  refine (store_halts v').onward (fun store v'' _ => ?_) fun why _ _ b wrong => by cases wrong
  split
  · exact Leads.pure fun b same => ⟨_, (Except.ok.inj same).symm⟩
  · exact Leads.throw fun b wrong => by cases wrong

theorem Editing.current_halts : Halts (current : Editing σ σ) :=
  .of_ends fun _ => current_ends

end Programs

namespace Store

variable {txn : Option Handle} {entity : EntityId}

theorem askId_halts {candidate : ObjectId} : Halts (askId txn entity candidate) := by
  refine HostM.perform_halts.bind fun reply => ?_
  split <;> exact .pure

theorem allocateOne_halts {candidate : ObjectId} : Halts (allocateOne txn entity candidate) := by
  have slot {change : ErrorSlot → ErrorSlot} : Halts (onCallerSlot change) :=
    .of_ends fun _ => onCallerSlot_ends
  have host : Halts (get : HostM Host) := by
    rintro e h shows
    exact ⟨e, shows, trivial⟩
  refine askId_halts.bind fun id => ?_
  split
  · exact .pure
  · refine slot.bind fun _ => askId_halts.bind fun id => ?_
    split
    · exact slot.bind fun _ => .pure
    · refine host.bind fun host => slot.bind fun _ => ?_
      split <;> exact .throw

theorem allocateBlock_halts {count : Nat} : Halts (allocateBlock txn entity count) := by
  unfold allocateBlock
  split
  · exact .pure
  · exact HostM.request_halts

end Store

namespace Box

variable {T : Type} {b : Box T} (total : b.binding.Total) {txn : Option Txn} {id current : ObjectId}
  {mode : PutMode}
include total

theorem idOf_halts {object : T} : Halts (b.idOf object) :=
  .of_ends fun _ => idOf_ends total

theorem currentId_halts : Halts b.currentId :=
  Editing.current_halts.bind fun _ => (idOf_halts total).ofStore

theorem encode_halts {object : T} : Halts (b.encode id object) :=
  .of_ends fun _ => encode_ends total

theorem assignId_halts : Halts (b.assignId id) :=
  .of_ends fun _ => assignId_ends total

variable (related : ∀ txn id, Halts (b.binding.putRelated txn id))
include related

theorem storeUnder_halts : Halts (b.storeUnder txn id mode) := by
  have encoded : Halts (do
      let record ← b.encode id (← Editing.current)
      HostM.request "put" (.put (txn.map Txn.handle) b.entity id record mode)
      return id : Editing T ObjectId) :=
    Halts.bind Editing.current_halts fun object =>
      Halts.bind (encode_halts total).ofStore fun record =>
        Halts.bind HostM.request_halts.ofHost.ofStore fun _ => .pure
  unfold storeUnder
  split
  · split
    · exact Halts.bind (related _ _) fun _ => encoded
    · exact encoded
  · exact encoded

theorem write_halts : Halts (b.write txn current mode) := by
  by_cases update : mode = .update
  · subst update
    rw [write_update_eq]
    exact storeUnder_halts total related
  · rw [write_eq update]
    exact Halts.bind Store.allocateOne_halts.ofHost.ofStore fun id => storeUnder_halts total related

/-- A put in a transaction that is given ends. -/
theorem putObject_halts {txn : Txn} : Halts (b.putObject (some txn) mode) := by
  refine Halts.bind StoreM.ensureOpen_halts.ofStore fun _ => ?_
  refine Halts.bind (currentId_halts total) fun current => ?_
  have stored : Halts (do
      let id ← b.write (some txn) current mode
      if id ≠ current then b.assignId id
      return id) := by
    refine Halts.bind (write_halts total related) fun id => ?_
    split
    · exact Halts.bind (assignId_halts total) fun _ => .pure
    · exact .pure
  simp only [Option.isNone_some, Bool.false_eq_true, false_and, if_false]
  split
  · exact Halts.bind Halts.throw.ofStore fun _ => stored
  · exact stored

end Box

namespace Editing

/-! ## Programs that change no objects -/

section Still

variable {σ α β : Type} {p : Editing σ α} {f : α → Editing σ β}

/-- Wherever the program leads, the objects are what they were. -/
def Still (p : Editing σ α) : Prop :=
  ∀ objects v, Leads p (objects, v) fun _ w => w.1 = objects

theorem Still.ofStore {program : StoreM α} (h : Halts program) :
    Still (ofStore program : Editing σ α) :=
  fun _ v => Leads.ofStore ((h v).mono fun _ _ _ => rfl)

theorem Still.pure {a : α} : Still (Pure.pure a : Editing σ α) :=
  fun _ _ => Leads.pure rfl

theorem Still.bind (first : Still p) (next : ∀ a, Still (f a)) : Still (p >>= f) := by
  intro objects v
  refine (first objects v).onward (fun a w same => ?_) fun _ _ same => same
  exact (next a w.1 w.2).mono fun _ _ later => later.trans same

theorem Still.forM {as : List α} {f : α → Editing σ Unit} (each : ∀ a, Still (f a)) :
    Still (as.forM f) := by
  induction as with
  | nil => exact .pure
  | cons a as ih => exact (each a).bind fun _ => ih

end Still

/-! ## Programs that fill in ids -/

variable {σ α β : Type} [Carries σ]

/-- Wherever the program leads, it filled in ids at most. -/
def Fills (p : Editing σ α) : Prop :=
  ∀ objects v, Leads p (objects, v) fun _ w => Filled objects w.1

theorem Fills.bind {p : Editing σ α} {f : α → Editing σ β} (first : Fills p)
    (next : ∀ a, Fills (f a)) : Fills (p >>= f) := by
  intro objects v
  refine (first objects v).onward (fun a w filled => ?_) fun _ _ filled => filled
  exact (next a w.1 w.2).mono fun _ _ later => filled.trans later

theorem Still.fills {p : Editing σ α} (h : Still p) : Fills p :=
  fun objects v => (h objects v).mono fun _ _ same => same ▸ .refl

theorem Fills.ofStore {program : StoreM α} (h : Halts program) :
    Fills (ofStore program : Editing σ α) :=
  (Still.ofStore h).fills

theorem Fills.pure {a : α} : Fills (Pure.pure a : Editing σ α) :=
  fun _ _ => Leads.pure Filled.refl

theorem current_fills : Fills (current : Editing σ σ) :=
  fun _ _ => current_ends.leads Filled.refl

theorem Fills.forEach {step : α → Editing σ β} {as : List α} (each : ∀ a, Fills (step a)) :
    Fills (forEach step as) := by
  intro objects
  induction as generalizing objects with
  | nil => exact fun v => forEach_nil Filled.refl
  | cons a as ih =>
      intro v
      cases objects with
      | nil => exact forEach_empty Filled.refl
      | cons object objects =>
          refine forEach_cons ((each a object v).mono ?_)
          rintro (why | b) ⟨object', v⟩ filled
          · exact filled.cons .refl
          · simp only [Rest]
            exact (ih objects v).mono fun r w others => filled.cons others

end Editing

namespace Box

variable {T : Type} [Carries T] {b : Box T} (total : b.binding.Total)
  (related : ∀ txn id, Editing.Fills (b.binding.putRelated txn id)) {txn : Txn}
  {id current : ObjectId} {mode : PutMode}
include total related

theorem encodeUnder_fills : Editing.Fills (b.encodeUnder txn id) := by
  have encoded : Editing.Fills (do b.encode id (← Editing.current) : Editing T Bytes) :=
    .bind Editing.current_fills fun _ => .ofStore (encode_halts total)
  unfold encodeUnder
  split
  · exact .bind (related _ _) fun _ => encoded
  · exact encoded

theorem storeUnder_fills : Editing.Fills (b.storeUnder (some txn) id mode) := by
  rw [storeUnder_eq]
  exact .bind (encodeUnder_fills total related) fun _ =>
    .bind (.ofStore HostM.request_halts.ofHost) fun _ => .pure

theorem write_fills : Editing.Fills (b.write (some txn) current mode) := by
  by_cases update : mode = .update
  · subst update
    rw [write_update_eq]
    exact storeUnder_fills total related
  · rw [write_eq update]
    exact .bind (.ofStore Store.allocateOne_halts.ofHost) fun id => storeUnder_fills total related

theorem writeOne_fills : Editing.Fills (b.writeOne txn) :=
  .bind (.bind Editing.current_fills fun _ => .ofStore (idOf_halts total)) fun _ =>
    .bind (write_fills total related) fun _ => .pure

theorem writeChunk_fills : Editing.Fills (b.writeChunk txn) := by
  refine .bind Editing.current_fills fun objects => ?_
  refine .bind (.ofStore (mapM_halts fun _ => idOf_halts total)) fun currents => ?_
  refine .bind (.ofStore Store.allocateBlock_halts.ofHost) fun first => ?_
  refine .bind (.forEach fun id => encodeUnder_fills total related) fun records => ?_
  exact .bind (.ofStore HostM.request_halts.ofHost) fun _ => .pure

end Box

end ObjectStore
