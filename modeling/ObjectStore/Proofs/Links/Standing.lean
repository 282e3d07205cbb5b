import ObjectStore.Proofs.Links.Success

/-! # In the transaction that is given, or in one of its own

A program that changes the store runs in the transaction it is given, or it begins one of its own
and commits it. Where it succeeds, it makes no difference: what it saw is what was to be seen in the
transaction it was given, or without one, and so is what it left (`Store.given_or_own`).
-/

namespace ObjectStore

namespace Engine

variable {e e' : Engine} {txn : Option Handle} {mode : TxnMode} {view : Snapshot} {d : Draft}

/-- How a program finds the engine: with a transaction open at a view, or with none open to write
where it begins one of its own. -/
inductive Stands (e : Engine) : Option Handle → TxnMode → Snapshot → Prop where
  | inTxn {handle : Handle} {mode : TxnMode} {view : Snapshot} :
      e.txns[handle]? = some ⟨mode, view⟩ → e.Stands (some handle) mode view
  | alone : e.writer = none → e.Stands none .write e.committed

/-- The engine once the program came to a draft: the transaction is still open at it, or over. -/
def redrafted (e : Engine) (mode : TxnMode) (d : Draft) : Option Handle → Engine
  | some handle => e.held handle (some mode) d
  | none => e.published d

namespace Stands

variable (h : e.Stands txn mode view)
include h

theorem seen : e.view txn = .ok view := by
  cases h with
  | inTxn found => exact view_eq_ok.mpr ⟨_, found⟩
  | alone => rfl

theorem redrafted : (e.redrafted mode d txn).Stands txn mode d.view := by
  cases h with
  | inTxn => exact .inTxn txns_held
  | alone free => exact .alone (e := e.published d) free

theorem view_other {other : Option Handle} (apart : other ≠ txn) :
    (e.redrafted mode d txn).view other = e.view other := by
  cases h with
  | @inTxn handle =>
      cases other with
      | none => rfl
      | some other =>
          have same : (e.held handle (some mode) d).txns[other]? = e.txns[other]? := by
            have apart : handle ≠ other := fun same => apart (congrArg some same.symm)
            simp only [held]
            grind
          simp only [Engine.view, openTxn, Engine.redrafted, same]
  | alone =>
      cases other with
      | none => exact absurd rfl apart
      | some other => rfl

theorem exclusive (exclusive : e.Exclusive) : (e.redrafted mode d txn).Exclusive := by
  cases h with
  | @inTxn handle mode view found =>
      have writes {other : Handle} {s : Snapshot}
          (open' : (e.held handle (some mode) d).txns[other]? = some ⟨.write, s⟩) :
          ∃ s, e.txns[other]? = some ⟨.write, s⟩ := by
        simp only [held] at open'
        grind
      refine ⟨fun {other t} open' => ?_, fun open' => ?_, fun open' open'' => ?_⟩
      · have known : ∃ t, e.txns[other]? = some t := by
          simp only [Engine.redrafted, held] at open'
          grind
        obtain ⟨t, known⟩ := known
        exact exclusive.below known
      · obtain ⟨s, before⟩ := writes open'
        exact exclusive.taken before
      · obtain ⟨s, before⟩ := writes open'
        obtain ⟨s', before'⟩ := writes open''
        exact exclusive.single before before'
  | alone free =>
      exact ⟨fun open' => Nat.lt_succ_of_lt (exclusive.below open'), exclusive.taken,
        exclusive.single⟩

omit h in
theorem schema_redrafted : e.SameSchema (e.redrafted mode d txn) := by
  cases txn <;> exact ⟨rfl, rfl, rfl⟩

omit h in
theorem lastId_redrafted {entity : EntityId} :
    (e.redrafted mode d txn).lastId entity = d.lastId entity := by
  cases txn <;> rfl

omit h in
theorem relationWrites_redrafted :
    (e.redrafted mode d txn).relationWrites = d.relationWrites := by
  cases txn <;> rfl

end Stands

end Engine

/-! ## Transactions of a program's own -/

namespace Store

variable {σ α : Type} {store : Store} {e : Engine} {objects : σ}

/-- A program whose transaction cannot be kept fails; of one that fails nothing is said. -/
theorem runIn_succeeds {program : Txn → Editing σ α} {handle : Handle} {e₁ : Engine}
    {Q : α → σ × Store × Engine → Prop} (opened : store.closed = false)
    (begun : e.begin callerThread .write = .ok (handle, e₁))
    (body : Leads (program ⟨handle, .write⟩) (objects, store, e₁) fun r w => ∀ a, r = .ok a →
      ∃ e', w.2.2.commit handle = .ok e' ∧ Q a (w.1, w.2.1, e')) :
    Leads (runIn .write program) (objects, store, e) fun r w => ∀ a, r = .ok a → Q a w := by
  apply Ends.bind (Ends.ofStore (beginTxn_ends opened begun))
  refine Leads.bind (Editing.outcome_leads (body.mono ?_))
  rintro (why | a) ⟨objects, store, e⟩ holds
  · have dropped : Halts (Txn.mk handle .write).drop :=
      Halts.bind HostM.perform_halts fun _ => Halts.pure
    rw [Onward]
    refine (dropped.ofHost.ofStore _).onward (fun _ _ _ => Leads.throw ?_) fun _ _ _ => ?_ <;>
    rintro _ ⟨⟩
  · obtain ⟨e', ended, left⟩ := holds a rfl
    rw [Onward]
    apply Ends.bind (Ends.ofStore (Ends.ofHost (Txn.commit_ends ended)))
    refine Leads.pure ?_
    rintro _ ⟨⟩
    exact left

theorem runIn_ensures {program : Txn → Editing σ α} {Q : α → σ × Draft → Prop}
    (exclusive : e.Exclusive)
    (body : store.closed = false → e.writer = none →
      Editing.Ensures ⟨store, e.begun, ⟨e.nextHandle, .write⟩⟩ (some .write)
        (program ⟨e.nextHandle, .write⟩) (objects, e.draft e.committed) Q) :
    Leads (runIn .write program) (objects, store, e) fun r w => ∀ a, r = .ok a →
      e.writer = none ∧ ∃ objects' d, w = (objects', store, e.published d) ∧ Q a (objects', d) := by
  cases opened : store.closed with
  | true =>
      have none : Ends (beginTxn .write) (store, e) (.error .closed) (store, e) :=
        Ends.bind_error (StoreM.ensureOpen_closed opened) ⟨rfl, rfl⟩
      refine Ends.bind_error (Ends.ofStore none) ?_
      rintro _ ⟨⟩
  | false =>
      by_cases free : e.writer = none
      · refine runIn_succeeds opened (Engine.begin_drafted free) ?_
        refine Leads.mono (body opened free) fun r w holds a succeeded => ?_
        obtain ⟨⟨objects', d⟩, rfl, left⟩ := holds a succeeded
        exact ⟨_, Engine.commit_drafted exclusive free, free, objects', d, rfl, left⟩
      · refine runIn_unbegun opened free ?_
        rintro why - _ ⟨⟩

theorem given_or_own {program : Txn → Editing σ α} {txn : Option Txn}
    {Q : TxnMode → Draft → α → σ × Draft → Prop} (exclusive : e.Exclusive)
    (ensures : ∀ base txn how d, e.SameSchema base →
      Editing.Ensures ⟨store, base, txn⟩ how (program txn) (objects, d) fun a w =>
        ∃ mode, how = some mode ∧ Q mode d a w) :
    Leads (match txn with
      | some txn => program txn
      | none => runIn .write program) (objects, store, e) fun r w => ∀ a, r = .ok a →
        ∃ mode view objects' d, e.Stands (txn.map Txn.handle) mode view ∧
          w = (objects', store, e.redrafted mode d (txn.map Txn.handle)) ∧
          Q mode (e.draft view) a (objects', d) := by
  cases txn with
  | some txn =>
      obtain ⟨how, view, held, found⟩ := e.exists_held txn.handle
      have given := ensures e txn how (e.draft view) ⟨rfl, rfl, rfl⟩
      simp only [Editing.Ensures, held] at given
      refine Leads.mono given fun r w ended a succeeded => ?_
      obtain ⟨⟨objects', d⟩, rfl, mode, rfl, left⟩ := ended a succeeded
      exact ⟨mode, view, objects', d, .inTxn (found mode rfl), rfl, left⟩
  | none =>
      have own := runIn_ensures exclusive fun _ _ =>
        ensures e.begun ⟨e.nextHandle, .write⟩ (some .write) (e.draft e.committed) ⟨rfl, rfl, rfl⟩
      refine Leads.mono own fun r w ended a succeeded => ?_
      obtain ⟨free, objects', d, rfl, mode, ⟨⟩, left⟩ := ended a succeeded
      exact ⟨.write, e.committed, objects', d, .alone free, rfl, left⟩

end Store

end ObjectStore
