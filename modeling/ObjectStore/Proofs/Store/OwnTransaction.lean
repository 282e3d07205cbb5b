import ObjectStore.Proofs.Engine.OwnTransaction
import ObjectStore.Proofs.Store.Transaction
import ObjectStore.Store.Read

/-! # Programs in their own transaction, by what they leave

A program run in its own transaction needs to be followed only as long as the transaction is open.
What it leaves is then what it was at, if it was to write and succeeded, and else what was there
before.
-/

namespace ObjectStore.Store

variable {store : Store} {e e' : Engine} {σ α : Type} {objects : σ} {mode : TxnMode}
  {s : Snapshot}

/-- What is committed once a program is over that left its transaction at `s`. -/
def left (base : Engine) (mode : TxnMode) (s : Snapshot) : Except StoreError α → Snapshot
  | .ok _ => if mode = .write then s else base.committed
  | .error _ => base.committed

/-- The transaction a program began on `base` is still open, and however the engine is once it is
    over, `Q` holds. -/
def Inside (base : Engine) (mode : TxnMode)
    (Q : Except StoreError α → σ × Store × Engine → Prop) (r : Except StoreError α)
    (v : σ × Store × Engine) : Prop :=
  ∃ s, base.Within callerThread mode s v.2.2 ∧
    ∀ e', base.Past (left base mode s r) e' → (∀ entity, e'.lastId entity = v.2.2.lastId entity) →
      Q r (v.1, v.2.1, e')

theorem own_leads {program : Txn → Editing σ α}
    {Q : Except StoreError α → σ × Store × Engine → Prop} (opened : store.closed = false)
    (exclusive : e.Exclusive) (free : mode = .write → e.writer = none)
    (body : ∀ e₁, e.Within callerThread mode e.committed e₁ →
      (∀ entity, e₁.lastId entity = e.lastId entity) →
        Leads (program ⟨e.nextHandle, mode⟩) (objects, store, e₁) (Inside e mode Q)) :
    Leads (runIn mode program) (objects, store, e) Q := by
  obtain ⟨e₁, begun, within, same⟩ := Engine.begin_within callerThread free
  refine runIn_leads opened begun ((body e₁ within same).mono ?_)
  rintro (why | a) ⟨objects, store, e₂⟩ ⟨s, within, after⟩
  · obtain ⟨e', ended, past, same⟩ := within.abort exclusive free
    exact ⟨e', ended, after e' past same⟩
  · obtain ⟨e', ended, past, same⟩ := within.commit exclusive free
    exact ⟨e', ended, after e' past same⟩

/-- A program that only reads leads where it does in its transaction, and changes nothing. -/
theorem reading_onward {program : Txn → StoreM α} {Q : Except StoreError α → Prop}
    (opened : store.closed = false) (exclusive : e.Exclusive)
    (body : ∀ e₁, e.Within callerThread .read e.committed e₁ →
      Leads (program ⟨e.nextHandle, .read⟩) (store, e₁) fun r v => Q r ∧ v = (store, e₁)) :
    Leads (Box.reading none program) (store, e) fun r v =>
      Q r ∧ v.1 = store ∧ e.Past e.committed v.2 ∧
        ∀ entity, v.2.lastId entity = e.lastId entity := by
  refine runInTxn_leads (own_leads opened exclusive (by simp) ?_)
  intro e₁ within same
  refine (Leads.ofStore (Q := fun r v => Q r ∧ v.2 = (store, e₁)) (body e₁ within)).mono ?_
  rintro r ⟨objects, v⟩ ⟨holds, rfl⟩
  refine ⟨e.committed, within, ?_⟩
  intro e' past same'
  refine ⟨holds, rfl, ?_, fun entity => (same' entity).trans (same entity)⟩
  cases r <;> exact past

theorem reading_leads {program : Txn → StoreM α} {r : Except StoreError α}
    (opened : store.closed = false) (exclusive : e.Exclusive)
    (body : ∀ e₁, e.Within callerThread .read e.committed e₁ →
      Ends (program ⟨e.nextHandle, .read⟩) (store, e₁) r (store, e₁)) :
    Leads (Box.reading none program) (store, e) fun r' v =>
      r' = r ∧ v.1 = store ∧ e.Past e.committed v.2 ∧
        ∀ entity, v.2.lastId entity = e.lastId entity :=
  reading_onward opened exclusive body

end ObjectStore.Store
