import ObjectStore.Proofs.Engine.Runs

/-! # A transaction from its beginning to its end

While a thread is in a transaction that it began on an engine `base`, the engine is `base` with
that transaction open at some snapshot (`Engine.Within`), whatever the sequences and the count of
link writes. When the transaction is over, the engine is `base` again with what is committed now
(`Engine.Past`).
-/

namespace ObjectStore.Engine

variable {base e e' e₁ : Engine} {thread : ThreadId} {mode : TxnMode} {s s' : Snapshot}

/-- The engine is `base` with a thread's transaction open at `s`. -/
structure Within (base : Engine) (thread : ThreadId) (mode : TxnMode) (s : Snapshot) (e : Engine) :
    Prop where
  schema : base.SameSchema e
  committed : e.committed = base.committed
  txns : e.txns = base.txns.insert base.nextHandle ⟨mode, s⟩
  nextHandle : e.nextHandle = base.nextHandle + 1
  writer : e.writer = if mode = .write then some thread else base.writer

/-- The engine is `base` after a transaction that left `s` committed. -/
structure Past (base : Engine) (s : Snapshot) (e : Engine) : Prop where
  schema : base.SameSchema e
  committed : e.committed = s
  txns : e.txns = base.txns
  nextHandle : e.nextHandle = base.nextHandle + 1
  writer : e.writer = base.writer

theorem begin_within (thread : ThreadId) (free : mode = .write → base.writer = none) :
    ∃ e, base.begin thread mode = .ok (base.nextHandle, e) ∧
      base.Within thread mode base.committed e ∧ ∀ entity, e.lastId entity = base.lastId entity :=
  ⟨_, begin_eq_ok.mpr ⟨free, rfl, rfl⟩, ⟨⟨rfl, rfl, rfl⟩, rfl, rfl, rfl, rfl⟩, fun _ => rfl⟩

namespace Within

theorem found (h : base.Within thread mode s e) : e.txns[base.nextHandle]? = some ⟨mode, s⟩ := by
  rw [h.txns]
  exact Std.ExtTreeMap.getElem?_insert_self

theorem known (h : base.Within thread mode s e) {entity : EntityId} :
    e.entities.contains entity = base.entities.contains entity := by
  rw [h.schema.entities]

theorem setLastId (h : base.Within thread mode s e) {entity : EntityId} {id : ObjectId} :
    base.Within thread mode s (e.setLastId entity id) :=
  ⟨⟨h.schema.arrays, h.schema.entities, h.schema.relations⟩, h.committed, h.txns, h.nextHandle,
    h.writer⟩

theorem recount (h : base.Within thread mode s e) {writes : Nat}
    {sequences : Std.ExtTreeMap EntityId ObjectId} :
    base.Within thread mode s (e.recount sequences writes) :=
  ⟨⟨h.schema.arrays, h.schema.entities, h.schema.relations⟩, h.committed, h.txns, h.nextHandle,
    h.writer⟩

/-- A write of the transaction leaves it open at what was written. -/
theorem wrote (h : base.Within thread .write s e) (s' : Snapshot) :
    ∃ e', e.Wrote (some base.nextHandle) s s' e' ∧ base.Within thread .write s' e' := by
  refine ⟨_, .inTxn h.found, ⟨h.schema.arrays, h.schema.entities, h.schema.relations⟩, h.committed,
    ?_, h.nextHandle, h.writer⟩
  simp only [h.txns]
  ext txn : 1
  grind

theorem view (h : base.Within thread mode s e) : e.view (some base.nextHandle) = .ok s :=
  view_eq_ok.mpr ⟨mode, h.found⟩

theorem writable (h : base.Within thread .write s e) :
    e.requireWritable (some base.nextHandle) = .ok () := by
  refine requireWritable_eq_ok.mpr ?_
  rintro handle ⟨⟩
  exact ⟨s, h.found⟩

theorem erase (exclusive : base.Exclusive) (h : base.Within thread mode s e) :
    e.txns.erase base.nextHandle = base.txns := by
  have unused : base.txns[base.nextHandle]? = none := by
    cases found : base.txns[base.nextHandle]? with
    | none => rfl
    | some t => exact absurd (exclusive.below found) (Nat.lt_irrefl _)
  rw [h.txns]
  ext txn : 1
  grind

/-- A commit leaves what a write transaction is at. -/
theorem commit (h : base.Within thread mode s e) (exclusive : base.Exclusive)
    (free : mode = .write → base.writer = none) :
    ∃ e', e.commit base.nextHandle = .ok e' ∧
      base.Past (if mode = .write then s else base.committed) e' ∧
      ∀ entity, e'.lastId entity = e.lastId entity := by
  refine ⟨_, commit_eq_ok.mpr ⟨_, h.found, rfl⟩, ?_, ?_⟩
  · cases mode with
    | read =>
        exact ⟨⟨h.schema.arrays, h.schema.entities, h.schema.relations⟩, h.committed,
          h.erase exclusive, h.nextHandle, h.writer⟩
    | write =>
        exact ⟨⟨h.schema.arrays, h.schema.entities, h.schema.relations⟩, rfl, h.erase exclusive,
          h.nextHandle, (free rfl).symm⟩
  · cases mode <;> exact fun _ => rfl

theorem abort (h : base.Within thread mode s e) (exclusive : base.Exclusive)
    (free : mode = .write → base.writer = none) :
    ∃ e', e.abort base.nextHandle = .ok e' ∧ base.Past base.committed e' ∧
      ∀ entity, e'.lastId entity = e.lastId entity := by
  refine ⟨_, abort_eq_ok.mpr ⟨_, h.found, rfl⟩, ?_, ?_⟩
  · cases mode with
    | read =>
        exact ⟨⟨h.schema.arrays, h.schema.entities, h.schema.relations⟩, h.committed,
          h.erase exclusive, h.nextHandle, h.writer⟩
    | write =>
        exact ⟨⟨h.schema.arrays, h.schema.entities, h.schema.relations⟩, h.committed,
          h.erase exclusive, h.nextHandle, (free rfl).symm⟩
  · cases mode <;> exact fun _ => rfl

end Within

theorem Past.exclusive (h : base.Past s e) (exclusive : base.Exclusive) : e.Exclusive := by
  refine ⟨?_, ?_, ?_⟩
  · intro txn t found
    rw [h.txns] at found
    rw [h.nextHandle]
    exact Nat.lt_succ_of_lt (exclusive.below found)
  · intro txn s found
    rw [h.txns] at found
    rw [h.writer]
    exact exclusive.taken found
  · intro txn txn' s s' found found'
    rw [h.txns] at found found'
    exact exclusive.single found found'

end ObjectStore.Engine
