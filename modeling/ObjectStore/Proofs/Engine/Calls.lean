import ObjectStore.Engine.Machine

/-! # What a served call does

For each call on the engine: when it is served, and which engine it leaves. A write is made on one
snapshot, that of its transaction or the committed one, and `Engine.Wrote` says how the engine
changes with it. Beside its snapshot a write moves at most an id sequence or the count of link
writes. Everything later on is derived from these equations; no other proof opens a call.
-/

namespace ObjectStore

/-- Two steps succeed together. -/
theorem bind_eq_ok {ε α β : Type} {x : Except ε α} {f : α → Except ε β} {b : β} :
    x >>= f = .ok b ↔ ∃ a, x = .ok a ∧ f a = .ok b := by
  cases x <;> simp [bind, Except.bind]

theorem unit_bind_eq_ok {ε α : Type} {x : Except ε Unit} {f : Unit → Except ε α} {a : α} :
    x >>= f = .ok a ↔ x = .ok () ∧ f () = .ok a := by
  rw [bind_eq_ok]
  exact ⟨fun ⟨(), h⟩ => h, fun h => ⟨(), h⟩⟩

theorem pair_bind_eq_ok {ε α β γ : Type} {x : Except ε (α × β)} {f : α × β → Except ε γ} {c : γ} :
    x >>= f = .ok c ↔ ∃ a b, x = .ok (a, b) ∧ f (a, b) = .ok c := by
  rw [bind_eq_ok, Prod.exists]

theorem mapError_error {ε ε' α : Type} {why : ε} {f : ε → ε'} :
    (Except.error why : Except ε α).mapError f = .error (f why) := rfl

theorem mapError_ok {ε ε' α : Type} {a : α} {f : ε → ε'} :
    (Except.ok a : Except ε α).mapError f = .ok a := rfl

theorem mapError_eq_ok {ε ε' α : Type} {x : Except ε α} {f : ε → ε'} {a : α} :
    x.mapError f = .ok a ↔ x = .ok a := by
  cases x with
  | error why => simp [mapError_error]
  | ok b => constructor <;> rintro ⟨⟩ <;> rfl

namespace Engine

variable {e e' : Engine} {thread : ThreadId}

@[simp] theorem refuse_ne_ok {α : Type} {why : Refusal} {a : α} : refuse why ≠ .ok a := by
  simp [refuse]

@[simp] theorem requireEntity_eq_ok {entity : EntityId} {u : Unit} :
    e.requireEntity entity = .ok u ↔ e.entities.contains entity = true := by
  simp only [requireEntity]
  split <;> simp [*]

@[simp] theorem requireArrays_eq_ok {call : String} {u : Unit} :
    e.requireArrays call = .ok u ↔ e.arrays = true := by
  simp only [requireArrays]
  split <;> simp [*]

@[simp] theorem endpoints_eq_ok {relation : RelationId} {ends : Endpoints} :
    e.endpoints relation = .ok ends ↔ e.relations[relation]? = some ends := by
  simp only [endpoints]
  split <;> simp [*]

@[simp] theorem openTxn_eq_ok {txn : Handle} {t : OpenTxn} :
    e.openTxn txn = .ok t ↔ e.txns[txn]? = some t := by
  simp only [openTxn]
  split <;> simp [*]

@[simp] theorem writeTxn_eq_ok {txn : Handle} {t : OpenTxn} :
    e.writeTxn txn = .ok t ↔ e.txns[txn]? = some t ∧ t.mode = .write := by
  simp only [writeTxn, bind_eq_ok, openTxn_eq_ok]
  constructor
  · rintro ⟨t', found, h⟩
    split at h
    · simp at h
    · cases h
      exact ⟨found, ‹_›⟩
  · rintro ⟨found, mode⟩
    exact ⟨t, found, by simp [mode, pure, Except.pure]⟩

@[simp] theorem requireWriterFree_eq_ok {u : Unit} :
    e.requireWriterFree thread = .ok u ↔ e.writer = none := by
  simp only [requireWriterFree]
  split
  · simp [*]
  · split <;> simp [*]

/-- Ids may be reserved through a transaction if it is an open write transaction. -/
theorem requireWritable_eq_ok {txn : Option Handle} {u : Unit} :
    e.requireWritable txn = .ok u ↔
      ∀ handle, txn = some handle → ∃ s, e.txns[handle]? = some ⟨.write, s⟩ := by
  cases txn with
  | none => simp [requireWritable]
  | some txn =>
      simp only [requireWritable, bind_eq_ok, writeTxn_eq_ok]
      constructor
      · rintro ⟨⟨mode, s⟩, ⟨found, rfl⟩, -⟩ handle named
        cases named
        exact ⟨s, found⟩
      · intro h
        obtain ⟨s, found⟩ := h txn rfl
        exact ⟨_, ⟨found, rfl⟩, rfl⟩

/-- A write through `txn` was made on the snapshot `s` and left the snapshot `s'` in its place. -/
inductive Wrote (e : Engine) : Option Handle → Snapshot → Snapshot → Engine → Prop where
  | inTxn {txn : Handle} {s s' : Snapshot} : e.txns[txn]? = some ⟨.write, s⟩ →
      e.Wrote (some txn) s s' { e with txns := e.txns.insert txn ⟨.write, s'⟩ }
  | alone {s' : Snapshot} : e.writer = none →
      e.Wrote none e.committed s' { e with committed := s' }

theorem write_eq_ok {α : Type} {txn : Option Handle}
    {change : Snapshot → Except Refusal (α × Snapshot)} {a : α} :
    e.write thread txn change = .ok (a, e') ↔
      ∃ s s', e.Wrote txn s s' e' ∧ change s = .ok (a, s') := by
  cases txn with
  | none =>
      simp only [write, bind_eq_ok, requireWriterFree_eq_ok, mapError_eq_ok]
      constructor
      · rintro ⟨-, free, ⟨a', s'⟩, changed, h⟩
        cases h
        exact ⟨_, s', .alone free, changed⟩
      · rintro ⟨s, s', wrote, changed⟩
        cases wrote with
        | alone free => exact ⟨(), free, _, changed, rfl⟩
  | some txn =>
      simp only [write, bind_eq_ok, writeTxn_eq_ok, mapError_eq_ok]
      constructor
      · rintro ⟨⟨mode, s⟩, ⟨found, rfl⟩, ⟨a', s'⟩, changed, h⟩
        cases h
        exact ⟨s, s', .inTxn found, changed⟩
      · rintro ⟨s, s', wrote, changed⟩
        cases wrote with
        | inTxn found => exact ⟨_, ⟨found, rfl⟩, _, changed, rfl⟩

theorem view_eq_ok {txn : Option Handle} {s : Snapshot} :
    e.view txn = .ok s ↔
      match txn with
      | some handle => ∃ mode, e.txns[handle]? = some ⟨mode, s⟩
      | none => e.committed = s := by
  cases txn with
  | none => simp [view]
  | some txn =>
      simp only [view, bind_eq_ok, openTxn_eq_ok]
      constructor
      · rintro ⟨⟨mode, s'⟩, found, h⟩
        cases h
        exact ⟨mode, found⟩
      · rintro ⟨mode, found⟩
        exact ⟨_, found, rfl⟩

/-! ## Transactions and ids -/

theorem begin_eq_ok {mode : TxnMode} {txn : Handle} :
    e.begin thread mode = .ok (txn, e') ↔
      (mode = .write → e.writer = none) ∧ txn = e.nextHandle ∧
        e' = { e with
          txns := e.txns.insert e.nextHandle ⟨mode, e.committed⟩
          nextHandle := e.nextHandle + 1
          writer := if mode = .write then some thread else e.writer } := by
  cases mode with
  | read =>
      simp only [begin, pure, Except.pure, Except.ok.injEq, Prod.mk.injEq, reduceCtorEq,
        false_implies, true_and]
      constructor <;> rintro ⟨h, h'⟩ <;> exact ⟨h.symm, h'.symm⟩
  | write =>
      simp only [begin, unit_bind_eq_ok, requireWriterFree_eq_ok, pure, Except.pure,
        Except.ok.injEq, Prod.mk.injEq, forall_const]
      constructor <;> rintro ⟨free, h, h'⟩ <;> exact ⟨free, h.symm, h'.symm⟩

/-- A thread other than this one has the writer slot. -/
def HeldByOther (e : Engine) (thread : ThreadId) : Prop :=
  ∃ owner ≠ thread, e.writer = some owner

theorem begin_taken {owner : ThreadId} (taken : e.writer = some owner) :
    e.begin thread .write =
      if owner = thread then .error (.refused .writerHeld) else .error .waits := by
  simp only [begin, requireWriterFree, taken]
  split <;> rfl

/-- A commit forgets the transaction; a write transaction's snapshot becomes the committed one and
    the writer slot is free again. -/
theorem commit_eq_ok {txn : Handle} :
    e.commit txn = .ok e' ↔
      ∃ t, e.txns[txn]? = some t ∧
        e' = match t.mode with
          | .read => { e with txns := e.txns.erase txn }
          | .write =>
            { e with txns := e.txns.erase txn, committed := t.state, writer := none } := by
  simp only [commit, bind_eq_ok, openTxn_eq_ok]
  constructor
  · rintro ⟨t, found, h⟩
    refine ⟨t, found, ?_⟩
    split at h <;> cases h <;> simp [*]
  · rintro ⟨t, found, rfl⟩
    refine ⟨t, found, ?_⟩
    split <;> simp [*, pure, Except.pure]

theorem abort_eq_ok {txn : Handle} :
    e.abort txn = .ok e' ↔
      ∃ t, e.txns[txn]? = some t ∧
        e' = match t.mode with
          | .read => { e with txns := e.txns.erase txn }
          | .write => { e with txns := e.txns.erase txn, writer := none } := by
  simp only [abort, bind_eq_ok, openTxn_eq_ok]
  constructor
  · rintro ⟨t, found, h⟩
    refine ⟨t, found, ?_⟩
    split at h <;> cases h <;> simp [*]
  · rintro ⟨t, found, rfl⟩
    refine ⟨t, found, ?_⟩
    split <;> simp [*, pure, Except.pure]

/-- A new id is one past the sequence; a candidate is granted and the sequence moves past it. -/
theorem idForPut_eq_ok {txn : Option Handle} {entity : EntityId} {candidate id : ObjectId} :
    e.idForPut txn entity candidate = .ok (id, e') ↔
      e.entities.contains entity = true ∧ e.requireWritable txn = .ok () ∧
        if candidate = 0 then
          (e.lastId entity).toNat ≠ maxId ∧ id = e.lastId entity + 1 ∧ e' = e.setLastId entity id
        else id = candidate ∧ e' = e.observe entity [candidate] := by
  simp only [idForPut, unit_bind_eq_ok, requireEntity_eq_ok]
  refine and_congr_right fun _ => and_congr_right fun _ => ?_
  split
  · split
    · simp [*]
    · simp only [pure, Except.pure, Except.ok.injEq, Prod.mk.injEq, ne_eq, *, not_false_eq_true,
        true_and]
      constructor <;> rintro ⟨rfl, rfl⟩ <;> exact ⟨rfl, rfl⟩
  · simp only [pure, Except.pure, Except.ok.injEq, Prod.mk.injEq, eq_comm]

/-- A block starts one past the sequence, which moves to its end. -/
theorem idsForPut_eq_ok {txn : Option Handle} {entity : EntityId} {count : Nat} {id : ObjectId} :
    e.idsForPut txn entity count = .ok (id, e') ↔
      (0 < count ∧ count ≤ maxIdsPerBlock) ∧ e.entities.contains entity = true ∧
        e.requireWritable txn = .ok () ∧ (e.lastId entity).toNat + count ≤ maxId ∧
        id = .ofNat ((e.lastId entity).toNat + 1) ∧
        e' = e.setLastId entity (.ofNat ((e.lastId entity).toNat + count)) := by
  simp only [idsForPut]
  split
  · simp only [refuse_ne_ok, false_iff]
    omega
  · have size : 0 < count ∧ count ≤ maxIdsPerBlock := by omega
    simp only [unit_bind_eq_ok, requireEntity_eq_ok, size, and_self, true_and]
    refine and_congr_right fun _ => and_congr_right fun _ => ?_
    split
    · simp only [pure, Except.pure, Except.ok.injEq, Prod.mk.injEq, *, true_and, eq_comm]
    · simp [*]

/-! ## Records and links -/

theorem put_eq_ok {txn : Option Handle} {entity : EntityId} {id : ObjectId} {record : Bytes}
    {mode : PutMode} :
    e.put thread txn entity id record mode = .ok e' ↔
      e.entities.contains entity = true ∧
        ∃ s e₁, e.Wrote txn s (s.insert entity id record) e₁ ∧
          Snapshot.checkPut mode entity id (s.contains entity id) = .ok () ∧
          e' = e₁.observe entity [id] := by
  simp only [put, unit_bind_eq_ok, pair_bind_eq_ok, requireEntity_eq_ok, write_eq_ok, pure,
    Except.pure, Except.ok.injEq, Prod.mk.injEq]
  refine and_congr_right fun _ => ?_
  constructor
  · rintro ⟨-, e₁, ⟨s, s', wrote, checked, -, rfl⟩, rfl⟩
    exact ⟨s, e₁, wrote, checked, rfl⟩
  · rintro ⟨s, e₁, wrote, checked, rfl⟩
    exact ⟨(), e₁, ⟨s, _, wrote, checked, trivial, rfl⟩, rfl⟩

theorem putMany_eq_ok {txn : Option Handle} {entity : EntityId} {ids : List ObjectId}
    {records : List Bytes} {mode : PutMode} :
    e.putMany thread txn entity ids records mode = .ok e' ↔
      e.arrays = true ∧ e.entities.contains entity = true ∧ ids.length = records.length ∧
        ∃ s e₁, e.Wrote txn s (s.insertMany entity (ids.zip records)) e₁ ∧
          s.checkPutMany mode entity ∅ ids = .ok () ∧ e' = e₁.observe entity ids := by
  simp only [putMany, unit_bind_eq_ok, requireArrays_eq_ok, requireEntity_eq_ok]
  refine and_congr_right fun _ => and_congr_right fun _ => ?_
  split
  · rename_i even
    simp only [unit_bind_eq_ok, pair_bind_eq_ok, write_eq_ok, pure, Except.pure, Except.ok.injEq,
      Prod.mk.injEq, even, true_and]
    constructor
    · rintro ⟨-, e₁, ⟨s, s', wrote, checked, rfl⟩, rfl⟩
      exact ⟨s, e₁, wrote, checked, rfl⟩
    · rintro ⟨s, e₁, wrote, checked, rfl⟩
      exact ⟨(), e₁, ⟨s, _, wrote, checked, rfl⟩, rfl⟩
  · simp [*]

theorem remove_eq_ok {txn : Option Handle} {entity : EntityId} {id : ObjectId} :
    e.remove thread txn entity id = .ok e' ↔
      e.entities.contains entity = true ∧
        ∃ s, s.contains entity id = true ∧
          e.Wrote txn s
            ((s.eraseMany entity [id]).unlinkObject (e.outgoing entity) (e.incoming entity) id)
            e' := by
  simp only [remove, unit_bind_eq_ok, pair_bind_eq_ok, requireEntity_eq_ok, write_eq_ok, pure,
    Except.pure, Except.ok.injEq]
  refine and_congr_right fun _ => ?_
  constructor
  · rintro ⟨⟨⟩, e₁, ⟨s, s', wrote, changed⟩, rfl⟩
    split at changed
    · cases changed
      exact ⟨s, ‹_›, wrote⟩
    · cases changed
  · rintro ⟨s, stored, wrote⟩
    exact ⟨(), e', ⟨s, _, wrote, by simp [stored]⟩, rfl⟩

theorem removeMany_eq_ok {txn : Option Handle} {entity : EntityId} {ids : List ObjectId}
    {count : Nat} :
    e.removeMany thread txn entity ids = .ok (count, e') ↔
      e.entities.contains entity = true ∧
        ∃ s, e.Wrote txn s (s.removeMany entity (e.outgoing entity) (e.incoming entity) ids).2 e' ∧
          count = (s.removeMany entity (e.outgoing entity) (e.incoming entity) ids).1 := by
  simp only [removeMany, unit_bind_eq_ok, requireEntity_eq_ok, write_eq_ok, Except.ok.injEq]
  refine and_congr_right fun _ => ?_
  constructor
  · rintro ⟨s, s', wrote, removed⟩
    exact ⟨s, by rw [removed]; exact wrote, by rw [removed]⟩
  · rintro ⟨s, wrote, rfl⟩
    exact ⟨s, _, wrote, rfl⟩

theorem removeAll_eq_ok {txn : Option Handle} {entity : EntityId} {count : Nat} :
    e.removeAll thread txn entity = .ok (count, e') ↔
      e.entities.contains entity = true ∧
        ∃ s, e.Wrote txn s ((s.ids entity).foldl
            (fun s id => s.unlinkObject (e.outgoing entity) (e.incoming entity) id)
            (s.setTable entity ∅)) e' ∧
          count = (s.ids entity).length := by
  simp only [removeAll, unit_bind_eq_ok, requireEntity_eq_ok, write_eq_ok, Except.ok.injEq,
    Prod.mk.injEq]
  refine and_congr_right fun _ => ?_
  constructor
  · rintro ⟨s, s', wrote, rfl, rfl⟩
    exact ⟨s, wrote, rfl⟩
  · rintro ⟨s, wrote, rfl⟩
    exact ⟨s, _, wrote, rfl, rfl⟩

theorem relPut_eq_ok {txn : Option Handle} {relation : RelationId} {source target : ObjectId} :
    e.relPut thread txn relation source target = .ok e' ↔
      (∃ ends, e.relations[relation]? = some ends) ∧ (source ≠ 0 ∧ target ≠ 0) ∧
        ∃ s e₁, e.Wrote txn s (s.link relation source target) e₁ ∧ e' = e₁.countLinkWrite := by
  rw [relPut, bind_eq_ok]
  simp only [endpoints_eq_ok, exists_and_right]
  refine and_congr_right fun _ => ?_
  split
  · simp only [refuse_ne_ok, false_iff]
    grind
  · simp only [pair_bind_eq_ok, write_eq_ok, pure, Except.pure, Except.ok.injEq, Prod.mk.injEq]
    constructor
    · rintro ⟨-, e₁, ⟨s, s', wrote, -, rfl⟩, rfl⟩
      exact ⟨by grind, s, e₁, wrote, rfl⟩
    · rintro ⟨-, s, e₁, wrote, rfl⟩
      exact ⟨(), e₁, ⟨s, _, wrote, trivial, rfl⟩, rfl⟩

theorem relRemove_eq_ok {txn : Option Handle} {relation : RelationId} {source target : ObjectId} :
    e.relRemove thread txn relation source target = .ok e' ↔
      (∃ ends, e.relations[relation]? = some ends) ∧
        ∃ s e₁, e.Wrote txn s (s.unlink relation source target) e₁ ∧ e' = e₁.countLinkWrite := by
  rw [relRemove, bind_eq_ok]
  simp only [endpoints_eq_ok, exists_and_right]
  refine and_congr_right fun _ => ?_
  simp only [pair_bind_eq_ok, write_eq_ok, pure, Except.pure, Except.ok.injEq, Prod.mk.injEq]
  constructor
  · rintro ⟨-, e₁, ⟨s, s', wrote, -, rfl⟩, rfl⟩
    exact ⟨s, e₁, wrote, rfl⟩
  · rintro ⟨s, e₁, wrote, rfl⟩
    exact ⟨(), e₁, ⟨s, _, wrote, trivial, rfl⟩, rfl⟩

end Engine

end ObjectStore
