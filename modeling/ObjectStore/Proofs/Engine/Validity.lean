import ObjectStore.Proofs.Engine.OpenTransaction

/-! # Calls that are valid otherwise

A call may run into the writer slot, which is taken, or into its handle, which is not open. Which of
the two happens does not depend on what the engine holds, if the call is valid otherwise: it would
be served if the slot were free (`Engine.released`), or if a transaction were open under the handle
(`Engine.reopened`).
-/

namespace ObjectStore

variable {e : Engine} {thread : ThreadId} {txn : Handle} {call : Call}

namespace Call

/-- A call needs the writer slot if it begins a write transaction or writes outside any. -/
def needsSlot : Call → Bool
  | begin .write | put none .. | putMany none .. | remove none .. | removeMany none ..
  | removeAll none .. | relPut none .. | relRemove none .. => true
  | _ => false

/-- The handle of a call: that of the transaction it ends or is made through. -/
def handle? : Call → Option Handle
  | commit txn | abort txn => some txn
  | call => call.through

end Call

namespace Engine

/-- The engine with the writer slot free. -/
def released (e : Engine) : Engine :=
  { e with writer := none }

/-- The engine with a transaction open under a handle. -/
def reopened (e : Engine) (txn : Handle) (t : OpenTxn) : Engine :=
  { e with txns := e.txns.insert txn t }

/-- A call is served. -/
def Accepts (e : Engine) (thread : ThreadId) (call : Call) : Prop :=
  ∃ answer e', e.perform thread call = .ok (answer, e')

/-! ## Calls that need the slot -/

theorem write_halted {α : Type} {change : Snapshot → Except Refusal (α × Snapshot)} {halt : Halt}
    (held : e.requireWriterFree thread = .error halt) :
    e.write thread none change = .error halt := by
  simp only [write, held, bind, Except.bind]

/-- A call that needs the slot and is valid otherwise ends as the slot says. -/
theorem perform_halted {halt : Halt} (needs : call.needsSlot = true)
    (valid : e.released.Accepts thread call) (held : e.requireWriterFree thread = .error halt) :
    e.perform thread call = .error halt := by
  obtain ⟨answer, e', done⟩ := valid
  have stopped : ∀ {α : Type} (change : Snapshot → Except Refusal (α × Snapshot)),
      e.write thread none change = .error halt := fun _ => write_halted held
  cases call with
  | begin mode =>
      cases mode with
      | read => cases needs
      | write => simp only [perform, begin, held, bind, Except.bind]
  | put through entity id record mode =>
      cases through with
      | some txn => cases needs
      | none =>
          obtain ⟨known, -⟩ := put_eq_ok.mp (changing_eq_ok.mp done)
          have required : e.requireEntity entity = .ok () := requireEntity_eq_ok.mpr known
          simp only [perform, put, required, stopped, changing, bind, Except.bind, Except.map]
  | putMany through entity ids records mode =>
      cases through with
      | some txn => cases needs
      | none =>
          obtain ⟨arrays, known, even, -⟩ := putMany_eq_ok.mp (changing_eq_ok.mp done)
          have able : e.requireArrays "put_many" = .ok () := requireArrays_eq_ok.mpr arrays
          have required : e.requireEntity entity = .ok () := requireEntity_eq_ok.mpr known
          simp only [perform, putMany, able, required, even, if_true, stopped, changing, bind,
            Except.bind, Except.map]
  | remove through entity id =>
      cases through with
      | some txn => cases needs
      | none =>
          obtain ⟨known, -⟩ := remove_eq_ok.mp (changing_eq_ok.mp done)
          have required : e.requireEntity entity = .ok () := requireEntity_eq_ok.mpr known
          simp only [perform, remove, required, stopped, changing, bind, Except.bind, Except.map]
  | removeMany through entity ids =>
      cases through with
      | some txn => cases needs
      | none =>
          obtain ⟨known, -⟩ := removeMany_eq_ok.mp done
          have required : e.requireEntity entity = .ok () := requireEntity_eq_ok.mpr known
          simp only [perform, removeMany, required, stopped, bind, Except.bind]
  | removeAll through entity =>
      cases through with
      | some txn => cases needs
      | none =>
          obtain ⟨known, -⟩ := removeAll_eq_ok.mp done
          have required : e.requireEntity entity = .ok () := requireEntity_eq_ok.mpr known
          simp only [perform, removeAll, required, stopped, bind, Except.bind]
  | relPut through relation source target =>
      cases through with
      | some txn => cases needs
      | none =>
          obtain ⟨⟨ends, known⟩, nonzero, -⟩ := relPut_eq_ok.mp (changing_eq_ok.mp done)
          have found : e.endpoints relation = .ok ends := endpoints_eq_ok.mpr known
          have linkable : ¬ (source = 0 ∨ target = 0) := not_or.mpr nonzero
          simp only [perform, relPut, found, linkable, if_false, stopped, changing, bind,
            Except.bind, Except.map]
  | relRemove through relation source target =>
      cases through with
      | some txn => cases needs
      | none =>
          obtain ⟨⟨ends, known⟩, -⟩ := relRemove_eq_ok.mp (changing_eq_ok.mp done)
          have found : e.endpoints relation = .ok ends := endpoints_eq_ok.mpr known
          simp only [perform, relRemove, found, stopped, changing, bind, Except.bind, Except.map]
  | _ => cases needs

/-! ## Calls through a handle that is not open -/

section Closed

variable (closed : e.txns[txn]? = none)
include closed

theorem openTxn_closed : e.openTxn txn = refuse (.notOpen txn) := by
  simp only [openTxn, closed]

theorem writeTxn_closed : e.writeTxn txn = refuse (.notOpen txn) := by
  simp only [writeTxn, openTxn_closed closed, refuse, bind, Except.bind]

theorem requireWritable_closed : e.requireWritable (some txn) = refuse (.notOpen txn) := by
  simp only [requireWritable, writeTxn_closed closed, refuse, bind, Except.bind]

theorem view_closed : e.view (some txn) = refuse (.notOpen txn) := by
  simp only [view, openTxn_closed closed, refuse, bind, Except.bind]

theorem write_closed {α : Type} {change : Snapshot → Except Refusal (α × Snapshot)} :
    e.write thread (some txn) change = refuse (.notOpen txn) := by
  simp only [write, writeTxn_closed closed, refuse, bind, Except.bind]

/-- A call through a handle that is not open is refused for it, if it is valid otherwise. -/
theorem perform_closed {t : OpenTxn} (names : call.handle? = some txn)
    (valid : (e.reopened txn t).Accepts thread call) :
    e.perform thread call = refuse (.notOpen txn) := by
  obtain ⟨answer, e', done⟩ := valid
  have required : ∀ {entity}, (e.reopened txn t).entities.contains entity = true →
      e.requireEntity entity = .ok () := requireEntity_eq_ok.mpr
  have able : ∀ {name}, (e.reopened txn t).arrays = true → e.requireArrays name = .ok () :=
    requireArrays_eq_ok.mpr
  have found : ∀ {relation ends}, (e.reopened txn t).relations[relation]? = some ends →
      e.endpoints relation = .ok ends := endpoints_eq_ok.mpr
  cases call with
  | defineEntity | defineRelation | begin => cases names
  | commit =>
      cases names
      simp only [perform, commit, openTxn_closed closed, refuse, changing, bind, Except.bind,
        Except.map]
  | abort =>
      cases names
      simp only [perform, abort, openTxn_closed closed, refuse, changing, bind, Except.bind,
        Except.map]
  | idForPut =>
      cases names
      obtain ⟨known, -⟩ := idForPut_eq_ok.mp done
      simp only [perform, idForPut, required known, requireWritable_closed closed, refuse, bind,
        Except.bind]
  | idsForPut through entity count =>
      cases names
      obtain ⟨size, known, -⟩ := idsForPut_eq_ok.mp done
      have sized : ¬ (count = 0 ∨ maxIdsPerBlock < count) := by omega
      simp only [perform, idsForPut, sized, if_false, required known,
        requireWritable_closed closed, refuse, bind, Except.bind]
  | put =>
      cases names
      obtain ⟨known, -⟩ := put_eq_ok.mp (changing_eq_ok.mp done)
      simp only [perform, put, required known, write_closed closed, refuse, changing, bind,
        Except.bind, Except.map]
  | putMany =>
      cases names
      obtain ⟨arrays, known, even, -⟩ := putMany_eq_ok.mp (changing_eq_ok.mp done)
      simp only [perform, putMany, able arrays, required known, even, if_true,
        write_closed closed, refuse, changing, bind, Except.bind, Except.map]
  | remove =>
      cases names
      obtain ⟨known, -⟩ := remove_eq_ok.mp (changing_eq_ok.mp done)
      simp only [perform, remove, required known, write_closed closed, refuse, changing, bind,
        Except.bind, Except.map]
  | removeMany =>
      cases names
      obtain ⟨known, -⟩ := removeMany_eq_ok.mp done
      simp only [perform, removeMany, required known, write_closed closed, refuse, bind,
        Except.bind]
  | removeAll =>
      cases names
      obtain ⟨known, -⟩ := removeAll_eq_ok.mp done
      simp only [perform, removeAll, required known, write_closed closed, refuse, bind,
        Except.bind]
  | relPut through relation source target =>
      cases names
      obtain ⟨⟨ends, known⟩, nonzero, -⟩ := relPut_eq_ok.mp (changing_eq_ok.mp done)
      have linkable : ¬ (source = 0 ∨ target = 0) := not_or.mpr nonzero
      simp only [perform, relPut, found known, linkable, if_false, write_closed closed, refuse,
        changing, bind, Except.bind, Except.map]
  | relRemove =>
      cases names
      obtain ⟨⟨ends, known⟩, -⟩ := relRemove_eq_ok.mp (changing_eq_ok.mp done)
      simp only [perform, relRemove, found known, write_closed closed, refuse, changing, bind,
        Except.bind, Except.map]
  | relGetIds =>
      cases names
      simp only [perform, reading_eq_ok, relGetIds, bind_eq_ok, endpoints_eq_ok] at done
      obtain ⟨⟨ends, known, -⟩, -⟩ := done
      simp only [perform, relGetIds, found known, view_closed closed, refuse, reading, bind,
        Except.bind, Except.map]
  | getMany | getAll =>
      cases names
      simp only [perform, reading_eq_ok, getMany, getAll, unit_bind_eq_ok, requireArrays_eq_ok,
        requireEntity_eq_ok] at done
      obtain ⟨⟨arrays, known, -⟩, -⟩ := done
      simp only [perform, getMany, getAll, able arrays, required known, view_closed closed,
        refuse, reading, bind, Except.bind, Except.map]
  | get | visitMany | visitAll | count | isEmpty | contains | containsMany =>
      cases names
      simp only [perform, reading_eq_ok, get, visitMany, visitAll, count, isEmpty, contains,
        containsMany, unit_bind_eq_ok, requireEntity_eq_ok] at done
      obtain ⟨⟨known, -⟩, -⟩ := done
      simp only [perform, get, visitMany, visitAll, count, isEmpty, contains, containsMany,
        required known, view_closed closed, refuse, reading, bind, Except.bind, Except.map]

end Closed

end Engine

end ObjectStore
