import ObjectStore.Proofs.Engine.Runs

/-! # Runs are serial

Of a run by any number of threads only the writes that were committed count, and they count in
commit order: those of a transaction when it commits, those made alone when they are made. The
`Ledger` of a run keeps them, and `run_committed_eq_replay` says that replaying them one after
another, alone, on the engine the run began with gives the same answers and the same committed
snapshot.

The invariant is `Serial`: replaying the writes done so far gives the committed snapshot, and
replaying those and then the pending ones of the open write transaction gives its snapshot. It
lasts because no write is done for good while another's transaction is open.
-/

namespace ObjectStore

/-- The writes done for good, in commit order, and the pending writes of each transaction. -/
structure Ledger where
  done : List Served := []
  pending : Std.ExtTreeMap Handle (List Served) := ∅

namespace Ledger

/-- Enter a served call. -/
def enter (l : Ledger) (served : Served) : Ledger :=
  match served.part with
  | .none => l
  | .begins txn => { l with pending := l.pending.insert txn [] }
  | .commits txn => { done := l.done ++ l.pending.getD txn [], pending := l.pending.erase txn }
  | .aborts txn => { l with pending := l.pending.erase txn }
  | .writes none write => { l with done := l.done ++ [write] }
  | .writes (some txn) write =>
    { l with pending := l.pending.insert txn (l.pending.getD txn [] ++ [write]) }

/-- Enter a call that was taken; a refused one does not count. -/
def note (l : Ledger) (taken : Taken) : Ledger :=
  match taken.result with
  | .ok answer => l.enter ⟨taken.call, answer⟩
  | .error _ => l

end Ledger

/-- The writes of a run that were committed, in commit order, each as the call it is alone. -/
def committedWrites (taken : List Taken) : List Served :=
  (taken.foldl Ledger.note {}).done

namespace Served

/-- A served call as one that a thread makes. -/
def madeBy (thread : ThreadId) (served : Served) : ThreadId × Call :=
  (thread, served.call)

/-- A served call as one that a thread made. -/
def takenBy (thread : ThreadId) (served : Served) : Taken :=
  ⟨thread, served.call, .ok served.answer⟩

end Served

variable {start : Machine} {thread thread' : ThreadId} {writes : List Served} {l : Ledger}
  {e e' : Engine} {s s' : Snapshot} {served write : Served}

/-- Writes made alone and one after another are served as they were, and leave `s` committed. -/
def Yields (start : Machine) (thread : ThreadId) (writes : List Served) (s : Snapshot) : Prop :=
  ∃ last, start.run (writes.map (Served.madeBy thread)) =
      (writes.map (Served.takenBy thread), last) ∧
    last.engine.committed = s ∧ last.engine.writer = none ∧
    start.engine.SameSchema last.engine

theorem Yields.snoc (h : Yields start thread writes s) (schema : start.engine.SameSchema e)
    (turns : e.Turns write s s') : Yields start thread (writes ++ [write]) s' := by
  obtain ⟨last, ran, rfl, free, kept⟩ := h
  have alike : e.SameSchema last.engine :=
    ⟨kept.arrays.trans schema.arrays.symm, kept.entities.trans schema.entities.symm,
      kept.relations.trans schema.relations.symm⟩
  obtain ⟨sequences, count, done⟩ := turns last.engine _ thread alike (.alone free)
  let after : Machine :=
    { last with engine := { last.engine with committed := s' }.recount sequences count }
  have next : last.run [write.madeBy thread] = ([write.takenBy thread], after) := by
    simp only [Machine.run, Served.madeBy, Machine.step_of_perform done]
    rfl
  refine ⟨after, ?_, rfl, free, kept.arrays, kept.entities, kept.relations⟩
  simp only [List.map_append, List.map_cons, List.map_nil, Machine.run_append, ran, next]

/-- The committed snapshot, and that of the open write transaction, are those of a replay. -/
structure Serial (start : Machine) (thread : ThreadId) (l : Ledger) (e : Engine) : Prop where
  done : Yields start thread l.done e.committed
  writing {txn : Handle} {s : Snapshot} : e.txns[txn]? = some ⟨.write, s⟩ →
    Yields start thread (l.done ++ l.pending.getD txn []) s
  reading {txn : Handle} {s : Snapshot} : e.txns[txn]? = some ⟨.read, s⟩ →
    l.pending.getD txn [] = []

theorem Serial.began {mode : TxnMode} {txn : Handle} {engine : Engine}
    (h : Serial start thread l e) (begun : engine.txns = e.txns.insert txn ⟨mode, e.committed⟩)
    (same : engine.committed = e.committed) :
    Serial start thread { l with pending := l.pending.insert txn [] } engine := by
  refine ⟨same ▸ h.done, ?_, ?_⟩
  · intro txn' s found
    rw [begun, Std.ExtTreeMap.getElem?_insert] at found
    rw [Std.ExtTreeMap.getD_insert]
    split at found
    · cases found
      rw [if_pos ‹_›, List.append_nil]
      exact h.done
    · rw [if_neg ‹_›]
      exact h.writing found
  · intro txn' s found
    rw [begun, Std.ExtTreeMap.getElem?_insert] at found
    rw [Std.ExtTreeMap.getD_insert]
    split at found
    · rw [if_pos ‹_›]
    · rw [if_neg ‹_›]
      exact h.reading found

theorem Serial.ended {txn : Handle} {engine : Engine} (h : Serial start thread l e)
    (left : engine.txns = e.txns.erase txn) (same : engine.committed = e.committed) :
    Serial start thread { l with pending := l.pending.erase txn } engine := by
  refine ⟨same ▸ h.done, ?_, ?_⟩
  · intro txn' s found
    rw [left, Std.ExtTreeMap.getElem?_erase] at found
    rw [Std.ExtTreeMap.getD_erase]
    split at found
    · cases found
    · rw [if_neg ‹_›]
      exact h.writing found
  · intro txn' s found
    rw [left, Std.ExtTreeMap.getElem?_erase] at found
    rw [Std.ExtTreeMap.getD_erase]
    split at found
    · cases found
    · rw [if_neg ‹_›]
      exact h.reading found

/-- A commit makes the pending writes of its transaction done. No other write transaction is open,
    so nothing else was done since it began. -/
theorem Serial.committed {txn : Handle} {engine : Engine} (h : Serial start thread l e)
    (exclusive : e.Exclusive) (found : e.txns[txn]? = some ⟨.write, s⟩)
    (left : engine.txns = e.txns.erase txn) (kept : engine.committed = s) :
    Serial start thread ⟨l.done ++ l.pending.getD txn [], l.pending.erase txn⟩ engine := by
  refine ⟨kept ▸ h.writing found, ?_, ?_⟩
  · intro txn' s' other
    -- with this one gone no write transaction is left whose snapshot could be behind
    rw [left] at other
    exact absurd other (exclusive.erase found)
  · intro txn' s' other
    rw [left, Std.ExtTreeMap.getElem?_erase] at other
    rw [Std.ExtTreeMap.getD_erase]
    split at other
    · cases other
    · rw [if_neg ‹_›]
      exact h.reading other

theorem Serial.wroteIn {txn : Handle} {engine : Engine} (h : Serial start thread l e)
    (schema : start.engine.SameSchema e) (turns : e.Turns write s s')
    (found : e.txns[txn]? = some ⟨.write, s⟩)
    (put : engine.txns = e.txns.insert txn ⟨.write, s'⟩) (same : engine.committed = e.committed) :
    Serial start thread
      { l with pending := l.pending.insert txn (l.pending.getD txn [] ++ [write]) } engine := by
  refine ⟨same ▸ h.done, ?_, ?_⟩
  · intro txn' s'' written
    rw [put, Std.ExtTreeMap.getElem?_insert] at written
    rw [Std.ExtTreeMap.getD_insert]
    split at written
    · cases written
      rw [if_pos ‹_›, ← List.append_assoc]
      exact (h.writing found).snoc schema turns
    · rw [if_neg ‹_›]
      exact h.writing written
  · intro txn' s'' read
    rw [put, Std.ExtTreeMap.getElem?_insert] at read
    rw [Std.ExtTreeMap.getD_insert]
    split at read
    · cases read
    · rw [if_neg ‹_›]
      exact h.reading read

/-- A write made alone is done. No write transaction is open meanwhile. -/
theorem Serial.wroteAlone {engine : Engine} (h : Serial start thread l e)
    (exclusive : e.Exclusive) (schema : start.engine.SameSchema e) (free : e.writer = none)
    (turns : e.Turns write e.committed s') (same : engine.txns = e.txns)
    (kept : engine.committed = s') :
    Serial start thread { l with done := l.done ++ [write] } engine := by
  refine ⟨kept ▸ h.done.snoc schema turns, ?_, ?_⟩
  · intro txn s written
    rw [same] at written
    exact absurd free (exclusive.taken written)
  · intro txn s read
    rw [same] at read
    exact h.reading read

theorem Serial.moved (h : Serial start thread l e) (exclusive : e.Exclusive)
    (schema : start.engine.SameSchema e) (quiet : served.call.defines = false)
    (moved : e.Moved thread' served e') : Serial start thread (l.enter served) e' := by
  cases moved with
  | defined defines => simp [quiet] at defines
  | read plays =>
      simp only [Ledger.enter, plays]
      exact h
  | numbered plays grows =>
      simp only [Ledger.enter, plays]
      exact ⟨h.done, h.writing, h.reading⟩
  | began plays free =>
      simp only [Ledger.enter, plays]
      exact h.began rfl rfl
  | committed plays found =>
      simp only [Ledger.enter, plays]
      exact h.committed exclusive found rfl rfl
  | aborted plays found =>
      simp only [Ledger.enter, plays]
      exact h.ended rfl rfl
  | closed plays found =>
      cases plays with
      | inl plays =>
          simp only [Ledger.enter, plays, h.reading found, List.append_nil]
          exact h.ended rfl rfl
      | inr plays =>
          simp only [Ledger.enter, plays]
          exact h.ended rfl rfl
  | wrote plays wrote turns covers grows =>
      cases wrote with
      | alone free =>
          simp only [Ledger.enter, plays]
          exact h.wroteAlone exclusive schema free turns rfl rfl
      | inTxn found =>
          simp only [Ledger.enter, plays]
          exact h.wroteIn schema turns found rfl rfl

theorem Serial.run {m : Machine} {calls : List (ThreadId × Call)}
    (h : Serial start thread l m.engine) (exclusive : m.engine.Exclusive)
    (schema : start.engine.SameSchema m.engine) (quiet : ∀ c ∈ calls, c.2.defines = false) :
    Serial start thread ((m.run calls).1.foldl Ledger.note l) (m.run calls).2.engine := by
  induction calls generalizing m l with
  | nil => exact h
  | cons first calls ih =>
      obtain ⟨thread', call⟩ := first
      have quietNow : call.defines = false := quiet _ List.mem_cons_self
      have quietLater : ∀ c ∈ calls, c.2.defines = false :=
        fun c member => quiet c (List.mem_cons_of_mem _ member)
      simp only [Machine.run]
      split
      · rename_i result m' taken
        rcases Machine.step_eq_some taken with ⟨answer, rfl, done, -⟩ | ⟨why, rfl, same⟩
        · have moved : m.engine.Moved thread' ⟨call, answer⟩ m'.engine :=
            Engine.moved_of_perform done
          exact ih (h.moved exclusive schema quietNow moved) (exclusive.moved quietNow moved)
            (schema.moved quietNow moved) quietLater
        · rw [← same] at h exclusive schema
          exact ih h exclusive schema quietLater
      · exact ih h exclusive schema quietLater

/-- An engine on which nothing but definitions was done. -/
structure Engine.Blank (e : Engine) : Prop where
  committed : e.committed = {}
  txns : e.txns = ∅
  writer : e.writer = none

theorem Engine.Blank.defined (h : e.Blank) (defines : served.call.defines = true)
    (done : e.perform thread served.call = .ok (served.answer, e')) : e'.Blank := by
  obtain ⟨entities, relations, rfl⟩ := eq_of_defines defines done
  exact ⟨h.committed, h.txns, h.writer⟩

/-- Serial equivalence. Threads make any calls in any order on a new engine for which only entity
    types and relations were defined. Then the writes that were committed, made alone and one after
    another in commit order, are answered as they were in the run and leave the snapshot that the
    run left committed. -/
theorem run_committed_eq_replay {arrays : Bool} {definitions calls : List (ThreadId × Call)}
    (thread : ThreadId) (defining : ∀ c ∈ definitions, c.2.defines = true)
    (quiet : ∀ c ∈ calls, c.2.defines = false) :
    let start := ((Machine.fresh arrays).run definitions).2
    let writes := committedWrites (start.run calls).1
    let replay := start.run (writes.map (Served.madeBy thread))
    start.engine.committed = {} ∧
      replay.1 = writes.map (Served.takenBy thread) ∧
      replay.2.engine.committed = (start.run calls).2.engine.committed := by
  intro start writes replay
  have blank : start.engine.Blank :=
    Machine.run_keeps (Q := (Call.defines · = true)) Engine.Blank.defined ⟨rfl, rfl, rfl⟩ defining
  have none : ∀ {txn : Handle} {t : OpenTxn}, start.engine.txns[txn]? ≠ some t := by
    intro txn t found
    simp [blank.txns] at found
  have schema : start.engine.SameSchema start.engine := ⟨rfl, rfl, rfl⟩
  have exclusive : start.engine.Exclusive :=
    ⟨fun found => absurd found none, fun found => absurd found none,
      fun found => absurd found none⟩
  have serial : Serial start thread {} start.engine :=
    ⟨⟨start, rfl, rfl, blank.writer, schema⟩, fun found => absurd found none,
      fun found => absurd found none⟩
  obtain ⟨last, ran, committed, -, -⟩ := (serial.run exclusive schema quiet).done
  exact ⟨blank.committed, congrArg Prod.fst ran,
    (congrArg (·.2.engine.committed) ran).trans committed⟩

/-- One thread's write transaction, during which another thread's write has to wait and is made
    later: three writes are done, and replaying them leaves what the run left. -/
theorem interleaved_committed_eq_replay :
    let start := ((Machine.fresh true).run
      [(0, .defineEntity 1 "Note"), (0, .defineRelation 2 1 1)]).2
    let run := start.run
      [(0, .begin .write), (0, .put (some 1) 1 5 [1] .put), (1, .put none 1 5 [2] .put),
        (1, .begin .read), (0, .relPut (some 1) 2 5 5), (0, .commit 1),
        (1, .put none 1 5 [3] .update), (1, .put (some 2) 1 6 [4] .put), (1, .commit 2)]
    let writes := committedWrites run.1
    let replay := start.run (writes.map (Served.madeBy 7))
    writes.length = 3 ∧ run.2.engine.committed.record? 1 5 = some [3] ∧
      replay.1 = writes.map (Served.takenBy 7) ∧
      replay.2.engine.committed = run.2.engine.committed := by
  refine ⟨rfl, rfl, ?_⟩
  exact (run_committed_eq_replay 7 (by decide) (by decide)).2

end ObjectStore
