import ObjectStore.Proofs.Engine.SerialHistory

/-! # Snapshot isolation

What a read is answered depends on the schema and on the snapshot it sees. A read transaction sees
the snapshot committed when it began; a write transaction sees that snapshot after its own writes;
a read without a transaction sees the snapshot that the committed writes make.

`Shows` follows one transaction from its begin to the end of a run. Its snapshot is given by a
replay: the writes made through the handle, made again alone on the machine the transaction began
on, leave it committed there. Only a call through the handle touches it.
-/

namespace ObjectStore

/-- The calls that read, without the transaction they are made through. -/
inductive Read where
  | get (entity : EntityId) (id : ObjectId)
  | getMany (entity : EntityId) (ids : List ObjectId)
  | getAll (entity : EntityId)
  | visitMany (entity : EntityId) (ids : List ObjectId) (visitor : Visitor)
  | visitAll (entity : EntityId) (visitor : Visitor)
  | count (entity : EntityId) (limit : Nat)
  | isEmpty (entity : EntityId)
  | contains (entity : EntityId) (id : ObjectId)
  | containsMany (entity : EntityId) (ids : List ObjectId)
  | relGetIds (relation : RelationId) (source : ObjectId)

@[reducible] def Read.Answer : Read → Type
  | get .. => Bytes
  | getMany .. | visitMany .. | visitAll .. => List (Option Bytes)
  | getAll .. => List Bytes
  | count .. => Nat
  | isEmpty .. | contains .. | containsMany .. => Bool
  | relGetIds .. => List ObjectId

/-- What a thread is answered that makes a read call now. -/
def Machine.answer (m : Machine) (thread : ThreadId) (txn : Option Handle) :
    (r : Read) → Option (Except Refusal r.Answer)
  | .get entity id => (m.step thread (.get txn entity id)).map Prod.fst
  | .getMany entity ids => (m.step thread (.getMany txn entity ids)).map Prod.fst
  | .getAll entity => (m.step thread (.getAll txn entity)).map Prod.fst
  | .visitMany entity ids visitor =>
    (m.step thread (.visitMany txn entity ids visitor)).map Prod.fst
  | .visitAll entity visitor => (m.step thread (.visitAll txn entity visitor)).map Prod.fst
  | .count entity limit => (m.step thread (.count txn entity limit)).map Prod.fst
  | .isEmpty entity => (m.step thread (.isEmpty txn entity)).map Prod.fst
  | .contains entity id => (m.step thread (.contains txn entity id)).map Prod.fst
  | .containsMany entity ids => (m.step thread (.containsMany txn entity ids)).map Prod.fst
  | .relGetIds relation source => (m.step thread (.relGetIds txn relation source)).map Prod.fst

/-! ## Answers are decided by the snapshot seen -/

/-- What a call is answered, if it does not wait. -/
def answered {α : Type} : Except Halt α → Option (Except Refusal α)
  | .ok answer => some (.ok answer)
  | .error (.refused why) => some (.error why)
  | .error .waits => none

namespace Engine

variable {e d : Engine} {txn txn' : Option Handle}

/-- What the engine reads for a read call. -/
def read (e : Engine) (txn : Option Handle) : (r : Read) → Except Halt r.Answer
  | .get entity id => e.get txn entity id
  | .getMany entity ids => e.getMany txn entity ids
  | .getAll entity => e.getAll txn entity
  | .visitMany entity ids visitor => e.visitMany txn entity ids visitor
  | .visitAll entity visitor => e.visitAll txn entity visitor
  | .count entity limit => e.count txn entity limit
  | .isEmpty entity => e.isEmpty txn entity
  | .contains entity id => e.contains txn entity id
  | .containsMany entity ids => e.containsMany txn entity ids
  | .relGetIds relation source => e.relGetIds txn relation source

theorem read_congr (schema : d.SameSchema e) (same : e.view txn = d.view txn') (r : Read) :
    e.read txn r = d.read txn' r := by
  have known : ∀ entity, e.requireEntity entity = d.requireEntity entity := by
    intro entity
    simp only [requireEntity, schema.entities]
  have arrays : ∀ call, e.requireArrays call = d.requireArrays call := by
    intro call
    simp only [requireArrays, schema.arrays]
  have ends : ∀ relation, e.endpoints relation = d.endpoints relation := by
    intro relation
    simp only [endpoints, schema.relations]
  cases r with
  | getMany | getAll => simp only [read, getMany, getAll, arrays, known, same]
  | relGetIds => simp only [read, relGetIds, ends, same]
  | _ =>
      simp only [read, get, visitMany, visitAll, count, isEmpty, contains, containsMany, known,
        same]

end Engine

namespace Machine

variable {m base : Machine} {thread thread' : ThreadId} {txn txn' : Option Handle}

theorem step_reading (call : Call) {x : Except Halt call.Answer}
    (reads : m.engine.perform thread call = m.engine.reading x) :
    (m.step thread call).map Prod.fst = answered x := by
  simp only [step, reads]
  cases x with
  | ok answer => rfl
  | error halt => cases halt <;> rfl

theorem answer_eq (r : Read) : m.answer thread txn r = answered (m.engine.read txn r) := by
  cases r with
  | get entity id => exact step_reading (.get txn entity id) rfl
  | getMany entity ids => exact step_reading (.getMany txn entity ids) rfl
  | getAll entity => exact step_reading (.getAll txn entity) rfl
  | visitMany entity ids visitor => exact step_reading (.visitMany txn entity ids visitor) rfl
  | visitAll entity visitor => exact step_reading (.visitAll txn entity visitor) rfl
  | count entity limit => exact step_reading (.count txn entity limit) rfl
  | isEmpty entity => exact step_reading (.isEmpty txn entity) rfl
  | contains entity id => exact step_reading (.contains txn entity id) rfl
  | containsMany entity ids => exact step_reading (.containsMany txn entity ids) rfl
  | relGetIds relation source => exact step_reading (.relGetIds txn relation source) rfl

theorem answer_congr (schema : base.engine.SameSchema m.engine)
    (same : m.engine.view txn = base.engine.view txn') (r : Read) :
    m.answer thread txn r = base.answer thread' txn' r := by
  rw [answer_eq, answer_eq, Engine.read_congr schema same]

end Machine

/-! ## One transaction along a run -/

namespace Served

/-- Whether a served call ended a transaction. -/
def ends (txn : Handle) (served : Served) : Bool :=
  match served.part with
  | .commits handle | .aborts handle => handle == txn
  | _ => false

/-- The write a served call made through a handle, as the call it is alone. -/
def writtenBy (txn : Handle) (served : Served) : List Served :=
  match served.part with
  | .writes (some handle) write => if handle = txn then [write] else []
  | _ => []

theorem writtenBy_of_part {txn : Handle} {served : Served}
    (other : ∀ write, served.part ≠ .writes (some txn) write) : served.writtenBy txn = [] := by
  simp only [writtenBy]
  split
  · rename_i handle write plays
    rw [if_neg]
    rintro rfl
    exact other write plays
  · rfl

end Served

namespace Taken

/-- Whether a call ended a transaction; a refused one did not. -/
def ends (txn : Handle) (taken : Taken) : Bool :=
  match taken.result with
  | .ok answer => Served.ends txn ⟨taken.call, answer⟩
  | .error _ => false

/-- The write a call made through a handle, as the call it is alone; a refused one made none. -/
def writtenBy (txn : Handle) (taken : Taken) : List Served :=
  match taken.result with
  | .ok answer => Served.writtenBy txn ⟨taken.call, answer⟩
  | .error _ => []

end Taken

variable {base : Machine} {thread thread' : ThreadId} {mode : TxnMode} {txn : Handle}
  {own : List Served} {e e' : Engine} {s : Snapshot} {served : Served}

/-- The snapshot of a transaction that began on `base` and made the writes `own`. -/
inductive Sees (base : Machine) (thread : ThreadId) : TxnMode → List Served → Snapshot → Prop where
  | read : Sees base thread .read [] base.engine.committed
  | write {own : List Served} {s : Snapshot} :
      Yields base thread own s → Sees base thread .write own s

/-- A transaction that began on `base` is open, and sees what it should. -/
structure Shows (base : Machine) (thread : ThreadId) (mode : TxnMode) (txn : Handle)
    (own : List Served) (e : Engine) : Prop where
  schema : base.engine.SameSchema e
  below : txn < e.nextHandle
  shown : ∃ s, e.txns[txn]? = some ⟨mode, s⟩ ∧ Sees base thread mode own s

namespace Shows

theorem aside (h : Shows base thread mode txn own e) (schema : base.engine.SameSchema e')
    (grows : e.nextHandle ≤ e'.nextHandle) (same : e'.txns[txn]? = e.txns[txn]?)
    (other : ∀ write, served.part ≠ .writes (some txn) write) :
    Shows base thread mode txn (own ++ served.writtenBy txn) e' := by
  rw [Served.writtenBy_of_part other, List.append_nil]
  refine ⟨schema, Nat.lt_of_lt_of_le h.below grows, ?_⟩
  rw [same]
  exact h.shown

theorem wroteIn {write : Served} {s s' : Snapshot} {sequences : Std.ExtTreeMap EntityId ObjectId}
    {writes : Nat} (h : Shows base thread mode txn own e)
    (schema : base.engine.SameSchema
      (Engine.recount { e with txns := e.txns.insert txn ⟨.write, s'⟩ } sequences writes))
    (plays : served.part = .writes (some txn) write) (found : e.txns[txn]? = some ⟨.write, s⟩)
    (turns : e.Turns write s s') :
    Shows base thread mode txn (own ++ served.writtenBy txn)
      (Engine.recount { e with txns := e.txns.insert txn ⟨.write, s'⟩ } sequences writes) := by
  obtain ⟨seen, here, sees⟩ := h.shown
  rw [found] at here
  cases here
  cases sees with
  | write yields =>
      have written : served.writtenBy txn = [write] := by simp [Served.writtenBy, plays]
      rw [written]
      refine ⟨schema, h.below, s', ?_, .write (yields.snoc h.schema turns)⟩
      exact Std.ExtTreeMap.getElem?_insert_self

theorem moved (h : Shows base thread mode txn own e) (quiet : served.call.defines = false)
    (unended : served.ends txn = false) (moved : e.Moved thread' served e') :
    Shows base thread mode txn (own ++ served.writtenBy txn) e' := by
  have schema : base.engine.SameSchema e' := h.schema.moved quiet moved
  cases moved with
  | defined defines => simp [quiet] at defines
  | read plays => exact h.aside schema (Nat.le_refl _) rfl (by simp [plays])
  | numbered plays grows => exact h.aside schema (Nat.le_refl _) rfl (by simp [plays])
  | began plays free =>
      have new : e.nextHandle ≠ txn := Nat.ne_of_gt h.below
      refine h.aside schema (Nat.le_succ _) ?_ (by simp [plays])
      grind
  | @committed other s plays found =>
      have apart : other ≠ txn := by simpa [Served.ends, plays] using unended
      refine h.aside schema (Nat.le_refl _) ?_ (by simp [plays])
      grind
  | @aborted other s plays found =>
      have apart : other ≠ txn := by simpa [Served.ends, plays] using unended
      refine h.aside schema (Nat.le_refl _) ?_ (by simp [plays])
      grind
  | @closed other s plays found =>
      have apart : other ≠ txn := by
        rcases plays with plays | plays <;> simpa [Served.ends, plays] using unended
      refine h.aside schema (Nat.le_refl _) ?_ (by rcases plays with plays | plays <;> simp [plays])
      grind
  | @wrote write _ s s' e₁ sequences writes plays wrote turns covers grows =>
      cases wrote with
      | alone free => exact h.aside schema (Nat.le_refl _) rfl (by simp [plays])
      | @inTxn other _ _ found =>
          by_cases through : other = txn
          · subst through
            exact h.wroteIn schema plays found turns
          · refine h.aside schema (Nat.le_refl _) ?_ (by simp [plays, through])
            simp only [Engine.recount]
            grind

/-- What a transaction shows lasts along a run in which it is not ended. -/
theorem run {m : Machine} {calls : List (ThreadId × Call)}
    (h : Shows base thread mode txn own m.engine) (quiet : ∀ c ∈ calls, c.2.defines = false)
    (unended : ∀ taken ∈ (m.run calls).1, taken.ends txn = false) :
    Shows base thread mode txn (own ++ (m.run calls).1.flatMap (Taken.writtenBy txn))
      (m.run calls).2.engine := by
  induction calls generalizing m own with
  | nil =>
      simp only [Machine.run, List.flatMap_nil, List.append_nil]
      exact h
  | cons first calls ih =>
      obtain ⟨thread', call⟩ := first
      have quietNow : call.defines = false := quiet _ List.mem_cons_self
      have quietLater : ∀ c ∈ calls, c.2.defines = false :=
        fun c member => quiet c (List.mem_cons_of_mem _ member)
      simp only [Machine.run] at unended ⊢
      split
      · rename_i result m' taken
        simp only [taken, List.mem_cons, forall_eq_or_imp] at unended
        obtain ⟨unendedNow, unendedLater⟩ := unended
        simp only [List.flatMap_cons, ← List.append_assoc]
        refine ih ?_ quietLater unendedLater
        rcases Machine.step_eq_some taken with ⟨answer, rfl, done, -⟩ | ⟨why, rfl, same⟩
        · have moved : m.engine.Moved thread' ⟨call, answer⟩ m'.engine :=
            Engine.moved_of_perform done
          exact h.moved quietNow unendedNow moved
        · simp only [Taken.writtenBy, List.append_nil]
          rwa [same]
      · rename_i waits
        simp only [waits] at unended
        exact ih h quietLater unended

theorem reading (h : Shows base thread .read txn own e) :
    e.view (some txn) = .ok base.engine.committed := by
  obtain ⟨s, found, sees⟩ := h.shown
  cases sees with
  | read => exact Engine.view_eq_ok.mpr ⟨.read, found⟩

theorem writing (h : Shows base thread .write txn own e) :
    ∃ s, e.view (some txn) = .ok s ∧ Yields base thread own s := by
  obtain ⟨s, found, sees⟩ := h.shown
  cases sees with
  | write yields => exact ⟨s, Engine.view_eq_ok.mpr ⟨.write, found⟩, yields⟩

end Shows

/-- A transaction that was begun in a run and that no served call of the run has ended. -/
structure Begun (start : Machine) (calls : List (ThreadId × Call)) (mode : TxnMode) where
  before : List (ThreadId × Call)
  thread : ThreadId
  after : List (ThreadId × Call)
  split : calls = before ++ (thread, .begin mode) :: after
  txn : Handle
  opened : Machine
  began : (start.run before).2.step thread (.begin mode) = some (.ok txn, opened)
  unended : ∀ taken ∈ (opened.run after).1, taken.ends txn = false

namespace Begun

variable {start : Machine} {calls : List (ThreadId × Call)}

/-- The machine it began on. -/
def origin (t : Begun start calls mode) : Machine :=
  (start.run t.before).2

/-- The writes made through it, in order, each as the call it is alone. -/
def writes (t : Begun start calls mode) : List Served :=
  (t.opened.run t.after).1.flatMap (Taken.writtenBy t.txn)

theorem run_eq (t : Begun start calls mode) : (start.run calls).2 = (t.opened.run t.after).2 := by
  simp only [congrArg start.run t.split, Machine.run_append, Machine.run, t.began]

theorem shows_opened (t : Begun start calls mode) :
    Shows t.origin thread mode t.txn [] t.opened.engine := by
  rcases Machine.step_eq_some t.began with ⟨txn, answered, done, -⟩ | ⟨why, refused, -⟩
  · cases answered
    obtain ⟨free, named, opened⟩ := Engine.begin_eq_ok.mp done
    rw [named, opened]
    refine ⟨⟨rfl, rfl, rfl⟩, Nat.lt_succ_self _, _, Std.ExtTreeMap.getElem?_insert_self, ?_⟩
    cases mode with
    | read => exact .read
    | write => exact .write ⟨t.origin, rfl, rfl, free rfl, ⟨rfl, rfl, rfl⟩⟩
  · cases refused

theorem shows (t : Begun start calls mode) (quiet : ∀ c ∈ calls, c.2.defines = false) :
    Shows t.origin thread mode t.txn t.writes (start.run calls).2.engine := by
  have quietAfter : ∀ c ∈ t.after, c.2.defines = false := by
    intro c member
    refine quiet c ?_
    rw [t.split]
    exact List.mem_append_right _ (List.mem_cons_of_mem _ member)
  rw [t.run_eq]
  exact t.shows_opened.run quietAfter t.unended

end Begun

/-! ## Every open transaction was begun -/

theorem Served.eq_begin {txn : Handle} (begins : served.part = .begins txn) :
    ∃ mode, served = ⟨.begin mode, txn⟩ := by
  obtain ⟨call, answer⟩ := served
  cases call with
  | begin mode =>
      cases begins
      exact ⟨mode, rfl⟩
  | _ => cases begins

theorem Engine.began_or_open (served : Served) {t : OpenTxn}
    (quiet : served.call.defines = false)
    (done : e.perform thread served.call = .ok (served.answer, e'))
    (found : e'.txns[txn]? = some t) :
    served = ⟨.begin t.mode, txn⟩ ∨
      ∃ s, e.txns[txn]? = some ⟨t.mode, s⟩ ∧ served.ends txn = false := by
  have erased : ∀ {other : Handle}, (e.txns.erase other)[txn]? = some t →
      e.txns[txn]? = some t ∧ other ≠ txn := by
    intro other left
    grind
  cases moved_of_perform done with
  | defined defines => simp [quiet] at defines
  | read plays => exact .inr ⟨t.state, found, by simp [Served.ends, plays]⟩
  | numbered plays grows => exact .inr ⟨t.state, found, by simp [Served.ends, plays]⟩
  | began plays free =>
      obtain ⟨mode, rfl⟩ := Served.eq_begin plays
      obtain ⟨-, -, opened⟩ := begin_eq_ok.mp done
      rw [opened, Std.ExtTreeMap.getElem?_insert] at found
      split at found
      · rename_i named
        cases found
        exact .inl (by rw [Std.compare_eq_iff_eq.mp named])
      · exact .inr ⟨t.state, found, rfl⟩
  | committed plays found' =>
      obtain ⟨before, other⟩ := erased found
      exact .inr ⟨t.state, before, by simp [Served.ends, plays, other]⟩
  | aborted plays found' =>
      obtain ⟨before, other⟩ := erased found
      exact .inr ⟨t.state, before, by simp [Served.ends, plays, other]⟩
  | closed plays found' =>
      obtain ⟨before, other⟩ := erased found
      refine .inr ⟨t.state, before, ?_⟩
      rcases plays with plays | plays <;> simp [Served.ends, plays, other]
  | wrote plays wrote turns covers grows =>
      have kept : served.ends txn = false := by simp [Served.ends, plays]
      cases wrote with
      | alone free => exact .inr ⟨t.state, found, kept⟩
      | inTxn before =>
          rw [recount, Std.ExtTreeMap.getElem?_insert] at found
          split at found
          · rename_i named
            cases found
            obtain rfl := Std.compare_eq_iff_eq.mp named
            exact .inr ⟨_, before, kept⟩
          · exact .inr ⟨t.state, found, kept⟩

namespace Begun

variable {m m' : Machine} {call : Call} {result : Except Refusal call.Answer}
  {calls : List (ThreadId × Call)}

/-- A transaction begun later in a run, once the first call has left the machine at `m'`. -/
def later (passes : ∀ calls, (m.run ((thread, call) :: calls)).2 = (m'.run calls).2)
    (t : Begun m' calls mode) : Begun m ((thread, call) :: calls) mode where
  before := (thread, call) :: t.before
  thread := t.thread
  after := t.after
  split := congrArg ((thread, call) :: ·) t.split
  txn := t.txn
  opened := t.opened
  began := by
    rw [passes]
    exact t.began
  unended := t.unended

theorem of_open {t : OpenTxn} (quiet : ∀ c ∈ calls, c.2.defines = false)
    (found : (m.run calls).2.engine.txns[txn]? = some t) :
    (∃ b : Begun m calls t.mode, b.txn = txn) ∨
      (∃ s, m.engine.txns[txn]? = some ⟨t.mode, s⟩) ∧
        ∀ taken ∈ (m.run calls).1, taken.ends txn = false := by
  induction calls generalizing m with
  | nil => exact .inr ⟨⟨t.state, found⟩, by simp [Machine.run]⟩
  | cons first calls ih =>
      obtain ⟨thread', call⟩ := first
      have quietNow : call.defines = false := quiet _ List.mem_cons_self
      have quietLater : ∀ c ∈ calls, c.2.defines = false :=
        fun c member => quiet c (List.mem_cons_of_mem _ member)
      cases step : m.step thread' call with
      | none =>
          simp only [Machine.run, step] at found ⊢
          rcases ih quietLater found with ⟨b, named⟩ | kept
          · exact .inl ⟨b.later fun calls => by simp only [Machine.run, step], named⟩
          · exact .inr kept
      | some taken =>
          obtain ⟨result, m'⟩ := taken
          simp only [Machine.run, step, List.mem_cons, forall_eq_or_imp] at found ⊢
          rcases ih quietLater found with ⟨b, named⟩ | ⟨⟨s, later⟩, unended⟩
          · exact .inl ⟨b.later fun calls => by simp only [Machine.run, step], named⟩
          · rcases Machine.step_eq_some step with ⟨answer, rfl, done, -⟩ | ⟨why, rfl, same⟩
            · rcases Engine.began_or_open ⟨call, answer⟩ quietNow done later with
                begins | ⟨s', before, unendedNow⟩
              · cases begins
                exact .inl ⟨⟨[], thread', calls, rfl, txn, m', step, unended⟩, rfl⟩
              · exact .inr ⟨⟨s', before⟩, unendedNow, unended⟩
            · rw [same] at later
              exact .inr ⟨⟨s, later⟩, rfl, unended⟩

end Begun

/-! ## Every read is isolated -/

/-- What the reads are answered that are made after a run. -/
structure Isolated (start : Machine) (calls : List (ThreadId × Call)) : Prop where
  /-- Every open transaction was begun in the run. -/
  begun {txn : Handle} {t : OpenTxn} : (start.run calls).2.engine.txns[txn]? = some t →
    ∃ b : Begun start calls t.mode, b.txn = txn
  /-- Through a read transaction: as without one on the machine it began on. -/
  reading (t : Begun start calls .read) (reader : ThreadId) (r : Read) :
    (start.run calls).2.answer reader (some t.txn) r = t.origin.answer reader none r
  /-- Through a write transaction: as after the writes made through it, and no other, were made
      again alone on the machine it began on, where they are answered as they were. -/
  writing (t : Begun start calls .write) (writer reader : ThreadId) (r : Read) :
    let alone := t.origin.run (t.writes.map (Served.madeBy writer))
    alone.1 = t.writes.map (Served.takenBy writer) ∧
      (start.run calls).2.answer reader (some t.txn) r = alone.2.answer reader none r
  /-- Without a transaction: as after the committed writes, and no other, were made again alone. -/
  outside (writer reader : ThreadId) (r : Read) :
    let writes := committedWrites (start.run calls).1
    let alone := start.run (writes.map (Served.madeBy writer))
    alone.1 = writes.map (Served.takenBy writer) ∧
      (start.run calls).2.answer reader none r = alone.2.answer reader none r

namespace Engine.Blank

theorem exclusive (h : e.Blank) : e.Exclusive := by
  refine ⟨?_, ?_, ?_⟩ <;> simp [h.txns]

theorem serial {start : Machine} (h : start.engine.Blank) :
    Serial start thread {} start.engine := by
  refine ⟨⟨start, rfl, rfl, h.writer, ⟨rfl, rfl, rfl⟩⟩, ?_, ?_⟩ <;> simp [h.txns]

end Engine.Blank

theorem Yields.answer_eq {start m : Machine} {writes : List Served} {txn : Option Handle}
    {reader : ThreadId} (h : Yields start thread writes s)
    (schema : start.engine.SameSchema m.engine) (seen : m.engine.view txn = .ok s) (r : Read) :
    let alone := start.run (writes.map (Served.madeBy thread))
    alone.1 = writes.map (Served.takenBy thread) ∧
      m.answer reader txn r = alone.2.answer reader none r := by
  obtain ⟨last, ran, committed, -, kept⟩ := h
  have alike : last.engine.SameSchema m.engine :=
    ⟨schema.arrays.trans kept.arrays.symm, schema.entities.trans kept.entities.symm,
      schema.relations.trans kept.relations.symm⟩
  have same : m.engine.view txn = last.engine.view none := by
    rw [seen, ← committed]
    rfl
  simp only [ran, true_and]
  exact Machine.answer_congr alike same r

/-- Snapshot isolation. Threads make any calls in any order on a new engine for which only entity
    types and relations were defined. -/
theorem run_isolated {arrays : Bool} {definitions calls : List (ThreadId × Call)}
    (defining : ∀ c ∈ definitions, c.2.defines = true)
    (quiet : ∀ c ∈ calls, c.2.defines = false) :
    Isolated ((Machine.fresh arrays).run definitions).2 calls := by
  have blank : ((Machine.fresh arrays).run definitions).2.engine.Blank :=
    Machine.run_keeps (Q := (Call.defines · = true)) Engine.Blank.defined ⟨rfl, rfl, rfl⟩ defining
  generalize ((Machine.fresh arrays).run definitions).2 = start at blank
  have same : start.engine.SameSchema start.engine := ⟨rfl, rfl, rfl⟩
  refine ⟨?begun, ?reading, ?writing, ?outside⟩
  case begun =>
    intro txn t found
    rcases Begun.of_open quiet found with begun | ⟨⟨s, before⟩, -⟩
    · exact begun
    · simp [blank.txns] at before
  case reading =>
    intro t reader r
    have shows : Shows t.origin reader .read t.txn t.writes (start.run calls).2.engine :=
      t.shows quiet
    exact Machine.answer_congr shows.schema shows.reading r
  case writing =>
    intro t writer reader r
    have shows : Shows t.origin writer .write t.txn t.writes (start.run calls).2.engine :=
      t.shows quiet
    obtain ⟨s, seen, yields⟩ := shows.writing
    exact yields.answer_eq shows.schema seen r
  case outside =>
    intro writer reader r
    have serial : Serial start writer ((start.run calls).1.foldl Ledger.note {})
        (start.run calls).2.engine := blank.serial.run blank.exclusive same quiet
    have schema : start.engine.SameSchema (start.run calls).2.engine :=
      Machine.run_keeps (P := start.engine.SameSchema) (Q := (Call.defines · = false))
        (fun kept quiet done => kept.moved quiet (Engine.moved_of_perform done)) same quiet
    exact serial.done.answer_eq schema rfl r

/-- A read transaction and then a write transaction begin on a stored note, which the write
    transaction changes before another thread's write has to wait for it. Each read is answered by
    its own snapshot, and the one outside both by the committed note. -/
theorem interleaved_isolated :
    let start := ((Machine.fresh true).run
      [(0, .defineEntity 1 "Note"), (0, .defineRelation 2 1 1)]).2
    let calls : List (ThreadId × Call) :=
      [(0, .put none 1 5 [1] .put), (2, .begin .read), (0, .put none 1 5 [2] .update),
        (0, .begin .write), (0, .put (some 2) 1 5 [3] .put), (1, .put none 1 5 [4] .put),
        (0, .relPut (some 2) 2 5 5)]
    ∃ (reading : Begun start calls .read) (writing : Begun start calls .write),
      reading.txn = 1 ∧ writing.txn = 2 ∧ writing.writes.length = 2 ∧
      (start.run calls).2.answer 7 (some 1) (.get 1 5) = some (.ok [1]) ∧
      (start.run calls).2.answer 7 (some 2) (.get 1 5) = some (.ok [3]) ∧
      (start.run calls).2.answer 7 none (.get 1 5) = some (.ok [2]) ∧
      Isolated start calls := by
  intro start calls
  have isolated : Isolated start calls := run_isolated (by decide) (by decide)
  let reading : Begun start calls .read :=
    ⟨[(0, .put none 1 5 [1] .put)], 2, _, rfl, 1, _, rfl, by decide +kernel⟩
  let writing : Begun start calls .write :=
    ⟨[(0, .put none 1 5 [1] .put), (2, .begin .read), (0, .put none 1 5 [2] .update)], 0, _, rfl,
      2, _, rfl, by decide +kernel⟩
  exact ⟨reading, writing, rfl, rfl, rfl, rfl, rfl, rfl, isolated⟩

end ObjectStore
