import ObjectStore.Proofs.Engine.Isolation
import ObjectStore.Proofs.Engine.Validity
import ObjectStore.Proofs.Store.Allocation

/-! # The writer slot and the handles

Whatever calls any threads make, the writer slot, the open transactions and the handles stay
consistent with the history of the run (`Books`): the slot is taken by exactly the thread on which
the one open write transaction was begun, every handle was issued once, and a handle that was ended
stays ended. Each call that is served adds one entry, by the few cases of `Engine.Moved`.
-/

namespace ObjectStore

variable {e e' : Engine} {thread thread' : ThreadId} {mode mode' : TxnMode} {txn : Handle}
  {call : Call} {history : List Taken}

namespace Engine

/-- A write transaction is open under a handle. -/
def Writing (e : Engine) (txn : Handle) : Prop :=
  ∃ s, e.txns[txn]? = some ⟨.write, s⟩

theorem writing_insert (exclusive : e.Exclusive) {writer : Option ThreadId} {counter : Handle} :
    Writing { e with
      txns := e.txns.insert e.nextHandle ⟨mode, e.committed⟩
      nextHandle := counter
      writer } txn ↔ txn = e.nextHandle ∧ mode = .write ∨ e.Writing txn := by
  have below : ∀ {t : OpenTxn}, e.txns[txn]? = some t → txn ≠ e.nextHandle :=
    fun found => Nat.ne_of_lt (exclusive.below found)
  simp only [Writing, Std.ExtTreeMap.getElem?_insert, Std.compare_eq_iff_eq]
  constructor
  · rintro ⟨s, found⟩
    split at found
    · rename_i same
      cases found
      exact .inl ⟨same.symm, rfl⟩
    · exact .inr ⟨s, found⟩
  · rintro (⟨rfl, rfl⟩ | ⟨s, found⟩)
    · exact ⟨_, if_pos rfl⟩
    · exact ⟨s, by rw [if_neg (below found).symm]; exact found⟩

end Engine

/-! ## The books of a run -/

namespace Taken

/-- A transaction was begun on a thread. -/
def began (thread : ThreadId) (mode : TxnMode) (txn : Handle) : Taken :=
  ⟨thread, .begin mode, .ok txn⟩

/-- The part a call played; a refused one played none. -/
def part (taken : Taken) : Served.Part :=
  match taken.result with
  | .ok answer => Served.part ⟨taken.call, answer⟩
  | .error _ => .none

theorem part_began : (began thread mode txn).part = .begins txn := rfl

end Taken

open Taken (began)

/-- What the history of a run says of the engine it left. -/
structure Books (history : List Taken) (e : Engine) : Prop where
  exclusive : e.Exclusive
  /-- The slot is taken for a write transaction. -/
  held {thread : ThreadId} : e.writer = some thread →
    ∃ txn, e.Writing txn ∧ began thread .write txn ∈ history
  /-- A write transaction takes the slot for the thread it was begun on. -/
  holder {txn : Handle} : e.Writing txn →
    ∃ thread, e.writer = some thread ∧ began thread .write txn ∈ history
  issued {thread : ThreadId} {mode : TxnMode} {txn : Handle} : began thread mode txn ∈ history →
    txn < e.nextHandle
  once {thread thread' : ThreadId} {mode mode' : TxnMode} {txn : Handle} :
    began thread mode txn ∈ history → began thread' mode' txn ∈ history → thread = thread'
  ended {taken : Taken} {txn : Handle} : taken ∈ history → taken.ends txn = true →
    txn < e.nextHandle ∧ e.txns[txn]? = none

namespace Books

variable {taken : Taken}

theorem fresh (arrays : Bool) : Books [] { arrays } := by
  refine ⟨?exclusive, ?held, ?holder, ?issued, ?once, ?ended⟩
  case exclusive => exact (Engine.Arises.fresh : Engine.Arises arrays _).exclusive
  case holder =>
    rintro txn ⟨s, found⟩
    simp at found
  all_goals simp

theorem began_of_append (none : ∀ txn, taken.part ≠ .begins txn)
    (member : began thread mode txn ∈ history ++ [taken]) : began thread mode txn ∈ history := by
  rcases List.mem_append.mp member with old | new
  · exact old
  · exact absurd (List.mem_singleton.mp new ▸ Taken.part_began) (none txn)

theorem kept (h : Books history e) (exclusive : e'.Exclusive) (writer : e'.writer = e.writer)
    (counter : e'.nextHandle = e.nextHandle) (writing : ∀ txn, e'.Writing txn ↔ e.Writing txn)
    (closed : ∀ txn : Handle, e.txns[txn]? = none → e'.txns[txn]? = none)
    (begins : ∀ txn, taken.part ≠ .begins txn) (ends : ∀ txn, taken.ends txn = false) :
    Books (history ++ [taken]) e' := by
  refine ⟨exclusive, ?held, ?holder, ?issued, ?once, ?ended⟩
  case held =>
    intro thread occupied
    obtain ⟨txn, working, member⟩ := h.held (writer ▸ occupied)
    exact ⟨txn, (writing txn).mpr working, List.mem_append_left _ member⟩
  case holder =>
    intro txn working
    obtain ⟨thread, occupied, member⟩ := h.holder ((writing txn).mp working)
    exact ⟨thread, writer ▸ occupied, List.mem_append_left _ member⟩
  case issued =>
    intro thread mode txn member
    exact counter ▸ h.issued (began_of_append begins member)
  case once =>
    intro thread mode txn thread' mode' member member'
    exact h.once (began_of_append begins member) (began_of_append begins member')
  case ended =>
    intro other txn member ending
    rcases List.mem_append.mp member with old | new
    · obtain ⟨below, gone⟩ := h.ended old ending
      exact ⟨counter ▸ below, closed txn gone⟩
    · rw [List.mem_singleton.mp new, ends txn] at ending
      cases ending

theorem begun (h : Books history e) (free : mode = .write → e.writer = none) :
    Books (history ++ [began thread mode e.nextHandle]) { e with
      txns := e.txns.insert e.nextHandle ⟨mode, e.committed⟩
      nextHandle := e.nextHandle + 1
      writer := if mode = .write then some thread else e.writer } := by
  have origin : ∀ {thread' mode' txn},
      began thread' mode' txn ∈ history ++ [began thread mode e.nextHandle] →
        began thread' mode' txn ∈ history ∨
          thread' = thread ∧ mode' = mode ∧ txn = e.nextHandle := by
    intro thread' mode' txn member
    rcases List.mem_append.mp member with old | new
    · exact .inl old
    · cases List.mem_singleton.mp new
      exact .inr ⟨rfl, rfl, rfl⟩
  have writing : ∀ {txn}, Engine.Writing { e with
      txns := e.txns.insert e.nextHandle ⟨mode, e.committed⟩
      nextHandle := e.nextHandle + 1
      writer := if mode = .write then some thread else e.writer } txn ↔
        txn = e.nextHandle ∧ mode = .write ∨ e.Writing txn := Engine.writing_insert h.exclusive
  refine ⟨h.exclusive.began free, ?held, ?holder, ?issued, ?once, ?ended⟩
  case held =>
    intro thread' occupied
    cases mode with
    | write =>
        cases occupied
        exact ⟨e.nextHandle, writing.mpr (.inl ⟨rfl, rfl⟩), List.mem_append_right _ (.head _)⟩
    | read =>
        obtain ⟨txn, working, member⟩ := h.held occupied
        exact ⟨txn, writing.mpr (.inr working), List.mem_append_left _ member⟩
  case holder =>
    intro txn working
    rcases writing.mp working with ⟨rfl, rfl⟩ | old
    · exact ⟨thread, rfl, List.mem_append_right _ (.head _)⟩
    · obtain ⟨thread', occupied, member⟩ := h.holder old
      cases mode with
      | write => exact absurd occupied (by simp [free rfl])
      | read => exact ⟨thread', occupied, List.mem_append_left _ member⟩
  case issued =>
    intro thread' mode' txn member
    rcases origin member with old | ⟨-, -, rfl⟩
    · exact Nat.lt_succ_of_lt (h.issued old)
    · exact Nat.lt_succ_self _
  case once =>
    intro thread₁ thread₂ mode₁ mode₂ txn member₁ member₂
    rcases origin member₁ with old₁ | ⟨rfl, -, rfl⟩ <;>
      rcases origin member₂ with old₂ | ⟨rfl, -, new⟩
    · exact h.once old₁ old₂
    · exact absurd (new ▸ h.issued old₁) (Nat.lt_irrefl _)
    · exact absurd (h.issued old₂) (Nat.lt_irrefl _)
    · rfl
  case ended =>
    intro other txn member ending
    rcases List.mem_append.mp member with old | new
    · obtain ⟨below, gone⟩ := h.ended old ending
      refine ⟨Nat.lt_succ_of_lt below, ?_⟩
      grind
    · cases List.mem_singleton.mp new
      cases ending

/-- The end of a transaction, which leaves the slot to the write transaction, if it is another. -/
theorem finished {s : Snapshot} (h : Books history e) (exclusive : e'.Exclusive)
    (found : e.txns[txn]? = some ⟨mode, s⟩) (txns : e'.txns = e.txns.erase txn)
    (counter : e'.nextHandle = e.nextHandle)
    (writer : e'.writer = if mode = .write then none else e.writer)
    (begins : ∀ txn, taken.part ≠ .begins txn)
    (ends : ∀ other, taken.ends other = true → other = txn) :
    Books (history ++ [taken]) e' := by
  have writing : ∀ {other}, e'.Writing other ↔ other ≠ txn ∧ e.Writing other := by
    intro other
    simp only [Engine.Writing, txns]
    grind
  refine ⟨exclusive, ?held, ?holder, ?issued, ?once, ?ended⟩
  case held =>
    intro thread occupied
    cases mode with
    | write => simp [writer] at occupied
    | read =>
        obtain ⟨other, working, member⟩ := h.held (by simpa [writer] using occupied)
        refine ⟨other, writing.mpr ⟨?_, working⟩, List.mem_append_left _ member⟩
        rintro rfl
        obtain ⟨s', found'⟩ := working
        simp [found] at found'
  case holder =>
    intro other working
    obtain ⟨apart, before⟩ := writing.mp working
    obtain ⟨thread, occupied, member⟩ := h.holder before
    refine ⟨thread, ?_, List.mem_append_left _ member⟩
    cases mode with
    | write =>
        obtain ⟨s', found'⟩ := before
        exact absurd (h.exclusive.single found' found) apart
    | read => simpa [writer] using occupied
  case issued =>
    intro thread mode txn member
    exact counter ▸ h.issued (began_of_append begins member)
  case once =>
    intro thread mode txn thread' mode' member member'
    exact h.once (began_of_append begins member) (began_of_append begins member')
  case ended =>
    intro other handle member ending
    rw [txns, counter]
    rcases List.mem_append.mp member with old | new
    · obtain ⟨below, gone⟩ := h.ended old ending
      exact ⟨below, by grind⟩
    · obtain rfl := ends handle (List.mem_singleton.mp new ▸ ending)
      exact ⟨h.exclusive.below found, by grind⟩

theorem defined {served : Served} (h : Books history e) (defines : served.call.defines = true)
    (exclusive : e'.Exclusive) (done : e.perform thread served.call = .ok (served.answer, e')) :
    Books (history ++ [⟨thread, served.call, .ok served.answer⟩]) e' := by
  obtain ⟨entities, relations, rfl⟩ := Engine.eq_of_defines defines done
  obtain ⟨call, answer⟩ := served
  cases call with
  | defineEntity | defineRelation =>
      exact h.kept exclusive rfl rfl (fun _ => .rfl) (fun _ gone => gone) nofun fun _ => rfl
  | _ => cases defines

theorem served {served : Served} (h : Books history e)
    (done : e.perform thread served.call = .ok (served.answer, e')) :
    Books (history ++ [⟨thread, served.call, .ok served.answer⟩]) e' := by
  have exclusive : e'.Exclusive := h.exclusive.perform done
  have part : Taken.part ⟨thread, served.call, .ok served.answer⟩ = served.part := rfl
  have ends : ∀ txn, Taken.ends txn ⟨thread, served.call, .ok served.answer⟩ = served.ends txn :=
    fun _ => rfl
  cases Engine.moved_of_perform done with
  | defined defines => exact h.defined defines exclusive done
  | read plays =>
      exact h.kept exclusive rfl rfl (fun _ => .rfl) (fun _ gone => gone) (by simp [part, plays])
        (by simp [ends, Served.ends, plays])
  | numbered plays grows =>
      exact h.kept exclusive rfl rfl (fun _ => .rfl) (fun _ gone => gone) (by simp [part, plays])
        (by simp [ends, Served.ends, plays])
  | began plays free =>
      obtain ⟨mode, rfl⟩ := Served.eq_begin plays
      obtain ⟨free, -, opened⟩ := Engine.begin_eq_ok.mp done
      rw [opened]
      exact h.begun free
  | committed plays found =>
      exact h.finished exclusive found rfl rfl rfl (by simp [part, plays])
        (by simp [ends, Served.ends, plays])
  | aborted plays found =>
      exact h.finished exclusive found rfl rfl rfl (by simp [part, plays])
        (by simp [ends, Served.ends, plays])
  | closed plays found =>
      refine h.finished exclusive found rfl rfl rfl ?_ ?_ <;>
        rcases plays with plays | plays <;> simp [part, ends, Served.ends, plays]
  | wrote plays wrote turns covers grows =>
      have begins : ∀ txn, Taken.part ⟨thread, served.call, .ok served.answer⟩ ≠ .begins txn := by
        simp [part, plays]
      have unended : ∀ txn,
          Taken.ends txn ⟨thread, served.call, .ok served.answer⟩ = false := by
        simp [ends, Served.ends, plays]
      cases wrote with
      | alone free =>
          exact h.kept exclusive rfl rfl (fun _ => .rfl) (fun _ gone => gone) begins unended
      | inTxn found =>
          refine h.kept exclusive rfl rfl (fun other => ?_) (fun other gone => ?_) begins unended
          · simp only [Engine.Writing, Engine.recount]
            grind
          · simp only [Engine.recount]
            grind

theorem refused {taken : Taken} {why : Refusal} (h : Books history e)
    (refused : taken.result = .error why) : Books (history ++ [taken]) e := by
  refine h.kept h.exclusive rfl rfl (fun _ => .rfl) (fun _ gone => gone) ?_ ?_
  · simp [Taken.part, refused]
  · simp [Taken.ends, refused]

theorem run {m : Machine} {calls : List (ThreadId × Call)} (h : Books history m.engine) :
    Books (history ++ (m.run calls).1) (m.run calls).2.engine := by
  induction calls generalizing m history with
  | nil => simpa only [Machine.run, List.append_nil] using h
  | cons first calls ih =>
      obtain ⟨thread, call⟩ := first
      simp only [Machine.run]
      split
      · rename_i result m' taken
        rw [List.append_cons]
        refine ih ?_
        rcases Machine.step_eq_some taken with ⟨answer, rfl, done, -⟩ | ⟨why, rfl, same⟩
        · exact @served _ _ _ _ ⟨call, answer⟩ h done
        · rw [same]
          exact h.refused rfl
      · exact ih h

theorem writer_iff (h : Books history e) : e.writer = some thread ↔
    ∃ txn, (∀ other, e.Writing other ↔ other = txn) ∧ began thread .write txn ∈ history := by
  constructor
  · intro occupied
    obtain ⟨txn, working, member⟩ := h.held occupied
    refine ⟨txn, fun other => ⟨fun ⟨s, found⟩ => ?_, fun same => same ▸ working⟩, member⟩
    obtain ⟨s', found'⟩ := working
    exact h.exclusive.single found found'
  · rintro ⟨txn, only, member⟩
    obtain ⟨thread', occupied, member'⟩ := h.holder ((only txn).mpr rfl)
    rwa [h.once member member']

end Books

namespace Machine

variable {m : Machine}

/-- How a machine answers after the calls of `history`, where the writer slot and the handles decide
    it. -/
structure Guards (m : Machine) (history : List Taken) : Prop where
  slot {thread : ThreadId} : m.engine.writer = some thread ↔
    ∃ txn, (∀ other, m.engine.Writing other ↔ other = txn) ∧ began thread .write txn ∈ history
  single {txn txn' : Handle} : m.engine.Writing txn → m.engine.Writing txn' → txn = txn'
  /-- A call that needs the slot is refused on the thread that has it, waits for another, and is
  served if the slot is free. -/
  needs {thread : ThreadId} {call : Call} : call.needsSlot = true →
    m.engine.released.Accepts thread call →
    ((∃ why m', m.step thread call = some (.error why, m') ∧ why.status = .illegalState) ↔
        m.engine.writer = some thread) ∧
      (m.step thread call = none ↔ ∃ other, other ≠ thread ∧ m.engine.writer = some other) ∧
      ((∃ answer m', m.step thread call = some (.ok answer, m')) ↔ m.engine.writer = none)
  /-- A handle is issued once. -/
  fresh {thread thread' : ThreadId} {mode mode' : TxnMode} {txn : Handle} {m' : Machine} :
    m.step thread (.begin mode) = some (.ok txn, m') → began thread' mode' txn ∉ history
  /-- A handle that was ended is refused, by a call that is valid otherwise. -/
  ended {taken : Taken} {txn : Handle} {thread : ThreadId} {call : Call} {t : OpenTxn} :
    taken ∈ history → taken.ends txn = true → call.handle? = some txn →
    (m.engine.reopened txn t).Accepts thread call →
    ∃ m', m.step thread call = some (.error (.notOpen txn), m') ∧ m'.engine = m.engine ∧
      (m'.slot thread).last = some ⟨.txnClosed, s!"transaction {txn} is not open"⟩
  /-- An id asked for through such a handle comes back as 0. -/
  zero {taken : Taken} {txn : Handle} {entity : EntityId} {candidate : ObjectId} {t : OpenTxn}
    {h : Host} : taken ∈ history → taken.ends txn = true →
    (m.engine.reopened txn t).Accepts callerThread (.idForPut (some txn) entity candidate) →
    h.faults = [] → h.machine.engine = m.engine →
    ∃ h' : Host, Store.askId (some txn) entity candidate h = (.ok 0, h') ∧
      (h'.machine.slot callerThread).last =
        some ⟨.txnClosed, s!"transaction {txn} is not open"⟩

theorem step_refused {why : Refusal} (refused : m.engine.perform thread call = Engine.refuse why) :
    m.step thread call = some (.error why, m.onSlot thread why.recordIn) := by
  simp only [step, refused, Engine.refuse]

/-- How a call ends that needs the slot and is valid otherwise. -/
theorem step_needs (needs : call.needsSlot = true)
    (valid : m.engine.released.Accepts thread call) :
    (m.engine.writer = none ∧ ∃ answer m', m.step thread call = some (.ok answer, m')) ∨
      (m.engine.writer = some thread ∧
        m.step thread call = some (.error .writerHeld, m.onSlot thread Refusal.writerHeld.recordIn)) ∨
      ∃ other, other ≠ thread ∧ m.engine.writer = some other ∧ m.step thread call = none := by
  cases held : m.engine.writer with
  | none =>
      have same : m.engine.released = m.engine := by rw [Engine.released, ← held]
      obtain ⟨answer, e', done⟩ := same ▸ valid
      exact .inl ⟨rfl, answer, _, step_of_perform done⟩
  | some owner =>
      by_cases own : owner = thread
      · have refused : m.engine.requireWriterFree thread = Engine.refuse .writerHeld := by
          simp only [Engine.requireWriterFree, held, own, if_true]
        exact .inr (.inl ⟨by rw [own], step_refused (Engine.perform_halted needs valid refused)⟩)
      · have waits : m.engine.requireWriterFree thread = .error .waits := by
          simp only [Engine.requireWriterFree, held, own, if_false]
        refine .inr (.inr ⟨owner, own, rfl, ?_⟩)
        simp only [step, Engine.perform_halted needs valid waits]

/-- Whatever calls any threads have made on a new engine, the writer slot belongs to the thread of
    the one open write transaction, and handles are neither issued twice nor served once ended. -/
theorem run_guards (arrays : Bool) (calls : List (ThreadId × Call)) :
    ((fresh arrays).run calls).2.Guards ((fresh arrays).run calls).1 := by
  have blank : Books [] (fresh arrays).engine := Books.fresh arrays
  have books : Books ((fresh arrays).run calls).1 ((fresh arrays).run calls).2.engine := blank.run
  generalize ((fresh arrays).run calls).1 = history at books ⊢
  generalize ((fresh arrays).run calls).2 = m at books ⊢
  refine ⟨books.writer_iff, ?single, ?needs, ?fresh, ?ended, ?zero⟩
  case single =>
    rintro txn txn' ⟨s, found⟩ ⟨s', found'⟩
    exact books.exclusive.single found found'
  case needs =>
    intro thread call needs valid
    rcases step_needs needs valid with ⟨free, answer, m', served⟩ | ⟨held, refused⟩ |
      ⟨other, apart, held, waits⟩
    · simp [free, served]
    · simp [held, refused, Refusal.status]
    · simp [held, waits, apart]
  case fresh =>
    intro thread thread' mode mode' txn m' stepped member
    rcases step_eq_some stepped with ⟨answer, answered, done, -⟩ | ⟨why, failed, -⟩
    · cases answered
      obtain ⟨-, next, -⟩ := Engine.begin_eq_ok.mp done
      exact Nat.lt_irrefl _ (next ▸ books.issued member)
    · cases failed
  case ended =>
    intro taken txn thread call t member ends names valid
    have refused := Engine.perform_closed (books.ended member ends).2 names valid
    refine ⟨_, step_refused refused, rfl, ?_⟩
    rw [slot_onSlot]
    rfl
  case zero =>
    intro taken txn entity candidate t h member ends valid plain same
    have refused := Engine.perform_closed (books.ended member ends).2 rfl valid
    rw [← same] at refused
    obtain ⟨h', asked, -, -, recorded⟩ := Store.askId_run plain refused rfl
    exact ⟨h', asked, recorded⟩

/-- A thread ends the write transaction of another and begins its own: now its writes outside it are
    refused, those of the other wait, and the handle that was ended is of no more use to either. -/
theorem handed_over_guards :
    let ran := (fresh true).run
      [(0, .defineEntity 1 "Note"), (0, .begin .write), (0, .put (some 1) 1 5 [7] .put),
        (1, .put none 1 6 [8] .put), (1, .commit 1), (1, .begin .write)]
    ran.2.engine.writer = some 1 ∧
      (∃ why m', ran.2.step 1 (.put none 1 6 [8] .put) = some (.error why, m') ∧
        why.status = .illegalState) ∧
      ran.2.step 0 (.put none 1 6 [8] .put) = none ∧
      ∃ m', ran.2.step 0 (.get (some 1) 1 5) = some (.error (.notOpen 1), m') ∧
        (m'.slot 0).last = some ⟨.txnClosed, "transaction 1 is not open"⟩ := by
  intro ran
  have guards : ran.2.Guards ran.1 := run_guards true _
  have owner : ran.2.engine.writer = some 1 := rfl
  have valid : ∀ thread, ran.2.engine.released.Accepts thread (.put none 1 6 [8] .put) :=
    fun _ => ⟨_, _, rfl⟩
  have ended : (⟨1, .commit 1, .ok ()⟩ : Taken) ∈ ran.1 := List.mem_of_getElem? (i := 3) rfl
  have reads : (ran.2.engine.reopened 1 ⟨.read, ran.2.engine.committed⟩).Accepts 0
      (.get (some 1) 1 5) := ⟨[7], _, rfl⟩
  obtain ⟨m', refused, -, recorded⟩ := guards.ended ended rfl rfl reads
  exact ⟨owner, (guards.needs rfl (valid 1)).1.mpr owner,
    (guards.needs rfl (valid 0)).2.1.mpr ⟨1, by decide, owner⟩, m', refused, recorded⟩

end Machine
end ObjectStore

