import ObjectStore.Proofs.Store.Atomicity
import ObjectStore.Proofs.Store.WriteCalls

/-! # Deferred writes do what writes at once do

One session defers its writes, another makes the same calls at once, in the same order. However the
worker's steps fall between the calls, the two stay abreast: what the first session will have
settled is the engine of the second (`Session.Abreast`). So a deferred call draws the id that the
other draws, although it cannot know yet what will be stored, and once the worker is done the two
engines are the same.

The calls end alike too, but where an engine write is refused: then the call made at once fails,
while the deferred one has been answered, and the status is among the failures of the worker.
-/

namespace ObjectStore

open Catalog

namespace WriteCall

variable {c : WriteCall} {s s' : Session} {α β : Type}

/-- Run a program on the object of a call: how it ends, the object and the session afterwards. -/
def on (c : WriteCall) (program : Editing c.Object α) (s : Session) :
    Except StoreError α × c.Object × Session :=
  Runs.run program.run (c.object, s)

theorem on_bind_eq {program : Editing c.Object α} {f : α → Editing c.Object β} :
    c.on (program >>= f) s =
      Runs.run (ExceptT.bindCont f (c.on program s).1) (c.on program s).2 :=
  Runs.run_bind program.run (ExceptT.bindCont f) (c.object, s)

theorem on_bind {program : Editing c.Object α} {f : α → Editing c.Object β} {a : α}
    (ran : c.on program s = (.ok a, c.object, s')) : c.on (program >>= f) s = c.on (f a) s' := by
  rw [on_bind_eq, ran]
  rfl

theorem on_bind_error {program : Editing c.Object α} {f : α → Editing c.Object β}
    {why : StoreError} {object : c.Object} (ran : c.on program s = (.error why, object, s')) :
    c.on (program >>= f) s = (.error why, object, s') := by
  rw [on_bind_eq, ran]
  rfl

theorem on_ends {program : Editing c.Object α} {v v' : Store × Engine} {r : Except StoreError α}
    {object : c.Object} (shows : Viewed.Shows s v)
    (ends : Ends program (c.object, v) r (object, v')) :
    ∃ s', c.on program s = (r, object, s') ∧ Viewed.Shows s' v' := by
  obtain ⟨w, ⟨same, shown⟩, rfl, rfl⟩ := ends (c.object, s) ⟨rfl, shows⟩
  exact ⟨_, Prod.ext rfl (Prod.ext same rfl), shown⟩

theorem on_leads {program : StoreM α} {v : Store × Engine}
    {Q : Except StoreError α → Store × Engine → Prop} (shows : Viewed.Shows s v)
    (leads : Leads program v Q) : ∃ r s' v',
      c.on (Editing.ofStore program) s = (r, c.object, s') ∧ Viewed.Shows s' v' ∧ Q r v' := by
  obtain ⟨v', shown, holds⟩ := leads s shows
  exact ⟨_, _, v', rfl, shown, holds⟩

/-- How a call ends that is made at once, how it ends when it is deferred, and the status that the
    worker fails with, if it does. -/
inductive Pairs (c : WriteCall) (n : Session) : Except StoreError c.Answer × c.Object →
    Except StoreError c.Answer × c.Object → Option Status → Prop where
  /-- Both fail before the engine write. -/
  | before {why : StoreError} {n₁ : Session} :
      c.on c.prepare n = (.error why, c.object, n₁) →
      Pairs c n (.error why, c.object) (.error why, c.object) none
  /-- The engine write fails. -/
  | refused {p : Prepared} {n₁ n₂ n₃ : Session} {operation message : String} {status : Status}
      {answer : c.Answer} :
      c.on c.prepare n = (.ok p, c.object, n₁) →
      c.on (Editing.ofStore (c.commit p)) n₁ =
        (.error (.engine operation status message), c.object, n₂) →
      c.on (c.finish p) n₂ = (.ok answer, c.object, n₃) →
      Pairs c n (.error (.engine operation status message), c.object) (.ok answer, c.object)
        (some status)
  /-- The engine write is made; both end in what comes after it. -/
  | made {p : Prepared} {n₁ n₂ n₃ : Session} {r : Except StoreError c.Answer}
      {object : c.Object} :
      c.on c.prepare n = (.ok p, c.object, n₁) →
      c.on (Editing.ofStore (c.commit p)) n₁ = (.ok (), c.object, n₂) →
      c.on (c.finish p) n₂ = (r, object, n₃) →
      Pairs c n (r, object) (r, object) none

namespace Pairs

variable {now later : Except StoreError c.Answer × c.Object} {status? : Option Status}

/-- A deferred call fails as the one made at once does, but where the engine write fails. -/
theorem failed_iff (h : c.Pairs s now later status?) :
    Failed later.1 ↔ Failed now.1 ∧ status? = none := by
  cases h with
  | before | made => simp only [and_true]
  | refused => simp [Failed]

theorem answers {answer : c.Answer} (h : c.Pairs s now later status?) (ok : now.1 = .ok answer) :
    later = now := by
  cases h with
  | before | made => rfl
  | refused => cases ok

end Pairs

end WriteCall

namespace Session

variable {s s' n : Session}

theorem Running.steady (running : s.Running) (free : s.host.machine.engine.writer = none)
    (idle : s.store.queue.pending = [])
    (taking : s.store.closed = false → s.store.queue.shut = false) : s.Steady := by
  obtain ⟨arrays, arises⟩ := running.engine
  refine ⟨running.faults, free, arises.numbered, ?_, taking⟩
  rw [idle]
  exact fun write member => absurd member List.not_mem_nil

theorem steady_of_openOn {arrays : Bool} {model : Model} {config : Config}
    (opened : (openOn { machine := .fresh arrays } model config).1 = .ok s) : s.Steady := by
  have running := running_of_openOn opened
  obtain ⟨e, ⟨-, rfl⟩, leads⟩ := @Store.openOn_leads { arrays } model config
    { machine := .fresh arrays } ⟨rfl, rfl⟩
  simp only [openOn] at opened
  generalize ran : (Store.openOn model config).run { machine := .fresh arrays } = ended at opened
  rw [show Runs.run (Store.openOn model config).run { machine := .fresh arrays } = ended
    from ran] at leads
  rcases ended with ⟨why | store, host⟩ <;> cases opened
  obtain ⟨opened, extended, -⟩ := leads store rfl
  have empty : store.queue = {} := opened.queue
  refine running.steady extended.writer ?_ ?_
  · exact congrArg Queue.pending empty
  · exact fun _ => congrArg Queue.shut empty

theorem Steady.called {calls : List (ThreadId × Call)} (steady : s.Steady)
    (free : (s.host.machine.run calls).2.engine.writer = none) :
    Steady { s with host := { s.host with machine := (s.host.machine.run calls).2 } } := by
  refine ⟨steady.faults, free, ?_, ?_, steady.taking⟩
  · exact Machine.run_keeps (Q := fun _ => True) (fun numbered _ done => numbered.perform done)
      steady.numbered fun _ _ => trivial
  · exact fun write member => (steady.covered write member).mono fun _ => Machine.lastId_le_run

/-- Another session has at once what the deferring one will have settled. -/
structure Abreast (s n : Session) : Prop where
  faults : n.host.faults = []
  engine : n.host.machine.engine = s.settled
  closed : n.store.closed = s.store.closed

/-- A deferring session and one abreast of it go on together. -/
structure Advances (s s' n' : Session) (status? : Option Status) : Prop where
  steady : s'.Steady
  abreast : s'.Abreast n'
  told : s'.told = s.told ++ status?.toList.map some

theorem Abreast.advances {n' : Session} {status? : Option Status} (abreast : s.Abreast n)
    (steady : s'.Steady) (told : s'.told = s.told ++ status?.toList.map some)
    (closed : s'.store.closed = s.store.closed)
    (shows : Viewed.Shows n' (n.store, s'.settled)) : s.Advances s' n' status? := by
  refine ⟨steady, ⟨shows.1.1, shows.1.2, ?_⟩, told⟩
  rw [closed, shows.2]
  exact abreast.closed

section Queues

variable {sequences : Std.ExtTreeMap EntityId ObjectId} {more : List QueuedWrite}

theorem Steady.queues (steady : s.Steady)
    (shows : Viewed.Shows s'
      ({ s.store with
          queue := { s.store.queue with pending := s.store.queue.pending ++ more } },
        { s.host.machine.engine with sequences }))
    (grown : ∀ entity, s.host.machine.engine.lastId entity ≤
      ({ s.host.machine.engine with sequences } : Engine).lastId entity)
    (covered : ∀ write ∈ more, write.Covered { s.host.machine.engine with sequences }) :
    let later := QueuedWrite.settle s.host.machine.engine s.settled.committed more
    s'.Steady ∧ s'.settled = { s.settled with sequences, committed := later.1 } ∧
      s'.told = s.told ++ later.2.map some ∧ s'.store.closed = s.store.closed := by
  obtain ⟨⟨faults, engine⟩, store⟩ := shows
  have pending : s'.store.queue.pending = s.store.queue.pending ++ more := by rw [store]
  have failures : s'.store.queue.failures = s.store.queue.failures := by rw [store]
  have closed : s'.store.closed = s.store.closed := by rw [store]
  have shut : s'.store.queue.shut = s.store.queue.shut := by rw [store]
  have same (snapshot : Snapshot) (writes : List QueuedWrite) :
      QueuedWrite.settle { s.host.machine.engine with sequences } snapshot writes =
        QueuedWrite.settle s.host.machine.engine snapshot writes :=
    QueuedWrite.settle_congr ⟨rfl, rfl, rfl⟩
  refine ⟨⟨faults, ?_, ?_, ?_, ?_⟩, ?_, ?_, closed⟩
  · rw [engine]
    exact steady.free
  · rw [engine]
    exact steady.numbered.mono rfl rfl grown
  · rw [engine, pending]
    intro write member
    cases List.mem_append.mp member with
    | inl before => exact (steady.covered write before).mono grown
    | inr new => exact covered write new
  · rw [closed, shut]
    exact steady.taking
  · simp only [settled, engine, pending, same, QueuedWrite.settle_append]
  · simp only [told, settled, engine, pending, failures, same, QueuedWrite.settle_append,
      List.map_append, List.append_assoc]

end Queues

end Session

/-! ## One call -/

namespace WriteCall

variable {c : WriteCall} {s n : Session} {sequences : Std.ExtTreeMap EntityId ObjectId}

theorem later_fails {why : StoreError} (simple : c.Simple) (steady : s.Steady)
    (prepares : c.Prepares s.store.closed s.host.machine.engine (.error why) sequences) :
    ∃ s', c.on c.later s = (.error why, c.object, s') ∧ s'.Steady ∧
      s'.settled = { s.settled with sequences } ∧ s'.told = s.told ∧
      s'.store.closed = s.store.closed := by
  obtain ⟨s', prepared, shown⟩ := on_ends ⟨⟨steady.faults, rfl⟩, rfl⟩
    (prepares.ends s.store s.host.machine.engine.committed rfl)
  obtain ⟨kept, settled, told, closed⟩ := @Session.Steady.queues s s' sequences [] steady
    (by simpa only [List.append_nil] using shown) prepares.grown
    fun write member => absurd member List.not_mem_nil
  refine ⟨s', ?_, kept, settled, by simpa [QueuedWrite.settle] using told, closed⟩
  rw [later_eq simple]
  exact on_bind_error prepared

theorem failed_advances {why : StoreError} (simple : c.Simple) (steady : s.Steady)
    (abreast : s.Abreast n)
    (prepares : c.Prepares s.store.closed s.host.machine.engine (.error why) sequences) :
    ∃ s' n', c.on c.later s = (.error why, c.object, s') ∧
      c.on c.atOnce n = (.error why, c.object, n') ∧
      c.Pairs n (.error why, c.object) (.error why, c.object) none ∧ s.Advances s' n' none := by
  obtain ⟨s', later, kept, settled, told, closed⟩ := later_fails simple steady prepares
  obtain ⟨n', prepared, shown⟩ := on_ends ⟨⟨abreast.faults, abreast.engine⟩, rfl⟩
    (prepares.ends n.store s.settled.committed abreast.closed)
  refine ⟨s', n', later, ?_, .before prepared, abreast.advances kept ?_ closed ?_⟩
  · rw [atOnce_eq simple]
    exact on_bind_error prepared
  · simpa using told
  · rw [settled]
    exact shown

section Written

variable {p : Prepared} (steady : s.Steady)
  (prepares : c.Prepares s.store.closed s.host.machine.engine (.ok p) sequences)
include steady prepares

theorem write_made {after : Snapshot}
    (done : (c.write p).effect s.host.machine.engine s.settled.committed = .ok after) :
    ∃ answer, ({ s.settled with sequences } : Engine).perform callerThread (c.write p).call =
      .ok (answer, { s.settled with sequences, committed := after }) := by
  have free : ({ s.settled with sequences } : Engine).writer = none := steady.free
  exact Engine.perform_effect free (steady.numbered_settled.mono rfl rfl prepares.grown)
    ((prepares.covered rfl).mono fun _ => Std.le_refl _)
    ((QueuedWrite.effect_congr ⟨rfl, rfl, rfl⟩).trans done)

theorem write_refused {why : Refusal}
    (refused : (c.write p).effect s.host.machine.engine s.settled.committed = .error why) :
    ({ s.settled with sequences } : Engine).perform callerThread (c.write p).call =
      .error (.refused why) := by
  have free : ({ s.settled with sequences } : Engine).writer = none := steady.free
  exact Engine.refused_effect free (steady.numbered_settled.mono rfl rfl prepares.grown)
    ((prepares.covered rfl).mono fun _ => Std.le_refl _)
    ((QueuedWrite.effect_congr ⟨rfl, rfl, rfl⟩).trans refused)

end Written

section Queued

variable {p : Prepared} {r : Except StoreError c.Answer} {object : c.Object}
  (finishes : ∀ v : Store × Engine, Ends (c.finish p) (c.object, v) r (object, v))
include finishes

theorem later_queues (simple : c.Simple) (steady : s.Steady)
    (prepares : c.Prepares s.store.closed s.host.machine.engine (.ok p) sequences) :
    let later := QueuedWrite.settle s.host.machine.engine s.settled.committed [c.write p]
    ∃ s', c.on c.later s = (r, object, s') ∧ s'.Steady ∧
      s'.settled = { s.settled with sequences, committed := later.1 } ∧
      s'.told = s.told ++ later.2.map some ∧ s'.store.closed = s.store.closed := by
  obtain ⟨s₁, prepared, shown⟩ := on_ends ⟨⟨steady.faults, rfl⟩, rfl⟩
    (prepares.ends s.store s.host.machine.engine.committed rfl)
  obtain ⟨s₂, queued, shown⟩ := on_ends (c := c) shown
    (Ends.ofStore (Store.submit_ends (steady.taking (prepares.opened rfl))))
  obtain ⟨s', ended, shown⟩ := on_ends shown (finishes _)
  have covered : ∀ write ∈ [c.write p],
      write.Covered { s.host.machine.engine with sequences } := by
    intro write member
    rw [List.mem_singleton.mp member]
    exact prepares.covered rfl
  refine ⟨s', ?_, steady.queues shown prepares.grown covered⟩
  rw [later_eq simple, on_bind prepared]
  exact (on_bind queued).trans ended

variable (simple : c.Simple) (steady : s.Steady) (abreast : s.Abreast n)
  (prepares : c.Prepares s.store.closed s.host.machine.engine (.ok p) sequences)
include simple steady abreast prepares

theorem made_advances {after : Snapshot}
    (done : (c.write p).effect s.host.machine.engine s.settled.committed = .ok after) :
    ∃ s' n', c.on c.later s = (r, object, s') ∧ c.on c.atOnce n = (r, object, n') ∧
      c.Pairs n (r, object) (r, object) none ∧ s.Advances s' n' none := by
  obtain ⟨s', later, kept, settled, told, closed⟩ := later_queues finishes simple steady prepares
  obtain ⟨n₁, prepared, shown⟩ := on_ends ⟨⟨abreast.faults, abreast.engine⟩, rfl⟩
    (prepares.ends n.store s.settled.committed abreast.closed)
  obtain ⟨answer, made⟩ := write_made steady prepares done
  obtain ⟨n₂, committed, shown⟩ := on_ends (c := c) shown (Ends.ofStore (commit_served made))
  obtain ⟨n', ended, shown⟩ := on_ends shown (finishes _)
  simp only [QueuedWrite.settle, done] at settled told
  rw [← settled] at shown
  refine ⟨s', n', later, ?_, .made prepared committed ended,
    abreast.advances kept told closed shown⟩
  rw [atOnce_eq simple, on_bind prepared]
  exact (on_bind committed).trans ended

end Queued

/-- An object that draws a new id is never refused, so that a deferred call whose write will be
    refused has nothing left to fail of. -/
theorem refused_advances {p : Prepared} {why : Refusal} (simple : c.Simple) (steady : s.Steady)
    (abreast : s.Abreast n)
    (prepares : c.Prepares s.store.closed s.host.machine.engine (.ok p) sequences)
    (refused : (c.write p).effect s.host.machine.engine s.settled.committed = .error why) :
    ∃ operation message answer s' n', c.on c.later s = (.ok answer, c.object, s') ∧
      c.on c.atOnce n = (.error (.engine operation why.status message), c.object, n') ∧
      c.Pairs n (.error (.engine operation why.status message), c.object) (.ok answer, c.object)
        (some why.status) ∧ s.Advances s' n' (some why.status) := by
  obtain ⟨r, object, finishes, unchanged⟩ := c.finish_ends p
  obtain ⟨⟨answer, rfl⟩, rfl⟩ : (∃ answer, r = .ok answer) ∧ object = c.object := by
    by_cases same : p.id = p.current
    · exact unchanged same
    · obtain ⟨after, done⟩ := prepares.unused rfl same steady.numbered_settled.committed
      rw [refused] at done
      cases done
  obtain ⟨s', later, kept, settled, told, closed⟩ := later_queues finishes simple steady prepares
  obtain ⟨n₁, prepared, shown⟩ := on_ends ⟨⟨abreast.faults, abreast.engine⟩, rfl⟩
    (prepares.ends n.store s.settled.committed abreast.closed)
  obtain ⟨_, n₂, _, committed, shown, ⟨operation, message, rfl⟩, rfl⟩ :=
    on_leads (c := c) shown (commit_refused (write_refused steady prepares refused))
  obtain ⟨n₃, ended, -⟩ := on_ends shown (finishes _)
  simp only [QueuedWrite.settle, refused] at settled told
  have shown : Viewed.Shows n₂ (n.store, s'.settled) := by
    rw [settled]
    exact shown
  refine ⟨operation, message, answer, s', n₂, later, ?_, .refused prepared committed ended,
    abreast.advances kept told closed shown⟩
  rw [atOnce_eq simple, on_bind prepared]
  exact on_bind_error committed

theorem pairs {s n : Session} (simple : c.Simple) (steady : s.Steady) (abreast : s.Abreast n) :
    let later := c.on c.later s
    let now := c.on c.atOnce n
    ∃ status?, c.Pairs n (now.1, now.2.1) (later.1, later.2.1) status? ∧
      s.Advances later.2.2 now.2.2 status? := by
  obtain ⟨r, sequences, prepares⟩ := c.prepares s.store.closed s.host.machine.engine
  cases r with
  | error why =>
      obtain ⟨s', n', later, now, pairs, advances⟩ :=
        failed_advances simple steady abreast prepares
      rw [later, now]
      exact ⟨none, pairs, advances⟩
  | ok p =>
      cases ended : (c.write p).effect s.host.machine.engine s.settled.committed with
      | ok after =>
          obtain ⟨r, object, finishes, -⟩ := c.finish_ends p
          obtain ⟨s', n', later, now, pairs, advances⟩ :=
            made_advances finishes simple steady abreast prepares ended
          rw [later, now]
          exact ⟨none, pairs, advances⟩
      | error why =>
          obtain ⟨operation, message, answer, s', n', later, now, pairs, advances⟩ :=
            refused_advances simple steady abreast prepares ended
          rw [later, now]
          exact ⟨some why.status, pairs, advances⟩

end WriteCall

/-! ## Any number of calls -/

/-- What can happen to a session that defers its writes. -/
inductive Action : Type 1 where
  /-- The caller makes a call. -/
  | call (c : WriteCall)
  /-- The worker performs the oldest of the queued writes, if there is one. -/
  | work
  /-- The caller takes the failures there are. -/
  | take

namespace Action

/-- The calls among some actions. -/
def calls : List Action → List WriteCall
  | [] => []
  | call c :: actions => c :: calls actions
  | work :: actions | take :: actions => calls actions

end Action

/-- A call that was made, its answer or error and its object afterwards. -/
structure Made : Type 1 where
  call : WriteCall
  ended : Except StoreError call.Answer × call.Object

/-- What some actions came to: the calls as they ended, the failures that were taken, and the
    session. -/
structure Course : Type 1 where
  made : List Made := []
  taken : List StoreError := []
  session : Session

namespace Session

/-- Let the caller and the worker act, in the order that is given. A call whose write finds the
    queue full is one before which the worker has acted. -/
def act (s : Session) : List Action → Course
  | [] => { session := s }
  | .call c :: actions =>
    let later := c.on c.later s
    let rest := later.2.2.act actions
    { rest with made := ⟨c, later.1, later.2.1⟩ :: rest.made }
  | .work :: actions => s.work.act actions
  | .take :: actions =>
    let rest := s.takeFailures.2.act actions
    { rest with taken := s.takeFailures.1 ++ rest.taken }

/-- Make calls at once, one after another. -/
def writeAll (n : Session) : List WriteCall → Session
  | [] => n
  | c :: calls => (c.on c.atOnce n).2.2.writeAll calls

/-- Deferred calls as they ended next to the same calls made at once, and the statuses of those of
    which the engine write failed, in order. -/
inductive Paired : Session → List Made → List Status → Prop where
  | nil {n : Session} : Paired n [] []
  | cons {n : Session} {c : WriteCall} {later : Except StoreError c.Answer × c.Object}
      {status? : Option Status} {made : List Made} {statuses : List Status} :
      c.Pairs n ((c.on c.atOnce n).1, (c.on c.atOnce n).2.1) later status? →
      Paired (c.on c.atOnce n).2.2 made statuses →
      Paired n (⟨c, later⟩ :: made) (status?.toList ++ statuses)

variable {s n : Session} {actions : List Action}

theorem Abreast.nears {s' : Session} (abreast : s.Abreast n) (nears : s.Nears s') :
    s'.Abreast n :=
  ⟨abreast.faults, abreast.engine.trans nears.settled.symm, abreast.closed.trans nears.closed.symm⟩

theorem Steady.takeFailures (steady : s.Steady) : s.takeFailures.2.Steady :=
  ⟨steady.faults, steady.free, steady.numbered, steady.covered, steady.taking⟩

theorem Abreast.takeFailures (abreast : s.Abreast n) : s.takeFailures.2.Abreast n :=
  ⟨abreast.faults, abreast.engine, abreast.closed⟩

/-- A session stays abreast of one that makes its calls at once, and each failed write is told
    once, in the order of the calls. -/
theorem Abreast.act (simple : ∀ c ∈ Action.calls actions, c.Simple) (steady : s.Steady)
    (abreast : s.Abreast n) :
    let course := s.act actions
    course.session.Steady ∧ course.session.Abreast (n.writeAll (Action.calls actions)) ∧
      course.made.map Made.call = Action.calls actions ∧
      ∃ statuses, n.Paired course.made statuses ∧
        course.taken.map StoreError.status? ++ course.session.told =
          s.told ++ statuses.map some := by
  induction actions generalizing s n with
  | nil => exact ⟨steady, abreast, rfl, [], .nil, by simp [Session.act]⟩
  | cons action actions ih =>
      cases action with
      | call c =>
          obtain ⟨status?, pairs, advances⟩ :=
            WriteCall.pairs (simple c List.mem_cons_self) steady abreast
          obtain ⟨kept, beside, calls, statuses, paired, told⟩ :=
            ih (fun c member => simple c (List.mem_cons_of_mem _ member)) advances.steady
              advances.abreast
          refine ⟨kept, beside, congrArg (c :: ·) calls, status?.toList ++ statuses,
            .cons pairs paired, told.trans ?_⟩
          rw [advances.told, List.map_append, List.append_assoc]
      | work =>
          obtain ⟨kept, beside, calls, statuses, paired, told⟩ :=
            ih simple steady.work.steady (abreast.nears steady.work)
          exact ⟨kept, beside, calls, statuses, paired, told.trans (by rw [steady.work.told])⟩
      | take =>
          obtain ⟨kept, beside, calls, statuses, paired, told⟩ :=
            ih simple steady.takeFailures abreast.takeFailures
          have taken : (s.act (.take :: actions)).taken =
            s.takeFailures.1 ++ (s.takeFailures.2.act actions).taken := rfl
          refine ⟨kept, beside, calls, statuses, paired, ?_⟩
          rw [taken, List.map_append, List.append_assoc]
          refine (congrArg (_ ++ ·) told).trans ?_
          rw [← List.append_assoc, told_takeFailures]

/-- Deferred calls on boxes without relations come to what the same calls come to that are made at
    once, in the same order, after what was queued before. However the worker's steps fall between
    them, engine, answers and objects are the same, but that a call whose engine write fails has
    been answered; the failures taken, wherever they are taken, have the statuses of those writes,
    once each and in order. -/
theorem deferred_as_at_once (steady : s.Steady)
    (simple : ∀ c ∈ Action.calls actions, c.Simple) :
    let course := s.act actions
    let done := course.session.awaitCompletion
    let now := s.awaitCompletion.writeAll (Action.calls actions)
    done.store.queue.pending = [] ∧ done.host.machine.engine = now.host.machine.engine ∧
      course.made.map Made.call = Action.calls actions ∧
      ∃ statuses, s.awaitCompletion.Paired course.made statuses ∧
        (course.taken ++ done.takeFailures.1).map StoreError.status? =
          s.awaitCompletion.takeFailures.1.map StoreError.status? ++ statuses.map some := by
  obtain ⟨nears, idle⟩ := steady.awaitCompletion
  have abreast : s.Abreast s.awaitCompletion :=
    ⟨nears.steady.faults, steady.engine_awaitCompletion, nears.closed⟩
  obtain ⟨kept, beside, calls, statuses, paired, told⟩ := abreast.act simple steady
  obtain ⟨nears', idle'⟩ := kept.awaitCompletion
  refine ⟨idle', kept.engine_awaitCompletion.trans beside.engine.symm, calls, statuses, paired, ?_⟩
  rw [List.map_append, takeFailures, takeFailures, ← told_of_idle idle, ← told_of_idle idle',
    nears.told, nears'.told]
  exact told

/-- Calls on labels, one of each kind that fails before its write, in it and not at all. -/
def labelActions : List Action :=
  [.call (.put labelBox .put { text := "a" }), .call (.removeId labelBox 7),
    .call (.put labelBox .insert { id := 1, text := "b" }), .work, .work, .take,
    .call (.put labelBox .update { text := "c" }),
    .call (.put labelBox .put { text := unencodable }),
    .call (.put labelBox .put { text := "d" }), .call (.remove labelBox { id := 1 })]

theorem labels_deferred : ∃ s, (openOn { machine := .fresh true } fullModel {}).1 = .ok s ∧
    (∀ c ∈ Action.calls labelActions, c.Simple) ∧
    let course := s.act labelActions
    let done := course.session.awaitCompletion
    done.host.machine.engine =
        (s.awaitCompletion.writeAll (Action.calls labelActions)).host.machine.engine ∧
      course.made.map (·.ended.1.toBool) = [true, true, true, false, false, true, true] ∧
      course.taken.map StoreError.status? = [some .notFound] ∧
      done.takeFailures.1.map StoreError.status? = [some .idAlreadyExists] ∧
      done.host.machine.engine.committed.size labelBox.entity = 1 := by
  have eval : (openOn { machine := .fresh true } fullModel {}).1.toOption.map
      (fun s =>
        let course := s.act labelActions
        let done := course.session.awaitCompletion
        (course.made.map (·.ended.1.toBool), course.taken.map StoreError.status?,
          done.takeFailures.1.map StoreError.status?,
          done.host.machine.engine.committed.size labelBox.entity)) =
      some ([true, true, true, false, false, true, true], [some .notFound],
        [some .idAlreadyExists], 1) := by
    decide +kernel
  obtain ⟨s, opened, looked⟩ := exists_of_eval eval
  obtain ⟨made, taken, left, size⟩ := by
    simpa only [Prod.mk.injEq] using looked
  have simple : ∀ c ∈ Action.calls labelActions, c.Simple := by
    intro c member
    simp only [Action.calls, labelActions, List.mem_cons, List.not_mem_nil, or_false] at member
    rcases member with rfl | rfl | rfl | rfl | rfl | rfl | rfl <;> rfl
  have settled := deferred_as_at_once (steady_of_openOn opened) simple
  exact ⟨s, opened, simple, settled.2.1, made, taken, left, size⟩

/-- A label that cannot be given its id is stored in both ways, and both calls fail, although that
    made at once does not fail before its engine write. -/
theorem unassigned_fails_later : ∃ s why why' p,
    (openOn { machine := .fresh true } fullModel {}).1 = .ok s ∧
    let c : WriteCall := .put labelBox .put { text := badSet }
    (c.on c.later s).1 = .error why ∧ (c.on c.prepare s).1 = .ok p ∧
      (c.on c.atOnce s).1 = .error why' ∧
      (c.on c.atOnce s).2.2.host.machine.engine.committed.size labelBox.entity =
        s.host.machine.engine.committed.size labelBox.entity + 1 := by
  have eval : (openOn { machine := .fresh true } fullModel {}).1.toOption.map
      (fun s =>
        let c : WriteCall := .put labelBox .put { text := badSet }
        ((c.on c.later s).1.toOption, (c.on c.prepare s).1.toOption.map Prepared.id,
          (c.on c.atOnce s).1.toOption,
          (c.on c.atOnce s).2.2.host.machine.engine.committed.size labelBox.entity,
          s.host.machine.engine.committed.size labelBox.entity)) =
      some (none, some 1, none, 1, 0) := by
    decide +kernel
  obtain ⟨s, opened, looked⟩ := exists_of_eval eval
  obtain ⟨later, prepared, now, after, before⟩ := by simpa only [Prod.mk.injEq] using looked
  obtain ⟨why, later⟩ := error_of_toOption later
  obtain ⟨p, prepared, -⟩ := exists_of_eval prepared
  obtain ⟨why', now⟩ := error_of_toOption now
  exact ⟨s, why, why', p, opened, later, prepared, now, by rw [after, before]⟩

end Session

end ObjectStore
