import ObjectStore.Store.Transaction
import ObjectStore.Proofs.Engine.Calls

/-! # What programs lead to

The three kinds of program on a store, `HostM`, `StoreM` and `Editing σ`, change a world: a host, a
session, or objects with a session. Of that world a program's outcome depends on a view only: the
engine, the store without its pool, and the objects. Error slots, kept calls and pooled encoders
are not part of it, and no faults are planned.

`Leads p v Q` says that from every world with the view `v` the program ends, with an answer and a
view that satisfy `Q`; `Ends p v r v'` that it ends with `r` and the view `v'`. Both are put
together along the binds of a program.
-/

namespace ObjectStore

/-- A monad whose programs change a world, by two laws. -/
class Runs (m : Type → Type) [Monad m] (W : outParam Type) where
  run {α : Type} : m α → W → α × W
  run_pure {α : Type} (a : α) (w : W) : run (pure a) w = (a, w)
  run_bind {α β : Type} (p : m α) (f : α → m β) (w : W) :
    run (p >>= f) w = run (f (run p w).1) (run p w).2

instance {S : Type} : Runs (StateM S) S where
  run p s := p s
  run_pure _ _ := rfl
  run_bind _ _ _ := rfl

instance {σ S : Type} : Runs (StateT σ (StateM S)) (σ × S) where
  run p w := let ((a, objects), s) := p w.1 w.2; (a, objects, s)
  run_pure _ _ := rfl
  run_bind _ _ _ := rfl

/-- What of a world programs depend on. -/
class Viewed (W : Type) (V : outParam Type) where
  Shows : W → V → Prop

/-- A host without planned faults is seen as its engine. -/
instance : Viewed Host Engine where
  Shows host e := host.faults = [] ∧ host.machine.engine = e

/-- A session is seen as its store, whatever the pool, and its engine. -/
instance : Viewed Session (Store × Engine) where
  Shows s v := Viewed.Shows s.host v.2 ∧ s.store = { v.1 with pool := s.store.pool }

instance {σ : Type} : Viewed (σ × Session) (σ × Store × Engine) where
  Shows w v := w.1 = v.1 ∧ Viewed.Shows w.2 v.2

section Logic

variable {m : Type → Type} [Monad m] {W V : Type} [Runs m W] [Viewed W V] {α β : Type}
  {p : ExceptT StoreError m α} {f : α → ExceptT StoreError m β} {v v' : V} {a : α}
  {why : StoreError}

/-- From every world with the view `v` the program ends as `Q` says. -/
def Leads (p : ExceptT StoreError m α) (v : V) (Q : Except StoreError α → V → Prop) : Prop :=
  ∀ w : W, Viewed.Shows w v →
    ∃ v', Viewed.Shows (Runs.run p.run w).2 v' ∧ Q (Runs.run p.run w).1 v'

/-- From every world with the view `v` the program ends with `r` and a world with the view `v'`. -/
def Ends (p : ExceptT StoreError m α) (v : V) (r : Except StoreError α) (v' : V) : Prop :=
  Leads p v fun r' w => r' = r ∧ w = v'

theorem Leads.mono {Q Q' : Except StoreError α → V → Prop} (h : Leads p v Q)
    (weaker : ∀ r v', Q r v' → Q' r v') : Leads p v Q' := by
  intro w shows
  obtain ⟨v', shown, holds⟩ := h w shows
  exact ⟨v', shown, weaker _ _ holds⟩

theorem Leads.pure {Q : Except StoreError α → V → Prop} (h : Q (.ok a) v) :
    Leads (Pure.pure a : ExceptT StoreError m α) v Q := by
  intro w shows
  have ran : Runs.run (Pure.pure a : ExceptT StoreError m α).run w = (.ok a, w) := Runs.run_pure _ _
  rw [ran]
  exact ⟨v, shows, h⟩

theorem Leads.throw {Q : Except StoreError α → V → Prop} (h : Q (.error why) v) :
    Leads (MonadExcept.throw why : ExceptT StoreError m α) v Q := by
  intro w shows
  have ran : Runs.run (MonadExcept.throw why : ExceptT StoreError m α).run w = (.error why, w) :=
    Runs.run_pure _ _
  rw [ran]
  exact ⟨v, shows, h⟩

/-- What a program leads to, if what follows its answer leads there. -/
def Onward (f : α → ExceptT StoreError m β) (Q : Except StoreError β → V → Prop) :
    Except StoreError α → V → Prop
  | .ok a, v => Leads (f a) v Q
  | .error why, v => Q (.error why) v

theorem Leads.bind {Q : Except StoreError β → V → Prop} (h : Leads p v (Onward f Q)) :
    Leads (p >>= f) v Q := by
  intro w shows
  obtain ⟨v', shown, holds⟩ := h w shows
  have ran : Runs.run (p >>= f).run w = Runs.run (ExceptT.bindCont f (Runs.run p.run w).1)
      (Runs.run p.run w).2 := Runs.run_bind _ _ _
  rw [ran]
  cases ended : (Runs.run p.run w).1 with
  | ok a =>
      rw [ended] at holds
      exact holds _ shown
  | error why =>
      rw [ended] at holds
      refine ⟨v', ?_, ?_⟩
      · rw [ExceptT.bindCont, Runs.run_pure]
        exact shown
      · rw [ExceptT.bindCont, Runs.run_pure]
        exact holds

/-- After an answer a program leads where its rest does, after an error where it is. -/
theorem Leads.onward {P : Except StoreError α → V → Prop} {Q : Except StoreError β → V → Prop}
    (h : Leads p v P) (next : ∀ a v', P (.ok a) v' → Leads (f a) v' Q)
    (failed : ∀ why v', P (.error why) v' → Q (.error why) v') : Leads (p >>= f) v Q := by
  refine Leads.bind (h.mono ?_)
  rintro (why | a) v' holds
  · exact failed why v' holds
  · exact next a v' holds

theorem Ends.bind {Q : Except StoreError β → V → Prop} (first : Ends p v (.ok a) v')
    (next : Leads (f a) v' Q) : Leads (p >>= f) v Q := by
  refine Leads.bind (first.mono ?_)
  rintro r w ⟨rfl, rfl⟩
  exact next

theorem Ends.bind_error {Q : Except StoreError β → V → Prop} (first : Ends p v (.error why) v')
    (h : Q (.error why) v') : Leads (p >>= f) v Q := by
  refine Leads.bind (first.mono ?_)
  rintro r w ⟨rfl, rfl⟩
  exact h

theorem Ends.pure : Ends (Pure.pure a : ExceptT StoreError m α) v (.ok a) v :=
  Leads.pure (And.intro rfl rfl)

theorem Ends.throw : Ends (MonadExcept.throw why : ExceptT StoreError m α) v (.error why) v :=
  Leads.throw (And.intro rfl rfl)

theorem Ends.leads {r : Except StoreError α} {Q : Except StoreError α → V → Prop}
    (h : Ends p v r v') (holds : Q r v') : Leads p v Q := by
  refine h.mono ?_
  rintro r w ⟨rfl, rfl⟩
  exact holds

end Logic

/-- A program ended with an error. -/
def Failed {α : Type} (r : Except StoreError α) : Prop :=
  ∃ why, r = .error why

theorem not_failed_ok {α : Type} {a : α} : ¬ Failed (.ok a) := by
  rintro ⟨why, wrong⟩
  cases wrong

/-! ## From one kind of program to the next -/

section Lifts

variable {σ α : Type} {objects : σ} {store : Store} {e : Engine} {v : Store × Engine}

theorem Leads.ofHost {program : HostM α} {Q : Except StoreError α → Store × Engine → Prop}
    (h : Leads program e fun r e => Q r (store, e)) :
    Leads (StoreM.ofHost program) (store, e) Q := by
  intro s shows
  obtain ⟨e', shown, holds⟩ := h s.host shows.1
  exact ⟨(store, e'), ⟨shown, shows.2⟩, holds⟩

theorem Leads.ofStore {program : StoreM α} {Q : Except StoreError α → σ × Store × Engine → Prop}
    (h : Leads program v fun r v => Q r (objects, v)) :
    Leads (Editing.ofStore program : Editing σ α) (objects, v) Q := by
  rintro ⟨found, s⟩ ⟨same, shows⟩
  obtain ⟨v', shown, holds⟩ := h s shows
  exact ⟨(objects, v'), ⟨same, shown⟩, holds⟩

theorem Ends.ofHost {program : HostM α} {r : Except StoreError α} {e' : Engine}
    (h : Ends program e r e') : Ends (StoreM.ofHost program) (store, e) r (store, e') := by
  refine Leads.ofHost (h.mono ?_)
  rintro r w ⟨rfl, rfl⟩
  exact ⟨rfl, rfl⟩

theorem Ends.ofStore {program : StoreM α} {r : Except StoreError α} {v' : Store × Engine}
    (h : Ends program v r v') :
    Ends (Editing.ofStore program : Editing σ α) (objects, v) r (objects, v') := by
  refine Leads.ofStore (h.mono ?_)
  rintro r w ⟨rfl, rfl⟩
  exact ⟨rfl, rfl⟩

end Lifts

end ObjectStore
