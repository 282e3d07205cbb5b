import ObjectStore.Proofs.Store.Logic

/-! # Programs run side by side

`Alike R p p' S` says that from any two worlds related by `R` the programs `p` and `p'` end with
the same answer, in worlds that `S` relates for this answer. It is put together along the binds of
both programs. Where the two read something in which their worlds differ, their ways part, and are
compared as two programs.
-/

namespace ObjectStore

section Logic

variable {m : Type → Type} [Monad m] {W : Type} [Runs m W] {α β : Type} {R R' : W → W → Prop}
  {p p' : ExceptT StoreError m α} {f f' : α → ExceptT StoreError m β}
  {S : Except StoreError α → W → W → Prop} {Q : Except StoreError β → W → W → Prop}

/-- From related worlds both programs end with the same answer, in related worlds. -/
def Alike (R : W → W → Prop) (p p' : ExceptT StoreError m α)
    (S : Except StoreError α → W → W → Prop) : Prop :=
  ∀ w w', R w w' → (Runs.run p'.run w').1 = (Runs.run p.run w).1 ∧
    S (Runs.run p.run w).1 (Runs.run p.run w).2 (Runs.run p'.run w').2

namespace Alike

theorem weaken {S' : Except StoreError α → W → W → Prop} (h : Alike R p p' S)
    (weaker : ∀ r w w', S r w w' → S' r w w') : Alike R p p' S' := by
  intro w w' related
  obtain ⟨same, after⟩ := h w w' related
  exact ⟨same, weaker _ _ _ after⟩

theorem pure {a : α} (h : ∀ w w', R w w' → S (.ok a) w w') :
    Alike R (Pure.pure a : ExceptT StoreError m α) (Pure.pure a) S := by
  intro w w' related
  have ran (w : W) : Runs.run (Pure.pure a : ExceptT StoreError m α).run w = (.ok a, w) :=
    Runs.run_pure _ _
  rw [ran, ran]
  exact ⟨rfl, h w w' related⟩

theorem throw {why : StoreError} (h : ∀ w w', R w w' → S (.error why) w w') :
    Alike R (MonadExcept.throw why : ExceptT StoreError m α) (MonadExcept.throw why) S := by
  intro w w' related
  have ran (w : W) :
      Runs.run (MonadExcept.throw why : ExceptT StoreError m α).run w = (.error why, w) :=
    Runs.run_pure _ _
  rw [ran, ran]
  exact ⟨rfl, h w w' related⟩

/-- A bind goes on with what its first program answers. -/
theorem run_bind {a : α} {w w₁ : W} (ran : Runs.run p.run w = (.ok a, w₁)) :
    Runs.run (p >>= f).run w = Runs.run (f a).run w₁ := by
  have step : Runs.run (p >>= f).run w = Runs.run (ExceptT.bindCont f (Runs.run p.run w).1)
      (Runs.run p.run w).2 := Runs.run_bind _ _ _
  rw [step, ran]
  rfl

theorem run_bind_error {why : StoreError} {w w₁ : W}
    (ran : Runs.run p.run w = (.error why, w₁)) :
    Runs.run (p >>= f).run w = (.error why, w₁) := by
  have step : Runs.run (p >>= f).run w = Runs.run (ExceptT.bindCont f (Runs.run p.run w).1)
      (Runs.run p.run w).2 := Runs.run_bind _ _ _
  rw [step, ran, ExceptT.bindCont]
  exact Runs.run_pure _ _

theorem bind (h : Alike R p p' S) (next : ∀ a, Alike (S (.ok a)) (f a) (f' a) Q)
    (failed : ∀ why w w', S (.error why) w w' → Q (.error why) w w') :
    Alike R (p >>= f) (p' >>= f') Q := by
  intro w w' related
  obtain ⟨same, after⟩ := h w w' related
  cases ran : Runs.run p.run w with
  | mk r w₁ =>
      cases ran' : Runs.run p'.run w' with
      | mk r' w₁' =>
          rw [ran, ran'] at same after
          obtain rfl : r' = r := same
          cases r' with
          | ok a =>
              rw [run_bind ran, run_bind ran']
              exact next a w₁ w₁' after
          | error why =>
              rw [run_bind_error ran, run_bind_error ran']
              exact ⟨rfl, failed why w₁ w₁' after⟩

/-- Programs that keep their worlds related do so one after the other. -/
theorem andThen (h : Alike R p p' fun _ => R) (next : ∀ a, Alike R (f a) (f' a) fun _ => R) :
    Alike R (p >>= f) (p' >>= f') fun _ => R :=
  h.bind next fun _ _ _ related => related

theorem mapM [LawfulMonad m] (h : ∀ a, Alike R (f a) (f' a) fun _ => R) (list : List α) :
    Alike R (list.mapM f) (list.mapM f') fun _ => R := by
  induction list with
  | nil => exact Alike.pure fun _ _ related => related
  | cons a list ih =>
      rw [List.mapM_cons, List.mapM_cons]
      exact (h a).andThen fun _ => ih.andThen fun _ => Alike.pure fun _ _ related => related

/-- What is done about a failure is not done after an answer. -/
theorem run_tryCatch {handler : StoreError → ExceptT StoreError m α} {a : α} {w w₁ : W}
    (ran : Runs.run p.run w = (.ok a, w₁)) :
    Runs.run (tryCatch p handler).run w = (.ok a, w₁) := by
  refine (Runs.run_bind p.run _ w).trans ?_
  rw [ran]
  exact Runs.run_pure _ _

theorem run_tryCatch_error {handler : StoreError → ExceptT StoreError m α} {why : StoreError}
    {w w₁ : W} (ran : Runs.run p.run w = (.error why, w₁)) :
    Runs.run (tryCatch p handler).run w = Runs.run (handler why).run w₁ := by
  refine (Runs.run_bind p.run _ w).trans ?_
  rw [ran]
  rfl

theorem recover {handler handler' : StoreError → ExceptT StoreError m α}
    (h : Alike R p p' fun _ => R) (next : ∀ why, Alike R (handler why) (handler' why) fun _ => R) :
    Alike R (tryCatch p handler) (tryCatch p' handler') fun _ => R := by
  intro w w' related
  obtain ⟨same, after⟩ := h w w' related
  cases ran : Runs.run p.run w with
  | mk r w₁ =>
      cases ran' : Runs.run p'.run w' with
      | mk r' w₁' =>
          rw [ran, ran'] at same after
          obtain rfl : r' = r := same
          cases r' with
          | ok a =>
              rw [run_tryCatch ran, run_tryCatch ran']
              exact ⟨rfl, after⟩
          | error why =>
              rw [run_tryCatch_error ran, run_tryCatch_error ran']
              exact next why w₁ w₁' after

end Alike

end Logic

/-! ## From one kind of program to the next -/

namespace Alike

variable {σ α : Type} {objects : σ}

/-- Calls on the host leave whatever holds of the two stores. -/
theorem ofHost {R : Host → Host → Prop} {K : Store → Store → Prop} {p p' : HostM α}
    {S : Except StoreError α → Host → Host → Prop} (h : Alike R p p' S) :
    Alike (fun s s' : Session => R s.host s'.host ∧ K s.store s'.store) (StoreM.ofHost p)
      (StoreM.ofHost p') fun r s s' => S r s.host s'.host ∧ K s.store s'.store := by
  rintro s s' ⟨related, kept⟩
  obtain ⟨same, after⟩ := h s.host s'.host related
  exact ⟨same, after, kept⟩

variable {R : Session → Session → Prop} {S : Except StoreError α → Session → Session → Prop}

theorem ofStore {p p' : StoreM α} (h : Alike R p p' S) :
    Alike (fun w w' : σ × Session => R w.2 w'.2) (Editing.ofStore p : Editing σ α)
      (Editing.ofStore p') fun r w w' => S r w.2 w'.2 := by
  rintro ⟨objects, s⟩ ⟨objects', s'⟩ related
  exact h s s' related

theorem outcome {R : σ × Session → σ × Session → Prop} {p p' : Editing σ α}
    {S : Except StoreError (Except StoreError α) → σ × Session → σ × Session → Prop}
    (h : Alike R p p' fun r => S (.ok r)) :
    Alike R (Editing.outcome p) (Editing.outcome p') S := by
  intro w w' related
  obtain ⟨same, after⟩ := h w w' related
  exact ⟨congrArg Except.ok same, after⟩

end Alike

end ObjectStore
