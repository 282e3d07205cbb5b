import ObjectStore.Proofs.Engine.Draft
import ObjectStore.Proofs.Store.Staying

/-! # What programs make of a draft

A program that works in a write transaction comes to something that its host has no part in: how it
ends, the objects, and the draft of the transaction. A plan is that alone, a function on objects and
drafts. A program computes a plan if wherever the transaction is open it ends as the plan says
(`Editing.Computes`), errors and their texts included.
-/

namespace ObjectStore

/-- What a program on objects `σ` comes to in a transaction. -/
def Plan (σ α : Type) : Type :=
  σ × Draft → Except StoreError α × σ × Draft

namespace Plan

variable {σ τ α β : Type}

instance : Monad (Plan σ) where
  pure a w := (.ok a, w)
  bind p next w := match p w with
    | (.ok a, w) => next a w
    | (.error why, w) => (.error why, w)

theorem bind_run {p : Plan σ α} {f : α → Plan σ β} {w : σ × Draft} :
    (p >>= f) w = match p w with
      | (.ok a, w) => f a w
      | (.error why, w) => (.error why, w) := rfl

/-- What the objects are read as. -/
def read (f : σ → Except StoreError α) : Plan σ α :=
  fun w => (f w.1, w)

/-- The same, whatever the objects. -/
def ofExcept (r : Except StoreError α) : Plan σ α :=
  read fun _ => r

def fail (why : StoreError) : Plan σ α :=
  ofExcept (.error why)

/-- Change the objects, or fail. -/
def edit (f : σ → Except StoreError σ) : Plan σ Unit :=
  fun w => match f w.1 with
    | .ok changed => (.ok (), changed, w.2)
    | .error why => (.error why, w)

/-- Change the draft by a call that has to succeed. -/
def ask (operation : String) (op : Draft → Except Refusal (α × Draft)) : Plan σ α :=
  fun w => match op w.2 with
    | .ok (a, d) => (.ok a, w.1, d)
    | .error why => (.error (.engine operation why.status (why.detail?.getD "")), w)

/-- Change a part of the objects. -/
def focus (part : σ → τ) (fill : σ → τ → σ) (p : Plan τ α) : Plan σ α :=
  fun w => let (r, changed, d) := p (part w.1, w.2)
    (r, fill w.1 changed, d)

/-- Change the objects of a list one after another, each with its own argument. -/
def forEach (step : α → Plan τ β) : List α → Plan (List τ) (List β)
  | a :: as => fun
    | (object :: objects, d) => match step a (object, d) with
      | (.ok b, object, d) =>
        let (r, objects, d) := forEach step as (objects, d)
        (r.map (b :: ·), object :: objects, d)
      | (.error why, object, d) => (.error why, object :: objects, d)
    | ([], d) => (.ok [], [], d)
  | [] => fun w => (.ok [], w)

/-- Change a list of objects in chunks of `size`. -/
def forChunks (size : Nat) (step : Plan (List τ) β) : Plan (List τ) (List β) :=
  fun w =>
    let chunks := Editing.chunked size w.1 w.1
    let (r, chunks, d) := forEach (fun _ => step) chunks (chunks, w.2)
    (r, chunks.flatten, d)

end Plan

/-- Where a program works: a store, and a transaction on an engine. -/
structure Setting where
  store : Store
  base : Engine
  txn : Txn

namespace Setting

variable {σ : Type}

/-- The engine with the transaction open at a draft. -/
def engine (u : Setting) (d : Draft) : Engine :=
  u.base.drafted u.txn.handle d

/-- What the program sees. -/
def view (u : Setting) (w : σ × Draft) : σ × Store × Engine :=
  (w.1, u.store, u.engine w.2)

end Setting

namespace Editing

variable {σ τ α β : Type} {u : Setting}

/-- Wherever the transaction is open, the program ends as the plan says. -/
def Computes (u : Setting) (program : Editing σ α) (plan : Plan σ α) : Prop :=
  ∀ w, Ends program (u.view w) (plan w).1 (u.view (plan w).2)

namespace Computes

theorem pure {a : α} : Computes u (Pure.pure a : Editing σ α) (Pure.pure a) :=
  fun _ => Ends.pure

theorem bind {p : Editing σ α} {next : α → Editing σ β} {plan : Plan σ α} {rest : α → Plan σ β}
    (first : Computes u p plan) (then' : ∀ a, Computes u (next a) (rest a)) :
    Computes u (p >>= next) (plan >>= rest) := by
  intro w
  have ends := first w
  simp only [Bind.bind]
  generalize plan w = done at ends
  rcases done with ⟨why | a, w'⟩
  · exact Ends.bind_error ends ⟨rfl, rfl⟩
  · exact Ends.bind ends (then' a w')

/-- A program on the store alone that leaves what it sees. -/
theorem reading {program : StoreM α} {r : Except StoreError α}
    (ends : ∀ e, Ends program (u.store, e) r (u.store, e)) :
    Computes u (ofStore program : Editing σ α) (Plan.ofExcept r) :=
  fun _ => Ends.ofStore (ends _)

theorem current : Computes u (current : Editing σ σ) (Plan.read .ok) :=
  fun _ => current_ends

/-- What follows the objects at hand is planned for each of them. -/
theorem current_bind {next : σ → Editing σ α} {plan : σ → Plan σ α}
    (each : ∀ objects, Computes u (next objects) (plan objects)) :
    Computes u (Editing.current >>= next) (fun w => plan w.1 w) :=
  fun w => Ends.bind current_ends (each w.1 w)

theorem focus {part : σ → τ} {fill : σ → τ → σ} {program : Editing τ α} {plan : Plan τ α}
    (h : Computes u program plan) :
    Computes u (focus part fill program) (Plan.focus part fill plan) := by
  refine fun w => focus_leads ((h (part w.1, w.2)).mono ?_)
  rintro r w' ⟨rfl, rfl⟩
  exact ⟨rfl, rfl⟩

theorem forEach {step : α → Editing τ β} {plan : α → Plan τ β} {as : List α}
    (each : ∀ a, Computes u (step a) (plan a)) :
    Computes u (forEach step as) (Plan.forEach plan as) := by
  rintro ⟨objects, d⟩
  induction as generalizing objects d with
  | nil => exact forEach_nil ⟨rfl, rfl⟩
  | cons a as ih =>
      cases objects with
      | nil => exact forEach_empty ⟨rfl, rfl⟩
      | cons object objects =>
          have first := each a (object, d)
          refine forEach_cons (first.mono ?_)
          simp only [Plan.forEach]
          rcases plan a (object, d) with ⟨why | b, object', d'⟩
          · rintro r w ⟨rfl, rfl⟩
            exact ⟨rfl, rfl⟩
          · rintro r w ⟨rfl, rfl⟩
            simp only [Rest]
            refine Leads.mono (ih objects d') ?_
            rintro r w ⟨rfl, rfl⟩
            exact ⟨rfl, rfl⟩

theorem forChunks {size : Nat} {step : Editing (List τ) β} {plan : Plan (List τ) β}
    (h : Computes u step plan) :
    Computes u (forChunks size step) (Plan.forChunks size plan) := by
  intro w
  refine forChunks_leads rfl (Leads.mono (forEach (fun _ => h) (chunked size w.1 w.1, w.2)) ?_)
  rintro r w' ⟨rfl, rfl⟩
  exact ⟨rfl, rfl⟩

theorem forM {step : α → Editing σ Unit} {plan : α → Plan σ Unit} {as : List α}
    (each : ∀ a, Computes u (step a) (plan a)) : Computes u (as.forM step) (as.forM plan) := by
  induction as with
  | nil => exact .pure
  | cons a as ih => exact (each a).bind fun _ => ih

theorem ite {p : Prop} [Decidable p] {program program' : Editing σ α} {plan plan' : Plan σ α}
    (yes : p → Computes u program plan) (no : ¬ p → Computes u program' plan') :
    Computes u (if p then program else program') (if p then plan else plan') := by
  split
  · exact yes ‹_›
  · exact no ‹_›

/-! ### Calls -/

theorem request {operation : String} {call : Call}
    {op : Draft → Except Refusal (call.Answer × Draft)}
    (serves : Draft.Serves u.base u.txn.handle call op) :
    Computes u (ofStore (StoreM.ofHost (HostM.request operation call)) : Editing σ call.Answer)
      (Plan.ask operation op) := by
  intro w
  have performed : (u.engine w.2).perform callerThread call =
      Draft.lift u.base u.txn.handle (op w.2) :=
    serves.perform callerThread w.2
  have told := serves.told w.2
  simp only [Plan.ask]
  generalize op w.2 = done at performed told
  rcases done with why | ⟨a, d⟩
  · obtain ⟨message, detail⟩ : ∃ message, why.detail? = some message := by
      cases why with
      | missing => exact absurd rfl told
      | _ => exact ⟨_, rfl⟩
    dsimp only
    rw [detail]
    exact Ends.ofStore (Ends.ofHost (HostM.request_refused performed detail))
  · exact Ends.ofStore (Ends.ofHost (HostM.request_ends performed))

end Computes

end Editing

end ObjectStore
