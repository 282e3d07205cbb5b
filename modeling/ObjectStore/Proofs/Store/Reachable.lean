import ObjectStore.Proofs.Store.Opening

/-! # Sessions that can be come to

A store that was opened is used by any calls, of its own and past it, from any threads and in any
transactions, and it may have been closed. What every call keeps of its engine, and what no call
changes of the store itself, is known of every such session.
-/

namespace ObjectStore

open Catalog

namespace Session

variable {arrays : Bool} {config : Config} {s : Session}

/-- The engine is what some calls made of that of a store which was opened, and of the store
    nothing was changed that stays as long as it does. -/
structure Continues (s₀ s : Session) : Prop where
  engine : ∃ calls : List (ThreadId × Call), (∀ call ∈ calls, call.2.defines = false) ∧
    s.host.machine.engine = (s₀.host.machine.run calls).2.engine
  faults : s.host.faults = s₀.host.faults
  config : s.store.config = s₀.store.config
  model : s.store.model = s₀.store.model
  strategy : s.store.strategy = s₀.store.strategy
  arrays : s.store.arrays = s₀.store.arrays

/-- A session that a store of events, notes and tags can come to. -/
def Reachable (arrays : Bool) (config : Config) (s : Session) : Prop :=
  ∃ s₀, fresh arrays config = .ok s₀ ∧ s₀.Continues s

/-- What holds of every session a store can come to. -/
structure Sound (s : Session) : Prop where
  faults : s.host.faults = []
  exclusive : s.host.machine.engine.Exclusive
  numbered : s.host.machine.engine.Numbered
  size : 0 < s.store.config.chunkSize ∧ s.store.config.chunkSize ≤ maxIdsPerBlock
  able : s.store.arrays = s.host.machine.engine.arrays
  strategy : s.store.strategy = .resultArray → s.host.machine.engine.arrays = true
  model : s.store.model = smallModel
  entities : ∀ entity ∈ smallModel.entities,
    s.host.machine.engine.entities.contains entity.id = true
  relations : ∀ relation ∈ smallModel.relations,
    s.host.machine.engine.relations.contains relation.id = true

theorem Sound.shows (h : s.Sound) : Viewed.Shows s (s.store, s.host.machine.engine) :=
  ⟨⟨h.faults, rfl⟩, rfl⟩

theorem Fresh.sound (h : s.Fresh config) : s.Sound where
  faults := h.faults
  exclusive := h.exclusive
  numbered := h.numbered
  size := by
    have accepted := h.opened.accepted
    rw [h.opened.config_eq]
    simp only [Config.check] at accepted
    grind
  able := h.opened.arrays
  strategy := by
    intro arrays
    have decided := h.opened.strategy
    rw [arrays] at decided
    simp only [Config.strategyFor, ReadStrategy.detect] at decided
    grind
  model := h.opened.model_eq
  entities := h.entities
  relations := h.relations

theorem Sound.of_same {s₀ : Session} (h : s₀.Sound) (plain : s.host.faults = [])
    (exclusive : s.host.machine.engine.Exclusive) (numbered : s.host.machine.engine.Numbered)
    (schema : s₀.host.machine.engine.SameSchema s.host.machine.engine)
    (config : s.store.config = s₀.store.config) (model : s.store.model = s₀.store.model)
    (strategy : s.store.strategy = s₀.store.strategy)
    (arrays : s.store.arrays = s₀.store.arrays) : s.Sound where
  faults := plain
  exclusive := exclusive
  numbered := numbered
  size := config ▸ h.size
  able := by
    rw [arrays, schema.arrays]
    exact h.able
  strategy := by
    rw [strategy, schema.arrays]
    exact h.strategy
  model := model.trans h.model
  entities := schema.entities ▸ h.entities
  relations := schema.relations ▸ h.relations

theorem Sound.continues {s₀ : Session} (h : s₀.Sound) (continues : s₀.Continues s) : s.Sound := by
  obtain ⟨calls, quiet, same⟩ := continues.engine
  obtain ⟨exclusive, numbered, schema⟩ : (s.host.machine.engine).Exclusive ∧
      s.host.machine.engine.Numbered ∧
      s₀.host.machine.engine.SameSchema s.host.machine.engine := by
    rw [same]
    refine Machine.run_keeps
      (P := fun e => e.Exclusive ∧ e.Numbered ∧ s₀.host.machine.engine.SameSchema e)
      (Q := fun call => call.defines = false) ?_ ⟨h.exclusive, h.numbered, rfl, rfl, rfl⟩ quiet
    rintro e e' thread served ⟨exclusive, numbered, schema⟩ quiet done
    have moved := Engine.moved_of_perform done
    exact ⟨exclusive.moved quiet moved, numbered.moved quiet moved, schema.moved quiet moved⟩
  exact h.of_same (continues.faults.trans h.faults) exclusive numbered schema continues.config
    continues.model continues.strategy continues.arrays

theorem Reachable.sound (h : s.Reachable arrays config) : s.Sound := by
  obtain ⟨s₀, opened, continues⟩ := h
  exact (fresh_of_opened opened).sound.continues continues

theorem reachable_of_fresh (opened : fresh arrays config = .ok s) : s.Reachable arrays config :=
  ⟨s, opened, ⟨[], by simp, rfl⟩, rfl, rfl, rfl, rfl, rfl⟩

theorem exists_of_eval {ε α β : Type} {r : Except ε α} {f : α → β} {x : β}
    (eval : r.toOption.map f = some x) : ∃ a, r = .ok a ∧ f a = x := by
  cases r with
  | error why => cases eval
  | ok a => exact ⟨a, rfl, Option.some.inj eval⟩

/-- A store that opens can be looked at by evaluation. -/
theorem of_eval {β : Type} {f : Session → β} {x : β}
    (eval : (fresh arrays config).toOption.map f = some x) :
    ∃ s, fresh arrays config = .ok s ∧ f s = x :=
  exists_of_eval eval

theorem ok_of_toOption {ε α : Type} {r : Except ε α} {a : α} (some : r.toOption = some a) :
    r = .ok a := by
  cases r with
  | error why => cases some
  | ok b => exact congrArg Except.ok (Option.some.inj some)

theorem error_of_toOption {ε α : Type} {r : Except ε α} (none : r.toOption = none) :
    ∃ why, r = .error why := by
  cases r with
  | error why => exact ⟨why, rfl⟩
  | ok a => cases none

end Session

end ObjectStore
