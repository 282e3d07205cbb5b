import ObjectStore.Proofs.Engine.Runs
import ObjectStore.Proofs.Store.Calls
import ObjectStore.Workload.Scenario

/-! # A store that was opened

Opening a store defines what its model lists and changes nothing else of the engine. A store that
was opened is open, has settings that were accepted, and reads in a way its engine supports.
-/

namespace ObjectStore

open Catalog

variable {e e' e₁ : Engine} {model : Model} {config : Config}

/-- Definitions were added to an engine. -/
structure Engine.Extended (e e' : Engine) : Prop where
  arrays : e'.arrays = e.arrays
  committed : e'.committed = e.committed
  txns : e'.txns = e.txns
  writer : e'.writer = e.writer
  entities {entity : EntityId} : e.entities.contains entity = true →
    e'.entities.contains entity = true
  relations {relation : RelationId} : e.relations.contains relation = true →
    e'.relations.contains relation = true

namespace Engine.Extended

theorem refl : e.Extended e :=
  ⟨rfl, rfl, rfl, rfl, id, id⟩

theorem trans (h : e.Extended e₁) (h' : e₁.Extended e') : e.Extended e' :=
  ⟨h'.arrays.trans h.arrays, h'.committed.trans h.committed, h'.txns.trans h.txns,
    h'.writer.trans h.writer, fun known => h'.entities (h.entities known),
    fun known => h'.relations (h.relations known)⟩

theorem defineEntity {entity : EntityId} {name : String} :
    e.Extended (e.defineEntity entity name) := by
  refine ⟨rfl, rfl, rfl, rfl, ?_, id⟩
  intro other known
  rw [Engine.defineEntity, Std.ExtTreeMap.contains_insert, known, Bool.or_true]

theorem defineRelation {relation : RelationId} {source target : EntityId}
    (done : e.defineRelation relation source target = .ok e') :
    e.Extended e' ∧ e'.relations.contains relation = true := by
  simp only [Engine.defineRelation, unit_bind_eq_ok, pure, Except.pure, Except.ok.injEq] at done
  obtain ⟨-, -, rfl⟩ := done
  refine ⟨⟨rfl, rfl, rfl, rfl, id, ?_⟩, ?_⟩
  · intro other known
    rw [Std.ExtTreeMap.contains_insert, known, Bool.or_true]
  · rw [Std.ExtTreeMap.contains_insert_self]

end Engine.Extended

namespace Store

/-- What is defined one after another is defined in the end, if all of it can be. -/
theorem forM_leads {α : Type} {step : α → HostM Unit} {Defined : α → Engine → Prop}
    (each : ∀ a e, Leads (step a) e fun r e' => ∀ u, r = .ok u → e.Extended e' ∧ Defined a e')
    (lasts : ∀ a e e', e.Extended e' → Defined a e → Defined a e') {list : List α} :
    Leads (list.forM step) e fun r e' => ∀ u, r = .ok u →
      e.Extended e' ∧ ∀ a ∈ list, Defined a e' := by
  induction list generalizing e with
  | nil =>
      apply Leads.pure
      intro u _
      exact ⟨.refl, by simp⟩
  | cons a list ih =>
      rw [List.forM]
      refine (each a e).onward ?_ fun _ _ _ u ended => by cases ended
      intro u e₁ first
      obtain ⟨extended, here⟩ := first u rfl
      refine ih.mono ?_
      intro r e' rest u ended
      obtain ⟨later, others⟩ := rest u ended
      refine ⟨extended.trans later, ?_⟩
      intro b member
      cases member with
      | head => exact lasts a e₁ e' later here
      | tail _ member => exact others b member

theorem check_leads {α : Type} {x : Except Misuse α} :
    Leads (openOn.check x) e fun r e' => ∀ a, r = .ok a → x = .ok a ∧ e' = e := by
  cases x with
  | ok a =>
      apply Leads.pure
      rintro a ⟨⟩
      exact ⟨rfl, rfl⟩
  | error why =>
      apply Leads.throw
      rintro a ⟨⟩

theorem host_leads {Q : Except StoreError Host → Engine → Prop}
    (any : ∀ host : Host, host.machine.engine = e → Q (.ok host) e) :
    Leads (get : HostM Host) e Q := by
  intro host shows
  exact ⟨e, shows, any host shows.2⟩

/-- A store as it is when it was opened over an engine. -/
structure Opened (model : Model) (config : Config) (store : Store) (e : Engine) : Prop where
  accepted : config.check = .ok ()
  strategy : config.strategyFor e.arrays = .ok store.strategy
  config_eq : store.config = config
  model_eq : store.model = model
  arrays : store.arrays = e.arrays
  closed : store.closed = false
  queue : store.queue = {}

theorem openOn_leads : Leads (openOn model config) e fun r e' => ∀ store, r = .ok store →
    store.Opened model config e' ∧ e.Extended e' ∧
      (∀ entity ∈ model.entities, e'.entities.contains entity.id = true) ∧
      ∀ relation ∈ model.relations, e'.relations.contains relation.id = true := by
  have entities : ∀ (entity : EntityDescriptor) (e : Engine),
      Leads (HostM.request "define_entity" (.defineEntity entity.id entity.name)) e fun r e' =>
        ∀ u, r = .ok u → e.Extended e' ∧ e'.entities.contains entity.id = true := by
    intro entity e
    refine HostM.request_leads ?_ ?_
    · rintro answer e' ⟨⟩ u -
      exact ⟨.defineEntity, Std.ExtTreeMap.contains_insert_self⟩
    · intro error _ u ended
      cases ended
  have relations : ∀ (relation : Relation) (e : Engine),
      Leads (HostM.request "define_relation"
        (.defineRelation relation.id relation.source relation.target)) e fun r e' =>
          ∀ u, r = .ok u → e.Extended e' ∧ e'.relations.contains relation.id = true := by
    intro relation e
    refine HostM.request_leads ?_ ?_
    · intro answer e' done u _
      exact Engine.Extended.defineRelation (Engine.changing_eq_ok.mp done)
    · intro error _ u ended
      cases ended
  unfold openOn
  refine check_leads.onward ?_ fun _ _ _ store ended => by cases ended
  intro u e₁ checked
  obtain ⟨accepted, rfl⟩ := checked u rfl
  refine (forM_leads entities fun _ _ _ extended => extended.entities).onward ?_
    fun _ _ _ store ended => by cases ended
  intro u e₂ defined
  obtain ⟨extended, entities⟩ := defined u rfl
  refine (forM_leads relations fun _ _ _ extended => extended.relations).onward ?_
    fun _ _ _ store ended => by cases ended
  intro u e₃ defined
  obtain ⟨extended', relations⟩ := defined u rfl
  refine Leads.bind (host_leads fun host same => ?_)
  simp only [Onward, same]
  refine check_leads.onward ?_ fun _ _ _ store ended => by cases ended
  intro strategy e₄ decided
  obtain ⟨decided, rfl⟩ := decided strategy rfl
  apply Leads.pure
  rintro store ⟨⟩
  exact ⟨⟨accepted, decided, rfl, rfl, rfl, rfl, rfl⟩, extended.trans extended',
    fun entity member => extended'.entities (entities entity member), relations⟩

end Store

namespace Session

/-- A session of an empty store of events, notes and tags. -/
structure Fresh (config : Config) (s : Session) : Prop where
  faults : s.host.faults = []
  opened : s.store.Opened smallModel config s.host.machine.engine
  exclusive : s.host.machine.engine.Exclusive
  numbered : s.host.machine.engine.Numbered
  committed : s.host.machine.engine.committed = {}
  txns : s.host.machine.engine.txns = ∅
  writer : s.host.machine.engine.writer = none
  entities : ∀ entity ∈ smallModel.entities,
    s.host.machine.engine.entities.contains entity.id = true
  relations : ∀ relation ∈ smallModel.relations,
    s.host.machine.engine.relations.contains relation.id = true

theorem fresh_of_opened {arrays : Bool} {s : Session} (opened : fresh arrays config = .ok s) :
    s.Fresh config := by
  obtain ⟨e, ⟨plain, rfl⟩, holds⟩ := @Store.openOn_leads { arrays } smallModel config
    { machine := .fresh arrays } ⟨rfl, rfl⟩
  simp only [fresh, openOn] at opened
  generalize ran : (Store.openOn smallModel config).run { machine := .fresh arrays } = ended
    at opened
  rw [show Runs.run (Store.openOn smallModel config).run { machine := .fresh arrays } = ended
    from ran] at plain holds
  rcases ended with ⟨why | store, host⟩
  · cases opened
  · cases opened
    obtain ⟨opened, extended, entities, relations⟩ := holds store rfl
    have none : host.machine.engine.txns = ∅ := extended.txns
    have empty : host.machine.engine.committed = {} := extended.committed
    refine ⟨plain, opened, ⟨?_, ?_, ?_⟩, ⟨?_, ?_⟩, empty, none,
      extended.writer, entities, relations⟩
    all_goals simp [none, empty, Engine.Reaches, Snapshot.contains, Snapshot.table]

end Session

end ObjectStore
