import Mathlib.Data.List.Induction
import ObjectStore.Proofs.Store.Opening

/-! # Models that are built, and stores opened on them

A model is built in the order of registration, and each entity type and relation is checked against
those registered before it. All the checks together come to a condition in which that order has no
part, `Model.WellFormed`: the model is built exactly if it holds, and then lists what was
registered.

A store keeps its model in tables without an order of their own, so opening it may define what the
model lists in any order, entity types before relations. Every order ends with the same
definitions: ids are used once, and the types a relation leads between are all defined before it.
-/

namespace ObjectStore

open Catalog

/-! ## Keys that are used once -/

section Keys

variable {α κ : Type} [DecidableEq κ] {key : α → κ} {list : List α} {a : α} {k : κ}

theorem isSome_find?_key : (list.find? (key · = k)).isSome = true ↔ k ∈ list.map key := by
  simp [List.find?_isSome]

theorem find?_key_of_mem (distinct : (list.map key).Nodup) (member : a ∈ list) :
    list.find? (key · = key a) = some a := by
  obtain ⟨found, here⟩ := Option.isSome_iff_exists.mp
    (isSome_find?_key.mpr (List.mem_map_of_mem (f := key) member))
  have same : key found = key a := by simpa using List.find?_some here
  rw [here, List.inj_on_of_nodup_map distinct (List.mem_of_find?_eq_some here) member same]

theorem find?_key_eq_some (distinct : (list.map key).Nodup) :
    list.find? (key · = k) = some a ↔ a ∈ list ∧ key a = k := by
  constructor
  · intro found
    exact ⟨List.mem_of_find?_eq_some found, by simpa using List.find?_some found⟩
  · rintro ⟨member, rfl⟩
    exact find?_key_of_mem distinct member

end Keys

theorem nodup_map_snoc {α β : Type} {f : α → β} {list : List α} {a : α} :
    ((list ++ [a]).map f).Nodup ↔ (list.map f).Nodup ∧ f a ∉ list.map f := by
  rw [List.map_append, List.map_singleton, ← List.concat_eq_append, List.nodup_concat, and_comm]

theorem forall_mem_snoc {α : Type} {P : α → Prop} {list : List α} {a : α} :
    (∀ b ∈ list ++ [a], P b) ↔ (∀ b ∈ list, P b) ∧ P a := by
  simp [or_imp, forall_and]

/-- A table holds exactly the entries it was made of, if no key is used twice. -/
theorem getElem?_insertMany_empty {β : Type} {entries : List (UInt32 × β)} {k : UInt32} {b : β}
    (distinct : (entries.map Prod.fst).Nodup) :
    ((∅ : Std.ExtTreeMap UInt32 β).insertMany entries)[k]? = some b ↔ (k, b) ∈ entries := by
  have apart : entries.Pairwise fun x y => ¬ compare x.1 y.1 = .eq := by
    rw [List.nodup_iff_pairwise_ne, List.pairwise_map] at distinct
    exact distinct.imp fun other same => other (Std.compare_eq_iff_eq.mp same)
  have found {b : β} (member : (k, b) ∈ entries) :
      ((∅ : Std.ExtTreeMap UInt32 β).insertMany entries)[k]? = some b :=
    Std.ExtTreeMap.getElem?_insertMany_list_of_mem (Std.compare_eq_iff_eq.mpr rfl) apart member
  refine ⟨fun holds => ?_, found⟩
  by_cases used : k ∈ entries.map Prod.fst
  · obtain ⟨⟨k, b'⟩, member, rfl⟩ := List.mem_map.mp used
    obtain rfl : b' = b := Option.some.inj ((found member).symm.trans holds)
    exact member
  · rw [Std.ExtTreeMap.getElem?_insertMany_list_of_contains_eq_false
      (Bool.eq_false_iff.mpr fun listed => used (List.contains_iff_mem.mp listed))] at holds
    simp at holds

/-! ## Building -/

namespace Model

variable {m : Model} {entity : EntityDescriptor} {entities : List EntityDescriptor}
  {relation : Relation} {binding : String} {relations : List (Relation × String)}

/-- What makes a model of entity types and relations, each relation with the binding it is typed
by. -/
structure WellFormed (entities : List EntityDescriptor) (relations : List (Relation × String)) :
    Prop where
  nonzero : ∀ entity ∈ entities, entity.id ≠ 0
  ids : (entities.map (·.id)).Nodup
  bindings : (entities.map (·.binding)).Nodup
  relationIds : (relations.map (·.1.id)).Nodup
  sources : ∀ relation ∈ relations, relation.1.source ∈ entities.map (·.id)
  targets : ∀ relation ∈ relations, relation.1.target ∈ entities.map (·.id)
  /-- The binding is the one registered under the target's id. -/
  typed : ∀ relation ∈ relations, ∃ entity ∈ entities,
    entity.binding = relation.2 ∧ entity.id = relation.1.target

theorem isSome_entity? {id : EntityId} :
    (m.entity? id).isSome = true ↔ id ∈ m.entities.map (·.id) :=
  isSome_find?_key

theorem isSome_bound? : (m.bound? binding).isSome = true ↔ binding ∈ m.entities.map (·.binding) :=
  isSome_find?_key

theorem isSome_relation? {id : RelationId} :
    (m.relation? id).isSome = true ↔ id ∈ m.relations.map (·.id) :=
  isSome_find?_key

theorem addEntity_eq_ok {m' : Model} : m.addEntity entity = .ok m' ↔
    entity.id ≠ 0 ∧ entity.id ∉ m.entities.map (·.id) ∧
      entity.binding ∉ m.entities.map (·.binding) ∧
        m' = { m with entities := m.entities ++ [entity] } := by
  rw [← isSome_entity?, ← isSome_bound?, addEntity]
  split
  · simp [*]
  split
  · simp [*]
  split <;> simp [*, eq_comm]

theorem addRelation_eq_ok {m' : Model} (bindings : (m.entities.map (·.binding)).Nodup) :
    m.addRelation relation binding = .ok m' ↔
      relation.source ∈ m.entities.map (·.id) ∧ relation.target ∈ m.entities.map (·.id) ∧
        (∃ entity ∈ m.entities, entity.binding = binding ∧ entity.id = relation.target) ∧
          relation.id ∉ m.relations.map (·.id) ∧
            m' = { m with relations := m.relations ++ [relation] } := by
  have typed : (∃ entity ∈ m.entities, entity.binding = binding ∧ entity.id = relation.target) ↔
      (m.bound? binding).map EntityDescriptor.id = some relation.target := by
    simp only [bound?, Option.map_eq_some_iff, find?_key_eq_some bindings, and_assoc]
  rw [typed, ← isSome_entity?, ← isSome_entity?, ← isSome_relation?, addRelation]
  simp only [← Option.not_isSome, Bool.not_eq_true', Bool.eq_false_iff, ne_eq]
  split
  next unknown => simp [unknown]
  split
  next unknown => simp [unknown]
  split
  next mistyped => simp [mistyped]
  split
  next used => simp [used]
  next source target typed new =>
  rw [Decidable.not_not] at source target typed
  rw [Except.ok.injEq]
  exact ⟨fun same => ⟨source, target, typed, new, same.symm⟩, fun added => added.2.2.2.2.symm⟩

/-- The checks of each entity type against those before it say that no id and no binding is used
twice. -/
theorem addEntities_eq_ok : entities.foldlM addEntity {} = .ok m ↔
    (∀ entity ∈ entities, entity.id ≠ 0) ∧ (entities.map (·.id)).Nodup ∧
      (entities.map (·.binding)).Nodup ∧ m = { entities } := by
  -- From the right: the model before the last entity type lists the others.
  induction entities using List.reverseRecOn generalizing m with
  | nil => simp [pure, Except.pure, eq_comm]
  | append_singleton entities last ih =>
      rw [List.foldlM_append, bind_eq_ok, forall_mem_snoc, nodup_map_snoc, nodup_map_snoc]
      simp only [List.foldlM_cons, List.foldlM_nil, bind_pure, ih, addEntity_eq_ok]
      constructor
      · rintro ⟨before, ⟨nonzero, ids, bindings, rfl⟩, nonzero', newId, newBinding, rfl⟩
        exact ⟨⟨nonzero, nonzero'⟩, ⟨ids, newId⟩, ⟨bindings, newBinding⟩, rfl⟩
      · rintro ⟨⟨nonzero, nonzero'⟩, ⟨ids, newId⟩, ⟨bindings, newBinding⟩, rfl⟩
        exact ⟨_, ⟨nonzero, ids, bindings, rfl⟩, nonzero', newId, newBinding, rfl⟩

theorem addRelations_eq_ok (bindings : (entities.map (·.binding)).Nodup) :
    relations.foldlM (fun (m : Model) relation => m.addRelation relation.1 relation.2)
        { entities } = .ok m ↔
      (relations.map (·.1.id)).Nodup ∧
        (∀ relation ∈ relations, relation.1.source ∈ entities.map (·.id)) ∧
        (∀ relation ∈ relations, relation.1.target ∈ entities.map (·.id)) ∧
        (∀ relation ∈ relations, ∃ entity ∈ entities,
          entity.binding = relation.2 ∧ entity.id = relation.1.target) ∧
          m = { entities, relations := relations.map Prod.fst } := by
  induction relations using List.reverseRecOn generalizing m with
  | nil => simp [pure, Except.pure, eq_comm]
  | append_singleton relations last ih =>
      rw [List.foldlM_append, bind_eq_ok, forall_mem_snoc, forall_mem_snoc, forall_mem_snoc,
        nodup_map_snoc]
      simp only [List.foldlM_cons, List.foldlM_nil, bind_pure, ih]
      constructor
      · rintro ⟨before, ⟨ids, sources, targets, typed, rfl⟩, added⟩
        obtain ⟨source, target, typed', newId, rfl⟩ := (addRelation_eq_ok bindings).mp added
        refine ⟨⟨ids, ?_⟩, ⟨sources, source⟩, ⟨targets, target⟩, ⟨typed, typed'⟩, by simp⟩
        simpa using newId
      · rintro ⟨⟨ids, newId⟩, ⟨sources, source⟩, ⟨targets, target⟩, ⟨typed, typed'⟩, rfl⟩
        refine ⟨_, ⟨ids, sources, targets, typed, rfl⟩, (addRelation_eq_ok bindings).mpr
          ⟨source, target, typed', ?_, by simp⟩⟩
        simpa using newId

/-- Exactly what is well-formed is built, as it was registered. -/
theorem build_eq_ok : build entities relations = .ok m ↔
    WellFormed entities relations ∧ m = { entities, relations := relations.map Prod.fst } := by
  simp only [build, bind_eq_ok, addEntities_eq_ok]
  constructor
  · rintro ⟨_, ⟨nonzero, ids, bindings, rfl⟩, added⟩
    obtain ⟨relationIds, sources, targets, typed, rfl⟩ := (addRelations_eq_ok bindings).mp added
    exact ⟨⟨nonzero, ids, bindings, relationIds, sources, targets, typed⟩, rfl⟩
  · rintro ⟨well, rfl⟩
    exact ⟨_, ⟨well.nonzero, well.ids, well.bindings, rfl⟩, (addRelations_eq_ok well.bindings).mpr
      ⟨well.relationIds, well.sources, well.targets, well.typed, rfl⟩⟩

/-- A model lists certain entity types and relations and nothing else, and finds each of them. -/
structure Lists (m : Model) (entities : List EntityDescriptor) (relations : List Relation) :
    Prop where
  onlyEntities : m.entities.Perm entities
  onlyRelations : m.relations.Perm relations
  byId : ∀ entity ∈ entities, m.entity? entity.id = some entity
  byBinding : ∀ entity ∈ entities, m.bound? entity.binding = some entity
  relationById : ∀ relation ∈ relations, m.relation? relation.id = some relation

/-- A model lists what another does, in any order. -/
structure Reorders (m m' : Model) : Prop where
  entities : m.entities.Perm m'.entities
  relations : m.relations.Perm m'.relations

theorem WellFormed.lists (well : WellFormed entities relations)
    (ordered : m.Reorders { entities, relations := relations.map Prod.fst }) :
    m.Lists entities (relations.map Prod.fst) := by
  have ids := (ordered.entities.map (·.id)).nodup_iff.mpr well.ids
  have bindings := (ordered.entities.map (·.binding)).nodup_iff.mpr well.bindings
  have relationIds := (ordered.relations.map (·.id)).nodup_iff.mpr
    (by simpa [Function.comp_def] using well.relationIds)
  exact ⟨ordered.entities, ordered.relations,
    fun entity member => find?_key_of_mem ids (ordered.entities.mem_iff.mpr member),
    fun entity member => find?_key_of_mem bindings (ordered.entities.mem_iff.mpr member),
    fun relation member => find?_key_of_mem relationIds (ordered.relations.mem_iff.mpr member)⟩

end Model

/-! ## Opening -/

/-- Settings that make sense, and ask for nothing that the engine does not support. -/
structure Config.Valid (config : Config) (arrays : Bool) : Prop where
  chunkSize : 0 < config.chunkSize ∧ config.chunkSize ≤ maxIdsPerBlock
  queueCapacity : 0 < config.queueCapacity
  readStrategy : config.readStrategy = some .resultArray → arrays = true

theorem Config.valid_iff {config : Config} {arrays : Bool} : config.Valid arrays ↔
    config.check = .ok () ∧ ∃ strategy, config.strategyFor arrays = .ok strategy := by
  have checked : config.check = .ok () ↔
      (0 < config.chunkSize ∧ config.chunkSize ≤ maxIdsPerBlock) ∧ 0 < config.queueCapacity := by
    simp only [check]
    grind
  have decided : (∃ strategy, config.strategyFor arrays = .ok strategy) ↔
      (config.readStrategy = some .resultArray → arrays = true) := by
    cases asked : config.readStrategy with
    | none => simp [strategyFor, asked]
    | some strategy => cases strategy <;> cases arrays <;> simp [strategyFor, asked]
  rw [checked, decided]
  exact ⟨fun ⟨chunk, queue, strategy⟩ => ⟨⟨chunk, queue⟩, strategy⟩,
    fun ⟨⟨chunk, queue⟩, strategy⟩ => ⟨chunk, queue, strategy⟩⟩

namespace Engine

/-- The engine with entity types and relations defined. -/
def defining (e : Engine) (entities : List EntityDescriptor) (relations : List Relation) : Engine :=
  { e with
    entities := e.entities.insertMany (entities.map fun entity => (entity.id, entity.name))
    relations := e.relations.insertMany
      (relations.map fun relation => (relation.id, ⟨relation.source, relation.target⟩)) }

/-- The entity types and relations that are defined. -/
structure Defines (e : Engine) (entities : List EntityDescriptor) (relations : List Relation) :
    Prop where
  entities (id : EntityId) (name : String) : e.entities[id]? = some name ↔
    ∃ entity ∈ entities, entity.id = id ∧ entity.name = name
  relations (id : RelationId) (ends : Endpoints) : e.relations[id]? = some ends ↔
    ∃ relation ∈ relations, relation.id = id ∧ ⟨relation.source, relation.target⟩ = ends

theorem Defines.of_perm {e : Engine} {entities entities' : List EntityDescriptor}
    {relations relations' : List Relation} (defines : e.Defines entities relations)
    (same : entities.Perm entities') (same' : relations.Perm relations') :
    e.Defines entities' relations' := by
  refine ⟨fun id name => ?_, fun id ends => ?_⟩
  · simp only [defines.entities, same.mem_iff]
  · simp only [defines.relations, same'.mem_iff]

theorem defining_defines {e : Engine} {entities : List EntityDescriptor}
    {relations : List Relation} (undefined : e.entities = ∅ ∧ e.relations = ∅)
    (ids : (entities.map (·.id)).Nodup) (relationIds : (relations.map (·.id)).Nodup) :
    (e.defining entities relations).Defines entities relations := by
  refine ⟨fun id name => ?_, fun id ends => ?_⟩
  · have distinct : ((entities.map fun entity => (entity.id, entity.name)).map Prod.fst).Nodup := by
      simpa [Function.comp_def] using ids
    simp only [defining, undefined]
    refine (getElem?_insertMany_empty distinct).trans ?_
    simp
  · have distinct : ((relations.map fun relation => (relation.id,
        (⟨relation.source, relation.target⟩ : Endpoints))).map Prod.fst).Nodup := by
      simpa [Function.comp_def] using relationIds
    simp only [defining, undefined]
    refine (getElem?_insertMany_empty distinct).trans ?_
    simp

end Engine

namespace Store

variable {e : Engine} {model : Model} {config : Config}

theorem defineEntities_ends {entities : List EntityDescriptor} :
    Ends (entities.forM fun entity =>
        HostM.request "define_entity" (.defineEntity entity.id entity.name)) e
      (.ok ()) (e.defining entities []) := by
  induction entities generalizing e with
  | nil => exact Ends.pure
  | cons entity entities ih =>
      have defined : e.perform callerThread (.defineEntity entity.id entity.name) =
        .ok ((), e.defineEntity entity.id entity.name) := rfl
      refine (HostM.request_ends defined).bind ?_
      have rest : (e.defineEntity entity.id entity.name).defining entities [] =
          e.defining (entity :: entities) [] := by
        simp [Engine.defining, Engine.defineEntity, Std.ExtTreeMap.insertMany_cons]
      rw [← rest]
      exact ih

/-- Relations between defined entity types can be defined in any order. -/
theorem defineRelations_ends {relations : List Relation}
    (known : ∀ relation ∈ relations, e.entities.contains relation.source = true ∧
      e.entities.contains relation.target = true) :
    Ends (relations.forM fun relation => HostM.request "define_relation"
        (.defineRelation relation.id relation.source relation.target)) e
      (.ok ()) (e.defining [] relations) := by
  induction relations generalizing e with
  | nil => exact Ends.pure
  | cons relation relations ih =>
      obtain ⟨source, target⟩ := known relation List.mem_cons_self
      have defined : e.perform callerThread
          (.defineRelation relation.id relation.source relation.target) =
            .ok ((), e.defining [] [relation]) := by
        simp [Engine.perform, Engine.changing, Engine.defineRelation, Engine.requireEntity, source,
          target, Engine.defining, bind, Except.bind, pure, Except.pure, Except.map]
      refine (HostM.request_ends defined).bind ?_
      have rest : (e.defining [] [relation]).defining [] relations =
          e.defining [] (relation :: relations) := by
        simp [Engine.defining, Std.ExtTreeMap.insertMany_cons]
      rw [← rest]
      exact ih fun relation member => known relation (List.mem_cons_of_mem _ member)

theorem check_ends {α : Type} {a : α} {x : Except Misuse α} (checked : x = .ok a) :
    Ends (openOn.check x) e (.ok a) e := by
  subst checked
  exact Ends.pure

/-- A store opens if its settings suit the engine and its relations lead between its entity types,
in whatever order they are listed. -/
theorem openOn_ends (valid : config.Valid e.arrays)
    (known : ∀ relation ∈ model.relations, relation.source ∈ model.entities.map (·.id) ∧
      relation.target ∈ model.entities.map (·.id)) :
    Leads (openOn model config) e fun r e' =>
      (∃ store, r = .ok store) ∧ e' = e.defining model.entities model.relations := by
  obtain ⟨accepted, strategy, decided⟩ := Config.valid_iff.mp valid
  have found {id : EntityId} (listed : id ∈ model.entities.map (·.id)) :
      (e.defining model.entities []).entities.contains id = true := by
    simp only [Engine.defining, Std.ExtTreeMap.contains_insertMany_list, Bool.or_eq_true]
    exact .inr (by simpa using listed)
  unfold openOn
  refine (check_ends accepted).bind ?_
  refine defineEntities_ends.bind ?_
  refine (defineRelations_ends fun relation member =>
    ⟨found (known relation member).1, found (known relation member).2⟩).bind ?_
  refine Leads.bind (host_leads fun host same => ?_)
  simp only [Onward, same]
  refine (check_ends decided).bind ?_
  apply Leads.pure
  exact ⟨⟨_, rfl⟩, by simp [Engine.defining]⟩

end Store

/-! ## From registration to an open store -/

namespace Model

variable {m : Model} {entities : List EntityDescriptor} {relations : List (Relation × String)}
  {arrays : Bool} {config : Config}

/-- With any settings that suit it, a store on the model opens over a new engine, and leaves certain
entity types and relations defined there. The engine is as new otherwise. -/
def Opens (m : Model) (entities : List EntityDescriptor) (relations : List Relation) : Prop :=
  ∀ (arrays : Bool) (config : Config), config.Valid arrays →
    ∃ s, (Session.openOn { machine := .fresh arrays } m config).1 = .ok s ∧
      s.store.Opened m config s.host.machine.engine ∧
      s.host.machine.engine.Defines entities relations ∧
      { s.host.machine.engine with entities := ∅, relations := ∅ } = (Machine.fresh arrays).engine

theorem WellFormed.opens (well : WellFormed entities relations)
    (ordered : m.Reorders { entities, relations := relations.map Prod.fst }) :
    m.Opens entities (relations.map Prod.fst) := by
  intro arrays config valid
  have known : ∀ relation ∈ m.relations, relation.source ∈ m.entities.map (·.id) ∧
      relation.target ∈ m.entities.map (·.id) := by
    intro relation member
    obtain ⟨registered, listed, rfl⟩ := List.mem_map.mp (ordered.relations.mem_iff.mp member)
    have same {id : EntityId} := (ordered.entities.map (·.id)).mem_iff (a := id)
    exact ⟨same.mpr (well.sources _ listed), same.mpr (well.targets _ listed)⟩
  let host : Host := { machine := .fresh arrays }
  obtain ⟨_, ⟨-, rfl⟩, ⟨store, ended⟩, after⟩ := @Store.openOn_ends host.machine.engine m config
    valid known host ⟨rfl, rfl⟩
  obtain ⟨_, ⟨-, rfl⟩, holds⟩ := @Store.openOn_leads host.machine.engine m config host ⟨rfl, rfl⟩
  generalize ran : Runs.run (Store.openOn m config).run host = left at ended after holds
  obtain ⟨r, host'⟩ := left
  obtain rfl : r = .ok store := ended
  obtain ⟨opened, -⟩ := holds store rfl
  refine ⟨⟨host', store⟩, ?_, opened, ?_, ?_⟩
  · simp only [Session.openOn]
    rw [show (Store.openOn m config).run host = (.ok store, host') from ran]
    rfl
  · have ids := (ordered.entities.map (·.id)).nodup_iff.mpr well.ids
    have relationIds := (ordered.relations.map (·.id)).nodup_iff.mpr
      (by simpa [Function.comp_def] using well.relationIds)
    rw [show host'.machine.engine = _ from after]
    exact (Engine.defining_defines ⟨rfl, rfl⟩ ids relationIds).of_perm ordered.entities
      ordered.relations
  · rw [show host'.machine.engine = _ from after]
    rfl

/-- Exactly the well-formed models are built. Whatever order a model lists its entity types and
relations in, it lists what was registered and nothing else, and stores open on it. -/
theorem build_exact (entities : List EntityDescriptor) (relations : List (Relation × String)) :
    ((∃ m, build entities relations = .ok m) ↔ WellFormed entities relations) ∧
      ∀ m m' : Model, build entities relations = .ok m → m'.Reorders m →
        m'.Lists entities (relations.map Prod.fst) ∧
          m'.Opens entities (relations.map Prod.fst) := by
  constructor
  · constructor
    · rintro ⟨m, built⟩
      exact (build_eq_ok.mp built).1
    · intro well
      exact ⟨_, build_eq_ok.mpr ⟨well, rfl⟩⟩
  · intro m m' built ordered
    obtain ⟨well, rfl⟩ := build_eq_ok.mp built
    exact ⟨well.lists ordered, well.opens ordered⟩

/-- A store on the fixtures' entity types and relations opens over an engine without arrays, with
both listed backwards. -/
theorem build_exact_backwards :
    let typed := fullModel.relations.zip [tagBinding.name, labelBinding.name, noteBinding.name,
      tagBinding.name, noteBinding.name]
    build fullModel.entities typed = .ok fullModel ∧
      (⟨fullModel.entities.reverse, fullModel.relations.reverse⟩ : Model).Reorders fullModel ∧
      Config.Valid {} false ∧
      ∃ s, (Session.openOn { machine := .fresh false }
          ⟨fullModel.entities.reverse, fullModel.relations.reverse⟩ {}).1 = .ok s ∧
        s.host.machine.engine.Defines fullModel.entities (typed.map Prod.fst) := by
  intro typed
  have built : build fullModel.entities typed = .ok fullModel := by decide
  have ordered : (⟨fullModel.entities.reverse, fullModel.relations.reverse⟩ : Model).Reorders
      fullModel := ⟨List.reverse_perm _, List.reverse_perm _⟩
  have valid : Config.Valid {} false := ⟨by decide, by decide, by decide⟩
  have opens := ((build_exact fullModel.entities typed).2 _ _ built ordered).2
  obtain ⟨s, opened, -, defines, -⟩ := opens false {} valid
  exact ⟨built, ordered, valid, s, opened, defines⟩

end Model

end ObjectStore
