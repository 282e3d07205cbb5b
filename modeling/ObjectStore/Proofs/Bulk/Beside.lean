import ObjectStore.Proofs.Links.Linking

/-! # Programs beside an entity type

What goes with an object is kept in boxes of other entity types than its own. If such a program
succeeds, whatever handle it works through, the table and the sequence of the object's entity type
are as they were, and the object still carries its id and is still written as it was
(`Binding.Beside`). In a model that was built no two bindings share an entity type, so the example
bindings are all beside the type of the object they store.
-/

namespace ObjectStore

namespace Editing

variable {σ τ γ δ α β : Type}

/-- If the program succeeds, it leaves what `f` says of the objects, and the table and the sequence
of an entity type. -/
def Beside (u : Setting) (how : Option TxnMode) (own : EntityId) (f : σ → γ) (p : Editing σ α) :
    Prop :=
  ∀ w, Ensures u how p w fun _ w' => f w'.1 = f w.1 ∧ w'.2.stock own = w.2.stock own

namespace Beside

variable {u : Setting} {how : Option TxnMode} {own : EntityId} {f : σ → γ} {p : Editing σ α}

theorem pure {a : α} : Beside u how own f (Pure.pure a : Editing σ α) :=
  fun _ => .pure ⟨rfl, rfl⟩

theorem throw {why : StoreError} :
    Beside u how own f (MonadExcept.throw why : Editing σ α) :=
  fun _ => .throw

theorem bind {next : α → Editing σ β} (first : Beside u how own f p)
    (rest : ∀ a, Beside u how own f (next a)) : Beside u how own f (p >>= next) := by
  refine fun w => .bind ((first w).mono fun a w₁ kept => ?_)
  exact (rest a w₁).mono fun _ _ later => ⟨later.1.trans kept.1, later.2.trans kept.2⟩

theorem forget (h : Beside u how own f p) : Beside u how own (fun _ => ()) p :=
  fun w => (h w).mono fun _ _ kept => ⟨rfl, kept.2⟩

theorem reading {program : StoreM α} {r : Except StoreError α}
    (ends : ∀ v, Ends program v r v) : Beside u how own f (ofStore program : Editing σ α) :=
  fun _ => .reading ends fun _ _ => ⟨rfl, rfl⟩

theorem current : Beside u how own f (current : Editing σ σ) :=
  fun _ => .current ⟨rfl, rfl⟩

/-- A program on a part of the objects leaves what does not depend on that part. -/
theorem focus {g : τ → δ} {part : σ → τ} {fill : σ → τ → σ} {program : Editing τ α}
    (apart : ∀ objects changed, f (fill objects changed) = f objects)
    (h : Beside u how own g program) : Beside u how own f (focus part fill program) :=
  fun w => .focus ((h (part w.1, w.2)).mono fun _ _ kept => ⟨apart .., kept.2⟩)

theorem forM {as : List α} {step : α → Editing σ Unit} (each : ∀ a, Beside u how own f (step a)) :
    Beside u how own f (as.forM step) := by
  induction as with
  | nil => exact .pure
  | cons a as ih => exact (each a).bind fun _ => ih

theorem ensureOpen : Beside u how own f (ofStore StoreM.ensureOpen : Editing σ Unit) :=
  fun _ => .ensureOpen fun _ => ⟨rfl, rfl⟩

theorem misuse {why : Misuse} :
    Beside u how own f (ofStore (StoreM.misuse why) : Editing σ α) :=
  .reading fun _ => StoreM.misuse_ends

/-- What is done with a box that is found is done with the one that is registered. -/
theorem boxFor {T : Type} {binding : Binding T} {program : Box T → Editing σ α}
    (each : ∀ entity, u.store.registered binding.name = .ok entity →
      Beside u how own f (program ⟨entity, binding⟩)) :
    Beside u how own f (ofStore (Store.boxFor binding) >>= program) :=
  fun w => .boxFor fun entity registered => each entity registered w

/-! ### Calls -/

theorem write {operation : String} {call : Call}
    {op : Draft → Except Refusal (call.Answer × Draft)}
    (serves : Draft.Serves u.base u.txn.handle call op)
    (through : call.through = some u.txn.handle) (writes : call.looks = false)
    (apart : Draft.Apart own op) :
    Beside u how own f
      (ofStore (StoreM.ofHost (HostM.request operation call)) : Editing σ call.Answer) :=
  fun _ => .write serves through writes fun _ _ _ done => ⟨rfl, apart.kept done⟩

theorem relGetIds {operation : String} {relation : RelationId} {source : ObjectId} :
    Beside u how own f (ofStore (StoreM.ofHost (HostM.request operation
      (.relGetIds (some u.txn.handle) relation source))) : Editing σ (List ObjectId)) :=
  fun _ => .relGetIds fun _ _ => ⟨rfl, rfl⟩

theorem allocateOne {entity : EntityId} {candidate : ObjectId} (apart : own ≠ entity) :
    Beside u how own f (ofStore (StoreM.ofHost
      (Store.allocateOne (some u.txn.handle) entity candidate)) : Editing σ ObjectId) :=
  fun _ => .allocateOne fun _ _ _ drawn => ⟨rfl, (Draft.apart_idForPut apart).kept drawn⟩

end Beside

end Editing

/-! ## Bindings -/

/-- What a binding reads of an object to write it: the id it carries, and its body. -/
def Binding.written {T : Type} (binding : Binding T) (object : T) :
    Except StoreError ObjectId × Except CodecError Cbor.Value :=
  (binding.id object, binding.body object)

/-- What a binding does for related objects is beside an entity type and leaves the object as far as
    it is written. -/
def Binding.Beside {T : Type} (binding : Binding T) (store : Store) (own : EntityId) : Prop :=
  ∀ u how id, u.store = store →
    Editing.Beside u how own binding.written (binding.putRelated u.txn id)

/-- What a bulk put asks of a binding: what it does for related objects is beside the entity type,
and an object that can be given an id carries it and is written as before. -/
structure Binding.Orderly {T : Type} (binding : Binding T) (store : Store) (own : EntityId) :
    Prop where
  beside : binding.Beside store own
  carries {object object' : T} {current id : ObjectId} : binding.id object = .ok current →
    binding.setId object id = .ok object' → binding.written object' = (.ok id, binding.body object)

namespace Box

variable {T : Type} {b : Box T} {u : Setting} {how : Option TxnMode} {own : EntityId}
  {id current : ObjectId} {mode : PutMode}

theorem currentId_beside : Editing.Beside u how own b.binding.written b.currentId :=
  fun _ => .currentId fun _ _ => ⟨rfl, rfl⟩

theorem assignId_beside : Editing.Beside u how own (fun _ => ()) (b.assignId id) :=
  fun _ => .assignId fun _ _ => ⟨rfl, rfl⟩

variable (related : b.binding.Beside u.store own)
include related

theorem encodeUnder_beside :
    Editing.Beside u how own b.binding.written (b.encodeUnder u.txn id) := by
  have encoded : Editing.Beside u how own b.binding.written
      (do b.encode id (← Editing.current) : Editing T Bytes) :=
    .bind .current fun _ => .reading fun _ => Box.encode_makes
  unfold encodeUnder
  split
  · exact .bind (related u how id rfl) fun _ => encoded
  · exact encoded

variable (apart : own ≠ b.entity)
include apart

theorem write_beside :
    Editing.Beside u how own b.binding.written (b.write (some u.txn) current mode) := by
  have stored (id : ObjectId) :
      Editing.Beside u how own b.binding.written (b.storeUnder (some u.txn) id mode) := by
    rw [storeUnder_eq]
    exact .bind (encodeUnder_beside related) fun _ =>
      .bind (.write Draft.serves_put rfl rfl (Draft.apart_put apart)) fun _ => .pure
  by_cases update : mode = .update
  · subst update
    rw [write_update_eq]
    exact stored current
  · rw [write_eq update]
    exact .bind (.allocateOne apart) stored

/-- An object of another type may be given an id at the end, so nothing is said of it. -/
theorem putObject_beside :
    Editing.Beside u how own (fun _ => ()) (b.putObject (some u.txn) mode) := by
  have stored (current : ObjectId) : Editing.Beside u how own (fun _ => ()) (do
      let id ← b.write (some u.txn) current mode
      if id ≠ current then b.assignId id
      return id) := by
    refine .bind (write_beside related apart).forget fun id => ?_
    split
    · exact .bind assignId_beside fun _ => .pure
    · exact .pure
  refine .bind .ensureOpen fun _ => .bind currentId_beside.forget fun current => ?_
  simp only [Option.isNone_some, Bool.false_eq_true, false_and, if_false]
  split
  · exact .bind .misuse fun _ => stored current
  · exact stored current

end Box

/-! ## Links -/

namespace Store

variable {T : Type} {u : Setting} {how : Option TxnMode} {own : EntityId} {relation : Relation}
  {source stored : ObjectId} {linked : IdSet}

section Targets

variable {b : Box T} (related : b.binding.Beside u.store own) (apart : own ≠ b.entity)
include related apart

theorem linkTarget_beside :
    Editing.Beside u how own (fun _ => ()) (linkTarget b u.txn relation source linked) := by
  have linking (target : ObjectId) : Editing.Beside u how own (fun _ => ()) (do
      if linked.contains target then return linked.erase target
      HostM.request "rel_put" (.relPut (some u.txn.handle) relation.id source target)
      return linked : Editing T IdSet) := by
    split
    · exact .pure
    · exact .bind (.write Draft.serves_relPut rfl rfl Draft.apart_relPut) fun _ => .pure
  refine .bind Box.currentId_beside.forget fun current => ?_
  split
  · exact .bind (Box.putObject_beside related apart) linking
  · exact .bind .pure linking

theorem linkTargets_beside :
    Editing.Beside u how own (fun _ => ()) (linkTargets b u.txn relation source linked) := by
  rintro ⟨targets, d⟩
  induction targets generalizing linked d with
  | nil => exact linkTargets_ensures_nil ⟨rfl, rfl⟩
  | cons target targets ih =>
      have first := @linkTarget_beside _ u how own relation source linked b related apart
      refine linkTargets_ensures_cons ((first (target, d)).mono fun linked w kept => ?_)
      exact (ih w.2).mono fun _ _ later => ⟨rfl, later.2.trans kept.2⟩

end Targets

/-- A binding is not registered for an entity type. -/
def ApartFrom (store : Store) (own : EntityId) (binding : String) : Prop :=
  ∀ entity, store.registered binding = .ok entity → own ≠ entity.id

/-- Replacing links is beside an entity type of which no target is. -/
theorem replaceLinks_beside {binding : Binding T} (related : binding.Beside u.store own)
    (apart : u.store.ApartFrom own binding.name) :
    Editing.Beside u how own (fun _ => ()) (replaceLinks binding u.txn relation source stored) := by
  have linking (linked : List ObjectId) : Editing.Beside u how own (fun _ => ()) (do
      let b ← boxFor binding
      let unwanted ← Editing.focus (fun targets => targets.getD [])
        (fun _ targets => some targets) (linkTargets b u.txn relation source (.ofList linked))
      unwanted.toList.forM fun target =>
        HostM.request "rel_remove" (.relRemove (some u.txn.handle) relation.id source target) :
      Editing (Option (List T)) Unit) := by
    refine .boxFor fun entity registered => .bind ?_ fun unwanted => ?_
    · have targets := @linkTargets_beside _ u how own relation source (.ofList linked)
        ⟨entity, binding⟩ related (apart entity registered)
      exact .focus (fun _ _ => rfl) targets
    · exact .forM fun target => .write Draft.serves_relRemove rfl rfl Draft.apart_relRemove
  refine .bind .current fun targets => ?_
  split
  · split
    · exact .misuse
    · exact .pure
  · split
    · exact .bind .pure linking
    · exact .bind .relGetIds linking

end Store

/-! ## Models that were built -/

namespace Model

variable {m m' : Model}

/-- No id of an entity type is used twice. -/
def Distinct (m : Model) : Prop :=
  (m.entities.map EntityDescriptor.id).Nodup

theorem Distinct.addEntity {entity : EntityDescriptor} (distinct : m.Distinct)
    (added : m.addEntity entity = .ok m') : m'.Distinct := by
  unfold Model.addEntity at added
  split at added
  · cases added
  · split at added
    · cases added
    · split at added
      · cases added
      · rename_i new _
        cases added
        have unused : ∀ other ∈ m.entities, other.id ≠ entity.id := by
          simpa [entity?] using new
        rw [Distinct, List.map_append]
        refine List.nodup_append.mpr ⟨distinct, by simp, ?_⟩
        simpa using unused

theorem Distinct.addRelation {relation : Relation} {binding : String} (distinct : m.Distinct)
    (added : m.addRelation relation binding = .ok m') : m'.Distinct := by
  unfold Model.addRelation at added
  split at added
  · cases added
  · split at added
    · cases added
    · split at added
      · cases added
      · split at added <;> cases added
        exact distinct

/-- What holds at the start and is kept by every step that succeeds holds at the end. -/
theorem foldlM_keeps {ε σ α : Type} {P : σ → Prop} {step : σ → α → Except ε σ} {as : List α}
    {s s' : σ} (each : ∀ s a s', P s → step s a = .ok s' → P s') (holds : P s)
    (done : as.foldlM step s = .ok s') : P s' := by
  induction as generalizing s with
  | nil =>
      cases done
      exact holds
  | cons a as ih =>
      rw [List.foldlM_cons] at done
      obtain ⟨s₁, first, rest⟩ := bind_eq_ok.mp done
      exact ih (each s a s₁ holds first) rest

theorem distinct_of_build {entities : List EntityDescriptor} {relations : List (Relation × String)}
    (built : build entities relations = .ok m) : m.Distinct := by
  obtain ⟨m₁, first, rest⟩ := bind_eq_ok.mp built
  have blank : Distinct {} := List.nodup_nil
  have named : m₁.Distinct := foldlM_keeps (fun _ _ _ => .addEntity) blank first
  exact foldlM_keeps (fun _ _ _ => .addRelation) named rest

/-- Two bindings are registered for two entity types. -/
theorem Distinct.id_ne {entity other : EntityDescriptor} {binding binding' : String}
    (distinct : m.Distinct) (here : m.bound? binding = some entity)
    (there : m.bound? binding' = some other) (apart : binding ≠ binding') :
    entity.id ≠ other.id := by
  intro same
  obtain rfl : entity = other := List.inj_on_of_nodup_map distinct
    (List.mem_of_find?_eq_some here) (List.mem_of_find?_eq_some there) same
  have named := List.find?_some here
  have named' := List.find?_some there
  simp only [decide_eq_true_eq] at named named'
  exact apart (named.symm.trans named')

end Model

theorem Store.apartFrom_of_bound {store : Store} {entity : EntityDescriptor}
    {binding binding' : String} (distinct : store.model.Distinct)
    (bound : store.model.bound? binding = some entity) (apart : binding ≠ binding') :
    store.ApartFrom entity.id binding' := by
  intro other found
  unfold registered at found
  split at found
  · cases found
  · split at found <;> cases found
    exact distinct.id_ne bound ‹_› apart

/-! ## The example bindings -/

namespace Catalog

variable {store : Store} {own : EntityId}

theorem eventBinding_beside : eventBinding.Beside store own := fun _ _ _ _ => .pure

theorem tagBinding_beside : tagBinding.Beside store own := fun _ _ _ _ => .pure

theorem labelBinding_beside : labelBinding.Beside store own := fun _ _ _ _ => .pure

theorem markerBinding_beside : markerBinding.Beside store own := fun _ _ _ _ => .pure

theorem noteBinding_beside (tags : store.ApartFrom own tagBinding.name) :
    noteBinding.Beside store own := by
  rintro u how id rfl
  refine .bind .current fun note => ?_
  split
  · exact .focus (fun _ _ => rfl) (Store.replaceLinks_beside tagBinding_beside tags)
  · exact .pure

theorem folderBinding_beside (tags : store.ApartFrom own tagBinding.name)
    (notes : store.ApartFrom own noteBinding.name)
    (events : store.ApartFrom own eventBinding.name) : folderBinding.Beside store own := by
  rintro u how id rfl
  refine .bind .current fun folder => .bind ?_ fun _ => .boxFor fun entity registered => ?_
  · exact .focus (fun _ _ => rfl) (Store.replaceLinks_beside (noteBinding_beside tags) notes)
  · have told := @Box.putObject_beside _ ⟨entity, eventBinding⟩ u how own .put eventBinding_beside
      (events entity registered)
    exact .bind (.focus (fun _ _ => rfl) told) fun _ => .pure

/-! ### Bulk puts -/

theorem eventBinding_orderly : eventBinding.Orderly store own where
  beside := eventBinding_beside
  carries := by
    rintro _ _ _ _ ⟨⟩ ⟨⟩
    rfl

theorem tagBinding_orderly : tagBinding.Orderly store own where
  beside := tagBinding_beside
  carries := by
    rintro _ _ _ _ ⟨⟩ ⟨⟩
    rfl

theorem markerBinding_orderly : markerBinding.Orderly store own where
  beside := markerBinding_beside
  carries := by
    rintro _ _ _ _ ⟨⟩ ⟨⟩
    rfl

/-- A label that can be asked for its id and given one carries it. -/
theorem labelBinding_orderly : labelBinding.Orderly store own where
  beside := labelBinding_beside
  carries := by
    intro label label' current id asked given
    have readable : label.text ≠ badId := by
      intro bad
      simp [labelBinding, bad] at asked
    simp only [labelBinding] at given
    split at given <;> cases given
    simp [Binding.written, labelBinding, readable, Label.body]

variable {entity : EntityDescriptor} (distinct : store.model.Distinct)
include distinct

theorem noteBinding_orderly (bound : store.model.bound? noteBinding.name = some entity) :
    noteBinding.Orderly store entity.id where
  beside := noteBinding_beside (Store.apartFrom_of_bound distinct bound (by decide))
  carries := by
    rintro _ _ _ _ ⟨⟩ ⟨⟩
    rfl

theorem folderBinding_orderly (bound : store.model.bound? folderBinding.name = some entity) :
    folderBinding.Orderly store entity.id where
  beside := folderBinding_beside (Store.apartFrom_of_bound distinct bound (by decide))
    (Store.apartFrom_of_bound distinct bound (by decide))
    (Store.apartFrom_of_bound distinct bound (by decide))
  carries := by
    rintro _ _ _ _ ⟨⟩ ⟨⟩
    rfl

end Catalog

end ObjectStore
