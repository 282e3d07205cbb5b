import ObjectStore.Proofs.Store.Reachable
import ObjectStore.Proofs.Store.Twins

/-! # The two ways to read several objects

A store opened to read arrays of records and one opened to hand records to a visitor, over the same
engine, answer every bulk read alike, whatever is stored: the same objects and empty places in the
same order, with the same related objects, or the same error.

Related objects are loaded by a binding's own program. `Loading` has the programs that do so by
what a binding is given for it: reads in the transaction of the call, and the boxes of the model.
-/

namespace ObjectStore

variable {model : Model} {txn : Txn} {α : Type}

/-! ## Loading related objects -/

/-- Programs that load related objects: they make calls on data, read by the boxes of the model in
    the transaction they are given, and may go on after a failure. -/
inductive Loading (model : Model) (txn : Txn) : {α : Type} → StoreM α → Prop where
  | pure {α : Type} (a : α) : Loading model txn (Pure.pure a)
  | throw {α : Type} (why : StoreError) : Loading model txn (MonadExcept.throw why : StoreM α)
  | bind {α β : Type} {program : StoreM α} {next : α → StoreM β} : Loading model txn program →
      (∀ a, Loading model txn (next a)) → Loading model txn (program >>= next)
  | recover {α : Type} {program : StoreM α} {handler : StoreError → StoreM α} :
      Loading model txn program → (∀ why, Loading model txn (handler why)) →
      Loading model txn (tryCatch program handler)
  | request {operation : String} {call : Call} : call.onData = true →
      Loading model txn (StoreM.ofHost (HostM.request operation call))
  | boxFor {α T : Type} {binding : Binding T} {next : Box T → StoreM α} :
      (∀ b : Box T, b.binding = binding → b.descriptor ∈ model.entities →
        Loading model txn (next b)) → Loading model txn (Store.boxFor binding >>= next)
  | getIn {T : Type} {b : Box T} {id : ObjectId} :
      (b.descriptor.hasRelations = true →
        ∀ object, Loading model txn (b.binding.loadRelated txn object)) →
      Loading model txn (b.getIn txn id)
  | readMany {T : Type} {b : Box T} {selection : Selection} {existingOnly : Bool} :
      b.descriptor ∈ model.entities → (b.descriptor.hasRelations = true →
        ∀ object, Loading model txn (b.binding.loadRelated txn object)) →
      Loading model txn (b.readMany txn selection existingOnly)

/-- A binding that loads related objects by such programs. -/
def Binding.Loads {T : Type} (binding : Binding T) (model : Model) : Prop :=
  ∀ txn object, Loading model txn (binding.loadRelated txn object)

namespace Box

variable {T : Type} {b : Box T} {id : ObjectId}

theorem getIn_alike (loads : b.descriptor.hasRelations = true → ∀ object,
    Alike (Session.Twins (Engine.Serves model txn) model) (b.binding.loadRelated txn object)
      (b.binding.loadRelated txn object) fun _ => Session.Twins (Engine.Serves model txn) model) :
    Alike (Session.Twins (Engine.Serves model txn) model) (b.getIn txn id) (b.getIn txn id)
      fun _ => Session.Twins (Engine.Serves model txn) model := by
  have made : Alike (Session.Twins (Engine.Serves model txn) model)
      (StoreM.ofHost (HostM.perform (.get (some txn.handle) b.entity id)))
      (StoreM.ofHost (HostM.perform (.get (some txn.handle) b.entity id)))
      fun _ => Session.Twins (Engine.Serves model txn) model := by
    refine (StoreM.ofHost_alike (HostM.perform_alike (Q := fun _ => Engine.Serves model txn)
      (fun e record e' holds done => holds.perform rfl done) fun _ _ holds => holds)).weaken ?_
    intro r s s' twins
    cases r <;> exact twins
  unfold getIn
  refine StoreM.ensureOpen_alike.andThen fun _ => made.andThen fun reply => ?_
  split
  · rename_i record
    refine Alike.andThen ?_ fun object => Alike.andThen ?_ fun _ =>
      Alike.pure fun _ _ twins => twins
    · unfold decode
      split
      · exact Alike.pure fun _ _ twins => twins
      · exact Alike.throw fun _ _ twins => twins
    · unfold loadRelated
      split
      · exact loads ‹_› object
      · exact Alike.pure fun _ _ twins => twins
  · exact Alike.pure fun _ _ twins => twins
  · exact (StoreM.ofHost_alike HostM.failure_alike).bind
      (fun _ => Alike.throw fun _ _ twins => twins) fun _ _ _ twins => twins

end Box

namespace Loading

theorem alike {program : StoreM α} (h : Loading model txn program) :
    Alike (Session.Twins (Engine.Serves model txn) model) program program
      fun _ => Session.Twins (Engine.Serves model txn) model := by
  induction h with
  | pure a => exact Alike.pure fun _ _ twins => twins
  | throw why => exact Alike.throw fun _ _ twins => twins
  | bind first next first_ih next_ih => exact first_ih.andThen next_ih
  | recover first handled first_ih handled_ih => exact first_ih.recover handled_ih
  | request data =>
      refine (StoreM.ofHost_alike (HostM.request_alike (Q := fun _ => Engine.Serves model txn)
        fun e answer e' holds done => holds.perform data done)).weaken ?_
      intro r s s' twins
      cases r <;> exact twins
  | boxFor next next_ih => exact Store.boxFor_alike next_ih
  | getIn loads loads_ih => exact Box.getIn_alike loads_ih
  | readMany member loads loads_ih => exact Box.readMany_alike member loads_ih

theorem relatedObjects {T : Type} {binding : Binding T} {relation : Relation} {source : ObjectId}
    (loads : binding.Loads model) :
    Loading model txn (Store.relatedObjects binding txn relation source) := by
  have rest : Loading model txn (do
      let ids ← HostM.request "rel_get_ids" (.relGetIds (some txn.handle) relation.id source)
      (← Store.boxFor binding).getManyExistingIn txn ids) := by
    refine bind (request ?_) fun ids => boxFor fun b same member => ?_
    · rfl
    · refine bind (readMany member ?_) fun _ => pure _
      rw [same]
      exact fun _ => loads txn
  unfold Store.relatedObjects
  split
  · exact bind (throw _) fun _ => rest
  · exact rest

end Loading

/-! ## Own transactions -/

namespace Store

variable {P : Engine → Prop}

theorem beginTxn_alike {mode : TxnMode} :
    Alike (Session.Twins (Engine.Knows model) model) (beginTxn mode) (beginTxn mode) fun r =>
      Session.Twins (HostM.After (Engine.Knows model) (fun txn => Engine.Serves model txn) r)
        model := by
  refine StoreM.ensureOpen_alike.bind (fun _ => StoreM.ofHost_alike ?_) fun _ _ _ twins => twins
  refine (HostM.request_alike (Q := fun handle => Engine.Serves model ⟨handle, mode⟩)
    fun e handle e' knows begun => knows.begin begun).bind ?_ fun _ _ _ twins => twins
  exact fun handle => Alike.pure fun _ _ twins => twins

theorem commit_alike :
    Alike (Session.Twins P model) (StoreM.ofHost txn.commit) (StoreM.ofHost txn.commit)
      fun _ => Session.Twins (fun _ => True) model := by
  refine (StoreM.ofHost_alike (HostM.request_alike (Q := fun _ _ => True)
    fun _ _ _ _ _ => trivial)).weaken ?_
  rintro r s s' ⟨twins, stores⟩
  exact ⟨twins.weaken fun _ => trivial, stores⟩

theorem drop_alike :
    Alike (Session.Twins P model) (StoreM.ofHost txn.drop) (StoreM.ofHost txn.drop)
      fun _ => Session.Twins (fun _ => True) model := by
  have made : Alike (Host.Twins P) txn.drop txn.drop
      fun r => Host.Twins (HostM.After P (fun _ _ => True) r) :=
    (HostM.perform_alike (Q := fun _ _ => True) (fun _ _ _ _ _ => trivial)
      fun _ _ _ => trivial).bind (fun _ => Alike.pure fun _ _ twins => twins)
      fun _ _ _ twins => twins
  refine (StoreM.ofHost_alike made).weaken ?_
  rintro r s s' ⟨twins, stores⟩
  exact ⟨twins.weaken fun _ => trivial, stores⟩

theorem runInTxn_alike {program : Txn → StoreM α}
    (body : ∀ txn, Alike (Session.Twins (Engine.Serves model txn) model) (program txn)
      (program txn) fun _ => Session.Twins (Engine.Serves model txn) model) :
    Alike (Session.Twins (Engine.Knows model) model) (runInTxn .read program)
      (runInTxn .read program) fun _ => Session.Twins (fun _ => True) model := by
  let Over (w w' : Unit × Session) : Prop := Session.Twins (fun _ => True) model w.2 w'.2
  have own : Alike (fun w w' : Unit × Session =>
        Session.Twins (Engine.Knows model) model w.2 w'.2)
      (runIn .read fun txn => (program txn : Editing Unit α))
      (runIn .read fun txn => (program txn : Editing Unit α)) fun _ => Over := by
    unfold runIn
    refine Alike.bind (Alike.ofStore beginTxn_alike) (fun txn => ?_) ?_
    · refine Alike.bind (Alike.outcome (S := fun _ w w' =>
        Session.Twins (Engine.Serves model txn) model w.2 w'.2) (Alike.ofStore (body txn))) ?_ ?_
      · intro ended
        cases ended with
        | ok a =>
            exact (Alike.ofStore commit_alike).bind (fun _ => Alike.pure fun _ _ twins => twins)
              fun _ _ _ twins => twins
        | error why =>
            exact (Alike.ofStore drop_alike).bind (fun _ => Alike.throw fun _ _ twins => twins)
              fun _ _ _ twins => twins
      · rintro why w w' ⟨twins, stores⟩
        exact ⟨twins.weaken fun _ => trivial, stores⟩
    · rintro why w w' ⟨twins, stores⟩
      exact ⟨twins.weaken fun _ => trivial, stores⟩
  exact fun s s' twins => own ((), s) ((), s') twins

end Store

/-! ## Opened over one engine -/

namespace HostM

theorem bind_answers {β : Type} {program : HostM α} {f : α → HostM β} {h h' : Host} {b : β}
    (ran : (program >>= f) h = (.ok b, h')) :
    ∃ a h₁, program h = (.ok a, h₁) ∧ f a h₁ = (.ok b, h') := by
  cases first : program h with
  | mk r h₁ =>
      cases r with
      | ok a => exact ⟨a, h₁, rfl, (bind_run first).symm.trans ran⟩
      | error why =>
          have failed : (program >>= f) h = (.error why, h₁) :=
            Alike.run_bind_error (p := program) (f := f) first
          cases failed.symm.trans ran

end HostM

namespace Store

theorem openOn_defines {config : Config} {host host' : Host} {store : Store}
    (opened : openOn model config host = (.ok store, host')) :
    (do
      model.entities.forM fun entity =>
        HostM.request "define_entity" (.defineEntity entity.id entity.name)
      model.relations.forM fun relation =>
        HostM.request "define_relation"
          (.defineRelation relation.id relation.source relation.target) : HostM Unit) host =
      (.ok (), host') := by
  have checked {β : Type} {x : Except Misuse β} {a : β} {h h₁ : Host}
      (ran : openOn.check x h = (.ok a, h₁)) : h₁ = h := by
    cases x <;> cases ran
    rfl
  unfold openOn at opened
  obtain ⟨_, h₁, accepted, defined⟩ := HostM.bind_answers opened
  obtain ⟨_, h₂, entities, linked⟩ := HostM.bind_answers defined
  obtain ⟨_, h₃, relations, looked⟩ := HostM.bind_answers linked
  obtain ⟨_, h₄, found, settled⟩ := HostM.bind_answers looked
  obtain ⟨_, h₅, decided, made⟩ := HostM.bind_answers settled
  obtain rfl := checked accepted
  obtain rfl := checked decided
  cases found
  cases made
  rw [HostM.bind_run entities]
  exact relations

end Store

namespace Session

theorem twins_of_openOn {host : Host} {config config' : Config} {s s' : Session}
    (plain : host.faults = []) (arrayed : config.readStrategy = some .resultArray)
    (visiting : config'.readStrategy = some .visitor)
    (opened : (openOn host model config).1 = .ok s)
    (opened' : (openOn host model config').1 = .ok s') :
    Session.Twins
      (fun e => e.Knows model ∧ e.txns = host.machine.engine.txns) model s s' := by
  obtain ⟨e, ⟨faults, rfl⟩, holds⟩ :=
    @Store.openOn_leads host.machine.engine model config host ⟨plain, rfl⟩
  obtain ⟨e', ⟨faults', rfl⟩, holds'⟩ :=
    @Store.openOn_leads host.machine.engine model config' host ⟨plain, rfl⟩
  simp only [openOn] at opened opened'
  generalize ran : (Store.openOn model config).run host = ended at opened
  generalize ran' : (Store.openOn model config').run host = ended' at opened'
  rw [show Runs.run (Store.openOn model config).run host = ended from ran] at faults holds
  rw [show Runs.run (Store.openOn model config').run host = ended' from ran'] at faults' holds'
  rcases ended with ⟨why | store, host₁⟩ <;> cases opened
  rcases ended' with ⟨why | store', host₂⟩ <;> cases opened'
  obtain ⟨settled, extended, entities, -⟩ := holds store rfl
  obtain ⟨settled', -, -, -⟩ := holds' store' rfl
  have same : host₂ = host₁ := by
    have defined := (Store.openOn_defines ran').symm.trans (Store.openOn_defines ran)
    cases defined
    rfl
  have reads := settled.strategy
  have visits := settled'.strategy
  rw [Config.strategyFor, arrayed] at reads
  rw [Config.strategyFor, visiting] at visits
  cases arrays : host₁.machine.engine.arrays with
  | false => simp [arrays] at reads
  | true =>
      simp only [arrays, if_true, Except.ok.injEq] at reads
      simp only [Except.ok.injEq] at visits
      exact ⟨⟨faults, faults', congrArg Host.machine same, ⟨arrays, entities⟩, extended.txns⟩,
        settled.model_eq, settled'.model_eq, settled'.closed.trans settled.closed.symm,
        reads.symm, visits.symm⟩

end Session

/-- A store that reads arrays and one that visits, opened over one engine, answer every bulk read
    alike, in an open transaction or in one of its own: whatever the records and links are, the
    objects and empty places are the same, and so is the error if there is one. -/
theorem Box.strategies_agree {T : Type} {b : Box T} {host : Host} {config config' : Config}
    {s s' : Session} {txn : Option Txn} (plain : host.faults = [])
    (arrayed : config.readStrategy = some .resultArray)
    (visiting : config'.readStrategy = some .visitor)
    (opened : (Session.openOn host model config).1 = .ok s)
    (opened' : (Session.openOn host model config').1 = .ok s')
    (member : b.descriptor ∈ model.entities)
    (loads : b.descriptor.hasRelations = true → b.binding.Loads model)
    (inside : ∀ t, txn = some t → host.machine.engine.txns.contains t.handle = true)
    (ids : List ObjectId) :
    (b.getMany txn ids s').1 = (b.getMany txn ids s).1 ∧
      (b.getManyExisting txn ids s').1 = (b.getManyExisting txn ids s).1 ∧
      (b.getAll txn s').1 = (b.getAll txn s).1 := by
  obtain ⟨twins, stores⟩ := Session.twins_of_openOn plain arrayed visiting opened opened'
  have read (t : Txn) {selection : Selection} {existingOnly : Bool} :
      Alike (Session.Twins (Engine.Serves model t) model) (b.readMany t selection existingOnly)
        (b.readMany t selection existingOnly)
        fun _ => Session.Twins (Engine.Serves model t) model :=
    Box.readMany_alike member fun related object => (loads related t object).alike
  have agree {α : Type} {program : Txn → StoreM α}
      (alike : ∀ t, Alike (Session.Twins (Engine.Serves model t) model) (program t) (program t)
        fun _ => Session.Twins (Engine.Serves model t) model) :
      (Box.reading txn program s').1 = (Box.reading txn program s).1 := by
    cases txn with
    | none =>
        exact (Store.runInTxn_alike alike s s' ⟨twins.weaken fun holds => holds.1, stores⟩).1
    | some t =>
        have serves : s.host.machine.engine.Serves model t := by
          refine ⟨twins.holds.1, ?_⟩
          rw [twins.holds.2]
          exact inside t rfl
        exact (alike t s s' ⟨twins.weaken fun _ => serves, stores⟩).1
  refine ⟨agree fun t => read t, agree fun t => ?_, agree fun t => ?_⟩
  · exact (read t).andThen fun _ => Alike.pure fun _ _ twins => twins
  · exact (read t).andThen fun _ => Alike.pure fun _ _ twins => twins

/-! ## The example bindings -/

namespace Catalog

theorem noteBinding_loads : noteBinding.Loads model := by
  intro txn note
  refine Loading.bind (Loading.relatedObjects ?_) fun tags => Loading.pure _
  exact fun _ tag => Loading.pure tag

theorem folderBinding_loads : folderBinding.Loads model := by
  intro txn folder
  exact Loading.bind (Loading.relatedObjects noteBinding_loads) fun notes => Loading.pure _

/-- The box of folders. -/
@[reducible] def folderBox : Box Folder :=
  ⟨⟨14, "Folder", true, folderBinding.name⟩, folderBinding⟩

/-- Folders as raw writes leave them: one with a note, one that is no record, and one with a note
    that has no id. A read transaction sees them. -/
def damagedFolders : Host where
  machine :=
    [.defineEntity 11 "Note", .defineEntity 12 "Tag", .defineEntity 14 "Folder",
      .defineRelation 20 11 12, .defineRelation 24 14 11,
      .put none 14 1 (Record.write 1 (Folder.body { name := "f" })).bytes .put,
      .put none 14 2 [0xff] .put,
      .put none 14 3 (Record.write 3 (Folder.body { name := "g" })).bytes .put,
      .put none 11 7 (Record.write 7 (Note.body { text := "a" })).bytes .put,
      .put none 11 8 (Record.write 0 (Note.body { text := "b" })).bytes .put,
      .relPut none 24 1 7, .relPut none 24 3 8, .begin .read].foldl
        (fun machine call => ((machine.step callerThread call).map Prod.snd).getD machine)
        (Machine.fresh true)

/-- The folder that can be loaded. -/
def soundFolder : Folder :=
  { id := 1, name := "f", notes := some [{ id := 7, text := "a", tags := some [] }] }

/-- How the folders are read decides neither what is found of them nor why they cannot be read. -/
theorem damagedFolders_agree : ∃ s s',
    (Session.openOn damagedFolders fullModel { readStrategy := some .resultArray }).1 = .ok s ∧
    (Session.openOn damagedFolders fullModel { readStrategy := some .visitor }).1 = .ok s' ∧
    (folderBox.getMany (some ⟨1, .read⟩) [1, 9, 0] s').1 = .ok [some soundFolder, none, none] ∧
    (folderBox.getAll (some ⟨1, .read⟩) s').1 = .error (.codec (.unreadable .unfitting)) := by
  have eval : (Session.openOn damagedFolders fullModel
      { readStrategy := some .resultArray }).1.toOption.map (fun s =>
        ((folderBox.getMany (some ⟨1, .read⟩) [1, 9, 0] s).1.toOption,
          match (folderBox.getAll (some ⟨1, .read⟩) s).1 with
          | .ok _ => none
          | .error why => some why)) =
      some (some [some soundFolder, none, none], some (.codec (.unreadable .unfitting))) := by
    decide +kernel
  have eval' : (Session.openOn damagedFolders fullModel
      { readStrategy := some .visitor }).1.toOption.map (fun _ => ()) = some () := by
    decide +kernel
  obtain ⟨s, opened, answers⟩ := Session.exists_of_eval eval
  obtain ⟨s', opened', -⟩ := Session.exists_of_eval eval'
  obtain ⟨many, all⟩ := by simpa only [Prod.mk.injEq] using answers
  have failed : (folderBox.getAll (some ⟨1, .read⟩) s).1 =
      .error (.codec (.unreadable .unfitting)) := by
    cases ended : (folderBox.getAll (some ⟨1, .read⟩) s).1 with
    | ok folders =>
        rw [ended] at all
        cases all
    | error why =>
        rw [ended] at all
        exact congrArg Except.error (Option.some.inj all)
  have inside : ∀ t : Txn, some ⟨1, .read⟩ = some t →
      damagedFolders.machine.engine.txns.contains t.handle = true := by
    rintro t ⟨⟩
    decide +kernel
  have agree := @Box.strategies_agree fullModel Folder folderBox _ _ _ _ _ _ rfl rfl rfl opened
    opened' (by decide) (fun _ => folderBinding_loads) inside
  obtain ⟨sameMany, -, sameAll⟩ := agree [1, 9, 0]
  exact ⟨s, s', opened, opened', sameMany.trans (Session.ok_of_toOption many),
    sameAll.trans failed⟩

end Catalog

end ObjectStore
