import Mathlib.Data.List.ReduceOption
import ObjectStore.Proofs.Reads.Looking
import ObjectStore.Proofs.Store.Lasting
import ObjectStore.Proofs.Store.Strategies

/-! # Bulk reads are single reads

A bulk read of a store decodes all selected records before it loads what goes with their objects,
and asks the engine for them in another way than a single read does. It answers what single reads of
the same ids answer, in their order, and fails exactly if one of them does: whatever records and
links the engine holds, by either strategy.

Reads write nothing, so they may be made one after another, in any order and on any boxes of the
store; what each of them answers does not depend on those before it.
-/

namespace ObjectStore

open Catalog

/-! ## Lists of answers -/

theorem mapM_eq_some_iff {α β : Type} {f : α → Option β} {as : List α} {bs : List β} :
    as.mapM f = some bs ↔ List.Forall₂ (fun a b => f a = some b) as bs := by
  induction as generalizing bs with
  | nil => cases bs <;> simp
  | cons a as ih =>
      rw [List.mapM_cons]
      cases bs with
      | nil => cases f a <;> cases as.mapM f <;> simp
      | cons b bs =>
          rw [List.forall₂_cons, ← ih]
          cases f a <;> cases as.mapM f <;> simp

theorem mapM_reduceOption_eq_some_iff {α β : Type} {f : α → Option (Option β)} {as : List α}
    {bs : List β} (never : ∀ a ∈ as, f a ≠ some none) :
    (as.mapM f).map List.reduceOption = some bs ↔
      List.Forall₂ (fun a b => f a = some (some b)) as bs := by
  induction as generalizing bs with
  | nil => cases bs <;> simp
  | cons a as ih =>
      rw [List.mapM_cons]
      have rest := @ih bs.tail fun a member => never a (List.mem_cons_of_mem _ member)
      cases first : f a with
      | none => cases bs <;> simp [first]
      | some place =>
          cases place with
          | none => exact absurd first (never a List.mem_cons_self)
          | some b =>
              cases bs with
              | nil => cases as.mapM f <;> simp
              | cons b' bs =>
                  rw [List.tail_cons] at rest
                  rw [List.forall₂_cons, ← rest, first]
                  cases as.mapM f <;> simp

theorem toOption_eq_some {ε α : Type} {r : Except ε α} {a : α} :
    r.toOption = some a ↔ r = .ok a := by
  cases r <;> simp [Except.toOption]

/-! ## Reads write nothing -/

/-- Nothing was defined or written since `base`, and no transaction of the calls since is open. -/
structure Engine.Unwritten (base e : Engine) : Prop where
  schema : base.SameSchema e
  committed : e.committed = base.committed
  exclusive : e.Exclusive

namespace Engine

variable {base e e' : Engine} {s : Snapshot} {entity : EntityId}

theorem SameSchema.trans (h : base.SameSchema e) (h' : e.SameSchema e') : base.SameSchema e' :=
  ⟨h'.arrays.trans h.arrays, h'.entities.trans h.entities, h'.relations.trans h.relations⟩

theorem Exclusive.unwritten (exclusive : e.Exclusive) : e.Unwritten e :=
  ⟨⟨rfl, rfl, rfl⟩, rfl, exclusive⟩

theorem Unwritten.past (h : base.Unwritten e) (past : e.Past e.committed e') : base.Unwritten e' :=
  ⟨h.schema.trans past.schema, past.committed.trans h.committed, past.exclusive h.exclusive⟩

/-! The calls that are made without a transaction see the committed snapshot. -/

variable (known : e.entities.contains entity = true)
include known

theorem perform_count (limit : Nat) : e.perform callerThread (.count none entity limit) =
    .ok (if 0 < limit then min (e.committed.size entity) limit else e.committed.size entity,
      e) := by
  simp only [perform, reading, count, requireEntity, known, if_true, view, bind, Except.bind, pure,
    Except.pure, Except.map]

theorem perform_isEmpty : e.perform callerThread (.isEmpty none entity) =
    .ok (e.committed.size entity == 0, e) := by
  simp only [perform, reading, isEmpty, requireEntity, known, if_true, view, bind, Except.bind,
    pure, Except.pure, Except.map]

theorem perform_containsMany (ids : List ObjectId) :
    e.perform callerThread (.containsMany none entity ids) =
      .ok (ids.all (e.committed.contains entity), e) := by
  simp only [perform, reading, containsMany, requireEntity, known, if_true, view, bind, Except.bind,
    pure, Except.pure, Except.map]

end Engine

theorem Snapshot.length_ids {s : Snapshot} {entity : EntityId} :
    (s.ids entity).length = s.size entity := by
  rw [ids, Std.ExtTreeMap.length_keys, size]

section Calls

variable {store : Store} {base e : Engine} {α : Type} {program : Txn → StoreM α} {r : Option α}

theorem Looks.reading (looks : Looks store base base.committed program r)
    (opened : store.closed = false) (unwritten : base.Unwritten e) :
    Leads (Box.reading none program) (store, e) fun r' v =>
      r'.toOption = r ∧ v.1 = store ∧ base.Unwritten v.2 := by
  have inside : ∀ e₁, e.Within callerThread .read e.committed e₁ →
      Leads (program ⟨e.nextHandle, .read⟩) (store, e₁) fun r' v =>
        r'.toOption = r ∧ v = (store, e₁) := fun e₁ within =>
    looks _ e₁ (unwritten.schema.trans within.schema) (unwritten.committed ▸ within.view)
  refine (Store.reading_onward opened unwritten.exclusive inside).mono ?_
  rintro r' ⟨store', e'⟩ ⟨ended, rfl, past, -⟩
  exact ⟨ended, rfl, unwritten.past past⟩

theorem request_reads {operation : String} {call : Call} {x : Except Halt call.Answer}
    (reads : e.perform callerThread call = e.reading x) :
    Leads (StoreM.ofHost (HostM.request operation call)) (store, e) fun _ v => v = (store, e) := by
  refine Leads.ofHost (HostM.request_leads ?_ fun _ _ => rfl)
  intro answer e' done
  rw [reads] at done
  rw [(Engine.reading_eq_ok.mp done).2]

end Calls

/-! ## The example bindings -/

/-- The bindings of the example objects. -/
inductive ExampleBinding : {T : Type} → Binding T → Prop where
  | event : ExampleBinding eventBinding
  | note : ExampleBinding noteBinding
  | tag : ExampleBinding tagBinding
  | label : ExampleBinding labelBinding
  | folder : ExampleBinding folderBinding
  | marker : ExampleBinding markerBinding

section Bindings

variable {store : Store} {base : Engine} {s : Snapshot}

theorem noteBinding_looks (serves : store.Serves base) : noteBinding.Looks store base s := by
  intro note
  obtain ⟨r, tags⟩ : ∃ r, Looks store base s
      (fun txn => Store.relatedObjects tagBinding txn noteTags note.id) r :=
    Store.relatedObjects_looks serves fun tag => ⟨_, Looks.pure⟩
  exact ⟨_, tags.map⟩

theorem folderBinding_looks (serves : store.Serves base) : folderBinding.Looks store base s := by
  intro folder
  obtain ⟨r, notes⟩ : ∃ r, Looks store base s
      (fun txn => Store.relatedObjects noteBinding txn folderNotes folder.id) r :=
    Store.relatedObjects_looks serves (noteBinding_looks serves)
  exact ⟨_, notes.map⟩

theorem ExampleBinding.looks {T : Type} {binding : Binding T} (shown : ExampleBinding binding)
    (serves : store.Serves base) : binding.Looks store base s := by
  cases shown with
  | event | tag | label | marker => exact fun _ => ⟨_, Looks.pure⟩
  | note => exact noteBinding_looks serves
  | folder => exact folderBinding_looks serves

end Bindings

/-! ## Sessions -/

/-- Calls that read. -/
def BoxCall.reads {T : Type} : BoxCall T → Bool
  | get _ | getMany _ | getManyExisting _ | getAll | count | countMax _ | isEmpty | contains _
  | containsIds _ | relationIds .. => true
  | _ => false

theorem BoxCall.reads_leads {T : Type} {b : Box T} {call : BoxCall T} {store : Store}
    {base e : Engine} (serves : store.Serves base) (member : b.descriptor ∈ store.model.entities)
    (shown : ExampleBinding b.binding) (reads : call.reads = true) (unwritten : base.Unwritten e) :
    Leads (call.perform b) (call.objects, store, e) fun _ w =>
      w.2.1 = store ∧ base.Unwritten w.2.2 := by
  obtain ⟨load, loads⟩ := Box.exists_loadsBy (shown.looks (s := base.committed) serves)
  have own {α : Type} {program : Txn → StoreM α} {r : Option α}
      (looks : Looks store base base.committed program r) :
      Leads (Editing.ofStore (Box.reading none program) : Editing Unit α) ((), store, e) fun _ w =>
        w.2.1 = store ∧ base.Unwritten w.2.2 :=
    Leads.ofStore ((looks.reading serves.opened unwritten).mono fun _ _ read => read.2)
  have many {selection : Selection} {existingOnly : Bool} :=
    Box.readMany_looks selection existingOnly serves member loads
  have asked {operation : String} {made : Call} {x : Except Halt made.Answer}
      (reads : e.perform callerThread made = e.reading x) :
      Leads (StoreM.ofHost (HostM.request operation made)) (store, e) fun _ v =>
        v.1 = store ∧ base.Unwritten v.2 := by
    refine (request_reads reads).mono ?_
    rintro _ _ rfl
    exact ⟨rfl, unwritten⟩
  have alone {operation : String} {made : Call} {x : Except Halt made.Answer}
      (reads : e.perform callerThread made = e.reading x) :
      Leads (Editing.ofStore (do
          StoreM.ensureOpen
          HostM.request operation made : StoreM made.Answer) : Editing Unit made.Answer)
        ((), store, e) fun _ w => w.2.1 = store ∧ base.Unwritten w.2.2 :=
    Leads.ofStore (Ends.bind (StoreM.ensureOpen_ends serves.opened) (asked reads))
  cases call with
  | get id => exact own (Box.getIn_looks serves member loads id)
  | getMany ids => exact own many
  | getManyExisting ids => exact own many.map
  | getAll => exact own many.map
  | count | countMax | isEmpty | contains | containsIds => exact alone rfl
  | relationIds relation source =>
      refine Leads.ofStore (Ends.bind (StoreM.ensureOpen_ends serves.opened) ?_)
      unfold Box.checkSource
      split
      · exact Ends.throw.bind_error ⟨rfl, unwritten⟩
      · exact Ends.pure.bind (asked rfl)
  | _ => cases reads

namespace Session

variable {s s' s₀ : Session} {model : Model}

/-- The sessions that a session comes to by calls which read, on any boxes of the store that have
the bindings of the example objects. -/
inductive OnlyReads (s : Session) : Session → Prop where
  | refl : s.OnlyReads s
  | read {s' : Session} {T : Type} {b : Box T} {call : BoxCall T} : s.OnlyReads s' →
      b.descriptor ∈ s.store.model.entities → ExampleBinding b.binding → call.reads = true →
      s.OnlyReads (call.step b s').2.2

theorem OnlyReads.shows (h : s.OnlyReads s') (plain : s.host.faults = [])
    (serves : s.store.Serves s.host.machine.engine)
    (exclusive : s.host.machine.engine.Exclusive) :
    ∃ e, Viewed.Shows s' (s.store, e) ∧ s.host.machine.engine.Unwritten e := by
  induction h with
  | refl => exact ⟨_, ⟨⟨plain, rfl⟩, rfl⟩, exclusive.unwritten⟩
  | @read s' T b call _ member shown reads ih =>
      obtain ⟨e, shows, unwritten⟩ := ih
      obtain ⟨⟨objects, store, e'⟩, ⟨-, shown'⟩, rfl, left⟩ :=
        BoxCall.reads_leads serves member shown reads unwritten (call.objects, s') ⟨rfl, shows⟩
      exact ⟨e', shown', left⟩

end Session

/-- In a session, bulk reads of a box are its single reads. -/
structure Box.Pointwise {T : Type} (b : Box T) (s : Session) (stored : List ObjectId) : Prop where
  /-- Several ids are read if each of them is, one place for each. -/
  getMany (ids : List ObjectId) (objects : List (Option T)) :
    (b.getMany none ids s).1 = .ok objects ↔
      List.Forall₂ (fun id object => (b.get none id s).1 = .ok object) ids objects
  /-- Without empty places if only existing objects are asked for. -/
  getManyExisting (ids : List ObjectId) (existing : List T) :
    (b.getManyExisting none ids s).1 = .ok existing ↔
      ∃ objects, (b.getMany none ids s).1 = .ok objects ∧ existing = objects.reduceOption
  /-- All objects are read if each stored id is, in ascending order. -/
  getAll (objects : List T) :
    (b.getAll none s).1 = .ok objects ↔
      List.Forall₂ (fun id object => (b.get none id s).1 = .ok (some object)) stored objects
  ascending : stored.Pairwise (· < ·)
  count : (b.count none s).1 = .ok stored.length
  countMax (limit : Nat) (positive : 0 < limit) :
    (b.countMax none limit s).1 = .ok (min limit stored.length)
  isEmpty : (b.isEmpty s).1 = .ok (decide (stored.length = 0))
  /-- Ids are all contained if reading them leaves no place empty. -/
  containsIds (ids : List ObjectId) : ∃ found, (b.containsIds ids s).1 = .ok found ∧
    (found = true ↔ ∀ id ∈ ids, (b.get none id s).1 ≠ .ok none)

/-- The place of an id stays empty only if nothing is stored under it. -/
theorem Box.place_eq_none {T : Type} {b : Box T} {load : T → Option T} {record : Option Bytes} :
    b.place load record = some none ↔ record = none := by
  cases record with
  | none => simp [place]
  | some bytes =>
      simp only [place, Option.bind_eq_bind, Option.pure_def, Option.bind_eq_some_iff]
      simp

section Pointwise

variable {T : Type} {b : Box T} {load : T → Option T} {s : Session} {store : Store}
  {base e : Engine} (serves : store.Serves base) (member : b.descriptor ∈ store.model.entities)
  (loads : b.LoadsBy store base base.committed load) (shows : Viewed.Shows s (store, e))
  (unwritten : base.Unwritten e)
include serves member loads shows unwritten

theorem Box.get_eq (id : ObjectId) : (b.get none id s).1.toOption =
    b.place load (base.committed.record? b.entity id) := by
  obtain ⟨v, -, ended, -⟩ :=
    (getIn_looks serves member loads id).reading serves.opened unwritten s shows
  exact ended

theorem Box.getMany_eq (ids : List ObjectId) : (b.getMany none ids s).1.toOption =
    ids.mapM fun id => (b.get none id s).1.toOption := by
  obtain ⟨v, -, ended, -⟩ :=
    (readMany_looks (.ids ids) false serves member loads).reading
      serves.opened unwritten s shows
  refine ended.trans ?_
  simp only [get_eq serves member loads shows unwritten, selected, List.mapM_map]
  exact congrFun Option.map_id _

theorem Box.getManyExisting_eq (ids : List ObjectId) :
    (b.getManyExisting none ids s).1.toOption =
      (ids.mapM fun id => (b.get none id s).1.toOption).map List.reduceOption := by
  obtain ⟨v, -, ended, -⟩ :=
    ((readMany_looks (.ids ids) true serves member loads).map
      (g := List.reduceOption)).reading serves.opened unwritten s shows
  refine ended.trans ?_
  simp only [get_eq serves member loads shows unwritten, selected, List.mapM_map, Option.map_map]
  exact congrFun (congrArg Option.map (funext fun objects => reduceOption_placed)) _

theorem Box.getAll_eq : (b.getAll none s).1.toOption =
    ((base.committed.ids b.entity).mapM fun id => (b.get none id s).1.toOption).map
      List.reduceOption := by
  obtain ⟨v, -, ended, -⟩ :=
    ((readMany_looks .all true serves member loads).map
      (g := List.reduceOption)).reading serves.opened unwritten s shows
  refine ended.trans ?_
  simp only [get_eq serves member loads shows unwritten, selected, Snapshot.map_some_recordList,
    List.mapM_map, Option.map_map]
  exact congrFun (congrArg Option.map (funext fun objects => reduceOption_placed)) _

omit member loads unwritten in
theorem Box.request_eq (operation : String) {call : Call} {answer : call.Answer}
    (served : e.perform callerThread call = .ok (answer, e)) :
    ((do
      StoreM.ensureOpen
      HostM.request operation call : StoreM call.Answer) s).1 = .ok answer := by
  have ends : Ends (do
      StoreM.ensureOpen
      HostM.request operation call : StoreM call.Answer) (store, e) (.ok answer) (store, e) :=
    Ends.bind (StoreM.ensureOpen_ends serves.opened) (Ends.ofHost (HostM.request_ends served))
  obtain ⟨v, -, ended, -⟩ := ends s shows
  exact ended

theorem Box.pointwise : b.Pointwise s (base.committed.ids b.entity) := by
  have single := get_eq serves member loads shows unwritten
  have many := getMany_eq serves member loads shows unwritten
  have existing := getManyExisting_eq serves member loads shows unwritten
  have all := getAll_eq serves member loads shows unwritten
  have known : e.entities.contains b.entity = true := by
    rw [unwritten.schema.entities]
    exact serves.known _ member
  have missing (id : ObjectId) : (b.get none id s).1.toOption = some none ↔
      base.committed.contains b.entity id = false := by
    rw [single, place_eq_none, ← Bool.not_eq_true, Snapshot.contains_iff]
    simp [Option.eq_none_iff_forall_ne_some]
  constructor
  case getMany =>
    intro ids objects
    rw [← toOption_eq_some, many, mapM_eq_some_iff]
    simp only [toOption_eq_some]
  case getManyExisting =>
    intro ids found
    simp only [← toOption_eq_some, existing, many, Option.map_eq_some_iff, eq_comm (a := found)]
  case getAll =>
    have never : ∀ id ∈ base.committed.ids b.entity,
        (b.get none id s).1.toOption ≠ some none := by
      intro id stored absent
      rw [missing, Snapshot.mem_ids.mp stored] at absent
      cases absent
    intro objects
    rw [← toOption_eq_some, all, mapM_reduceOption_eq_some_iff never]
    simp only [toOption_eq_some]
  case ascending => exact Snapshot.pairwise_ids
  case count =>
    have counted := request_eq serves shows "count" (Engine.perform_count known 0)
    rw [if_neg (Nat.lt_irrefl 0), unwritten.committed, ← Snapshot.length_ids] at counted
    exact counted
  case countMax =>
    intro limit positive
    have counted := request_eq serves shows "count" (Engine.perform_count known limit)
    rw [if_pos positive, unwritten.committed, ← Snapshot.length_ids, Nat.min_comm] at counted
    exact counted
  case isEmpty =>
    have asked := request_eq serves shows "is_empty" (Engine.perform_isEmpty known)
    rw [unwritten.committed, ← Snapshot.length_ids] at asked
    exact asked
  case containsIds =>
    intro ids
    have asked := request_eq serves shows "contains_many" (Engine.perform_containsMany known ids)
    rw [unwritten.committed] at asked
    refine ⟨_, asked, ?_⟩
    simp only [List.all_eq_true, ne_eq, ← toOption_eq_some, missing, Bool.not_eq_false]

end Pointwise

namespace Session

variable {host : Host} {model : Model} {config : Config} {arrays : Bool} {s s' s₀ : Session}

theorem serves_of_openOn (plain : host.faults = []) (arises : host.machine.engine.Arises arrays)
    (opened : (openOn host model config).1 = .ok s₀) :
    s₀.host.faults = [] ∧ s₀.host.machine.engine.Arises arrays ∧
      s₀.store.model = model ∧ s₀.store.Serves s₀.host.machine.engine := by
  obtain ⟨e, ⟨faults, rfl⟩, holds⟩ :=
    @Store.openOn_leads host.machine.engine model config host ⟨plain, rfl⟩
  obtain ⟨e', ⟨-, rfl⟩, arises'⟩ :=
    @Store.openOn_maintains model config arrays host.machine.engine arises host ⟨plain, rfl⟩
  simp only [openOn] at opened
  generalize ran : (Store.openOn model config).run host = ended at opened
  rw [show Runs.run (Store.openOn model config).run host = ended from ran] at faults holds arises'
  rcases ended with ⟨why | store, host'⟩ <;> cases opened
  obtain ⟨settled, -, entities, -⟩ := holds store rfl
  refine ⟨faults, arises', settled.model_eq, settled.closed, ?_, settled.model_eq ▸ entities⟩
  intro strategy
  have decided := settled.strategy
  rw [strategy] at decided
  simp only [Config.strategyFor, ReadStrategy.detect] at decided
  grind

/-- Whatever calls are made on the engine, it serves the store, until that is closed. -/
theorem serves_of_continues (arises : s₀.host.machine.engine.Arises arrays)
    (serves : s₀.store.Serves s₀.host.machine.engine) (continues : s₀.Continues s)
    (opened : s.store.closed = false) :
    s.host.machine.engine.Arises arrays ∧ s.store.Serves s.host.machine.engine := by
  obtain ⟨calls, quiet, same⟩ := continues.engine
  have schema : s₀.host.machine.engine.SameSchema (s₀.host.machine.run calls).2.engine :=
    Machine.run_keeps (P := s₀.host.machine.engine.SameSchema) (Q := (Call.defines · = false))
      (fun kept quiet done => kept.moved quiet (Engine.moved_of_perform done)) ⟨rfl, rfl, rfl⟩ quiet
  rw [← same] at schema
  refine ⟨?_, opened, ?_, ?_⟩
  · rw [same]
    exact Machine.arises_run arises
  · rw [continues.strategy, schema.arrays]
    exact serves.able
  · rw [continues.model, schema.entities]
    exact serves.known

/-- Bulk reads are single reads, whatever was called on the engine of a store before, which is
    still open, and whatever was read since. Nor do such reads change what a single one answers. -/
theorem bulk_reads_pointwise {T : Type} {b : Box T} (plain : host.faults = [])
    (arises : host.machine.engine.Arises arrays)
    (opened : (openOn host model config).1 = .ok s₀) (continues : s₀.Continues s)
    (still : s.store.closed = false) (member : b.descriptor ∈ model.entities)
    (shown : ExampleBinding b.binding) (reads : s.OnlyReads s') :
    b.Pointwise s' (s.host.machine.engine.committed.ids b.entity) ∧
      ∀ id object, (b.get none id s').1 = .ok object ↔ (b.get none id s).1 = .ok object := by
  obtain ⟨faults, arises, rfl, serves⟩ := serves_of_openOn plain arises opened
  obtain ⟨arises, serves⟩ := serves_of_continues arises serves continues still
  rw [← continues.faults] at faults
  rw [← continues.model] at member
  obtain ⟨load, loads⟩ := Box.exists_loadsBy (b := b)
    (shown.looks (s := s.host.machine.engine.committed) serves)
  obtain ⟨e, shows, unwritten⟩ := reads.shows faults serves arises.exclusive
  refine ⟨Box.pointwise serves member loads shows unwritten, fun id object => ?_⟩
  rw [← toOption_eq_some, ← toOption_eq_some,
    Box.get_eq serves member loads shows unwritten,
    Box.get_eq serves member loads ⟨⟨faults, rfl⟩, rfl⟩ arises.exclusive.unwritten]

/-- Raw writes leave a folder with a note, one that is no record, and one whose note has no id.
    After all folders were asked for in vain, those that can be read are found together. -/
theorem bulk_reads_of_damaged_folders : ∃ s₀ s s' : Session,
    (openOn { machine := .fresh true } fullModel {}).1 = .ok s₀ ∧ s₀.Continues s ∧
    s.store.closed = false ∧ folderBox.descriptor ∈ fullModel.entities ∧
    ExampleBinding folderBox.binding ∧ s.OnlyReads s' ∧ s' = (BoxCall.getAll.step folderBox s).2.2 ∧
    (folderBox.get none 2 s).1.toOption = none ∧
    (folderBox.getMany none [1, 9, 1] s').1 = .ok [some soundFolder, none, some soundFolder] ∧
    (folderBox.count none s').1 = .ok 3 := by
  let writes : List (ThreadId × Call) :=
    [(1, .put none 14 1 (Record.write 1 (Folder.body { name := "f" })).bytes .put),
      (1, .put none 14 2 [0xff] .put),
      (1, .put none 14 3 (Record.write 3 (Folder.body { name := "g" })).bytes .put),
      (1, .put none 11 7 (Record.write 7 (Note.body { text := "a" })).bytes .put),
      (1, .put none 11 8 (Record.write 0 (Note.body { text := "b" })).bytes .put),
      (1, .relPut none 24 1 7), (1, .relPut none 24 3 8)]
  let written (s : Session) : Session :=
    { s with host := { s.host with machine := (s.host.machine.run writes).2 } }
  have eval : (openOn { machine := .fresh true } fullModel {}).1.toOption.map (fun s₀ =>
      ((written s₀).store.closed, (written s₀).host.machine.engine.committed.ids 14,
        [1, 2, 9].map fun id => (folderBox.get none id (written s₀)).1.toOption)) =
      some (false, [1, 2, 3], [some (some soundFolder), none, some none]) := by
    decide +kernel
  obtain ⟨s₀, opened, answers⟩ := exists_of_eval eval
  simp only [Prod.mk.injEq, List.map_cons, List.map_nil, List.cons.injEq, and_true] at answers
  obtain ⟨still, stored, sound, damaged, missing⟩ := answers
  have continues : s₀.Continues (written s₀) :=
    ⟨⟨writes, by decide, rfl⟩, rfl, rfl, rfl, rfl, rfl⟩
  have member : folderBox.descriptor ∈ fullModel.entities := by decide
  have shown : ExampleBinding folderBox.binding := .folder
  have reads : (written s₀).OnlyReads (BoxCall.getAll.step folderBox (written s₀)).2.2 := by
    obtain ⟨-, -, model, -⟩ := serves_of_openOn rfl .fresh opened
    exact .read .refl (by rw [show (written s₀).store.model = _ from model]; exact member) shown rfl
  obtain ⟨pointwise, same⟩ := @bulk_reads_pointwise { machine := .fresh true } fullModel
    {} true _ _ s₀ _ folderBox rfl .fresh opened continues still member shown reads
  have found := (same 1 (some soundFolder)).mpr (toOption_eq_some.mp sound)
  have absent := (same 9 none).mpr (toOption_eq_some.mp missing)
  refine ⟨s₀, written s₀, _, opened, continues, still, member, shown, reads, rfl, damaged, ?_, ?_⟩
  · exact (pointwise.getMany _ _).mpr (.cons found (.cons absent (.cons found .nil)))
  · rw [pointwise.count, show (written s₀).host.machine.engine.committed.ids folderBox.entity = _
      from stored]
    rfl

end Session

end ObjectStore
