import ObjectStore.Proofs.Events.Map
import ObjectStore.Proofs.Store.Accounts
import ObjectStore.Proofs.Store.BulkPut
import ObjectStore.Proofs.Store.Reachable

/-! # What a failed call leaves in its transaction

A call that is given a transaction has nothing to roll back: if it fails, what it stored before it
failed stays in the transaction, and a commit publishes it. What that is, is what the call's plan
comes to. Of objects without related ones a call that stores a single object leaves nothing, and a
bulk put the chunks before the one that failed.
-/

namespace ObjectStore

open Catalog

/-! ## Plans that fail -/

namespace Plan

variable {σ τ α β : Type} {p : Plan σ α} {f : α → Plan σ β}

/-- However the plan ends, the view stays. -/
def Blank (p : Plan σ α) : Prop :=
  ∀ w, (p w).2.2.view = w.2.view

/-- If the plan fails, the view stays. -/
def Clean (p : Plan σ α) : Prop :=
  ∀ w, Failed (p w).1 → (p w).2.2.view = w.2.view

/-- The plan does not fail. -/
def Sure (p : Plan σ α) : Prop :=
  ∀ w, ¬ Failed (p w).1

theorem pure_sure {a : α} : Sure (Pure.pure a : Plan σ α) :=
  fun _ => not_failed_ok

theorem pure_blank {a : α} : Blank (Pure.pure a : Plan σ α) :=
  fun _ => rfl

theorem read_blank {r : σ → Except StoreError α} : Blank (read r) :=
  fun _ => rfl

theorem edit_sure {f : σ → Except StoreError σ}
    (accepts : ∀ objects, ∃ changed, f objects = .ok changed) : Sure (edit f) := by
  intro w
  obtain ⟨changed, accepted⟩ := accepts w.1
  simp only [edit, accepted]
  exact not_failed_ok

theorem ask_clean {operation : String} {op : Draft → Except Refusal (α × Draft)} :
    Clean (ask operation op : Plan σ α) := by
  intro w failed
  simp only [ask] at failed ⊢
  cases done : op w.2 with
  | ok done' =>
      rw [done] at failed
      exact absurd failed not_failed_ok
  | error why => rfl

theorem ask_blank {operation : String} {op : Draft → Except Refusal (α × Draft)}
    (keeps : ∀ d a d', op d = .ok (a, d') → d'.view = d.view) :
    Blank (ask operation op : Plan σ α) := by
  intro w
  simp only [ask]
  cases done : op w.2 with
  | ok done' => exact keeps _ _ _ done
  | error why => rfl

theorem Clean.after (first : Blank p) (rest : ∀ a, Clean (f a)) : Clean (p >>= f) := by
  intro w failed
  have kept := first w
  rw [bind_run] at failed ⊢
  generalize p w = done at kept failed
  rcases done with ⟨why | a, w'⟩
  · exact kept
  · exact (rest a w' failed).trans kept

theorem Clean.then_sure (first : Clean p) (rest : ∀ a, Sure (f a)) : Clean (p >>= f) := by
  intro w failed
  have kept := first w
  rw [bind_run] at failed ⊢
  generalize p w = done at kept failed
  rcases done with ⟨why | a, w'⟩
  · exact kept ⟨why, rfl⟩
  · exact absurd failed (rest a w')

theorem Sure.bind (first : Sure p) (rest : ∀ a, Sure (f a)) : Sure (p >>= f) := by
  intro w failed
  have sure := first w
  rw [bind_run] at failed
  generalize p w = done at sure failed
  rcases done with ⟨why | a, w'⟩
  · exact sure ⟨why, rfl⟩
  · exact rest a w' failed

theorem forEach_sure {step : α → Plan τ β} (each : ∀ a, Sure (step a)) {as : List α} :
    Sure (forEach step as) := by
  induction as with
  | nil => exact fun _ => not_failed_ok
  | cons a as ih =>
      rintro ⟨objects, d⟩
      cases objects with
      | nil => exact not_failed_ok
      | cons object objects =>
          have first := each a (object, d)
          simp only [forEach]
          generalize step a (object, d) = done at first
          rcases done with ⟨why | b, object', d'⟩
          · exact absurd ⟨why, rfl⟩ first
          · rintro ⟨why, failed⟩
            refine ih (objects, d') ?_
            dsimp only at failed
            generalize (forEach step as (objects, d')).1 = r at failed ⊢
            cases r <;> cases failed
            exact ⟨_, rfl⟩

end Plan

/-! ## Objects without related ones -/

theorem Draft.view_of_putMany {base : Engine} {entity : EntityId} {ids : List ObjectId}
    {records : List Bytes} {mode : PutMode} {d : Draft} {done : Unit × Draft}
    (stored : d.putMany base entity ids records mode = .ok done) :
    done.2.view = d.view.insertMany entity (ids.zip records) := by
  simp only [Draft.putMany, Draft.known] at stored
  split at stored
  · split at stored
    · split at stored
      · split at stored <;> cases stored
        rfl
      · cases stored
    · cases stored
  · cases stored

theorem Draft.view_of_put {base : Engine} {entity : EntityId} {id : ObjectId} {record : Bytes}
    {mode : PutMode} {d : Draft} {done : Unit × Draft}
    (stored : d.put base entity id record mode = .ok done) :
    done.2.view = d.view.insertMany entity [(id, record)] := by
  simp only [Draft.put, Draft.known] at stored
  split at stored
  · split at stored <;> cases stored
    rfl
  · cases stored

namespace Binding

variable {T : Type} (binding : Binding T)

/-- Every object can be given any id. -/
def Accepting : Prop :=
  ∀ object id, ∃ changed, binding.setId object id = .ok changed

/-- The entries are the records of the objects, each under an id. -/
def Entries : List (ObjectId × Bytes) → List T → Prop :=
  List.Forall₂ fun entry object => Record.made entry.1 (binding.body object) = .ok entry.2

end Binding

namespace Binding.Account

variable {T : Type} {binding : Binding T} (account : binding.Account) {entity : EntityDescriptor}
  {u : Setting} {id current : ObjectId} {mode : PutMode}

theorem idForPut_blank : Plan.Blank
    (Plan.ask "id_for_put" (Draft.idForPut u.base entity.id current) : Plan T ObjectId) := by
  refine Plan.ask_blank fun d id d' done => ?_
  simp only [Draft.idForPut, Draft.known] at done
  split at done
  · split at done
    · split at done <;> cases done
      rfl
    · cases done
      rfl
  · cases done

theorem allocateBlock_blank {count : Nat} : Plan.Blank (allocateBlock T entity u count) := by
  unfold allocateBlock
  split
  · exact Plan.pure_blank
  · refine Plan.ask_blank fun d id d' done => ?_
    simp only [Draft.idsForPut, Draft.known] at done
    split at done
    · cases done
    · split at done
      · split at done <;> cases done
        rfl
      · cases done

theorem ask_still {σ α : Type} {operation : String} {op : Draft → Except Refusal (α × Draft)}
    {w : σ × Draft} : (Plan.ask operation op w).2.1 = w.1 := by
  simp only [Plan.ask]
  split <;> rfl

theorem allocateBlock_still {count : Nat} {w : List T × Draft} :
    (allocateBlock T entity u count w).2.1 = w.1 := by
  unfold allocateBlock
  split
  · rfl
  · exact ask_still

theorem length_of_mapM {ε α β : Type} {f : α → Except ε β} {as : List α} {bs : List β}
    (mapped : as.mapM f = .ok bs) : bs.length = as.length := by
  induction as generalizing bs with
  | nil =>
      cases mapped
      rfl
  | cons a as ih =>
      rw [List.mapM_cons, bind_eq_ok] at mapped
      obtain ⟨b, -, rest⟩ := mapped
      obtain ⟨bs', mapped, same⟩ := bind_eq_ok.mp rest
      cases same
      exact congrArg (· + 1) (ih mapped)

/-- Storing left what it was given as it was, and added the records of `objects` unless it failed;
    then the view is what it was. -/
def Adds {τ α : Type} (binding : Binding T) (entity : EntityDescriptor) (objects : List T)
    (w : τ × Draft) : Except StoreError α × τ × Draft → Prop
  | (.ok _, w') => w'.1 = w.1 ∧
    ∃ entries, binding.Entries entries objects ∧
      w'.2.view = w.2.view.insertMany entity.id entries
  | (.error _, w') => w'.1 = w.1 ∧ w'.2.view = w.2.view

/-- Of several parts the first ones were added, all of them unless that failed. -/
structure AddsUpTo {τ α : Type} (binding : Binding T) (entity : EntityDescriptor)
    (parts : List (List T)) (w : τ × Draft) (done : Except StoreError α × τ × Draft) : Prop where
  still : done.2.1 = w.1
  added : ∃ first later entries, parts = first ++ later ∧ (Failed done.1 → later ≠ []) ∧
    List.Forall₂ binding.Entries entries first ∧
      done.2.2.view = entries.foldl (fun view part => view.insertMany entity.id part) w.2.view

/-- A step that adds its part or nothing adds the first parts. -/
theorem forEach_adds {τ β : Type} {step : Plan τ β} {parts : τ → List T} {items : List τ}
    {d : Draft} (each : ∀ item d, Adds binding entity (parts item) (item, d) (step (item, d))) :
    AddsUpTo binding entity (items.map parts) (items, d)
      (Plan.forEach (fun _ => step) items (items, d)) := by
  induction items generalizing d with
  | nil => exact ⟨rfl, [], [], [], rfl, fun failed => absurd failed not_failed_ok, .nil, rfl⟩
  | cons item items ih =>
      have first := each item d
      simp only [Plan.forEach]
      generalize step (item, d) = done at first
      rcases done with ⟨why | b, item', d'⟩ <;> obtain ⟨rfl, here⟩ := first
      · exact ⟨rfl, [], _, [], rfl, fun _ => List.cons_ne_nil _ _, .nil, here⟩
      · obtain ⟨part, made, stored⟩ := here
        obtain ⟨still, first, later, entries, cut, failed, all, view⟩ := @ih d'
        dsimp only at still failed view stored ⊢
        refine ⟨congrArg (item' :: ·) still, parts item' :: first, later, part :: entries, ?_, ?_,
          .cons made all, ?_⟩
        · rw [List.map_cons, cut]
          rfl
        · rintro ⟨why, fails⟩
          refine failed ?_
          generalize (Plan.forEach (fun _ => step) items (items, d')).1 = r at fails
          cases r <;> cases fails
          exact ⟨_, rfl⟩
        · rw [List.foldl_cons, ← stored]
          exact view

/-! ## A single object -/

/-- What is stored of the objects that go with one. -/
def fan (account : binding.Account) (entity : EntityDescriptor) (u : Setting) (id : ObjectId) :
    Plan T Unit :=
  if entity.hasRelations then account.related u id else pure ()

theorem storeUnder_left {w : T × Draft}
    (failed : Failed (account.storeUnder entity u id mode w).1) :
    (account.storeUnder entity u id mode w).2.2.view =
      (account.fan entity u id w).2.2.view := by
  have fanned : account.encode entity u id = (do
      account.fan entity u id
      Plan.read fun object => Record.made id (binding.body object)) := by
    unfold encode fan
    split <;> rfl
  have last : Plan.Clean (do
      let record ← Plan.read fun object => Record.made id (binding.body object)
      Plan.ask "put" (Draft.put u.base entity.id id record mode)
      return id : Plan T ObjectId) :=
    .after Plan.read_blank fun _ => .then_sure Plan.ask_clean fun _ => Plan.pure_sure
  simp only [storeUnder, fanned, Plan.bind_run] at failed ⊢
  generalize account.fan entity u id w = done at failed ⊢
  rcases done with ⟨why | _, w'⟩
  · rfl
  · exact last w' failed

/-- The view is what it was, or what storing the related objects under some id made of it. -/
def Fanned (account : binding.Account) (entity : EntityDescriptor) (u : Setting) (object : T)
    (view view' : Snapshot) : Prop :=
  view' = view ∨ ∃ (id : ObjectId) (d : Draft), d.view = view ∧
    view' = (account.fan entity u id (object, d)).2.2.view

theorem write_left {w : T × Draft} (failed : Failed (account.write entity u current mode w).1) :
    account.Fanned entity u w.1 w.2.view (account.write entity u current mode w).2.2.view := by
  unfold write at failed ⊢
  split at failed
  · rw [if_pos ‹_›]
    exact .inr ⟨current, w.2, rfl, account.storeUnder_left failed⟩
  · rw [if_neg ‹_›]
    have blank := @idForPut_blank T entity u current w
    have still := @ask_still _ _ "id_for_put" (Draft.idForPut u.base entity.id current) w
    rw [Plan.bind_run] at failed ⊢
    generalize Plan.ask "id_for_put" (Draft.idForPut u.base entity.id current) w = asked
      at blank still failed
    rcases asked with ⟨why | id, object, d⟩
    · exact .inl blank
    · obtain rfl : object = w.1 := still
      exact .inr ⟨id, d, blank, account.storeUnder_left failed⟩

theorem putObject_left {object : T} {d : Draft} (accepting : binding.Accepting)
    (failed : Failed (account.putObject entity u mode (object, d)).1) :
    account.Fanned entity u object d.view
      (account.putObject entity u mode (object, d)).2.2.view := by
  have given (id current : ObjectId) : Plan.Sure (do
      if id ≠ current then Plan.edit fun object => binding.setId object id
      return id : Plan T ObjectId) := by
    dsimp only
    split
    · exact .bind (Plan.edit_sure fun object => accepting object id) fun _ => Plan.pure_sure
    · exact Plan.pure_sure
  simp only [putObject, Plan.ofExcept, Plan.read, Plan.bind_run] at failed ⊢
  cases opened : u.opened with
  | error why => exact .inl rfl
  | ok _ =>
      rw [opened] at failed
      dsimp only at failed ⊢
      cases carried : binding.id object with
      | error why => exact .inl rfl
      | ok current =>
          rw [carried] at failed
          dsimp only at failed ⊢
          split at failed
          · rw [if_pos ‹_›]
            exact .inl rfl
          · rw [if_neg ‹_›]
            have left := @write_left _ _ account entity u current mode (object, d)
            rw [Plan.bind_run] at failed ⊢
            generalize account.write entity u current mode (object, d) = done at failed left
            rcases done with ⟨why | id, w⟩
            · exact left ⟨why, rfl⟩
            · exact absurd failed (given id current w)

section Simple

variable (simple : entity.hasRelations = false)
include simple

theorem encode_eq : account.encode entity u id =
    Plan.read fun object => Record.made id (binding.body object) := by
  simp only [encode, simple, Bool.false_eq_true, if_false]

theorem encodeAll_run {ids : List ObjectId} {objects : List T} {d : Draft}
    (even : ids.length = objects.length) :
    (Plan.forEach (account.encode entity u) ids (objects, d)).2 = (objects, d) ∧
      ∀ records, (Plan.forEach (account.encode entity u) ids (objects, d)).1 = .ok records →
        ids.length = records.length ∧ binding.Entries (ids.zip records) objects := by
  induction ids generalizing objects with
  | nil =>
      have none : objects = [] := List.length_eq_zero_iff.mp even.symm
      subst none
      refine ⟨rfl, ?_⟩
      rintro records ⟨⟩
      exact ⟨rfl, .nil⟩
  | cons id ids ih =>
      cases objects with
      | nil => cases even
      | cons object objects =>
          obtain ⟨same, made⟩ := ih (Nat.succ.inj even)
          have first : account.encode entity u id (object, d) =
              (Record.made id (binding.body object), object, d) := by
            rw [account.encode_eq simple]
            rfl
          simp only [Plan.forEach, first]
          cases here : Record.made id (binding.body object) with
          | error why => exact ⟨rfl, fun _ wrong => by cases wrong⟩
          | ok record =>
              dsimp only
              generalize Plan.forEach (account.encode entity u) ids (objects, d) = rest at same made
              rcases rest with ⟨why | records, w⟩ <;> cases same
              · exact ⟨rfl, fun _ wrong => by cases wrong⟩
              · refine ⟨rfl, ?_⟩
                rintro _ ⟨⟩
                obtain ⟨length, entries⟩ := made records rfl
                exact ⟨congrArg (· + 1) length, .cons here entries⟩

theorem writeChunk_adds {objects : List T} {d : Draft} :
    Adds binding entity objects (objects, d) (account.writeChunk entity u (objects, d)) := by
  simp only [writeChunk, Plan.bind_run, Plan.read]
  cases carried : objects.mapM binding.id with
  | error why => exact ⟨rfl, rfl⟩
  | ok currents =>
      have blank := @allocateBlock_blank T entity u (currents.count 0) (objects, d)
      have still := @allocateBlock_still T entity u (currents.count 0) (objects, d)
      dsimp only
      generalize allocateBlock T entity u (currents.count 0) (objects, d) = block at blank still
      rcases block with ⟨why | first, objects', d'⟩ <;> cases still
      · exact ⟨rfl, blank⟩
      · have even : ((Box.assign first currents).map Box.Assigned.id).length = objects.length := by
          rw [List.length_map, Box.length_assign, length_of_mapM carried]
        obtain ⟨same, made⟩ := @encodeAll_run _ _ account entity u simple _ _ d' even
        dsimp only
        generalize Plan.forEach (account.encode entity u) _ (objects, d') = encoded at same made
        rcases encoded with ⟨why | records, w⟩ <;> cases same
        · exact ⟨rfl, blank⟩
        · obtain ⟨-, entries⟩ := made records rfl
          simp only [Plan.ask]
          cases stored : Draft.putMany u.base entity.id _ records _ d' with
          | error why => exact ⟨rfl, blank⟩
          | ok done =>
              refine ⟨rfl, _, entries, ?_⟩
              rw [← show d'.view = d.view from blank]
              exact Draft.view_of_putMany stored

theorem writeOne_adds {object : T} {d : Draft} :
    Adds binding entity [object] (object, d) (account.writeOne entity u (object, d)) := by
  have new : PutMode.put ≠ .update := PutMode.noConfusion
  simp only [writeOne, write, storeUnder, new, if_false, account.encode_eq simple, Plan.bind_run,
    Plan.read]
  cases binding.id object with
  | error why => exact ⟨rfl, rfl⟩
  | ok current =>
      have blank := @idForPut_blank T entity u current (object, d)
      have still :=
        @ask_still _ _ "id_for_put" (Draft.idForPut u.base entity.id current) (object, d)
      dsimp only
      generalize Plan.ask "id_for_put" (Draft.idForPut u.base entity.id current) (object, d) = asked
        at blank still
      rcases asked with ⟨why | id, object', d'⟩ <;> cases still
      · exact ⟨rfl, blank⟩
      · dsimp only
        cases made : Record.made id (binding.body object) with
        | error why => exact ⟨rfl, blank⟩
        | ok record =>
            simp only [Plan.ask]
            cases stored : Draft.put u.base entity.id id record .put d' with
            | error why => exact ⟨rfl, blank⟩
            | ok done =>
                refine ⟨rfl, [(id, record)], .cons made .nil, ?_⟩
                rw [← show d'.view = d.view from blank]
                exact Draft.view_of_put stored

theorem writeMany_adds {objects : List T} {d : Draft} :
    AddsUpTo binding entity (u.store.cut objects) (objects, d)
      (account.writeMany entity u (objects, d)) := by
  cases arrays : u.store.arrays with
  | true =>
      have cut : u.store.cut objects = Editing.chunked u.store.config.chunkSize objects objects :=
        if_pos arrays
      have whole := (@Store.flatten_cut u.store _ objects)
      have each := @forEach_adds _ binding entity _ _ (account.writeChunk entity u) (·)
        (u.store.cut objects) d fun chunk d => account.writeChunk_adds simple
      rw [List.map_id'] at each
      simp only [writeMany_chunkwise arrays, Plan.bind_run, Plan.forChunks, ← cut]
      generalize Plan.forEach _ _ _ = done at each
      obtain ⟨still, first, later, entries, parts, failed, added⟩ := each
      rcases done with ⟨why | chunks, objects', d'⟩ <;> cases still
      · exact ⟨whole, first, later, entries, parts, fun _ => failed ⟨why, rfl⟩, added⟩
      · exact ⟨whole, first, later, entries, parts, fun failed => absurd failed not_failed_ok,
          added⟩
  | false =>
      have cut : u.store.cut objects = objects.map ([·]) := if_neg (by simp [arrays])
      rw [writeMany_onewise arrays, cut]
      exact forEach_adds fun object d => account.writeOne_adds simple

theorem putMany_adds {objects : List T} {d : Draft} (accepting : binding.Accepting)
    (failed : Failed (account.putMany entity u (objects, d)).1) :
    ∃ first later entries, u.store.cut objects = first ++ later ∧ (objects ≠ [] → later ≠ []) ∧
      List.Forall₂ binding.Entries entries first ∧
        (account.putMany entity u (objects, d)).2.2.view =
          entries.foldl (fun view part => view.insertMany entity.id part) d.view := by
  have nothing (why : StoreError) : ∃ first later entries, u.store.cut objects = first ++ later ∧
      (objects ≠ [] → later ≠ []) ∧ List.Forall₂ binding.Entries entries first ∧
        d.view = entries.foldl (fun view part => view.insertMany entity.id part) d.view := by
    refine ⟨[], u.store.cut objects, [], rfl, fun some none => some ?_, .nil, rfl⟩
    rw [← (@Store.flatten_cut u.store _ objects), none]
    rfl
  have given (assigned : List Box.Assigned) : Plan.Sure (do
      writeBack binding assigned
      return assigned.map Box.Assigned.id : Plan (List T) (List ObjectId)) := by
    refine .bind (.bind (Plan.forEach_sure fun a => ?_) fun _ => Plan.pure_sure) fun _ =>
      Plan.pure_sure
    split
    · exact Plan.edit_sure fun object => accepting object a.id
    · exact Plan.pure_sure
  simp only [putMany, Plan.ofExcept, Plan.bind_run, Plan.read] at failed ⊢
  cases opened : u.opened with
  | error why => exact nothing why
  | ok _ =>
      rw [opened] at failed
      dsimp only at failed ⊢
      split at failed
      · exact absurd failed not_failed_ok
      · rename_i some
        rw [if_neg some]
        have adds := @writeMany_adds _ _ account entity u simple objects d
        rw [Plan.bind_run] at failed ⊢
        generalize account.writeMany entity u (objects, d) = done at adds failed
        obtain ⟨-, first, later, entries, parts, fails, made, view⟩ := adds
        rcases done with ⟨why | assigned, w⟩
        · exact ⟨first, later, entries, parts, fun _ => fails ⟨why, rfl⟩, made, view⟩
        · exact absurd failed (given assigned w)

end Simple

end Binding.Account

/-! ## Calls in a transaction -/

/-- A call that stores objects or links in a transaction it is given. -/
inductive TxnCall (T : Type) : Type 1 where
  | put (object : T)
  | insert (object : T)
  | update (object : T)
  | putMany (objects : List T)
  | relationReplace {P : Type} (binding : Binding P) (relation : Relation) (source : ObjectId)
      (object : T) (targets : Option (List P))

namespace TxnCall

variable {T : Type}

/-- The objects a call is given to change. -/
@[reducible] def Objects : TxnCall T → Type
  | put _ | insert _ | update _ => T
  | putMany _ => List T
  | @relationReplace _ P .. => Option (List P)

/-- The type of a call's answer. -/
@[reducible] def Answer : TxnCall T → Type
  | put _ | insert _ => ObjectId
  | putMany _ => List ObjectId
  | update _ | relationReplace .. => Unit

/-- The objects as they are before the call. -/
def objects : (call : TxnCall T) → call.Objects
  | put object | insert object | update object => object
  | putMany objects => objects
  | relationReplace _ _ _ _ targets => targets

/-- Perform a call on a box in a transaction. -/
def perform (b : Box T) (txn : Txn) : (call : TxnCall T) → Editing call.Objects call.Answer
  | put _ => b.put (some txn)
  | insert _ => b.insert (some txn)
  | update _ => b.update (some txn)
  | putMany _ => b.putMany (some txn)
  | relationReplace binding relation source object _ =>
    b.relationReplace binding (some txn) relation source object

/-- Perform a call on a session: how it ends, the objects, and the session afterwards. -/
def step (b : Box T) (txn : Txn) (call : TxnCall T) (s : Session) :
    Except StoreError call.Answer × call.Objects × Session :=
  let ((r, objects), s') := (call.perform b txn).run call.objects s
  (r, objects, s')

/-- The account of the binding whose objects a call stores. -/
@[reducible] def Account (b : Box T) : TxnCall T → Type
  | put _ | insert _ | update _ | putMany _ => b.binding.Account
  | relationReplace binding .. => binding.Account

/-- What a call comes to. -/
def plan (b : Box T) (u : Setting) :
    (call : TxnCall T) → call.Account b → Plan call.Objects call.Answer
  | put _, account => account.putObject b.descriptor u .put
  | insert _, account => account.putObject b.descriptor u .insert
  | update _, account => do let _ ← account.putObject b.descriptor u .update
  | putMany _, account => account.putMany b.descriptor u
  | relationReplace _ relation source object _, account =>
    account.relationReplace u b.binding b.descriptor relation source object

theorem computes {b : Box T} {u : Setting} (call : TxnCall T) (account : call.Account b) :
    Editing.Computes u (call.perform b u.txn) (call.plan b u account) := by
  cases call with
  | put object | insert object => exact Binding.Account.putObject_computes account
  | update object => exact .bind (Binding.Account.putObject_computes account) fun _ => .pure
  | putMany objects => exact Binding.Account.putMany_computes account
  | relationReplace binding relation source object targets =>
      exact Binding.Account.relationReplace_computes account

/-- The draft of a transaction that saw `view`, as the call's plan leaves it. -/
def left (b : Box T) (call : TxnCall T) (account : call.Account b) (u : Setting) (view : Snapshot) :
    Draft :=
  (call.plan b u account (call.objects, u.base.draft view)).2.2

/-- What a call that stores a single object leaves: the view as it was, or what storing the objects
    that go with the object made of it. -/
def Fanned (b : Box T) (u : Setting) (view view' : Snapshot) :
    (call : TxnCall T) → call.Account b → Prop
  | put object, account | insert object, account | update object, account =>
    account.Fanned b.descriptor u object view view'
  | putMany _, _ | relationReplace .., _ => True

/-- Whether a call stores a single object. -/
def single : TxnCall T → Bool
  | put _ | insert _ | update _ => true
  | putMany _ | relationReplace .. => false

/-- The objects of a bulk put. -/
def batch : TxnCall T → List T
  | putMany objects => objects
  | put _ | insert _ | update _ | relationReplace .. => []

theorem left_fanned {b : Box T} {u : Setting} {view : Snapshot} {call : TxnCall T}
    {account : call.Account b} (accepting : b.binding.Accepting)
    (failed : Failed (call.plan b u account (call.objects, u.base.draft view)).1) :
    call.Fanned b u view (call.left b account u view).view account := by
  cases call with
  | put object | insert object => exact account.putObject_left accepting failed
  | update object =>
      have fanned := @Binding.Account.putObject_left _ _ account b.descriptor u .update object
        (u.base.draft view) accepting
      simp only [left, plan, objects, Plan.bind_run] at failed ⊢
      generalize account.putObject b.descriptor u .update (object, u.base.draft view) = done
        at failed fanned
      rcases done with ⟨why | id, w⟩
      · exact fanned ⟨why, rfl⟩
      · exact absurd failed not_failed_ok
  | putMany | relationReplace => trivial

theorem Fanned.eq_of_simple {b : Box T} {u : Setting} {view view' : Snapshot} {call : TxnCall T}
    {account : call.Account b} (fanned : call.Fanned b u view view' account)
    (single : call.single = true) (simple : b.descriptor.hasRelations = false) : view' = view := by
  have fanless (account : b.binding.Account) {object : T}
      (fanned : account.Fanned b.descriptor u object view view') : view' = view := by
    rcases fanned with same | ⟨id, d, same, rfl⟩
    · exact same
    · rw [Binding.Account.fan, if_neg (by simp [simple])]
      exact same
  cases call with
  | put | insert | update => exact fanless account fanned
  | putMany | relationReplace => cases single

/-- The parts of a bulk put that are left: those before the one that failed. -/
theorem left_of_batch {b : Box T} {u : Setting} {view : Snapshot} {call : TxnCall T}
    {account : call.Account b} (some : call.batch ≠ [])
    (simple : b.descriptor.hasRelations = false) (accepting : b.binding.Accepting)
    (failed : Failed (call.plan b u account (call.objects, u.base.draft view)).1) :
    ∃ first later entries, u.store.cut call.batch = first ++ later ∧ later ≠ [] ∧
      List.Forall₂ b.binding.Entries entries first ∧ (call.left b account u view).view =
        entries.foldl (fun view part => view.insertMany b.entity part) view := by
  cases call with
  | putMany objects =>
      obtain ⟨first, later, entries, cut, more, made, view⟩ :=
        Binding.Account.putMany_adds account simple accepting failed
      exact ⟨first, later, entries, cut, more some, made, view⟩
  | _ => exact absurd rfl some

end TxnCall

namespace Session

variable {T : Type} {b : Box T} {call : TxnCall T} {txn : Txn} {s s' : Session} {view : Snapshot}

theorem found_of_begun {txn : Except StoreError Txn} (plain : s.host.faults = [])
    (opened : s.store.closed = false) (free : s.host.machine.engine.writer = none)
    (begun : (Store.beginTxn .write).run s = (txn, s')) :
    txn = .ok ⟨s.host.machine.engine.nextHandle, .write⟩ ∧ s'.host.faults = [] ∧
      s'.host.machine.engine.txns[s.host.machine.engine.nextHandle]? =
        some ⟨.write, s.host.machine.engine.committed⟩ := by
  have began := @Store.beginTxn_ends s.store _ _ .write _ opened
    (Engine.begin_eq_ok.mpr ⟨fun _ => free, rfl, rfl⟩)
  obtain ⟨v, ⟨shown, -⟩, ended, rfl⟩ := began s ⟨⟨plain, rfl⟩, rfl⟩
  rw [show Runs.run (Store.beginTxn .write).run s = (txn, s') from begun] at shown ended
  refine ⟨ended, shown.1, ?_⟩
  rw [shown.2]
  exact Std.ExtTreeMap.getElem?_insert_self

/-- What a call leaves that failed in a transaction which saw `view`. -/
structure Retained (b : Box T) (txn : Txn) (view : Snapshot) (s : Session) (call : TxnCall T)
    (account : call.Account b) (left : Draft) (s' : Session) : Prop where
  /-- Nothing but the draft of the transaction has changed. -/
  engine : s'.host.machine.engine = s.host.machine.engine.drafted txn.handle left
  /-- The transaction sees what it saw exactly if that is left. -/
  kept : s'.host.machine.engine.view (some txn.handle) = .ok view ↔ left.view = view
  /-- A commit publishes what is left. -/
  published : ∃ e, s'.host.machine.engine.commit txn.handle = .ok e ∧ e.committed = left.view
  /-- A single object is not left, at most what goes with it is. -/
  fanned : b.binding.Accepting →
    call.Fanned b ⟨s.store, s.host.machine.engine, txn⟩ view left.view account
  /-- So one without related objects leaves nothing. -/
  single : call.single = true → b.descriptor.hasRelations = false → b.binding.Accepting →
    left.view = view
  /-- A batch of such objects leaves the parts before the one that failed. -/
  batch : call.batch ≠ [] → b.descriptor.hasRelations = false → b.binding.Accepting →
    ∃ first later entries, s.store.cut call.batch = first ++ later ∧ later ≠ [] ∧
      List.Forall₂ b.binding.Entries entries first ∧
        left.view = entries.foldl (fun view part => view.insertMany b.entity part) view

/-- A call that fails in an open write transaction leaves in it what its plan comes to. -/
theorem failed_call_retains {why : StoreError} {objects : call.Objects} (account : call.Account b)
    (plain : s.host.faults = [])
    (found : s.host.machine.engine.txns[txn.handle]? = some ⟨.write, view⟩)
    (failed : call.step b txn s = (.error why, objects, s')) :
    Retained b txn view s call account
      (call.left b account ⟨s.store, s.host.machine.engine, txn⟩ view) s' := by
  have same := Engine.drafted_draft found
  have shows : Viewed.Shows (call.objects, s) (Setting.view ⟨s.store, s.host.machine.engine, txn⟩
      (call.objects, s.host.machine.engine.draft view)) :=
    ⟨rfl, ⟨plain, same.symm⟩, rfl⟩
  obtain ⟨w, ⟨-, shown, -⟩, ended, rfl⟩ := call.computes account _ (call.objects, s) shows
  rw [show Runs.run (call.perform b txn).run (call.objects, s) = (.error why, objects, s')
    from failed] at shown ended
  have fails : Failed (call.plan b ⟨s.store, s.host.machine.engine, txn⟩ account
      (call.objects, s.host.machine.engine.draft view)).1 := ⟨why, ended.symm⟩
  have engine : s'.host.machine.engine = s.host.machine.engine.drafted txn.handle
      (call.left b account ⟨s.store, s.host.machine.engine, txn⟩ view) := shown.2
  refine ⟨engine, ?_, ?_, fun accepting => TxnCall.left_fanned accepting fails, ?_, ?_⟩
  · rw [engine, Draft.view_drafted, Except.ok.injEq]
  · rw [engine]
    exact ⟨_, Engine.commit_eq_ok.mpr ⟨_, Std.ExtTreeMap.getElem?_insert_self, rfl⟩, rfl⟩
  · exact fun single simple accepting =>
      (TxnCall.left_fanned accepting fails).eq_of_simple single simple
  · exact fun some simple accepting => TxnCall.left_of_batch some simple accepting fails

/-- An update of an event that is not stored leaves nothing in its transaction. -/
theorem failed_update_retains : ∃ s s₁ txn why object s', fresh true {} = .ok s ∧
    (Store.beginTxn .write).run s = (.ok txn, s₁) ∧
    (TxnCall.update { id := 5 }).step eventBox txn s₁ = (.error why, object, s') ∧
    ∃ e, s'.host.machine.engine.commit txn.handle = .ok e ∧
      e.committed = s.host.machine.engine.committed := by
  have eval : (fresh true {}).toOption.map (fun s =>
      ((TxnCall.update { id := 5 }).step eventBox ⟨s.host.machine.engine.nextHandle, .write⟩
        ((Store.beginTxn .write).run s).2).1.toOption) = some none := by
    decide +kernel
  obtain ⟨s, opened, failed⟩ := of_eval eval
  obtain ⟨why, failed⟩ := error_of_toOption failed
  have fresh := fresh_of_opened opened
  obtain ⟨begun, plain, found⟩ := found_of_begun fresh.faults fresh.opened.closed fresh.writer rfl
  have retained := @failed_call_retains _ eventBox (.update { id := 5 }) _ _ _ _ _ _ eventAccount
    plain found (Prod.ext (y := (_, _, _)) failed rfl)
  obtain ⟨e, committed, left⟩ := retained.published
  refine ⟨s, _, _, why, _, _, opened, Prod.ext begun rfl, Prod.ext failed rfl, e, committed, ?_⟩
  exact left.trans (retained.single rfl rfl fun _ _ => ⟨_, rfl⟩)

/-- The first of two events is published by the commit of a transaction in which a bulk put of both
    failed, as there was no id for the second. -/
theorem failed_putMany_published : ∃ s s₁ txn why objects s' e,
    fresh true { chunkSize := 1 } = .ok s ∧ (Store.beginTxn .write).run s = (.ok txn, s₁) ∧
    (TxnCall.putMany [{ id := 18446744073709551615 }, {}]).step eventBox txn s₁ =
      (.error why, objects, s') ∧ s'.host.machine.engine.commit txn.handle = .ok e ∧
    s.host.machine.engine.committed.contains eventBox.entity 18446744073709551615 = false ∧
      e.committed.contains eventBox.entity 18446744073709551615 = true := by
  have eval : (fresh true { chunkSize := 1 }).toOption.map (fun s =>
      let (r, _, s') := (TxnCall.putMany [{ id := 18446744073709551615 }, {}]).step eventBox
        ⟨s.host.machine.engine.nextHandle, .write⟩ ((Store.beginTxn .write).run s).2
      (r.toOption, s.host.machine.engine.committed.contains eventBox.entity
        18446744073709551615, (s'.host.machine.engine.commit
          s.host.machine.engine.nextHandle).toOption.map fun e =>
            e.committed.contains eventBox.entity 18446744073709551615)) =
      some (none, false, some true) := by
    decide +kernel
  obtain ⟨s, opened, looked⟩ := of_eval eval
  obtain ⟨failed, before, looked⟩ := by simpa only [Prod.mk.injEq] using looked
  obtain ⟨why, failed⟩ := error_of_toOption failed
  obtain ⟨e, committed, after⟩ := exists_of_eval looked
  have fresh := fresh_of_opened opened
  obtain ⟨begun, -, -⟩ := found_of_begun fresh.faults fresh.opened.closed fresh.writer rfl
  exact ⟨s, _, _, why, _, _, e, opened, Prod.ext begun rfl, Prod.ext failed rfl, committed, before,
    after⟩

end Session

end ObjectStore
