import ObjectStore.Proofs.Bulk.Placed
import ObjectStore.Proofs.Notes.Relinking

/-! # Plans that run short of ids

What is stored of the objects that go with one can fail for one reason only: too few ids are left
for those of them that have none. So a plan is followed with what may become of it, the reasons it
may fail for and what holds if it succeeds (`Plan.Meets`), and with how far it takes the sequence of
an entity type (`Draft.Due`).
-/

namespace ObjectStore

open Catalog

namespace Plan

variable {σ τ α β : Type} {bad bad' : StoreError → Prop} {p : Plan σ α} {w w' : σ × Draft} {a : α}
  {why : StoreError} {good good' : α → σ × Draft → Prop}

/-- The plan only fails for a bad reason, and if it succeeds, `good` holds. -/
def Meets (bad : StoreError → Prop) (p : Plan σ α) (w : σ × Draft)
    (good : α → σ × Draft → Prop) : Prop :=
  match p w with
  | (.ok a, w') => good a w'
  | (.error why, _) => bad why

namespace Meets

theorem of_ok (done : p w = (.ok a, w')) (holds : good a w') : Meets bad p w good := by
  rwa [Meets, done]

theorem of_error (failed : p w = (.error why, w')) (holds : bad why) : Meets bad p w good := by
  rwa [Meets, failed]

theorem imp (h : Meets bad p w good) (fails : ∀ why, bad why → bad' why)
    (weaker : ∀ a w', p w = (.ok a, w') → good a w' → good' a w') : Meets bad' p w good' := by
  unfold Meets at h ⊢
  rcases ended : p w with ⟨why | a, w'⟩ <;> rw [ended] at h
  · exact fails why h
  · exact weaker a w' ended h

theorem mono (h : Meets bad p w good) (weaker : ∀ a w', good a w' → good' a w') :
    Meets bad p w good' :=
  h.imp (fun _ fails => fails) fun a w' _ => weaker a w'

theorem failing (h : Meets bad p w good) (fails : ∀ why, bad why → bad' why) :
    Meets bad' p w good :=
  h.imp fails fun _ _ _ holds => holds

/-- What a plan is apart from stays in addition. -/
theorem apart {entity : EntityId} (h : Meets bad p w good) (apart : Plan.Apart entity p) :
    Meets bad p w fun a w' => good a w' ∧ w'.2.stock entity = w.2.stock entity := by
  refine h.imp (fun _ fails => fails) fun a w' ended holds => ⟨holds, ?_⟩
  have kept := apart.kept w.1 w.2
  rwa [ended] at kept

theorem pure (holds : good a w) : Meets bad (Pure.pure a) w good :=
  holds

theorem read {f : σ → Except StoreError α} (reads : f w.1 = .ok a) (holds : good a w) :
    Meets bad (Plan.read f) w good :=
  of_ok (congrArg (·, w) reads) holds

theorem bind {f : α → Plan σ β} {good : β → σ × Draft → Prop}
    (h : Meets bad p w fun a w' => Meets bad (f a) w' good) : Meets bad (p >>= f) w good := by
  unfold Meets at h ⊢
  rw [bind_run]
  generalize p w = done at h ⊢
  rcases done with ⟨why | a, w'⟩ <;> exact h

theorem ite {c : Prop} [Decidable c] {p' : Plan σ α} (yes : c → Meets bad p w good)
    (no : ¬ c → Meets bad p' w good) : Meets bad (if c then p else p') w good := by
  split
  · exact yes ‹_›
  · exact no ‹_›

theorem ask {operation : String} {op : Draft → Except Refusal (α × Draft)}
    (served : ∀ a d, op w.2 = .ok (a, d) → good a (w.1, d))
    (refused : ∀ why, op w.2 = .error why →
      bad (.engine operation why.status (why.detail?.getD ""))) :
    Meets bad (Plan.ask operation op) w good := by
  cases done : op w.2 with
  | ok answered => exact of_ok (by rw [Plan.ask, done]) (served _ _ done)
  | error why => exact of_error (by rw [Plan.ask, done]) (refused why done)

theorem served {operation : String} {op : Draft → Except Refusal (α × Draft)} {d : Draft}
    (done : op w.2 = .ok (a, d)) (holds : good a (w.1, d)) :
    Meets bad (Plan.ask operation op) w good :=
  of_ok (by rw [Plan.ask, done]) holds

theorem focus {part : σ → τ} {fill : σ → τ → σ} {p : Plan τ α}
    (h : Meets bad p (part w.1, w.2) fun a w' => good a (fill w.1 w'.1, w'.2)) :
    Meets bad (Plan.focus part fill p) w good := by
  unfold Meets at h ⊢
  unfold Plan.focus
  generalize p (part w.1, w.2) = done at h ⊢
  rcases done with ⟨why | a, w'⟩ <;> exact h

theorem forM {step : α → Plan σ Unit} {as : List α} (inv : Draft → Prop)
    (each : ∀ a w, inv w.2 → Meets bad (step a) w fun _ w' => inv w'.2) (start : inv w.2) :
    Meets bad (as.forM step) w fun _ w' => inv w'.2 := by
  induction as generalizing w with
  | nil => exact .pure start
  | cons a as ih => exact .bind ((each a w start).mono fun _ _ kept => ih kept)

/-- What holds as long as some objects are left holds at the end, with none left. -/
theorem forEach {step : α → Plan τ β} {as : List α} {objects : List τ} {d : Draft}
    (inv : List τ → Draft → Prop) (even : as.length = objects.length)
    (each : ∀ a ∈ as, ∀ object ∈ objects, ∀ rest d, inv (object :: rest) d →
      Meets bad (step a) (object, d) fun _ w' => inv rest w'.2)
    (start : inv objects d) :
    Meets bad (Plan.forEach step as) (objects, d) fun answers w' =>
      answers.length = as.length ∧ inv [] w'.2 := by
  induction as generalizing objects d with
  | nil =>
      obtain rfl := List.length_eq_zero_iff.mp even.symm
      exact .of_ok rfl ⟨rfl, start⟩
  | cons a as ih =>
      cases objects with
      | nil => cases even
      | cons object objects =>
          have first := each a (.head _) object (.head _) objects d start
          unfold Meets at first ⊢
          simp only [Plan.forEach]
          generalize step a (object, d) = done at first
          rcases done with ⟨why | b, object', d'⟩
          · exact first
          · have rest := ih (Nat.succ.inj even) (fun a member other listed =>
              each a (.tail _ member) other (.tail _ listed)) first
            unfold Meets at rest
            dsimp only
            generalize Plan.forEach step as (objects, d') = done at rest
            rcases done with ⟨why | bs, objects', d''⟩
            · exact rest
            · exact ⟨congrArg (· + 1) rest.1, rest.2⟩

theorem forChunks {size : Nat} {step : Plan (List τ) β} {objects : List τ} {d : Draft}
    (inv : List (List τ) → Draft → Prop)
    (each : ∀ chunk ∈ Editing.chunked size objects objects, ∀ rest d, inv (chunk :: rest) d →
      Meets bad step (chunk, d) fun _ w' => inv rest w'.2)
    (start : inv (Editing.chunked size objects objects) d) :
    Meets bad (Plan.forChunks size step) (objects, d) fun _ w' => inv [] w'.2 := by
  have chunkwise := @forEach _ _ _ bad (fun _ => step) _ _ d inv rfl
    (fun _ _ chunk member rest d => each chunk member rest d) start
  unfold Meets at chunkwise ⊢
  simp only [Plan.forChunks]
  generalize Plan.forEach _ _ _ = done at chunkwise
  rcases done with ⟨why | answers, chunks, d'⟩
  · exact chunkwise
  · exact chunkwise.2

end Meets

end Plan

/-! ## Calls -/

namespace Draft

variable {base : Engine} {entity : EntityId} {relation : RelationId} {source target : ObjectId}
  {count goal : Nat} {d d' : Draft}

/-- With `count` more ids the sequence of an entity type comes to `goal`. -/
def Due (d : Draft) (entity : EntityId) (count goal : Nat) : Prop :=
  (d.lastId entity).toNat + count = goal

theorem Due.still (due : d.Due entity count goal) (same : d'.sequences = d.sequences) :
    d'.Due entity count goal := by
  rwa [Due, lastId, same]

section Links

variable (defined : base.relations.contains relation = true)
include defined

theorem relPut_served (real : source ≠ 0) (known : target ≠ 0) :
    ∃ d', relPut base relation source target d = .ok ((), d') ∧ d'.sequences = d.sequences := by
  simp only [relPut, linkable, defined, if_true, real, known, or_self, if_false]
  exact ⟨_, rfl, rfl⟩

theorem relRemove_served :
    ∃ d', relRemove base relation source target d = .ok ((), d') ∧ d'.sequences = d.sequences := by
  simp only [relRemove, linkable, defined, if_true]
  exact ⟨_, rfl, rfl⟩

theorem relGetIds_served :
    relGetIds base relation source d = .ok ((d.view.targets relation source).toList, d) := by
  simp only [relGetIds, linkable, defined, if_true]

end Links

end Draft

/-- Single ids of an entity type run out, as there are fewer than `goal`. -/
def StoreError.Short (entity : EntityId) (goal : Nat) (why : StoreError) : Prop :=
  why = .exhausted "id_for_put" entity ∧ Engine.maxId < goal

open StoreError (Short)

namespace Binding.Account

variable {T : Type} {binding : Binding T} {account : binding.Account} {total : binding.Total}
  {entity : EntityDescriptor} {u : Setting} {object : T} {objects : List T} {d : Draft}
  {relation : Relation} {source stored : ObjectId} {linked : IdSet} {rest goal : Nat}

/-! ## Links -/

section Links

variable (total) (opened : u.store.closed = false)
  (known : u.base.entities.contains entity.id = true) (simple : entity.hasRelations = false)
include opened known simple

theorem putNew_meets (unsaved : total.idOf object = 0) (due : d.Due entity.id (rest + 1) goal) :
    Plan.Meets (Short entity.id goal) (account.putObject entity u .put) (object, d)
      fun id w => id ≠ 0 ∧ w.2.Due entity.id rest goal := by
  unfold Draft.Due at due
  by_cases room : Box.HasRoom (d.lastId entity.id) [0]
  · have new : d.lastId entity.id + 1 ≠ 0 :=
      Box.ne_zero_of_mem_chunkIds room (by simp [Box.chunkIds, Box.assign])
    refine .of_ok (putNew_eq opened known simple unsaved room) ⟨new, ?_⟩
    have next := (Box.room_next room).2 (by simp)
    rw [Draft.Due, Draft.lastId_stored, next]
    omega
  · refine .of_error (putNew_full opened known unsaved room) ⟨rfl, ?_⟩
    simp only [Box.HasRoom, List.count_singleton_self] at room
    omega

variable (links : u.base.relations.contains relation.id = true) (nonzero : source ≠ 0)
include links nonzero

theorem linkTarget_meets
    (due : d.Due entity.id (rest + [total.idOf object].count 0) goal) :
    Plan.Meets (Short entity.id goal) (account.linkTarget entity u relation source linked)
      (object, d) fun _ w => w.2.Due entity.id rest goal := by
  have linking (target : ObjectId) (w : T × Draft) (known : target ≠ 0)
      (due : w.2.Due entity.id rest goal) : Plan.Meets (Short entity.id goal) (do
      if linked.contains target then return linked.erase target
      Plan.ask "rel_put" (Draft.relPut u.base relation.id source target)
      return linked : Plan T IdSet) w fun _ w => w.2.Due entity.id rest goal := by
    obtain ⟨d', linked, same⟩ := @Draft.relPut_served _ _ _ _ w.2 links nonzero known
    exact .ite (fun _ => .pure due) fun _ => .bind (.served linked (.pure (due.still same)))
  refine .bind (.read (total.id_eq object) ?_)
  by_cases unsaved : total.idOf object = 0
  · rw [if_pos unsaved]
    rw [unsaved, List.count_singleton_self] at due
    exact .bind ((putNew_meets total opened known simple unsaved due).mono fun target w stored =>
      linking target w stored.1 stored.2)
  · rw [if_neg unsaved]
    rw [List.count_singleton, if_neg (by simpa using unsaved), Nat.add_zero] at due
    exact .bind (.pure (linking _ _ unsaved due))

/-- The ids for the targets to come are due until their turn. -/
theorem linkTargets_meets
    (due : d.Due entity.id (rest + (objects.map total.idOf).count 0) goal) :
    Plan.Meets (Short entity.id goal) (account.linkTargets entity u relation source linked)
      (objects, d) fun _ w => w.2.Due entity.id rest goal := by
  unfold Plan.Meets
  simp only [linkTargets]
  induction objects generalizing linked d with
  | nil => exact due
  | cons object objects ih =>
      rw [List.map_cons, ← List.singleton_append, List.count_append,
        Nat.add_comm (List.count _ _), ← Nat.add_assoc] at due
      have first := @linkTarget_meets _ _ account total entity u object d relation source linked _
        goal opened known simple links nonzero due
      unfold Plan.Meets at first
      simp only [linkTargets.go]
      generalize account.linkTarget entity u relation source linked (object, d) = done at first
      rcases done with ⟨why | linked, object', d'⟩
      · exact first
      · have later := @ih d' linked first
        dsimp only
        generalize linkTargets.go account entity u relation source linked objects d' = done
          at later
        rcases done with ⟨why | linked, objects', d''⟩ <;> exact later

/-- Replacing links fails only if there are fewer ids left than targets without one. -/
theorem replaceLinks_meets (registered : u.store.registered binding.name = .ok entity)
    (due : d.Due entity.id (rest + (objects.map total.idOf).count 0) goal) :
    Plan.Meets (Short entity.id goal) (account.replaceLinks u relation source stored)
      (some objects, d) fun _ w => w.2.Due entity.id rest goal := by
  have linking (linked : List ObjectId) : Plan.Meets (Short entity.id goal) (do
      let entity ← Plan.ofExcept (u.store.registered binding.name)
      let unwanted ← Plan.focus (fun targets => targets.getD []) (fun _ targets => some targets)
        (account.linkTargets entity u relation source (.ofList linked))
      unwanted.toList.forM fun target =>
        Plan.ask "rel_remove" (Draft.relRemove u.base relation.id source target) :
      Plan (Option (List T)) Unit) (some objects, d) fun _ w => w.2.Due entity.id rest goal := by
    refine .bind (.read registered (.bind (.focus ?_)))
    refine (linkTargets_meets total opened known simple links nonzero due).mono
      fun unwanted w due => ?_
    refine .forM (·.Due entity.id rest goal) (fun target w due => ?_) due
    obtain ⟨d', removed, same⟩ := @Draft.relRemove_served _ _ source target w.2 links
    exact .served removed (due.still same)
  refine .bind (.read rfl ?_)
  dsimp only
  split
  · exact .bind (.pure (linking _))
  · exact .bind (.served (Draft.relGetIds_served links) (linking _))

end Links

/-! ## Objects that others go with -/

/-- What goes with an object carries the ids that `needs` says, and is of one entity type. Each 0
    among them takes an id, and nothing fails before the object's record is written but for want of
    these. -/
def Demands (account : binding.Account) (entity : EntityDescriptor) (u : Setting)
    (other : EntityId) (needs : T → List ObjectId) : Prop :=
  ∀ {id object d rest goal}, id ≠ 0 → d.Due other (rest + (needs object).count 0) goal →
    Plan.Meets (Short other goal) (account.encode entity u id) (object, d) fun _ w =>
      w.2.Due other rest goal

end Binding.Account

namespace Catalog

variable {u : Setting}

theorem eventAccount_demands {other : EntityId} :
    eventAccount.Demands eventBox.descriptor u other fun _ => [] :=
  fun _ due => .of_ok (congrArg (·, _) eventTotal.made) due

theorem noteAccount_demands (tagging : u.store.Tagging u.base) :
    noteAccount.Demands noteBox.descriptor u tagBox.entity
      fun note => (note.tags.getD []).map Tag.id := by
  intro id note d rest goal nonzero due
  have registered : u.store.registered tagBinding.name = .ok tagBox.descriptor := by
    simp [Store.registered, tagging.opened, tagging.bound]
  have encoded (w : Note × Draft) (due : w.2.Due tagBox.entity rest goal) :
      Plan.Meets (Short tagBox.entity goal)
        (Plan.read fun note => Record.made id (noteBinding.body note)) w
        fun _ w => w.2.Due tagBox.entity rest goal :=
    .read noteTotal.made due
  refine .bind (.bind (.read rfl (.ite (fun loaded => .focus ?_) fun unloaded => .pure ?_)))
  · obtain ⟨tags, loaded⟩ := Option.isSome_iff_exists.mp loaded
    dsimp only at due ⊢
    rw [loaded, Option.getD_some] at due
    rw [loaded]
    refine (Binding.Account.replaceLinks_meets tagTotal tagging.opened tagging.tags rfl
      tagging.links nonzero registered due).mono fun _ w due => encoded _ due
  · rw [Option.not_isSome_iff_eq_none] at unloaded
    dsimp only at due
    rw [unloaded] at due
    exact encoded _ due

end Catalog

end ObjectStore
