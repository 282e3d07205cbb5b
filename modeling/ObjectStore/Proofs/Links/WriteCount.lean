import Mathlib.Order.SymmDiff
import ObjectStore.Proofs.Links.Replacement
import ObjectStore.Proofs.Notes.Targets
import ObjectStore.Proofs.Store.Atomicity
import ObjectStore.Proofs.Store.BoxRuns

/-! # How many links a replacement writes

A replacement writes the links that are missing and those that are left over, and once more a link
for every target whose id was in the list before. So it writes the difference between the links as
they are and as they are desired if and only if no id is listed twice.
-/

namespace ObjectStore

/-- The ids a source is linked to. -/
def Snapshot.linkedIds (s : Snapshot) (relation : RelationId) (source : ObjectId) :
    Finset ObjectId :=
  (s.targets relation source).toList.toFinset

theorem nodup_iff_repetitions {ids : List ObjectId} :
    ids.Nodup ↔ ids.length - ids.toFinset.card = 0 := by
  rw [Nat.sub_eq_zero_iff_le]
  constructor
  · exact fun distinct => (List.toFinset_card_of_nodup distinct).ge
  · exact fun whole => Multiset.toFinset_card_eq_card_iff_nodup.mp
      (le_antisymm ids.toFinset_card_le whole)

theorem card_symmDiff_eq {linked desired : Finset ObjectId} :
    (symmDiff linked desired).card = (desired \ linked).card + (linked \ desired).card := by
  rw [symmDiff, Finset.sup_eq_union, Finset.card_union_of_disjoint disjoint_sdiff_sdiff,
    Nat.add_comm]

namespace Replacement

variable {T : Type} {binding : Binding T} {store : Store} {e : Engine} {txn : Option Handle}
  {relation : Relation} {source : ObjectId} {targets : List T}
  (x : Replacement binding store e txn relation source targets)

theorem writes_eq : x.writes =
    (symmDiff (x.view.linkedIds relation.id source) x.ids.toFinset).card +
      (x.ids.length - x.ids.toFinset.card) := by
  have count := x.relinks.count
  have fewer := x.ids.toFinset_card_le
  rw [card_symmDiff_eq, Snapshot.linkedIds]
  omega

end Replacement

namespace Session

/-- A replacement that succeeds writes the difference of the links, and a link for every time an id
    is listed again. -/
theorem relationReplace_writes {S T : Type} {b : Box S} {binding : Binding T} {txn : Option Txn}
    {relation : Relation} {source : ObjectId} {object : S} {targets : List T}
    {after : Option (List T)} {s s' : Session} (running : s.Running)
    (identified : b.binding.id object = .ok source) (stored : source ≠ 0)
    (carries : ∀ target ∈ targets, binding.id target = .ok 0 → binding.Carries target)
    (simple : ∀ target ∈ targets, binding.id target = .ok 0 → ∀ entity,
      s.store.model.bound? binding.name = some entity → entity.hasRelations = false)
    (done : (b.relationReplace binding txn relation source object).run (some targets) s =
      ((.ok (), after), s')) :
    ∃ (now : List T) (ids : List ObjectId) (view : Snapshot), after = some now ∧
      now.map binding.id = ids.map .ok ∧
      s.host.machine.engine.view (txn.map Txn.handle) = .ok view ∧
      s'.host.machine.engine.relationWrites = s.host.machine.engine.relationWrites +
        ((symmDiff (view.linkedIds relation.id source) ids.toFinset).card +
          (ids.length - ids.toFinset.card)) ∧
      (s'.host.machine.engine.relationWrites = s.host.machine.engine.relationWrites +
        (symmDiff (view.linkedIds relation.id source) ids.toFinset).card ↔ ids.Nodup) := by
  obtain ⟨arrays, arises⟩ := running.engine
  obtain ⟨-, -, x, rfl, shows⟩ := replacement running.faults arises.exclusive identified stored
    (fun entity known target member unsaved => simple target member unsaved entity (by
      unfold Store.registered at known
      grind)) done
  have counted : s'.host.machine.engine.relationWrites =
      s.host.machine.engine.relationWrites + x.writes := by
    rw [show s'.host.machine.engine = _ from shows.1.2, Engine.Stands.relationWrites_redrafted,
      x.relinks.relationWrites]
    rfl
  refine ⟨x.now, x.ids, x.view, rfl, x.relinks.saves.map_id carries, x.stands.seen, ?_, ?_⟩
  · rw [counted, x.writes_eq]
  · rw [counted, x.writes_eq, nodup_iff_repetitions]
    omega

open Catalog

/-- A tag that is not stored, and one that carries an id. -/
def twoTags : List Tag :=
  [{ name := "a" }, ⟨5, "b"⟩]

/-- Two links are written of a note that is given two tags. -/
theorem two_tags_written : ∃ s s', fresh true {} = .ok s ∧
    (noteBox.relationReplace tagBinding none noteTags 1 { id := 1 }).run (some twoTags) s =
      ((.ok (), some [⟨1, "a"⟩, ⟨5, "b"⟩]), s') ∧
    s'.host.machine.engine.relationWrites = s.host.machine.engine.relationWrites + 2 := by
  have eval : (fresh true {}).toOption.map (fun s =>
      let ended := (noteBox.relationReplace tagBinding none noteTags 1 { id := 1 }).run
        (some twoTags) s
      (ended.1.1.toOption, ended.1.2, s.store.model.bound? tagBinding.name,
        (s.host.machine.engine.committed.targets noteTags.id 1).toList)) =
      some (some (), some [⟨1, "a"⟩, ⟨5, "b"⟩], some tagBox.descriptor, []) := by
    decide +kernel
  obtain ⟨s, opened, seen⟩ := of_eval eval
  simp only [Prod.mk.injEq] at seen
  obtain ⟨answered, changed, registered, unlinked⟩ := seen
  have done : (noteBox.relationReplace tagBinding none noteTags 1 { id := 1 }).run
      (some twoTags) s = ((.ok (), some [⟨1, "a"⟩, ⟨5, "b"⟩]), _) :=
    Prod.ext (Prod.ext (ok_of_toOption answered) changed) rfl
  have carries : ∀ tag ∈ twoTags, tagBinding.id tag = .ok 0 → tagBinding.Carries tag := by
    rintro tag - - id _ ⟨⟩
    rfl
  have simple : ∀ tag ∈ twoTags, tagBinding.id tag = .ok 0 → ∀ entity,
      s.store.model.bound? tagBinding.name = some entity → entity.hasRelations = false := by
    intro tag _ _ entity found
    rw [← Option.some.inj (registered.symm.trans found)]
  obtain ⟨now, ids, view, same, carried, seen, -, difference⟩ := relationReplace_writes
    (running_of_openOn opened) rfl (by decide) carries simple done
  obtain rfl := Option.some.inj same
  obtain rfl : s.host.machine.engine.committed = view := Except.ok.inj seen
  obtain rfl : [1, 5] = ids := List.map_injective_iff.mpr (fun _ _ => Except.ok.inj) carried
  have written := difference.mpr (by decide)
  rw [Snapshot.linkedIds, unlinked] at written
  exact ⟨s, _, opened, done, written⟩

/-- A note that is linked to a tag keeps its links, and has one written, when it is given that tag
    twice. -/
theorem repeated_tag_written : ∃ s₀ s', fresh true {} = .ok s₀ ∧
    let s := s₀.use [.call noteBox (.put { text := "n", tags := some [{ name := "a" }] })]
    (noteBox.relationReplace tagBinding none noteTags 1 { id := 1 }).run
      (some [⟨1, "a"⟩, ⟨1, "a"⟩]) s = ((.ok (), some [⟨1, "a"⟩, ⟨1, "a"⟩]), s') ∧
    (s.host.machine.engine.committed.targets noteTags.id 1).toList = [1] ∧
    (s'.host.machine.engine.committed.targets noteTags.id 1).toList = [1] ∧
    s'.host.machine.engine.relationWrites = s.host.machine.engine.relationWrites + 1 := by
  have eval : (fresh true {}).toOption.map (fun s₀ =>
      let s := s₀.use [.call noteBox (.put { text := "n", tags := some [{ name := "a" }] })]
      let ended := (noteBox.relationReplace tagBinding none noteTags 1 { id := 1 }).run
        (some [⟨1, "a"⟩, ⟨1, "a"⟩]) s
      (ended.1.1.toOption, ended.1.2, decide (
        (s.host.machine.engine.committed.targets noteTags.id 1).toList = [1] ∧
        (ended.2.host.machine.engine.committed.targets noteTags.id 1).toList = [1] ∧
        ended.2.host.machine.engine.relationWrites = s.host.machine.engine.relationWrites + 1))) =
      some (some (), some [⟨1, "a"⟩, ⟨1, "a"⟩], true) := by
    decide +kernel
  obtain ⟨s₀, opened, seen⟩ := of_eval eval
  simp only [Prod.mk.injEq, decide_eq_true_eq] at seen
  obtain ⟨answered, changed, before, after, writes⟩ := seen
  exact ⟨s₀, _, opened, Prod.ext (Prod.ext (ok_of_toOption answered) changed) rfl, before, after,
    writes⟩

end Session

end ObjectStore
