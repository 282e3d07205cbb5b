import ObjectStore.Catalog.Bindings
import ObjectStore.Proofs.Store.Filling

/-! # Tags as targets

Tags that carry no id are stored while they are linked to, and carry their new ids from then on,
whatever becomes of the transaction. Linking stops at the first target that cannot be linked or
stored. So which tags are given ids is known beforehand: one is, at least, if linking comes to a
tag without an id (`Reaches`) while there are ids left for it.
-/

namespace ObjectStore

open Catalog

/-- The box of tags. -/
@[reducible] def tagBox : Box Tag :=
  ⟨⟨12, "Tag", false, tagBinding.name⟩, tagBinding⟩

instance : Carries Tag where
  own _ := []
  related tag := [tag.id]

/-- There is an id left for a tag. -/
def Engine.TagLeft (e : Engine) : Prop :=
  Box.HasRoom (e.lastId tagBox.entity) [0]

theorem Engine.tagLeft_congr {e e' : Engine}
    (same : e'.lastId tagBox.entity = e.lastId tagBox.entity) : e'.TagLeft ↔ e.TagLeft := by
  rw [TagLeft, TagLeft, same]

/-! ## Ids handed out on the way -/

/-- What became of objects of which a related one is due to be stored, or none, while there is an id
    left for it, or none. -/
structure Handed {σ : Type} [Carries σ] (due left : Prop) (before after : σ) (failed : Prop) :
    Prop where
  filled : Filled before after
  kept : related after = related before ↔ ¬ (due ∧ left)
  stuck : due → ¬ left → failed

namespace Handed

variable {σ : Type} [Carries σ] {due left failed failed' : Prop} {object before after later : σ}
  {objects objects' : List σ}

theorem failing (h : Handed due left before after failed) (fails : failed → failed') :
    Handed due left before after failed' :=
  ⟨h.filled, h.kept, fun is_due none => fails (h.stuck is_due none)⟩

theorem of_kept (filled : Filled before after) (kept : related after = related before)
    (undue : ¬ due) : Handed due left before after failed :=
  ⟨filled, iff_of_true kept fun both => undue both.1, fun is_due => absurd is_due undue⟩

theorem saved (filled : Filled before after) (saved : 0 ∉ related before) (undue : ¬ due) :
    Handed due left before after failed :=
  of_kept filled (filled.related.kept_of_saved saved) undue

/-- What was due and did not fail has handed out an id, and it stays. -/
theorem goes_on (h : Handed due left before after failed) (went : ¬ failed) (is_due : due)
    (filled : Filled after later) : Handed due left before later failed' := by
  have some : left := Classical.byContradiction fun none => went (h.stuck is_due none)
  refine ⟨h.filled.trans filled, ?_, fun _ none => absurd some none⟩
  refine iff_of_false (fun kept => ?_) fun none => none ⟨is_due, some⟩
  exact h.kept.mp (h.filled.kept_of_kept filled kept) ⟨is_due, some⟩

theorem cons_same (h : Handed due left objects objects' failed) :
    Handed due left (object :: objects) (object :: objects') failed := by
  refine ⟨Filled.refl.cons h.filled, ?_, h.stuck⟩
  rw [← h.kept]
  exact List.append_right_inj _

theorem cons_failed (h : Handed due left before after failed) :
    Handed due left (before :: objects) (after :: objects) failed := by
  refine ⟨h.filled.cons .refl, ?_, h.stuck⟩
  rw [← h.kept]
  exact List.append_left_inj _

theorem flatten {chunks chunks' : List (List σ)} (h : Handed due left chunks chunks' failed) :
    Handed due left chunks.flatten chunks'.flatten failed := by
  refine ⟨h.filled.flatten, ?_, h.stuck⟩
  rw [Filled.related_flatten, Filled.related_flatten]
  exact h.kept

end Handed

theorem Editing.handed_bind {σ α β : Type} [Carries σ] {p : Editing σ α} {f : α → Editing σ β}
    {due left : Prop} {objects : σ} {v : Store × Engine} (is_due : due)
    (first : Leads p (objects, v) fun r w => Handed due left objects w.1 (Failed r))
    (next : ∀ a, Fills (f a)) :
    Leads (p >>= f) (objects, v) fun r w => Handed due left objects w.1 (Failed r) := by
  refine first.onward (fun a w handed => ?_) fun why w handed => handed.failing fun _ => ⟨why, rfl⟩
  exact (next a w.1 w.2).mono fun r w' filled => handed.goes_on not_failed_ok is_due filled

theorem Editing.handed_still {σ α β : Type} [Carries σ] {p : Editing σ α} {f : α → Editing σ β}
    {due left : Prop} {objects : σ} {v : Store × Engine}
    (first : Leads p (objects, v) fun r w => Handed due left objects w.1 (Failed r))
    (next : ∀ a, Still (f a)) :
    Leads (p >>= f) (objects, v) fun r w => Handed due left objects w.1 (Failed r) := by
  refine first.onward (fun a w handed => ?_) fun why w handed => handed.failing fun _ => ⟨why, rfl⟩
  refine (next a w.1 w.2).mono fun r w' same => ?_
  rw [same]
  exact handed.failing fun failed => absurd failed not_failed_ok

/-! ## One target -/

namespace Store

variable {base e : Engine} {s : Snapshot} {store : Store} {relation : Relation}
  {source : ObjectId} {linked : IdSet} {tag : Tag} {tags : List Tag} {v : Store × Engine}
  {txn : Txn} {due : Prop}

/-- In the transaction begun on `base` links of a source can be written. -/
def CanLink (base : Engine) (relation : Relation) (source : ObjectId) : Prop :=
  source ≠ 0 ∧ base.relations.contains relation.id = true

theorem put_tag_handed (opened : store.closed = false)
    (within : base.Within callerThread .write s e)
    (known : e.entities.contains tagBox.entity = true) (unsaved : tag.id = 0) (is_due : due) :
    Leads (tagBox.put (some ⟨base.nextHandle, .write⟩)) (tag, store, e) fun r w =>
      Handed due e.TagLeft tag w.1 (Failed r) := by
  by_cases room : e.TagLeft
  · obtain ⟨id, next, granted, -⟩ := Engine.idForPut_numbered known within.writable room
    have nonzero : id ≠ 0 := Engine.idForPut_ne_zero granted
    have moved : base.Within callerThread .write s (e.setLastId tagBox.entity next) :=
      within.setLastId
    obtain ⟨e₂, wrote, -⟩ := moved.wrote (s.insert tagBox.entity id (tagTotal.record id tag))
    have served : (e.setLastId tagBox.entity next).put callerThread (some base.nextHandle)
        tagBox.entity id (tagTotal.record id tag) .put = .ok (e₂.observe tagBox.entity [id]) :=
      Engine.put_eq_ok.mpr ⟨known, _, _, wrote,
        Snapshot.checkPut_eq_ok.mpr ⟨nonzero, by simp, by simp⟩, rfl⟩
    have written : Ends (tagBox.write (some ⟨base.nextHandle, .write⟩) (tagTotal.idOf tag) .put)
        (tag, store, e) (.ok id) (tag, store, e₂.observe tagBox.entity [id]) := by
      rw [show tagTotal.idOf tag = 0 from unsaved]
      exact Box.write_leads (b := tagBox) PutMode.noConfusion granted
        (Box.storeUnder_ends (b := tagBox) tagTotal rfl served)
    refine Leads.mono (Box.putObject_ends (b := tagBox) tagTotal rfl opened (by simp) written) ?_
    rintro r w ⟨rfl, rfl⟩
    refine ⟨⟨rfl, .cons (fun saved => absurd unsaved saved) .nil⟩, ?_,
      fun _ none => absurd room none⟩
    refine iff_of_false (fun kept => ?_) fun none => none ⟨is_due, room⟩
    exact nonzero ((List.cons.inj kept).1.trans unsaved)
  · have failed : Ends (tagBox.write (some ⟨base.nextHandle, .write⟩) (tagTotal.idOf tag) .put)
        (tag, store, e) (.error (.exhausted "id_for_put" tagBox.entity)) (tag, store, e) := by
      rw [show tagTotal.idOf tag = 0 from unsaved]
      exact Box.write_exhausted (b := tagBox) PutMode.noConfusion known within.writable room
    refine Leads.mono (Box.putObject_error (b := tagBox) tagTotal rfl opened (by simp) failed) ?_
    rintro r w ⟨rfl, rfl⟩
    exact ⟨.refl, iff_of_true rfl fun both => room both.2, fun _ _ => ⟨_, rfl⟩⟩

/-- What is left of linking a target once its id is known. -/
def linkTo (txn : Txn) (relation : Relation) (source : ObjectId) (linked : IdSet)
    (target : ObjectId) : Editing Tag IdSet := do
  if linked.contains target then return linked.erase target
  HostM.request "rel_put" (.relPut (some txn.handle) relation.id source target)
  return linked

theorem linkTo_fills {target : ObjectId} :
    Editing.Fills (linkTo txn relation source linked target) := by
  unfold linkTo
  split
  · exact .pure
  · exact .bind (.ofStore HostM.request_halts.ofHost) fun _ => .pure

theorem linkTarget_fills {descriptor : EntityDescriptor} :
    Editing.Fills (linkTarget ⟨descriptor, tagBinding⟩ txn relation source linked) := by
  intro tag v
  refine Ends.bind (Box.currentId_ends (b := ⟨descriptor, tagBinding⟩) tagTotal) ?_
  by_cases unsaved : tag.id = 0
  · rw [if_pos (show tagTotal.idOf tag = 0 from unsaved)]
    have filled (tag' : Tag) : Filled tag tag' :=
      ⟨rfl, .cons (fun saved => absurd unsaved saved) .nil⟩
    refine Leads.onward (Box.putObject_halts (b := ⟨descriptor, tagBinding⟩) tagTotal
      (fun _ _ => .pure) _) ?_ ?_
    · exact fun target w _ => (linkTo_fills w.1 w.2).mono fun r w' _ => filled w'.1
    · exact fun _ w _ => filled w.1
  · rw [if_neg (show tagTotal.idOf tag ≠ 0 from unsaved)]
    exact Ends.bind Ends.pure (linkTo_fills tag v)

theorem linkTarget_saved {Q : Except StoreError IdSet → Tag × Store × Engine → Prop}
    (saved : tag.id ≠ 0) (h : Leads (linkTo txn relation source linked tag.id) (tag, v) Q) :
    Leads (linkTarget tagBox txn relation source linked) (tag, v) Q := by
  apply Ends.bind (Box.currentId_ends (b := tagBox) tagTotal)
  rw [if_neg (show tagTotal.idOf tag ≠ 0 from saved)]
  exact Ends.bind Ends.pure h

theorem linkTarget_unsaved (opened : store.closed = false)
    (within : base.Within callerThread .write s e)
    (known : e.entities.contains tagBox.entity = true) (unsaved : tag.id = 0) (is_due : due) :
    Leads (linkTarget tagBox ⟨base.nextHandle, .write⟩ relation source linked) (tag, store, e)
      fun r w => Handed due e.TagLeft tag w.1 (Failed r) := by
  apply Ends.bind (Box.currentId_ends (b := tagBox) tagTotal)
  rw [if_pos (show tagTotal.idOf tag = 0 from unsaved)]
  exact Editing.handed_bind is_due (put_tag_handed opened within known unsaved is_due) fun _ =>
    linkTo_fills

theorem linkTarget_linked (saved : tag.id ≠ 0) (found : linked.contains tag.id = true) :
    Ends (linkTarget tagBox txn relation source linked) (tag, v) (.ok (linked.erase tag.id))
      (tag, v) := by
  refine linkTarget_saved saved ?_
  rw [linkTo, if_pos found]
  exact Ends.pure

theorem linkTarget_new (within : base.Within callerThread .write s e)
    (able : CanLink base relation source) (saved : tag.id ≠ 0)
    (new : ¬ linked.contains tag.id = true) :
    ∃ e', Ends (linkTarget tagBox ⟨base.nextHandle, .write⟩ relation source linked) (tag, store, e)
        (.ok linked) (tag, store, e') ∧
      base.Within callerThread .write (s.link relation.id source tag.id) e' ∧
      ∀ entity, e'.lastId entity = e.lastId entity := by
  obtain ⟨e₁, wrote, within₁⟩ := within.wrote (s.link relation.id source tag.id)
  have known : ∃ ends, e.relations[relation.id]? = some ends := by
    rw [within.schema.relations]
    exact Std.ExtTreeMap.isSome_getElem?_iff_mem.mpr able.2 |> Option.isSome_iff_exists.mp
  have served : e.perform callerThread (.relPut (some base.nextHandle) relation.id source tag.id) =
      .ok ((), e₁.countLinkWrite) :=
    Engine.changing_eq_ok.mpr (Engine.relPut_eq_ok.mpr ⟨known, ⟨able.1, saved⟩, s, e₁, wrote, rfl⟩)
  refine ⟨e₁.countLinkWrite, ?_, within₁.recount, fun entity => wrote.lastId_eq⟩
  refine linkTarget_saved saved ?_
  rw [linkTo, if_neg new]
  exact Ends.bind (Ends.ofStore (Ends.ofHost (HostM.request_ends served))) Ends.pure

theorem linkTarget_refused (within : base.Within callerThread .write s e)
    (unable : ¬ CanLink base relation source) (saved : tag.id ≠ 0)
    (new : ¬ linked.contains tag.id = true) :
    Leads (linkTarget tagBox ⟨base.nextHandle, .write⟩ relation source linked) (tag, store, e)
      fun r w => Failed r ∧ w.1 = tag := by
  refine linkTarget_saved saved ?_
  rw [linkTo, if_neg new]
  refine Leads.bind (Leads.ofStore (Leads.ofHost (HostM.request_leads ?_ ?_)))
  · intro answer e' served
    obtain ⟨⟨ends, known⟩, ⟨nonzero, -⟩, -⟩ :=
      Engine.relPut_eq_ok.mp (Engine.changing_eq_ok.mp served)
    refine absurd ⟨nonzero, ?_⟩ unable
    rw [within.schema.relations] at known
    exact Std.ExtTreeMap.mem_iff_isSome_getElem?.mpr (by rw [known]; rfl)
  · exact fun error none => ⟨⟨error, rfl⟩, rfl⟩

/-! ## All targets -/

theorem linkTargets_fills {descriptor : EntityDescriptor} :
    Editing.Fills (linkTargets ⟨descriptor, tagBinding⟩ txn relation source linked) := by
  intro tags
  induction tags generalizing linked with
  | nil => exact fun v => linkTargets_nil .refl
  | cons tag tags ih =>
      refine fun v => linkTargets_cons ((linkTarget_fills tag v).mono ?_)
      rintro (why | linked) ⟨tag', v⟩ filled
      · exact filled.cons .refl
      · simp only [Further]
        exact (ih v).mono fun r w others => filled.cons others

/-- Linking targets with these ids comes to one without an id: those before it are linked already,
    each once, or they can be linked. -/
def Reaches (able : Prop) : (linked : IdSet) → List ObjectId → Prop
  | _, [] => False
  | linked, id :: ids =>
    id = 0 ∨ if linked.contains id then Reaches able (linked.erase id) ids
      else able ∧ Reaches able linked ids

theorem reaches_iff {able : Prop} (can : able) {ids : List ObjectId} :
    Reaches able linked ids ↔ 0 ∈ ids := by
  induction ids generalizing linked with
  | nil => simp [Reaches]
  | cons id ids ih =>
      rw [Reaches, List.mem_cons, @eq_comm _ 0 id]
      refine or_congr_right ?_
      split
      · exact ih
      · rw [and_iff_right can]
        exact ih

theorem related_tags : related tags = tags.map Tag.id :=
  (List.map_eq_flatMap ..).symm

/-- An id is handed out to a target exactly if linking comes to one that has none. -/
theorem linkTargets_handed (opened : store.closed = false)
    (within : base.Within callerThread .write s e)
    (known : e.entities.contains tagBox.entity = true) :
    Leads (linkTargets tagBox ⟨base.nextHandle, .write⟩ relation source linked) (tags, store, e)
      fun r w => Handed (Reaches (CanLink base relation source) linked (tags.map Tag.id)) e.TagLeft
        tags w.1 (Failed r) := by
  induction tags generalizing linked s e with
  | nil => exact linkTargets_nil (.of_kept .refl rfl id)
  | cons tag tags ih =>
      refine linkTargets_cons ?_
      rw [List.map_cons]
      by_cases unsaved : tag.id = 0
      · have due : Reaches (CanLink base relation source) linked (tag.id :: tags.map Tag.id) :=
          .inl unsaved
        refine (linkTarget_unsaved opened within known unsaved due).mono ?_
        rintro (why | linked) ⟨tag', v⟩ handed
        · exact handed.cons_failed.failing fun _ => ⟨why, rfl⟩
        · simp only [Further]
          refine (linkTargets_fills tags v).mono fun r w filled => ?_
          exact handed.cons_failed.goes_on not_failed_ok due (Filled.refl.cons filled)
      · rw [Reaches, or_iff_right unsaved]
        by_cases found : linked.contains tag.id = true
        · refine (linkTarget_linked unsaved found).leads ?_
          rw [if_pos found]
          simp only [Further]
          exact (ih within known).mono fun r w handed => handed.cons_same
        · rw [if_neg found]
          by_cases able : CanLink base relation source
          · obtain ⟨e', ends, within', same⟩ := linkTarget_new within able unsaved found
            refine ends.leads ?_
            rw [and_iff_right able]
            simp only [Further]
            have left : e'.TagLeft ↔ e.TagLeft := Engine.tagLeft_congr (same _)
            have known' : e'.entities.contains tagBox.entity = true := by
              rw [within'.known, ← within.known]
              exact known
            refine (ih within' known').mono fun r w handed => ?_
            rw [propext left] at handed
            exact handed.cons_same
          · refine (linkTarget_refused within able unsaved found).mono ?_
            rintro (why | linked) ⟨tag', store', e'⟩ ⟨⟨_, failed⟩, rfl⟩
            · exact .of_kept .refl rfl fun due => able due.1
            · cases failed

theorem linkTargets_ends (store : Store) (linked : IdSet)
    (within : base.Within callerThread .write s e) (able : CanLink base relation source)
    (saved : ∀ tag ∈ tags, tag.id ≠ 0) :
    ∃ unwanted s' e', Ends (linkTargets tagBox ⟨base.nextHandle, .write⟩ relation source linked)
        (tags, store, e) (.ok unwanted) (tags, store, e') ∧
      base.Within callerThread .write s' e' ∧ s'.records = s.records ∧
      ∀ entity, e'.lastId entity = e.lastId entity := by
  induction tags generalizing linked s e with
  | nil => exact ⟨linked, s, e, linkTargets_nil ⟨rfl, rfl⟩, within, rfl, fun _ => rfl⟩
  | cons tag tags ih =>
      have here : tag.id ≠ 0 := saved tag List.mem_cons_self
      have later : ∀ tag ∈ tags, tag.id ≠ 0 := fun tag member =>
        saved tag (List.mem_cons_of_mem _ member)
      by_cases found : linked.contains tag.id = true
      · obtain ⟨unwanted, s', e', rest, within', records, same⟩ := ih (linked.erase tag.id)
          within later
        refine ⟨unwanted, s', e', linkTargets_cons ?_, within', records, same⟩
        refine (linkTarget_linked here found).leads ?_
        simp only [Further]
        exact rest.leads ⟨rfl, rfl⟩
      · obtain ⟨e₁, first, within₁, same₁⟩ :=
          linkTarget_new within able here found
        obtain ⟨unwanted, s', e', rest, within', records, same⟩ := ih linked within₁ later
        refine ⟨unwanted, s', e', linkTargets_cons ?_, within', ?_, ?_⟩
        · refine first.leads ?_
          simp only [Further]
          exact rest.leads ⟨rfl, rfl⟩
        · exact records.trans Snapshot.link_records
        · exact fun entity => (same entity).trans (same₁ entity)

/-! ## Replacing links -/

/-- What a source that is stored under an id is linked to; nothing if it is not stored. -/
def linkedTo (s : Snapshot) (relation : Relation) (stored : ObjectId) : IdSet :=
  if stored = 0 then ∅ else s.targets relation.id stored

theorem ofList_toList {ids : IdSet} : Std.ExtTreeSet.ofList ids.toList = ids := by
  ext id
  simp

/-- Replacing the links of a source comes to a target without an id: the links it has can be read,
    and linking comes to such a target. -/
def ReplacingReaches (base : Engine) (s : Snapshot) (relation : Relation)
    (source stored : ObjectId) : Option (List Tag) → Prop
  | none => False
  | some tags => (stored = 0 ∨ base.relations.contains relation.id = true) ∧
    Reaches (CanLink base relation source) (linkedTo s relation stored) (tags.map Tag.id)

variable {stored : ObjectId} {targets : Option (List Tag)}

theorem relGetIds_eq (within : base.Within callerThread .write s e)
    (known : base.relations.contains relation.id = true) :
    e.perform callerThread (.relGetIds (some base.nextHandle) relation.id stored) =
      .ok ((s.targets relation.id stored).toList, e) := by
  obtain ⟨ends, found⟩ : ∃ ends, e.relations[relation.id]? = some ends := by
    rw [within.schema.relations]
    exact Option.isSome_iff_exists.mp (Std.ExtTreeMap.isSome_getElem?_iff_mem.mpr known)
  refine Engine.reading_eq_ok.mpr ⟨?_, rfl⟩
  rw [Engine.relGetIds, Engine.endpoints_eq_ok.mpr found, within.view]
  rfl

/-- What is left of replacing the links of a source once its links are known. -/
def relink (txn : Txn) (relation : Relation) (source : ObjectId) (linked : IdSet) :
    Editing (Option (List Tag)) Unit := do
  let b ← boxFor tagBinding
  let unwanted ← Editing.focus (fun targets => targets.getD []) (fun _ targets => some targets)
    (linkTargets b txn relation source linked)
  unwanted.toList.forM fun target =>
    HostM.request "rel_remove" (.relRemove (some txn.handle) relation.id source target)

theorem relink_handed (opened : store.closed = false)
    (bound : store.model.bound? tagBinding.name = some tagBox.descriptor)
    (within : base.Within callerThread .write s e)
    (known : e.entities.contains tagBox.entity = true) :
    Leads (relink ⟨base.nextHandle, .write⟩ relation source linked) (some tags, store, e)
      fun r w => Handed (Reaches (CanLink base relation source) linked (tags.map Tag.id)) e.TagLeft
        (some tags) w.1 (Failed r) := by
  apply Ends.bind (Ends.ofStore (StoreM.boxFor_ends opened bound))
  refine Editing.handed_still (Editing.focus_leads ?_) fun unwanted =>
    .forM fun target => .ofStore HostM.request_halts.ofHost
  refine (linkTargets_handed opened within known).mono fun r w handed => ?_
  exact ⟨⟨handed.filled.own, handed.filled.related⟩, handed.kept, handed.stuck⟩

theorem replaceLinks_handed (opened : store.closed = false)
    (bound : store.model.bound? tagBinding.name = some tagBox.descriptor)
    (within : base.Within callerThread .write s e)
    (known : e.entities.contains tagBox.entity = true) :
    Leads (replaceLinks tagBinding ⟨base.nextHandle, .write⟩ relation source stored)
      (targets, store, e) fun r w =>
        Handed (ReplacingReaches base s relation source stored targets) e.TagLeft targets w.1
          (Failed r) := by
  apply Ends.bind Editing.current_ends
  cases targets with
  | none =>
      by_cases new : stored = 0
      · simp only [new, ne_eq, not_true_eq_false, if_false]
        exact Leads.pure (.of_kept .refl rfl id)
      · simp only [new, ne_eq, not_false_eq_true, if_true]
        exact Leads.ofStore (StoreM.misuse_ends.leads (.of_kept .refl rfl id))
  | some tags =>
      rw [ReplacingReaches, linkedTo]
      by_cases new : stored = 0
      · simp only [new, true_or, true_and, if_true]
        exact Ends.bind Ends.pure (relink_handed opened bound within known)
      · simp only [new, false_or, if_false]
        by_cases readable : base.relations.contains relation.id = true
        · rw [and_iff_right readable]
          refine Ends.bind (Ends.ofStore (Ends.ofHost (HostM.request_ends
            (relGetIds_eq within readable)))) ?_
          rw [ofList_toList]
          exact relink_handed opened bound within known
        · refine Leads.bind (Leads.ofStore (Leads.ofHost (HostM.request_leads ?_ ?_)))
          · intro ids e' served
            have read := (Engine.reading_eq_ok.mp served).1
            rw [Engine.relGetIds, bind_eq_ok] at read
            obtain ⟨ends, found, -⟩ := read
            rw [Engine.endpoints_eq_ok, within.schema.relations] at found
            exact absurd (Std.ExtTreeMap.mem_iff_isSome_getElem?.mpr (by rw [found]; rfl)) readable
          · exact fun error none => .of_kept .refl rfl fun due => readable due.1

theorem unlinkAll_ends {σ : Type} (store : Store) (objects : σ) (source : ObjectId)
    (unwanted : List ObjectId) (within : base.Within callerThread .write s e)
    (known : base.relations.contains relation.id = true) :
    ∃ s' e', Ends (unwanted.forM fun target => (HostM.request "rel_remove"
          (.relRemove (some base.nextHandle) relation.id source target) : Editing σ Unit))
        (objects, store, e) (.ok ()) (objects, store, e') ∧
      base.Within callerThread .write s' e' ∧ s'.records = s.records ∧
      ∀ entity, e'.lastId entity = e.lastId entity := by
  induction unwanted generalizing s e with
  | nil => exact ⟨s, e, Ends.pure, within, rfl, fun _ => rfl⟩
  | cons target unwanted ih =>
      have found : ∃ ends, e.relations[relation.id]? = some ends := by
        rw [within.schema.relations]
        exact Option.isSome_iff_exists.mp (Std.ExtTreeMap.isSome_getElem?_iff_mem.mpr known)
      obtain ⟨e₁, wrote, within₁⟩ := within.wrote (s.unlink relation.id source target)
      have served : e.perform callerThread
          (.relRemove (some base.nextHandle) relation.id source target) =
            .ok ((), e₁.countLinkWrite) :=
        Engine.changing_eq_ok.mpr (Engine.relRemove_eq_ok.mpr ⟨found, s, e₁, wrote, rfl⟩)
      obtain ⟨s', e', rest, within', records, same⟩ := ih within₁.recount
      refine ⟨s', e', ?_, within', records.trans Snapshot.unlink_records, fun entity => ?_⟩
      · exact Ends.bind (Ends.ofStore (Ends.ofHost (HostM.request_ends served))) rest
      · exact (same entity).trans wrote.lastId_eq

/-- Targets that all carry ids are what a source is linked to afterwards, and they stay as they are,
    as do all records and sequences. -/
theorem replaceLinks_ends (stored : ObjectId) (opened : store.closed = false)
    (bound : store.model.bound? tagBinding.name = some tagBox.descriptor)
    (within : base.Within callerThread .write s e) (able : CanLink base relation source)
    (saved : ∀ tag ∈ tags, tag.id ≠ 0) :
    ∃ s' e', Ends (replaceLinks tagBinding ⟨base.nextHandle, .write⟩ relation source stored)
        (some tags, store, e) (.ok ()) (some tags, store, e') ∧
      base.Within callerThread .write s' e' ∧ s'.records = s.records ∧
      ∀ entity, e'.lastId entity = e.lastId entity := by
  obtain ⟨unwanted, s₁, e₁, linking, within₁, records₁, same₁⟩ :=
    linkTargets_ends store (linkedTo s relation stored) within able saved
  obtain ⟨s', e', unlinking, within', records, same⟩ :=
    unlinkAll_ends store (some tags) source unwanted.toList within₁ able.2
  refine ⟨s', e', ?_, within', records.trans records₁,
    fun entity => (same entity).trans (same₁ entity)⟩
  have rest : Ends (relink ⟨base.nextHandle, .write⟩ relation source (linkedTo s relation stored))
      (some tags, store, e) (.ok ()) (some tags, store, e') := by
    apply Ends.bind (Ends.ofStore (StoreM.boxFor_ends opened bound))
    refine Leads.bind (Editing.focus_leads (linking.leads ?_))
    simp only [Onward]
    exact unlinking
  apply Ends.bind Editing.current_ends
  rw [linkedTo] at rest
  by_cases new : stored = 0
  · simp only [new, if_true] at rest ⊢
    exact Ends.bind Ends.pure rest
  · simp only [new, if_false] at rest ⊢
    refine Ends.bind (Ends.ofStore (Ends.ofHost (HostM.request_ends
      (relGetIds_eq within able.2)))) ?_
    rw [ofList_toList]
    exact rest

theorem replaceLinks_fills :
    Editing.Fills (replaceLinks tagBinding txn relation source stored) := by
  have rest (linked : List ObjectId) :
      Editing.Fills (relink txn relation source (.ofList linked)) := by
    intro targets v
    have found : Leads (Editing.ofStore (boxFor tagBinding) : Editing (Option (List Tag)) (Box Tag))
        (targets, v) fun r w => w.1 = targets ∧ ∀ b, r = .ok b → ∃ d, b = ⟨d, tagBinding⟩ :=
      Leads.ofStore (StoreM.boxFor_leads.mono fun _ _ box => ⟨rfl, box⟩)
    refine found.onward ?_ ?_
    · rintro b ⟨targets', v'⟩ ⟨rfl, box⟩
      obtain ⟨descriptor, rfl⟩ := box b rfl
      have linking : Editing.Fills (Editing.focus (fun targets => targets.getD [])
          (fun _ targets => some targets)
          (linkTargets ⟨descriptor, tagBinding⟩ txn relation source (.ofList linked))) := by
        refine fun targets v => Editing.focus_leads ((linkTargets_fills _ v).mono ?_)
        cases targets <;> exact fun r w filled => ⟨filled.own, filled.related⟩
      exact (linking.bind fun unwanted => (Editing.Still.forM fun target =>
        .ofStore HostM.request_halts.ofHost).fills) _ v'
    · rintro why w ⟨same, -⟩
      exact same ▸ .refl
  refine .bind Editing.current_fills fun targets => ?_
  split
  · split
    · exact .ofStore .throw
    · exact .pure
  · split
    · exact .bind .pure rest
    · exact .bind (.ofStore HostM.request_halts.ofHost) rest

end Store

end ObjectStore
