import ObjectStore.Proofs.Engine.FreshIds
import ObjectStore.Proofs.Keys.Written
import ObjectStore.Proofs.Links.Replacement
import ObjectStore.Proofs.Store.Atomicity

/-! # The links that are desired

A replacement that succeeds leaves the source with links to the targets it was given and to no
others. Targets that carried no id are stored, each under a new one, and can be read; nothing else
has changed, and doing it again changes nothing at all. It makes no difference whether the
replacement is made through a transaction or is one of its own.
-/

namespace ObjectStore

/-! ## Targets that are stored -/

/-- What is expected of a binding for an object: it carries the id it is given, and what is written
of it is read as an object of that id with the same content. -/
structure Binding.Faithful {T : Type} (binding : Binding T) (object : T) : Prop where
  carries : binding.Carries object
  reads {id : ObjectId} {record : Bytes} : id ≠ 0 →
    Record.made id (binding.body object) = .ok record → ∃ back, binding.decode record = .ok back ∧
      binding.id back = .ok id ∧ binding.body back = binding.body object

theorem Engine.lt_succ {last : ObjectId} (room : last.toNat ≠ maxId) : last < last + 1 := by
  have bound := last.toNat_lt
  simp only [maxId] at room
  rw [UInt64.lt_iff_toNat_lt, UInt64.toNat_add]
  simp only [UInt64.reduceToNat]
  omega

namespace Binding.SavesAll

variable {T : Type} {binding : Binding T} {last last' : ObjectId} {targets now : List T}
  {ids : List ObjectId} {entries : List (ObjectId × Bytes)}
  (h : binding.SavesAll last targets now ids entries last')
include h

theorem ne_zero : ∀ id ∈ ids, id ≠ 0 := by
  induction h with
  | nil => simp
  | cons first _ ih => exact List.forall_mem_cons.mpr ⟨first.ne_zero, ih⟩

theorem ascending : last ≤ last' ∧ (entries.map Prod.fst).Pairwise (· < ·) ∧
    ∀ id ∈ entries.map Prod.fst, last < id ∧ id ≤ last' := by
  induction h with
  | nil => exact ⟨Std.le_refl _, .nil, by simp⟩
  | cons first _ ih =>
      obtain ⟨grown, ascending, past⟩ := ih
      cases first with
      | kept => exact ⟨grown, ascending, past⟩
      | stored _ room =>
          have less := Engine.lt_succ room
          refine ⟨Std.le_of_lt (Std.lt_of_lt_of_le less grown), ?_, ?_⟩
          · exact .cons (fun id member => (past id member).1) ascending
          · refine List.forall_mem_cons.mpr ⟨⟨less, grown⟩, fun id member => ?_⟩
            exact ⟨Std.lt_trans less (past id member).1, (past id member).2⟩

theorem each : List.Forall₂ (fun target target' =>
    (∃ id, id ≠ 0 ∧ binding.id target = .ok id ∧ target' = target) ∨
    binding.id target = .ok 0 ∧ ∃ entry ∈ entries,
      Record.made entry.1 (binding.body target) = .ok entry.2 ∧
      binding.setId target entry.1 = .ok target') targets now := by
  induction h with
  | nil => exact .nil
  | cons first _ ih =>
      refine .cons ?_ (ih.imp fun target target' found => ?_)
      · cases first with
        | kept carried nonzero => exact .inl ⟨_, nonzero, carried, rfl⟩
        | stored unsaved _ made given => exact .inr ⟨unsaved, _, List.mem_cons_self, made, given⟩
      · rcases found with kept | ⟨unsaved, entry, member, stored⟩
        · exact .inl kept
        · exact .inr ⟨unsaved, entry, List.mem_append_right _ member, stored⟩

theorem of_entry {entry : ObjectId × Bytes} (member : entry ∈ entries) :
    ∃ p ∈ targets.zip now, binding.id p.1 = .ok 0 ∧ binding.setId p.1 entry.1 = .ok p.2 := by
  induction h with
  | nil => cases member
  | cons first _ ih =>
      rcases List.mem_append.mp member with here | later
      · cases first with
        | kept => cases here
        | stored unsaved _ _ given =>
            obtain rfl := List.mem_singleton.mp here
            exact ⟨_, List.mem_cons_self, unsaved, given⟩
      · obtain ⟨p, listed, stored⟩ := ih later
        exact ⟨p, List.mem_cons_of_mem _ listed, stored⟩

theorem distinct : (targets.zip now).Pairwise fun p q => binding.id p.1 = .ok 0 →
    binding.id q.1 = .ok 0 → ∃ id id', id < id' ∧ binding.setId p.1 id = .ok p.2 ∧
      binding.setId q.1 id' = .ok q.2 := by
  induction h with
  | nil => exact .nil
  | cons first rest ih =>
      refine .cons (fun q listed unsaved unsaved' => ?_) ih
      cases first with
      | kept carried nonzero => exact absurd (Except.ok.inj (carried.symm.trans unsaved)) nonzero
      | stored _ _ _ given =>
          have later := List.forall₂_iff_zip.mp rest.each
          rcases later.2 listed with ⟨id, nonzero, carried, -⟩ | ⟨-, entry, member, -, given'⟩
          · exact absurd (Except.ok.inj (carried.symm.trans unsaved')) nonzero
          · have past := rest.ascending.2.2 entry.1 (List.mem_map_of_mem member)
            exact ⟨_, entry.1, past.1, given, given'⟩

end Binding.SavesAll

/-! ## What is left -/

namespace Box

variable {T : Type} (b : Box T) (txn : Option Txn) (s s' : Session)

/-- A target that carried no id is stored under a new one, and can be read. -/
structure Stores (target target' : T) (id : ObjectId) : Prop where
  unsaved : b.binding.id target = .ok 0
  given : b.binding.setId target id = .ok target'
  carries : b.binding.id target' = .ok id
  nonzero : id ≠ 0
  /-- No id as large was ever handed out or stored. -/
  past : s.host.machine.engine.lastId b.entity < id
  unused {other : Option Handle} {view : Snapshot} : s.host.machine.engine.view other = .ok view →
    view.contains b.entity id = false
  record : ∃ view record, s'.host.machine.engine.view (txn.map Txn.handle) = .ok view ∧
    Record.made id (b.binding.body target) = .ok record ∧ view.record? b.entity id = some record
  readable : ∃ back, ((b.get txn id).run s').1 = .ok (some back) ∧ b.binding.id back = .ok id ∧
    b.binding.body back = b.binding.body target

/-- The targets `now` are what became of `targets`, and they are the ones a source is linked to.
Nothing else that anybody sees has changed. -/
structure LinksExactly (relation : RelationId) (source : ObjectId) (targets now : List T)
    (view view' : Snapshot) : Prop where
  before : s.host.machine.engine.view (txn.map Txn.handle) = .ok view
  after : s'.host.machine.engine.view (txn.map Txn.handle) = .ok view'
  linked (id : ObjectId) : id ∈ view'.targets relation source ↔
    ∃ target ∈ now, b.binding.id target = .ok id
  each : List.Forall₂ (fun target target' =>
    (∃ id, id ≠ 0 ∧ b.binding.id target = .ok id ∧ target' = target) ∨
    ∃ id, b.Stores txn s s' target target' id) targets now
  distinct : (targets.zip now).Pairwise fun p q => b.binding.id p.1 = .ok 0 →
    b.binding.id q.1 = .ok 0 → b.binding.id p.2 ≠ b.binding.id q.2
  links (relation' : RelationId) (source' : ObjectId) :
    ¬ (relation' = relation ∧ source' = source) →
      view'.targets relation' source' = view.targets relation' source'
  records (entity : EntityId) (id : ObjectId) :
    view'.record? entity id = view.record? entity id ∨
      entity = b.entity ∧
        ∃ p ∈ targets.zip now, b.binding.id p.1 = .ok 0 ∧ b.binding.id p.2 = .ok id
  elsewhere {other : Option Handle} : other ≠ txn.map Txn.handle →
    s'.host.machine.engine.view other = s.host.machine.engine.view other
  sequences {entity : EntityId} : entity ≠ b.entity →
    s'.host.machine.engine.lastId entity = s.host.machine.engine.lastId entity
  schema : s.host.machine.engine.SameSchema s'.host.machine.engine
  store : s'.store = { s.store with pool := s'.store.pool }

variable {b txn s s'}

theorem get_leads {store : Store} {e : Engine} {id : ObjectId} {record : Bytes} {object : T}
    {view : Snapshot} (simple : b.descriptor.hasRelations = false) (opened : store.closed = false)
    (exclusive : e.Exclusive) (known : e.entities.contains b.entity = true)
    (seen : e.view (txn.map Txn.handle) = .ok view)
    (found : view.record? b.entity id = some record)
    (decodes : b.binding.decode record = .ok object) :
    Leads (b.get txn id) (store, e) fun r _ => r = .ok (some object) := by
  cases txn with
  | some txn =>
      exact (getIn_ends opened known seen found decodes (loads_of_simple simple)).leads rfl
  | none =>
      refine (Store.reading_leads opened exclusive fun e₁ within => ?_).mono fun _ _ read => read.1
      obtain rfl : e.committed = view := Except.ok.inj seen
      exact getIn_ends opened (within.known.trans known) within.view found decodes
        (loads_of_simple simple)

end Box

namespace Replacement

theorem targets_iff {T : Type} {binding : Binding T} {store : Store} {e : Engine}
    {txn : Option Handle} {relation : Relation} {source : ObjectId} {targets : List T}
    (x : Replacement binding store e txn relation source targets)
    (relation' : RelationId) (source' id : ObjectId) :
    id ∈ x.draft.view.targets relation' source' ↔
      if relation.id = relation' ∧ source = source' then id ∈ x.ids
      else id ∈ x.view.targets relation' source' := by
  rw [x.relinks.targets_iff]
  split
  · rw [Std.ExtTreeSet.mem_toList]
    exact or_iff_left fun known => known.2 known.1
  · rfl

variable {T : Type} {binding : Binding T} {s s' : Session} {txn : Option Txn} {relation : Relation}
  {source : ObjectId} {targets : List T}
  (x : Replacement binding s.store s.host.machine.engine (txn.map Txn.handle) relation source
    targets)
  (running : s.Running) (shows : Viewed.Shows s' (s.store,
    s.host.machine.engine.redrafted x.mode x.draft (txn.map Txn.handle)))
include running shows

theorem stores {target target' : T} {entry : ObjectId × Bytes} (opened : s.store.closed = false)
    (simple : x.entity.hasRelations = false) (unsaved : binding.id target = .ok 0)
    (faithful : binding.Faithful target) (member : entry ∈ x.entries)
    (made : Record.made entry.1 (binding.body target) = .ok entry.2)
    (given : binding.setId target entry.1 = .ok target') :
    Box.Stores ⟨x.entity, binding⟩ txn s s' target target' entry.1 := by
  obtain ⟨arrays, arises⟩ := running.engine
  obtain ⟨-, ascending, past⟩ := x.relinks.saves.ascending
  have past := (past entry.1 (List.mem_map_of_mem member)).1
  have nonzero : entry.1 ≠ 0 := fun zero => by
    rw [zero] at past
    exact UInt64.not_lt_zero past
  have found : x.draft.view.record? x.entity.id entry.1 = some entry.2 := by
    rw [Snapshot.record?, x.relinks.table, if_pos rfl]
    exact getElem?_insertMany (ascending.imp UInt64.ne_of_lt) member
  obtain ⟨back, decodes, carries, same⟩ := faithful.reads nonzero made
  have schema : s.host.machine.engine.SameSchema
      (s.host.machine.engine.redrafted x.mode x.draft (txn.map Txn.handle)) :=
    Engine.Stands.schema_redrafted
  have known := x.relinks.defined (List.ne_nil_of_mem member)
  rw [← schema.entities] at known
  have read : Leads (Box.get ⟨x.entity, binding⟩ txn entry.1)
      (s.store, s.host.machine.engine.redrafted x.mode x.draft (txn.map Txn.handle))
      fun r _ => r = .ok (some back) :=
    Box.get_leads simple opened (x.stands.exclusive arises.exclusive) known
      x.stands.redrafted.seen found decodes
  obtain ⟨-, -, answered⟩ := read s' shows
  refine ⟨unsaved, given, faithful.carries _ _ given, nonzero, past,
    fun seen => Engine.Reaches.unused (arises.numbered.view seen) past, ?_, back, answered,
    carries, same⟩
  refine ⟨x.draft.view, entry.2, ?_, made, found⟩
  rw [show s'.host.machine.engine = _ from shows.1.2]
  exact x.stands.redrafted.seen

/-- The source is linked to the targets, those that carried no id are stored, and nothing else has
    changed. -/
theorem linksExactly (opened : s.store.closed = false)
    (simple : x.entity.hasRelations = false)
    (faithful : ∀ target ∈ targets, binding.id target = .ok 0 → binding.Faithful target) :
    Box.LinksExactly ⟨x.entity, binding⟩ txn s s' relation.id source targets x.now x.view
      x.draft.view := by
  have saves := x.relinks.saves
  have carried := saves.map_id fun target member unsaved =>
    (faithful target member unsaved).carries
  have listed := List.forall₂_iff_zip.mp saves.each
  have engine : s'.host.machine.engine =
      s.host.machine.engine.redrafted x.mode x.draft (txn.map Txn.handle) := shows.1.2
  constructor
  case before => exact x.stands.seen
  case after => rw [engine]; exact x.stands.redrafted.seen
  case linked =>
    intro id
    rw [x.targets_iff, if_pos ⟨rfl, rfl⟩]
    have member : Except.ok id ∈ x.now.map binding.id ↔ id ∈ x.ids := by
      rw [carried]
      simp
    rw [← member, List.mem_map]
  case each =>
    refine List.forall₂_iff_zip.mpr ⟨listed.1, fun {target target'} pair => ?_⟩
    rcases listed.2 pair with kept | ⟨unsaved, entry, member, made, given⟩
    · exact .inl kept
    · have faithful := faithful target (List.of_mem_zip pair).1 unsaved
      exact .inr ⟨entry.1, x.stores running shows opened simple unsaved faithful member made given⟩
  case distinct =>
    refine saves.distinct.imp_of_mem fun {p q} pair pair' apart unsaved unsaved' => ?_
    obtain ⟨id, id', less, given, given'⟩ := apart unsaved unsaved'
    rw [(faithful p.1 (List.of_mem_zip pair).1 unsaved).carries _ _ given,
      (faithful q.1 (List.of_mem_zip pair').1 unsaved').carries _ _ given']
    exact fun same => UInt64.ne_of_lt less (Except.ok.inj same)
  case links =>
    intro relation' source' other
    ext id
    rw [x.targets_iff, if_neg fun same => other ⟨same.1.symm, same.2.symm⟩]
  case records =>
    intro entity id
    by_cases new : entity = x.entity.id ∧ id ∈ x.entries.map Prod.fst
    · obtain ⟨rfl, member⟩ := new
      obtain ⟨entry, stored, rfl⟩ := List.mem_map.mp member
      obtain ⟨p, pair, unsaved, given⟩ := saves.of_entry stored
      have carries := (faithful p.1 (List.of_mem_zip pair).1 unsaved).carries _ _ given
      exact .inr ⟨rfl, p, pair, unsaved, carries⟩
    · refine .inl ?_
      rw [Snapshot.record?, x.relinks.table]
      split
      · subst entity
        exact getElem?_insertMany_other fun member => new ⟨rfl, member⟩
      · rfl
  case elsewhere =>
    intro other apart
    rw [engine]
    exact x.stands.view_other apart
  case sequences =>
    intro entity apart
    have apart : x.entity.id ≠ entity := Ne.symm apart
    rw [engine, Engine.Stands.lastId_redrafted, x.relinks.lastId, if_neg apart]
    rfl
  case schema => rw [engine]; exact Engine.Stands.schema_redrafted
  case store => exact shows.2

end Replacement

/-! ## Doing it again -/

theorem Snapshot.link_of_mem {s : Snapshot} {relation : RelationId} {source target : ObjectId}
    (linked : target ∈ s.targets relation source) : s.link relation source target = s := by
  have same : (s.targets relation source).insert target = s.targets relation source := by
    ext id
    grind
  have sources : (s.linkTable relation)[source]? = some (s.targets relation source) := by
    rw [targets, Std.ExtTreeMap.getD_eq_getD_getElem?] at linked ⊢
    cases found : (s.linkTable relation)[source]? with
    | none => simp [found] at linked
    | some targets => rfl
  have table : (s.linkTable relation).insert source (s.targets relation source) =
      s.linkTable relation := by
    ext id : 1
    grind
  have filled : ¬ (s.linkTable relation).isEmpty = true := fun empty => by
    rw [Std.ExtTreeMap.isEmpty_iff.mp empty] at sources
    cases sources
  have tables : s.links[relation]? = some (s.linkTable relation) := by
    cases found : s.links[relation]? with
    | some table => rw [linkTable, Std.ExtTreeMap.getD_eq_getD_getElem?, found]; rfl
    | none =>
        have none : s.linkTable relation = ∅ := by
          rw [linkTable, Std.ExtTreeMap.getD_eq_getD_getElem?, found]
          rfl
        exact absurd (Std.ExtTreeMap.isEmpty_iff.mpr none) filled
  have whole : s.links.insert relation (s.linkTable relation) = s.links := by
    ext id : 1
    grind
  rw [link, same, table, setLinks, if_neg filled, whole]

namespace Store

open Editing

variable {T : Type} {u : Setting} {mode : TxnMode} {relation : Relation} {source : ObjectId}
  {d : Draft} {targets : List T} {ids : List ObjectId}
  (stored : source ≠ 0) (known : u.base.relations.contains relation.id = true)
include stored known

theorem linkTarget_again {b : Box T} {target : T} {id : ObjectId} {linked : IdSet}
    (carried : b.binding.id target = .ok id) (nonzero : id ≠ 0)
    (present : id ∈ d.view.targets relation.id source) (able : mode = .write ∨ id ∈ linked) :
    ∃ left writes, Ends (linkTarget b u.txn relation source linked)
        (target, u.store, u.base.held u.txn.handle (some mode) d) (.ok left)
        (target, u.store, u.base.held u.txn.handle (some mode)
          { d with relationWrites := writes }) ∧
      ∀ other, other ∈ left ↔ other ∈ linked ∧ other ≠ id := by
  have current : Ends b.currentId (target, u.store, u.base.held u.txn.handle (some mode) d)
      (.ok id) (target, u.store, u.base.held u.txn.handle (some mode) d) :=
    Ends.bind Editing.current_ends (carried ▸ Ends.ofStore Box.idOf_reads)
  by_cases wanted : linked.contains id = true
  · refine ⟨linked.erase id, d.relationWrites, current.bind ?_, by grind⟩
    simp only [if_neg nonzero, pure_bind, if_pos wanted]
    exact Ends.pure
  · have absent : id ∉ linked := fun member => wanted (Std.ExtTreeSet.contains_iff_mem.mpr member)
    obtain rfl : mode = .write := able.resolve_right absent
    have served := (@Draft.serves_relPut u.base u.txn.handle relation.id source id).perform
      callerThread d
    have put : Draft.relPut u.base relation.id source id d =
        .ok ((), { d with relationWrites := d.relationWrites + 1 }) := by
      rw [Draft.relPut, Draft.linkable, if_pos known, if_neg (not_or.mpr ⟨stored, nonzero⟩),
        Snapshot.link_of_mem present]
    rw [put] at served
    refine ⟨linked, d.relationWrites + 1, current.bind ?_, by grind⟩
    simp only [if_neg nonzero, pure_bind, if_neg wanted]
    exact Ends.bind (Ends.ofStore (Ends.ofHost (HostM.request_ends served))) Ends.pure

theorem linkTargets_again {b : Box T} {linked : IdSet}
    (carried : targets.map b.binding.id = ids.map .ok) (nonzero : ∀ id ∈ ids, id ≠ 0)
    (present : ∀ id ∈ ids, id ∈ d.view.targets relation.id source)
    (able : mode = .write ∨ ids.Nodup ∧ ∀ id ∈ ids, id ∈ linked) :
    ∃ left writes, Ends (linkTargets b u.txn relation source linked)
        (targets, u.store, u.base.held u.txn.handle (some mode) d) (.ok left)
        (targets, u.store, u.base.held u.txn.handle (some mode)
          { d with relationWrites := writes }) ∧
      ∀ other, other ∈ left ↔ other ∈ linked ∧ other ∉ ids := by
  induction targets generalizing ids linked d with
  | nil =>
      obtain rfl : ids = [] := by simpa using carried.symm
      exact ⟨linked, d.relationWrites, linkTargets_nil ⟨rfl, rfl⟩, by simp⟩
  | cons target targets ih =>
      cases ids with
      | nil => cases carried
      | cons id ids =>
          obtain ⟨carried, rest⟩ := List.cons.inj carried
          obtain ⟨left, writes, first, left_iff⟩ := linkTarget_again stored known (d := d)
            carried (nonzero id (.head _)) (present id (.head _))
            (able.imp_right fun able => able.2 id (.head _))
          have able' : mode = .write ∨ ids.Nodup ∧ ∀ id ∈ ids, id ∈ left := by
            refine able.imp_right fun able => ?_
            obtain ⟨absent, distinct⟩ := List.nodup_cons.mp able.1
            refine ⟨distinct, fun other member => (left_iff other).mpr ?_⟩
            exact ⟨able.2 other (.tail _ member), fun same => absent (same ▸ member)⟩
          obtain ⟨left', writes', last, left_iff'⟩ := ih (d := { d with relationWrites := writes })
            rest (fun id member => nonzero id (.tail _ member))
            (fun id member => present id (.tail _ member)) able'
          refine ⟨left', writes', linkTargets_cons (first.leads ?_), fun other => ?_⟩
          · simp only [Further]
            exact last.leads ⟨rfl, rfl⟩
          · rw [left_iff', left_iff, List.mem_cons]
            grind

/-- A source that is linked to the targets is left as it is; links that are there may be written
    once more. -/
theorem replaceLinks_again {binding : Binding T} {entity : EntityDescriptor}
    (registered : u.store.registered binding.name = .ok entity)
    (carried : targets.map binding.id = ids.map .ok) (nonzero : ∀ id ∈ ids, id ≠ 0)
    (linked : ∀ id, id ∈ d.view.targets relation.id source ↔ id ∈ ids)
    (able : mode = .write ∨ ids.Nodup) :
    ∃ writes, Ends (replaceLinks binding u.txn relation source source)
      (some targets, u.store, u.base.held u.txn.handle (some mode) d) (.ok ())
      (some targets, u.store, u.base.held u.txn.handle (some mode)
        { d with relationWrites := writes }) := by
  obtain ⟨left, writes, ends, left_iff⟩ := @linkTargets_again T u mode relation source d targets
    ids stored known ⟨entity, binding⟩ (.ofList (d.view.targets relation.id source).toList) carried
    nonzero (fun id => (linked id).mpr)
    (able.imp_right fun distinct => ⟨distinct, fun id member => by simp [linked, member]⟩)
  have opened : u.store.closed = false ∧ u.store.model.bound? binding.name = some entity := by
    unfold Store.registered at registered
    grind
  have asked : (u.base.held u.txn.handle (some mode) d).perform callerThread
      (.relGetIds (some u.txn.handle) relation.id source) =
        .ok ((d.view.targets relation.id source).toList, _) :=
    Engine.perform_relGetIds known Engine.view_held
  have none : left.toList = [] := by
    rw [List.eq_nil_iff_forall_not_mem]
    intro id
    rw [Std.ExtTreeSet.mem_toList, left_iff, ← linked]
    simp
  refine ⟨writes, Ends.bind Editing.current_ends ?_⟩
  simp only [if_neg stored]
  refine Ends.bind (Ends.ofStore (Ends.ofHost (HostM.request_ends asked))) ?_
  refine Ends.bind (Ends.ofStore (StoreM.boxFor_ends opened.1 opened.2)) ?_
  refine Leads.bind (focus_leads (ends.leads ?_))
  simp only [Onward, none]
  exact Ends.pure

end Store

namespace Box

variable {T S : Type} {b : Box S} {binding : Binding T} {txn : Option Txn} {relation : Relation}
  {source : ObjectId} {object : S} {targets : List T} {ids : List ObjectId} {store : Store}
  {e : Engine} {entity : EntityDescriptor} {mode : TxnMode} {view : Snapshot}

theorem relationReplace_again (opened : store.closed = false) (exclusive : e.Exclusive)
    (starts : relation.source = b.entity) (identified : b.binding.id object = .ok source)
    (stored : source ≠ 0) (known : e.relations.contains relation.id = true)
    (registered : store.registered binding.name = .ok entity)
    (stands : e.Stands (txn.map Txn.handle) mode view)
    (carried : targets.map binding.id = ids.map .ok) (nonzero : ∀ id ∈ ids, id ≠ 0)
    (linked : ∀ id, id ∈ view.targets relation.id source ↔ id ∈ ids)
    (able : mode = .write ∨ ids.Nodup) :
    ∃ writes next, Ends (b.relationReplace binding txn relation source object)
      (some targets, store, e) (.ok ())
      (some targets, store, { e with relationWrites := writes, nextHandle := next }) := by
  have identifies : Ends (b.idOf object) (store, e) (.ok source) (store, e) :=
    identified ▸ idOf_reads
  have checked : Ends (b.checkSource relation) (store, e) (.ok ()) (store, e) :=
    checkSource_ends starts
  cases txn with
  | some txn =>
      cases stands with
      | inTxn found =>
          obtain ⟨writes, again⟩ := @Store.replaceLinks_again T ⟨store, e, txn⟩ mode relation source
            (e.draft view) targets ids stored known binding entity registered carried nonzero linked
            able
          rw [Engine.held_draft found] at again
          have recounted : e.held txn.handle (some mode)
              { e.draft view with relationWrites := writes } =
                { e with relationWrites := writes } :=
            @Engine.held_draft { e with relationWrites := writes } txn.handle mode view found
          rw [recounted] at again
          refine ⟨writes, e.nextHandle, ?_⟩
          refine Ends.bind (Ends.ofStore (StoreM.ensureOpen_ends opened)) ?_
          refine Ends.bind (Ends.ofStore checked) (Ends.bind (Ends.ofStore identifies) ?_)
          refine Ends.bind Editing.current_ends again
  | none =>
      cases stands with
      | alone free =>
          obtain ⟨writes, again⟩ := @Store.replaceLinks_again T
            ⟨store, e.begun, ⟨e.nextHandle, .write⟩⟩ .write relation source (e.draft e.committed)
            targets ids stored known binding entity registered carried nonzero linked (.inl rfl)
          refine ⟨writes, e.nextHandle + 1, ?_⟩
          refine Ends.bind (Ends.ofStore (StoreM.ensureOpen_ends opened)) ?_
          refine Ends.bind (Ends.ofStore checked) (Ends.bind (Ends.ofStore identifies) ?_)
          refine Ends.bind Editing.current_ends ?_
          refine Store.runIn_leads opened (Engine.begin_drafted free) (again.leads ?_)
          exact ⟨_, Engine.commit_drafted exclusive free, rfl, rfl⟩

end Box

namespace Replacement

variable {T : Type} {binding : Binding T} {store : Store} {e : Engine} {txn : Option Handle}
  {relation : Relation} {source : ObjectId} {targets : List T}
  (x : Replacement binding store e txn relation source targets)

theorem able : x.mode = .write ∨ x.ids.Nodup := by
  refine x.relinks.able.imp Option.some.inj fun nothing => ?_
  have none : x.writes = 0 := nothing.2
  have count := x.relinks.count
  have fewer := x.ids.toFinset_card_le
  have whole : x.ids.toFinset.card = x.ids.length := by omega
  exact Multiset.toFinset_card_eq_card_iff_nodup.mp whole

end Replacement

/-- Nothing but what is counted is different: the link writes, and the transactions begun. -/
structure Session.Unmoved (s s' : Session) : Prop where
  engine : ∃ writes next, s'.host.machine.engine =
    { s.host.machine.engine with relationWrites := writes, nextHandle := next }
  store : s'.store = { s.store with pool := s'.store.pool }

/-- A replacement that succeeds leaves the source with links to exactly the targets, and doing it
    again leaves everything as it is. -/
theorem Session.relationReplace_links_exactly {S T : Type} {b : Box S} {binding : Binding T}
    {txn : Option Txn} {relation : Relation} {source : ObjectId} {object : S} {targets : List T}
    {after : Option (List T)} {entity : EntityDescriptor} {s s' : Session} (running : s.Running)
    (registered : s.store.model.bound? binding.name = some entity)
    (simple : entity.hasRelations = false) (identified : b.binding.id object = .ok source)
    (stored : source ≠ 0)
    (faithful : ∀ target ∈ targets, binding.id target = .ok 0 → binding.Faithful target)
    (done : (b.relationReplace binding txn relation source object).run (some targets) s =
      ((.ok (), after), s')) :
    ∃ now view view', after = some now ∧
      Box.LinksExactly ⟨entity, binding⟩ txn s s' relation.id source targets now view view' ∧
      ∃ s'', (b.relationReplace binding txn relation source object).run (some now) s' =
        ((.ok (), some now), s'') ∧ s'.Unmoved s'' := by
  obtain ⟨arrays, arises⟩ := running.engine
  have bound {found : EntityDescriptor} (known : s.store.registered binding.name = .ok found) :
      found = entity := by
    unfold Store.registered at known
    grind
  obtain ⟨opened, starts, x, rfl, shows⟩ := Session.replacement running.faults arises.exclusive
    identified stored (fun found known _ _ _ => bound known ▸ simple) done
  obtain rfl := bound x.registered
  have schema : s.host.machine.engine.SameSchema
      (s.host.machine.engine.redrafted x.mode x.draft (txn.map Txn.handle)) :=
    Engine.Stands.schema_redrafted
  have carried := x.relinks.saves.map_id fun target member unsaved =>
    (faithful target member unsaved).carries
  obtain ⟨writes, next, again⟩ := Box.relationReplace_again opened
    (x.stands.exclusive arises.exclusive) starts identified stored
    (schema.relations ▸ x.known) x.registered x.stands.redrafted carried x.relinks.saves.ne_zero
    (fun id => by rw [x.targets_iff, if_pos ⟨rfl, rfl⟩]) x.able
  obtain ⟨s'', ran, plain, kept⟩ := again.run_eq (s := s') ⟨rfl, shows⟩
  refine ⟨x.now, x.view, x.draft.view, rfl, x.linksExactly running shows opened simple faithful,
    s'', ran, ⟨writes, next, ?_⟩, ?_⟩
  · rw [plain.2, show s'.host.machine.engine = _ from shows.1.2]
  · rw [kept, show s'.store = _ from shows.2]

namespace Session

open Catalog

theorem tag_faithful {tag : Tag} (fits : (Cbor.utf8 tag.name).length < 2 ^ 64) :
    tagBinding.Faithful tag where
  carries _ _ given := by
    cases given
    rfl
  reads _ made := by
    obtain ⟨body, same, encoded⟩ := Record.encode_of_made made
    cases same
    obtain ⟨-, rfl⟩ := Record.encode_eq_ok.mp encoded
    have body_fits : tag.body.Fits :=
      ⟨by simp, (by decide : (Cbor.utf8 "name").length < 2 ^ 64), fits, trivial⟩
    exact ⟨_, Tag.decode_of_fits body_fits, rfl, rfl⟩

/-- A tag that is not stored, and one that carries an id, twice. -/
def mixedTags : List Tag :=
  [{ name := "a" }, ⟨5, "b"⟩, ⟨5, "b"⟩]

/-- The tags once a note is linked to them in a fresh store. -/
def linkedTags : List Tag :=
  [⟨1, "a"⟩, ⟨5, "b"⟩, ⟨5, "b"⟩]

theorem mixed_tags_link_exactly : ∃ s s' s'' view view', fresh true {} = .ok s ∧
    (noteBox.relationReplace tagBinding none noteTags 1 { id := 1 }).run (some mixedTags) s =
      ((.ok (), some linkedTags), s') ∧
    Box.LinksExactly tagBox none s s' noteTags.id 1 mixedTags linkedTags view view' ∧
    (noteBox.relationReplace tagBinding none noteTags 1 { id := 1 }).run (some linkedTags) s' =
      ((.ok (), some linkedTags), s'') ∧ s'.Unmoved s'' := by
  have eval : (fresh true {}).toOption.map (fun s =>
      let ended := (noteBox.relationReplace tagBinding none noteTags 1 { id := 1 }).run
        (some mixedTags) s
      (decide (s.store.model.bound? tagBinding.name = some tagBox.descriptor), ended.1.1.toOption,
        ended.1.2)) = some (true, some (), some linkedTags) := by
    decide +kernel
  obtain ⟨s, opened, seen⟩ := of_eval eval
  simp only [Prod.mk.injEq, decide_eq_true_eq] at seen
  obtain ⟨registered, answered, changed⟩ := seen
  have done : (noteBox.relationReplace tagBinding none noteTags 1 { id := 1 }).run
      (some mixedTags) s = ((.ok (), some linkedTags), _) :=
    Prod.ext (Prod.ext (ok_of_toOption answered) changed) rfl
  have faithful : ∀ tag ∈ mixedTags, tagBinding.id tag = .ok 0 → tagBinding.Faithful tag := by
    simp only [mixedTags, List.forall_mem_cons]
    exact ⟨fun _ => tag_faithful (by decide), fun _ => tag_faithful (by decide),
      fun _ => tag_faithful (by decide), by simp⟩
  obtain ⟨now, view, view', same, links, s'', again, unmoved⟩ := relationReplace_links_exactly
    (running_of_openOn opened) registered rfl rfl (by decide) faithful done
  obtain rfl := Option.some.inj same
  exact ⟨s, _, s'', view, view', opened, done, links, again, unmoved⟩

end Session

end ObjectStore
