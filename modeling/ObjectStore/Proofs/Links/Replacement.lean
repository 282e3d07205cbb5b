import ObjectStore.Proofs.Links.Linking
import ObjectStore.Proofs.Links.Standing
import ObjectStore.Proofs.Store.Reads

/-! # Replacing the links of a stored source

A replacement that succeeds leaves the source with links to the targets it was given and to no
others. Targets that were not stored are, each under a new id, and can be read; nothing else has
changed, and doing it again changes nothing at all. It makes no difference whether the replacement
is made through a transaction or is one of its own.
-/

namespace ObjectStore

/-! ## A replacement that succeeds -/

section Replacement

variable {T S : Type}

/-- What a replacement found and made, if it succeeded. -/
structure Replacement (binding : Binding T) (store : Store) (e : Engine) (txn : Option Handle)
    (relation : Relation) (source : ObjectId) (targets : List T) where
  mode : TxnMode
  /-- What the transaction saw before. -/
  view : Snapshot
  /-- Where the transaction is now. -/
  draft : Draft
  entity : EntityDescriptor
  /-- The targets, and their ids. -/
  now : List T
  ids : List ObjectId
  /-- What was stored of them. -/
  entries : List (ObjectId × Bytes)
  last : ObjectId
  writes : Nat
  registered : store.registered binding.name = .ok entity
  known : e.relations.contains relation.id = true
  stands : e.Stands txn mode view
  relinks : binding.Relinks e (some mode) entity.id relation.id source
    (view.targets relation.id source).toList (e.draft view) targets now ids entries last writes
    draft

variable {b : Box S} {binding : Binding T} {txn : Option Txn} {relation : Relation}
  {source : ObjectId} {object : S} {targets : List T} {store : Store} {e : Engine}

theorem Box.checkSource_ends (starts : relation.source = b.entity) {v : Store × Engine} :
    Ends (b.checkSource relation) v (.ok ()) v := by
  rw [checkSource, if_neg (not_not_intro starts)]
  exact Ends.pure

theorem Store.replaceLinks_leads (exclusive : e.Exclusive) (stored : source ≠ 0)
    (simple : ∀ entity, store.registered binding.name = .ok entity → ∀ target ∈ targets,
      binding.id target = .ok 0 → entity.hasRelations = false) :
    Leads (match txn with
      | some txn => replaceLinks binding txn relation source source
      | none => runIn .write fun txn => replaceLinks binding txn relation source source)
      (some targets, store, e) fun r w => ∀ u, r = .ok u →
        ∃ x : Replacement binding store e (txn.map Txn.handle) relation source targets,
          w = (some x.now, store, e.redrafted x.mode x.draft (txn.map Txn.handle)) := by
  have replaces : ∀ base txn how d, e.SameSchema base →
      Editing.Ensures ⟨store, base, txn⟩ how (replaceLinks binding txn relation source source)
        (some targets, d) fun _ w => ∃ mode, how = some mode ∧ ∃ entity now ids entries last writes,
          store.registered binding.name = .ok entity ∧ e.relations.contains relation.id = true ∧
          w.1 = some now ∧ binding.Relinks e (some mode) entity.id relation.id source
            (d.view.targets relation.id source).toList d targets now ids entries last writes
            w.2 := by
    intro base txn how d schema
    refine (replaceLinks_ensures (fun _ => rfl) simple).mono ?_
    rintro _ w ⟨entity, now, ids, entries, last, writes, registered, opened, changed, relinks⟩
    obtain ⟨opened, known⟩ := opened stored
    obtain ⟨mode, rfl⟩ := Option.ne_none_iff_exists'.mp opened
    rw [if_neg stored] at relinks
    have defined : entries ≠ [] → e.entities.contains entity.id = true := by
      rw [← schema.entities]
      exact relinks.defined
    rw [schema.relations] at known
    exact ⟨mode, rfl, entity, now, ids, entries, last, writes, registered, known, changed,
      { relinks with defined }⟩
  refine Leads.mono (given_or_own exclusive replaces) fun r w ended u succeeded => ?_
  obtain ⟨mode, view, _, d, stands, rfl, entity, now, ids, entries, last, writes, registered, known,
    rfl, relinks⟩ := ended u succeeded
  exact ⟨⟨mode, view, d, entity, now, ids, entries, last, writes, registered, known, stands,
    relinks⟩, rfl⟩

theorem Box.relationReplace_leads (exclusive : e.Exclusive)
    (carried : b.binding.id object = .ok source) (stored : source ≠ 0)
    (simple : ∀ entity, store.registered binding.name = .ok entity → ∀ target ∈ targets,
      binding.id target = .ok 0 → entity.hasRelations = false) :
    Leads (b.relationReplace binding txn relation source object) (some targets, store, e)
      fun r w => ∀ u, r = .ok u → store.closed = false ∧ relation.source = b.entity ∧
        ∃ x : Replacement binding store e (txn.map Txn.handle) relation source targets,
          w = (some x.now, store, e.redrafted x.mode x.draft (txn.map Txn.handle)) := by
  cases closed : store.closed with
  | true =>
      refine Ends.bind_error (Ends.ofStore (StoreM.ensureOpen_closed closed)) ?_
      rintro _ ⟨⟩
  | false =>
      refine Ends.bind (Ends.ofStore (StoreM.ensureOpen_ends closed)) ?_
      by_cases starts : relation.source = b.entity
      · have identified : Ends (b.idOf object) (store, e) (.ok source) (store, e) :=
          carried ▸ idOf_reads
        refine Ends.bind (Ends.ofStore (checkSource_ends starts)) ?_
        refine Ends.bind (Ends.ofStore identified) (Ends.bind Editing.current_ends ?_)
        have replaced := @Store.replaceLinks_leads T binding txn relation source targets store e
          exclusive stored simple
        cases txn with
        | some txn => exact replaced.mono fun _ _ left u ended => ⟨rfl, starts, left u ended⟩
        | none => exact replaced.mono fun _ _ left u ended => ⟨rfl, starts, left u ended⟩
      · have checked : Ends (b.checkSource relation) (store, e)
            (.error (.misuse (.foreignSource relation.id relation.source b.name))) (store, e) := by
          rw [checkSource, if_pos starts]
          exact StoreM.misuse_ends
        refine Ends.bind_error (Ends.ofStore checked) ?_
        rintro _ ⟨⟩

theorem Session.replacement {s s' : Session} {after : Option (List T)}
    (plain : s.host.faults = []) (exclusive : s.host.machine.engine.Exclusive)
    (carried : b.binding.id object = .ok source) (stored : source ≠ 0)
    (simple : ∀ entity, s.store.registered binding.name = .ok entity → ∀ target ∈ targets,
      binding.id target = .ok 0 → entity.hasRelations = false)
    (done : (b.relationReplace binding txn relation source object).run (some targets) s =
      ((.ok (), after), s')) :
    s.store.closed = false ∧ relation.source = b.entity ∧
      ∃ x : Replacement binding s.store s.host.machine.engine (txn.map Txn.handle) relation source
          targets,
        after = some x.now ∧ Viewed.Shows s' (s.store,
          s.host.machine.engine.redrafted x.mode x.draft (txn.map Txn.handle)) := by
  have leads : Leads (b.relationReplace binding txn relation source object) _ _ :=
    Box.relationReplace_leads exclusive carried stored simple
  obtain ⟨w, shows, ended⟩ := leads.of_run ⟨rfl, ⟨plain, rfl⟩, rfl⟩ done
  obtain ⟨opened, starts, x, rfl⟩ := ended () rfl
  exact ⟨opened, starts, x, shows⟩

end Replacement

end ObjectStore
