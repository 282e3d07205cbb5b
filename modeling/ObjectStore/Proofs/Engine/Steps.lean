import ObjectStore.Proofs.Engine.Calls
import ObjectStore.Proofs.Engine.Sequences
import ObjectStore.Proofs.Snapshot

/-! # What a call can do

`Engine.Moved` lists everything a served call can do to an engine. A write is known by the call it
would be without its transaction, so that a write of a transaction and the same write made alone
can be compared. `Engine.moved_of_perform` is the one place where the calls are gone through;
invariants are proved by the few cases of `Moved`.
-/

namespace ObjectStore

/-- Whether a call defines an entity type or a relation. -/
def Call.defines : Call → Bool
  | defineEntity .. | defineRelation .. => true
  | _ => false

/-- A served call and its answer. -/
structure Served where
  call : Call
  answer : call.Answer

namespace Served

/-- The part a call plays in the order of writes. -/
inductive Part where
  | none
  | begins (txn : Handle)
  | commits (txn : Handle)
  | aborts (txn : Handle)
  /-- It writes, and would be the call `write` without a transaction. -/
  | writes (txn : Option Handle) (write : Served)

/-- The part a served call plays. -/
def part : Served → Part
  | ⟨.begin _, txn⟩ => .begins txn
  | ⟨.commit txn, _⟩ => .commits txn
  | ⟨.abort txn, _⟩ => .aborts txn
  | ⟨.put txn entity id record mode, answer⟩ =>
    .writes txn ⟨.put none entity id record mode, answer⟩
  | ⟨.putMany txn entity ids records mode, answer⟩ =>
    .writes txn ⟨.putMany none entity ids records mode, answer⟩
  | ⟨.remove txn entity id, answer⟩ => .writes txn ⟨.remove none entity id, answer⟩
  | ⟨.removeMany txn entity ids, answer⟩ => .writes txn ⟨.removeMany none entity ids, answer⟩
  | ⟨.removeAll txn entity, answer⟩ => .writes txn ⟨.removeAll none entity, answer⟩
  | ⟨.relPut txn relation source target, answer⟩ =>
    .writes txn ⟨.relPut none relation source target, answer⟩
  | ⟨.relRemove txn relation source target, answer⟩ =>
    .writes txn ⟨.relRemove none relation source target, answer⟩
  | _ => .none

end Served

namespace Engine

variable {e e' e₁ : Engine} {thread : ThreadId}

/-- The engine with other counters: id sequences and the number of link writes. -/
def recount (e : Engine) (sequences : Std.ExtTreeMap EntityId ObjectId) (relationWrites : Nat) :
    Engine :=
  { e with sequences, relationWrites }

/-- Two engines know the same entity types and relations. -/
structure SameSchema (e e' : Engine) : Prop where
  arrays : e'.arrays = e.arrays
  entities : e'.entities = e.entities
  relations : e'.relations = e.relations

/-- A call made alone turns the committed snapshot `s` into `s'`, on every engine of this schema
    whose writer slot is free. -/
def Turns (e : Engine) (write : Served) (s s' : Snapshot) : Prop :=
  ∀ (d d' : Engine) (thread : ThreadId), e.SameSchema d → d.Wrote none s s' d' →
    ∃ sequences writes, d.perform thread write.call =
      .ok (write.answer, d'.recount sequences writes)

/-- What is stored in `s'` and was not in `s` has a nonzero id no larger than the sequence. -/
def Covers (e : Engine) (s s' : Snapshot) : Prop :=
  ∀ entity id, s'.contains entity id = true →
    s.contains entity id = true ∨ id ≠ 0 ∧ id ≤ e.lastId entity

/-- What a served call did to an engine. -/
inductive Moved (e : Engine) (thread : ThreadId) : Served → Engine → Prop where
  | defined {served : Served} {e' : Engine} : served.call.defines = true →
      e.Moved thread served e'
  | read {served : Served} : served.part = .none → e.Moved thread served e
  /-- A sequence went on. -/
  | numbered {served : Served} {entity : EntityId} {id : ObjectId} : served.part = .none →
      e.lastId entity ≤ id → e.Moved thread served (e.setLastId entity id)
  | began {served : Served} {mode : TxnMode} : served.part = .begins e.nextHandle →
      (mode = .write → e.writer = none) →
      e.Moved thread served { e with
        txns := e.txns.insert e.nextHandle ⟨mode, e.committed⟩
        nextHandle := e.nextHandle + 1
        writer := if mode = .write then some thread else e.writer }
  | committed {served : Served} {txn : Handle} {s : Snapshot} : served.part = .commits txn →
      e.txns[txn]? = some ⟨.write, s⟩ →
      e.Moved thread served { e with txns := e.txns.erase txn, committed := s, writer := none }
  | aborted {served : Served} {txn : Handle} {s : Snapshot} : served.part = .aborts txn →
      e.txns[txn]? = some ⟨.write, s⟩ →
      e.Moved thread served { e with txns := e.txns.erase txn, writer := none }
  /-- A read transaction ended. -/
  | closed {served : Served} {txn : Handle} {s : Snapshot} :
      served.part = .commits txn ∨ served.part = .aborts txn → e.txns[txn]? = some ⟨.read, s⟩ →
      e.Moved thread served { e with txns := e.txns.erase txn }
  | wrote {served write : Served} {txn : Option Handle} {s s' : Snapshot} {e₁ : Engine}
      {sequences : Std.ExtTreeMap EntityId ObjectId} {writes : Nat} :
      served.part = .writes txn write → e.Wrote txn s s' e₁ → e.Turns write s s' →
      (e₁.recount sequences writes).Covers s s' →
      (∀ entity, e.lastId entity ≤ (e₁.recount sequences writes).lastId entity) →
      e.Moved thread served (e₁.recount sequences writes)

/-! ## Going through the calls -/

theorem changing_eq_ok {x : Except Halt Engine} {u : Unit} :
    changing x = .ok (u, e') ↔ x = .ok e' := by
  cases x <;> simp [changing, Except.map]

theorem reading_eq_ok {α : Type} {x : Except Halt α} {a : α} :
    e.reading x = .ok (a, e') ↔ x = .ok a ∧ e' = e := by
  cases x <;> simp [reading, Except.map, eq_comm]

theorem observe_eq_recount {entity : EntityId} {ids : List ObjectId} :
    e.observe entity ids = e.recount (e.observe entity ids).sequences e.relationWrites := rfl

variable {txn : Option Handle} {s s' : Snapshot}

theorem Wrote.lastId_eq (wrote : e.Wrote txn s s' e₁) {entity : EntityId} :
    e₁.lastId entity = e.lastId entity := by
  cases wrote <;> rfl

/-- A write that observes the ids it stores. -/
theorem moved_of_stored {served write : Served} {entity : EntityId} {ids : List ObjectId}
    (plays : served.part = .writes txn write) (wrote : e.Wrote txn s s' e₁)
    (turns : e.Turns write s s') (nonzero : ∀ id ∈ ids, id ≠ 0)
    (stored : ∀ entity' id, s'.contains entity' id = true →
      entity = entity' ∧ id ∈ ids ∨ s.contains entity' id = true) :
    e.Moved thread served (e₁.observe entity ids) := by
  rw [observe_eq_recount]
  refine .wrote plays wrote turns ?_ ?_
  · intro entity' id held
    cases stored entity' id held with
    | inl given =>
        obtain ⟨rfl, member⟩ := given
        exact .inr ⟨nonzero id member, mem_le_lastId_observe member⟩
    | inr old => exact .inl old
  · intro entity'
    rw [← wrote.lastId_eq]
    exact lastId_le_observe

/-- A write that stores nothing new and moves no sequence. -/
theorem moved_of_kept {served write : Served} {writes : Nat}
    (plays : served.part = .writes txn write) (wrote : e.Wrote txn s s' e₁)
    (turns : e.Turns write s s')
    (kept : ∀ entity id, s'.contains entity id = true → s.contains entity id = true) :
    e.Moved thread served (e₁.recount e₁.sequences writes) := by
  refine .wrote plays wrote turns ?_ ?_
  · exact fun entity id held => .inl (kept entity id held)
  · intro entity
    exact Std.le_of_eq wrote.lastId_eq.symm

theorem moved_of_put {entity : EntityId} {id : ObjectId} {record : Bytes} {mode : PutMode}
    (done : e.put thread txn entity id record mode = .ok e') :
    e.Moved thread ⟨.put txn entity id record mode, ()⟩ e' := by
  obtain ⟨known, s, e₁, wrote, checked, rfl⟩ := put_eq_ok.mp done
  refine moved_of_stored rfl wrote ?_ (by simpa using (Snapshot.checkPut_eq_ok.mp checked).1) ?_
  · intro d d' thread schema alone
    have made : d.put thread none entity id record mode = .ok (d'.observe entity [id]) :=
      put_eq_ok.mpr ⟨schema.entities ▸ known, s, d', alone, checked, rfl⟩
    exact ⟨_, _, changing_eq_ok.mpr made⟩
  · intro entity' id' held
    rcases Snapshot.contains_insert.mp held with ⟨rfl, rfl⟩ | old
    · exact .inl ⟨rfl, List.mem_singleton_self _⟩
    · exact .inr old

theorem moved_of_putMany {entity : EntityId} {ids : List ObjectId} {records : List Bytes}
    {mode : PutMode} (done : e.putMany thread txn entity ids records mode = .ok e') :
    e.Moved thread ⟨.putMany txn entity ids records mode, ()⟩ e' := by
  obtain ⟨arrays, known, even, s, e₁, wrote, checked, rfl⟩ := putMany_eq_ok.mp done
  refine moved_of_stored rfl wrote ?_ (Snapshot.ne_zero_of_checkPutMany checked) ?_
  · intro d d' thread schema alone
    have made : d.putMany thread none entity ids records mode = .ok (d'.observe entity ids) :=
      putMany_eq_ok.mpr
        ⟨schema.arrays ▸ arrays, schema.entities ▸ known, even, s, d', alone, checked, rfl⟩
    exact ⟨_, _, changing_eq_ok.mpr made⟩
  · intro entity' id held
    have zipped : (ids.zip records).map Prod.fst = ids := List.map_fst_zip (Nat.le_of_eq even)
    rw [← zipped]
    exact Snapshot.contains_insertMany.mp held

theorem outgoing_eq {d : Engine} (schema : e.SameSchema d) {entity : EntityId} :
    d.outgoing entity = e.outgoing entity := by
  simp only [outgoing, schema.relations]

theorem incoming_eq {d : Engine} (schema : e.SameSchema d) {entity : EntityId} :
    d.incoming entity = e.incoming entity := by
  simp only [incoming, schema.relations]

theorem moved_of_remove {entity : EntityId} {id : ObjectId}
    (done : e.remove thread txn entity id = .ok e') :
    e.Moved thread ⟨.remove txn entity id, ()⟩ e' := by
  obtain ⟨known, s, stored, wrote⟩ := remove_eq_ok.mp done
  refine moved_of_kept rfl wrote ?_ ?_
  · intro d d' thread schema alone
    have made : d.remove thread none entity id = .ok d' := by
      refine remove_eq_ok.mpr ⟨schema.entities ▸ known, s, stored, ?_⟩
      rwa [outgoing_eq schema, incoming_eq schema]
    exact ⟨_, _, changing_eq_ok.mpr made⟩
  · intro entity' id' held
    rw [Snapshot.contains, Snapshot.table_eq_of_records Snapshot.unlinkObject_records] at held
    exact (Snapshot.contains_eraseMany.mp held).1

theorem moved_of_removeMany {entity : EntityId} {ids : List ObjectId} {count : Nat}
    (done : e.removeMany thread txn entity ids = .ok (count, e')) :
    e.Moved thread ⟨.removeMany txn entity ids, count⟩ e' := by
  obtain ⟨known, s, wrote, rfl⟩ := removeMany_eq_ok.mp done
  refine moved_of_kept rfl wrote ?_ ?_
  · intro d d' thread schema alone
    have made : d.removeMany thread none entity ids =
        .ok ((s.removeMany entity (e.outgoing entity) (e.incoming entity) ids).1, d') := by
      refine removeMany_eq_ok.mpr ⟨schema.entities ▸ known, s, ?_⟩
      rw [outgoing_eq schema, incoming_eq schema]
      exact ⟨alone, rfl⟩
    exact ⟨_, _, made⟩
  · intro entity' id' held
    rw [Snapshot.contains, Snapshot.removeMany,
      Snapshot.table_eq_of_records Snapshot.unlinkObjects_records] at held
    exact (Snapshot.contains_eraseMany.mp held).1

theorem moved_of_removeAll {entity : EntityId} {count : Nat}
    (done : e.removeAll thread txn entity = .ok (count, e')) :
    e.Moved thread ⟨.removeAll txn entity, count⟩ e' := by
  obtain ⟨known, s, wrote, rfl⟩ := removeAll_eq_ok.mp done
  refine moved_of_kept rfl wrote ?_ ?_
  · intro d d' thread schema alone
    have made : d.removeAll thread none entity = .ok ((s.ids entity).length, d') := by
      refine removeAll_eq_ok.mpr ⟨schema.entities ▸ known, s, ?_, rfl⟩
      rwa [outgoing_eq schema, incoming_eq schema]
    exact ⟨_, _, made⟩
  · intro entity' id' held
    rw [Snapshot.contains, Snapshot.table_eq_of_records Snapshot.unlinkObjects_records] at held
    simp only [Snapshot.setTable_table] at held
    split at held
    · simp at held
    · exact held

theorem moved_of_relPut {relation : RelationId} {source target : ObjectId}
    (done : e.relPut thread txn relation source target = .ok e') :
    e.Moved thread ⟨.relPut txn relation source target, ()⟩ e' := by
  obtain ⟨known, nonzero, s, e₁, wrote, rfl⟩ := relPut_eq_ok.mp done
  refine moved_of_kept rfl wrote ?_ ?_
  · intro d d' thread schema alone
    have made : d.relPut thread none relation source target = .ok d'.countLinkWrite :=
      relPut_eq_ok.mpr ⟨schema.relations ▸ known, nonzero, s, d', alone, rfl⟩
    exact ⟨_, _, changing_eq_ok.mpr made⟩
  · intro entity id held
    rwa [Snapshot.contains, Snapshot.table_eq_of_records Snapshot.link_records] at held

theorem moved_of_relRemove {relation : RelationId} {source target : ObjectId}
    (done : e.relRemove thread txn relation source target = .ok e') :
    e.Moved thread ⟨.relRemove txn relation source target, ()⟩ e' := by
  obtain ⟨known, s, e₁, wrote, rfl⟩ := relRemove_eq_ok.mp done
  refine moved_of_kept rfl wrote ?_ ?_
  · intro d d' thread schema alone
    have made : d.relRemove thread none relation source target = .ok d'.countLinkWrite :=
      relRemove_eq_ok.mpr ⟨schema.relations ▸ known, s, d', alone, rfl⟩
    exact ⟨_, _, changing_eq_ok.mpr made⟩
  · intro entity id held
    rwa [Snapshot.contains, Snapshot.table_eq_of_records Snapshot.unlink_records] at held

theorem moved_of_idForPut {entity : EntityId} {candidate id : ObjectId}
    (done : e.idForPut txn entity candidate = .ok (id, e')) :
    e.Moved thread ⟨.idForPut txn entity candidate, id⟩ e' := by
  obtain ⟨known, writable, granted⟩ := idForPut_eq_ok.mp done
  split at granted
  · obtain ⟨room, rfl, rfl⟩ := granted
    refine .numbered rfl ?_
    have bound := (e.lastId entity).toNat_lt
    rw [UInt64.le_iff_toNat_le, UInt64.toNat_add]
    simp only [maxId] at room
    simp only [UInt64.reduceToNat]
    omega
  · obtain ⟨rfl, rfl⟩ := granted
    exact .numbered rfl le_foldl_max

theorem moved_of_idsForPut {entity : EntityId} {count : Nat} {id : ObjectId}
    (done : e.idsForPut txn entity count = .ok (id, e')) :
    e.Moved thread ⟨.idsForPut txn entity count, id⟩ e' := by
  obtain ⟨size, known, writable, room, rfl, rfl⟩ := idsForPut_eq_ok.mp done
  refine .numbered rfl ?_
  simp only [maxId] at room
  rw [UInt64.le_iff_toNat_le, UInt64.toNat_ofNat']
  omega

/-- Every served call moves the engine in one of the ways of `Moved`. -/
theorem moved_of_perform {served : Served}
    (done : e.perform thread served.call = .ok (served.answer, e')) :
    e.Moved thread served e' := by
  obtain ⟨call, answer⟩ := served
  cases call with
  | defineEntity entity name => exact .defined rfl
  | defineRelation relation source target => exact .defined rfl
  | begin mode =>
      obtain ⟨free, rfl, rfl⟩ := begin_eq_ok.mp done
      exact .began rfl free
  | commit txn =>
      obtain ⟨⟨mode, s⟩, found, rfl⟩ := commit_eq_ok.mp (changing_eq_ok.mp done)
      cases mode with
      | read => exact .closed (.inl rfl) found
      | write => exact .committed rfl found
  | abort txn =>
      obtain ⟨⟨mode, s⟩, found, rfl⟩ := abort_eq_ok.mp (changing_eq_ok.mp done)
      cases mode with
      | read => exact .closed (.inr rfl) found
      | write => exact .aborted rfl found
  | idForPut txn entity candidate => exact moved_of_idForPut done
  | idsForPut txn entity count => exact moved_of_idsForPut done
  | put txn entity id record mode => exact moved_of_put (changing_eq_ok.mp done)
  | putMany txn entity ids records mode => exact moved_of_putMany (changing_eq_ok.mp done)
  | remove txn entity id => exact moved_of_remove (changing_eq_ok.mp done)
  | removeMany txn entity ids => exact moved_of_removeMany done
  | removeAll txn entity => exact moved_of_removeAll done
  | relPut txn relation source target => exact moved_of_relPut (changing_eq_ok.mp done)
  | relRemove txn relation source target => exact moved_of_relRemove (changing_eq_ok.mp done)
  | get | getMany | getAll | visitMany | visitAll | count | isEmpty | contains | containsMany
  | relGetIds =>
      obtain ⟨-, rfl⟩ := reading_eq_ok.mp done
      exact .read rfl

/-- A definition changes what is defined, and nothing else. -/
theorem eq_of_defines {served : Served} (defines : served.call.defines = true)
    (done : e.perform thread served.call = .ok (served.answer, e')) :
    ∃ entities relations, e' = { e with entities, relations } := by
  obtain ⟨call, answer⟩ := served
  cases call with
  | defineEntity entity name =>
      cases done
      exact ⟨_, _, rfl⟩
  | defineRelation relation source target =>
      have defined := changing_eq_ok.mp done
      simp only [defineRelation, unit_bind_eq_ok] at defined
      obtain ⟨-, -, made⟩ := defined
      cases made
      exact ⟨_, _, rfl⟩
  | _ => simp [Call.defines] at defines

end Engine

end ObjectStore
