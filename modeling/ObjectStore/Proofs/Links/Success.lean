import ObjectStore.Proofs.Engine.FailedCalls
import ObjectStore.Proofs.Store.Retuned

/-! # What a success in a transaction says

A program that succeeds in a transaction tells how the transaction stands. Where it made a write,
the transaction is open to write; where it was answered at all, it is open. So a program can be
followed through any handle, whatever is open under it, by what its served calls do on a draft.

`Editing.Ensures u how p w Q` says that if `p` succeeds from the objects and the draft `w`, it ends
with an answer, objects and a draft that satisfy `Q`. Nothing is said of a program that fails.
-/

namespace ObjectStore

namespace Engine

/-- The engine with a draft under a handle: that of an open transaction, or no transaction at all,
of whose draft only the sequences and the count of link writes are seen. -/
def held (base : Engine) (handle : Handle) (how : Option TxnMode) (d : Draft) : Engine :=
  { base with
    txns := match how with
      | some mode => base.txns.insert handle ⟨mode, d.view⟩
      | none => base.txns.erase handle
    sequences := d.sequences
    relationWrites := d.relationWrites }

variable {e e' : Engine} {thread : ThreadId} {handle : Handle} {how : Option TxnMode} {d : Draft}

theorem held_draft {mode : TxnMode} {view : Snapshot}
    (found : e.txns[handle]? = some ⟨mode, view⟩) :
    e.held handle (some mode) (e.draft view) = e := by
  have same : e.txns.insert handle ⟨mode, view⟩ = e.txns := by
    ext txn : 1
    grind
  simp only [held, draft, same]

/-- Every engine is one with a draft under a handle, whatever handle that is. -/
theorem exists_held (e : Engine) (handle : Handle) : ∃ how view,
    e.held handle how (e.draft view) = e ∧
      ∀ mode, how = some mode → e.txns[handle]? = some ⟨mode, view⟩ := by
  cases found : e.txns[handle]? with
  | some t =>
      refine ⟨some t.mode, t.state, held_draft found, ?_⟩
      rintro _ ⟨⟩
      rfl
  | none =>
      refine ⟨none, {}, ?_, by simp⟩
      have same : e.txns.erase handle = e.txns := by
        ext txn : 1
        grind
      simp only [held, draft, same]

theorem txns_held : (e.held handle how d).txns[handle]? = how.map (⟨·, d.view⟩) := by
  cases how <;> simp [held]

theorem view_held {mode : TxnMode} :
    (e.held handle (some mode) d).view (some handle) = .ok d.view :=
  view_eq_ok.mpr ⟨mode, txns_held⟩

theorem writable_of_served {call : Call} {answer : call.Answer}
    (through : call.through = some handle) (writes : call.looks = false)
    (done : e.perform thread call = .ok (answer, e')) :
    ∃ s, e.txns[handle]? = some ⟨.write, s⟩ := by
  have open_of_wrote {s s' : Snapshot} {e₁ : Engine} (wrote : e.Wrote (some handle) s s' e₁) :
      ∃ s, e.txns[handle]? = some ⟨.write, s⟩ := by
    cases wrote with
    | inTxn found => exact ⟨s, found⟩
  cases call with
  | idForPut =>
      cases through
      obtain ⟨-, able, -⟩ := idForPut_eq_ok.mp done
      exact requireWritable_eq_ok.mp able handle rfl
  | idsForPut =>
      cases through
      obtain ⟨-, -, able, -⟩ := idsForPut_eq_ok.mp done
      exact requireWritable_eq_ok.mp able handle rfl
  | put =>
      cases through
      obtain ⟨-, s, e₁, wrote, -⟩ := put_eq_ok.mp (changing_eq_ok.mp done)
      exact open_of_wrote wrote
  | putMany =>
      cases through
      obtain ⟨-, -, -, s, e₁, wrote, -⟩ := putMany_eq_ok.mp (changing_eq_ok.mp done)
      exact open_of_wrote wrote
  | remove =>
      cases through
      obtain ⟨-, s, -, wrote⟩ := remove_eq_ok.mp (changing_eq_ok.mp done)
      exact open_of_wrote wrote
  | removeMany =>
      cases through
      obtain ⟨-, s, wrote, -⟩ := removeMany_eq_ok.mp done
      exact open_of_wrote wrote
  | removeAll =>
      cases through
      obtain ⟨-, s, wrote, -⟩ := removeAll_eq_ok.mp done
      exact open_of_wrote wrote
  | relPut =>
      cases through
      obtain ⟨-, -, s, e₁, wrote, -⟩ := relPut_eq_ok.mp (changing_eq_ok.mp done)
      exact open_of_wrote wrote
  | relRemove =>
      cases through
      obtain ⟨-, s, e₁, wrote, -⟩ := relRemove_eq_ok.mp (changing_eq_ok.mp done)
      exact open_of_wrote wrote
  | defineEntity | defineRelation | begin | commit | abort => cases through
  | _ => cases writes

/-- A write that is served does on the draft what it does through a write transaction. -/
theorem held_write {call : Call} {answer : call.Answer}
    {op : Draft → Except Refusal (call.Answer × Draft)} (serves : Draft.Serves e handle call op)
    (through : call.through = some handle) (writes : call.looks = false)
    (done : (e.held handle how d).perform thread call = .ok (answer, e')) :
    how = some .write ∧ ∃ d', op d = .ok (answer, d') ∧ e' = e.held handle how d' := by
  obtain ⟨s, found⟩ := writable_of_served through writes done
  obtain rfl : how = some .write := by
    rw [txns_held] at found
    cases how <;> simp_all
  have performed := (serves.perform thread d).symm.trans done
  refine ⟨rfl, ?_⟩
  cases made : op d <;> rw [made] at performed <;> cases performed
  exact ⟨_, rfl, rfl⟩

theorem held_relGetIds {relation : RelationId} {source : ObjectId} {ids : List ObjectId}
    (done : (e.held handle how d).perform thread (.relGetIds (some handle) relation source) =
      .ok (ids, e')) :
    how ≠ none ∧ e.relations.contains relation = true ∧
      ids = (d.view.targets relation source).toList ∧ e' = e.held handle how d := by
  simp only [perform, reading_eq_ok, relGetIds, bind_eq_ok, endpoints_eq_ok] at done
  obtain ⟨⟨ends, known, s, seen, same⟩, rfl⟩ := done
  obtain ⟨mode, found⟩ := view_eq_ok.mp seen
  rw [txns_held] at found
  have defined : e.relations.contains relation = true := by
    rw [Std.ExtTreeMap.contains_eq_isSome_getElem?, show e.relations[relation]? = _ from known]
    rfl
  cases how with
  | none => cases found
  | some mode =>
      cases found
      cases same
      exact ⟨Option.some_ne_none mode, defined, rfl, rfl⟩

end Engine

theorem Draft.view_of_idForPut {base : Engine} {entity : EntityId} {candidate id : ObjectId}
    {d d' : Draft} (drawn : idForPut base entity candidate d = .ok (id, d')) :
    d'.view = d.view ∧ (candidate ≠ 0 → id = candidate) := by
  unfold idForPut known at drawn
  split at drawn
  case isFalse => cases drawn
  case isTrue =>
    split at drawn
    case isTrue zero =>
      split at drawn <;> cases drawn
      exact ⟨rfl, fun nonzero => absurd zero nonzero⟩
    case isFalse =>
      cases drawn
      exact ⟨rfl, fun _ => rfl⟩

theorem Draft.view_of_idsForPut {base : Engine} {entity : EntityId} {count : Nat} {first : ObjectId}
    {d d' : Draft} (drawn : idsForPut base entity count d = .ok (first, d')) :
    d'.view = d.view := by
  unfold idsForPut known at drawn
  split at drawn
  case isTrue => cases drawn
  case isFalse =>
    split at drawn
    case isFalse => cases drawn
    case isTrue =>
      split at drawn <;> cases drawn
      rfl

/-! ## Programs that succeed -/

namespace Editing

variable {σ τ α β : Type} {u : Setting} {how : Option TxnMode}

/-- If the program succeeds, it ends with an answer, objects and a draft that satisfy `Q`. -/
def Ensures (u : Setting) (how : Option TxnMode) (p : Editing σ α) (w : σ × Draft)
    (Q : α → σ × Draft → Prop) : Prop :=
  Leads p (w.1, u.store, u.base.held u.txn.handle how w.2) fun r v => ∀ a, r = .ok a →
    ∃ w', v = (w'.1, u.store, u.base.held u.txn.handle how w'.2) ∧ Q a w'

namespace Ensures

variable {p : Editing σ α} {f : α → Editing σ β} {w : σ × Draft} {Q : α → σ × Draft → Prop}

theorem mono {Q' : α → σ × Draft → Prop} (h : Ensures u how p w Q)
    (weaker : ∀ a w', Q a w' → Q' a w') : Ensures u how p w Q' := by
  refine Leads.mono h fun r v holds a succeeded => ?_
  obtain ⟨w', same, holds⟩ := holds a succeeded
  exact ⟨w', same, weaker a w' holds⟩

theorem pure {a : α} (h : Q a w) : Ensures u how (Pure.pure a) w Q := by
  refine Leads.pure ?_
  rintro _ ⟨⟩
  exact ⟨w, rfl, h⟩

theorem throw {why : StoreError} : Ensures u how (MonadExcept.throw why : Editing σ α) w Q := by
  refine Leads.throw ?_
  rintro _ ⟨⟩

theorem bind {Q : β → σ × Draft → Prop}
    (h : Ensures u how p w fun a w' => Ensures u how (f a) w' Q) : Ensures u how (p >>= f) w Q := by
  refine Leads.onward h (fun a v holds => ?_) ?_
  · obtain ⟨w', rfl, next⟩ := holds a rfl
    exact next
  · rintro why v - _ ⟨⟩

theorem ite {c : Prop} [Decidable c] {p' : Editing σ α} (yes : c → Ensures u how p w Q)
    (no : ¬ c → Ensures u how p' w Q) : Ensures u how (if c then p else p') w Q := by
  split
  · exact yes ‹_›
  · exact no ‹_›

theorem reading {program : StoreM α} {r : Except StoreError α}
    (ends : ∀ v, Ends program v r v) (h : ∀ a, r = .ok a → Q a w) :
    Ensures u how (ofStore program) w Q := by
  refine Ends.leads (Ends.ofStore (ends _)) fun a succeeded => ?_
  exact ⟨w, rfl, h a succeeded⟩

theorem store {next : Store → Editing σ α}
    (each : ∀ pool, Ensures u how (next { u.store with pool }) w Q) :
    Ensures u how (ofStore StoreM.store >>= next) w Q :=
  Leads.bind (Leads.ofStore (StoreM.store_leads fun pool => each pool))

theorem current {Q : σ → σ × Draft → Prop} (h : Q w.1 w) : Ensures u how current w Q := by
  refine current_ends.leads ?_
  rintro _ ⟨⟩
  exact ⟨w, rfl, h⟩

theorem replace {objects : σ} {Q : Unit → σ × Draft → Prop} (h : Q () (objects, w.2)) :
    Ensures u how (replace objects) w Q := by
  refine replace_ends.leads ?_
  rintro _ ⟨⟩
  exact ⟨_, rfl, h⟩

theorem focus {part : σ → τ} {fill : σ → τ → σ} {program : Editing τ α}
    (h : Ensures u how program (part w.1, w.2) fun a w' => Q a (fill w.1 w'.1, w'.2)) :
    Ensures u how (focus part fill program) w Q := by
  refine focus_leads (Leads.mono h fun r v ended a succeeded => ?_)
  obtain ⟨w', rfl, holds⟩ := ended a succeeded
  exact ⟨(fill w.1 w'.1, w'.2), rfl, holds⟩

/-! ### Calls -/

theorem write {operation : String} {call : Call} {Q : call.Answer → σ × Draft → Prop}
    {op : Draft → Except Refusal (call.Answer × Draft)}
    (serves : Draft.Serves u.base u.txn.handle call op)
    (through : call.through = some u.txn.handle) (writes : call.looks = false)
    (h : ∀ a d, how = some .write → op w.2 = .ok (a, d) → Q a (w.1, d)) :
    Ensures u how (ofStore (StoreM.ofHost (HostM.request operation call))) w Q := by
  refine Leads.ofStore (Leads.ofHost (HostM.request_leads (fun a e' done => ?_) ?_))
  · rintro _ ⟨⟩
    obtain ⟨able, d, served, rfl⟩ := Engine.held_write serves through writes done
    exact ⟨_, rfl, h a d able served⟩
  · rintro error - _ ⟨⟩

theorem relGetIds {operation : String} {relation : RelationId} {source : ObjectId}
    {Q : List ObjectId → σ × Draft → Prop}
    (h : how ≠ none → u.base.relations.contains relation = true →
      Q (w.2.view.targets relation source).toList w) :
    Ensures u how (ofStore (StoreM.ofHost (HostM.request operation
      (.relGetIds (some u.txn.handle) relation source)))) w Q := by
  refine Leads.ofStore (Leads.ofHost (HostM.request_leads (fun ids e' done => ?_) ?_))
  · rintro _ ⟨⟩
    obtain ⟨opened, known, rfl, rfl⟩ := Engine.held_relGetIds done
    exact ⟨_, rfl, h opened known⟩
  · rintro error - _ ⟨⟩

end Ensures

end Editing

/-! ## Ids -/

namespace Store

variable {e : Engine} {txn : Option Handle} {entity : EntityId} {candidate : ObjectId}

theorem askId_unserved (none : ∀ id e', e.idForPut txn entity candidate ≠ .ok (id, e')) :
    Ends (askId txn entity candidate) e (.ok 0) e := by
  unfold askId
  cases ended : e.perform callerThread (.idForPut txn entity candidate) with
  | ok done => exact absurd ended (none done.1 done.2)
  | error halt =>
      cases halt with
      | refused why => exact (HostM.perform_refused ended).bind Ends.pure
      | waits =>
          obtain ⟨why, refused, -⟩ := Engine.idForPut_tells _ ended
          cases refused

theorem allocateOne_leads : Leads (allocateOne txn entity candidate) e fun r e' =>
    ∀ id, r = .ok id → e.idForPut txn entity candidate = .ok (id, e') := by
  by_cases served : ∃ id e', e.idForPut txn entity candidate = .ok (id, e')
  · obtain ⟨id, e', done⟩ := served
    refine (allocateOne_ends done).leads ?_
    rintro _ ⟨⟩
    exact done
  · have none : ∀ id e', e.idForPut txn entity candidate ≠ .ok (id, e') :=
      fun id e' done => served ⟨id, e', done⟩
    have host : Leads (get : HostM Host) e fun _ _ => True := by
      rintro h shows
      exact ⟨e, shows, trivial⟩
    refine (askId_unserved none).bind ?_
    rw [if_neg (not_not_intro rfl)]
    refine onCallerSlot_ends.bind ((askId_unserved none).bind ?_)
    rw [if_neg (not_not_intro rfl)]
    refine host.onward (fun h e' _ => ?_) fun why e' _ id wrong => by cases wrong
    refine onCallerSlot_ends.bind ?_
    split <;>
    · refine Leads.throw ?_
      rintro _ ⟨⟩

end Store

namespace Editing.Ensures

variable {σ α : Type} {u : Setting} {how : Option TxnMode} {w : σ × Draft} {T : Type} {b : Box T}

theorem allocateOne {entity : EntityId} {candidate : ObjectId} {Q : ObjectId → σ × Draft → Prop}
    (h : ∀ id d, how = some .write → Draft.idForPut u.base entity candidate w.2 = .ok (id, d) →
      Q id (w.1, d)) :
    Ensures u how
      (ofStore (StoreM.ofHost (Store.allocateOne (some u.txn.handle) entity candidate))) w Q := by
  refine Leads.ofStore (Leads.ofHost (Store.allocateOne_leads.mono ?_))
  rintro r e' served id rfl
  have serves := @Draft.serves_idForPut u.base u.txn.handle entity candidate
  have served : (u.base.held u.txn.handle how w.2).perform callerThread
      (.idForPut (some u.txn.handle) entity candidate) = .ok (id, e') := served id rfl
  obtain ⟨able, d, drawn, rfl⟩ := Engine.held_write serves rfl rfl served
  exact ⟨_, rfl, h id d able drawn⟩

/-- No block is allocated for none, and one that is allocated was drawn from the sequence. -/
theorem allocateBlock_drawn {entity : EntityId} {count : Nat} {Q : ObjectId → σ × Draft → Prop}
    (none : count = 0 → Q 0 w)
    (drawn : ∀ first d, Draft.idsForPut u.base entity count w.2 = .ok (first, d) →
      Q first (w.1, d)) :
    Ensures u how
      (ofStore (StoreM.ofHost (Store.allocateBlock (some u.txn.handle) entity count))) w Q := by
  by_cases empty : count = 0
  · subst empty
    refine .reading (fun _ => Ends.ofHost Store.allocateBlock_none) ?_
    rintro _ ⟨⟩
    exact none rfl
  · rw [Store.allocateBlock, if_neg empty]
    exact .write Draft.serves_idsForPut rfl rfl fun first d _ served => drawn first d served

theorem allocateBlock {entity : EntityId} {count : Nat} {Q : ObjectId → σ × Draft → Prop}
    (h : ∀ first d, d.view = w.2.view → Q first (w.1, d)) :
    Ensures u how
      (ofStore (StoreM.ofHost (Store.allocateBlock (some u.txn.handle) entity count))) w Q :=
  .allocateBlock_drawn (fun _ => h 0 w.2 rfl) fun first d served =>
    h first d (Draft.view_of_idsForPut served)

/-! ### Boxes -/

theorem ensureOpen {Q : Unit → σ × Draft → Prop} (h : u.store.closed = false → Q () w) :
    Ensures u how (ofStore StoreM.ensureOpen) w Q := by
  cases closed : u.store.closed with
  | true =>
      refine Ends.leads (Ends.ofStore (StoreM.ensureOpen_closed closed)) ?_
      rintro _ ⟨⟩
  | false =>
      refine Ends.leads (Ends.ofStore (StoreM.ensureOpen_ends closed)) ?_
      rintro _ ⟨⟩
      exact ⟨w, rfl, h closed⟩

theorem boxFor {binding : Binding T} {program : Box T → Editing σ α} {Q : α → σ × Draft → Prop}
    (each : ∀ entity, u.store.registered binding.name = .ok entity →
      Ensures u how (program ⟨entity, binding⟩) w Q) :
    Ensures u how (ofStore (Store.boxFor binding) >>= program) w Q := by
  have finds := @StoreM.boxFor_finds _ u.store (u.base.held u.txn.handle how w.2) binding
  cases found : u.store.registered binding.name <;> rw [found] at finds
  case error why =>
    refine Ends.bind_error (Ends.ofStore finds) ?_
    rintro _ ⟨⟩
  case ok entity => exact Ends.bind (Ends.ofStore finds) (each entity found)

variable {w : T × Draft}

theorem currentId {Q : ObjectId → T × Draft → Prop}
    (h : ∀ id, b.binding.id w.1 = .ok id → Q id w) : Ensures u how b.currentId w Q :=
  .bind (.current (.reading (fun _ => Box.idOf_reads) h))

theorem assignId {id : ObjectId} {Q : Unit → T × Draft → Prop}
    (h : ∀ object, b.binding.setId w.1 id = .ok object → Q () (object, w.2)) :
    Ensures u how (b.assignId id) w Q := by
  refine .bind (.current ?_)
  cases given : b.binding.setId w.1 id with
  | ok object => exact .replace (h object given)
  | error why => exact .throw

theorem encode {id : ObjectId} {object : T} {Q : Bytes → T × Draft → Prop}
    (h : ∀ record, Record.made id (b.binding.body object) = .ok record → Q record w) :
    Ensures u how (ofStore (b.encode id object)) w Q :=
  .reading (fun _ => Box.encode_makes) h

end Editing.Ensures

/-! ## Lists -/

namespace Editing

variable {τ α β : Type} {u : Setting} {how : Option TxnMode}

/-- Objects are changed one after another, each as `R` says; those without an argument are not. -/
inductive Steps (R : α → τ → Draft → β → τ → Draft → Prop) :
    List α → List τ → Draft → List β → List τ → Draft → Prop where
  | nil {objects : List τ} {d : Draft} : Steps R [] objects d [] objects d
  | empty {as : List α} {d : Draft} : Steps R as [] d [] [] d
  | cons {a : α} {as : List α} {object object' : τ} {objects objects' : List τ} {b : β}
      {bs : List β} {d d₁ d' : Draft} : R a object d b object' d₁ →
      Steps R as objects d₁ bs objects' d' →
      Steps R (a :: as) (object :: objects) d (b :: bs) (object' :: objects') d'

theorem Steps.holds {R : α → τ → Draft → β → τ → Draft → Prop} {P : Prop} {as : List α}
    {objects objects' : List τ} {bs : List β} {d d' : Draft}
    (steps : Steps R as objects d bs objects' d') (some : as ≠ [])
    (even : as.length = objects.length)
    (each : ∀ a object d b object' d', R a object d b object' d' → P) : P := by
  cases steps with
  | nil => exact absurd rfl some
  | empty => exact absurd (List.length_eq_zero_iff.mp even) some
  | cons first => exact each _ _ _ _ _ _ first

namespace Ensures

variable {step : α → Editing τ β} {as : List α} {objects : List τ} {d : Draft}

theorem forEach {R : α → τ → Draft → β → τ → Draft → Prop}
    (each : ∀ a object, (a, object) ∈ as.zip objects → ∀ d,
      Ensures u how (step a) (object, d) fun b w => R a object d b w.1 w.2) :
    Ensures u how (forEach step as) (objects, d) fun bs w => Steps R as objects d bs w.1 w.2 := by
  induction as generalizing objects d with
  | nil =>
      refine forEach_nil ?_
      rintro _ ⟨⟩
      exact ⟨(objects, d), rfl, .nil⟩
  | cons a as ih =>
      cases objects with
      | nil =>
          refine forEach_empty ?_
          rintro _ ⟨⟩
          exact ⟨([], d), rfl, .empty⟩
      | cons object objects =>
          refine forEach_cons (Leads.mono (each a object (.head _) d) ?_)
          rintro (why | b) v first
          · rintro _ ⟨⟩
          · obtain ⟨⟨object', d₁⟩, rfl, here⟩ := first b rfl
            rw [Rest]
            have rest := ih (fun a object member => each a object (.tail _ member)) (d := d₁)
            refine Leads.mono rest fun r v last bs succeeded => ?_
            cases r with
            | error why => cases succeeded
            | ok bs' =>
                cases succeeded
                obtain ⟨⟨objects', d'⟩, rfl, later⟩ := last bs' rfl
                exact ⟨(object' :: objects', d'), rfl, .cons here later⟩

theorem forChunks {size : Nat} {chunk : Editing (List τ) β}
    {Q : List β → List τ × Draft → Prop}
    (h : Ensures u how (Editing.forEach (fun _ => chunk) (chunked size objects objects))
      (chunked size objects objects, d) fun bs w => Q bs (w.1.flatten, w.2)) :
    Ensures u how (forChunks size chunk) (objects, d) Q := by
  refine forChunks_leads rfl (Leads.mono h fun r v ended bs succeeded => ?_)
  obtain ⟨w, rfl, holds⟩ := ended bs succeeded
  exact ⟨(w.1.flatten, w.2), rfl, holds⟩

end Ensures

end Editing

/-! ## Sessions -/

theorem Leads.of_run {σ α : Type} {program : Editing σ α} {objects objects' : σ} {s s' : Session}
    {v : σ × Store × Engine} {r : Except StoreError α}
    {Q : Except StoreError α → σ × Store × Engine → Prop} (leads : Leads program v Q)
    (shows : Viewed.Shows (objects, s) v) (done : program.run objects s = ((r, objects'), s')) :
    ∃ v', Viewed.Shows (objects', s') v' ∧ Q r v' := by
  obtain ⟨v', shown, holds⟩ := leads _ shows
  rw [show Runs.run program.run (objects, s) = (r, objects', s') by
    simp only [Runs.run, done]] at shown holds
  exact ⟨v', shown, holds⟩

theorem Ends.run_eq {σ α : Type} {program : Editing σ α} {objects : σ} {s : Session}
    {v v' : σ × Store × Engine} {r : Except StoreError α} (ends : Ends program v r v')
    (shows : Viewed.Shows (objects, s) v) :
    ∃ s', program.run objects s = ((r, v'.1), s') ∧ Viewed.Shows s' v'.2 := by
  generalize ran : program.run objects s = ended
  obtain ⟨⟨r', objects'⟩, s'⟩ := ended
  obtain ⟨v'', ⟨same, shown⟩, rfl, rfl⟩ := Leads.of_run ends shows ran
  obtain rfl : objects' = v''.1 := same
  exact ⟨s', rfl, shown⟩

end ObjectStore
