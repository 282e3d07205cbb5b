import ObjectStore.Proofs.Errors.Calls
import ObjectStore.Proofs.Store.Staying

/-! # Transactions and reads report

A program that runs in a transaction of its own and fails is followed by an abort, whose own end
nobody looks at: the error stays the one of the program, and about the call that it was about. A
commit that fails is a call like any other.

A read that finds no record of an id is no error, and the error of a visit is that of a record that
cannot be read, if there is one.
-/

namespace ObjectStore

variable {extra : Call → Refusal → String → Prop} {σ τ α β : Type}

/-! ## Programs that make no call -/

/-- An error that no engine call is to blame for. -/
theorem Reports.silent {m : Type → Type} [Monad m] {W : Type} [Runs m W] [Hosts W]
    {p : ExceptT StoreError m α}
    (still : ∀ w : W, Hosts.host (Runs.run p.run w).2 = Hosts.host w)
    (own : ∀ w why, (Runs.run p.run w).1 = .error why → why.Own) : Reports extra p := by
  intro w plain
  rw [still]
  exact ⟨[], .nil plain, fun operation status message failed =>
    absurd rfl (own w _ failed operation status message)⟩

namespace StoreM

theorem store_reports : Reports extra store :=
  .silent (fun _ => rfl) fun _ _ failed => by cases failed

theorem ensureOpen_reports : Reports extra ensureOpen := by
  refine store_reports.bind fun store => ?_
  split
  · exact .throw fun _ _ _ same => by cases same
  · exact .pure

theorem misuse_reports {why : Misuse} : Reports extra (misuse why : StoreM α) :=
  .throw fun _ _ _ same => by cases same

theorem encodeRecord_reports {id : ObjectId} {body : Except CodecError Cbor.Value} :
    Reports extra (encodeRecord id body) := by
  have ran (s : Session) : encodeRecord id body s =
      ((s.store.pool.encode id body).1.mapError .codec,
        { s with store := { s.store with pool := (s.store.pool.encode id body).2 } }) := by
    simp only [encodeRecord, getThe, bind, ExceptT.bind, ExceptT.bindCont, ExceptT.mk,
      StateT.bind, MonadStateOf.get, liftM, monadLift, MonadLift.monadLift, ExceptT.lift,
      Functor.map, StateT.map, StateT.get, pure]
    cases (s.store.pool.encode id body).1 <;> rfl
  refine .silent (fun s => ?_) fun s why failed => ?_
  · rw [show Runs.run (encodeRecord id body).run s = _ from ran s]
    rfl
  · rw [show Runs.run (encodeRecord id body).run s = _ from ran s] at failed
    cases made : (s.store.pool.encode id body).1 <;> rw [made] at failed <;> cases failed
    exact fun _ _ _ same => by cases same

end StoreM

namespace Editing

theorem current_reports : Reports extra (current : Editing σ σ) :=
  .silent (fun _ => rfl) fun _ _ failed => by cases failed

theorem replace_reports {objects : σ} : Reports extra (replace objects) :=
  .silent (fun _ => rfl) fun _ _ failed => by cases failed

/-! ## Parts and lists of objects -/

theorem focus_reports {part : σ → τ} {fill : σ → τ → σ} {program : Editing τ α}
    (h : Reports extra program) : Reports extra (focus part fill program) :=
  fun w plain => h (part w.1, w.2) plain

theorem forEach_reports {step : α → Editing τ β} (each : ∀ a, Reports extra (step a))
    {as : List α} : Reports extra (forEach step as) := by
  induction as with
  | nil => exact .silent (fun _ => rfl) fun _ _ failed => by cases failed
  | cons a as ih =>
      rintro ⟨objects, s⟩ plain
      cases objects with
      | nil => exact .ok plain
      | cons object objects =>
          have first := each a (object, s) plain
          rw [forEach_run]
          generalize Runs.run (step a).run (object, s) = ran at first
          rcases ran with ⟨why | b, object', s'⟩
          · exact first.error
          · refine first.andThen ?_
            have rest := ih (objects, s') first.plain
            dsimp only
            generalize Runs.run (forEach step as).run (objects, s') = ran at rest ⊢
            rcases ran with ⟨why | bs, objects', s''⟩
            · exact rest.error
            · exact rest.andThen (.ok rest.plain)

theorem forChunks_reports {size : Nat} {step : Editing (List τ) β} (each : Reports extra step) :
    Reports extra (forChunks size step) :=
  fun w plain => forEach_reports (fun _ => each) (chunked size w.1 w.1, w.2) plain

end Editing

/-! ## Transactions -/

namespace Txn

theorem begin_reports {mode : TxnMode} : Reports extra (begin mode) :=
  (HostM.request_reports rfl rfl).bind fun _ => .pure

theorem commit_reports {t : Txn} : Reports extra t.commit :=
  HostM.request_reports rfl rfl

theorem abort_reports {t : Txn} : Reports extra t.abort :=
  HostM.request_reports rfl rfl

theorem drop_run {t : Txn} {h : Host} (plain : h.faults = []) :
    ∃ reply h', t.drop h = (.ok (), h') ∧ h.Performed (.abort t.handle) reply h' := by
  rcases HostM.perform_performed plain (.abort t.handle) with ⟨reply, h', ran, ended⟩ | ⟨waits, -⟩
  · exact ⟨reply, h', HostM.bind_run ran, ended⟩
  · exact absurd waits Engine.abort_ne_waits

end Txn

/-- An abort after a failure changes nothing of what the error is about. -/
theorem Accounted.dropped {h h₁ h' : Host} {why : StoreError} {txn : Handle}
    {reply : Reply (Call.Answer (.abort txn))}
    (account : Accounted extra h (.error why : Except StoreError α) h₁)
    (ended : h₁.Performed (.abort txn) reply h') :
    Accounted extra h (.error why : Except StoreError α) h' := by
  obtain ⟨made, after, about⟩ := account
  cases ended with
  | served aborted | refused aborted =>
      exact ⟨made ++ [.abort txn], after.append aborted, fun operation status message failed =>
        (about operation status message failed).abort⟩

namespace Store

variable {mode : TxnMode}

theorem beginTxn_reports : Reports extra (beginTxn mode) :=
  StoreM.ensureOpen_reports.bind fun _ => Txn.begin_reports.ofHost

theorem runIn_reports {program : Txn → Editing σ α} (each : ∀ txn, Reports extra (program txn)) :
    Reports extra (runIn mode program) := by
  refine .bind (.ofStore beginTxn_reports) fun txn w plain => ?_
  have account := each txn w plain
  generalize ran : Runs.run (program txn).run w = ended at account
  obtain ⟨r, w₁⟩ := ended
  have looked : Runs.run (Editing.outcome (program txn)).run w = (.ok r, w₁) :=
    congrArg (fun ended => (Except.ok ended.1, ended.2)) ran
  rw [Alike.run_bind looked]
  cases r with
  | ok a =>
      have committed : Reports extra (do txn.commit; return a : Editing σ α) :=
        .bind (.ofStore (.ofHost Txn.commit_reports)) fun _ => .pure
      exact account.andThen (committed w₁ account.plain)
  | error why =>
      obtain ⟨reply, host, dropped, ended⟩ := Txn.drop_run (t := txn) account.plain
      have aborted : Runs.run (Editing.ofStore (StoreM.ofHost txn.drop) : Editing σ Unit).run w₁ =
          (.ok (), w₁.1, { w₁.2 with host }) :=
        congrArg (fun ended => (ended.1, w₁.1, { w₁.2 with host := ended.2 })) dropped
      have all : Runs.run (do txn.drop; throw why : Editing σ α).run w₁ =
          (.error why, w₁.1, { w₁.2 with host }) :=
        (Alike.run_bind aborted).trans (Runs.run_pure _ _)
      rw [show Runs.run (ExceptT.run _) w₁ = _ from all]
      exact account.dropped ended

/-- A program in a transaction of its own that changes no objects. -/
theorem runInTxn_reports {program : Txn → StoreM α} (each : ∀ txn, Reports extra (program txn)) :
    Reports extra (runInTxn mode program) :=
  fun s plain => runIn_reports (fun txn => (each txn).ofStore) ((), s) plain

end Store

/-! ## Boxes of a binding -/

section Boxes

variable {T : Type} {binding : Binding T}

theorem Store.boxFor_reports : Reports extra (boxFor binding) := by
  refine .bind StoreM.ensureOpen_reports fun _ => .bind StoreM.store_reports fun store => ?_
  split
  · exact .pure
  · exact .throw fun _ _ _ same => by cases same

theorem Store.boxFor_found {s : Session} {b : Box T} (plain : s.host.faults = [])
    (found : (Runs.run (boxFor binding).run s).1 = .ok b) :
    ∃ descriptor, b = ⟨descriptor, binding⟩ := by
  obtain ⟨v, -, named⟩ :=
    @StoreM.boxFor_leads T binding (s.store, s.host.machine.engine) s ⟨⟨plain, rfl⟩, rfl⟩
  exact named b found

/-- What is done with a box that is found reports, if it does for every box of the binding. -/
theorem Reports.boxFor {program : Box T → StoreM α}
    (each : ∀ descriptor, Reports extra (program ⟨descriptor, binding⟩)) :
    Reports extra (Store.boxFor binding >>= program) := by
  refine .bind_of Store.boxFor_reports fun s b plain found => ?_
  obtain ⟨descriptor, rfl⟩ := Store.boxFor_found plain found
  exact each descriptor

theorem Reports.boxForEditing {program : Box T → Editing σ α}
    (each : ∀ descriptor, Reports extra (program ⟨descriptor, binding⟩)) :
    Reports extra (Editing.ofStore (Store.boxFor binding) >>= program) := by
  refine .bind_of (.ofStore Store.boxFor_reports) fun w b plain found => ?_
  obtain ⟨descriptor, rfl⟩ := Store.boxFor_found plain found
  exact each descriptor

end Boxes

/-! ## Reading -/

namespace Box

variable {T : Type} {b : Box T} {txn : Txn} {id : ObjectId}

theorem decode_reports {record : Bytes} : Reports extra (b.decode record) := by
  unfold decode
  split
  · exact .pure
  · exact .throw fun _ _ _ same => by cases same

theorem decoded_reports {existingOnly : Bool} {records : List (Option Bytes)} :
    Reports extra (b.decoded existingOnly records) := by
  unfold decoded
  split
  · exact .pure
  · exact .throw fun _ _ _ same => by cases same

/-- No record was visited by a visit that was refused, so its error is that of the refusal. -/
theorem finish_complains {call : Call} {why : Refusal} {existingOnly : Bool}
    (told : why ≠ .missing) :
    Complains extra call why
      (readVisit.finish b existingOnly call.name (.failed why.status none)) := by
  have none : readVisit.finish b existingOnly call.name (.failed why.status none) =
      StoreM.ofHost (HostM.failure call.name why.status) >>= fun error => throw error :=
    pure_bind _ _
  rw [none]
  exact .fetched told StoreM.failure_fetches

variable (loads : ∀ object, Reports extra (b.binding.loadRelated txn object))
include loads

theorem loadRelated_reports {object : T} : Reports extra (b.loadRelated txn object) := by
  unfold loadRelated
  split
  · exact loads object
  · exact .pure

/-- An object that is not stored is no error. -/
theorem getIn_reports : Reports extra (b.getIn txn id) := by
  refine .bind StoreM.ensureOpen_reports fun _ =>
    .performing StoreM.perform_performs rfl (fun record => ?_) fun why _ => ?_
  · exact .bind decode_reports fun object => .bind (loadRelated_reports loads) fun _ => .pure
  · cases why with
    | missing => exact .pure
    | _ => exact .fetched (by simp) StoreM.failure_fetches

theorem readMany_reports {selection : Selection} {existingOnly : Bool} :
    Reports extra (b.readMany txn selection existingOnly) := by
  have array : Reports extra (b.readArray txn selection existingOnly) := by
    unfold readArray
    split <;> exact .bind (.ofHost (HostM.request_reports rfl rfl)) fun _ => decoded_reports
  have visit : Reports extra (b.readVisit txn selection existingOnly) := by
    unfold readVisit
    split <;> exact .performing StoreM.perform_performs rfl (fun _ => decoded_reports)
      fun why misses => finish_complains fun missing => by cases misses missing
  refine .bind StoreM.ensureOpen_reports fun _ => ?_
  split
  · exact .pure
  · refine .bind StoreM.store_reports fun store => ?_
    cases store.strategy <;>
      [refine .bind array fun objects => ?_; refine .bind visit fun objects => ?_]
    all_goals
      split
      · refine .mapM fun object => ?_
        split
        · exact .bind (loadRelated_reports loads) fun _ => .pure
        · exact .pure
      · exact .pure

theorem getManyExistingIn_reports {ids : List ObjectId} :
    Reports extra (b.getManyExistingIn txn ids) :=
  .bind (readMany_reports loads) fun _ => .pure

theorem getAllIn_reports : Reports extra (b.getAllIn txn) :=
  .bind (readMany_reports loads) fun _ => .pure

omit loads in
/-- A read is done in the transaction that is given, or in one of its own. -/
theorem reading_reports {given : Option Txn} {program : Txn → StoreM α}
    (each : ∀ txn, Reports extra (program txn)) : Reports extra (reading given program) := by
  cases given with
  | some txn => exact each txn
  | none => exact Store.runInTxn_reports each

end Box

/-- Related objects are read. -/
theorem Store.relatedObjects_reports {T : Type} {binding : Binding T} {txn : Txn}
    {relation : Relation} {source : ObjectId}
    (loads : ∀ object, Reports extra (binding.loadRelated txn object)) :
    Reports extra (relatedObjects binding txn relation source) := by
  have reading : Reports extra (do
      let ids ← HostM.request "rel_get_ids" (.relGetIds (some txn.handle) relation.id source)
      (← boxFor binding).getManyExistingIn txn ids : StoreM (List T)) := by
    refine .bind (.ofHost (HostM.request_reports rfl rfl)) fun ids => .boxFor fun descriptor => ?_
    exact Box.getManyExistingIn_reports loads
  unfold relatedObjects
  split
  · exact .bind StoreM.misuse_reports fun _ => reading
  · exact reading

end ObjectStore
