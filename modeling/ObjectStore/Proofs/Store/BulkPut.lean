import ObjectStore.Proofs.Store.Chunks

/-! # Storing a batch

What holds of one chunk holds of all chunks one after another: the whole batch is stored under
`bulkIds`, or the sequence runs out on the way. A bulk put in a transaction of its own leaves the
one or nothing.
-/

namespace ObjectStore

/-- The chunks in which a store writes a batch: each object is one on an engine without arrays. -/
def Store.cut {α : Type} (store : Store) (items : List α) : List (List α) :=
  if store.arrays then Editing.chunked store.config.chunkSize items items else items.map ([·])

/-- The call by which a store takes ids for a batch. -/
def Store.numberingCall (store : Store) : String :=
  if store.arrays then "ids_for_put" else "id_for_put"

namespace Store

variable {store : Store} {α β : Type} {items : List α}

@[simp] theorem cut_nil : store.cut ([] : List α) = [] := by
  unfold cut
  split <;> rfl

theorem flatten_cut : (store.cut items).flatten = items := by
  unfold cut
  split
  · exact Editing.flatten_chunked (Nat.le_refl _)
  · rw [← List.flatMap_def]
    exact List.flatMap_singleton' items

theorem cut_map {f : α → β} : store.cut (items.map f) = (store.cut items).map (List.map f) := by
  rw [cut, cut]
  split
  · exact Editing.chunked_map
  · simp

end Store

/-- The objects with the ids that are new to them. -/
def Binding.Total.given {T : Type} {binding : Binding T} (total : binding.Total) :
    List Box.Assigned → List T → List T
  | a :: assigned, object :: objects =>
    (if a.fresh then total.withId object a.id else object) :: total.given assigned objects
  | _, objects => objects

theorem Binding.Total.given_eq_zipWith {T : Type} {binding : Binding T} {total : binding.Total}
    {assigned : List Box.Assigned} {objects : List T} (even : assigned.length = objects.length)
    (kept : ∀ a object, (a, object) ∈ assigned.zip objects → a.fresh = false →
      a.id = total.idOf object) :
    total.given assigned objects =
      List.zipWith total.withId objects (assigned.map Box.Assigned.id) := by
  induction assigned generalizing objects with
  | nil =>
      have none : objects = [] := List.length_eq_zero_iff.mp even.symm
      subst none
      rfl
  | cons a assigned ih =>
      cases objects with
      | nil => cases even
      | cons object objects =>
          have rest := ih (Nat.succ.inj even) fun a object member =>
            kept a object (List.mem_cons_of_mem _ member)
          rw [given, rest, List.map_cons, List.zipWith_cons_cons]
          split
          · rfl
          · rename_i old
            rw [kept a object List.mem_cons_self (by simpa using old), total.withId_idOf]

namespace Box

variable {T : Type} {b : Box T} {base e e₁ e' : Engine} {s s₁ s' : Snapshot} {store : Store}

section Total

variable (total : b.binding.Total) {objects : List T}
include total

/-! ## A batch -/

/-- How storing a batch ends: all of it is stored under its ids, or there are not enough of them. -/
def Batch (base : Engine) (s : Snapshot) (e : Engine) (chunks : List (List ObjectId))
    (objects : List T) (operation : String) : Except StoreError (List Assigned) → Engine → Prop
  | .ok assigned, e' => HasRoomForAll (e.lastId b.entity) chunks ∧
    assigned = bulkAssigned (e.lastId b.entity) chunks ∧
    ∃ s', Stored total base s e chunks objects s' e'
  | .error why, e' => ¬ HasRoomForAll (e.lastId b.entity) chunks ∧
    why = .exhausted operation b.entity ∧ (∃ s', b.Writing base s' e') ∧
    e.lastId b.entity ≤ e'.lastId b.entity

variable {total} {chunk : List ObjectId} {chunks : List (List ObjectId)} {part : List T}

theorem Stored.here (stored : Stored total base s e chunks objects s' e') :
    e'.lastId b.entity = bulkLast (e.lastId b.entity) chunks := by
  rw [stored.last, if_pos rfl]

theorem stored_nil (writing : b.Writing base s e) : Stored total base s e [] [] s e :=
  ⟨writing, Std.ExtTreeMap.insertMany_nil.symm, fun _ _ => rfl, fun _ => by split <;> rfl⟩

theorem Stored.cons (even : chunk.length = part.length)
    (first : Stored total base s e [chunk] part s₁ e₁)
    (rest : Stored total base s₁ e₁ chunks objects s' e') :
    Stored total base s e (chunk :: chunks) (part ++ objects) s' e' := by
  refine ⟨rest.writing, ?_, ?_, ?_⟩
  · rw [rest.table, first.table, first.here, ← Std.ExtTreeMap.insertMany_append,
      Binding.Total.entries, Binding.Total.entries, Binding.Total.entries, bulkIds, bulkIds,
      bulkIds, List.append_nil, ← List.zipWith_append (by simp [chunkIds, even])]
    rfl
  · exact fun entity other => (rest.others entity other).trans (first.others entity other)
  · intro entity
    rw [rest.last, first.last]
    split <;> rfl

theorem Batch.cons {operation : String} {r : Except StoreError (List Assigned)}
    (even : chunk.length = part.length) (room : HasRoom (e.lastId b.entity) chunk)
    (first : Stored total base s e [chunk] part s₁ e₁)
    (rest : Batch total base s₁ e₁ chunks objects operation r e') :
    Batch total base s e (chunk :: chunks) (part ++ objects) operation
      (r.map (assign (e.lastId b.entity + 1) chunk ++ ·)) e' := by
  have here : e₁.lastId b.entity = lastAfter (e.lastId b.entity) chunk := first.here
  cases r with
  | ok assigned =>
      obtain ⟨roomLater, rfl, s', stored⟩ := rest
      rw [here] at roomLater
      refine ⟨⟨room, roomLater⟩, ?_, s', first.cons even stored⟩
      rw [bulkAssigned, here]
  | error why =>
      obtain ⟨full, rfl, writing, grown⟩ := rest
      rw [here] at full grown
      exact ⟨fun both => full both.2, rfl, writing, Std.le_trans (last_le_lastAfter room) grown⟩

variable (total)

/-- A step that stores its part under the ids the part is numbered with, or runs out of them, makes
    a batch of all parts. -/
theorem forEach_leads {τ β : Type} {step : Editing τ β}
    (parts : τ → List T) (answer : β → List Assigned) (operation : String) {items : List τ}
    (served : ∀ item ∈ items, ∀ {s e}, b.Writing base s e →
      HasRoom (e.lastId b.entity) ((parts item).map total.idOf) →
        ∃ answered s' e', Ends step (item, store, e) (.ok answered) (item, store, e') ∧
          answer answered = assign (e.lastId b.entity + 1) ((parts item).map total.idOf) ∧
          Stored total base s e [(parts item).map total.idOf] (parts item) s' e')
    (refused : ∀ item ∈ items, ∀ {s e}, b.Writing base s e →
      ¬ HasRoom (e.lastId b.entity) ((parts item).map total.idOf) →
        Ends step (item, store, e) (.error (.exhausted operation b.entity)) (item, store, e))
    (writing : b.Writing base s e) :
    Leads (Editing.forEach (fun _ => step) items) (items, store, e) fun r w =>
      w.1 = items ∧ w.2.1 = store ∧
        Batch total base s e (items.map fun item => (parts item).map total.idOf)
          (items.flatMap parts) operation (r.map (·.flatMap answer)) w.2.2 := by
  induction items generalizing s e with
  | nil =>
      exact Editing.forEach_nil ⟨rfl, rfl, trivial, rfl, s, stored_nil writing⟩
  | cons item items ih =>
      apply Editing.forEach_cons
      by_cases room : HasRoom (e.lastId b.entity) ((parts item).map total.idOf)
      · obtain ⟨answered, s₁, e₁, ends, numbered, first⟩ :=
          served item List.mem_cons_self writing room
        refine ends.leads ?_
        simp only [Editing.Rest]
        refine (ih (fun item member => served item (List.mem_cons_of_mem _ member))
          (fun item member => refused item (List.mem_cons_of_mem _ member)) first.writing).mono ?_
        rintro r ⟨found, store', e'⟩ ⟨rfl, rfl, batch⟩
        refine ⟨rfl, rfl, ?_⟩
        have whole := Batch.cons (by simp) room first batch
        rw [List.map_cons, List.flatMap_cons]
        cases r with
        | ok answers =>
            rw [← numbered] at whole
            exact whole
        | error why => exact whole
      · refine (refused item List.mem_cons_self writing room).leads ?_
        exact ⟨rfl, rfl, fun both => room both.1, rfl, ⟨s, writing⟩, Std.le_refl _⟩

theorem forEach_writeChunk_leads {chunks : List (List T)}
    (size : ∀ chunk ∈ chunks, chunk.length ≤ maxIdsPerBlock) (arrays : base.arrays = true)
    (quiet : ∀ object ∈ chunks.flatten, b.Quiet base store object) (writing : b.Writing base s e) :
    Leads (Editing.forEach (fun _ => b.writeChunk ⟨base.nextHandle, .write⟩) chunks)
      (chunks, store, e) fun r w => w.1 = chunks ∧ w.2.1 = store ∧
        Batch total base s e (chunks.map (List.map total.idOf)) chunks.flatten "ids_for_put"
          (r.map List.flatten) w.2.2 := by
  refine Leads.mono (forEach_leads total id id "ids_for_put" ?_ ?_ writing) ?_
  · intro chunk member s e writing room
    obtain ⟨s', e', ends, stored⟩ := writeChunk_ends total rfl arrays
      (by simpa using size chunk member)
      (fun object here => quiet object (List.mem_flatten_of_mem member here)) writing room
    exact ⟨_, s', e', ends, rfl, stored⟩
  · intro chunk member s e writing full
    exact writeChunk_refused total rfl (by simpa using size chunk member) writing full
  · rintro r w ⟨same, kept, batch⟩
    refine ⟨same, kept, ?_⟩
    rw [List.flatMap_id] at batch
    cases r with
    | ok answers =>
        rw [Except.map, List.flatMap_id] at batch
        exact batch
    | error why => exact batch

theorem forEach_writeOne_leads (quiet : ∀ object ∈ objects, b.Quiet base store object)
    (writing : b.Writing base s e) :
    Leads (Editing.forEach (fun _ => b.writeOne ⟨base.nextHandle, .write⟩) objects)
      (objects, store, e) fun r w => w.1 = objects ∧ w.2.1 = store ∧
        Batch total base s e (objects.map fun object => [total.idOf object]) objects "id_for_put" r
          w.2.2 := by
  refine Leads.mono (forEach_leads total ([·]) ([·]) "id_for_put" ?_ ?_ writing) ?_
  · intro object member s e writing room
    obtain ⟨assigned, s', e', ends, numbered, stored⟩ :=
      writeOne_ends total rfl (quiet object member) writing room
    exact ⟨assigned, s', e', ends, numbered, stored⟩
  · intro object member s e writing full
    exact writeOne_refused total rfl writing full
  · rintro r w ⟨same, kept, batch⟩
    refine ⟨same, kept, ?_⟩
    rw [List.flatMap_singleton'] at batch
    cases r with
    | ok answers =>
        rw [Except.map, List.flatMap_singleton'] at batch
        exact batch
    | error why => exact batch

/-- The objects of a batch that is written stay as they are. -/
theorem writeMany_leads
    (size : 0 < store.config.chunkSize ∧ store.config.chunkSize ≤ maxIdsPerBlock)
    (able : store.arrays = base.arrays) (quiet : ∀ object ∈ objects, b.Quiet base store object)
    (writing : b.Writing base s e) :
    Leads (b.writeMany ⟨base.nextHandle, .write⟩) (objects, store, e) fun r w =>
      w.1 = objects ∧ w.2.1 = store ∧
        Batch total base s e (store.cut (objects.map total.idOf)) objects store.numberingCall r
          w.2.2 := by
  refine Leads.bind (Leads.ofStore (StoreM.store_leads fun pool => ?_))
  simp only [Onward]
  rw [Store.cut_map, Store.numberingCall]
  have whole : (store.cut objects).flatten = objects := Store.flatten_cut
  cases arrays : store.arrays with
  | true =>
      have cut : Editing.chunked store.config.chunkSize objects objects = store.cut objects := by
        rw [Store.cut, if_pos arrays]
      have bounded : ∀ chunk ∈ store.cut objects, chunk.length ≤ maxIdsPerBlock := by
        intro chunk member
        rw [← cut] at member
        exact Nat.le_trans (Editing.length_of_mem_chunked size.1 chunk member).2 size.2
      have chunks := forEach_writeChunk_leads total bounded (able.symm.trans arrays)
        (by rwa [whole]) writing
      simp only [if_true]
      refine Leads.bind (Editing.forChunks_leads cut (chunks.mono ?_))
      rintro r ⟨found, v⟩ ⟨rfl, kept, batch⟩
      rw [whole] at batch
      cases r with
      | ok answers =>
          simp only [Onward]
          exact Leads.pure ⟨whole, kept, batch⟩
      | error why => exact ⟨whole, kept, batch⟩
  | false =>
      have cut : (store.cut objects).map (List.map total.idOf) =
          objects.map fun object => [total.idOf object] := by
        rw [Store.cut, if_neg (by simp [arrays]), List.map_map]
        rfl
      rw [cut]
      exact Ends.bind Editing.current_ends (forEach_writeOne_leads total quiet writing)

/-! ## A bulk put -/

theorem writeBack_ends {assigned : List Assigned} {v : Store × Engine} :
    Ends (b.writeBack assigned) (objects, v) (.ok ()) (total.given assigned objects, v) := by
  have given : ∃ answers, Ends (Editing.forEach
      (fun a : Assigned => if a.fresh then b.assignId a.id else pure ()) assigned) (objects, v)
        (.ok answers) (total.given assigned objects, v) := by
    induction assigned generalizing objects with
    | nil => exact ⟨[], Editing.forEach_nil ⟨rfl, rfl⟩⟩
    | cons a assigned ih =>
        cases objects with
        | nil => exact ⟨[], Editing.forEach_empty ⟨rfl, rfl⟩⟩
        | cons object objects =>
            obtain ⟨answers, rest⟩ := @ih objects
            have first : Ends (if a.fresh then b.assignId a.id else pure ()) (object, v) (.ok ())
                (if a.fresh then total.withId object a.id else object, v) := by
              split
              · exact assignId_ends total
              · exact Ends.pure
            refine ⟨() :: answers, Editing.forEach_cons (first.leads ?_)⟩
            simp only [Editing.Rest]
            exact rest.leads ⟨rfl, rfl⟩
  obtain ⟨answers, ends⟩ := given
  unfold writeBack
  exact Ends.bind ends Ends.pure

/-- An engine after a bulk put that was served: the transaction is over, and the batch is stored. -/
structure BulkStored (e : Engine) (chunks : List (List ObjectId)) (objects : List T)
    (e' : Engine) : Prop where
  past : e.Past e'.committed e'
  table : e'.committed.table b.entity = (e.committed.table b.entity).insertMany
    (total.entries (bulkIds (e.lastId b.entity) chunks) objects)
  last : e'.lastId b.entity = bulkLast (e.lastId b.entity) chunks

/-- How a bulk put ends: the batch is stored under its ids, which the objects carry then, or there
    are not enough ids and nothing is stored. -/
def BulkEnd (store : Store) (e : Engine) (objects : List T) :
    Except StoreError (List ObjectId) → List T × Store × Engine → Prop
  | .ok ids, (found, store', e') =>
    HasRoomForAll (e.lastId b.entity) (store.cut (objects.map total.idOf)) ∧
      ids = bulkIds (e.lastId b.entity) (store.cut (objects.map total.idOf)) ∧
      found = List.zipWith total.withId objects ids ∧ store' = store ∧
      BulkStored total e (store.cut (objects.map total.idOf)) objects e'
  | .error why, (found, store', e') =>
    ¬ HasRoomForAll (e.lastId b.entity) (store.cut (objects.map total.idOf)) ∧
      why = .exhausted store.numberingCall b.entity ∧ found = objects ∧ store' = store ∧
      e.Past e.committed e' ∧ e.lastId b.entity ≤ e'.lastId b.entity

/-- How the transaction of a bulk put ends: the batch is stored, or there are not enough ids and
    nothing is stored. The objects are as they were in both cases. -/
def BulkWritten (store : Store) (e : Engine) (objects : List T) :
    Except StoreError (List Assigned) → List T × Store × Engine → Prop
  | .ok assigned, (found, store', e') => found = objects ∧ store' = store ∧
    HasRoomForAll (e.lastId b.entity) (store.cut (objects.map total.idOf)) ∧
      assigned = bulkAssigned (e.lastId b.entity) (store.cut (objects.map total.idOf)) ∧
      BulkStored total e (store.cut (objects.map total.idOf)) objects e'
  | .error why, (found, store', e') => found = objects ∧ store' = store ∧
    ¬ HasRoomForAll (e.lastId b.entity) (store.cut (objects.map total.idOf)) ∧
      why = .exhausted store.numberingCall b.entity ∧ e.Past e.committed e' ∧
      e.lastId b.entity ≤ e'.lastId b.entity

theorem runIn_writeMany_leads (opened : store.closed = false)
    (size : 0 < store.config.chunkSize ∧ store.config.chunkSize ≤ maxIdsPerBlock)
    (able : store.arrays = e.arrays) (exclusive : e.Exclusive) (free : e.writer = none)
    (known : e.entities.contains b.entity = true)
    (reached : ∀ id, e.committed.contains b.entity id = true → id ≤ e.lastId b.entity)
    (quiet : ∀ object ∈ objects, b.Quiet e store object) :
    Leads (Store.runIn .write b.writeMany) (objects, store, e)
      (BulkWritten total store e objects) := by
  refine Store.own_leads opened exclusive (fun _ => free) fun e₁ within same => ?_
  have writing : b.Writing e e.committed e₁ := by
    refine ⟨within, ?_, ?_⟩
    · rw [within.known]
      exact known
    · rw [same]
      exact reached
  refine (writeMany_leads total size able quiet writing).mono ?_
  rintro (why | assigned) ⟨found, store', e₂⟩ ⟨unchanged, kept, batch⟩
  · obtain ⟨full, why, ⟨s', writing⟩, grown⟩ := batch
    rw [same] at full grown
    refine ⟨s', writing.within, fun e' past same' => ⟨unchanged, kept, full, why, past, ?_⟩⟩
    rw [same']
    exact grown
  · obtain ⟨room, numbered, s', stored⟩ := batch
    rw [same] at room numbered
    refine ⟨s', stored.writing.within, fun e' past same' =>
      ⟨unchanged, kept, room, numbered, ?_, ?_, ?_⟩⟩
    · rw [past.committed]
      exact past
    · rw [past.committed, ← same]
      exact stored.table
    · rw [same', stored.here, same]

theorem putMany_leads (some : objects ≠ []) (opened : store.closed = false)
    (size : 0 < store.config.chunkSize ∧ store.config.chunkSize ≤ maxIdsPerBlock)
    (able : store.arrays = e.arrays) (exclusive : e.Exclusive) (free : e.writer = none)
    (known : e.entities.contains b.entity = true)
    (reached : ∀ id, e.committed.contains b.entity id = true → id ≤ e.lastId b.entity)
    (quiet : ∀ object ∈ objects, b.Quiet e store object) :
    Leads (b.putMany none) (objects, store, e) (BulkEnd total store e objects) := by
  unfold putMany
  apply Ends.bind (Ends.ofStore (StoreM.ensureOpen_ends opened))
  apply Ends.bind Editing.current_ends
  rw [if_neg (by simpa using some)]
  refine Leads.bind ((runIn_writeMany_leads total opened size able exclusive free known reached
    quiet).mono ?_)
  rintro (why | assigned) ⟨found, store', e'⟩ ⟨rfl, rfl, ended⟩
  · obtain ⟨full, why, past, grown⟩ := ended
    exact ⟨full, why, rfl, rfl, past, grown⟩
  · obtain ⟨room, rfl, stored⟩ := ended
    have whole : (store'.cut (found.map total.idOf)).flatten = found.map total.idOf :=
      Store.flatten_cut
    have even : (bulkAssigned (e.lastId b.entity) (store'.cut (found.map total.idOf))).length =
        found.length := by
      rw [← List.length_map Assigned.id, map_id_bulkAssigned, length_bulkIds, whole,
        List.length_map]
    have kept : ∀ a object, (a, object) ∈ (bulkAssigned (e.lastId b.entity)
        (store'.cut (found.map total.idOf))).zip found → a.fresh = false →
          a.id = total.idOf object := by
      intro a object member old
      have listed : (a, total.idOf object) ∈
          (bulkAssigned (e.lastId b.entity) (store'.cut (found.map total.idOf))).zip
            (store'.cut (found.map total.idOf)).flatten := by
        rw [whole, List.zip_map_right, List.mem_map]
        exact ⟨(a, object), member, rfl⟩
      exact kept_of_mem_bulkAssigned listed old
    refine Ends.bind (writeBack_ends total) ?_
    rw [total.given_eq_zipWith even kept, map_id_bulkAssigned]
    exact Leads.pure ⟨room, rfl, rfl, rfl, stored⟩

omit total in
/-- A bulk put whose transaction cannot begin fails or waits. -/
theorem putMany_unbegun (some : objects ≠ []) (opened : store.closed = false)
    (taken : e.writer ≠ none) :
    Leads (b.putMany none) (objects, store, e) fun r w =>
      (∃ why, r = .error why ∧ e.Unbegun why) ∧ w = (objects, store, e) := by
  unfold putMany
  apply Ends.bind (Ends.ofStore (StoreM.ensureOpen_ends opened))
  apply Ends.bind Editing.current_ends
  rw [if_neg (by simpa using some)]
  exact Leads.bind (Store.runIn_unbegun opened taken fun why unbegun => ⟨⟨why, rfl, unbegun⟩, rfl⟩)

end Total

end Box

end ObjectStore
