import ObjectStore.Proofs.Bulk.Beside

/-! # What a bulk put makes of a draft

The objects of a chunk are numbered by one block, those that go with them are stored, and their
records are. So a chunk that is stored leaves a draft in which the records of its objects are stored
under the ids of `Box.chunkIds`, and the sequence is where the numbering ends; the others follow on
that. On an engine without arrays every object is a chunk of its own.
-/

namespace ObjectStore

open Editing

/-- The id an object carries, 0 if it cannot be asked for. -/
def Binding.carried {T : Type} (binding : Binding T) (object : T) : ObjectId :=
  (binding.id object).toOption.getD 0

/-- The ids that the objects of all chunks carry. -/
def Box.carried {T : Type} (b : Box T) (chunks : List (List T)) : List (List ObjectId) :=
  chunks.map (List.map b.binding.carried)

namespace Draft

variable {base : Engine} {entity : EntityId} {d d' : Draft}

/-! ## Calls -/

theorem idsForPut_run {count : Nat} {first : ObjectId}
    (drawn : idsForPut base entity count d = .ok (first, d')) :
    (d.lastId entity).toNat + count ≤ Engine.maxId ∧ first = d.lastId entity + 1 ∧
      d' = d.setLastId entity (.ofNat ((d.lastId entity).toNat + count)) := by
  unfold idsForPut known at drawn
  split at drawn
  · cases drawn
  · split at drawn
    · split at drawn <;> cases drawn
      refine ⟨‹_›, ?_, rfl⟩
      rw [UInt64.ofNat_add, UInt64.ofNat_toNat]
      rfl
    · cases drawn

theorem idForPut_kept {candidate id : ObjectId} (saved : candidate ≠ 0)
    (drawn : idForPut base entity candidate d = .ok (id, d')) :
    id = candidate ∧ d' = d.observe entity [candidate] := by
  unfold idForPut known at drawn
  rw [if_neg saved] at drawn
  split at drawn <;> cases drawn
  exact ⟨rfl, rfl⟩

theorem putMany_run {ids : List ObjectId} {records : List Bytes} {mode : PutMode}
    (done : putMany base entity ids records mode d = .ok ((), d')) :
    d' = d.stored entity (ids.zip records) (ids.foldl max (d.lastId entity)) := by
  unfold putMany known at done
  split at done
  · split at done
    · split at done
      · split at done <;> cases done
        rfl
      · cases done
    · cases done
  · cases done

theorem stock_stored {entries : List (ObjectId × Bytes)} {last : ObjectId} :
    (d.stored entity entries last).stock entity =
      ((d.view.table entity).insertMany entries, last) := by
  rw [stock, lastId_stored, view_stored, Snapshot.insertMany_table, if_pos rfl]

/-! ## Numbering -/

/-- Ids were drawn for a chunk: there were enough, and the sequence is behind them. -/
structure Drawn (d : Draft) (entity : EntityId) (chunk : List ObjectId) (d' : Draft) : Prop where
  room : Box.HasRoom (d.lastId entity) chunk
  table : d'.view.table entity = d.view.table entity
  last : (Box.chunkIds (d.lastId entity) chunk).foldl max (d'.lastId entity) =
    Box.lastAfter (d.lastId entity) chunk
  others {other : EntityId} : entity ≠ other → d'.lastId other = d.lastId other

namespace Drawn

variable {chunk : List ObjectId} {current first id : ObjectId}

theorem of_none (none : chunk.count 0 = 0) : d.Drawn entity chunk d := by
  have room : Box.HasRoom (d.lastId entity) chunk := by
    have bound := (d.lastId entity).toNat_lt
    simp only [Box.HasRoom, none, Engine.maxId]
    omega
  have ended := Box.foldl_max_chunkIds room
  rw [none, Nat.add_zero, UInt64.ofNat_toNat] at ended
  exact ⟨room, rfl, ended, fun _ => rfl⟩

theorem of_block (drawn : idsForPut base entity (chunk.count 0) d = .ok (first, d')) :
    first = d.lastId entity + 1 ∧ d.Drawn entity chunk d' := by
  obtain ⟨room, rfl, rfl⟩ := idsForPut_run drawn
  refine ⟨rfl, room, rfl, ?_, fun apart => lastId_setLastId.trans (if_neg apart)⟩
  rw [lastId_setLastId, if_pos rfl]
  exact Box.foldl_max_chunkIds room

theorem of_one (drawn : idForPut base entity current d = .ok (id, d')) :
    Box.assign (d.lastId entity + 1) [current] = [⟨id, id ≠ current⟩] ∧
      d.Drawn entity [current] d' := by
  by_cases unsaved : current = 0
  · subst unsaved
    obtain ⟨full, rfl, rfl⟩ := idForPut_new drawn
    have new := Engine.succ_ne_zero full
    have room : Box.HasRoom (d.lastId entity) [0] := by
      have bound := (d.lastId entity).toNat_lt
      simp only [Box.HasRoom, List.count_singleton_self, Engine.maxId] at full ⊢
      omega
    have next : UInt64.ofNat ((d.lastId entity).toNat + [(0 : ObjectId)].count 0) =
        d.lastId entity + 1 := by
      rw [List.count_singleton_self, UInt64.ofNat_add, UInt64.ofNat_toNat]
      rfl
    refine ⟨by simp [Box.assign, new], room, rfl, ?_,
      fun apart => lastId_setLastId.trans (if_neg apart)⟩
    rw [lastId_setLastId, if_pos rfl, ← next]
    exact Box.foldl_max_chunkIds room
  · obtain ⟨rfl, rfl⟩ := idForPut_kept unsaved drawn
    have none : [id].count 0 = 0 := by simp [unsaved]
    have ids : Box.chunkIds (d.lastId entity) [id] = [id] := by
      simp [Box.chunkIds, Box.assign, unsaved]
    refine ⟨by simp [Box.assign, unsaved], (of_none none).room, rfl, ?_,
      fun apart => lastId_setLastId.trans (if_neg apart)⟩
    have kept : max (max (d.lastId entity) id) id = max (d.lastId entity) id := by
      rw [← UInt64.toNat_inj, toNat_max, toNat_max]
      omega
    rw [← (@of_none entity d [id] none).last, ids, observe, lastId_setLastId, if_pos rfl]
    simpa using kept

end Drawn

end Draft

/-! ## Chunks -/

/-- A draft in which the objects of some chunks were stored: under the ids their numbering gives
them, each with what it is written as, and nothing else of their type. They carry their ids only
later. -/
structure Draft.Placed {T : Type} (d : Draft) (b : Box T) (chunks : List (List T))
    (records : List Bytes) (now : List T) (d' : Draft) : Prop where
  carried : ∀ object ∈ chunks.flatten, b.binding.id object = .ok (b.binding.carried object)
  room : Box.HasRoomForAll (d.lastId b.entity) (b.carried chunks)
  written : now.map b.binding.written = chunks.flatten.map b.binding.written
  encoded : List.zipWith Record.made (Box.bulkIds (d.lastId b.entity) (b.carried chunks))
    (chunks.flatten.map b.binding.body) = records.map .ok
  stock : d'.stock b.entity =
    ((d.view.table b.entity).insertMany
      ((Box.bulkIds (d.lastId b.entity) (b.carried chunks)).zip records),
      Box.bulkLast (d.lastId b.entity) (b.carried chunks))

namespace Draft.Placed

variable {T : Type} {b : Box T} {d d₁ d' : Draft} {chunk now now' : List T}
  {chunks : List (List T)} {records records' : List Bytes}

theorem nil : d.Placed b [] [] [] d where
  carried := by simp
  room := trivial
  written := rfl
  encoded := rfl
  stock := by
    rw [Draft.stock]
    exact congrArg (·, _) Std.ExtTreeMap.insertMany_nil.symm

theorem cons (first : d.Placed b [chunk] records now d₁)
    (rest : d₁.Placed b chunks records' now' d') :
    d.Placed b (chunk :: chunks) (records ++ records') (now ++ now') d' := by
  obtain ⟨table, last⟩ := Prod.mk.inj first.stock
  have ids : Box.bulkIds (d.lastId b.entity) (b.carried (chunk :: chunks)) =
      Box.bulkIds (d.lastId b.entity) (b.carried [chunk]) ++
        Box.bulkIds (d₁.lastId b.entity) (b.carried chunks) := by
    rw [last]
    simp [Box.carried, Box.bulkIds, Box.bulkLast]
  have even : (Box.bulkIds (d.lastId b.entity) (b.carried [chunk])).length =
      ([chunk].flatten.map b.binding.body).length := by
    rw [Box.length_bulkIds]
    simp [Box.carried]
  have paired : (Box.bulkIds (d.lastId b.entity) (b.carried [chunk])).length = records.length := by
    have lengths := congrArg List.length first.encoded
    rw [List.length_zipWith, ← even, min_self, List.length_map] at lengths
    exact lengths
  refine ⟨?_, ⟨first.room.1, ?_⟩, ?_, ?_, ?_⟩
  · rw [List.flatten_cons]
    intro object member
    rcases List.mem_append.mp member with here | later
    · exact first.carried object (by simpa using here)
    · exact rest.carried object later
  · have roomLater := rest.room
    rw [last] at roomLater
    exact roomLater
  · rw [List.map_append, first.written, rest.written, List.flatten_cons, List.map_append]
    simp
  · have split : (chunk :: chunks).flatten.map b.binding.body =
        [chunk].flatten.map b.binding.body ++ chunks.flatten.map b.binding.body := by
      simp
    rw [ids, split, List.zipWith_append even, first.encoded, rest.encoded, List.map_append]
  · rw [rest.stock, table, ids, List.zip_append paired, Std.ExtTreeMap.insertMany_append, last]
    rfl

theorem of_steps {α β τ : Type} {R : α → τ → Draft → β → τ → Draft → Prop} (parts : τ → List T)
    (answer : β → List Box.Assigned) {as : List α} {items items' : List τ} {answers : List β}
    (each : ∀ a item d answered item' d', R a item d answered item' d' →
      answer answered =
          Box.assign (d.lastId b.entity + 1) ((parts item).map b.binding.carried) ∧
        ∃ records, d.Placed b [parts item] records (parts item') d')
    (even : as.length = items.length) (steps : Steps R as items d answers items' d') :
    answers.flatMap answer =
        Box.bulkAssigned (d.lastId b.entity) (b.carried (items.map parts)) ∧
      ∃ records, d.Placed b (items.map parts) records (items'.flatMap parts) d' := by
  induction steps with
  | nil =>
      obtain rfl := List.length_eq_zero_iff.mp even.symm
      exact ⟨rfl, [], .nil⟩
  | empty => exact ⟨rfl, [], .nil⟩
  | cons first _ ih =>
      obtain ⟨numbered, records, placed⟩ := each _ _ _ _ _ _ first
      obtain ⟨numbered', records', placed'⟩ := ih (Nat.succ.inj even)
      obtain ⟨-, last⟩ := Prod.mk.inj placed.stock
      refine ⟨?_, records ++ records', placed.cons placed'⟩
      rw [List.flatMap_cons, numbered, numbered', last]
      rfl

end Draft.Placed

/-! ## Programs -/

theorem Editing.Ensures.allocateChunk {σ : Type} {u : Setting} {how : Option TxnMode}
    {w : σ × Draft} {entity : EntityId} {chunk : List ObjectId} {Q : ObjectId → σ × Draft → Prop}
    (h : ∀ first d, Box.assign first chunk = Box.assign (w.2.lastId entity + 1) chunk →
      w.2.Drawn entity chunk d → Q first (w.1, d)) :
    Ensures u how (ofStore (StoreM.ofHost
      (Store.allocateBlock (some u.txn.handle) entity (chunk.count 0)))) w Q := by
  refine .allocateBlock_drawn (fun none => ?_) fun first d drawn => ?_
  · exact h 0 w.2 (Box.assign_of_count_eq_zero none) (.of_none none)
  · obtain ⟨rfl, numbered⟩ := Draft.Drawn.of_block drawn
    exact h _ d rfl numbered

namespace Box

variable {T : Type} {b : Box T} {u : Setting} {how : Option TxnMode} {d : Draft} {id : ObjectId}
  {object : T} {objects : List T}

theorem carried_of_mapM {currents : List ObjectId}
    (read : objects.mapM b.binding.id = .ok currents) :
    (∀ object ∈ objects, b.binding.id object = .ok (b.binding.carried object)) ∧
      currents = objects.map b.binding.carried := by
  induction objects generalizing currents with
  | nil =>
      cases read
      exact ⟨by simp, rfl⟩
  | cons object objects ih =>
      rw [List.mapM_cons] at read
      obtain ⟨id, first, read⟩ := bind_eq_ok.mp read
      obtain ⟨ids, rest, read⟩ := bind_eq_ok.mp read
      cases read
      obtain ⟨each, rfl⟩ := ih rest
      have here : b.binding.carried object = id := by rw [Binding.carried, first]; rfl
      refine ⟨?_, by rw [List.map_cons, here]⟩
      rw [List.forall_mem_cons, here]
      exact ⟨first, each⟩

variable (beside : b.binding.Beside u.store b.entity)
include beside

theorem encodeUnder_ensures : Ensures u how (b.encodeUnder u.txn id) (object, d) fun record w =>
    Record.made id (b.binding.body object) = .ok record ∧
      b.binding.written w.1 = b.binding.written object ∧ w.2.stock b.entity = d.stock b.entity := by
  have encoded {w : T × Draft} (written : b.binding.written w.1 = b.binding.written object)
      (stock : w.2.stock b.entity = d.stock b.entity) :
      Ensures u how (do b.encode id (← Editing.current) : Editing T Bytes) w fun record w =>
        Record.made id (b.binding.body object) = .ok record ∧
          b.binding.written w.1 = b.binding.written object ∧
          w.2.stock b.entity = d.stock b.entity := by
    refine .bind (.current (.encode fun record made => ⟨?_, written, stock⟩))
    rwa [show b.binding.body w.1 = b.binding.body object from congrArg Prod.snd written] at made
  unfold encodeUnder
  split
  · exact .bind ((beside u how id rfl (object, d)).mono fun _ w kept => encoded kept.1 kept.2)
  · exact encoded rfl rfl

theorem encodeAll_ensures {ids : List ObjectId} :
    Ensures u how (Editing.forEach (b.encodeUnder u.txn) ids) (objects, d) fun records w =>
      List.zipWith Record.made ids (objects.map b.binding.body) = records.map .ok ∧
        w.1.map b.binding.written = objects.map b.binding.written ∧
        w.2.stock b.entity = d.stock b.entity := by
  refine (Ensures.forEach (R := fun id object d record object' d' =>
    Record.made id (b.binding.body object) = .ok record ∧
      b.binding.written object' = b.binding.written object ∧
      d'.stock b.entity = d.stock b.entity) fun _ _ _ _ => encodeUnder_ensures beside).mono ?_
  rintro records ⟨now, d'⟩ steps
  dsimp only at steps ⊢
  induction steps with
  | nil => exact ⟨rfl, rfl, rfl⟩
  | empty => exact ⟨by rw [List.map_nil, List.zipWith_nil_right]; rfl, rfl, rfl⟩
  | cons first _ ih =>
      obtain ⟨made, written, stock⟩ := first
      obtain ⟨encoded, written', stock'⟩ := ih
      refine ⟨?_, by rw [List.map_cons, List.map_cons, written, written'], stock'.trans stock⟩
      rw [List.map_cons, List.zipWith_cons_cons, List.map_cons, made, encoded]

theorem writeChunk_ensures : Ensures u how (b.writeChunk u.txn) (objects, d) fun assigned w =>
    how = some .write ∧
      assigned = assign (d.lastId b.entity + 1) (objects.map b.binding.carried) ∧
      ∃ records, d.Placed b [objects] records w.1 w.2 := by
  have read (v : Store × Engine) :
      Ends (objects.mapM b.idOf) v (objects.mapM b.binding.id) v :=
    Binding.Account.idsOf_ends
  refine .bind (.current (.bind (.reading read fun currents asked => ?_)))
  obtain ⟨each, rfl⟩ := carried_of_mapM asked
  refine .bind (.allocateChunk fun first d₁ numbered drawn => ?_)
  dsimp only at numbered drawn
  rw [numbered]
  refine .bind ((encodeAll_ensures beside).mono ?_)
  rintro records ⟨now, d₂⟩ ⟨encoded, written, stock⟩
  refine .bind (.write Draft.serves_putMany rfl rfl fun _ d₃ able put => .pure ⟨able, rfl, ?_⟩)
  obtain rfl := Draft.putMany_run put
  obtain ⟨table, last⟩ := Prod.mk.inj stock
  have ids : bulkIds (d.lastId b.entity) (b.carried [objects]) =
      chunkIds (d.lastId b.entity) (objects.map b.binding.carried) :=
    List.append_nil _
  refine ⟨records, by simpa using each, ⟨drawn.room, trivial⟩, by simpa using written, ?_, ?_⟩
  · rw [ids, List.flatten_singleton]
    exact encoded
  · rw [Draft.stock_stored, table, drawn.table, last, ids]
    exact congrArg _ drawn.last

theorem writeOne_ensures : Ensures u how (b.writeOne u.txn) (object, d) fun a w =>
    how = some .write ∧ [a] = assign (d.lastId b.entity + 1) [b.binding.carried object] ∧
      ∃ records, d.Placed b [[object]] records [w.1] w.2 := by
  refine .bind (.currentId fun current asked => ?_)
  obtain rfl : b.binding.carried object = current := by rw [Binding.carried, asked]; rfl
  rw [write_eq (by simp), bind_assoc]
  refine .bind (.allocateOne fun id d₁ able drawn => ?_)
  obtain ⟨numbered, drawn⟩ := Draft.Drawn.of_one drawn
  rw [storeUnder_eq]
  simp only [bind_assoc, pure_bind]
  refine .bind ((encodeUnder_ensures beside).mono ?_)
  rintro record ⟨now, d₂⟩ ⟨made, written, stock⟩
  refine .bind (.write Draft.serves_put rfl rfl fun _ d₃ _ put => .pure ⟨able, numbered.symm, ?_⟩)
  obtain ⟨-, rfl⟩ := Draft.put_run put
  obtain ⟨table, last⟩ := Prod.mk.inj stock
  have ids : bulkIds (d.lastId b.entity) (b.carried [[object]]) = [id] := by
    simp [Box.carried, bulkIds, chunkIds, numbered]
  refine ⟨[record], by simpa using asked, ⟨drawn.room, trivial⟩, by simpa using written, ?_, ?_⟩
  · rw [ids]
    simpa using made
  · rw [Draft.stock_stored, table, drawn.table, last, ids]
    have ended := drawn.last
    simp only [chunkIds, numbered, List.map_cons, List.map_nil, List.foldl_cons, List.foldl_nil]
      at ended
    exact congrArg _ ended

/-- A batch is stored chunk by chunk, or object by object. -/
theorem writeMany_ensures (some : objects ≠ []) :
    Ensures u how (b.writeMany u.txn) (objects, d) fun assigned w => how = .some .write ∧
      assigned = bulkAssigned (d.lastId b.entity) (b.carried (u.store.cut objects)) ∧
      ∃ records, d.Placed b (u.store.cut objects) records w.1 w.2 := by
  refine .store fun pool => ?_
  rw [Store.cut]
  refine .ite (fun arrays => .bind (.forChunks ?_)) fun single => .bind (.current ?_)
  case refine_1 =>
    rw [if_pos arrays]
    generalize cut : chunked _ objects objects = chunks
    have filled : chunks ≠ [] := fun none => some <| by
      rw [← flatten_chunked (Nat.le_refl objects.length), cut, none]
      rfl
    refine (Ensures.forEach (R := fun _ part d assigned part' d' => how = .some .write ∧
      assigned = assign (d.lastId b.entity + 1) (part.map b.binding.carried) ∧
      ∃ records, d.Placed b [part] records part' d')
      fun _ part _ _ => writeChunk_ensures beside).mono ?_
    rintro assigned ⟨now, d'⟩ steps
    refine .pure ⟨steps.holds filled rfl fun _ _ _ _ _ _ written => written.1, ?_⟩
    have placed := Draft.Placed.of_steps id id (fun _ _ _ _ _ _ written => written.2) rfl steps
    simpa only [List.flatMap_id, List.map_id] using placed
  case refine_2 =>
    rw [if_neg single]
    refine (Ensures.forEach (R := fun _ object d a object' d' => how = .some .write ∧
      [a] = assign (d.lastId b.entity + 1) [b.binding.carried object] ∧
      ∃ records, d.Placed b [[object]] records [object'] d')
      fun _ object _ _ => writeOne_ensures beside).mono ?_
    rintro assigned ⟨now, d'⟩ steps
    refine ⟨steps.holds some rfl fun _ _ _ _ _ _ written => written.1, ?_⟩
    have placed := Draft.Placed.of_steps (fun object => [object]) (fun a => [a])
      (fun _ _ _ _ _ _ written => written.2) rfl steps
    simpa only [List.flatMap_singleton'] using placed

end Box

end ObjectStore
