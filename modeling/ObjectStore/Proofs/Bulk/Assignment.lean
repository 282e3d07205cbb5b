import ObjectStore.Proofs.Bulk.Placed
import ObjectStore.Proofs.Links.Standing
import ObjectStore.Proofs.Store.Atomicity

/-! # Which object of a batch is given which id

A bulk put that succeeds answers an id for every object, the one it carries or a new one. New ids
ascend along the whole batch and lie behind the sequence; those of one chunk follow each other
without a gap. The objects carry their ids afterwards. Of each id that is answered the record of the
last object with it is stored, and no other record of the entity type has changed.
-/

namespace ObjectStore

open Catalog Editing

/-! ## New ids -/

namespace Box

variable {next last : ObjectId} {chunk ids : List ObjectId}
  {pairs pairs' : List (ObjectId × ObjectId)}

/-- Of ids that are carried, each with the one that is answered, the answers for those that were
0. -/
def newIds (pairs : List (ObjectId × ObjectId)) : List ObjectId :=
  (pairs.filter (·.1 = 0)).map Prod.snd

theorem newIds_append : newIds (pairs ++ pairs') = newIds pairs ++ newIds pairs' := by
  rw [newIds, List.filter_append, List.map_append]
  rfl

theorem newIds_assign (room : next.toNat + chunk.count 0 ≤ 2 ^ 64) :
    (newIds (chunk.zip ((assign next chunk).map Assigned.id))).map UInt64.toNat =
      List.range' next.toNat (chunk.count 0) := by
  induction chunk generalizing next with
  | nil => rfl
  | cons current chunk ih =>
      by_cases unsaved : current = 0
      · subst unsaved
        rw [List.count_cons_self] at room ⊢
        obtain ⟨bumped, later⟩ := room_succ room
        have rest := ih later
        have block : List.range' (next + 1).toNat (chunk.count 0) =
            List.range' (next.toNat + 1) (chunk.count 0) := by
          by_cases none : chunk.count 0 = 0
          · rw [none]
            rfl
          · rw [bumped (by omega)]
        rw [assign, if_pos rfl, List.map_cons, List.zip_cons_cons, List.range'_succ, ← block,
          ← rest]
        rfl
      · rw [List.count_cons_of_ne unsaved] at room ⊢
        rw [assign, if_neg unsaved, List.map_cons, List.zip_cons_cons, ← ih room]
        simp [newIds, unsaved]

theorem newIds_chunk (room : HasRoom last chunk) :
    (last :: newIds (chunk.zip (chunkIds last chunk))).map UInt64.toNat =
      List.range' last.toNat (chunk.count 0 + 1) := by
  obtain ⟨fits, bumped⟩ := room_next room
  have block := newIds_assign fits
  rw [List.map_cons, chunkIds, block, List.range'_succ]
  by_cases none : chunk.count 0 = 0
  · rw [none]
    rfl
  · rw [bumped (by omega)]

/-- The new ids of all chunks ascend, from the sequence on, and those of one follow each other. -/
theorem newIds_bulk {parts : List (List (ObjectId × ObjectId))}
    (room : HasRoomForAll last (parts.map (List.map Prod.fst)))
    (numbered : parts.flatten.map Prod.snd = bulkIds last (parts.map (List.map Prod.fst))) :
    (last :: newIds parts.flatten).Pairwise (· < ·) ∧ ∀ part ∈ parts, ∃ first,
      (newIds part).map UInt64.toNat = List.range' first (newIds part).length := by
  induction parts generalizing last with
  | nil => exact ⟨List.pairwise_singleton .., by simp⟩
  | cons part parts ih =>
      rw [List.flatten_cons, List.map_append, List.map_cons, bulkIds] at numbered
      have even : (part.map Prod.snd).length = (chunkIds last (part.map Prod.fst)).length := by
        simp [chunkIds]
      obtain ⟨here, later⟩ := List.append_inj numbered even
      obtain ⟨ascending, blocks⟩ := ih room.2 later
      have chunk := newIds_chunk room.1
      rw [← here, ← List.unzip_fst, ← List.unzip_snd, List.zip_unzip, List.unzip_fst] at chunk
      -- the ids of this chunk ascend, and none is past the sequence after it
      have first : (last :: newIds part).Pairwise (· < ·) := by
        have less : ((last :: newIds part).map UInt64.toNat).Pairwise (· < ·) :=
          chunk ▸ List.pairwise_lt_range'
        exact (List.pairwise_map.mp less).imp UInt64.lt_iff_toNat_lt.mpr
      have below : ∀ id ∈ last :: newIds part, id ≤ lastAfter last (part.map Prod.fst) := by
        refine List.forall_mem_cons.mpr ⟨last_le_lastAfter room.1, fun id member => ?_⟩
        refine le_lastAfter room.1 ?_
        rw [← here]
        obtain ⟨pair, listed, rfl⟩ := List.mem_map.mp member
        exact List.mem_map_of_mem (List.mem_of_mem_filter listed)
      refine ⟨?_, List.forall_mem_cons.mpr ⟨⟨last.toNat + 1, ?_⟩, blocks⟩⟩
      · rw [List.flatten_cons, newIds_append, ← List.cons_append]
        obtain ⟨past, ascending⟩ := List.pairwise_cons.mp ascending
        exact List.pairwise_append.mpr ⟨first, ascending, fun id member id' member' =>
          Std.lt_of_le_of_lt (below id member) (past id' member')⟩
      · rw [List.map_cons, List.range'_succ, List.cons.injEq] at chunk
        have size := congrArg List.length chunk.2
        rw [List.length_map, List.length_range'] at size
        rw [chunk.2, size]

end Box

/-! ## Records -/

theorem getElem?_insertMany_last {t : Table} {before after : List (ObjectId × Bytes)}
    {id : ObjectId} {record : Bytes} (last : id ∉ after.map Prod.fst) :
    (t.insertMany (before ++ (id, record) :: after))[id]? = some record := by
  rw [Std.ExtTreeMap.insertMany_append, Std.ExtTreeMap.insertMany_cons,
    getElem?_insertMany_other last, Std.ExtTreeMap.getElem?_insert_self]

theorem Box.flatten_carried {T : Type} {b : Box T} {chunks : List (List T)} :
    (b.carried chunks).flatten = chunks.flatten.map b.binding.carried := by
  rw [carried, ← List.map_flatten]

namespace Draft.Placed

variable {T : Type} {b : Box T} {d d' : Draft} {chunks : List (List T)} {records : List Bytes}
  {now : List T} {id : ObjectId}

theorem length_ids :
    (Box.bulkIds (d.lastId b.entity) (b.carried chunks)).length = chunks.flatten.length := by
  rw [Box.length_bulkIds, Box.flatten_carried, List.length_map]

variable (h : d.Placed b chunks records now d')
include h

theorem map_carried : now.map b.binding.carried = chunks.flatten.map b.binding.carried := by
  have same := congrArg (List.map fun written => written.1.toOption.getD 0) h.written
  rwa [List.map_map, List.map_map] at same

theorem map_body : now.map b.binding.body = chunks.flatten.map b.binding.body := by
  have same := congrArg (List.map Prod.snd) h.written
  rwa [List.map_map, List.map_map] at same

theorem carried_now : ∀ object ∈ now, b.binding.id object = .ok (b.binding.carried object) := by
  intro object member
  have listed := List.mem_map_of_mem (f := b.binding.written) member
  rw [h.written] at listed
  obtain ⟨object', member', same⟩ := List.mem_map.mp listed
  have carried := h.carried object' member'
  have ids : b.binding.id object' = b.binding.id object := congrArg Prod.fst same
  rw [Binding.carried, ids] at carried
  exact carried

theorem last_stored {before after : List (T × ObjectId)} {object : T}
    (listed : chunks.flatten.zip (Box.bulkIds (d.lastId b.entity) (b.carried chunks)) =
      before ++ (object, id) :: after) (last : id ∉ after.map Prod.snd) :
    ∃ record, Record.made id (b.binding.body object) = .ok record ∧
      d'.view.record? b.entity id = some record := by
  obtain ⟨table, -⟩ := Prod.mk.inj h.stock
  have encoded := h.encoded
  have even := @length_ids _ b d chunks
  generalize Box.bulkIds (d.lastId b.entity) (b.carried chunks) = ids at *
  have objects := congrArg (List.map Prod.fst) listed
  have given := congrArg (List.map Prod.snd) listed
  rw [List.map_fst_zip (Nat.le_of_eq even.symm), List.map_append, List.map_cons] at objects
  rw [List.map_snd_zip (Nat.le_of_eq even), List.map_append, List.map_cons] at given
  subst given
  rw [objects, List.map_append, List.map_cons, List.zipWith_append (by simp),
    List.zipWith_cons_cons] at encoded
  obtain ⟨records₁, rest, rfl, front, back⟩ := List.map_eq_append_iff.mp encoded.symm
  obtain ⟨record, records₂, rfl, made, -⟩ := List.map_eq_cons_iff.mp back
  refine ⟨record, made.symm, ?_⟩
  have paired : (before.map Prod.snd).length = records₁.length := by
    have lengths := congrArg List.length front
    simpa using lengths.symm
  rw [Snapshot.record?, table, List.zip_append paired, List.zip_cons_cons]
  refine getElem?_insertMany_last fun member => last ?_
  obtain ⟨entry, paired, rfl⟩ := List.mem_map.mp member
  exact (List.of_mem_zip paired).1

theorem other_kept (other : id ∉ Box.bulkIds (d.lastId b.entity) (b.carried chunks)) :
    d'.view.record? b.entity id = d.view.record? b.entity id := by
  obtain ⟨table, -⟩ := Prod.mk.inj h.stock
  rw [Snapshot.record?, Snapshot.record?, table]
  refine getElem?_insertMany_other fun member => other ?_
  obtain ⟨entry, listed, rfl⟩ := List.mem_map.mp member
  exact (List.of_mem_zip listed).1

end Draft.Placed

/-! ## Programs -/

namespace Box

variable {T : Type} {b : Box T} {store : Store} {e : Engine} {txn : Option Txn} {objects : List T}
  (orderly : b.binding.Orderly store b.entity)
include orderly

theorem writeBack_ensures {u : Setting} {how : Option TxnMode} {assigned : List Assigned}
    {d : Draft} (even : assigned.length = objects.length)
    (asked : ∀ object ∈ objects, b.binding.id object = .ok (b.binding.carried object))
    (kept : ∀ a object, (a, object) ∈ assigned.zip objects → a.fresh = false →
      a.id = b.binding.carried object) :
    Ensures u how (b.writeBack assigned) (objects, d) fun _ w => w.2 = d ∧
      w.1.map b.binding.written =
        ((assigned.map Assigned.id).map .ok).zip (objects.map b.binding.body) := by
  refine .bind ((Ensures.forEach (R := fun a object d _ object' d' => d' = d ∧
    b.binding.written object' = (.ok a.id, b.binding.body object)) ?_).mono ?_)
  · intro a object member d
    have here := asked object (List.of_mem_zip member).2
    refine .ite (fun _ => .assignId fun object' given => ?_) fun old => .pure ⟨rfl, ?_⟩
    · exact ⟨rfl, orderly.carries here given⟩
    · rw [Binding.written, here, kept a object member (by simpa using old)]
  · rintro answers ⟨now, d'⟩ steps
    refine .pure ?_
    clear asked kept
    dsimp only at steps ⊢
    induction steps with
    | nil =>
        obtain rfl := List.length_eq_zero_iff.mp even.symm
        exact ⟨rfl, rfl⟩
    | empty =>
        obtain rfl := List.length_eq_zero_iff.mp even
        exact ⟨rfl, rfl⟩
    | cons first _ ih =>
        obtain ⟨rfl, written⟩ := first
        obtain ⟨rfl, written'⟩ := ih (Nat.succ.inj even)
        refine ⟨rfl, ?_⟩
        rw [List.map_cons, written, written']
        rfl

theorem writeBack_placed {d d' : Draft} {chunks : List (List T)} {records : List Bytes}
    {now : List T} (placed : d.Placed b chunks records now d') :
    Leads (b.writeBack (bulkAssigned (d.lastId b.entity) (b.carried chunks))) (now, store, e)
      fun r w => r = .ok () → w.2 = (store, e) ∧ w.1.map b.binding.written =
        ((bulkIds (d.lastId b.entity) (b.carried chunks)).map .ok).zip
          (chunks.flatten.map b.binding.body) := by
  have even : (bulkAssigned (d.lastId b.entity) (b.carried chunks)).length = now.length := by
    rw [← List.length_map Assigned.id, map_id_bulkAssigned, Draft.Placed.length_ids,
      ← List.length_map b.binding.written, ← placed.written, List.length_map]
  have kept (a : Assigned) (object : T) (member : (a, object) ∈
      (bulkAssigned (d.lastId b.entity) (b.carried chunks)).zip now) (old : a.fresh = false) :
      a.id = b.binding.carried object := by
    have listed : (a, b.binding.carried object) ∈
        (bulkAssigned (d.lastId b.entity) (b.carried chunks)).zip (b.carried chunks).flatten := by
      rw [flatten_carried, ← placed.map_carried, List.zip_map_right]
      exact List.mem_map_of_mem member
    exact kept_of_mem_bulkAssigned listed old
  -- whatever the engine is, it is one with a draft under some handle
  obtain ⟨how, view, held, -⟩ := e.exists_held 0
  have back := @writeBack_ensures _ b store now orderly ⟨store, e, ⟨0, .write⟩⟩ how _
    (e.draft view) even placed.carried_now kept
  simp only [Ensures, held] at back
  refine Leads.mono back fun r w ended succeeded => ?_
  obtain ⟨⟨now', _⟩, rfl, rfl, written⟩ := ended () succeeded
  refine ⟨by rw [held], ?_⟩
  rw [written, map_id_bulkAssigned, placed.map_body]

/-- A bulk put that succeeds, in a transaction it is given or in its own, has stored its objects
    chunk by chunk, and they carry their ids. -/
theorem putMany_placed (exclusive : e.Exclusive) (some : objects ≠ []) :
    Leads (b.putMany txn) (objects, store, e) fun r w => ∀ ids, r = .ok ids →
      ids = bulkIds (e.lastId b.entity) (b.carried (store.cut objects)) ∧
      w.1.map b.binding.written = (ids.map .ok).zip (objects.map b.binding.body) ∧
      ∃ mode view records now d, e.Stands (txn.map Txn.handle) mode view ∧
        w.2 = (store, e.redrafted mode d (txn.map Txn.handle)) ∧
        (e.draft view).Placed b (store.cut objects) records now d := by
  cases closed : store.closed with
  | true =>
      refine Ends.bind_error (Ends.ofStore (StoreM.ensureOpen_closed closed)) ?_
      rintro _ ⟨⟩
  | false =>
      refine Ends.bind (Ends.ofStore (StoreM.ensureOpen_ends closed)) ?_
      refine Ends.bind Editing.current_ends ?_
      rw [if_neg (by simpa using some)]
      have written := @Store.given_or_own (List T) (List Assigned) store e objects
        b.writeMany txn (fun _ d assigned w =>
          assigned = bulkAssigned (d.lastId b.entity) (b.carried (store.cut objects)) ∧
          ∃ records, d.Placed b (store.cut objects) records w.1 w.2) exclusive
        fun base txn how d _ => (writeMany_ensures orderly.beside some).mono fun _ w stored =>
          ⟨.write, stored.1, stored.2⟩
      cases txn <;>
      · refine written.onward (fun assigned w ended => ?_) fun why w _ ids failed => by cases failed
        obtain ⟨mode, view, now, d, stands, rfl, rfl, records, placed⟩ := ended assigned rfl
        refine (writeBack_placed orderly placed).onward (fun _ w back => ?_) ?_
        · obtain ⟨same, written⟩ := back rfl
          refine Leads.pure ?_
          rintro _ ⟨⟩
          rw [map_id_bulkAssigned]
          rw [Store.flatten_cut] at written
          exact ⟨rfl, written, mode, view, records, now, d, stands, same, placed⟩
        · rintro why w - _ ⟨⟩

end Box

/-! ## Sessions -/

namespace Session

variable {T : Type} {s s' : Session} {b : Box T} {txn : Option Txn}

/-- Objects were put, and an id was answered for each of them. `before` and `after` are the records
then and now, and `now` are the objects. -/
structure PutInOrder (s : Session) (b : Box T) (objects : List T) (ids : List ObjectId)
    (now : List T) (before after : Snapshot) : Prop where
  length : ids.length = objects.length
  /-- An object that carries an id keeps it. -/
  kept {object : T} {current id : ObjectId} : (object, id) ∈ objects.zip ids →
    b.binding.id object = .ok current → current ≠ 0 → id = current
  /-- The ids of the others ascend along the batch, from behind the sequence on. -/
  ascending : (s.host.machine.engine.lastId b.entity ::
    Box.newIds ((objects.map b.binding.carried).zip ids)).Pairwise (· < ·)
  /-- With arrays those of one chunk follow each other without a gap. -/
  consecutive : s.store.arrays = true →
    ∀ part ∈ chunked s.store.config.chunkSize ((objects.map b.binding.carried).zip ids)
        ((objects.map b.binding.carried).zip ids),
      ∃ first, (Box.newIds part).map UInt64.toNat = List.range' first (Box.newIds part).length
  carried : now.map b.binding.id = ids.map .ok
  body : now.map b.binding.body = objects.map b.binding.body
  /-- The record of the last object with an id is stored under it. -/
  stored {earlier later : List (T × ObjectId)} {object : T} {id : ObjectId} :
    objects.zip ids = earlier ++ (object, id) :: later → id ∉ later.map Prod.snd →
      ∃ record, Record.made id (b.binding.body object) = .ok record ∧
        after.record? b.entity id = some record
  others {id : ObjectId} : id ∉ ids → after.record? b.entity id = before.record? b.entity id

/-- What a bulk put does if it succeeds. -/
structure PutsInOrder (s : Session) (b : Box T) (txn : Option Txn) : Prop where
  /-- Nothing is done for no objects. -/
  none : s.store.closed = false → (b.putMany txn).run [] s = ((.ok [], []), s)
  some {objects now : List T} {ids : List ObjectId} {s' : Session} : objects ≠ [] →
    (b.putMany txn).run objects s = ((.ok ids, now), s') → ∃ before after,
      s.host.machine.engine.view (txn.map Txn.handle) = .ok before ∧
      s'.host.machine.engine.view (txn.map Txn.handle) = .ok after ∧
      s.PutInOrder b objects ids now before after

theorem putInOrder_of_placed {objects now stored : List T} {ids : List ObjectId}
    {before : Snapshot} {records : List Bytes} {d : Draft}
    (numbered : ids = Box.bulkIds (s.host.machine.engine.lastId b.entity)
      (b.carried (s.store.cut objects)))
    (written : now.map b.binding.written = (ids.map .ok).zip (objects.map b.binding.body))
    (placed : (s.host.machine.engine.draft before).Placed b (s.store.cut objects) records stored
      d) : s.PutInOrder b objects ids now before d.view := by
  have whole : (s.store.cut objects).flatten = objects := Store.flatten_cut
  have even : ids.length = objects.length := by
    rw [numbered, ← congrArg List.length whole]
    exact Draft.Placed.length_ids (d := s.host.machine.engine.draft before)
  -- the chunks of the ids are those of the objects
  have parts : (s.store.cut ((objects.map b.binding.carried).zip ids)).map (List.map Prod.fst) =
      b.carried (s.store.cut objects) := by
    rw [← Store.cut_map, List.map_fst_zip (by simp [even]), Store.cut_map, Box.carried]
  have new := @Box.newIds_bulk (s.host.machine.engine.lastId b.entity)
    (s.store.cut ((objects.map b.binding.carried).zip ids)) (parts ▸ placed.room) <| by
      rw [Store.flatten_cut, List.map_snd_zip (by simp [even]), parts, numbered]
  rw [Store.flatten_cut] at new
  refine ⟨even, ?_, new.1, ?_, ?_, ?_, ?_, ?_⟩
  · intro object current id member carried saved
    obtain ⟨i, listed⟩ := List.mem_iff_getElem?.mp member
    obtain ⟨here, given⟩ := List.getElem?_zip_eq_some.mp listed
    have asked : b.binding.carried object = current := by rw [Binding.carried, carried]; rfl
    have listed : (b.carried (s.store.cut objects)).flatten[i]? = Option.some current := by
      rw [Box.flatten_carried, whole, List.getElem?_map, here, Option.map_some, asked]
    rw [numbered, Box.getElem?_bulkIds listed saved] at given
    exact (Option.some.inj given).symm
  · intro arrays part member
    refine new.2 part ?_
    rwa [Store.cut, if_pos arrays]
  · have ids := congrArg (List.map Prod.fst) written
    rw [List.map_map, List.map_fst_zip (by simp [even])] at ids
    exact ids
  · have bodies := congrArg (List.map Prod.snd) written
    rw [List.map_map, List.map_snd_zip (by simp [even])] at bodies
    exact bodies
  · intro earlier later object id listed last
    rw [← whole, numbered] at listed
    exact placed.last_stored listed last
  · intro id other
    refine placed.other_kept ?_
    rwa [numbered] at other

/-- A bulk put that succeeds puts its objects in order. -/
theorem bulk_put_in_order (running : s.Running) (orderly : b.binding.Orderly s.store b.entity) :
    s.PutsInOrder b txn := by
  constructor
  case none =>
    intro opened
    obtain ⟨host, store⟩ := s
    obtain ⟨config, model, strategy, arrays, closed, pool, queue⟩ := store
    obtain rfl : closed = false := opened
    rfl
  case some =>
    intro objects now ids s' some done
    obtain ⟨arrays, arises⟩ := running.engine
    have shows : Viewed.Shows s (s.store, s.host.machine.engine) := ⟨⟨running.faults, rfl⟩, rfl⟩
    have put : Leads (b.putMany txn) (objects, s.store, s.host.machine.engine) _ :=
      Box.putMany_placed orderly arises.exclusive some
    obtain ⟨⟨_, store, e⟩, ⟨rfl, shown⟩, ended⟩ := put.of_run ⟨rfl, shows⟩ done
    obtain ⟨numbered, written, mode, before, records, stored, d, stands, same, placed⟩ :=
      ended ids rfl
    obtain ⟨rfl, rfl⟩ := Prod.mk.inj same
    refine ⟨before, d.view, stands.seen, ?_, putInOrder_of_placed numbered written placed⟩
    rw [show s'.host.machine.engine = _ from shown.1.2]
    exact stands.redrafted.seen

/-- Notes with ids and without, of which two carry the same. -/
def unevenNotes : List Note :=
  [{ text := "a", tags := some [{ name := "t" }] }, { id := 7, text := "b" }, { text := "c" },
    { id := 7, text := "d" }, { text := "e", tags := some [⟨1, "t"⟩, { name := "u" }] }]

/-- The id 7 in the first chunk of two notes moves the sequence for the others. -/
theorem uneven_notes_in_order : ∃ s now s' before after,
    fresh true { chunkSize := 2 } = .ok s ∧
    (noteBox.putMany none).run unevenNotes s = ((.ok [1, 7, 8, 7, 9], now), s') ∧
    s.PutInOrder noteBox unevenNotes [1, 7, 8, 7, 9] now before after := by
  have eval : (fresh true { chunkSize := 2 }).toOption.map (fun s =>
      ((noteBox.putMany none).run unevenNotes s).1.1.toOption) = some (some [1, 7, 8, 7, 9]) := by
    decide +kernel
  obtain ⟨s, opened, answered⟩ := of_eval eval
  have built : Model.build smallModel.entities [(noteTags, tagBinding.name)] = .ok smallModel := rfl
  have model : s.store.model = smallModel := (fresh_of_opened opened).opened.model_eq
  have orderly : noteBox.binding.Orderly s.store noteBox.entity :=
    noteBinding_orderly (model ▸ Model.distinct_of_build built) (model ▸ rfl)
  have done : (noteBox.putMany none).run unevenNotes s = ((.ok [1, 7, 8, 7, 9], _), _) :=
    Prod.ext (Prod.ext (ok_of_toOption answered) rfl) rfl
  obtain ⟨before, after, -, -, ordered⟩ :=
    (bulk_put_in_order (running_of_openOn opened) orderly).some (by simp [unevenNotes]) done
  exact ⟨s, _, _, before, after, opened, done, ordered⟩

end Session

end ObjectStore
