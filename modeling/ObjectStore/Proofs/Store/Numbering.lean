import Mathlib.Algebra.Group.Nat.Defs
import ObjectStore.Store.Put
import ObjectStore.Proofs.Engine.Sequences

/-! # Ids of a bulk put

The objects of a bulk put are numbered chunk by chunk. The new ids of a chunk are the ones directly
behind the sequence, which then moves past them and past the ids the chunk's other objects carry.
So the new ids of a chunk are larger than all ids of the chunks before it, but nothing keeps them
apart from ids that are carried in the same chunk or in a later one.
-/

namespace ObjectStore.Box

variable {next last id x : ObjectId} {ids chunk : List ObjectId} {chunks : List (List ObjectId)}

/-! ## One chunk -/

@[simp] theorem length_assign : (assign next ids).length = ids.length := by
  induction ids generalizing next with
  | nil => rfl
  | cons id ids ih =>
      simp only [assign]
      split <;> simp [ih]

theorem assign_of_count_eq_zero {next' : ObjectId} (none : ids.count 0 = 0) :
    assign next ids = assign next' ids := by
  induction ids with
  | nil => rfl
  | cons id ids ih =>
      rw [List.count_cons] at none
      have given : id ≠ 0 := by
        rintro rfl
        simp at none
      simp only [assign, given, if_false]
      rw [ih (by omega)]

theorem room_succ {count : Nat} (room : next.toNat + (count + 1) ≤ 2 ^ 64) :
    (0 < count → (next + 1).toNat = next.toNat + 1) ∧ (next + 1).toNat + count ≤ 2 ^ 64 := by
  have bound := (next + 1).toNat_lt
  have sum : (next + 1).toNat = (next.toNat + 1) % 2 ^ 64 := UInt64.toNat_add ..
  omega

theorem mem_assign (room : next.toNat + ids.count 0 ≤ 2 ^ 64) :
    x ∈ (assign next ids).map Assigned.id ↔
      x ∈ ids ∧ x ≠ 0 ∨ next.toNat ≤ x.toNat ∧ x.toNat < next.toNat + ids.count 0 := by
  induction ids generalizing next with
  | nil =>
      simp only [assign, List.map_nil, List.not_mem_nil, List.count_nil, false_and, false_or,
        false_iff]
      omega
  | cons id ids ih =>
      by_cases zero : id = 0
      · subst zero
        rw [List.count_cons_self] at room
        obtain ⟨bumped, later⟩ := room_succ room
        have same : x = next ↔ x.toNat = next.toNat := UInt64.toNat_inj.symm
        simp only [assign, if_true, List.map_cons, List.mem_cons, List.count_cons_self, ih later]
        grind
      · rw [List.count_cons_of_ne zero] at room ⊢
        simp only [assign, zero, if_false, List.map_cons, List.mem_cons, ih room]
        grind

theorem nodup_assign (room : next.toNat + ids.count 0 ≤ 2 ^ 64)
    (distinct : (ids.filter (· ≠ 0)).Nodup) :
    ((assign next ids).map Assigned.id).Nodup ↔
      ∀ x ∈ ids, x = 0 ∨ x.toNat < next.toNat ∨ next.toNat + ids.count 0 ≤ x.toNat := by
  induction ids generalizing next with
  | nil => simp [assign]
  | cons id ids ih =>
      by_cases zero : id = 0
      · subst zero
        rw [List.count_cons_self] at room
        obtain ⟨bumped, later⟩ := room_succ room
        simp only [ne_eq, not_true_eq_false, decide_false, Bool.false_eq_true, not_false_eq_true,
          List.filter_cons_of_neg] at distinct
        simp only [assign, if_true, List.map_cons, List.nodup_cons, mem_assign later,
          ih later distinct, List.count_cons_self, List.forall_mem_cons]
        have same : ∀ x : ObjectId, x = next ↔ x.toNat = next.toNat :=
          fun x => UInt64.toNat_inj.symm
        constructor
        · rintro ⟨apart, rest⟩
          refine ⟨.inl trivial, fun x member => ?_⟩
          have := rest x member
          have := same x
          grind
        · rintro ⟨-, rest⟩
          refine ⟨?_, fun x member => ?_⟩
          · have := rest next
            grind
          · have := rest x member
            grind
      · rw [List.count_cons_of_ne zero] at room ⊢
        simp only [zero, ne_eq, not_false_eq_true, decide_true, List.filter_cons_of_pos,
          List.nodup_cons, List.mem_filter] at distinct
        simp only [assign, zero, if_false, List.map_cons, List.nodup_cons, mem_assign room,
          ih room distinct.2, List.forall_mem_cons, false_or]
        grind

theorem foldl_max_assign (room : next.toNat + ids.count 0 ≤ 2 ^ 64)
    (past : next.toNat + ids.count 0 ≤ last.toNat + 1) :
    ((assign next ids).map Assigned.id).foldl max last = ids.foldl max last := by
  induction ids generalizing next last with
  | nil => rfl
  | cons id ids ih =>
      by_cases zero : id = 0
      · subst zero
        rw [List.count_cons_self] at room past
        obtain ⟨bumped, later⟩ := room_succ room
        have kept : max last next = last := by
          rw [← UInt64.toNat_inj, toNat_max]
          omega
        have same : max last 0 = last := by
          rw [← UInt64.toNat_inj, toNat_max]
          simp
        simp only [assign, if_true, List.map_cons, List.foldl_cons, kept, same]
        refine ih later ?_
        have bound := (next + 1).toNat_lt
        have sum : (next + 1).toNat = (next.toNat + 1) % 2 ^ 64 := UInt64.toNat_add ..
        omega
      · rw [List.count_cons_of_ne zero] at room past
        simp only [assign, zero, if_false, List.map_cons, List.foldl_cons]
        refine ih room ?_
        rw [toNat_max]
        omega

theorem fresh_of_mem_assign {a : Assigned} (new : ∀ id ∈ ids, id = 0)
    (member : a ∈ assign next ids) : a.fresh = true := by
  induction ids generalizing next with
  | nil => cases member
  | cons id ids ih =>
      obtain rfl : id = 0 := new id (.head _)
      rw [assign, if_pos rfl] at member
      rcases List.mem_cons.mp member with rfl | later
      · rfl
      · exact ih (fun id member => new id (.tail _ member)) later

theorem pairwise_assign (room : next.toNat + ids.count 0 ≤ 2 ^ 64) (new : ∀ id ∈ ids, id = 0) :
    ((assign next ids).map Assigned.id).Pairwise (· < ·) := by
  induction ids generalizing next with
  | nil => exact .nil
  | cons id ids ih =>
      have later : ∀ id ∈ ids, id = 0 := fun id member => new id (.tail _ member)
      obtain rfl : id = 0 := new id (.head _)
      rw [List.count_cons_self] at room
      obtain ⟨bumped, space⟩ := room_succ room
      simp only [assign, if_true, List.map_cons, List.pairwise_cons]
      refine ⟨fun x member => ?_, ih space later⟩
      rcases (mem_assign space).mp member with ⟨carried, nonzero⟩ | ⟨above, below⟩
      · exact absurd (later x carried) nonzero
      · have step := bumped (by omega)
        exact UInt64.lt_iff_toNat_lt.mpr (by omega)

/-! ## All chunks -/

/-- The ids of a chunk, given the sequence before it. -/
def chunkIds (last : ObjectId) (chunk : List ObjectId) : List ObjectId :=
  (assign (last + 1) chunk).map Assigned.id

/-- The sequence after a chunk: past its new ids and those its objects carry. -/
def lastAfter (last : ObjectId) (chunk : List ObjectId) : ObjectId :=
  chunk.foldl max (.ofNat (last.toNat + chunk.count 0))

/-- There are enough ids left for a chunk. -/
def HasRoom (last : ObjectId) (chunk : List ObjectId) : Prop :=
  last.toNat + chunk.count 0 ≤ Engine.maxId

/-- The ids of all chunks. -/
def bulkIds : (last : ObjectId) → List (List ObjectId) → List ObjectId
  | _, [] => []
  | last, chunk :: chunks => chunkIds last chunk ++ bulkIds (lastAfter last chunk) chunks

/-- The ids of all chunks, each with whether it is new to its object. -/
def bulkAssigned : (last : ObjectId) → List (List ObjectId) → List Assigned
  | _, [] => []
  | last, chunk :: chunks =>
    assign (last + 1) chunk ++ bulkAssigned (lastAfter last chunk) chunks

/-- The sequence after all chunks. -/
def bulkLast (last : ObjectId) (chunks : List (List ObjectId)) : ObjectId :=
  chunks.foldl lastAfter last

/-- There are enough ids left for all chunks. -/
def HasRoomForAll : (last : ObjectId) → List (List ObjectId) → Prop
  | _, [] => True
  | last, chunk :: chunks => HasRoom last chunk ∧ HasRoomForAll (lastAfter last chunk) chunks

/-- No block of new ids holds an id that is carried in its chunk or in a later one. -/
def Clear : (last : ObjectId) → List (List ObjectId) → Prop
  | _, [] => True
  | last, chunk :: chunks =>
    (∀ x ∈ chunk ++ chunks.flatten, x ≤ last ∨ last.toNat + chunk.count 0 < x.toNat) ∧
      Clear (lastAfter last chunk) chunks

section Chunk

variable (room : HasRoom last chunk)
include room

theorem toNat_block : (UInt64.ofNat (last.toNat + chunk.count 0)).toNat =
    last.toNat + chunk.count 0 := by
  simp only [HasRoom, Engine.maxId] at room
  rw [UInt64.toNat_ofNat', Nat.mod_eq_of_lt (by omega)]

theorem room_next : (last + 1).toNat + chunk.count 0 ≤ 2 ^ 64 ∧
    (0 < chunk.count 0 → (last + 1).toNat = last.toNat + 1) := by
  simp only [HasRoom, Engine.maxId] at room
  have bound := (last + 1).toNat_lt
  have sum : (last + 1).toNat = (last.toNat + 1) % 2 ^ 64 := UInt64.toNat_add ..
  omega

theorem mem_chunkIds : x ∈ chunkIds last chunk ↔
    x ∈ chunk ∧ x ≠ 0 ∨ last < x ∧ x.toNat ≤ last.toNat + chunk.count 0 := by
  obtain ⟨fits, bumped⟩ := room_next room
  rw [chunkIds, mem_assign fits, UInt64.lt_iff_toNat_lt]
  grind

theorem chunkIds_new (new : ∀ id ∈ chunk, id = 0) :
    (chunkIds last chunk).Pairwise (· < ·) ∧ ∀ x ∈ chunkIds last chunk, last < x := by
  refine ⟨pairwise_assign (room_next room).1 new, fun x member => ?_⟩
  rcases (mem_chunkIds room).mp member with ⟨carried, nonzero⟩ | ⟨above, -⟩
  · exact absurd (new x carried) nonzero
  · exact above

theorem ne_zero_of_mem_chunkIds (member : x ∈ chunkIds last chunk) : x ≠ 0 := by
  rcases (mem_chunkIds room).mp member with ⟨-, nonzero⟩ | ⟨above, -⟩
  · exact nonzero
  · rintro rfl
    rw [UInt64.lt_iff_toNat_lt] at above
    simp at above

theorem foldl_max_chunkIds :
    (chunkIds last chunk).foldl max (.ofNat (last.toNat + chunk.count 0)) =
      lastAfter last chunk := by
  obtain ⟨fits, bumped⟩ := room_next room
  refine foldl_max_assign fits ?_
  rw [toNat_block room]
  have bound := (last + 1).toNat_lt
  have sum : (last + 1).toNat = (last.toNat + 1) % 2 ^ 64 := UInt64.toNat_add ..
  omega

theorem le_lastAfter (member : x ∈ chunkIds last chunk) : x ≤ lastAfter last chunk := by
  rw [← foldl_max_chunkIds room]
  exact mem_le_foldl_max member

theorem last_le_lastAfter : last ≤ lastAfter last chunk := by
  refine Std.le_trans ?_ le_foldl_max
  rw [UInt64.le_iff_toNat_le, toNat_block room]
  omega

end Chunk

theorem hasRoomForAll_of_carried (carried : ∀ x ∈ chunks.flatten, x ≠ 0) :
    HasRoomForAll last chunks := by
  induction chunks generalizing last with
  | nil => trivial
  | cons chunk chunks ih =>
      rw [List.flatten_cons] at carried
      refine ⟨?_, ih fun x member => carried x (List.mem_append_right _ member)⟩
      have none : chunk.count 0 = 0 :=
        List.count_eq_zero.mpr fun zero => carried 0 (List.mem_append_left _ zero) rfl
      have bound := last.toNat_lt
      simp only [HasRoom, none, Engine.maxId]
      omega

theorem last_le_bulkLast (room : HasRoomForAll last chunks) : last ≤ bulkLast last chunks := by
  induction chunks generalizing last with
  | nil => exact Std.le_refl last
  | cons chunk chunks ih => exact Std.le_trans (last_le_lastAfter room.1) (ih room.2)

theorem le_bulkLast (room : HasRoomForAll last chunks) (member : x ∈ bulkIds last chunks) :
    x ≤ bulkLast last chunks := by
  induction chunks generalizing last with
  | nil => cases member
  | cons chunk chunks ih =>
      rw [bulkIds, List.mem_append] at member
      cases member with
      | inl first => exact Std.le_trans (le_lastAfter room.1 first) (last_le_bulkLast room.2)
      | inr later => exact ih room.2 later

/-- Every id of a bulk put is one that is carried or is behind the sequence. -/
theorem mem_bulkIds (room : HasRoomForAll last chunks) (member : x ∈ bulkIds last chunks) :
    x ∈ chunks.flatten ∧ x ≠ 0 ∨ last < x := by
  induction chunks generalizing last with
  | nil => cases member
  | cons chunk chunks ih =>
      rw [bulkIds, List.mem_append] at member
      rw [List.flatten_cons, List.mem_append]
      cases member with
      | inl first =>
          rcases (mem_chunkIds room.1).mp first with ⟨carried, nonzero⟩ | ⟨above, -⟩
          · exact .inl ⟨.inl carried, nonzero⟩
          · exact .inr above
      | inr later =>
          rcases ih room.2 later with ⟨carried, nonzero⟩ | above
          · exact .inl ⟨.inr carried, nonzero⟩
          · exact .inr (Std.lt_of_le_of_lt (last_le_lastAfter room.1) above)

theorem ne_zero_of_mem_bulkIds (room : HasRoomForAll last chunks)
    (member : x ∈ bulkIds last chunks) : x ≠ 0 := by
  rcases mem_bulkIds room member with ⟨-, nonzero⟩ | above
  · exact nonzero
  · rintro rfl
    rw [UInt64.lt_iff_toNat_lt] at above
    simp at above

theorem mem_bulkIds_of_carried (room : HasRoomForAll last chunks) (carried : x ∈ chunks.flatten)
    (nonzero : x ≠ 0) : x ∈ bulkIds last chunks := by
  induction chunks generalizing last with
  | nil => cases carried
  | cons chunk chunks ih =>
      rw [List.flatten_cons, List.mem_append] at carried
      rw [bulkIds, List.mem_append]
      cases carried with
      | inl first => exact .inl ((mem_chunkIds room.1).mpr (.inl ⟨first, nonzero⟩))
      | inr later => exact .inr (ih room.2 later)

theorem nodup_chunkIds (room : HasRoom last ids) (distinct : (ids.filter (· ≠ 0)).Nodup) :
    (chunkIds last ids).Nodup ↔ ∀ x ∈ ids, x ≤ last ∨ last.toNat + ids.count 0 < x.toNat := by
  obtain ⟨fits, bumped⟩ := room_next room
  rw [chunkIds, nodup_assign fits distinct]
  refine forall₂_congr fun x member => ?_
  have zero : x = 0 ↔ x.toNat = 0 := UInt64.toNat_inj.symm
  rw [zero, UInt64.le_iff_toNat_le]
  cases Nat.eq_zero_or_pos (ids.count 0) with
  | inl none => omega
  | inr some =>
      rw [bumped some]
      omega

/-- The ids of a bulk put are distinct exactly if its blocks are clear of carried ids. -/
theorem nodup_bulkIds (room : HasRoomForAll last chunks)
    (distinct : (chunks.flatten.filter (· ≠ 0)).Nodup) :
    (bulkIds last chunks).Nodup ↔ Clear last chunks := by
  induction chunks generalizing last with
  | nil => simp [bulkIds, Clear]
  | cons chunk chunks ih =>
      rw [List.flatten_cons, List.filter_append, List.nodup_append] at distinct
      obtain ⟨distinctHere, distinctLater, apart⟩ := distinct
      rw [bulkIds, List.nodup_append, nodup_chunkIds room.1 distinctHere, ih room.2 distinctLater,
        Clear]
      constructor
      · rintro ⟨clearHere, clearLater, disjoint⟩
        refine ⟨fun x member => ?_, clearLater⟩
        cases List.mem_append.mp member with
        | inl first => exact clearHere x first
        | inr later =>
            -- an id carried later and within the block would be there twice
            refine Classical.byContradiction fun inside => ?_
            rw [not_or, UInt64.le_iff_toNat_le] at inside
            have above : last < x := by
              rw [UInt64.lt_iff_toNat_lt]
              omega
            have nonzero : x ≠ 0 := by
              rintro rfl
              simp at inside
            exact disjoint x ((mem_chunkIds room.1).mpr (.inr ⟨above, by omega⟩)) x
              (mem_bulkIds_of_carried room.2 later nonzero) rfl
      · rintro ⟨clear, clearLater⟩
        refine ⟨fun x member => clear x (List.mem_append_left _ member), clearLater, ?_⟩
        rintro x first _ later rfl
        rcases mem_bulkIds room.2 later with ⟨carried, nonzero⟩ | above
        · rcases (mem_chunkIds room.1).mp first with ⟨carriedHere, -⟩ | ⟨behind, inside⟩
          · exact apart x (List.mem_filter.mpr ⟨carriedHere, by simpa using nonzero⟩) x
              (List.mem_filter.mpr ⟨carried, by simpa using nonzero⟩) rfl
          · have outside := clear x (List.mem_append_right _ carried)
            rw [UInt64.le_iff_toNat_le] at outside
            rw [UInt64.lt_iff_toNat_lt] at behind
            omega
        · have reached := le_lastAfter room.1 first
          rw [UInt64.lt_iff_toNat_lt] at above
          rw [UInt64.le_iff_toNat_le] at reached
          omega

theorem length_bulkIds : (bulkIds last chunks).length = chunks.flatten.length := by
  induction chunks generalizing last with
  | nil => rfl
  | cons chunk chunks ih => simp [bulkIds, chunkIds, ih]

theorem map_id_bulkAssigned : (bulkAssigned last chunks).map Assigned.id = bulkIds last chunks := by
  induction chunks generalizing last with
  | nil => rfl
  | cons chunk chunks ih => simp [bulkAssigned, bulkIds, chunkIds, ih]

theorem kept_of_mem_assign {a : Assigned} (member : (a, x) ∈ (assign next ids).zip ids)
    (kept : a.fresh = false) : a.id = x := by
  induction ids generalizing next with
  | nil => cases member
  | cons id ids ih =>
      simp only [assign] at member
      split at member <;> rw [List.zip_cons_cons, List.mem_cons] at member
      · rcases member with same | later
        · cases same
          cases kept
        · exact ih later
      · rcases member with same | later
        · cases same
          rfl
        · exact ih later

theorem kept_of_mem_bulkAssigned {a : Assigned}
    (member : (a, x) ∈ (bulkAssigned last chunks).zip chunks.flatten) (kept : a.fresh = false) :
    a.id = x := by
  induction chunks generalizing last with
  | nil => cases member
  | cons chunk chunks ih =>
      rw [bulkAssigned, List.flatten_cons, List.zip_append length_assign, List.mem_append] at member
      cases member with
      | inl first => exact kept_of_mem_assign first kept
      | inr later => exact ih later

theorem getElem?_assign {i : Nat} (carried : ids[i]? = some x) (nonzero : x ≠ 0) :
    ((assign next ids).map Assigned.id)[i]? = some x := by
  induction ids generalizing next i with
  | nil => simp at carried
  | cons id ids ih =>
      cases i with
      | zero =>
          rw [List.getElem?_cons_zero, Option.some.injEq] at carried
          subst carried
          simp [assign, nonzero]
      | succ i =>
          rw [List.getElem?_cons_succ] at carried
          simp only [assign]
          split <;> rw [List.map_cons, List.getElem?_cons_succ] <;> exact ih carried

theorem getElem?_bulkIds {i : Nat} (carried : chunks.flatten[i]? = some x) (nonzero : x ≠ 0) :
    (bulkIds last chunks)[i]? = some x := by
  induction chunks generalizing last i with
  | nil => simp at carried
  | cons chunk chunks ih =>
      have size : (chunkIds last chunk).length = chunk.length := by simp [chunkIds]
      rw [List.flatten_cons] at carried
      unfold bulkIds
      by_cases here : i < chunk.length
      · rw [List.getElem?_append_left here] at carried
        rw [List.getElem?_append_left (by rwa [size])]
        exact getElem?_assign carried nonzero
      · rw [List.getElem?_append_right (by omega)] at carried
        rw [List.getElem?_append_right (by omega), size]
        exact ih carried

theorem countP_assign {p : ObjectId → Bool} (room : next.toNat + ids.count 0 ≤ 2 ^ 64)
    (new : ∀ x : ObjectId, next.toNat ≤ x.toNat → x.toNat < next.toNat + ids.count 0 → p x = true) :
    ((assign next ids).map Assigned.id).countP p = ids.countP fun x => x = 0 || p x := by
  induction ids generalizing next with
  | nil => rfl
  | cons id ids ih =>
      by_cases zero : id = 0
      · subst zero
        rw [List.count_cons_self] at room new
        obtain ⟨bumped, later⟩ := room_succ room
        have first : p next = true := new next (Nat.le_refl _) (by omega)
        simp only [assign, if_true, List.map_cons, List.countP_cons, first, decide_true,
          Bool.true_or]
        rw [ih later]
        intro x above below
        exact new x (by omega) (by omega)
      · rw [List.count_cons_of_ne zero] at room new
        simp only [assign, zero, if_false, List.map_cons, List.countP_cons, decide_false,
          Bool.false_or, ih room new]

theorem countP_bulkIds {p : ObjectId → Bool} (room : HasRoomForAll last chunks)
    (new : ∀ x, last < x → p x = true) :
    (bulkIds last chunks).countP p = chunks.flatten.countP fun x => x = 0 || p x := by
  induction chunks generalizing last with
  | nil => rfl
  | cons chunk chunks ih =>
      obtain ⟨fits, bumped⟩ := room_next room.1
      rw [bulkIds, List.countP_append, List.flatten_cons, List.countP_append, chunkIds,
        countP_assign fits, ih room.2]
      · exact fun x above => new x (Std.lt_of_le_of_lt (last_le_lastAfter room.1) above)
      · intro x above below
        refine new x ?_
        rw [UInt64.lt_iff_toNat_lt]
        have some : 0 < chunk.count 0 := by omega
        have next := bumped some
        omega

end ObjectStore.Box
