import ObjectStore.Engine.Transactions

/-! # Id sequences

A sequence only goes on: observing ids moves it to the largest of them and what it was. The
sequences of other entity types stay.
-/

namespace ObjectStore

variable {last id : ObjectId} {ids : List ObjectId}

theorem max_eq_ite {a b : ObjectId} : max a b = if a ≤ b then b else a := rfl

@[simp] theorem toNat_max {a b : ObjectId} : (max a b).toNat = max a.toNat b.toNat := by
  rw [max_eq_ite]
  split <;> rename_i h <;> rw [UInt64.le_iff_toNat_le] at h <;> omega

theorem le_foldl_max : last ≤ ids.foldl max last := by
  induction ids generalizing last with
  | nil => exact Std.le_refl last
  | cons id ids ih =>
      have step : last ≤ max last id := by
        rw [UInt64.le_iff_toNat_le, toNat_max]
        omega
      exact Std.le_trans step ih

theorem mem_le_foldl_max (member : id ∈ ids) : id ≤ ids.foldl max last := by
  induction ids generalizing last with
  | nil => cases member
  | cons first ids ih =>
      cases member with
      | head =>
          have step : id ≤ max last id := by
            rw [UInt64.le_iff_toNat_le, toNat_max]
            omega
          exact Std.le_trans step le_foldl_max
      | tail _ member => exact ih member

namespace Engine

variable {e : Engine} {entity entity' : EntityId}

@[simp] theorem lastId_setLastId :
    (e.setLastId entity id).lastId entity' = if entity = entity' then id else e.lastId entity' := by
  simp only [lastId, setLastId]
  split <;> grind

theorem lastId_le_setLastId (grown : e.lastId entity ≤ id) :
    e.lastId entity' ≤ (e.setLastId entity id).lastId entity' := by
  rw [lastId_setLastId]
  split
  · subst entity'
    exact grown
  · exact Std.le_refl _

theorem lastId_observe :
    (e.observe entity ids).lastId entity' =
      if entity = entity' then ids.foldl max (e.lastId entity') else e.lastId entity' := by
  simp only [observe, lastId_setLastId]
  split <;> simp [*]

theorem lastId_le_observe : e.lastId entity' ≤ (e.observe entity ids).lastId entity' := by
  rw [lastId_observe]
  split
  · exact le_foldl_max
  · exact Std.le_refl _

theorem mem_le_lastId_observe (member : id ∈ ids) : id ≤ (e.observe entity ids).lastId entity := by
  rw [lastId_observe, if_pos rfl]
  exact mem_le_foldl_max member

/-- A sequence that has reached an id observes it without moving. -/
theorem observe_reached (nonzero : id ≠ 0) (reached : id ≤ e.lastId entity) :
    e.observe entity [id] = e := by
  have last : max (e.lastId entity) id = e.lastId entity := by
    rw [← UInt64.toNat_inj, toNat_max]
    exact Nat.max_eq_left (UInt64.le_iff_toNat_le.mp reached)
  have positive : e.lastId entity ≠ 0 := by
    intro none
    rw [none, UInt64.le_iff_toNat_le] at reached
    exact nonzero (UInt64.toNat_inj.mp (Nat.le_zero.mp reached))
  have kept : e.sequences.insert entity (e.lastId entity) = e.sequences := by
    ext other : 1
    rw [Std.ExtTreeMap.getElem?_insert]
    split
    · rename_i same
      obtain rfl := Std.LawfulEqCmp.eq_of_compare same
      rw [lastId, Std.ExtTreeMap.getD_eq_getD_getElem?] at positive ⊢
      cases found : e.sequences[entity]? with
      | none => simp [found] at positive
      | some last => rfl
    · rfl
  simp only [observe, List.foldl_cons, List.foldl_nil, last, setLastId, positive, if_false, kept]

end Engine

end ObjectStore
