import ObjectStore.Proofs.Cbor.Values

/-! # Written values are passed over

What was written of a value is passed over up to its last byte, whatever comes behind it, if its
lists and maps are nested no deeper than there are levels left; otherwise the limit is reported.
The induction is on the value: a list or map takes a level and leaves the rest to what it holds.
-/

namespace ObjectStore.Cbor

variable {levels : Nat} {input content rest : Bytes}

/-! ## Runs -/

section Runs

variable {α : Type} {item : Bytes → Except ReadError Bytes} {write : α → Bytes} {items : List α}
  {P : α → Prop} [DecidablePred P]

theorem skipRun_sized
    (each : ∀ a ∈ items, ∀ rest,
      item (write a ++ rest) = if P a then .ok rest else .error .tooDeep) :
    skipRun item (some items.length) (items.flatMap write ++ rest) =
      if ∀ a ∈ items, P a then .ok rest else .error .tooDeep := by
  simp only [skipRun, run]
  induction items with
  | nil => simp [times, Except.map]
  | cons a items ih =>
      obtain ⟨first, later⟩ := List.forall_mem_cons.mp each
      rw [List.flatMap_cons, List.append_assoc, List.length_cons, times]
      simp only [first, List.forall_mem_cons]
      by_cases held : P a
      · simp only [held, if_true, true_and, Except.map, bind, Except.bind]
        exact ih later
      · simp only [held, if_false, false_and, Except.map, bind, Except.bind]

theorem untilStop_written {budget : Bytes}
    (each : ∀ a ∈ items, ∀ rest,
      item (write a ++ rest) = if P a then .ok rest else .error .tooDeep)
    (unstopped : ∀ a ∈ items, ∃ first more, write a = first :: more ∧ first ≠ stopByte)
    (enough : items.length < budget.length) :
    (untilStop (fun (_ : Unit) input => (item input).map ((), ·)) budget ()
        (items.flatMap write ++ stopByte :: rest)).map Prod.snd =
      if ∀ a ∈ items, P a then .ok rest else .error .tooDeep := by
  induction items generalizing budget with
  | nil =>
      cases budget with
      | nil => simp at enough
      | cons b budget => simp [untilStop, Except.map]
  | cons a items ih =>
      cases budget with
      | nil => simp at enough
      | cons b budget =>
          obtain ⟨first, later⟩ := List.forall_mem_cons.mp each
          obtain ⟨⟨byte, more, written, other⟩, unstoppedLater⟩ :=
            List.forall_mem_cons.mp unstopped
          have unended : (write a ++ (items.flatMap write ++ stopByte :: rest)).head? ≠
              some stopByte := by
            rw [written]
            simpa using other
          rw [List.flatMap_cons, List.append_assoc, untilStop, if_neg unended]
          simp only [first, List.forall_mem_cons]
          by_cases held : P a
          · simp only [held, if_true, true_and, Except.map, bind, Except.bind]
            exact ih later unstoppedLater (Nat.lt_of_succ_lt_succ enough)
          · simp only [held, if_false, false_and, Except.map, bind, Except.bind]

theorem length_le_flatMap
    (unstopped : ∀ a ∈ items, ∃ first more, write a = first :: more ∧ first ≠ stopByte) :
    items.length ≤ (items.flatMap write).length := by
  induction items with
  | nil => exact Nat.le_refl _
  | cons a items ih =>
      obtain ⟨⟨byte, more, written, -⟩, later⟩ := List.forall_mem_cons.mp unstopped
      have longer := ih later
      simp only [List.flatMap_cons, written, List.length_append, List.length_cons]
      omega

theorem skipRun_written {sized : Bool}
    (each : ∀ a ∈ items, ∀ rest,
      item (write a ++ rest) = if P a then .ok rest else .error .tooDeep)
    (unstopped : ∀ a ∈ items, ∃ first more, write a = first :: more ∧ first ≠ stopByte) :
    skipRun item (if sized then some items.length else none)
        (items.flatMap write ++ ((Value.writeEnd sized).bytes ++ rest)) =
      if ∀ a ∈ items, P a then .ok rest else .error .tooDeep := by
  cases sized with
  | true => exact skipRun_sized each
  | false =>
      refine untilStop_written each unstopped ?_
      have items := length_le_flatMap unstopped
      have stop : (Value.writeEnd false).bytes.length = 1 := rfl
      rw [List.length_append, List.length_append, stop]
      omega

end Runs

/-! ## Values -/

theorem skip_of_skipItem (leaf : ∀ inner, skipItem inner input = .ok rest) :
    skip levels input = .ok rest := by
  cases levels <;> exact leaf _

theorem skip_array {length : Option Nat} (read : Head.read input = .ok (.array length, content)) :
    skip levels input =
      Reader.deeper levels fun levels => skipRun (skip levels) length content := by
  cases levels <;> simp only [skip, skipItem, read, Reader.deeper, bind, Except.bind]

theorem skip_map {length : Option Nat} (read : Head.read input = .ok (.map length, content)) :
    skip levels input = Reader.deeper levels fun levels =>
      skipRun (fun input => skip levels input >>= skip levels) length content := by
  cases levels <;> simp only [skip, skipItem, read, Reader.deeper, bind, Except.bind]

/-- A big number behind its tag is passed over, at no level. -/
theorem skipItem_writeBig {inner : Option (Bytes → Except ReadError Bytes)} {tag n : Nat}
    (known : tag = bigPositive ∨ tag = bigNegative) (fits : n < 256 ^ bigSize)
    (signed : tag = bigNegative → n < 2 ^ 127) :
    skipItem inner (Value.writeBig tag n ++ rest) = .ok rest := by
  have short : Value.byteCount n ≤ bigSize := Value.byteCount_le fits
  have small : tag < 2 ^ 64 := by
    rcases known with rfl | rfl <;> decide
  have size : Value.byteCount n < 2 ^ 64 := by
    simp only [bigSize] at short
    omega
  have taken : takeBytes (Value.byteCount n) (bigEndian (Value.byteCount n) n ++ rest) =
      .ok (bigEndian (Value.byteCount n) n, rest) := takeBytes_of_length length_bigEndian
  have within : ¬(tag = bigNegative ∧ 2 ^ 127 ≤ n) := by
    rintro ⟨negative, large⟩
    exact absurd (signed negative) (Nat.not_lt.mpr large)
  rw [Value.writeBig, List.append_assoc, List.append_assoc]
  simp only [skipItem, read_tag small, read_bytes size, bigLength?, known, short, and_self, if_true,
    skipBig, taken, twoTo_eq, ofBigEndian_bigEndian Value.lt_byteCount, within, if_false, bind,
    Except.bind, pure, Except.pure]

theorem skipText_written {s : String} :
    skipText (some (utf8 s).length) (utf8 s ++ rest) = .ok rest := by
  simp only [skipText]
  split
  · simp only [wholeText_written, Except.map]
  · simp only [textContent_written, Except.map]

theorem depthItems_le {vs : List Value} :
    Value.depthItems vs ≤ levels ↔ ∀ v ∈ vs, v.depth ≤ levels := by
  induction vs with
  | nil => simp [Value.depthItems]
  | cons v vs ih => simp only [Value.depthItems, Nat.max_le, ih, List.forall_mem_cons]

theorem depthEntries_le {entries : List (Value × Value)} :
    Value.depthEntries entries ≤ levels ↔
      ∀ entry ∈ entries, entry.1.depth ≤ levels ∧ entry.2.depth ≤ levels := by
  induction entries with
  | nil => simp [Value.depthEntries]
  | cons entry entries ih =>
      simp only [Value.depthEntries, Nat.max_le, ih, List.forall_mem_cons]

theorem depth_ofFields {fields : List (String × Value)} :
    (Value.ofFields fields).depth ≤ levels + 1 ↔ ∀ field ∈ fields, field.2.depth ≤ levels := by
  rw [Value.ofFields, Value.depth, Nat.succ_le_succ_iff, depthEntries_le, List.forall_mem_map]
  simp [Value.depth]

theorem depth_ofList {vs : List Value} :
    (Value.ofList vs).depth ≤ levels + 1 ↔ ∀ v ∈ vs, v.depth ≤ levels := by
  rw [Value.ofList, Value.depth, Nat.succ_le_succ_iff, depthItems_le]

theorem skip_list {sized : Bool} {vs : List Value} (plain : ∀ v ∈ vs, v.write.refusal = none)
    (fits : (Value.list sized vs).Fits)
    (each : ∀ levels, ∀ v ∈ vs, ∀ rest, skip levels (v.write.bytes ++ rest) =
      if v.depth ≤ levels then .ok rest else .error .tooDeep) :
    skip levels ((Value.list sized vs).write.bytes ++ rest) =
      if (Value.list sized vs).depth ≤ levels then .ok rest else .error .tooDeep := by
  have unstopped : ∀ v ∈ vs, ∃ first more, v.write.bytes = first :: more ∧ first ≠ stopByte :=
    fun v member => Value.bytes_eq_cons (plain v member) (Value.fitItems_iff.mp fits.2 v member)
  have head : ∀ content, Head.read
      ((Head.array (if sized then some vs.length else none)).write ++ content) =
        .ok (.array (if sized then some vs.length else none), content) := by
    intro content
    cases sized with
    | true => exact read_array fits.1 content
    | false => rfl
  rw [Value.bytes_list plain, List.append_assoc, List.append_assoc, skip_array (head _)]
  cases levels with
  | zero => simp [Reader.deeper, Value.depth]
  | succ levels =>
      rw [Reader.deeper, skipRun_written (each levels) unstopped]
      simp only [Value.depth, Nat.succ_le_succ_iff, depthItems_le]

theorem skip_entries {sized : Bool} {entries : List (Value × Value)}
    (plain : ∀ entry ∈ entries, entry.1.write.refusal = none ∧ entry.2.write.refusal = none)
    (fits : (Value.map sized entries).Fits)
    (each : ∀ levels, ∀ entry ∈ entries, ∀ rest,
      (skip levels (entry.1.write.bytes ++ rest) =
        if entry.1.depth ≤ levels then .ok rest else .error .tooDeep) ∧
      skip levels (entry.2.write.bytes ++ rest) =
        if entry.2.depth ≤ levels then .ok rest else .error .tooDeep) :
    skip levels ((Value.map sized entries).write.bytes ++ rest) =
      if (Value.map sized entries).depth ≤ levels then .ok rest else .error .tooDeep := by
  have unstopped : ∀ entry ∈ entries, ∃ first more,
      entry.1.write.bytes ++ entry.2.write.bytes = first :: more ∧ first ≠ stopByte := by
    intro entry member
    obtain ⟨first, more, written, other⟩ := Value.bytes_eq_cons (plain entry member).1
      (Value.fitEntries_iff.mp fits.2 entry member).1
    exact ⟨first, more ++ entry.2.write.bytes, by rw [written, List.cons_append], other⟩
  have head : ∀ content, Head.read
      ((Head.map (if sized then some entries.length else none)).write ++ content) =
        .ok (.map (if sized then some entries.length else none), content) := by
    intro content
    cases sized with
    | true => exact read_map fits.1 content
    | false => rfl
  rw [Value.bytes_map plain, List.append_assoc, List.append_assoc, skip_map (head _)]
  cases levels with
  | zero => simp [Reader.deeper, Value.depth]
  | succ levels =>
      have both : ∀ entry ∈ entries, ∀ rest,
          (skip levels ((entry.1.write.bytes ++ entry.2.write.bytes) ++ rest) >>= skip levels) =
            if entry.1.depth ≤ levels ∧ entry.2.depth ≤ levels then .ok rest
            else .error .tooDeep := by
        intro entry member rest
        rw [List.append_assoc, (each levels entry member _).1]
        by_cases shallow : entry.1.depth ≤ levels
        · simp only [shallow, if_true, true_and, bind, Except.bind]
          exact (each levels entry member rest).2
        · simp only [shallow, if_false, false_and, bind, Except.bind]
      rw [Reader.deeper, skipRun_written both unstopped]
      simp only [Value.depth, Nat.succ_le_succ_iff, depthEntries_le]

/-- What is written of a value is passed over if there are levels enough. -/
theorem skip_written (v : Value) (plain : v.write.refusal = none) (fits : v.Fits) (levels : Nat)
    (rest : Bytes) :
    skip levels (v.write.bytes ++ rest) =
      if v.depth ≤ levels then .ok rest else .error .tooDeep := by
  cases v with
  | null => exact skip_of_skipItem fun inner => rfl
  | bool b => cases b <;> exact skip_of_skipItem fun inner => rfl
  | natural n =>
      refine skip_of_skipItem fun inner => ?_
      simp only [Value.write, twoTo_eq]
      split
      · rename_i small
        simp only [skipItem, read_positive small, bind, Except.bind, pure, Except.pure]
      · exact skipItem_writeBig (.inl rfl) n.isLt fun other => absurd other (by decide)
  | negative n =>
      refine skip_of_skipItem fun inner => ?_
      simp only [Value.write, twoTo_eq]
      split
      · rename_i small
        simp only [skipItem, read_negative small, bind, Except.bind, pure, Except.pure]
      · exact skipItem_writeBig (.inr rfl) (Nat.lt_trans n.isLt (by decide)) fun _ => n.isLt
  | float bits =>
      refine skip_of_skipItem fun inner => ?_
      simp only [Value.write, skipItem, read_float, bind, Except.bind, pure, Except.pure]
  | text s =>
      refine skip_of_skipItem fun inner => ?_
      rw [Value.write, List.append_assoc]
      simp only [skipItem, read_text fits, skipText_written, bind, Except.bind]
  | bytes b =>
      refine skip_of_skipItem fun inner => ?_
      rw [Value.write, List.append_assoc]
      simp only [skipItem, read_bytes fits, bytesContent, stringOf, takeBytes_append, Except.map,
        bind, Except.bind, pure, Except.pure]
  | list sized items =>
      have plains : ∀ v ∈ items, v.write.refusal = none := Value.refusal_list.mp plain
      refine skip_list plains fits ?_
      intro levels v member rest
      exact skip_written v (plains v member) (Value.fitItems_iff.mp fits.2 v member) levels rest
  | map sized entries =>
      have plains : ∀ entry ∈ entries,
          entry.1.write.refusal = none ∧ entry.2.write.refusal = none := Value.refusal_map.mp plain
      refine skip_entries plains fits ?_
      intro levels entry member rest
      have fit := Value.fitEntries_iff.mp fits.2 entry member
      exact ⟨skip_written entry.1 (plains entry member).1 fit.1 levels rest,
        skip_written entry.2 (plains entry member).2 fit.2 levels rest⟩
  | refuse why => cases plain
termination_by sizeOf v
decreasing_by
  · have smaller := List.sizeOf_lt_of_mem member
    subst_vars
    simp only [Value.list.sizeOf_spec]
    omega
  all_goals
    obtain ⟨key, value⟩ := entry
    have smaller := List.sizeOf_lt_of_mem member
    subst_vars
    simp only [Value.map.sizeOf_spec, Prod.mk.sizeOf_spec] at smaller ⊢
    omega

end ObjectStore.Cbor
