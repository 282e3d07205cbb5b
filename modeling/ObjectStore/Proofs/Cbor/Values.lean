import ObjectStore.Proofs.Cbor.Texts

/-! # What is written of a value

A value that does not refuse is written as its head and then its content, and the content of a list
or map is what is written of its items or entries, one behind another. What it is made of neither
refuses. The head is never a stop, so an item can be told from the end of an open run.
-/

namespace ObjectStore.Cbor

/-! ## Outputs -/

namespace Output

variable {first second : Output}

theorem refusal_append :
    (first ++ second).refusal = none ↔ first.refusal = none ∧ second.refusal = none := by
  change (first.append second).refusal = none ↔ _
  cases plain : first.refusal with
  | some why => simp [append, plain]
  | none => simp [append, plain]

theorem bytes_append (plain : first.refusal = none) :
    (first ++ second).bytes = first.bytes ++ second.bytes := by
  change (first.append second).bytes = _
  simp only [append, plain]

end Output

namespace Value

/-! ## Runs of values -/

variable {v : Value} {vs : List Value} {entries : List (Value × Value)} {sized : Bool}

theorem refusal_writeItems :
    (writeItems vs).refusal = none ↔ ∀ v ∈ vs, v.write.refusal = none := by
  induction vs with
  | nil => simp [writeItems]
  | cons v vs ih => simp only [writeItems, Output.refusal_append, ih, List.forall_mem_cons]

theorem refusal_writeEntries :
    (writeEntries entries).refusal = none ↔
      ∀ entry ∈ entries, entry.1.write.refusal = none ∧ entry.2.write.refusal = none := by
  induction entries with
  | nil => simp [writeEntries]
  | cons entry entries ih =>
      simp only [writeEntries, Output.refusal_append, ih, List.forall_mem_cons]

theorem bytes_writeItems (plain : ∀ v ∈ vs, v.write.refusal = none) :
    (writeItems vs).bytes = vs.flatMap fun v => v.write.bytes := by
  induction vs with
  | nil => rfl
  | cons v vs ih =>
      obtain ⟨first, later⟩ := List.forall_mem_cons.mp plain
      rw [writeItems, Output.bytes_append first, ih later, List.flatMap_cons]

theorem bytes_writeEntries
    (plain : ∀ entry ∈ entries, entry.1.write.refusal = none ∧ entry.2.write.refusal = none) :
    (writeEntries entries).bytes =
      entries.flatMap fun entry => entry.1.write.bytes ++ entry.2.write.bytes := by
  induction entries with
  | nil => rfl
  | cons entry entries ih =>
      obtain ⟨⟨key, value⟩, later⟩ := List.forall_mem_cons.mp plain
      have both : (entry.1.write ++ entry.2.write).refusal = none :=
        Output.refusal_append.mpr ⟨key, value⟩
      rw [writeEntries, Output.bytes_append both, Output.bytes_append key, ih later,
        List.flatMap_cons]

theorem refusal_list :
    (list sized vs).write.refusal = none ↔ ∀ v ∈ vs, v.write.refusal = none := by
  rw [write, Output.refusal_append, Output.refusal_append, refusal_writeItems]
  simp [writeLength, writeEnd]

theorem refusal_map :
    (map sized entries).write.refusal = none ↔
      ∀ entry ∈ entries, entry.1.write.refusal = none ∧ entry.2.write.refusal = none := by
  rw [write, Output.refusal_append, Output.refusal_append, refusal_writeEntries]
  simp [writeLength, writeEnd]

theorem bytes_list (plain : ∀ v ∈ vs, v.write.refusal = none) :
    (list sized vs).write.bytes =
      (Head.array (if sized then some vs.length else none)).write ++
        ((vs.flatMap fun v => v.write.bytes) ++ (writeEnd sized).bytes) := by
  have items : (writeItems vs).refusal = none := refusal_writeItems.mpr plain
  rw [write, Output.bytes_append (Output.refusal_append.mpr ⟨rfl, items⟩),
    Output.bytes_append rfl, bytes_writeItems plain, List.append_assoc, writeLength]

theorem bytes_map
    (plain : ∀ entry ∈ entries, entry.1.write.refusal = none ∧ entry.2.write.refusal = none) :
    (map sized entries).write.bytes =
      (Head.map (if sized then some entries.length else none)).write ++
        ((entries.flatMap fun entry => entry.1.write.bytes ++ entry.2.write.bytes) ++
          (writeEnd sized).bytes) := by
  have written : (writeEntries entries).refusal = none := refusal_writeEntries.mpr plain
  rw [write, Output.bytes_append (Output.refusal_append.mpr ⟨rfl, written⟩),
    Output.bytes_append rfl, bytes_writeEntries plain, List.append_assoc, writeLength]

/-! ## Lengths and depths -/

mutual

/-- The lengths in a value are 64-bit numbers, as those of what fits into memory are. -/
def Fits : Value → Prop
  | text s => (utf8 s).length < 2 ^ 64
  | bytes b => b.length < 2 ^ 64
  | list _ items => items.length < 2 ^ 64 ∧ FitItems items
  | map _ entries => entries.length < 2 ^ 64 ∧ FitEntries entries
  | null | bool _ | natural _ | negative _ | float _ | refuse _ => True

def FitItems : List Value → Prop
  | [] => True
  | v :: vs => v.Fits ∧ FitItems vs

def FitEntries : List (Value × Value) → Prop
  | [] => True
  | (k, v) :: entries => k.Fits ∧ v.Fits ∧ FitEntries entries

end

mutual

/-- How deep lists and maps are nested in a value. -/
def depth : Value → Nat
  | list _ items => depthItems items + 1
  | map _ entries => depthEntries entries + 1
  | null | bool _ | natural _ | negative _ | float _ | text _ | bytes _ | refuse _ => 0

def depthItems : List Value → Nat
  | [] => 0
  | v :: vs => max v.depth (depthItems vs)

def depthEntries : List (Value × Value) → Nat
  | [] => 0
  | (k, v) :: entries => max (max k.depth v.depth) (depthEntries entries)

end

theorem fitItems_iff : FitItems vs ↔ ∀ v ∈ vs, v.Fits := by
  induction vs with
  | nil => simp [FitItems]
  | cons v vs ih => simp only [FitItems, ih, List.forall_mem_cons]

theorem fitEntries_iff :
    FitEntries entries ↔ ∀ entry ∈ entries, entry.1.Fits ∧ entry.2.Fits := by
  induction entries with
  | nil => simp [FitEntries]
  | cons entry entries ih => simp only [FitEntries, ih, List.forall_mem_cons, and_assoc]

/-- The lengths in a body are those of its fields. -/
theorem fits_ofFields {fields : List (String × Value)} (fits : (Value.ofFields fields).Fits) :
    ∀ field ∈ fields, field.2.Fits := by
  intro field member
  have entries := Value.fitEntries_iff.mp fits.2
  exact (entries _ (List.mem_map_of_mem member)).2

theorem fits_ofList {α : Type} {items : List α} {value : α → Value}
    (fits : (Value.ofList (items.map value)).Fits) :
    items.length < 2 ^ 64 ∧ ∀ a ∈ items, (value a).Fits := by
  obtain ⟨length, each⟩ := fits
  rw [List.length_map] at length
  exact ⟨length, List.forall_mem_map.mp (Value.fitItems_iff.mp each)⟩

theorem refusal_ofFields {fields : List (String × Value)} :
    (Value.ofFields fields).write.refusal = none ↔
      ∀ field ∈ fields, field.2.write.refusal = none := by
  rw [Value.ofFields, Value.refusal_map, List.forall_mem_map]
  simp [Value.write]

/-! ## Big numbers -/

theorem byteCount_le {n width : Nat} (fits : n < 256 ^ width) : byteCount n ≤ width := by
  simp only [byteCount]
  split
  · exact Nat.zero_le _
  · rename_i nonzero
    have power : (256 : Nat) ^ width = 2 ^ (8 * width) := by rw [Nat.pow_mul]
    rw [power] at fits
    have high : n.log2 < 8 * width := (Nat.log2_lt nonzero).mpr fits
    omega

theorem lt_byteCount {n : Nat} : n < 256 ^ byteCount n := by
  simp only [byteCount]
  split
  · rename_i zero
    simp [zero]
  · have power : (256 : Nat) ^ (n.log2 / 8 + 1) = 2 ^ (8 * (n.log2 / 8 + 1)) := by rw [Nat.pow_mul]
    rw [power]
    calc n < 2 ^ (n.log2 + 1) := Nat.lt_log2_self
      _ ≤ 2 ^ (8 * (n.log2 / 8 + 1)) := Nat.pow_le_pow_right (by decide) (by omega)

/-! ## The head of a value -/

/-- What is written of a value begins with a head that is no stop. -/
theorem read_head (plain : v.write.refusal = none) (fits : v.Fits) (rest : Bytes) :
    ∃ head content, Head.read (v.write.bytes ++ rest) = .ok (head, content) ∧ head ≠ .stop := by
  cases v with
  | null => exact ⟨_, _, rfl, by simp⟩
  | bool b => cases b <;> exact ⟨_, _, rfl, by simp⟩
  | natural n =>
      simp only [write]
      split
      · rename_i small
        rw [twoTo_eq] at small
        exact ⟨_, _, read_positive small rest, by simp⟩
      · rw [writeBig, List.append_assoc, List.append_assoc]
        exact ⟨_, _, read_tag (by decide) _, by simp⟩
  | negative n =>
      simp only [write]
      split
      · rename_i small
        rw [twoTo_eq] at small
        exact ⟨_, _, read_negative small rest, by simp⟩
      · rw [writeBig, List.append_assoc, List.append_assoc]
        exact ⟨_, _, read_tag (by decide) _, by simp⟩
  | float bits => exact ⟨_, _, read_float, by simp⟩
  | text s =>
      rw [write, List.append_assoc]
      exact ⟨_, _, read_text fits _, by simp⟩
  | bytes b =>
      rw [write, List.append_assoc]
      exact ⟨_, _, read_bytes fits _, by simp⟩
  | list sized items =>
      rw [bytes_list (refusal_list.mp plain), List.append_assoc]
      cases sized with
      | true => exact ⟨_, _, read_array fits.1 _, by simp⟩
      | false => exact ⟨_, _, rfl, by simp⟩
  | map sized entries =>
      rw [bytes_map (refusal_map.mp plain), List.append_assoc]
      cases sized with
      | true => exact ⟨_, _, read_map fits.1 _, by simp⟩
      | false => exact ⟨_, _, rfl, by simp⟩
  | refuse why => cases plain

/-- What is written of a value does not begin with the byte of a stop. -/
theorem bytes_eq_cons (plain : v.write.refusal = none) (fits : v.Fits) :
    ∃ first more, v.write.bytes = first :: more ∧ first ≠ stopByte := by
  obtain ⟨head, content, read, unstopped⟩ := read_head plain fits []
  rw [List.append_nil] at read
  cases written : v.write.bytes with
  | nil =>
      rw [written] at read
      cases read
  | cons first more =>
      refine ⟨first, more, rfl, ?_⟩
      rintro rfl
      rw [written] at read
      cases read
      exact unstopped rfl

/-! ## What was written fits -/

theorem length_argument_pos {kind n : Nat} : 0 < (Argument.write kind n).length := by
  unfold Argument.write
  repeat' split
  all_goals simp

theorem length_head_pos (head : Head) : 0 < head.write.length := by
  unfold Head.write
  split
  case h_13 bits =>
    unfold Head.writeFloat
    repeat' split
    all_goals simp
  all_goals first | exact length_argument_pos | simp

/-- A value that is written takes a byte at least. -/
theorem length_write_pos (plain : v.write.refusal = none) : 0 < v.write.bytes.length := by
  cases v with
  | null | bool | float =>
      simp only [write]
      exact length_head_pos _
  | natural n | negative n =>
      simp only [write]
      split
      · exact length_head_pos _
      · rw [writeBig, List.append_assoc, List.length_append]
        exact Nat.add_pos_left (length_head_pos _) _
  | text | bytes =>
      rw [write, List.length_append]
      exact Nat.add_pos_left (length_head_pos _) _
  | list sized items =>
      rw [bytes_list (refusal_list.mp plain), List.length_append]
      exact Nat.add_pos_left (length_head_pos _) _
  | map sized entries =>
      rw [bytes_map (refusal_map.mp plain), List.length_append]
      exact Nat.add_pos_left (length_head_pos _) _
  | refuse why => cases plain

mutual

/-- What was written of a value into fewer than 2⁶⁴ bytes has no longer part. -/
theorem fits_of_length : (v : Value) → v.write.refusal = none →
    v.write.bytes.length < 2 ^ 64 → v.Fits
  | text s, _, short => by
      simp only [write, List.length_append] at short
      simp only [Fits]
      omega
  | bytes b, _, short => by
      simp only [write, List.length_append] at short
      simp only [Fits]
      omega
  | list sized items, plain, short => by
      rw [bytes_list (refusal_list.mp plain)] at short
      simp only [List.length_append] at short
      obtain ⟨count, fit⟩ := fitItems_of_length items (refusal_list.mp plain) (by omega)
      exact ⟨by omega, fit⟩
  | map sized entries, plain, short => by
      rw [bytes_map (refusal_map.mp plain)] at short
      simp only [List.length_append] at short
      obtain ⟨count, fit⟩ := fitEntries_of_length entries (refusal_map.mp plain) (by omega)
      exact ⟨by omega, fit⟩
  | null, _, _ | bool _, _, _ | natural _, _, _ | negative _, _, _ | float _, _, _
  | refuse _, _, _ => trivial

theorem fitItems_of_length : (vs : List Value) → (∀ v ∈ vs, v.write.refusal = none) →
    (vs.flatMap fun v => v.write.bytes).length < 2 ^ 64 →
    vs.length ≤ (vs.flatMap fun v => v.write.bytes).length ∧ FitItems vs
  | [], _, _ => ⟨Nat.le_refl _, trivial⟩
  | v :: vs, plain, short => by
      obtain ⟨first, later⟩ := List.forall_mem_cons.mp plain
      simp only [List.flatMap_cons, List.length_append, List.length_cons] at short ⊢
      obtain ⟨count, fit⟩ := fitItems_of_length vs later (by omega)
      have some := length_write_pos first
      exact ⟨by omega, fits_of_length v first (by omega), fit⟩

theorem fitEntries_of_length : (entries : List (Value × Value)) →
    (∀ entry ∈ entries, entry.1.write.refusal = none ∧ entry.2.write.refusal = none) →
    (entries.flatMap fun entry => entry.1.write.bytes ++ entry.2.write.bytes).length < 2 ^ 64 →
    entries.length ≤
        (entries.flatMap fun entry => entry.1.write.bytes ++ entry.2.write.bytes).length ∧
      FitEntries entries
  | [], _, _ => ⟨Nat.le_refl _, trivial⟩
  | (k, v) :: entries, plain, short => by
      obtain ⟨⟨key, value⟩, later⟩ := List.forall_mem_cons.mp plain
      simp only [List.flatMap_cons, List.length_append, List.length_cons] at key value short ⊢
      obtain ⟨count, fit⟩ := fitEntries_of_length entries later (by omega)
      have some := length_write_pos key
      exact ⟨by omega, fits_of_length k key (by omega), fits_of_length v value (by omega), fit⟩

end

end Value

end ObjectStore.Cbor
