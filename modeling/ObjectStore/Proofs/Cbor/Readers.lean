import ObjectStore.Cbor.Fields
import ObjectStore.Proofs.Cbor.Values

/-! # Values are read as they are written

A reader recovers a value if it takes what was written of it off the input and leaves what comes
behind. Readers of lists and of named fields recover what they hold one after another.
-/

namespace ObjectStore.Cbor

/-- What was written of `v` is read as `a`, whatever comes behind it. -/
def Recovers {α : Type} (reader : Reader α) (levels : Nat) (v : Value) (a : α) : Prop :=
  ∀ rest, reader.read levels (v.write.bytes ++ rest) = .ok (a, rest)

variable {levels : Nat} {rest : Bytes}

/-! ## Single items -/

theorem write_natural {n : Nat} (small : n < 2 ^ 64) :
    (Value.natural (.ofNat 128 n)).write = ⟨(Head.positive n).write, none⟩ := by
  have whole : (BitVec.ofNat 128 n).toNat = n := by
    rw [BitVec.toNat_ofNat, Nat.mod_eq_of_lt (by omega)]
  simp only [Value.write, whole, twoTo_eq, small, if_true]

theorem write_negative {n : Nat} (small : n < 2 ^ 64) :
    (Value.negative (.ofNat 127 n)).write = ⟨(Head.negative n).write, none⟩ := by
  have whole : (BitVec.ofNat 127 n).toNat = n := by
    rw [BitVec.toNat_ofNat, Nat.mod_eq_of_lt (by omega)]
  simp only [Value.write, whole, twoTo_eq, small, if_true]

theorem write_ofUInt64 {n : UInt64} :
    (Value.ofUInt64 n).write = ⟨(Head.positive n.toNat).write, none⟩ :=
  write_natural n.toNat_lt

theorem recovers_text {s : String} (fits : (Value.text s).Fits) :
    Recovers .text levels (.text s) s :=
  fun _ => read_text_content fits

theorem recovers_u64 {n : UInt64} : Recovers .u64 levels (.ofUInt64 n) n := by
  intro rest
  rw [write_ofUInt64]
  exact read_u64

theorem recovers_u32 {n : UInt32} : Recovers .u32 levels (.ofUInt64 n.toUInt64) n := by
  intro rest
  rw [write_ofUInt64, UInt32.toNat_toUInt64]
  exact read_u32

theorem recovers_u16 {n : UInt16} : Recovers .u16 levels (.ofUInt64 n.toUInt64) n := by
  intro rest
  rw [write_ofUInt64, UInt16.toNat_toUInt64]
  exact read_u16

theorem recovers_u8 {n : UInt8} : Recovers .u8 levels (.ofUInt64 n.toUInt64) n := by
  intro rest
  rw [write_ofUInt64, UInt8.toNat_toUInt64]
  exact read_u8

theorem recovers_i64 {n : Int64} : Recovers .i64 levels (.ofInt n.toInt) n := by
  intro rest
  have low : -2 ^ 63 ≤ n.toInt := n.le_toInt
  have high : n.toInt < 2 ^ 63 := n.toInt_lt
  have back : Int64.ofInt n.toInt = n := n.ofInt_toInt
  -- the two signs have heads of their own
  cases value : n.toInt with
  | ofNat i =>
      rw [value] at low high back
      simp only [Int.ofNat_eq_natCast] at low high back
      have small : i < 2 ^ 64 := by omega
      have within : (-0x8000000000000000 : Int) ≤ i ∧ (i : Int) ≤ 0x7fffffffffffffff := by omega
      rw [Value.ofInt, write_natural small, Reader.i64, read_int_positive small within, back]
  | negSucc i =>
      rw [value] at low high back
      rw [Int.negSucc_eq] at low high back
      have same : -((i : Int) + 1) = -1 - i := by omega
      rw [same] at low high back
      have small : i < 2 ^ 64 := by omega
      have within : (-0x8000000000000000 : Int) ≤ -1 - i ∧ -1 - (i : Int) ≤ 0x7fffffffffffffff := by
        omega
      rw [Value.ofInt, write_negative small, Reader.i64, read_int_negative small within, back]

theorem recovers_bool {b : Bool} : Recovers .bool levels (.bool b) b := by
  intro rest
  cases b <;> rfl

theorem recovers_float {bits : UInt64} : Recovers .float levels (.float bits) bits := by
  intro rest
  have head : Head.readUntagged ((Head.float bits).write ++ rest) = .ok (.float bits, rest) :=
    readUntagged_of_read read_float (by simp)
  simp only [Reader.float, Reader.ofHead, Value.write, head, bind, Except.bind]

theorem recovers_unit : Recovers .unit levels .null () :=
  fun _ => rfl

/-- What was written of a value does not begin as an absent value does. -/
def Present (v : Value) : Prop :=
  ∀ rest, ∃ head content, Head.read (v.write.bytes ++ rest) = .ok (head, content) ∧
    head ≠ .simple 22 ∧ head ≠ .simple 23

theorem present_ofUInt64 {n : UInt64} : Present (.ofUInt64 n) := by
  intro rest
  rw [write_ofUInt64]
  exact ⟨_, _, read_positive n.toNat_lt rest, by simp, by simp⟩

theorem present_ofList {vs : List Value} (plain : ∀ v ∈ vs, v.write.refusal = none)
    (length : vs.length < 2 ^ 64) : Present (.ofList vs) := by
  intro rest
  rw [Value.ofList, Value.bytes_list plain, List.append_assoc]
  exact ⟨_, _, read_array length _, by simp, by simp⟩

/-- A value that is there is read as the reader of values reads it. -/
theorem recovers_some {α : Type} {reader : Reader α} {v : Value} {a : α}
    (recovers : Recovers reader levels v a) (present : Present v) :
    Recovers (.option reader) levels v (some a) := by
  intro rest
  obtain ⟨head, content, read, null, undefined⟩ := present rest
  simp only [Reader.option, read, recovers rest, bind, Except.bind, pure, Except.pure]
  split
  · rename_i same
    cases same
    exact absurd rfl null
  · rename_i same
    cases same
    exact absurd rfl undefined
  · rfl

theorem recovers_none {α : Type} {reader : Reader α} :
    Recovers (.option reader) levels .null none :=
  fun _ => rfl

theorem recovers_map {α β : Type} {reader : Reader α} {v : Value} {a : α} (f : α → β)
    (recovers : Recovers reader levels v a) : Recovers (reader.map f) levels v (f a) := by
  intro rest
  simp only [Reader.map, recovers rest, Except.map]

/-! ## Lists -/

/-- Items are read one after another, the newest first. -/
theorem times_written {α : Type} {item : Bytes → Except ReadError (α × Bytes)} {write : α → Bytes}
    {items read : List α}
    (each : ∀ a ∈ items, ∀ rest, item (write a ++ rest) = .ok (a, rest)) :
    times (fun items input => do
      let (a, input) ← item input
      return (a :: items, input)) items.length read (items.flatMap write ++ rest) =
        .ok (items.reverse ++ read, rest) := by
  induction items generalizing read with
  | nil => rfl
  | cons a items ih =>
      have first := each a List.mem_cons_self (items.flatMap write ++ rest)
      have later := @ih (a :: read) fun a' member => each a' (List.mem_cons_of_mem _ member)
      simp only [bind, Except.bind, pure, Except.pure] at later
      rw [List.flatMap_cons, List.append_assoc, List.length_cons, times]
      simp only [first, bind, Except.bind, pure, Except.pure, later]
      rw [List.reverse_cons, List.append_assoc, List.singleton_append]

theorem listOf_written {α : Type} {item : Bytes → Except ReadError (α × Bytes)} {write : α → Bytes}
    {items : List α} (each : ∀ a ∈ items, ∀ rest, item (write a ++ rest) = .ok (a, rest)) :
    listOf item (some items.length) (items.flatMap write ++ rest) = .ok (items, rest) := by
  rw [listOf, run, times_written each, List.append_nil]
  simp only [bind, Except.bind, pure, Except.pure, List.reverse_reverse]

section Lists

variable {α : Type} {reader : Reader α} {value : α → Value} {items : List α}

theorem recovers_list (length : items.length < 2 ^ 64)
    (plain : ∀ a ∈ items, (value a).write.refusal = none)
    (each : ∀ a ∈ items, Recovers reader levels (value a) a) :
    Recovers (.list reader) (levels + 1) (.ofList (items.map value)) items := by
  intro rest
  have run : listOf (reader.read levels) (some items.length)
      ((items.flatMap fun a => (value a).write.bytes) ++ rest) = .ok (items, rest) :=
    listOf_written each
  have plains : ∀ v ∈ items.map value, v.write.refusal = none := List.forall_mem_map.mpr plain
  rw [Value.ofList, Value.bytes_list plains, List.length_map, List.flatMap_map]
  simp only [Value.writeEnd, if_true, List.append_nil, List.append_assoc, Reader.list,
    readUntagged_of_read (read_array length _) (by simp), Reader.deeper, run, bind, Except.bind]

end Lists

/-- Entries from texts are read one after another. -/
theorem recovers_entries {α : Type} {reader : Reader α} {value : α → Value}
    {entries : List (String × α)} (length : entries.length < 2 ^ 64)
    (plain : ∀ entry ∈ entries, (value entry.2).write.refusal = none)
    (keys : ∀ entry ∈ entries, (utf8 entry.1).length < 2 ^ 64)
    (each : ∀ entry ∈ entries, Recovers reader levels (value entry.2) entry.2) :
    Recovers (.entries reader) (levels + 1)
      (.map true (entries.map fun entry => (.text entry.1, value entry.2))) entries := by
  intro rest
  have run : listOf (Reader.entries.entry reader levels) (some entries.length)
      ((entries.flatMap fun entry =>
        (Value.text entry.1).write.bytes ++ (value entry.2).write.bytes) ++ rest) =
        .ok (entries, rest) := by
    refine listOf_written fun entry member rest => ?_
    rw [List.append_assoc]
    simp only [Reader.entries.entry, read_text_content (keys entry member), each entry member rest,
      bind, Except.bind, pure, Except.pure]
  have plains : ∀ entry ∈ entries.map fun entry => (Value.text entry.1, value entry.2),
      entry.1.write.refusal = none ∧ entry.2.write.refusal = none :=
    List.forall_mem_map.mpr fun entry member => ⟨rfl, plain entry member⟩
  rw [Value.bytes_map plains, List.length_map, List.flatMap_map]
  simp only [Value.writeEnd, if_true, List.append_nil, List.append_assoc, Reader.entries,
    readUntagged_of_read (read_map length _) (by simp), Reader.deeper, run, bind, Except.bind]

/-- Whole numbers are written without refusal. -/
theorem plain_numbers {α : Type} {items : List α} {number : α → UInt64} :
    ∀ v ∈ items.map fun a => Value.ofUInt64 (number a), v.write.refusal = none := by
  refine List.forall_mem_map.mpr fun a _ => ?_
  rw [write_ofUInt64]

theorem recovers_numbers {α : Type} {items : List α} {number : α → UInt64} {reader : Reader α}
    (fits : (Value.ofList (items.map fun a => .ofUInt64 (number a))).Fits)
    (each : ∀ a, Recovers reader levels (.ofUInt64 (number a)) a) :
    Recovers (.list reader) (levels + 1)
      (.ofList (items.map fun a => .ofUInt64 (number a))) items :=
  recovers_list (Value.fits_ofList fits).1 (List.forall_mem_map.mp plain_numbers) fun a _ => each a

/-! ## Named fields -/

theorem readKey_written {name : String} (short : (utf8 name).length ≤ keySize) :
    readKey ((Value.text name).write.bytes ++ rest) = .ok (utf8 name, rest) := by
  have fits : (utf8 name).length < 2 ^ 64 := by
    simp only [keySize] at short
    omega
  have head := readUntagged_of_read (read_text fits (utf8 name ++ rest)) (by simp)
  rw [Value.write, List.append_assoc]
  simp only [readKey, head, short, if_true, wholeText_written, bind, Except.bind]

/-- The entry of a field that was not read yet is read into its place. -/
theorem readEntry_written {σ : Type} {fields : List (Field σ)} {field : Field σ} {name : String}
    {s s' : σ} {value : Bytes} (short : (utf8 name).length ≤ keySize)
    (found : fields.find? (fun field => utf8 field.name = utf8 name) = some field)
    (unread : field.isRead s = false)
    (read : field.readInto levels s (value ++ rest) = .ok (s', rest)) :
    readEntry fields levels s ((Value.text name).write.bytes ++ (value ++ rest)) =
      .ok (s', rest) := by
  simp only [readEntry, readKey_written short, found, unread, read, bind, Except.bind,
    Bool.false_eq_true, if_false]

theorem readInto_of {σ α : Type} {name : String} {reader : Reader α} {place : σ → Option α}
    {fill : σ → α → σ} {s : σ} {a : α} {input : Bytes}
    (read : reader.read levels input = .ok (a, rest)) :
    (Field.of name reader place fill).readInto levels s input = .ok (fill s a, rest) := by
  simp only [Field.of, read, bind, Except.bind, pure, Except.pure]

section Fields

variable {σ : Type} {fields : List (Field σ)}

/-- Fields read in this order, each for the first time, fill `s` up to `s'`. -/
inductive Fills (fields : List (Field σ)) (levels : Nat) :
    σ → List (String × Value) → σ → Prop where
  | nil {s : σ} : Fills fields levels s [] s
  | cons {s s' s'' : σ} {field : Field σ} {name : String} {v : Value}
      {more : List (String × Value)} :
      (utf8 name).length ≤ keySize →
      fields.find? (fun field => utf8 field.name = utf8 name) = some field →
      field.isRead s = false → v.write.refusal = none →
      (∀ rest, field.readInto levels s (v.write.bytes ++ rest) = .ok (s', rest)) →
      Fills fields levels s' more s'' → Fills fields levels s ((name, v) :: more) s''

theorem Fills.plain {s s' : σ} {entries : List (String × Value)}
    (h : Fills fields levels s entries s') : ∀ entry ∈ entries, entry.2.write.refusal = none := by
  induction h with
  | nil => simp
  | cons short found unread plain read later ih => exact List.forall_mem_cons.mpr ⟨plain, ih⟩

theorem Fills.times {s s' : σ} {entries : List (String × Value)}
    (h : Fills fields levels s entries s') (rest : Bytes) :
    times (readEntry fields levels) entries.length s
        ((entries.flatMap fun entry =>
          (Value.text entry.1).write.bytes ++ entry.2.write.bytes) ++ rest) = .ok (s', rest) := by
  induction h with
  | nil => rfl
  | cons short found unread plain read later ih =>
      rw [List.flatMap_cons, List.append_assoc, List.append_assoc, List.length_cons, Cbor.times,
        readEntry_written short found unread (read _)]
      exact ih

/-- Named fields are read into their parts `s'`. -/
theorem recovers_fields {α : Type} {s : σ} {entries : List (String × Value)}
    {finish : σ → Except ReadError α} {a : α} (s' : σ) (filled : Fills fields levels s entries s')
    (length : entries.length < 2 ^ 64) (finished : finish s' = .ok a) :
    Recovers (.fields fields s finish) (levels + 1) (.ofFields entries) a := by
  intro rest
  have plains : ∀ entry ∈ entries.map fun entry => (Value.text entry.1, entry.2),
      entry.1.write.refusal = none ∧ entry.2.write.refusal = none :=
    List.forall_mem_map.mpr fun entry member => ⟨rfl, filled.plain entry member⟩
  rw [Value.ofFields, Value.bytes_map plains, List.length_map, List.flatMap_map]
  simp only [Value.writeEnd, if_true, List.append_nil, List.append_assoc, Reader.fields,
    readUntagged_of_read (read_map length _) (by simp), Reader.deeper, run, filled.times rest,
    finished, bind, Except.bind, pure, Except.pure]

/-- A field that a reader recovers fills its place. -/
theorem Fills.of {α : Type} {s s' : σ} {name : String} {reader : Reader α} {place : σ → Option α}
    {fill : σ → α → σ} {v : Value} {a : α} {more : List (String × Value)}
    (found : fields.find? (fun field => utf8 field.name = utf8 name) =
      some (Field.of name reader place fill))
    (short : (utf8 name).length ≤ keySize) (unread : place s = none)
    (plain : v.write.refusal = none) (recovers : Recovers reader levels v a)
    (later : Fills fields levels (fill s a) more s') :
    Fills fields levels s ((name, v) :: more) s' := by
  refine .cons short found ?_ plain (fun rest => readInto_of (recovers rest)) later
  simp only [Field.of, unread, Option.isSome_none]

end Fields

end ObjectStore.Cbor
