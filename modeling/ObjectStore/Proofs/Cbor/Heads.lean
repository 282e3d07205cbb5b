import Mathlib.Algebra.Group.Nat.Defs
import ObjectStore.Cbor.Reader

/-! # Heads are read as they are written

A number written in some bytes, the highest first, is read back if it fits them, and so are the
heads that carry numbers and lengths, whatever comes behind them.
-/

namespace ObjectStore.Cbor

/-! ## Numbers in bytes -/

theorem twoTo_eq {n : Nat} : twoTo n = 2 ^ n := by
  rw [twoTo, Nat.one_shiftLeft]

@[simp] theorem length_bigEndian {width n : Nat} : (bigEndian width n).length = width := by
  induction width with
  | zero => rfl
  | succ width ih => simp [bigEndian, ih]

theorem foldl_bigEndian {width n high : Nat} :
    (bigEndian width n).foldl (fun n b => n * 256 + b.toNat) high =
      high * 256 ^ width + n % 256 ^ width := by
  induction width generalizing high with
  | zero => simp [bigEndian, Nat.mod_one]
  | succ width ih =>
      have digit : (UInt8.ofNat (n / 256 ^ width)).toNat = n / 256 ^ width % 256 :=
        UInt8.toNat_ofNat'
      have place : twoTo (8 * width) = 256 ^ width := by
        rw [twoTo_eq, Nat.pow_mul]
      rw [bigEndian, List.foldl_cons, ih, place, digit, Nat.mod_pow_succ, Nat.pow_succ]
      grind

theorem ofBigEndian_bigEndian {width n : Nat} (fits : n < 256 ^ width) :
    ofBigEndian (bigEndian width n) = n := by
  rw [ofBigEndian, foldl_bigEndian, Nat.mod_eq_of_lt fits]
  simp

@[simp] theorem takeBytes_append {taken rest : Bytes} :
    takeBytes taken.length (taken ++ rest) = .ok (taken, rest) := by
  simp [takeBytes]

theorem takeBytes_of_length {n : Nat} {taken rest : Bytes} (size : taken.length = n) :
    takeBytes n (taken ++ rest) = .ok (taken, rest) := by
  rw [← size, takeBytes_append]

/-! ## Arguments -/

/-- The first byte of a head keeps the kind and what it says of the argument apart. -/
theorem kind_info {kind info : Nat} (known : kind < 8) (small : info < 32) :
    (UInt8.ofNat (kind * 32 + info)).toNat / 32 = kind ∧
      (UInt8.ofNat (kind * 32 + info)).toNat % 32 = info := by
  rw [UInt8.toNat_ofNat']
  omega

/-- A head is its kind with what is read as its argument. -/
theorem read_of_argument {kind info : Nat} {input rest : Bytes} {argument : Argument}
    (known : kind < 8) (small : info < 32)
    (read : Argument.read info input = .ok (argument, rest)) :
    Head.read (UInt8.ofNat (kind * 32 + info) :: input) =
      (Head.ofArgument kind argument).map (·, rest) := by
  rw [Head.read, (kind_info known small).1, (kind_info known small).2]
  simp only [read, bind, Except.bind, pure, Except.pure]
  cases Head.ofArgument kind argument <;> rfl

/-- An argument of `width` bytes that the first byte announces by `info` is read back. -/
theorem read_following {kind info width n : Nat} {rest : Bytes} (known : kind < 8)
    (announced : (info, width) ∈ [(24, 1), (25, 2), (26, 4), (27, 8)]) (fits : n < 256 ^ width) :
    Head.read (UInt8.ofNat (kind * 32 + info) :: (bigEndian width n ++ rest)) =
      (Head.ofArgument kind (.value width n)).map (·, rest) := by
  have small : info < 32 := by
    simp only [List.mem_cons, Prod.mk.injEq, List.not_mem_nil, or_false] at announced
    omega
  have taken : takeBytes width (bigEndian width n ++ rest) = .ok (bigEndian width n, rest) :=
    takeBytes_of_length length_bigEndian
  refine read_of_argument known small ?_
  simp only [List.mem_cons, Prod.mk.injEq, List.not_mem_nil, or_false] at announced
  rcases announced with ⟨rfl, rfl⟩ | ⟨rfl, rfl⟩ | ⟨rfl, rfl⟩ | ⟨rfl, rfl⟩ <;>
    simp only [Argument.read, taken, ofBigEndian_bigEndian fits, bind, Except.bind, pure,
      Except.pure]

/-- An argument is read as it was written, from some number of bytes. -/
theorem read_write_argument {kind n : Nat} (known : kind < 8) (fits : n < 2 ^ 64) (rest : Bytes) :
    ∃ width, Head.read (Argument.write kind n ++ rest) =
      (Head.ofArgument kind (.value width n)).map (·, rest) := by
  simp only [Argument.write]
  split
  · refine ⟨0, ?_⟩
    rw [List.singleton_append]
    refine read_of_argument known (by omega) ?_
    simp only [Argument.read]
    split <;> first | omega | rfl
  · split
    · exact ⟨1, read_following known (by decide) (by omega)⟩
    · split
      · exact ⟨2, read_following known (by decide) (by omega)⟩
      · split
        · exact ⟨4, read_following known (by decide) (by omega)⟩
        · exact ⟨8, read_following known (by decide) (by omega)⟩

section Heads

variable {n : Nat} (fits : n < 2 ^ 64) (rest : Bytes)
include fits

theorem read_positive : Head.read ((Head.positive n).write ++ rest) = .ok (.positive n, rest) := by
  obtain ⟨width, read⟩ := read_write_argument (by decide : 0 < 8) fits rest
  exact read

theorem read_negative : Head.read ((Head.negative n).write ++ rest) = .ok (.negative n, rest) := by
  obtain ⟨width, read⟩ := read_write_argument (by decide : 1 < 8) fits rest
  exact read

theorem read_bytes :
    Head.read ((Head.bytes (some n)).write ++ rest) = .ok (.bytes (some n), rest) := by
  obtain ⟨width, read⟩ := read_write_argument (by decide : 2 < 8) fits rest
  exact read

theorem read_text :
    Head.read ((Head.text (some n)).write ++ rest) = .ok (.text (some n), rest) := by
  obtain ⟨width, read⟩ := read_write_argument (by decide : 3 < 8) fits rest
  exact read

theorem read_array :
    Head.read ((Head.array (some n)).write ++ rest) = .ok (.array (some n), rest) := by
  obtain ⟨width, read⟩ := read_write_argument (by decide : 4 < 8) fits rest
  exact read

theorem read_map : Head.read ((Head.map (some n)).write ++ rest) = .ok (.map (some n), rest) := by
  obtain ⟨width, read⟩ := read_write_argument (by decide : 5 < 8) fits rest
  exact read

theorem read_tag : Head.read ((Head.tag n).write ++ rest) = .ok (.tag n, rest) := by
  obtain ⟨width, read⟩ := read_write_argument (by decide : 6 < 8) fits rest
  exact read

end Heads

/-- Bits a narrower format holds are those of a number of its width. -/
theorem eq_widen_of_narrow? {f : FloatFormat} {bits : UInt64} {n : Nat}
    (narrow : f.narrow? bits = some n) : n < 2 ^ f.width ∧ f.widen n = bits := by
  simp only [FloatFormat.narrow?, twoTo_eq] at narrow
  split at narrow
  · cases narrow
    assumption
  · cases narrow

/-- A float is read back bit by bit, in whichever width it was written. -/
theorem read_float {bits : UInt64} {rest : Bytes} :
    Head.read ((Head.float bits).write ++ rest) = .ok (.float bits, rest) := by
  simp only [Head.write, Head.writeFloat]
  split
  · rename_i n narrow
    obtain ⟨fits, widened⟩ := eq_widen_of_narrow? narrow
    have read : Head.read (0xf9 :: (bigEndian 2 n ++ rest)) =
        .ok (.float (FloatFormat.half.widen n), rest) :=
      read_following (by decide : 7 < 8) (by decide : (25, 2) ∈ _) fits
    rwa [widened] at read
  · split
    · rename_i n narrow
      obtain ⟨fits, widened⟩ := eq_widen_of_narrow? narrow
      have read : Head.read (0xfa :: (bigEndian 4 n ++ rest)) =
          .ok (.float (FloatFormat.single.widen n), rest) :=
        read_following (by decide : 7 < 8) (by decide : (26, 4) ∈ _) fits
      rwa [widened] at read
    · have read : Head.read (0xfb :: (bigEndian 8 bits.toNat ++ rest)) =
          .ok (.float (.ofNat bits.toNat), rest) :=
        read_following (by decide : 7 < 8) (by decide : (27, 8) ∈ _) bits.toNat_lt
      rwa [UInt64.ofNat_toNat] at read

/-- A head that was read and is no tag is the first that is no tag. -/
theorem readUntagged_of_read {input rest : Bytes} {head : Head}
    (read : Head.read input = .ok (head, rest)) (untagged : ∀ n, head ≠ .tag n) :
    Head.readUntagged input = .ok (head, rest) := by
  cases input with
  | nil => cases read
  | cons first input =>
      simp only [Head.readUntagged, Cbor.untagged, read, bind, Except.bind, pure, Except.pure]

/-! ## Whole numbers -/

theorem readInt_positive {n : Nat} {rest : Bytes} (fits : n < 2 ^ 64) :
    readInt ((Head.positive n).write ++ rest) ((Head.positive n).write ++ rest) =
      .ok ((n : Int), rest) := by
  have read := read_positive fits rest
  generalize (Head.positive n).write ++ rest = input at read
  cases input with
  | nil => cases read
  | cons first input =>
      simp only [readInt, read, bind, Except.bind, pure, Except.pure]

theorem readInt_negative {n : Nat} {rest : Bytes} (fits : n < 2 ^ 64) :
    readInt ((Head.negative n).write ++ rest) ((Head.negative n).write ++ rest) =
      .ok (-1 - (n : Int), rest) := by
  have read := read_negative fits rest
  generalize (Head.negative n).write ++ rest = input at read
  cases input with
  | nil => cases read
  | cons first input =>
      simp only [readInt, read, bind, Except.bind, pure, Except.pure]

section Bounded

variable {α : Type} {low high : Int} {of : Int → α} {n levels : Nat} {rest : Bytes}

/-- A natural number within the bounds of a type is read back as one of that type. -/
theorem read_int_positive (fits : n < 2 ^ 64) (within : low ≤ n ∧ n ≤ high) :
    (Reader.int low high of).read levels ((Head.positive n).write ++ rest) = .ok (of n, rest) := by
  simp only [Reader.int, readInt_positive fits, bounded, within, and_self, if_true, bind,
    Except.bind, pure, Except.pure]

theorem read_int_negative (fits : n < 2 ^ 64)
    (within : low ≤ -1 - (n : Int) ∧ -1 - (n : Int) ≤ high) :
    (Reader.int low high of).read levels ((Head.negative n).write ++ rest) =
      .ok (of (-1 - n), rest) := by
  simp only [Reader.int, readInt_negative fits, bounded, within, and_self, if_true, bind,
    Except.bind, pure, Except.pure]

end Bounded

section Unsigned

variable {levels : Nat} {rest : Bytes}

theorem read_u64 {n : UInt64} :
    Reader.u64.read levels ((Head.positive n.toNat).write ++ rest) = .ok (n, rest) := by
  have fits : n.toNat < 2 ^ 64 := n.toNat_lt
  have within : (0 : Int) ≤ n.toNat ∧ (n.toNat : Int) ≤ 0xffffffffffffffff := by omega
  rw [Reader.u64, read_int_positive fits within, Int.toNat_natCast, UInt64.ofNat_toNat]

theorem read_u32 {n : UInt32} :
    Reader.u32.read levels ((Head.positive n.toNat).write ++ rest) = .ok (n, rest) := by
  have small : n.toNat < 2 ^ 32 := n.toNat_lt
  have fits : n.toNat < 2 ^ 64 := by omega
  have within : (0 : Int) ≤ n.toNat ∧ (n.toNat : Int) ≤ 0xffffffff := by omega
  rw [Reader.u32, read_int_positive fits within, Int.toNat_natCast, UInt32.ofNat_toNat]

theorem read_u16 {n : UInt16} :
    Reader.u16.read levels ((Head.positive n.toNat).write ++ rest) = .ok (n, rest) := by
  have small : n.toNat < 2 ^ 16 := n.toNat_lt
  have fits : n.toNat < 2 ^ 64 := by omega
  have within : (0 : Int) ≤ n.toNat ∧ (n.toNat : Int) ≤ 0xffff := by omega
  rw [Reader.u16, read_int_positive fits within, Int.toNat_natCast, UInt16.ofNat_toNat]

theorem read_u8 {b : UInt8} :
    Reader.u8.read levels ((Head.positive b.toNat).write ++ rest) = .ok (b, rest) := by
  have small : b.toNat < 2 ^ 8 := b.toNat_lt
  have fits : b.toNat < 2 ^ 64 := by omega
  have within : (0 : Int) ≤ b.toNat ∧ (b.toNat : Int) ≤ 0xff := by omega
  rw [Reader.u8, read_int_positive fits within, Int.toNat_natCast, UInt8.ofNat_toNat]

end Unsigned

end ObjectStore.Cbor
