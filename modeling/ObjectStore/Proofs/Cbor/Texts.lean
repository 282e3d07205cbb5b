import ObjectStore.Cbor.Value
import ObjectStore.Proofs.Cbor.Heads

/-! # Texts are read as they are written

A text is written in UTF-8 and read in pieces that may end within a character. What is kept back
for the next piece is then the beginning of one character: too short to be read, and never as long
as a whole one.
-/

namespace ObjectStore.Cbor

variable {c : Char} {chars : List Char} {bytes tail rest kept : Bytes}

/-! ## Single characters -/

theorem nextChar?_encode : nextChar? (String.utf8EncodeChar c ++ rest) = some (c, rest) := by
  have size : (String.utf8EncodeChar c).length = c.utf8Size := String.length_utf8EncodeChar c
  have short : (String.utf8EncodeChar c ++ rest).take 4 =
      String.utf8EncodeChar c ++ rest.take (4 - c.utf8Size) := by
    rw [List.take_append, size, List.take_of_length_le]
    rw [size]
    exact c.utf8Size_le_four
  have decoded :
      (String.utf8EncodeChar c ++ rest.take (4 - c.utf8Size)).toByteArray.utf8DecodeChar? 0 =
        some c := by
    rw [List.toByteArray_append]
    exact ByteArray.utf8DecodeChar?_utf8EncodeChar_append
  simp only [nextChar?, short, decoded]
  rw [← size, List.drop_left]

theorem eq_encode_append {back : Bytes} (read : nextChar? bytes = some (c, back)) :
    bytes = String.utf8EncodeChar c ++ back := by
  simp only [nextChar?] at read
  split at read
  · rename_i d decoded
    cases read
    obtain ⟨more, encoded⟩ := ByteArray.exists_of_utf8DecodeChar?_eq_some decoded
    have front : bytes.take 4 = String.utf8EncodeChar c ++ more.data.toList := by
      have lists := congrArg (·.data.toList) encoded
      simpa [List.toList_data_toByteArray] using lists
    have size : (String.utf8EncodeChar c).length = c.utf8Size := String.length_utf8EncodeChar c
    have taken : String.utf8EncodeChar c = bytes.take c.utf8Size := by
      have cut := congrArg (List.take c.utf8Size) front
      rw [List.take_take, Nat.min_eq_left c.utf8Size_le_four] at cut
      rw [cut, ← size, List.take_left]
    rw [taken, List.take_append_drop]
  · cases read

theorem nextChar?_nil : nextChar? [] = none := rfl

theorem encode_ne_nil : String.utf8EncodeChar c ≠ [] := String.utf8EncodeChar_ne_nil

theorem eq_head_of_nextChar? {back : Bytes}
    (whole : bytes ++ tail = chars.flatMap String.utf8EncodeChar)
    (read : nextChar? bytes = some (c, back)) :
    ∃ cs, chars = c :: cs ∧ back ++ tail = cs.flatMap String.utf8EncodeChar := by
  have split := eq_encode_append read
  rw [split, List.append_assoc] at whole
  cases chars with
  | nil =>
      rw [List.flatMap_nil] at whole
      exact absurd (List.append_eq_nil_iff.mp whole).1 encode_ne_nil
  | cons d cs =>
      rw [List.flatMap_cons] at whole
      have next := congrArg nextChar? whole
      rw [nextChar?_encode, nextChar?_encode, Option.some.injEq, Prod.mk.injEq] at next
      obtain ⟨rfl, later⟩ := next
      exact ⟨cs, rfl, later⟩

/-- The bytes at the front of a written text from which no character is read are fewer than those of
    one character. -/
theorem length_le_keptBack (whole : kept ++ tail = chars.flatMap String.utf8EncodeChar)
    (stuck : nextChar? kept = none) : kept.length ≤ keptBack := by
  cases chars with
  | nil =>
      rw [List.flatMap_nil, List.append_eq_nil_iff] at whole
      simp [whole.1]
  | cons d cs =>
      have size : (String.utf8EncodeChar d).length = d.utf8Size := String.length_utf8EncodeChar d
      have most : d.utf8Size ≤ 4 := d.utf8Size_le_four
      refine Nat.le_of_not_lt fun long => ?_
      simp only [keptBack] at long
      have front : kept = String.utf8EncodeChar d ++ kept.drop d.utf8Size := by
        have cut := congrArg (List.take d.utf8Size) whole
        rw [List.flatMap_cons, ← size, List.take_left,
          List.take_append_of_le_length (by omega)] at cut
        rw [← cut, size, List.take_append_drop]
      rw [front, nextChar?_encode] at stuck
      cases stuck

/-! ## Pieces -/

theorem takeChars_written {fuel : Nat} (enough : bytes.length ≤ fuel)
    (whole : bytes ++ tail = chars.flatMap String.utf8EncodeChar) :
    ∃ front back kept, chars = front ++ back ∧ takeChars fuel bytes = (front, kept) ∧
      kept ++ tail = back.flatMap String.utf8EncodeChar ∧ nextChar? kept = none := by
  induction fuel generalizing bytes chars with
  | zero =>
      have empty : bytes = [] := List.length_eq_zero_iff.mp (by omega)
      subst empty
      exact ⟨[], chars, [], rfl, rfl, whole, nextChar?_nil⟩
  | succ fuel ih =>
      cases read : nextChar? bytes with
      | none =>
          refine ⟨[], chars, bytes, rfl, ?_, whole, read⟩
          simp only [takeChars, read]
      | some next =>
          obtain ⟨c, rest⟩ := next
          obtain ⟨cs, rfl, later⟩ := eq_head_of_nextChar? whole read
          have fewer : rest.length ≤ fuel := by
            have size := congrArg List.length (eq_encode_append read)
            have some : 0 < (String.utf8EncodeChar c).length :=
              List.length_pos_iff.mpr encode_ne_nil
            rw [List.length_append] at size
            omega
          obtain ⟨front, back, kept, rfl, taken, left, stuck⟩ := ih fewer later
          refine ⟨c :: front, back, kept, rfl, ?_, left, stuck⟩
          simp only [takeChars, read, taken]

/-- A segment is read to its end, whatever bytes of it were kept back before. -/
theorem textPieces_written {fuel : Nat} {more : Bytes}
    (whole : kept ++ more = chars.flatMap String.utf8EncodeChar) (stuck : nextChar? kept = none)
    (enough : more.length < fuel) :
    textPieces fuel kept more.length (more ++ rest) = .ok (chars, rest) := by
  induction fuel generalizing kept more chars with
  | zero => omega
  | succ fuel ih =>
      unfold textPieces
      split
      · rename_i none
        rw [List.length_eq_zero_iff] at none
        subst none
        -- nothing of the segment is left, so no character was begun
        cases chars with
        | nil =>
            rw [List.flatMap_nil, List.append_nil] at whole
            simp [whole]
        | cons c cs =>
            rw [List.append_nil, List.flatMap_cons] at whole
            rw [whole, nextChar?_encode] at stuck
            cases stuck
      · have short := length_le_keptBack whole stuck
        simp only [keptBack] at short
        generalize sized : min pieceSize (kept.length + more.length) - kept.length = size
        have some : 0 < size ∧ size ≤ more.length := by
          simp only [pieceSize] at sized
          omega
        have split : more ++ rest = more.take size ++ (more.drop size ++ rest) := by
          rw [← List.append_assoc, List.take_append_drop]
        have taken :
            takeBytes size (more ++ rest) = .ok (more.take size, more.drop size ++ rest) := by
          rw [split]
          exact takeBytes_of_length (List.length_take_of_le some.2)
        have cut : (kept ++ more.take size) ++ more.drop size =
            chars.flatMap String.utf8EncodeChar := by
          rw [List.append_assoc, List.take_append_drop, whole]
        obtain ⟨front, back, kept', rfl, read, left, stuck'⟩ :=
          takeChars_written (Nat.le_refl _) cut
        have short' := length_le_keptBack left stuck'
        have next := ih left stuck' (by rw [List.length_drop]; omega)
        rw [List.length_drop] at next
        simp only [taken, splitChars, read, Nat.not_lt.mpr short', if_false, next, bind,
          Except.bind, pure, Except.pure]

theorem textContent_written {s : String} :
    textContent (some (utf8 s).length) (utf8 s ++ rest) = .ok (s.toList, rest) := by
  have segment : textPieces ((utf8 s).length + 1) [] (utf8 s).length (utf8 s ++ rest) =
      .ok (s.toList, rest) := textPieces_written rfl nextChar?_nil (Nat.lt_succ_self _)
  simp only [textContent, stringOf, textSegment, segment, bind, Except.bind, pure, Except.pure,
    List.nil_append]

theorem read_text_content {s : String} {levels : Nat} (fits : (utf8 s).length < 2 ^ 64) :
    Reader.text.read levels ((Value.text s).write.bytes ++ rest) = .ok (s, rest) := by
  have head := readUntagged_of_read (read_text fits (utf8 s ++ rest)) (by simp)
  rw [Value.write, List.append_assoc]
  simp only [Reader.text, Reader.ofHead, head, textContent_written, bind, Except.bind, pure,
    Except.pure, String.ofList_toList]

/-! ## Texts in one piece -/

theorem isUtf8_utf8 {s : String} : isUtf8 (utf8 s) = true := by
  obtain ⟨front, back, kept, -, taken, left, stuck⟩ :=
    takeChars_written (Nat.le_refl _) (List.append_nil (utf8 s))
  rw [List.append_nil] at left
  cases back with
  | nil => simp [isUtf8, splitChars, taken, left]
  | cons c back =>
      rw [left, List.flatMap_cons, nextChar?_encode] at stuck
      cases stuck

theorem wholeText_written {s : String} :
    wholeText (utf8 s).length (utf8 s ++ rest) = .ok (utf8 s, rest) := by
  simp only [wholeText, takeBytes_append, isUtf8_utf8, if_true, bind, Except.bind, pure,
    Except.pure]

end ObjectStore.Cbor
