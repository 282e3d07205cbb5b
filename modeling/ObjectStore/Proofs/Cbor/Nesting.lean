import ObjectStore.Proofs.Cbor.Records
import ObjectStore.Proofs.Cbor.Skipping

/-! # How deep a body may be nested

Writing knows no limit: every body of which no part refuses is written, however deep its lists and
maps are nested. The id of such a record is read without the body by passing over it, for which the
record leaves 255 levels. So the id is found exactly up to this depth, and beyond it the limit is
reported, whatever the body is made of.
-/

namespace ObjectStore

open Cbor

namespace Cbor.Value

mutual

/-- No part of a value refuses to be written. -/
def Plain : Value → Prop
  | refuse _ => False
  | list _ items => PlainItems items
  | map _ entries => PlainEntries entries
  | null | bool _ | natural _ | negative _ | float _ | text _ | bytes _ => True

def PlainItems : List Value → Prop
  | [] => True
  | v :: vs => v.Plain ∧ PlainItems vs

def PlainEntries : List (Value × Value) → Prop
  | [] => True
  | (k, v) :: entries => k.Plain ∧ v.Plain ∧ PlainEntries entries

end

mutual

theorem refusal_eq_none : (v : Value) → (v.write.refusal = none ↔ v.Plain)
  | null | bool _ | natural _ | negative _ | float _ | text _ | bytes _ => by simp [write, Plain]
  | refuse why => by simp [write, Plain]
  | list sized items => by rw [refusal_list, Plain, refusals_items]
  | map sized entries => by rw [refusal_map, Plain, refusals_entries]

theorem refusals_items : (vs : List Value) →
    ((∀ v ∈ vs, v.write.refusal = none) ↔ PlainItems vs)
  | [] => by simp [PlainItems]
  | v :: vs => by rw [List.forall_mem_cons, PlainItems, refusal_eq_none v, refusals_items vs]

theorem refusals_entries : (entries : List (Value × Value)) →
    ((∀ entry ∈ entries, entry.1.write.refusal = none ∧ entry.2.write.refusal = none) ↔
      PlainEntries entries)
  | [] => by simp [PlainEntries]
  | (k, v) :: entries => by
      rw [List.forall_mem_cons, PlainEntries, refusal_eq_none k, refusal_eq_none v,
        refusals_entries entries, and_assoc]

end

/-! ## Lists of one item -/

variable {n : Nat} {v : Value}

theorem nest_succ : nest (n + 1) v = ofList [nest n v] := rfl

theorem depth_nest : (nest n v).depth = n + v.depth := by
  induction n with
  | zero => exact (Nat.zero_add _).symm
  | succ n ih =>
      rw [nest_succ, ofList, depth, depthItems, depthItems, ih]
      omega

theorem plain_nest (plain : v.Plain) : (nest n v).Plain := by
  induction n with
  | zero => exact plain
  | succ n ih => exact ⟨ih, trivial⟩

theorem fits_nest (fits : v.Fits) : (nest n v).Fits := by
  induction n with
  | zero => exact fits
  | succ n ih => exact ⟨(by decide : 1 < 2 ^ 64), ih, trivial⟩

end Cbor.Value

/-- A body of which no part refuses can be written under every id, and whatever bytes come behind
    the record, its id can be read without the body exactly if the body's lists and maps are nested
    at most 255 deep; else there are not levels enough. -/
theorem Record.peekId_up_to_levels (id : UInt64) (body : Value) (plain : body.Plain)
    (fits : body.Fits) :
    ∃ record, Record.encode id body = .ok record ∧ ∀ rest, Record.peekId (record ++ rest) =
      if body.depth ≤ 255 then .ok id else .error (.unreadable .tooDeep) := by
  have written : body.write.refusal = none := (Value.refusal_eq_none body).mpr plain
  have whole : (Record.write id body).refusal = none := Output.refusal_append.mpr ⟨rfl, written⟩
  refine ⟨(Record.write id body).bytes, by simp only [Record.encode, whole], fun rest => ?_⟩
  rw [Record.peekId, Record.decode_write, Reader.ignored]
  dsimp only
  rw [skip_written body written fits]
  by_cases shallow : body.depth ≤ 255
  · rw [if_pos shallow, if_pos shallow]
    rfl
  · rw [if_neg shallow, if_neg shallow]
    rfl

/-- An open map with the least number, inside lists: in an open one with a long byte string behind
    it the depth is 255 and the id is found, one level deeper it is not. -/
theorem Record.peekId_of_nested :
    let body := Value.map false [(.text "Gerät", .negative (-1))]
    let nested := Value.list false [.nest 253 body, .bytes (List.replicate 5000 0xff)]
    (nested.Plain ∧ nested.Fits ∧ ∃ record, Record.encode 7 nested = .ok record ∧ ∀ rest,
      Record.peekId (record ++ rest) = .ok 7) ∧
    (Value.nest 255 body).Plain ∧ (Value.nest 255 body).Fits ∧
      ∃ record, Record.encode 7 (.nest 255 body) = .ok record ∧ ∀ rest,
        Record.peekId (record ++ rest) = .error (.unreadable .tooDeep) := by
  intro body nested
  have plain : body.Plain := ⟨trivial, trivial, trivial⟩
  have name : (utf8 "Gerät").length < 2 ^ 64 := by decide
  have fits : body.Fits := ⟨by decide, name, trivial, trivial⟩
  have nested_plain : nested.Plain := ⟨Value.plain_nest plain, trivial, trivial⟩
  have nested_fits : nested.Fits := by
    refine ⟨by decide, Value.fits_nest fits, ?_, trivial⟩
    change (List.replicate 5000 (0xff : UInt8)).length < 2 ^ 64
    rw [List.length_replicate]
    decide
  have depth : nested.depth = 255 := by
    simp only [nested, Value.depth, Value.depthItems, Value.depth_nest, body, Value.depthEntries]
    decide
  have deep : (Value.nest 255 body).depth = 256 := by
    rw [Value.depth_nest]
    rfl
  refine ⟨⟨nested_plain, nested_fits, ?_⟩, Value.plain_nest plain, Value.fits_nest fits, ?_⟩
  · have peeked := peekId_up_to_levels 7 nested nested_plain nested_fits
    rwa [depth, if_pos (Nat.le_refl 255)] at peeked
  · have peeked :=
      peekId_up_to_levels 7 (.nest 255 body) (Value.plain_nest plain) (Value.fits_nest fits)
    rwa [deep, if_neg (by decide)] at peeked

end ObjectStore
