import ObjectStore.Proofs.Cbor.Delimited
import ObjectStore.Proofs.Cbor.Skipping

/-! # What passing over an item takes

An item is surveyed without a limit: how deep things are nested in it, and whether it holds a number
that is too large. This tells what comes of passing over it with so many levels left. It is passed
over to its end if the levels are enough and the number fits; otherwise one of the two is the reason
that is given.
-/

namespace ObjectStore.Cbor

/-- What was found in items that were surveyed. -/
structure Survey where
  /-- How deep arrays, maps and tags are nested. The tag of a big number right before a byte string
  of known length that is short enough for one is a part of the number. -/
  depth : Nat := 0
  /-- Whether there is such a number that is negative and does not fit 128 bits with its sign. -/
  overlarge : Bool := false
  deriving DecidableEq, Repr

namespace Survey

def deeper (s : Survey) : Survey :=
  { s with depth := s.depth + 1 }

/-- What was found in either of two items. -/
def merge (s t : Survey) : Survey :=
  ⟨max s.depth t.depth, s.overlarge || t.overlarge⟩

/-- Survey one item more. -/
def oneMore (item : Bytes → Except ReadError (Survey × Bytes)) (found : Survey) (input : Bytes) :
    Except ReadError (Survey × Bytes) := do
  let (s, input) ← item input
  return (found.merge s, input)

/-- Survey a key and its value. -/
def twoMore (item : Bytes → Except ReadError (Survey × Bytes)) (found : Survey) (input : Bytes) :
    Except ReadError (Survey × Bytes) := do
  let (found, input) ← oneMore item found input
  oneMore item found input

/-- Survey an item. Every item nested in another one is shorter, so that the input is `budget`
enough. -/
def take : (budget : Bytes) → Bytes → Except ReadError (Survey × Bytes)
  | [], _ => .error .ended
  | _ :: budget, input => do
    let nested (content : Except ReadError (Survey × Bytes)) : Except ReadError (Survey × Bytes) :=
      content.map fun (s, rest) => (s.deeper, rest)
    let (head, rest) ← Head.read input
    match head with
    | .array length => nested (run (oneMore (take budget)) length {} rest)
    | .map length => nested (run (twoMore (take budget)) length {} rest)
    | .tag number =>
      let (next, content) ← Head.read rest
      match bigLength? number next with
      | some n =>
        let (digits, rest) ← takeBytes n content
        return ({ overlarge := number = bigNegative ∧ twoTo 127 ≤ ofBigEndian digits }, rest)
      | none => nested (take budget rest)
    | _ => return ({}, ← skipItem none input)

/-- Nothing found stands against passing over with so many levels left. -/
structure Clear (s : Survey) (levels : Nat) : Prop where
  depth : s.depth ≤ levels
  fitting : s.overlarge = false

/-- All that was found first was found at last. -/
structure Within (s t : Survey) : Prop where
  depth : s.depth ≤ t.depth
  overlarge : s.overlarge = true → t.overlarge = true

/-- What comes of passing over what was surveyed. -/
inductive Verdict (s : Survey) (levels : Nat) (rest : Bytes) : Except ReadError Bytes → Prop where
  | passed : s.Clear levels → Verdict s levels rest (.ok rest)
  | tooDeep : levels < s.depth → Verdict s levels rest (.error .tooDeep)
  | unfitting : s.overlarge = true → Verdict s levels rest (.error .unfitting)

variable {s t u found : Survey} {levels : Nat} {input content rest : Bytes}
  {result : Except ReadError Bytes}

theorem Within.refl : s.Within s :=
  ⟨Nat.le_refl _, id⟩

theorem Within.trans (first : s.Within t) (later : t.Within u) : s.Within u :=
  ⟨Nat.le_trans first.depth later.depth, fun large => later.overlarge (first.overlarge large)⟩

theorem within_merge_left : s.Within (s.merge t) :=
  ⟨Nat.le_max_left _ _, fun large => by simp [merge, large]⟩

theorem within_merge_right : t.Within (s.merge t) :=
  ⟨Nat.le_max_right _ _, fun large => by simp [merge, large]⟩

theorem clear_empty : ({} : Survey).Clear levels :=
  ⟨Nat.zero_le _, rfl⟩

theorem Clear.merge (first : s.Clear levels) (later : t.Clear levels) :
    (s.merge t).Clear levels :=
  ⟨Nat.max_le.mpr ⟨first.depth, later.depth⟩, by simp [Survey.merge, first.fitting, later.fitting]⟩

theorem Verdict.deeper (verdict : s.Verdict levels rest result) :
    s.deeper.Verdict (levels + 1) rest result := by
  cases verdict with
  | passed clear => exact .passed ⟨Nat.succ_le_succ clear.depth, clear.fitting⟩
  | tooDeep deep => exact .tooDeep (Nat.succ_lt_succ deep)
  | unfitting overlarge => exact .unfitting overlarge

/-! ## Runs -/

/-- Passing over keeps to what is added to a survey, if nothing stands against it before. -/
structure Judges (levels : Nat) (item : Survey → Bytes → Except ReadError (Survey × Bytes))
    (skip : Bytes → Except ReadError Bytes) : Prop where
  grows : ∀ {found s : Survey} {input rest : Bytes}, item found input = .ok (s, rest) →
    found.Within s
  verdict : ∀ {found s : Survey} {input rest : Bytes}, item found input = .ok (s, rest) →
    found.Clear levels → s.Verdict levels rest (skip input)

namespace Judges

variable {item item' : Survey → Bytes → Except ReadError (Survey × Bytes)}
  {skip skip' : Bytes → Except ReadError Bytes}

theorem oneMore {item : Bytes → Except ReadError (Survey × Bytes)}
    (each : ∀ {input s rest}, item input = .ok (s, rest) → s.Verdict levels rest (skip input)) :
    Judges levels (oneMore item) skip where
  grows taken := by
    obtain ⟨s, behind, -, merged⟩ := pair_bind_eq_ok.mp taken
    cases merged
    exact within_merge_left
  verdict {found s input rest} taken clear := by
    obtain ⟨s, behind, one, merged⟩ := pair_bind_eq_ok.mp taken
    cases merged
    have verdict := each one
    generalize skip input = result at verdict ⊢
    cases verdict with
    | passed clear' => exact .passed (clear.merge clear')
    | tooDeep deep => exact .tooDeep (Nat.lt_of_lt_of_le deep within_merge_right.depth)
    | unfitting overlarge => exact .unfitting (within_merge_right.overlarge overlarge)

theorem seq (first : Judges levels item skip) (later : Judges levels item' skip') :
    Judges levels (fun found input => item found input >>= fun (found, input) => item' found input)
      (fun input => skip input >>= skip') where
  grows taken := by
    obtain ⟨s, behind, one, two⟩ := pair_bind_eq_ok.mp taken
    exact (first.grows one).trans (later.grows two)
  verdict {found s input rest} taken clear := by
    obtain ⟨mid, behind, one, two⟩ := pair_bind_eq_ok.mp taken
    have verdict := first.verdict one clear
    have grown := later.grows two
    generalize skip input = result at verdict ⊢
    cases verdict with
    | passed clear' => exact later.verdict two clear'
    | tooDeep deep => exact .tooDeep (Nat.lt_of_lt_of_le deep grown.depth)
    | unfitting overlarge => exact .unfitting (grown.overlarge overlarge)

theorem nothing : Judges levels (fun found input => .ok (found, input)) .ok where
  grows taken := by
    cases taken
    exact .refl
  verdict taken clear := by
    cases taken
    exact .passed clear

theorem times (each : Judges levels item skip) {n : Nat} :
    Judges levels (times item n)
      fun input => (Cbor.times (fun _ => passing skip) n () input).map Prod.snd := by
  induction n with
  | zero => exact nothing
  | succ n ih =>
      have both := each.seq ih
      refine ⟨both.grows, fun {found s input rest} taken clear => ?_⟩
      have verdict := both.verdict taken clear
      rw [Cbor.times, passing]
      cases passes : skip input <;> rw [passes] at verdict <;> exact verdict

theorem untilStop (each : Judges levels item skip) {budget : Bytes} :
    Judges levels (untilStop item budget)
      fun input => (Cbor.untilStop (fun _ => passing skip) budget () input).map Prod.snd := by
  induction budget with
  | nil => exact ⟨(nomatch ·), (nomatch ·)⟩
  | cons b budget ih =>
      have both := each.seq ih
      refine ⟨fun {found s input rest} taken => ?_, fun {found s input rest} taken clear => ?_⟩
      · rw [Cbor.untilStop] at taken
        split at taken
        · cases taken
          exact .refl
        · exact both.grows taken
      · rw [Cbor.untilStop] at taken
        rw [Cbor.untilStop]
        split at taken
        · rename_i stop
          cases taken
          rw [if_pos stop]
          exact .passed clear
        · rename_i unstopped
          have verdict := both.verdict taken clear
          rw [if_neg unstopped, passing]
          cases passes : skip input <;> rw [passes] at verdict <;> exact verdict

theorem run (each : Judges levels item skip) {length : Option Nat} :
    Judges levels (run item length) (skipRun skip length) := by
  cases length with
  | some n => exact each.times
  | none => exact ⟨each.untilStop.grows, each.untilStop.verdict⟩

end Judges

/-! ## Items -/

theorem skip_tag {number : Nat} {next : Head} {behind : Bytes}
    (read : Head.read input = .ok (.tag number, content))
    (readNext : Head.read content = .ok (next, behind))
    (unlike : bigLength? number next = none) :
    skip levels input = Reader.deeper levels fun levels => skip levels content := by
  cases levels <;>
    simp only [skip, skipItem, read, readNext, unlike, Reader.deeper, bind, Except.bind]

theorem skip_big {number n : Nat} {next : Head} {behind : Bytes}
    (read : Head.read input = .ok (.tag number, content))
    (readNext : Head.read content = .ok (next, behind))
    (big : bigLength? number next = some n) : skip levels input = skipBig number n behind := by
  cases levels <;> simp only [skip, skipItem, read, readNext, big, bind, Except.bind]

/-- What is nested takes a level. -/
theorem deeper_verdict {item : Except ReadError (Survey × Bytes)}
    {passes : Nat → Except ReadError Bytes}
    (surveyed : (item.map fun (s, rest) => (s.deeper, rest)) = .ok (s, rest))
    (verdict : ∀ {s levels}, item = .ok (s, rest) → s.Verdict levels rest (passes levels)) :
    s.Verdict levels rest (Reader.deeper levels passes) := by
  cases item with
  | error why => cases surveyed
  | ok found =>
      cases surveyed
      cases levels with
      | zero => exact .tooDeep (Nat.succ_pos _)
      | succ levels => exact (verdict rfl).deeper

/-- The survey of an item tells what comes of passing over it. -/
theorem take_verdict {budget : Bytes} (surveyed : take budget input = .ok (s, rest)) :
    s.Verdict levels rest (skip levels input) := by
  induction budget generalizing input levels s rest with
  | nil => cases surveyed
  | cons b budget ih =>
      obtain ⟨head, content, read, later⟩ := pair_bind_eq_ok.mp surveyed
      have one : ∀ {levels}, Judges levels (oneMore (take budget)) (skip levels) := .oneMore ih
      cases head with
      | array length =>
          rw [skip_array read]
          exact deeper_verdict later fun surveyed => one.run.verdict surveyed clear_empty
      | map length =>
          rw [skip_map read]
          refine deeper_verdict later fun surveyed => ?_
          exact (one.seq one).run.verdict surveyed clear_empty
      | tag number =>
          obtain ⟨next, behind, readNext, later⟩ := pair_bind_eq_ok.mp later
          dsimp only at later
          cases big : bigLength? number next with
          | none =>
              rw [big] at later
              rw [skip_tag read readNext big]
              exact deeper_verdict later ih
          | some n =>
              rw [big] at later
              obtain ⟨digits, behind', taken, found⟩ := pair_bind_eq_ok.mp later
              cases found
              rw [skip_big read readNext big]
              simp only [skipBig, taken, bind, Except.bind]
              split
              · rename_i large
                exact .unfitting (decide_eq_true large)
              · rename_i fits
                exact .passed ⟨Nat.zero_le _, decide_eq_false fits⟩
      | _ =>
          obtain ⟨rest, passes, found⟩ := bind_eq_ok.mp later
          cases found
          rw [skip_of_skipItem fun inner => ?_]
          · exact .passed clear_empty
          · simp only [skipItem, read, bind, Except.bind] at passes ⊢
            exact passes

end Survey

end ObjectStore.Cbor
