import ObjectStore.Proofs.Cbor.Survey

/-! # What is read can be surveyed

Whatever a typed reader takes off its input is one item that can be surveyed, and the survey ends
where the reader does. Readers are more particular about what an item is than passing over is, and
they pay for fewer levels, but take no other way through it.
-/

namespace ObjectStore.Cbor

variable {α β σ τ : Type} {levels : Nat} {input content rest : Bytes}

/-! ## Strings -/

theorem eq_append_of_takeBytes {n : Nat} {taken : Bytes}
    (read : takeBytes n input = .ok (taken, rest)) : input = taken ++ rest ∧ taken.length = n := by
  simp only [takeBytes] at read
  split at read
  · rename_i size
    cases read
    exact ⟨(List.take_append_drop n input).symm, size⟩
  · cases read

/-- What is read as a big number in pieces can be taken at once. -/
theorem takeBytes_of_bigPieces {fuel unread : Nat} {digits digits' : Bytes}
    (read : bigPieces fuel digits unread input = .ok (digits', rest)) :
    ∃ taken, takeBytes unread input = .ok (taken, rest) := by
  induction fuel generalizing digits unread input with
  | zero => cases read
  | succ fuel ih =>
      rw [bigPieces] at read
      split at read
      · rename_i none
        cases read
        subst none
        exact ⟨[], rfl⟩
      · obtain ⟨piece, behind, first, later⟩ := pair_bind_eq_ok.mp read
        obtain ⟨digits, -, later⟩ := bind_eq_ok.mp later
        obtain ⟨more, last⟩ := ih later
        obtain ⟨rfl, size⟩ := eq_append_of_takeBytes first
        obtain ⟨rfl, size'⟩ := eq_append_of_takeBytes last
        refine ⟨piece ++ more, ?_⟩
        rw [← List.append_assoc]
        refine takeBytes_of_length ?_
        rw [List.length_append, size, size']
        omega

section Strings

variable {kind? : Head → Option (Option Nat)}
  {segment : σ → Nat → Bytes → Except ReadError (σ × Bytes)}
  {segment' : τ → Nat → Bytes → Except ReadError (τ × Bytes)}

/-- Segments may be read for something else. -/
theorem openString_follows
    (each : ∀ {s length input s' rest} t, segment s length input = .ok (s', rest) →
      ∃ t', segment' t length input = .ok (t', rest))
    {budget : Bytes} {nesting : Nat} {s s' : σ} {t : τ}
    (read : openString kind? segment budget nesting s input = .ok (s', rest)) :
    ∃ t', openString kind? segment' budget nesting t input = .ok (t', rest) := by
  induction budget generalizing nesting s t input with
  | nil => cases read
  | cons b budget ih =>
      obtain ⟨head, behind, read, later⟩ := pair_bind_eq_ok.mp read
      simp only [openString, read, bind, Except.bind]
      dsimp only at later
      by_cases stop : head = .stop
      · simp only [stop, if_true] at later ⊢
        by_cases last : nesting ≤ 1
        · simp only [last, if_true] at later ⊢
          cases later
          exact ⟨t, rfl⟩
        · simp only [last, if_false] at later ⊢
          exact ih later
      · simp only [stop, if_false] at later ⊢
        cases kind : kind? head with
        | none =>
            rw [kind] at later
            cases later
        | some length? =>
            cases length? with
            | none =>
                simp only [kind] at later ⊢
                exact ih later
            | some length =>
                simp only [kind] at later ⊢
                obtain ⟨s₁, behind₁, piece, afterwards⟩ := pair_bind_eq_ok.mp later
                obtain ⟨t₁, piece'⟩ := each t piece
                rw [piece']
                exact ih afterwards

theorem stringOf_follows
    (each : ∀ {s length input s' rest} t, segment s length input = .ok (s', rest) →
      ∃ t', segment' t length input = .ok (t', rest))
    {length : Option Nat} {s s' : σ} {t : τ}
    (read : stringOf kind? segment length s input = .ok (s', rest)) :
    ∃ t', stringOf kind? segment' length t input = .ok (t', rest) := by
  cases length with
  | some length => exact each t read
  | none => exact openString_follows @each read

end Strings

theorem bytesContent_of_bigPieces {length : Option Nat} {digits digits' : Bytes}
    (read : stringOf bytesLength? (fun digits length => bigPieces (length + 1) digits length) length
      digits input = .ok (digits', rest)) :
    ∃ bytes, bytesContent length input = .ok (bytes, rest) := by
  refine stringOf_follows (fun bytes read => ?_) read
  obtain ⟨taken, all⟩ := takeBytes_of_bigPieces read
  exact ⟨bytes ++ taken, by rw [all]; rfl⟩

/-- A text that is read in pieces is passed over, also where it is short enough for one piece. -/
theorem skipText_of_textContent {length : Option Nat} {chars : List Char}
    (read : textContent length input = .ok (chars, rest)) : skipText length input = .ok rest := by
  cases length with
  | none => simp only [skipText, read, Except.map]
  | some n =>
      simp only [skipText]
      split
      · rename_i short
        obtain ⟨chars, behind, pieces, whole⟩ := pair_bind_eq_ok.mp read
        cases whole
        cases n with
        | zero =>
            cases pieces
            rfl
        | succ n =>
            have size : min pieceSize (([] : Bytes).length + (n + 1)) - ([] : Bytes).length =
                n + 1 := by
              simp only [List.length_nil, Nat.zero_add, Nat.sub_zero]
              exact Nat.min_eq_right short
            simp only [textSegment] at pieces
            rw [textPieces, if_neg (Nat.succ_ne_zero n), size] at pieces
            obtain ⟨piece, behind, taken, later⟩ := pair_bind_eq_ok.mp pieces
            dsimp only at later
            split at later
            · cases later
            · obtain ⟨more, behind', last, ended⟩ := pair_bind_eq_ok.mp later
              cases ended
              rw [Nat.sub_self, textPieces, if_pos rfl] at last
              split at last
              · rename_i none
                cases last
                have whole : isUtf8 piece = true := none
                simp only [wholeText, taken, whole, if_true, bind, Except.bind, pure, Except.pure,
                  Except.map]
              · cases last
      · simp only [read, Except.map]

theorem length_lt_of_read {head : Head} (read : Head.read input = .ok (head, content)) :
    content.length < input.length := by
  obtain ⟨front, rfl, taken⟩ := delimits_head.front read
  have some : 0 < front.length := List.length_pos_iff.mpr (taken.nil_of_ended read_nil)
  rw [List.length_append]
  omega

/-! ## Items -/

/-- From `input` up to `rest` there is an item that can be surveyed. -/
structure Spans (input rest : Bytes) : Prop where
  length_le : rest.length ≤ input.length
  survey : ∀ {budget : Bytes}, input.length ≤ budget.length →
    ∃ s, Survey.take budget input = .ok (s, rest)

/-- Up to some length of the input, what is read can be read for something else. -/
structure Follows (limit : Nat) (item : σ → Bytes → Except ReadError (σ × Bytes))
    (item' : τ → Bytes → Except ReadError (τ × Bytes)) : Prop where
  length_le : ∀ {s : σ} {input : Bytes} {s' : σ} {rest : Bytes}, item s input = .ok (s', rest) →
    rest.length ≤ input.length
  follow : ∀ {s : σ} {input : Bytes} {s' : σ} {rest : Bytes} (t : τ), input.length ≤ limit →
    item s input = .ok (s', rest) → ∃ t', item' t input = .ok (t', rest)

namespace Follows

variable {item : σ → Bytes → Except ReadError (σ × Bytes)}
  {item' : τ → Bytes → Except ReadError (τ × Bytes)} {limit : Nat}

theorem times (each : Follows limit item item') {n : Nat} :
    Follows limit (times item n) (times item' n) := by
  induction n with
  | zero =>
      refine ⟨fun read => ?_, fun t short read => ?_⟩
      · cases read
        exact Nat.le_refl _
      · cases read
        exact ⟨t, rfl⟩
  | succ n ih =>
      refine ⟨fun read => ?_, fun t short read => ?_⟩
      · obtain ⟨s₁, behind, one, later⟩ := pair_bind_eq_ok.mp read
        exact Nat.le_trans (ih.length_le later) (each.length_le one)
      · obtain ⟨s₁, behind, one, later⟩ := pair_bind_eq_ok.mp read
        obtain ⟨t₁, one'⟩ := each.follow t short one
        rw [Cbor.times, one']
        exact ih.follow t₁ (Nat.le_trans (each.length_le one) short) later

theorem untilStop (each : Follows limit item item') {budget : Bytes} :
    Follows limit (untilStop item budget) (untilStop item' budget) := by
  induction budget with
  | nil => exact ⟨(nomatch ·), fun _ _ read => nomatch read⟩
  | cons b budget ih =>
      refine ⟨fun read => ?_, fun t short read => ?_⟩
      · rw [Cbor.untilStop] at read
        split at read
        · cases read
          rw [List.length_tail]
          exact Nat.sub_le _ _
        · obtain ⟨s₁, behind, one, later⟩ := pair_bind_eq_ok.mp read
          exact Nat.le_trans (ih.length_le later) (each.length_le one)
      · rw [Cbor.untilStop] at read ⊢
        split at read
        · rename_i stop
          cases read
          exact ⟨t, by rw [if_pos stop]⟩
        · rename_i unstopped
          obtain ⟨s₁, behind, one, later⟩ := pair_bind_eq_ok.mp read
          obtain ⟨t₁, one'⟩ := each.follow t short one
          rw [if_neg unstopped, one']
          exact ih.follow t₁ (Nat.le_trans (each.length_le one) short) later

theorem run (each : Follows limit item item') {length : Option Nat} :
    Follows limit (run item length) (run item' length) := by
  cases length with
  | some n => exact each.times
  | none => exact ⟨each.untilStop.length_le, fun t => each.untilStop.follow t⟩

theorem oneMore {budget : Bytes}
    (each : ∀ {s input s' rest}, item s input = .ok (s', rest) → Spans input rest) :
    Follows budget.length item (Survey.oneMore (Survey.take budget)) where
  length_le read := (each read).length_le
  follow found short read := by
    obtain ⟨s, surveyed⟩ := (each read).survey short
    exact ⟨found.merge s, by rw [Survey.oneMore, surveyed]; rfl⟩

theorem twoMore {budget : Bytes}
    (each : ∀ {s input s' rest}, item s input = .ok (s', rest) →
      ∃ behind, Spans input behind ∧ Spans behind rest) :
    Follows budget.length item (Survey.twoMore (Survey.take budget)) where
  length_le read := by
    obtain ⟨behind, key, value⟩ := each read
    exact Nat.le_trans value.length_le key.length_le
  follow found short read := by
    obtain ⟨behind, key, value⟩ := each read
    obtain ⟨s, first⟩ := key.survey short
    obtain ⟨s', later⟩ := value.survey (Nat.le_trans key.length_le short)
    refine ⟨(found.merge s).merge s', ?_⟩
    simp only [Survey.twoMore, Survey.oneMore, first, later, bind, Except.bind, pure, Except.pure]

end Follows

namespace Spans

/-- What is nested in an item is surveyed with a byte less of the budget. -/
theorem nested (shorter : content.length < input.length) (length_le : rest.length ≤ content.length)
    (survey : ∀ {b : UInt8} {budget : Bytes}, content.length ≤ budget.length →
      ∃ s, Survey.take (b :: budget) input = .ok (s, rest)) : Spans input rest where
  length_le := Nat.le_trans length_le (Nat.le_of_lt shorter)
  survey {budget} enough := by
    cases budget with
    | nil => exact absurd (Nat.lt_of_lt_of_le shorter enough) (Nat.not_lt_zero _)
    | cons b budget => exact survey (Nat.le_of_lt_succ (Nat.lt_of_lt_of_le shorter enough))

section Runs

variable {item : σ → Bytes → Except ReadError (σ × Bytes)} {length : Option Nat} {s s' : σ}

theorem array (read : Head.read input = .ok (.array length, content))
    (items : run item length s content = .ok (s', rest))
    (each : ∀ {s input s' rest}, item s input = .ok (s', rest) → Spans input rest) :
    Spans input rest := by
  have follows : ∀ budget : Bytes,
      Follows budget.length (run item length) (run (Survey.oneMore (Survey.take budget)) length) :=
    fun _ => (Follows.oneMore each).run
  refine nested (length_lt_of_read read) ((follows []).length_le items) fun {b budget} enough => ?_
  obtain ⟨found, surveyed⟩ := (follows budget).follow {} enough items
  exact ⟨found.deeper, by simp only [Survey.take, read, surveyed, bind, Except.bind, Except.map]⟩

theorem map (read : Head.read input = .ok (.map length, content))
    (items : run item length s content = .ok (s', rest))
    (each : ∀ {s input s' rest}, item s input = .ok (s', rest) →
      ∃ behind, Spans input behind ∧ Spans behind rest) : Spans input rest := by
  have follows : ∀ budget : Bytes,
      Follows budget.length (run item length) (run (Survey.twoMore (Survey.take budget)) length) :=
    fun _ => (Follows.twoMore each).run
  refine nested (length_lt_of_read read) ((follows []).length_le items) fun {b budget} enough => ?_
  obtain ⟨found, surveyed⟩ := (follows budget).follow {} enough items
  exact ⟨found.deeper, by simp only [Survey.take, read, surveyed, bind, Except.bind, Except.map]⟩

end Runs

section Tags

variable {number : Nat} {next : Head} {behind : Bytes}

theorem tag (read : Head.read input = .ok (.tag number, content))
    (readNext : Head.read content = .ok (next, behind)) (unlike : bigLength? number next = none)
    (later : Spans content rest) : Spans input rest := by
  refine nested (length_lt_of_read read) later.length_le fun {b budget} enough => ?_
  obtain ⟨s, surveyed⟩ := later.survey enough
  refine ⟨s.deeper, ?_⟩
  simp only [Survey.take, read, readNext, unlike, surveyed, bind, Except.bind, Except.map]

theorem big {n : Nat} {digits : Bytes} (read : Head.read input = .ok (.tag number, content))
    (readNext : Head.read content = .ok (next, behind)) (big : bigLength? number next = some n)
    (taken : takeBytes n behind = .ok (digits, rest)) : Spans input rest := by
  have shorter := length_lt_of_read readNext
  have length_le := delimits_takeBytes.length_le taken
  refine nested (length_lt_of_read read) (by omega) fun {b budget} enough => ?_
  simp only [Survey.take, read, readNext, big, taken, bind, Except.bind]
  exact ⟨_, rfl⟩

end Tags

/-- An item in which nothing is nested is surveyed if it is passed over. -/
theorem alone (passes : skipItem none input = .ok rest) : Spans input rest := by
  have length_le : rest.length ≤ input.length := by
    have delimits : Delimits (passing (skipItem none)) := delimits_skipItem fun _ => nofun
    exact delimits.length_le (passing_eq_ok.mpr passes)
  obtain ⟨head, content, read, later⟩ := pair_bind_eq_ok.mp passes
  have known : ∀ {b : UInt8} {budget : Bytes},
      ∃ s, Survey.take (b :: budget) input = .ok (s, rest) := by
    intro b budget
    simp only [Survey.take, read, bind, Except.bind]
    cases head with
    | array | map => cases later
    | tag number =>
        obtain ⟨next, behind, readNext, later⟩ := pair_bind_eq_ok.mp later
        dsimp only at later
        cases big : bigLength? number next with
        | none =>
            rw [big] at later
            cases later
        | some n =>
            rw [big] at later
            obtain ⟨digits, behind, taken, whole⟩ := pair_bind_eq_ok.mp later
            dsimp only at whole
            split at whole
            · cases whole
            · cases whole
              simp only [readNext, big, taken]
              exact ⟨_, rfl⟩
    | _ =>
        simp only [passes]
        exact ⟨{}, rfl⟩
  refine ⟨length_le, fun {budget} enough => ?_⟩
  cases budget with
  | nil => exact absurd (Nat.lt_of_lt_of_le (length_lt_of_read read) enough) (Nat.not_lt_zero _)
  | cons b budget => exact known

/-- What is passed over with any levels left is surveyed. -/
theorem of_skip (passes : skip levels input = .ok rest) : Spans input rest := by
  induction levels generalizing input rest with
  | zero => exact alone passes
  | succ levels ih =>
      obtain ⟨head, content, read, later⟩ := pair_bind_eq_ok.mp passes
      cases head with
      | array length =>
          obtain ⟨⟨u, rest'⟩, items, same⟩ := map_eq_ok.mp later
          cases same
          exact array read items fun one => ih (passing_eq_ok.mp one)
      | map length =>
          obtain ⟨⟨u, rest'⟩, items, same⟩ := map_eq_ok.mp later
          cases same
          refine map read items fun one => ?_
          obtain ⟨rest, passes, same⟩ := map_eq_ok.mp one
          cases same
          obtain ⟨behind, key, value⟩ := bind_eq_ok.mp passes
          exact ⟨behind, ih key, ih value⟩
      | tag number =>
          obtain ⟨next, behind, readNext, later⟩ := pair_bind_eq_ok.mp later
          dsimp only at later
          cases unlike : bigLength? number next with
          | none =>
              rw [unlike] at later
              exact tag read readNext unlike (ih later)
          | some n =>
              rw [unlike] at later
              refine alone ?_
              simp only [skipItem, read, readNext, unlike, bind, Except.bind]
              exact later
      | _ =>
          refine alone ?_
          simp only [skipItem, read, bind, Except.bind]
          exact later

theorem next_of_bigLength? {number n : Nat} {next : Head} (big : bigLength? number next = some n) :
    next = .bytes (some n) := by
  unfold bigLength? at big
  split at big
  · split at big
    · cases big
      rfl
    · cases big
  · cases big

theorem read_of_untagged {budget : Bytes} {head : Head}
    (read : Cbor.untagged budget input = .ok (head, content)) :
    ∃ first behind, Head.read input = .ok (first, behind) ∧
      ((∀ number, first ≠ .tag number) → first = head ∧ behind = content) := by
  cases budget with
  | nil => cases read
  | cons b budget =>
      obtain ⟨first, behind, readFirst, later⟩ := pair_bind_eq_ok.mp read
      refine ⟨first, behind, readFirst, fun other => ?_⟩
      cases first with
      | tag number => exact absurd rfl (other number)
      | _ =>
          cases later
          exact ⟨rfl, rfl⟩

/-- What is read behind tags is surveyed if it is without them; of a short byte string it is asked
that it can be read as a number as well. -/
theorem untagged {budget : Bytes} {head : Head}
    (read : untagged budget input = .ok (head, content))
    (headed : ∀ {input}, Head.read input = .ok (head, content) → Spans input rest)
    (bytes : ∀ n, head = .bytes (some n) → ∃ digits, takeBytes n content = .ok (digits, rest)) :
    Spans input rest := by
  induction budget generalizing input with
  | nil => cases read
  | cons b budget ih =>
      obtain ⟨first, behind, readFirst, later⟩ := pair_bind_eq_ok.mp read
      cases first with
      | tag number =>
          have nested := ih later
          obtain ⟨next, behind', readNext, same⟩ := read_of_untagged later
          cases unlike : bigLength? number next with
          | none => exact tag readFirst readNext unlike nested
          | some n =>
              have short := next_of_bigLength? unlike
              obtain ⟨rfl, rfl⟩ := same fun number => by simp [short]
              obtain ⟨digits, taken⟩ := bytes n short
              exact big readFirst readNext unlike taken
      | _ =>
          cases later
          exact headed readFirst

/-- What can be surveyed begins with a head. -/
theorem head (spans : Spans input rest) :
    ∃ head content, Head.read input = .ok (head, content) := by
  obtain ⟨s, surveyed⟩ := spans.survey (Nat.le_refl _)
  cases input with
  | nil => cases surveyed
  | cons first input =>
      obtain ⟨head, content, read, -⟩ := pair_bind_eq_ok.mp surveyed
      exact ⟨head, content, read⟩

theorem bytes {length : Option Nat} {all : Bytes}
    (read : Head.read input = .ok (.bytes length, content))
    (taken : bytesContent length content = .ok (all, rest)) : Spans input rest := by
  refine alone ?_
  simp only [skipItem, read, taken, bind, Except.bind, Except.map]

end Spans

/-! ## Numbers -/

theorem takeBytes_of_bytesContent {n : Nat} {all : Bytes}
    (read : bytesContent (some n) input = .ok (all, rest)) :
    ∃ taken, takeBytes n input = .ok (taken, rest) := by
  obtain ⟨taken, behind, one, same⟩ := pair_bind_eq_ok.mp read
  cases same
  exact ⟨taken, one⟩

theorem bigLength?_other {number : Nat} (unlike : ¬(number = bigPositive ∨ number = bigNegative))
    (next : Head) : bigLength? number next = none := by
  unfold bigLength?
  split
  · simp only [unlike, false_and, if_false]
  · rfl

theorem spans_readBig {number n : Nat} (read : Head.read input = .ok (.tag number, content))
    (big : readBig content = .ok (n, rest)) : Spans input rest := by
  obtain ⟨next, behind, readNext, later⟩ := pair_bind_eq_ok.mp big
  cases next with
  | bytes length =>
      obtain ⟨digits, rest', pieces, same⟩ := pair_bind_eq_ok.mp later
      cases same
      obtain ⟨all, whole⟩ := bytesContent_of_bigPieces pieces
      cases big : bigLength? number (.bytes length) with
      | none => exact .tag read readNext big (.bytes readNext whole)
      | some size =>
          cases Spans.next_of_bigLength? big
          obtain ⟨taken, one⟩ := takeBytes_of_bytesContent whole
          exact .big read readNext big one
  | _ => cases later

theorem spans_readInt {budget : Bytes} {n : Int} (read : readInt budget input = .ok (n, rest)) :
    Spans input rest := by
  induction budget generalizing input with
  | nil => cases read
  | cons b budget ih =>
      obtain ⟨head, content, readHead, later⟩ := pair_bind_eq_ok.mp read
      cases head with
      | positive | negative =>
          cases later
          refine .alone ?_
          simp only [skipItem, readHead]
          rfl
      | tag number =>
          dsimp only at later
          split at later
          · obtain ⟨n, rest', big, same⟩ := pair_bind_eq_ok.mp later
            cases same
            exact spans_readBig readHead big
          · split at later
            · obtain ⟨n, rest', big, same⟩ := pair_bind_eq_ok.mp later
              cases same
              exact spans_readBig readHead big
            · rename_i positive negative
              obtain ⟨next, behind, readNext⟩ := (ih later).head
              have unlike := bigLength?_other (not_or.mpr ⟨positive, negative⟩) next
              exact .tag readHead readNext unlike (ih later)
      | _ => cases later

/-! ## Readers -/

namespace Reader

/-- What the reader takes off its input is one item that can be surveyed. -/
structure Surveyable (reader : Reader α) : Prop where
  spans : ∀ {levels : Nat} {input : Bytes} {a : α} {rest : Bytes},
    reader.read levels input = .ok (a, rest) → Spans input rest

theorem deeper_eq_ok {content : Nat → Except ReadError α} {a : α}
    (read : deeper levels content = .ok a) : ∃ levels, content levels = .ok a := by
  cases levels with
  | zero => cases read
  | succ levels => exact ⟨levels, read⟩

namespace Surveyable

variable {reader : Reader α}

/-- A value is known by its head and what passing over it takes off, but for a byte string. -/
theorem ofHead {f : Head → Bytes → Except ReadError (α × Bytes)}
    (leaf : ∀ {head content a rest}, f head content = .ok (a, rest) →
      (∀ n, head ≠ .bytes (some n)) ∧
        ∀ {input}, Head.read input = .ok (head, content) → skipItem none input = .ok rest) :
    (Reader.ofHead f).Surveyable := by
  refine ⟨fun read => ?_⟩
  obtain ⟨head, content, untagged, later⟩ := pair_bind_eq_ok.mp read
  obtain ⟨other, passes⟩ := leaf later
  exact .untagged untagged (fun read => .alone (passes read)) fun n short => absurd short (other n)

theorem bool : Reader.bool.Surveyable := by
  refine ofHead fun read => ?_
  split at read <;> cases read
  all_goals
    refine ⟨fun n other => (by cases other), fun read => ?_⟩
    simp only [skipItem, read]
    rfl

theorem unit : Reader.unit.Surveyable := by
  refine ofHead fun read => ?_
  split at read <;> cases read
  all_goals
    refine ⟨fun n other => (by cases other), fun read => ?_⟩
    simp only [skipItem, read]
    rfl

theorem float : Reader.float.Surveyable := by
  refine ⟨fun read => ?_⟩
  obtain ⟨head, content, untagged, later⟩ := pair_bind_eq_ok.mp read
  cases head with
  | float bits =>
      cases later
      refine .untagged untagged (fun read => .alone ?_) fun n short => (by cases short)
      simp only [skipItem, read]
      rfl
  | _ => cases later

theorem text : Reader.text.Surveyable := by
  refine ofHead fun read => ?_
  split at read
  · obtain ⟨chars, rest', content, same⟩ := pair_bind_eq_ok.mp read
    cases same
    refine ⟨nofun, fun read => ?_⟩
    simp only [skipItem, read, skipText_of_textContent content, bind, Except.bind]
  · cases read

theorem int {low high : Int} {of : Int → α} : (Reader.int low high of).Surveyable := by
  refine ⟨fun read => ?_⟩
  obtain ⟨n, rest, read, bound⟩ := pair_bind_eq_ok.mp read
  obtain ⟨a, -, same⟩ := bind_eq_ok.mp bound
  cases same
  exact spans_readInt read

theorem ignored : Reader.ignored.Surveyable :=
  ⟨fun read => .of_skip (passing_eq_ok.mp read)⟩

theorem map {f : α → β} (surveyable : reader.Surveyable) : (reader.map f).Surveyable := by
  refine ⟨fun read => ?_⟩
  obtain ⟨⟨a, rest⟩, read, same⟩ := map_eq_ok.mp read
  cases same
  exact surveyable.spans read

theorem option (surveyable : reader.Surveyable) : (Reader.option reader).Surveyable := by
  refine ⟨fun read => ?_⟩
  obtain ⟨head, content, readHead, later⟩ := pair_bind_eq_ok.mp read
  dsimp only at later
  split at later
  case h_1 null | h_2 null =>
    cases null
    cases later
    refine .alone ?_
    simp only [skipItem, readHead]
    rfl
  · obtain ⟨a, rest, present, same⟩ := pair_bind_eq_ok.mp later
    cases same
    exact surveyable.spans present

theorem list (surveyable : reader.Surveyable) : (Reader.list reader).Surveyable := by
  refine ⟨fun {levels input a rest} read => ?_⟩
  obtain ⟨head, content, untagged, later⟩ := pair_bind_eq_ok.mp read
  cases head with
  | array length =>
      obtain ⟨levels, items⟩ := deeper_eq_ok later
      obtain ⟨items, rest, run, same⟩ := pair_bind_eq_ok.mp items
      cases same
      refine .untagged untagged (fun read => ?_) nofun
      refine .array read run fun one => ?_
      obtain ⟨a, rest, one, same⟩ := pair_bind_eq_ok.mp one
      cases same
      exact surveyable.spans one
  | bytes length =>
      obtain ⟨all, rest, taken, items⟩ := pair_bind_eq_ok.mp later
      obtain ⟨items, -, same⟩ := bind_eq_ok.mp items
      cases same
      refine .untagged untagged (fun read => .bytes read taken) fun n short => ?_
      cases short
      exact takeBytes_of_bytesContent taken
  | _ => cases later

theorem entries (surveyable : reader.Surveyable) : (Reader.entries reader).Surveyable := by
  refine ⟨fun {levels input a rest} read => ?_⟩
  obtain ⟨head, content, untagged, later⟩ := pair_bind_eq_ok.mp read
  cases head with
  | map length =>
      obtain ⟨levels, items⟩ := deeper_eq_ok later
      obtain ⟨items, rest, run, same⟩ := pair_bind_eq_ok.mp items
      cases same
      refine .untagged untagged (fun read => ?_) nofun
      refine .map read run fun one => ?_
      obtain ⟨entry, rest, one, same⟩ := pair_bind_eq_ok.mp one
      cases same
      obtain ⟨key, behind, key, value⟩ := pair_bind_eq_ok.mp one
      obtain ⟨value, rest, value, same⟩ := pair_bind_eq_ok.mp value
      cases same
      exact ⟨behind, text.spans key, surveyable.spans value⟩
  | _ => cases later

end Surveyable

/-! ## Named fields -/

theorem spans_readKey {key : Bytes} (read : readKey input = .ok (key, rest)) :
    Spans input rest := by
  obtain ⟨head, content, untagged, later⟩ := pair_bind_eq_ok.mp read
  split at later
  case h_1 n behind text =>
    cases text
    split at later
    · rename_i short
      have size : n ≤ wholeSize := short
      refine .untagged untagged (fun read => .alone ?_) nofun
      simp only [skipItem, read, skipText, size, if_true, later, bind, Except.bind, Except.map]
    · cases later
  case h_2 n behind bytes =>
    cases bytes
    split at later
    · have whole : bytesContent (some n) content = .ok ([] ++ key, rest) := by
        simp only [bytesContent, stringOf, later]
        rfl
      refine .untagged untagged (fun read => .bytes read whole) fun n short => ?_
      cases short
      exact ⟨key, later⟩
    · cases later
  · cases later

theorem Surveyable.ofFields {fields : List (Field σ)} {start : σ} {finish : σ → Except ReadError α}
    (each : ∀ field ∈ fields, ∀ {levels s input s' rest},
      field.readInto levels s input = .ok (s', rest) → Spans input rest) :
    (Reader.fields fields start finish).Surveyable := by
  refine ⟨fun {levels input a rest} read => ?_⟩
  obtain ⟨head, content, untagged, later⟩ := pair_bind_eq_ok.mp read
  cases head with
  | map length =>
      obtain ⟨levels, entries⟩ := deeper_eq_ok later
      obtain ⟨s, rest, run, finished⟩ := pair_bind_eq_ok.mp entries
      obtain ⟨a, -, same⟩ := bind_eq_ok.mp finished
      cases same
      refine .untagged untagged (fun read => ?_) nofun
      refine .map read run fun one => ?_
      obtain ⟨key, behind, key, value⟩ := pair_bind_eq_ok.mp one
      refine ⟨behind, spans_readKey key, ?_⟩
      dsimp only at value
      split at value
      · rename_i field found
        split at value
        · cases value
        · exact each field (List.mem_of_find?_eq_some found) value
      · obtain ⟨rest, passed, same⟩ := bind_eq_ok.mp value
        cases same
        exact .of_skip passed
  | _ => cases later

theorem Surveyable.field {name : String} {reader : Reader α} {place : σ → Option α}
    {fill : σ → α → σ} (surveyable : reader.Surveyable) :
    ∀ {levels s input s' rest},
      (Field.of name reader place fill).readInto levels s input = .ok (s', rest) →
        Spans input rest := by
  intro levels s input s' rest read
  obtain ⟨a, rest, read, same⟩ := pair_bind_eq_ok.mp read
  cases same
  exact surveyable.spans read

end Reader

end ObjectStore.Cbor
