import ObjectStore.Proofs.Cbor.Fronts
import ObjectStore.Proofs.Cbor.Heads

/-! # Items end where they end

Heads, strings, numbers and runs of items are taken off the input as fronts, by whatever reads or
passes over them. So every reader that is put together of such parts takes a front off its input,
and none finds a value in a part of what another input starts with.
-/

namespace ObjectStore.Cbor

variable {α β σ : Type}

/-! ## Heads -/

theorem delimits_takeBytes {n : Nat} : Delimits (takeBytes n) := by
  refine ⟨fun {input rest taken} read => ?_⟩
  simp only [takeBytes] at read
  split at read
  · rename_i size
    cases read
    refine ⟨input.take n, (List.take_append_drop n input).symm, fun rest => ?_, ?_⟩
    · exact takeBytes_of_length size
    · intro part missing split some
      have lengths := congrArg List.length split
      have short : 0 < missing.length := List.length_pos_iff.mpr some
      rw [List.length_append, size] at lengths
      have cut : (part.take n).length ≠ n := by
        rw [List.length_take]
        omega
      simp only [takeBytes, cut, if_false]
  · cases read

theorem delimits_argument {info : Nat} : Delimits (Argument.read info) := by
  unfold Argument.read
  split
  case h_5 | h_6 | h_7 => exact .error
  case h_8 | h_9 => exact .pure
  all_goals exact delimits_takeBytes.bind fun _ => .pure

theorem delimits_head : Delimits Head.read := by
  refine ⟨fun {input rest head} read => ?_⟩
  cases input with
  | nil => cases read
  | cons first input =>
      have behind : Delimits fun input =>
          Argument.read (first.toNat % 32) input >>= fun x =>
            Head.ofArgument (first.toNat / 32) x.1 >>= fun head => .ok (head, x.2) :=
        delimits_argument.check
      obtain ⟨front, rfl, taken⟩ := behind.front read
      exact ⟨first :: front, rfl, taken.cons rfl fun _ => rfl⟩

theorem read_nil : Head.read [] = .error .ended := rfl

theorem untagged_within {budget input rest : Bytes} {head : Head}
    (read : untagged budget input = .ok (head, rest)) :
    ∃ front, input = front ++ rest ∧ TakesWithin untagged front head := by
  induction budget generalizing input with
  | nil => cases read
  | cons b budget ih =>
      obtain ⟨first, behind, read, later⟩ := pair_bind_eq_ok.mp read
      obtain ⟨front, rfl, taken⟩ := delimits_head.front read
      cases first with
      | tag number =>
          exact TakesWithin.exists_step (fun _ => rfl) (fun _ _ _ => rfl) taken read_nil (ih later)
      | _ =>
          cases later
          exact TakesWithin.exists_step (fun _ => rfl) (fun _ _ _ => rfl) taken read_nil
            TakesWithin.exists_pure

theorem delimits_untagged : Delimits Head.readUntagged := by
  refine ⟨fun read => ?_⟩
  obtain ⟨front, whole, taken⟩ := untagged_within read
  exact ⟨front, whole, taken.takes⟩

/-! ## Strings -/

theorem delimits_textPieces {fuel unread : Nat} {kept : Bytes} :
    Delimits (textPieces fuel kept unread) := by
  induction fuel generalizing kept unread with
  | zero => exact .error
  | succ fuel ih =>
      refine .congr (.ite (p := unread = 0) (.ite (p := kept.isEmpty) .pure .error) ?_)
        fun input => by rw [textPieces]
      refine delimits_takeBytes.bind fun piece => ?_
      exact .ite .error (ih.bind fun _ => .pure)

section Strings

variable {kind? : Head → Option (Option Nat)}
  {segment : σ → Nat → Bytes → Except ReadError (σ × Bytes)}

theorem openString_within (segments : ∀ s length, Delimits (segment s length))
    {budget input rest : Bytes} {nesting : Nat} {s s' : σ}
    (read : openString kind? segment budget nesting s input = .ok (s', rest)) :
    ∃ front, input = front ++ rest ∧
      TakesWithin (fun budget => openString kind? segment budget nesting s) front s' := by
  induction budget generalizing nesting s input with
  | nil => cases read
  | cons b budget ih =>
      obtain ⟨head, behind, read, later⟩ := pair_bind_eq_ok.mp read
      obtain ⟨front, rfl, taken⟩ := delimits_head.front read
      refine TakesWithin.exists_step (fun _ => rfl) (fun _ _ _ => rfl) taken read_nil ?_
      dsimp only at later ⊢
      by_cases stop : head = .stop
      · simp only [stop, if_true] at later ⊢
        by_cases last : nesting ≤ 1
        · simp only [last, if_true] at later ⊢
          cases later
          exact TakesWithin.exists_pure
        · simp only [last, if_false] at later ⊢
          exact ih later
      · simp only [stop, if_false] at later ⊢
        cases kind : kind? head with
        | none =>
            rw [kind] at later
            cases later
        | some length? =>
            cases length? with
            | none =>
                simp only [kind] at later ⊢
                exact ih later
            | some length =>
                simp only [kind] at later ⊢
                obtain ⟨s₁, behind₁, pieceRead, afterwards⟩ := pair_bind_eq_ok.mp later
                obtain ⟨piece, rfl, pieceTaken⟩ := (segments s length).front pieceRead
                obtain ⟨back, rfl, within⟩ := ih afterwards
                exact ⟨piece ++ back, (List.append_assoc ..).symm, .bind pieceTaken within⟩

theorem delimits_stringOf (segments : ∀ s length, Delimits (segment s length))
    {length : Option Nat} {s : σ} : Delimits (stringOf kind? segment length s) := by
  unfold stringOf
  cases length with
  | some length => exact segments s length
  | none =>
      refine ⟨fun read => ?_⟩
      obtain ⟨front, whole, taken⟩ := openString_within segments read
      exact ⟨front, whole, taken.takes⟩

end Strings

theorem delimits_textContent {length : Option Nat} : Delimits (textContent length) := by
  unfold textContent
  refine delimits_stringOf fun read length => ?_
  exact delimits_textPieces.bind fun chars => .pure

theorem delimits_bytesContent {length : Option Nat} : Delimits (bytesContent length) := by
  unfold bytesContent
  refine delimits_stringOf fun read length => ?_
  exact delimits_takeBytes.bind fun taken => .pure

theorem delimits_wholeText {length : Nat} : Delimits (wholeText length) :=
  delimits_takeBytes.bind fun _ => .ite .pure .error

/-! ## Whole numbers -/

theorem delimits_bigPieces {fuel unread : Nat} {digits : Bytes} :
    Delimits (bigPieces fuel digits unread) := by
  induction fuel generalizing digits unread with
  | zero => exact .error
  | succ fuel ih =>
      refine .congr (.ite (p := unread = 0) .pure (delimits_takeBytes.bind fun piece => ?_))
        fun input => by rw [bigPieces]
      dsimp only
      cases addSignificant digits piece with
      | error why => exact .error
      | ok digits => exact ih

theorem delimits_readBig : Delimits readBig := by
  refine delimits_head.bind fun head => ?_
  cases head with
  | bytes length => exact (delimits_stringOf fun _ _ => delimits_bigPieces).bind fun _ => .pure
  | _ => exact .error

theorem readInt_within {budget input rest : Bytes} {n : Int}
    (read : readInt budget input = .ok (n, rest)) :
    ∃ front, input = front ++ rest ∧ TakesWithin readInt front n := by
  have big {f : Nat → Int} :
      Delimits fun input => readBig input >>= fun x => .ok (f x.1, x.2) :=
    delimits_readBig.bind fun n => .pure (a := f n)
  induction budget generalizing input with
  | nil => cases read
  | cons b budget ih =>
      obtain ⟨head, behind, read, later⟩ := pair_bind_eq_ok.mp read
      obtain ⟨front, rfl, taken⟩ := delimits_head.front read
      cases head with
      | positive | negative =>
          cases later
          exact TakesWithin.exists_step (fun _ => rfl) (fun _ _ _ => rfl) taken read_nil
            TakesWithin.exists_pure
      | tag number =>
          refine TakesWithin.exists_step (fun _ => rfl) (fun _ _ _ => rfl) taken read_nil ?_
          dsimp only at later ⊢
          by_cases positive : number = bigPositive
          · simp only [if_pos positive] at later ⊢
            obtain ⟨back, rfl, number⟩ := (big (f := fun n => n)).front later
            exact ⟨back, rfl, .of_takes number⟩
          · by_cases negative : number = bigNegative
            · simp only [if_neg positive, if_pos negative] at later ⊢
              obtain ⟨back, rfl, number⟩ := (big (f := fun n => -1 - n)).front later
              exact ⟨back, rfl, .of_takes number⟩
            · simp only [if_neg positive, if_neg negative] at later ⊢
              exact ih later
      | _ => cases later

theorem delimits_readInt : Delimits fun input => readInt input input := by
  refine ⟨fun read => ?_⟩
  obtain ⟨front, whole, taken⟩ := readInt_within read
  exact ⟨front, whole, taken.takes⟩

/-! ## Runs of items -/

/-- An item that is only read where there is no stop. -/
theorem Takes.unless_stop {read read' : Bytes → Except ReadError (α × Bytes)} {front rest : Bytes}
    {a : α} (taken : Takes read front a) (ended : read [] = .error .ended)
    (ended' : read' [] = .error .ended) (unstopped : (front ++ rest).head? ≠ some stopByte)
    (same : ∀ input, input.head? ≠ some stopByte → read' input = read input) :
    Takes read' front a := by
  cases front with
  | nil => exact absurd rfl (taken.nil_of_ended ended)
  | cons first front => exact taken.congr_first ended' fun input => same _ unstopped

section Runs

variable {item : σ → Bytes → Except ReadError (σ × Bytes)}

theorem delimits_times (items : ∀ s, Delimits (item s)) {n : Nat} {s : σ} :
    Delimits (times item n s) := by
  induction n generalizing s with
  | zero => exact .congr .pure fun _ => by rw [times]
  | succ n ih => exact .congr ((items s).bind fun s => ih) fun _ => by rw [times]

/-- Take a stop off the input, or else an item. -/
def stopOr (item : Bytes → Except ReadError (α × Bytes)) (input : Bytes) :
    Except ReadError (Option α × Bytes) :=
  if input.head? = some stopByte then .ok (none, input.tail)
  else (item input).map fun (a, rest) => (some a, rest)

theorem stopOr_nil {item : Bytes → Except ReadError (α × Bytes)}
    (ended : item [] = .error .ended) : stopOr item [] = .error .ended := by
  simp [stopOr, ended, Except.map]

theorem delimits_stopOr {item : Bytes → Except ReadError (α × Bytes)} (delimits : Delimits item)
    (ended : item [] = .error .ended) : Delimits (stopOr item) := by
  have ended' : stopOr item [] = .error .ended := stopOr_nil ended
  refine ⟨fun {input rest a?} read => ?_⟩
  by_cases stop : input.head? = some stopByte
  · obtain ⟨behind, rfl⟩ := List.head?_eq_some_iff.mp stop
    cases read
    exact ⟨[stopByte], rfl, .cons .pure ended' fun _ => rfl⟩
  · have other : ∀ input : Bytes, input.head? ≠ some stopByte →
        stopOr item input = (item input).map fun (a, rest) => (some a, rest) :=
      fun input unstopped => if_neg unstopped
    rw [other input stop] at read
    obtain ⟨front, rfl, taken⟩ := delimits.map.front read
    exact ⟨front, rfl, taken.unless_stop (by rw [ended]; rfl) ended' stop other⟩

theorem untilStop_within (items : ∀ s, Delimits (item s)) (ended : ∀ s, item s [] = .error .ended)
    {budget input rest : Bytes} {s s' : σ}
    (read : untilStop item budget s input = .ok (s', rest)) :
    ∃ front, input = front ++ rest ∧
      TakesWithin (fun budget => untilStop item budget s) front s' := by
  have steps : ∀ x budget s input, untilStop item (x :: budget) s input =
      stopOr (item s) input >>= fun
        | (none, rest) => .ok (s, rest)
        | (some s, rest) => untilStop item budget s rest := by
    intro x budget s input
    simp only [untilStop, stopOr]
    split
    · rfl
    · cases item s input <;> rfl
  induction budget generalizing s input with
  | nil => cases read
  | cons b budget ih =>
      rw [steps] at read
      obtain ⟨s?, behind, read, later⟩ := pair_bind_eq_ok.mp read
      have delimits := delimits_stopOr (items s) (ended s)
      have ended' : stopOr (item s) [] = .error .ended := stopOr_nil (ended s)
      obtain ⟨front, rfl, taken⟩ := delimits.front read
      cases s? with
      | none =>
          cases later
          exact TakesWithin.exists_step (fun _ => rfl) (fun x budget => steps x budget _) taken
            ended' TakesWithin.exists_pure
      | some s₁ =>
          exact TakesWithin.exists_step (fun _ => rfl) (fun x budget => steps x budget s) taken
            ended' (ih later)

theorem delimits_run (items : ∀ s, Delimits (item s)) (ended : ∀ s, item s [] = .error .ended)
    {length : Option Nat} {s : σ} : Delimits (run item length s) := by
  unfold run
  cases length with
  | some n => exact delimits_times items
  | none =>
      refine ⟨fun read => ?_⟩
      obtain ⟨front, whole, taken⟩ := untilStop_within items ended read
      exact ⟨front, whole, taken.takes⟩

theorem delimits_listOf {item : Bytes → Except ReadError (α × Bytes)} (items : Delimits item)
    (ended : item [] = .error .ended) {length : Option Nat} : Delimits (listOf item length) := by
  unfold listOf
  have grows : ∀ read,
      Delimits fun input => item input >>= fun (a, rest) => .ok (a :: read, rest) :=
    fun _ => items.bind fun _ => .pure
  refine (delimits_run grows fun read => ?_).bind fun _ => .pure
  rw [ended]
  rfl

end Runs

/-! ## Passing over items -/

theorem delimits_skipText {length : Option Nat} : Delimits (passing (skipText length)) := by
  unfold skipText
  cases length with
  | none => exact delimits_textContent.passed
  | some n =>
      by_cases short : n ≤ wholeSize
      · simp only [short, if_true]
        exact delimits_wholeText.passed
      · simp only [short, if_false]
        exact delimits_textContent.passed

theorem delimits_skipRun {skip : Bytes → Except ReadError Bytes} (items : Delimits (passing skip))
    (ended : skip [] = .error .ended) {length : Option Nat} :
    Delimits (passing (skipRun skip length)) := by
  unfold skipRun
  refine (delimits_run (fun _ => items) fun _ => ?_).passed
  rw [passing, ended]
  rfl

/-- What begins with a head says of a head that cannot be read what the head's reader says. -/
structure BeginsWithHead (read : Bytes → Except ReadError α) : Prop where
  unread : ∀ {input why}, Head.read input = .error why → read input = .error why

namespace BeginsWithHead

variable {read : Bytes → Except ReadError α}

theorem ended (begins : BeginsWithHead read) : read [] = .error .ended :=
  begins.unread read_nil

theorem map {f : α → β} (begins : BeginsWithHead read) :
    BeginsWithHead fun input => (read input).map f := by
  refine ⟨fun unread => ?_⟩
  rw [begins.unread unread]
  rfl

theorem bind {next : α → Except ReadError β} (begins : BeginsWithHead read) :
    BeginsWithHead fun input => read input >>= next := by
  refine ⟨fun unread => ?_⟩
  rw [begins.unread unread]
  rfl

end BeginsWithHead

section Choice

variable {read' : Bytes → Except ReadError (α × Bytes)} {front back rest content : Bytes} {a : α}
  {head : Head}

/-- Something is taken behind a head. -/
theorem Takes.behind_head {next : Bytes → Except ReadError (α × Bytes)}
    (taken : Takes Head.read front head) (later : Takes next back a)
    (begins' : BeginsWithHead read')
    (same : ∀ {input content}, Head.read input = .ok (head, content) →
      read' input = next content) : Takes read' (front ++ back) a where
  whole rest := by
    rw [List.append_assoc, same (taken.whole _)]
    exact later.whole rest
  cut split some := by
    rcases part_of_append split some with ⟨short, within, some⟩ | ⟨more, rfl, later'⟩
    · exact begins'.unread (taken.cut within some)
    · rw [same (taken.whole more)]
      exact later.cut later' some

/-- A head is looked at, and then the item is read from its beginning. -/
theorem Takes.of_head {read : Bytes → Except ReadError (α × Bytes)} (taken : Takes read front a)
    (begins : BeginsWithHead read) (begins' : BeginsWithHead read')
    (headed : Head.read (front ++ rest) = .ok (head, content))
    (same : ∀ {input content}, Head.read input = .ok (head, content) →
      read' input = read input) : Takes read' front a := by
  -- the front holds the whole head, or the reader could not have found an item in it
  have inside : ∃ content, Head.read front = .ok (head, content) := by
    cases own : Head.read front with
    | error why =>
        have whole := taken.whole []
        rw [List.append_nil, begins.unread own] at whole
        cases whole
    | ok found =>
        have extended := delimits_head.extend own rest
        rw [headed] at extended
        cases extended
        exact ⟨_, rfl⟩
  obtain ⟨content, own⟩ := inside
  refine ⟨fun rest => ?_, fun {part missing} split some => ?_⟩
  · rw [same (delimits_head.extend own rest)]
    exact taken.whole rest
  · have cut := taken.cut split some
    cases partly : Head.read part with
    | error why =>
        rw [begins.unread partly] at cut
        rw [begins'.unread partly, cut]
    | ok found =>
        have extended := delimits_head.extend partly missing
        rw [split, own] at extended
        cases extended
        rw [same partly, cut]

/-- It depends on the head whether what comes behind it is read, or the item from its beginning. -/
theorem delimits_choice (begins' : BeginsWithHead read') (each : ∀ head,
    (∃ next : Bytes → Except ReadError (α × Bytes), Delimits next ∧
      ∀ {input content}, Head.read input = .ok (head, content) → read' input = next content) ∨
    ∃ read : Bytes → Except ReadError (α × Bytes), Delimits read ∧ BeginsWithHead read ∧
      ∀ {input content}, Head.read input = .ok (head, content) → read' input = read input) :
    Delimits read' := by
  refine ⟨fun {input rest a} taken => ?_⟩
  cases headed : Head.read input with
  | error why =>
      rw [begins'.unread headed] at taken
      cases taken
  | ok found =>
      obtain ⟨head, content⟩ := found
      obtain ⟨next, delimits, same⟩ | ⟨read, delimits, begins, same⟩ := each head
      · rw [same headed] at taken
        obtain ⟨front, rfl, first⟩ := delimits_head.front headed
        obtain ⟨back, rfl, later⟩ := delimits.front taken
        exact ⟨front ++ back, (List.append_assoc ..).symm, first.behind_head later begins' same⟩
      · rw [same headed] at taken
        obtain ⟨front, rfl, whole⟩ := delimits.front taken
        exact ⟨front, rfl, whole.of_head begins begins' headed same⟩

end Choice

theorem begins_skipItem {inner : Option (Bytes → Except ReadError Bytes)} :
    BeginsWithHead (skipItem inner) := by
  refine ⟨fun unread => ?_⟩
  rw [skipItem, unread]
  rfl

theorem begins_skip {levels : Nat} : BeginsWithHead (skip levels) := by
  refine ⟨fun unread => ?_⟩
  cases levels <;> exact begins_skipItem.unread unread

theorem begins_passing {skip : Bytes → Except ReadError Bytes} (begins : BeginsWithHead skip) :
    BeginsWithHead (passing skip) :=
  begins.map

theorem delimits_skipBig {tag length : Nat} : Delimits (passing (skipBig tag length)) := by
  refine delimits_takeBytes.passing_bind fun taken => ?_
  dsimp only
  split
  · exact .passing_error
  · exact .passing_ok

theorem delimits_skipItem {inner : Option (Bytes → Except ReadError Bytes)}
    (nested : ∀ skip ∈ inner, Delimits (passing skip) ∧ BeginsWithHead skip) :
    Delimits (passing (skipItem inner)) := by
  refine delimits_head.passing_bind fun head => ?_
  cases head with
  | positive | negative | float => exact .passing_ok
  | simple n =>
      dsimp only
      split
      · exact .passing_ok
      · exact .passing_error
  | stop => exact .passing_error
  | text length => exact delimits_skipText
  | bytes length => exact delimits_bytesContent.passed
  | array length =>
      cases inner with
      | none => exact .passing_error
      | some skip =>
          obtain ⟨delimits, begins⟩ := nested skip rfl
          exact delimits_skipRun delimits begins.ended
  | map length =>
      cases inner with
      | none => exact .passing_error
      | some skip =>
          obtain ⟨delimits, begins⟩ := nested skip rfl
          refine delimits_skipRun (delimits.passing_seq delimits) ?_
          rw [begins.ended]
          rfl
  | tag number =>
      refine delimits_choice (begins_passing ⟨fun unread => ?_⟩) fun next => ?_
      · simp only [unread]
        rfl
      · cases big : bigLength? number next with
        | some n =>
            refine .inl ⟨passing (skipBig number n), delimits_skipBig, fun headed => ?_⟩
            simp only [passing, headed, big, bind, Except.bind]
        | none =>
            cases inner with
            | none =>
                refine .inl ⟨passing fun _ => .error .tooDeep, .passing_error, fun headed => ?_⟩
                simp only [passing, headed, big, bind, Except.bind, Except.map]
            | some skip =>
                obtain ⟨delimits, begins⟩ := nested skip rfl
                refine .inr ⟨_, delimits, begins_passing begins, fun headed => ?_⟩
                simp only [passing, headed, big, bind, Except.bind]

theorem delimits_skip {levels : Nat} : Delimits (passing (skip levels)) := by
  induction levels with
  | zero => exact delimits_skipItem fun _ member => nomatch member
  | succ levels ih =>
      refine delimits_skipItem fun inner member => ?_
      cases member
      exact ⟨ih, begins_skip⟩

end ObjectStore.Cbor
