import ObjectStore.Cbor.Fields
import ObjectStore.Proofs.Engine.Calls

/-! # What is taken off the input

What reads an item takes a front off its input: the same bytes whatever comes behind them, and if
the input ends within them, it is the end that is reported. So no item is the beginning of another
one. Reading in parts keeps this, whether the parts are known beforehand or go on up to a stop;
there the budget does not matter, if only it has a byte for each byte of the front.
-/

namespace ObjectStore.Cbor

/-- Whatever comes behind it, `front` is taken off the input for `a`; a part of it is not enough. -/
structure Takes {α : Type} (read : Bytes → Except ReadError (α × Bytes)) (front : Bytes) (a : α) :
    Prop where
  whole : ∀ rest, read (front ++ rest) = .ok (a, rest)
  cut : ∀ {part missing : Bytes}, part ++ missing = front → missing ≠ [] →
    read part = .error .ended

/-- What is taken off the input can be told from the input up to there. -/
structure Delimits {α : Type} (read : Bytes → Except ReadError (α × Bytes)) : Prop where
  front : ∀ {input rest : Bytes} {a : α}, read input = .ok (a, rest) →
    ∃ front, input = front ++ rest ∧ Takes read front a

/-- What passes over an item reads it for nothing. -/
def passing (skip : Bytes → Except ReadError Bytes) (input : Bytes) :
    Except ReadError (Unit × Bytes) :=
  (skip input).map ((), ·)

variable {α β σ : Type} {a : α} {b : β} {front back part missing input rest : Bytes}
  {read : Bytes → Except ReadError (α × Bytes)}

theorem map_eq_ok {ε : Type} {x : Except ε α} {f : α → β} :
    x.map f = .ok b ↔ ∃ a, x = .ok a ∧ f a = b := by
  cases x <;> simp [Except.map]

theorem passing_eq_ok {skip : Bytes → Except ReadError Bytes} :
    passing skip input = .ok ((), rest) ↔ skip input = .ok rest := by
  simp [passing, map_eq_ok]

/-- A part of two fronts ends within the first or within the second. -/
theorem part_of_append (split : part ++ missing = front ++ back) (some : missing ≠ []) :
    (∃ short, part ++ short = front ∧ short ≠ []) ∨
      ∃ more, part = front ++ more ∧ more ++ missing = back := by
  rcases List.append_eq_append_iff.mp split with ⟨short, whole, rfl⟩ | ⟨more, whole, rfl⟩
  · by_cases none : short = []
    · subst none
      rw [List.append_nil] at whole
      exact .inr ⟨[], by rw [whole, List.append_nil], rfl⟩
    · exact .inl ⟨short, whole.symm, none⟩
  · exact .inr ⟨more, whole, rfl⟩

/-! ## Reading in parts -/

namespace Takes

theorem nil_of_ended (taken : Takes read front a) (ended : read [] = .error .ended) :
    front ≠ [] := by
  rintro rfl
  have read := taken.whole []
  rw [List.append_nil, ended] at read
  cases read

theorem bind {next : α × Bytes → Except ReadError (β × Bytes)} (first : Takes read front a)
    (later : Takes (fun rest => next (a, rest)) back b) :
    Takes (fun input => read input >>= next) (front ++ back) b where
  whole rest := by
    rw [List.append_assoc, first.whole]
    exact later.whole rest
  cut split some := by
    rcases part_of_append split some with ⟨short, within, some⟩ | ⟨more, rfl, later'⟩
    · rw [first.cut within some]
      rfl
    · rw [first.whole]
      exact later.cut later' some

theorem pure : Takes (fun input => .ok (a, input)) [] a where
  whole _ := rfl
  cut split some := absurd (List.append_eq_nil_iff.mp split).2 some

/-- A byte in front of it belongs to the front. -/
theorem cons {first : UInt8} {read' : Bytes → Except ReadError (α × Bytes)}
    (taken : Takes read front a) (ended : read' [] = .error .ended)
    (behind : ∀ input, read' (first :: input) = read input) : Takes read' (first :: front) a where
  whole rest := by
    rw [List.cons_append, behind]
    exact taken.whole rest
  cut {part missing} split some := by
    cases part with
    | nil => exact ended
    | cons byte part =>
        rw [List.cons_append, List.cons.injEq] at split
        rw [split.1, behind]
        exact taken.cut split.2 some

/-- Where the front begins, something else may be done with other input. -/
theorem congr_first {first : UInt8} {read' : Bytes → Except ReadError (α × Bytes)}
    (taken : Takes read (first :: front) a) (ended : read' [] = .error .ended)
    (same : ∀ input, read' (first :: input) = read (first :: input)) :
    Takes read' (first :: front) a where
  whole rest := by
    rw [List.cons_append, same, ← List.cons_append]
    exact taken.whole rest
  cut {part missing} split some := by
    cases part with
    | nil => exact ended
    | cons byte part =>
        have first := (List.cons.inj split).1
        rw [first, same, ← first]
        exact taken.cut split some

end Takes

namespace Delimits

theorem length_le (delimits : Delimits read) (taken : read input = .ok (a, rest)) :
    rest.length ≤ input.length := by
  obtain ⟨front, rfl, -⟩ := delimits.front taken
  rw [List.length_append]
  exact Nat.le_add_left _ _

/-- More input changes nothing about what was read. -/
theorem extend (delimits : Delimits read) (taken : read input = .ok (a, rest)) (more : Bytes) :
    read (input ++ more) = .ok (a, rest ++ more) := by
  obtain ⟨front, rfl, takes⟩ := delimits.front taken
  rw [List.append_assoc]
  exact takes.whole _

theorem congr {read' : Bytes → Except ReadError (α × Bytes)} (delimits : Delimits read)
    (same : ∀ input, read' input = read input) : Delimits read' := by
  rwa [show read' = read from funext same]

theorem pure : Delimits fun input => .ok (a, input) := by
  refine ⟨fun read => ?_⟩
  cases read
  exact ⟨[], rfl, .pure⟩

theorem error {why : ReadError} :
    Delimits (fun _ => .error why : Bytes → Except ReadError (α × Bytes)) := by
  refine ⟨fun read => ?_⟩
  cases read

theorem bind {next : α × Bytes → Except ReadError (β × Bytes)} (first : Delimits read)
    (later : ∀ a, Delimits fun rest => next (a, rest)) :
    Delimits fun input => read input >>= next := by
  refine ⟨fun taken => ?_⟩
  obtain ⟨a, behind, taken, takenLater⟩ := pair_bind_eq_ok.mp taken
  obtain ⟨front, rfl, first⟩ := first.front taken
  obtain ⟨back, rfl, later⟩ := (later a).front takenLater
  exact ⟨front ++ back, (List.append_assoc ..).symm, first.bind later⟩

/-- What was read may be turned into something else, or found not to fit. -/
theorem check {f : α → Except ReadError β} (delimits : Delimits read) :
    Delimits fun input => read input >>= fun (a, rest) => f a >>= fun b => .ok (b, rest) := by
  refine delimits.bind fun a => ?_
  dsimp only
  cases f a with
  | error why => exact error
  | ok b => exact pure

theorem map {f : α → β} (delimits : Delimits read) :
    Delimits fun input => (read input).map fun (a, rest) => (f a, rest) := by
  refine (delimits.check (f := fun a => .ok (f a))).congr fun input => ?_
  cases read input <;> rfl

theorem ite {p : Prop} [Decidable p] {read' : Bytes → Except ReadError (α × Bytes)}
    (yes : Delimits read) (no : Delimits read') :
    Delimits fun input => if p then read input else read' input := by
  by_cases holds : p
  · simpa only [holds, if_true] using yes
  · simpa only [holds, if_false] using no

/-! ## Passing over -/

theorem passed (delimits : Delimits read) :
    Delimits (passing fun input => (read input).map Prod.snd) := by
  refine (delimits.map (f := fun _ => ())).congr fun input => ?_
  simp only [passing]
  cases read input <;> rfl

theorem passing_bind {next : α × Bytes → Except ReadError Bytes} (first : Delimits read)
    (later : ∀ a, Delimits (passing fun rest => next (a, rest))) :
    Delimits (passing fun input => read input >>= next) := by
  have parts : Delimits fun input => read input >>= fun x => (next x).map ((), ·) :=
    first.bind later
  refine parts.congr fun input => ?_
  rw [passing]
  cases read input <;> rfl

theorem passing_seq {skip skip' : Bytes → Except ReadError Bytes} (first : Delimits (passing skip))
    (later : Delimits (passing skip')) : Delimits (passing fun input => skip input >>= skip') := by
  have parts : Delimits fun input => passing skip input >>= fun x => passing skip' x.2 :=
    first.bind fun _ => later
  refine parts.congr fun input => ?_
  rw [passing, passing]
  cases skip input <;> rfl

theorem passing_ok : Delimits (passing .ok) :=
  pure

theorem passing_error {why : ReadError} : Delimits (passing fun _ => .error why) :=
  error

end Delimits

/-! ## Reading within a budget -/

/-- What is taken off within a budget, if that has a byte for each byte of the front. -/
structure TakesWithin (read : Bytes → Bytes → Except ReadError (α × Bytes)) (front : Bytes)
    (a : α) : Prop where
  whole : ∀ {budget : Bytes}, front.length ≤ budget.length → ∀ rest,
    read budget (front ++ rest) = .ok (a, rest)
  cut : ∀ budget {part missing : Bytes}, part ++ missing = front → missing ≠ [] →
    read budget part = .error .ended

namespace TakesWithin

variable {within : Bytes → Bytes → Except ReadError (α × Bytes)}

theorem takes (taken : TakesWithin within front a) :
    Takes (fun input => within input input) front a where
  whole rest := taken.whole (by rw [List.length_append]; exact Nat.le_add_right _ _) rest
  cut split some := taken.cut _ split some

theorem pure : TakesWithin (fun _ input => .ok (a, input)) [] a where
  whole _ _ := rfl
  cut _ _ _ split some := absurd (List.append_eq_nil_iff.mp split).2 some

theorem of_takes (taken : Takes read front a) : TakesWithin (fun _ => read) front a where
  whole _ := taken.whole
  cut _ _ _ := taken.cut

theorem bind {b : β} {first : Bytes → Except ReadError (β × Bytes)}
    {next : Bytes → β × Bytes → Except ReadError (α × Bytes)} (taken : Takes first front b)
    (later : TakesWithin (fun budget rest => next budget (b, rest)) back a) :
    TakesWithin (fun budget input => first input >>= next budget) (front ++ back) a where
  whole enough rest := by
    rw [List.length_append] at enough
    rw [List.append_assoc, taken.whole]
    exact later.whole (by omega) rest
  cut budget part missing split some := by
    rcases part_of_append split some with ⟨short, within, some⟩ | ⟨more, rfl, later'⟩
    · rw [taken.cut within some]
      rfl
    · rw [taken.whole]
      exact later.cut budget later' some

/-- A step takes a byte off the budget, and one at least off the input. -/
theorem step {b : β} {first : Bytes → Except ReadError (β × Bytes)}
    {next : Bytes → β × Bytes → Except ReadError (α × Bytes)}
    (out : ∀ input, within [] input = .error .ended)
    (steps : ∀ x budget input, within (x :: budget) input = first input >>= next budget)
    (taken : Takes first front b) (ended : first [] = .error .ended)
    (later : TakesWithin (fun budget rest => next budget (b, rest)) back a) :
    TakesWithin within (front ++ back) a where
  whole {budget} enough rest := by
    have some : 0 < front.length := List.length_pos_iff.mpr (taken.nil_of_ended ended)
    rw [List.length_append] at enough
    cases budget with
    | nil =>
        rw [List.length_nil] at enough
        omega
    | cons x budget =>
        rw [List.length_cons] at enough
        rw [steps, List.append_assoc, taken.whole]
        exact later.whole (by omega) rest
  cut budget part missing split some := by
    cases budget with
    | nil => exact out part
    | cons x budget =>
        rw [steps]
        exact (bind taken later).cut budget split some

/-- What a step leaves goes on with a front of its own. -/
theorem exists_step {b : β} {first : Bytes → Except ReadError (β × Bytes)} {behind rest : Bytes}
    {next : Bytes → β × Bytes → Except ReadError (α × Bytes)}
    (out : ∀ input, within [] input = .error .ended)
    (steps : ∀ x budget input, within (x :: budget) input = first input >>= next budget)
    (taken : Takes first front b) (ended : first [] = .error .ended)
    (later : ∃ back, behind = back ++ rest ∧
      TakesWithin (fun budget rest => next budget (b, rest)) back a) :
    ∃ whole, front ++ behind = whole ++ rest ∧ TakesWithin within whole a := by
  obtain ⟨back, rfl, later⟩ := later
  exact ⟨front ++ back, (List.append_assoc ..).symm, step out steps taken ended later⟩

/-- There may be nothing left to do. -/
theorem exists_pure {rest : Bytes} : ∃ back, rest = back ++ rest ∧
    TakesWithin (fun _ input => .ok (a, input)) back a :=
  ⟨[], rfl, pure⟩

end TakesWithin

end ObjectStore.Cbor
