import ObjectStore.Proofs.Store.Logic
import ObjectStore.Store.Links

/-! # Programs on lists of objects

A program that changes the objects of a list one after another leads, from the first object on,
to what its step leads to on that object and then to what it leads to on the others; so does linking
a list of targets. Cut into chunks and put together again, a list is what it was.
-/

namespace ObjectStore

theorem mapM_ends {α β : Type} {f : α → StoreM β} {g : α → β} {xs : List α} {v : Store × Engine}
    (each : ∀ x, Ends (f x) v (.ok (g x)) v) : Ends (xs.mapM f) v (.ok (xs.map g)) v := by
  induction xs with
  | nil => exact Ends.pure
  | cons x xs ih =>
      rw [List.mapM_cons]
      exact Ends.bind (each x) (Ends.bind ih Ends.pure)

namespace Editing

variable {τ α β : Type} {step : α → Editing τ β} {a : α} {as : List α} {object : τ}
  {objects : List τ} {v : Store × Engine}
  {Q : Except StoreError (List β) → List τ × Store × Engine → Prop}

/-- The answers so far are only put in front of those to come. -/
theorem go_run {done : List β} {s : Session} :
    forEach.go step as objects done s =
      let ((r, changed), s') := forEach.go step as objects [] s
      ((r.map (done.reverse ++ ·), changed), s') := by
  induction as generalizing objects done s with
  | nil =>
      show ((Except.ok done.reverse, objects), s) = ((Except.ok (done.reverse ++ []), objects), s)
      rw [List.append_nil]
  | cons a as ih =>
      cases objects with
      | nil =>
          show ((Except.ok done.reverse, []), s) = ((Except.ok (done.reverse ++ []), []), s)
          rw [List.append_nil]
      | cons object objects =>
          simp only [forEach.go, bind, StateT.bind]
          generalize (step a).run object s = ran
          rcases ran with ⟨⟨why | b, object'⟩, s'⟩
          · rfl
          · simp only [StateT.bind]
            rw [@ih _ (b :: done), @ih _ [b]]
            generalize forEach.go step as objects [] s' = rest
            rcases rest with ⟨⟨why | bs, objects'⟩, s''⟩
            · rfl
            · simp only [List.reverse_cons, List.append_assoc, List.reverse_nil, List.nil_append,
                List.singleton_append, Except.map]
              rfl

theorem forEach_run {s : Session} :
    Runs.run (forEach step (a :: as)).run (object :: objects, s) =
      match Runs.run (step a).run (object, s) with
      | (.ok b, object, s) =>
        let (r, objects, s) := Runs.run (forEach step as).run (objects, s)
        (r.map (b :: ·), object :: objects, s)
      | (.error why, object, s) => (.error why, object :: objects, s) := by
  simp only [Runs.run, forEach, ExceptT.run, ExceptT.mk, forEach.go, bind, StateT.bind]
  generalize step a object s = ran
  rcases ran with ⟨⟨why | b, object'⟩, s'⟩
  · rfl
  · simp only [StateT.bind]
    rw [@go_run _ _ _ _ _ _ [b]]
    generalize forEach.go step as objects [] s' = rest
    rcases rest with ⟨⟨why | bs, objects'⟩, s''⟩ <;> rfl

theorem forEach_nil (h : Q (.ok []) (objects, v)) : Leads (forEach step []) (objects, v) Q := by
  rintro ⟨found, s⟩ shows
  exact ⟨(objects, v), shows, h⟩

theorem forEach_empty (h : Q (.ok []) ([], v)) : Leads (forEach step as) ([], v) Q := by
  cases as with
  | nil => exact forEach_nil h
  | cons a as =>
      rintro ⟨found, s⟩ ⟨same, shows⟩
      obtain rfl : found = [] := same
      exact ⟨([], v), ⟨rfl, shows⟩, h⟩

/-- Where the rest of a list leads once the first object was changed. -/
def Rest (step : α → Editing τ β) (as : List α) (objects : List τ)
    (Q : Except StoreError (List β) → List τ × Store × Engine → Prop) :
    Except StoreError β → τ × Store × Engine → Prop
  | .ok b, (object, v) => Leads (forEach step as) (objects, v) fun r w =>
      Q (r.map (b :: ·)) (object :: w.1, w.2)
  | .error why, (object, v) => Q (.error why) (object :: objects, v)

theorem forEach_cons (h : Leads (step a) (object, v) (Rest step as objects Q)) :
    Leads (forEach step (a :: as)) (object :: objects, v) Q := by
  rintro ⟨found, s⟩ ⟨same, shows⟩
  obtain rfl : found = object :: objects := same
  obtain ⟨⟨object', v'⟩, ⟨changed, shown⟩, holds⟩ := h (object, s) ⟨rfl, shows⟩
  rw [forEach_run]
  generalize Runs.run (step a).run (object, s) = ran at changed shown holds
  rcases ran with ⟨why | b, object'', s'⟩ <;> obtain rfl : object'' = object' := changed
  · exact ⟨(object'' :: objects, v'), ⟨rfl, shown⟩, holds⟩
  · obtain ⟨w, ⟨changed, shown⟩, holds⟩ := holds (objects, s') ⟨rfl, shown⟩
    exact ⟨(object'' :: w.1, w.2), ⟨congrArg (object'' :: ·) changed, shown⟩, holds⟩

/-! ## Chunks -/

variable {size : Nat}

theorem flatten_chunked {budget : List τ} (enough : objects.length ≤ budget.length) :
    (chunked size budget objects).flatten = objects := by
  induction budget generalizing objects with
  | nil =>
      have none : objects = [] := List.length_eq_zero_iff.mp (by simpa using enough)
      subst none
      rfl
  | cons first budget ih =>
      cases objects with
      | nil => rfl
      | cons object objects =>
          have fewer : (objects.drop (size - 1)).length ≤ budget.length := by
            rw [List.length_drop]
            simp only [List.length_cons] at enough
            omega
          rw [chunked, List.flatten_cons, ih fewer, List.cons_append, List.take_append_drop]

theorem chunked_map {f : τ → α} {budget : List τ} :
    chunked size (budget.map f) (objects.map f) =
      (chunked size budget objects).map (List.map f) := by
  induction budget generalizing objects with
  | nil => rfl
  | cons first budget ih =>
      cases objects with
      | nil => rfl
      | cons object objects =>
          simp only [List.map_cons, chunked, List.map_take, ← List.map_drop, ih]

/-- A chunk has an object and at most `size` of them. -/
theorem length_of_mem_chunked {budget : List τ} (some : 0 < size) :
    ∀ chunk ∈ chunked size budget objects, 0 < chunk.length ∧ chunk.length ≤ size := by
  induction budget generalizing objects with
  | nil => simp [chunked]
  | cons first budget ih =>
      cases objects with
      | nil => simp [chunked]
      | cons object objects =>
          intro chunk member
          rw [chunked] at member
          cases member with
          | head =>
              simp only [List.length_cons, List.length_take]
              omega
          | tail _ member => exact ih chunk member

/-- A list of chunks is changed chunk by chunk. -/
theorem forChunks_leads {chunk : Editing (List τ) β} {chunks : List (List τ)}
    (cut : chunked size objects objects = chunks)
    (h : Leads (forEach (fun _ => chunk) chunks) (chunks, v)
      fun r w => Q r (w.1.flatten, w.2)) :
    Leads (forChunks size chunk) (objects, v) Q := by
  subst cut
  rintro ⟨found, s⟩ ⟨same, shows⟩
  obtain rfl : found = objects := same
  obtain ⟨w, ⟨changed, shown⟩, holds⟩ := h (chunked size found found, s) ⟨rfl, shows⟩
  exact ⟨(w.1.flatten, w.2), ⟨congrArg List.flatten changed, shown⟩, holds⟩

end Editing

/-! ## Targets -/

namespace Store

variable {P : Type} {b : Box P} {txn : Txn} {relation : Relation} {source : ObjectId}
  {linked : IdSet} {v : Store × Engine}

theorem linkTargets_nil {Q : Except StoreError IdSet → List P × Store × Engine → Prop}
    (h : Q (.ok linked) ([], v)) :
    Leads (linkTargets b txn relation source linked) ([], v) Q := by
  rintro ⟨found, s⟩ ⟨same, shows⟩
  obtain rfl : found = [] := same
  exact ⟨([], v), ⟨rfl, shows⟩, h⟩

/-- Where linking leads once the first target is linked. -/
def Further (b : Box P) (txn : Txn) (relation : Relation) (source : ObjectId) (objects : List P)
    (Q : Except StoreError IdSet → List P × Store × Engine → Prop) :
    Except StoreError IdSet → P × Store × Engine → Prop
  | .ok linked, (object, v) => Leads (linkTargets b txn relation source linked) (objects, v)
      fun r w => Q r (object :: w.1, w.2)
  | .error why, (object, v) => Q (.error why) (object :: objects, v)

theorem linkTargets_cons {object : P} {objects : List P}
    {Q : Except StoreError IdSet → List P × Store × Engine → Prop}
    (h : Leads (linkTarget b txn relation source linked) (object, v)
      (Further b txn relation source objects Q)) :
    Leads (linkTargets b txn relation source linked) (object :: objects, v) Q := by
  rintro ⟨found, s⟩ ⟨same, shows⟩
  obtain rfl : found = object :: objects := same
  obtain ⟨⟨object', v'⟩, ⟨changed, shown⟩, holds⟩ := h (object, s) ⟨rfl, shows⟩
  simp only [Runs.run, linkTargets, linkTargets.go, ExceptT.run, ExceptT.mk, bind, StateT.bind]
    at changed shown holds ⊢
  generalize linkTarget b txn relation source linked object s = ran at changed shown holds
  rcases ran with ⟨⟨why | linked, object''⟩, s'⟩ <;> obtain rfl : object'' = object' := changed
  · exact ⟨(object'' :: objects, v'), ⟨rfl, shown⟩, holds⟩
  · obtain ⟨w, ⟨changed, shown⟩, holds⟩ := holds (objects, s') ⟨rfl, shown⟩
    exact ⟨(object'' :: w.1, w.2), ⟨congrArg (object'' :: ·) changed, shown⟩, holds⟩

end Store

end ObjectStore
