import ObjectStore.Record.Encoder

/-! # Pooled encoders

Encoders wander from one holder to the next by way of the pool, and grow on the way. What a holder
sees of its encoder is nevertheless what it has itself written since it took it, as if it had a new
one; and the pool holds no more encoders than it has room for, all of them empty and small.
-/

namespace ObjectStore

/-- What is done with encoders of a pool. Those taken out are known by the order they were taken in,
and are used until they are dropped. -/
inductive EncoderUse where
  | acquire
  | encode (holder : Nat) (id : UInt64) (body : Cbor.Value)
  | reset (holder : Nat)
  | drop (holder : Nat)

/-- What is seen in an encoder after its use, or why nothing was written; nothing if it is no longer
held. -/
abbrev EncoderUse.Answer := Option (Except CodecError Bytes)

/-- A pool and the encoders taken out of it, except for those dropped since. -/
structure Lending where
  pool : EncoderPool
  held : List (Option Encoder) := []
  deriving DecidableEq, Repr

namespace Lending

open EncoderUse

/-- What the holders have in their encoders. -/
def bytes (l : Lending) : List (Option Bytes) :=
  l.held.map (·.map Encoder.buffer)

/-- Use an encoder that is held: what is seen, and what becomes of the pool and of the encoder. -/
def withHeld (l : Lending) (holder : Nat) (use : Encoder → Answer × EncoderPool × Option Encoder) :
    Answer × Lending :=
  match l.held[holder]? with
  | some (some e) =>
    let (answer, pool, e?) := use e
    (answer, ⟨pool, l.held.set holder e?⟩)
  | _ => (none, l)

def perform (l : Lending) : EncoderUse → Answer × Lending
  | .acquire =>
    let (e, pool) := l.pool.acquire
    (some (.ok e.buffer), ⟨pool, l.held ++ [some e]⟩)
  | .encode holder id body => l.withHeld holder fun e =>
    let (result, e) := e.encode id body
    (some (result.map fun _ => e.buffer), l.pool, some e)
  | .reset holder => l.withHeld holder fun e => (some (.ok e.reset.buffer), l.pool, some e.reset)
  | .drop holder => l.withHeld holder fun e => (none, l.pool.release e, none)

/-- Use encoders one after another. -/
def performAll (l : Lending) : List EncoderUse → List Answer × Lending
  | [] => ([], l)
  | use :: uses =>
    let (answer, l) := l.perform use
    let (answers, l) := l.performAll uses
    (answer :: answers, l)

end Lending

namespace EncoderUse

/-- Change what a holder has. -/
def withBytes (held : List (Option Bytes)) (holder : Nat) (use : Bytes → Answer × Option Bytes) :
    Answer × List (Option Bytes) :=
  match held[holder]? with
  | some (some bytes) =>
    let (answer, bytes?) := use bytes
    (answer, held.set holder bytes?)
  | _ => (none, held)

/-- What is seen, and what the holders have afterwards, where each of them has an encoder of its own
that nobody had before. -/
def alone (held : List (Option Bytes)) : EncoderUse → Answer × List (Option Bytes)
  | acquire => (some (.ok []), held ++ [some []])
  | encode holder id body => withBytes held holder fun _ =>
    let record := Record.encode id body
    (some record, some (record.toOption.getD []))
  | reset holder => withBytes held holder fun _ => (some (.ok []), some [])
  | drop holder => withBytes held holder fun _ => (none, none)

def allAlone (held : List (Option Bytes)) : List EncoderUse → List Answer × List (Option Bytes)
  | [] => ([], held)
  | use :: uses =>
    let (answer, held) := use.alone held
    let (answers, held) := allAlone held uses
    (answer :: answers, held)

end EncoderUse

/-! ## Encoders -/

theorem Encoder.encode_result (e : Encoder) (id : UInt64) (body : Cbor.Value) :
    (e.encode id body).1.map (fun _ => (e.encode id body).2.buffer) = Record.encode id body ∧
      (e.encode id body).2.buffer = (Record.encode id body).toOption.getD [] := by
  simp only [Encoder.encode, Record.encode]
  cases (Record.write id body).refusal <;> exact ⟨rfl, rfl⟩

/-! ## The pool -/

/-- What a pool keeps: no more than there is room for, all of it empty and small. -/
structure EncoderPool.Tidy (pool : EncoderPool) : Prop where
  room : pool.idle.length ≤ pool.maxIdle
  empty : ∀ e ∈ pool.idle, e.buffer = []
  small : ∀ e ∈ pool.idle, e.capacity < pool.retainLimit

namespace EncoderPool

variable {pool : EncoderPool} {e : Encoder}

theorem tidy_new {retainLimit maxIdle : Nat} : Tidy { retainLimit, maxIdle } :=
  ⟨Nat.zero_le _, nofun, nofun⟩

/-- What is done with a pool does not change its limits. -/
def SameLimits (pool pool' : EncoderPool) : Prop :=
  pool'.retainLimit = pool.retainLimit ∧ pool'.maxIdle = pool.maxIdle

theorem Tidy.acquire (tidy : pool.Tidy) :
    pool.acquire.1.buffer = [] ∧ pool.acquire.2.Tidy ∧ pool.SameLimits pool.acquire.2 := by
  obtain ⟨retainLimit, maxIdle, idle⟩ := pool
  cases idle with
  | nil => exact ⟨rfl, tidy, rfl, rfl⟩
  | cons e idle =>
      obtain ⟨room, empty, small⟩ := tidy
      refine ⟨empty e List.mem_cons_self, ⟨?_, ?_, ?_⟩, rfl, rfl⟩
      · exact Nat.le_of_succ_le room
      · exact fun e member => empty e (List.mem_cons_of_mem _ member)
      · exact fun e member => small e (List.mem_cons_of_mem _ member)

theorem Tidy.release (tidy : pool.Tidy) (e : Encoder) :
    (pool.release e).Tidy ∧ pool.SameLimits (pool.release e) := by
  unfold EncoderPool.release
  split
  · rename_i fits
    refine ⟨⟨?_, ?_, ?_⟩, rfl, rfl⟩
    · exact fits.2
    · exact List.forall_mem_cons.mpr ⟨rfl, tidy.empty⟩
    · exact List.forall_mem_cons.mpr ⟨fits.1, tidy.small⟩
  · exact ⟨tidy, rfl, rfl⟩

end EncoderPool

/-! ## Lending -/

namespace Lending

open EncoderUse

variable {l : Lending} {holder : Nat}

theorem withHeld_shows {use : Encoder → Answer × EncoderPool × Option Encoder}
    {use' : Bytes → Answer × Option Bytes}
    (same : ∀ e, ((use e).1, (use e).2.2.map Encoder.buffer) = use' e.buffer) :
    ((l.withHeld holder use).1, (l.withHeld holder use).2.bytes) =
      withBytes l.bytes holder use' := by
  simp only [withHeld, withBytes, bytes, List.getElem?_map]
  cases l.held[holder]? with
  | none => rfl
  | some e? =>
      cases e? with
      | none => rfl
      | some e => simp only [Option.map_some, ← same e, List.map_set]

theorem withHeld_pool {use : Encoder → Answer × EncoderPool × Option Encoder}
    {P : EncoderPool → Prop} (before : P l.pool) (each : ∀ e, P (use e).2.1) :
    P (l.withHeld holder use).2.pool := by
  unfold withHeld
  split
  · exact each _
  · exact before

theorem perform_tidy (tidy : l.pool.Tidy) (use : EncoderUse) :
    (l.perform use).2.pool.Tidy ∧ l.pool.SameLimits (l.perform use).2.pool := by
  have same : l.pool.Tidy ∧ l.pool.SameLimits l.pool := ⟨tidy, rfl, rfl⟩
  cases use with
  | acquire => exact tidy.acquire.2
  | encode | reset =>
      exact withHeld_pool (P := fun pool => pool.Tidy ∧ l.pool.SameLimits pool) same fun _ => same
  | drop =>
      exact withHeld_pool (P := fun pool => pool.Tidy ∧ l.pool.SameLimits pool) same tidy.release

theorem perform_alone (tidy : l.pool.Tidy) (use : EncoderUse) :
    ((l.perform use).1, (l.perform use).2.bytes) = use.alone l.bytes := by
  cases use with
  | acquire =>
      obtain ⟨empty, -⟩ := tidy.acquire
      simp only [perform, alone, bytes, List.map_append, List.map_cons, List.map_nil,
        Option.map_some, empty]
  | encode holder id body =>
      rw [perform, alone]
      refine withHeld_shows fun e => ?_
      obtain ⟨answer, left⟩ := e.encode_result id body
      exact Prod.ext (congrArg some answer) (congrArg some left)
  | reset | drop =>
      rw [perform, alone]
      exact withHeld_shows fun e => rfl

theorem performAll_alone (tidy : l.pool.Tidy) (uses : List EncoderUse) :
    ((l.performAll uses).1, (l.performAll uses).2.bytes) = allAlone l.bytes uses ∧
      (l.performAll uses).2.pool.Tidy ∧ l.pool.SameLimits (l.performAll uses).2.pool := by
  induction uses generalizing l with
  | nil => exact ⟨rfl, tidy, rfl, rfl⟩
  | cons use uses ih =>
      obtain ⟨tidy', same⟩ := l.perform_tidy tidy use
      obtain ⟨shown, last, same'⟩ := ih tidy'
      refine ⟨?_, last, same'.1.trans same.1, same'.2.trans same.2⟩
      have first := l.perform_alone tidy use
      simp only [performAll, allAlone, ← first, ← shown]

end Lending

/-- A store writes every record with an encoder that is taken out, used and dropped. -/
theorem EncoderPool.encode_lent (pool : EncoderPool) (id : UInt64) (body : Cbor.Value) :
    let (answers, l) := Lending.performAll ⟨pool, []⟩ [.acquire, .encode 0 id body, .drop 0]
    ∃ taken, answers = [taken, some (pool.encode id (.ok body)).1, none] ∧
      l.pool = (pool.encode id (.ok body)).2 :=
  ⟨_, rfl, rfl⟩

/-- Whatever is done with the encoders of a pool, by however many holders at once: the pool keeps no
    more encoders than it may, all of them empty and small, and every holder sees in its encoder
    what it would see in one of its own. -/
theorem EncoderPool.lending_alone (retainLimit maxIdle : Nat) (uses : List EncoderUse) :
    let (answers, l) := Lending.performAll ⟨{ retainLimit, maxIdle }, []⟩ uses
    l.pool.idle.length ≤ maxIdle ∧
      (∀ e ∈ l.pool.idle, e.buffer = [] ∧ e.capacity < retainLimit) ∧
      (answers, l.bytes) = EncoderUse.allAlone [] uses := by
  let start : Lending := ⟨{ retainLimit, maxIdle }, []⟩
  obtain ⟨shown, tidy, limit, room⟩ := start.performAll_alone EncoderPool.tidy_new uses
  refine ⟨Nat.le_trans tidy.room (Nat.le_of_eq room), ?_, shown⟩
  intro e member
  exact ⟨tidy.empty e member, Nat.lt_of_lt_of_eq (tidy.small e member) limit⟩

end ObjectStore
