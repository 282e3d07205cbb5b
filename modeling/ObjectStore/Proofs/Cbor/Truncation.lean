import ObjectStore.Proofs.Cbor.Delimited
import ObjectStore.Proofs.Cbor.Shapes

/-! # A part of a record is no record

Every reader begins with a head and takes a front off its input. So where the input ends before the
record does, it is the end that is reported, by the reader of any body and by the one that passes
over bodies: wherever a record is cut, nothing is read from what is left of it.
-/

namespace ObjectStore

namespace Cbor

variable {α β σ : Type}

/-! ## Readers -/

namespace Reader

/-- A reader begins with a head and takes a front off its input. -/
structure Delimited (reader : Reader α) : Prop where
  begins : ∀ levels, BeginsWithHead (reader.read levels)
  delimits : ∀ levels, Delimits (reader.read levels)

theorem begins_untagged : BeginsWithHead Head.readUntagged := by
  refine ⟨fun {input why} unread => ?_⟩
  cases input with
  | nil => cases unread; rfl
  | cons first input => simp only [Head.readUntagged, untagged, unread, bind, Except.bind]

theorem begins_readInt : BeginsWithHead fun input => readInt input input := by
  refine ⟨fun {input why} unread => ?_⟩
  cases input with
  | nil => cases unread; rfl
  | cons first input => simp only [readInt, unread, bind, Except.bind]

theorem delimits_deeper {content : Nat → Bytes → Except ReadError (α × Bytes)}
    (delimits : ∀ levels, Delimits (content levels)) {levels : Nat} :
    Delimits fun input => deeper levels fun levels => content levels input := by
  cases levels with
  | zero => exact .error
  | succ levels => exact delimits levels

theorem delimits_element {read : Bytes → Except ReadError (α × Bytes)} (delimits : Delimits read)
    (begins : BeginsWithHead read) {left : Option Nat} : Delimits (element read left) := by
  unfold element
  match left with
  | some 0 => exact .error
  | some (n + 1) => exact delimits
  | none =>
      refine ⟨fun {input rest a} taken => ?_⟩
      dsimp only at taken
      split at taken
      · cases taken
      · rename_i unstopped
        obtain ⟨front, rfl, whole⟩ := delimits.front taken
        refine ⟨front, rfl, whole.unless_stop begins.ended begins.ended unstopped ?_⟩
        exact fun input unstopped => if_neg unstopped

namespace Delimited

variable {reader : Reader α} {second : Reader β}

theorem ofHead {content : Head → Bytes → Except ReadError (α × Bytes)}
    (delimits : ∀ head, Delimits (content head)) : (Reader.ofHead content).Delimited where
  begins _ := begins_untagged.bind
  delimits _ := delimits_untagged.bind delimits

/-- A value may be known by its head alone. -/
theorem ofHead_alone {content : Head → Bytes → Except ReadError (α × Bytes)}
    (alone : ∀ {head input rest a}, content head input = .ok (a, rest) →
      rest = input ∧ ∀ input, content head input = .ok (a, input)) :
    (Reader.ofHead content).Delimited := by
  refine ofHead fun head => ⟨fun read => ?_⟩
  obtain ⟨rfl, always⟩ := alone read
  exact ⟨[], rfl, always, fun split some => absurd (List.append_eq_nil_iff.mp split).2 some⟩

theorem bool : Reader.bool.Delimited := by
  refine ofHead_alone fun read => ?_
  split at read <;> cases read <;> exact ⟨rfl, fun _ => rfl⟩

theorem unit : Reader.unit.Delimited := by
  refine ofHead_alone fun read => ?_
  split at read <;> cases read <;> exact ⟨rfl, fun _ => rfl⟩

theorem text : Reader.text.Delimited := by
  refine ofHead fun head => ?_
  cases head with
  | text length => exact delimits_textContent.bind fun _ => .pure
  | _ => exact .error

theorem float : Reader.float.Delimited where
  begins _ := begins_untagged.bind
  delimits _ := by
    refine delimits_untagged.bind fun head => ?_
    cases head with
    | float bits => exact .pure
    | _ => exact .error

theorem int {low high : Int} {of : Int → α} : (Reader.int low high of).Delimited where
  begins _ := begins_readInt.bind
  delimits _ := delimits_readInt.check

theorem map {f : α → β} (delimited : reader.Delimited) : (reader.map f).Delimited where
  begins levels := (delimited.begins levels).map
  delimits levels := (delimited.delimits levels).map

theorem ignored : Reader.ignored.Delimited where
  begins _ := begins_passing begins_skip
  delimits _ := delimits_skip

theorem option (delimited : reader.Delimited) : (Reader.option reader).Delimited := by
  have begins : ∀ levels, BeginsWithHead ((Reader.option reader).read levels) :=
    fun _ => ⟨fun unread => by simp only [Reader.option, unread]; rfl⟩
  refine ⟨begins, fun levels => delimits_choice (begins levels) fun head => ?_⟩
  by_cases absent : head = .simple 22 ∨ head = .simple 23
  · refine .inl ⟨fun content => .ok (none, content), .pure, fun headed => ?_⟩
    rcases absent with rfl | rfl <;> simp only [Reader.option, headed] <;> rfl
  · have present : Delimits fun input =>
        reader.read levels input >>= fun x => .ok (some x.1, x.2) :=
      (delimited.delimits levels).bind fun a => .pure (a := some a)
    refine .inr ⟨_, present, (delimited.begins levels).bind, fun headed => ?_⟩
    simp only [Reader.option, headed, bind, Except.bind]
    split
    · rename_i same
      cases same
      exact absurd (.inl rfl) absent
    · rename_i same
      cases same
      exact absurd (.inr rfl) absent
    · rfl

theorem list (delimited : reader.Delimited) : (Reader.list reader).Delimited where
  begins _ := begins_untagged.bind
  delimits levels := by
    refine delimits_untagged.bind fun head => ?_
    cases head with
    | array length =>
        refine delimits_deeper fun levels => ?_
        exact delimits_listOf (delimited.delimits levels) (delimited.begins levels).ended
    | bytes length => exact delimits_bytesContent.check
    | _ => exact .error

theorem both (first : reader.Delimited) (later : second.Delimited) :
    (Reader.both reader second).Delimited where
  begins _ := begins_untagged.bind
  delimits levels := by
    refine delimits_untagged.bind fun head => ?_
    cases head with
    | array length =>
        refine delimits_deeper fun levels => ?_
        refine (delimits_element (first.delimits levels) (first.begins levels)).bind fun a => ?_
        exact (delimits_element (later.delimits levels) (later.begins levels)).bind fun b => .pure
    | bytes length =>
        refine delimits_bytesContent.bind fun bytes => ?_
        match bytes with
        | [] => exact .error
        | [a] =>
            dsimp only
            cases reader.ofByte a <;> exact .error
        | a :: b :: _ =>
            dsimp only
            cases reader.ofByte a with
            | error why => exact .error
            | ok a =>
                cases second.ofByte b with
                | error why => exact .error
                | ok b => exact .pure
    | _ => exact .error

theorem entries (delimited : reader.Delimited) : (Reader.entries reader).Delimited where
  begins _ := begins_untagged.bind
  delimits levels := by
    refine delimits_untagged.bind fun head => ?_
    cases head with
    | map length =>
        refine delimits_deeper fun levels => delimits_listOf ?_ ?_
        · exact (text.delimits levels).bind fun key =>
            (delimited.delimits levels).bind fun value => .pure
        · exact ((text.begins levels).bind).ended
    | _ => exact .error

end Delimited

/-! ## Named fields -/

theorem delimits_readKey : Delimits readKey := by
  refine delimits_untagged.bind fun head => ?_
  match head with
  | .text (some n) => exact .ite delimits_wholeText .error
  | .bytes (some n) => exact .ite delimits_takeBytes .error
  | .text none | .bytes none => exact .error
  | .positive _ | .negative _ | .array _ | .map _ | .tag _ | .simple _ | .float _ | .stop =>
      exact .error

section Fields

variable {fields : List (Field σ)}

theorem delimits_readEntry (each : ∀ field ∈ fields, ∀ levels s, Delimits (field.readInto levels s))
    {levels : Nat} {s : σ} : Delimits (readEntry fields levels s) := by
  refine delimits_readKey.bind fun key => ?_
  dsimp only
  cases found : fields.find? (fun field => utf8 field.name = key) with
  | some field =>
      simp only [found]
      exact .ite .error (each field (List.mem_of_find?_eq_some found) levels s)
  | none =>
      simp only [found]
      have passed : Delimits fun input => passing (skip levels) input >>= fun x => .ok (s, x.2) :=
        delimits_skip.bind fun _ => .pure
      refine passed.congr fun input => ?_
      rw [passing]
      cases skip levels input <;> rfl

theorem Delimited.ofFields {start : σ} {finish : σ → Except ReadError α}
    (each : ∀ field ∈ fields, ∀ levels s, Delimits (field.readInto levels s)) :
    (Reader.fields fields start finish).Delimited where
  begins _ := begins_untagged.bind
  delimits levels := by
    refine delimits_untagged.bind fun head => ?_
    cases head with
    | map length =>
        refine delimits_deeper fun levels => ?_
        refine Delimits.check (delimits_run (fun _ => delimits_readEntry each) fun s => ?_)
        rfl
    | _ => exact .error

end Fields

theorem Delimited.field {name : String} {reader : Reader α} {place : σ → Option α}
    {fill : σ → α → σ} (delimited : reader.Delimited) :
    ∀ levels s, Delimits ((Field.of name reader place fill).readInto levels s) :=
  fun levels _ => (delimited.delimits levels).bind fun _ => .pure

end Reader

end Cbor

open Cbor

/-! ## Bodies -/

namespace Catalog

theorem delimited_textField {name : String} : (textField name).Delimited := by
  refine .ofFields fun field member => ?_
  cases List.mem_singleton.mp member
  exact Reader.Delimited.text.field

theorem Event.delimited : Event.reader.Delimited := by
  refine Reader.Delimited.ofFields fun field member => ?_
  simp only [List.mem_cons, List.not_mem_nil, or_false] at member
  rcases member with rfl | rfl | rfl
  · exact Reader.Delimited.text.field
  · exact Reader.Delimited.int.field
  · exact (Reader.Delimited.list .int).field

theorem Reading.delimited : Reading.reader.Delimited := by
  refine Reader.Delimited.ofFields fun field member => ?_
  simp only [List.mem_cons, List.not_mem_nil, or_false] at member
  rcases member with rfl | rfl | rfl
  · exact Reader.Delimited.text.field
  · exact Reader.Delimited.int.field
  · exact (Reader.Delimited.option (.list .int)).field

theorem Sample.delimited : Sample.reader.Delimited := by
  refine Reader.Delimited.ofFields fun field member => ?_
  simp only [List.mem_cons, List.not_mem_nil, or_false] at member
  rcases member with rfl | rfl
  · exact Reader.Delimited.text.field
  · exact (Reader.Delimited.list .int).field

/-- The reader of every shape takes a front off its input. -/
theorem Shape.delimited (shape : Shape) : shape.reader.Delimited := by
  cases shape with
  | event => exact Event.delimited
  | note => exact (delimited_textField.map : Note.reader.Delimited)
  | tag => exact (delimited_textField.map : Tag.reader.Delimited)
  | reading => exact Reading.delimited
  | sample => exact Sample.delimited
  | text => exact .text
  | u64 | u8 | i64 => exact .int
  | bool => exact .bool
  | float => exact .float
  | unit => exact .unit
  | optionalU64 => exact .option .int
  | listU8 => exact .list .int
  | listText => exact .list .text
  | mapTextU64 => exact .entries .int

end Catalog

/-! ## Records -/

namespace Record

/-- What is wrong with the first `n` bytes of a record. -/
def shortfall (n : Nat) : CodecError :=
  if n = 0 then .emptyRecord else .unreadable .ended

/-- Of a record whose body is read to its last byte, no part is a record. -/
theorem decode_take {α : Type} {reader : Reader α} {id : UInt64} {body : Value} {a : α} {n : Nat}
    (delimited : reader.Delimited) (read : reader.read 255 body.write.bytes = .ok (a, []))
    (short : n < (write id body).bytes.length) :
    decode reader ((write id body).bytes.take n) = .error (shortfall n) := by
  have whole : (Reader.both .u64 reader).read levels (write id body).bytes = .ok ((id, a), []) := by
    rw [← List.append_nil (write id body).bytes, read_write, List.append_nil, read]
    rfl
  have pair : (Reader.both .u64 reader).Delimited := Reader.Delimited.int.both delimited
  obtain ⟨front, split, taken⟩ := (pair.delimits levels).front whole
  rw [List.append_nil] at split
  subst split
  have missing : (write id body).bytes.drop n ≠ [] := by
    rw [ne_eq, List.drop_eq_nil_iff]
    exact Nat.not_le.mpr short
  have ended := taken.cut (List.take_append_drop n _) missing
  cases n with
  | zero => rfl
  | succ n =>
      have some : ((write id body).bytes.take (n + 1)).isEmpty = false := by
        cases written : (write id body).bytes with
        | nil =>
            rw [written] at short
            exact absurd short (Nat.not_lt_zero _)
        | cons => rfl
      simp only [decode, some, ended, shortfall, Bool.false_eq_true, if_false, Nat.succ_ne_zero]

end Record

/-- Wherever the record of a body of any shape is cut, what is left of it is read neither as such a
    body nor as an id: the record ends too early, or there is nothing to read. -/
theorem Catalog.Shape.record_cut (shape : Shape) (id : UInt64) (v : shape.Carrier)
    (fits : (shape.body v).Fits) :
    ∃ record, Record.encode id (shape.body v) = .ok record ∧ ∀ n < record.length,
      Record.decode shape.reader (record.take n) = .error (Record.shortfall n) ∧
        Record.peekId (record.take n) = .error (Record.shortfall n) := by
  have plain : (Record.write id (shape.body v)).refusal = none :=
    Output.refusal_append.mpr ⟨rfl, shape.plain v⟩
  have recovers : Recovers shape.reader 255 (shape.body v) (shape.stored v) :=
    shape.recovers v fits
  have ignores : Recovers .ignored 255 (shape.body v) () :=
    shape.recovers_ignored v fits (by decide)
  have read := recovers []
  have passed := ignores []
  rw [List.append_nil] at read passed
  refine ⟨(Record.write id (shape.body v)).bytes, by simp only [Record.encode, plain], ?_⟩
  intro n short
  refine ⟨Record.decode_take shape.delimited read short, ?_⟩
  rw [Record.peekId, Record.decode_take .ignored passed short]
  rfl

/-- What a device with a non-ASCII name measured without samples, cut within its name or in front of
    the optional field. -/
theorem Catalog.Shape.reading_cut :
    let r : Reading := ⟨"Gerät", -300, none⟩
    (reading.body r).Fits ∧ ∃ record, Record.encode 7 (reading.body r) = .ok record ∧
      ∀ n < record.length,
        Record.decode Reading.reader (record.take n) = .error (Record.shortfall n) ∧
          Record.peekId (record.take n) = .error (Record.shortfall n) := by
  intro r
  have fits : (reading.body r).Fits := by
    refine ⟨by decide, ?_, ?_, ?_, trivial, ?_, trivial, trivial⟩
    all_goals
      change (utf8 _).length < 2 ^ 64
      decide
  exact ⟨fits, record_cut reading 7 r fits⟩

end ObjectStore
