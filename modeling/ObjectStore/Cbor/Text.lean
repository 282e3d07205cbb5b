import ObjectStore.Cbor.Head

/-! # Strings

Texts are UTF-8. A text or byte string has a length, or is open: a run of segments of the same kind
up to a stop, where an open segment may itself hold segments. A text segment is read in pieces; a
character may straddle two pieces but not two segments.
-/

namespace ObjectStore.Cbor

def utf8 (text : String) : Bytes :=
  text.toList.flatMap String.utf8EncodeChar

/-- The first character of a run of bytes, and the bytes behind it. -/
def nextChar? (bytes : Bytes) : Option (Char × Bytes) :=
  match (bytes.take 4).toByteArray.utf8DecodeChar? 0 with
  | some c => some (c, bytes.drop c.utf8Size)
  | none => none

/-- The longest run of whole characters, at most `fuel` of them, at the front of some bytes, and the
bytes behind it. -/
def takeChars : (fuel : Nat) → Bytes → List Char × Bytes
  | 0, bytes => ([], bytes)
  | fuel + 1, bytes =>
    match nextChar? bytes with
    | some (c, rest) =>
      let (chars, rest) := takeChars fuel rest
      (c :: chars, rest)
    | none => ([], bytes)

/-- The longest run of whole characters at the front of some bytes, and the bytes behind it. -/
def splitChars (bytes : Bytes) : List Char × Bytes :=
  takeChars bytes.length bytes

/-- How many bytes one piece of a segment holds, those kept back from the piece before included. -/
def pieceSize : Nat := 4096

/-- How many bytes of a character can be kept back for the next piece. -/
def keptBack : Nat := 3

/-- Read a text segment of `unread` more bytes, given the bytes kept back from the piece before. -/
def textPieces : (fuel : Nat) → (kept : Bytes) → (unread : Nat) → Bytes →
    Except ReadError (List Char × Bytes)
  | 0, _, _, _ => .error .malformed
  | fuel + 1, kept, unread, input =>
    if unread = 0 then
      if kept.isEmpty then .ok ([], input) else .error .malformed
    else do
      let size := min pieceSize (kept.length + unread) - kept.length
      let (piece, input) ← takeBytes size input
      let (chars, kept) := splitChars (kept ++ piece)
      if keptBack < kept.length then
        .error .malformed
      else
        let (more, input) ← textPieces fuel kept (unread - size) input
        return (chars ++ more, input)

/-- Read a text segment of a given length. -/
def textSegment (length : Nat) (input : Bytes) : Except ReadError (List Char × Bytes) :=
  textPieces (length + 1) [] length input

/-- Read the segments of an open string, `nesting` of them entered and not left, adding each to what
was read before. `kind?` tells the heads that begin a segment. Every head takes a byte, so that the
input is `budget` enough. -/
def openString {σ : Type} (kind? : Head → Option (Option Nat))
    (segment : σ → Nat → Bytes → Except ReadError (σ × Bytes)) :
    (budget : Bytes) → (nesting : Nat) → σ → Bytes → Except ReadError (σ × Bytes)
  | [], _, _, _ => .error .ended
  | _ :: budget, nesting, read, input => do
    let (head, input) ← Head.read input
    if head = .stop then
      if nesting ≤ 1 then return (read, input)
      else openString kind? segment budget (nesting - 1) read input
    else match kind? head with
      | none => .error .malformed
      | some none => openString kind? segment budget (nesting + 1) read input
      | some (some length) =>
        let (read, input) ← segment read length input
        openString kind? segment budget nesting read input

/-- Read a string whose head was read: one segment, or an open run of them. -/
def stringOf {σ : Type} (kind? : Head → Option (Option Nat))
    (segment : σ → Nat → Bytes → Except ReadError (σ × Bytes)) (length : Option Nat) (read : σ)
    (input : Bytes) : Except ReadError (σ × Bytes) :=
  match length with
  | some length => segment read length input
  | none => openString kind? segment input 1 read input

def textLength? : Head → Option (Option Nat)
  | .text length => some length
  | _ => none

def bytesLength? : Head → Option (Option Nat)
  | .bytes length => some length
  | _ => none

/-- Read the characters of a text whose head was read. -/
def textContent (length : Option Nat) (input : Bytes) : Except ReadError (List Char × Bytes) :=
  stringOf textLength? (fun read length input => do
    let (chars, input) ← textSegment length input
    return (read ++ chars, input)) length [] input

/-- Read the bytes of a byte string whose head was read. -/
def bytesContent (length : Option Nat) (input : Bytes) : Except ReadError (Bytes × Bytes) :=
  stringOf bytesLength? (fun read length input => do
    let (taken, input) ← takeBytes length input
    return (read ++ taken, input)) length [] input

/-- Whether bytes are the bytes of a text. -/
def isUtf8 (bytes : Bytes) : Bool :=
  (splitChars bytes).2.isEmpty

/-- Read a text of a known length in one piece, and keep its bytes. -/
def wholeText (length : Nat) (input : Bytes) : Except ReadError (Bytes × Bytes) := do
  let (taken, input) ← takeBytes length input
  if isUtf8 taken then return (taken, input) else .error .malformed

end ObjectStore.Cbor
