import ObjectStore.Record.Basic

/-! # Objects

The object types of the example model, with what is written of each. An object's own id and its
related objects are not part of its body: the id is kept beside the body, and related objects are
linked to.
-/

namespace ObjectStore.Catalog

open Cbor

/-- Something that happened. -/
structure Event where
  id : ObjectId := 0
  source : String := ""
  seq : UInt64 := 0
  payload : Bytes := []
  deriving DecidableEq, Repr

/-- A name notes can be filed under. -/
structure Tag where
  id : ObjectId := 0
  name : String := ""
  deriving DecidableEq, Repr

/-- A text with tags. The tags are absent where they were not loaded. -/
structure Note where
  id : ObjectId := 0
  text : String := ""
  tags : Option (List Tag) := none
  deriving DecidableEq, Repr

/-- A text that may be told to fail where it is used. -/
structure Label where
  id : ObjectId := 0
  text : String := ""
  deriving DecidableEq, Repr

/-- A named collection of notes. The notes are absent where they were not loaded. -/
structure Folder where
  id : ObjectId := 0
  name : String := ""
  notes : Option (List Note) := none
  deriving DecidableEq, Repr

/-- A name that could have related objects and has none. -/
structure Marker where
  id : ObjectId := 0
  name : String := ""
  deriving DecidableEq, Repr

/-- What one device measured. -/
structure Reading where
  device : String
  value : Int64
  samples : Option (List UInt16)
  deriving DecidableEq

/-- A name with numbered tags. -/
structure Sample where
  name : String
  tags : List UInt32
  deriving DecidableEq, Repr

/-- A list of small numbers, written one by one. -/
def ofBytes (bytes : Bytes) : Value :=
  .ofList (bytes.map fun b => .ofUInt64 b.toUInt64)

/-- The reader of a body with one text field. -/
def textField (name : String) : Reader String :=
  .fields [Field.of name .text id fun _ text => some text] none (Reader.orMissing .text)

namespace Event

def body (e : Event) : Value :=
  .ofFields [("source", .text e.source), ("seq", .ofUInt64 e.seq), ("payload", ofBytes e.payload)]

/-- The fields of an event that were read. -/
structure Parts where
  source : Option String := none
  seq : Option UInt64 := none
  payload : Option Bytes := none

def reader : Reader Event :=
  .fields
    [Field.of "source" .text Parts.source fun p source => { p with source := some source },
      Field.of "seq" .u64 Parts.seq fun p seq => { p with seq := some seq },
      Field.of "payload" (.list .u8) Parts.payload
        fun p payload => { p with payload := some payload }]
    {} fun p => do
      let source ← Reader.orMissing .text p.source
      let seq ← Reader.orMissing .u64 p.seq
      let payload ← Reader.orMissing (.list .u8) p.payload
      return { source, seq, payload }

end Event

namespace Tag

def body (t : Tag) : Value := .ofFields [("name", .text t.name)]

def reader : Reader Tag := (textField "name").map fun name => { name }

end Tag

namespace Note

def body (n : Note) : Value := .ofFields [("text", .text n.text)]

def reader : Reader Note := (textField "text").map fun text => { text }

/-- The ids of a note's tags, as far as they are loaded. -/
def tagIds (n : Note) : List ObjectId := (n.tags.getD []).map Tag.id

end Note

namespace Label

def body (l : Label) : Value := .ofFields [("text", .text l.text)]

def reader : Reader Label := (textField "text").map fun text => { text }

end Label

namespace Folder

def body (f : Folder) : Value := .ofFields [("name", .text f.name)]

def reader : Reader Folder := (textField "name").map fun name => { name }

end Folder

namespace Marker

def body (m : Marker) : Value := .ofFields [("name", .text m.name)]

def reader : Reader Marker := (textField "name").map fun name => { name }

end Marker

namespace Reading

def body (r : Reading) : Value :=
  .ofFields [("device", .text r.device), ("value", .ofInt r.value.toInt),
    ("samples", match r.samples with
      | some samples => .ofList (samples.map fun n => .ofUInt64 n.toUInt64)
      | none => .null)]

structure Parts where
  device : Option String := none
  value : Option Int64 := none
  samples : Option (Option (List UInt16)) := none

def reader : Reader Reading :=
  .fields
    [Field.of "device" .text Parts.device fun p device => { p with device := some device },
      Field.of "value" .i64 Parts.value fun p value => { p with value := some value },
      Field.of "samples" (.option (.list .u16)) Parts.samples
        fun p samples => { p with samples := some samples }]
    {} fun p => do
      let device ← Reader.orMissing .text p.device
      let value ← Reader.orMissing .i64 p.value
      let samples ← Reader.orMissing (.option (.list .u16)) p.samples
      return { device, value, samples }

end Reading

namespace Sample

def body (s : Sample) : Value :=
  .ofFields [("name", .text s.name), ("tags", .ofList (s.tags.map fun n => .ofUInt64 n.toUInt64))]

structure Parts where
  name : Option String := none
  tags : Option (List UInt32) := none

def reader : Reader Sample :=
  .fields
    [Field.of "name" .text Parts.name fun p name => { p with name := some name },
      Field.of "tags" (.list .u32) Parts.tags fun p tags => { p with tags := some tags }]
    {} fun p => do
      let name ← Reader.orMissing .text p.name
      let tags ← Reader.orMissing (.list .u32) p.tags
      return { name, tags }

end Sample

end ObjectStore.Catalog
