import ObjectStore.Catalog.Objects
import ObjectStore.Store.Links

/-! # Bindings of the example objects

How the example objects are kept in a store. Notes are stored with their tags, folders with their
notes and an event that tells of it. Labels can be made to fail at each thing a binding does.

The small model has events, notes and tags, and the relation from notes to tags; the full model has
all six types and the relations between them.
-/

namespace ObjectStore.Catalog

open Cbor

def noteTags : Relation := ⟨20, 11, 12⟩

def noteLabels : Relation := ⟨21, 11, 13⟩

def noteNotes : Relation := ⟨22, 11, 11⟩

def eventTags : Relation := ⟨23, 10, 12⟩

def folderNotes : Relation := ⟨24, 14, 11⟩

/-- The object of a record, which is given the record's id. -/
def decodeWith {T : Type} (reader : Reader T) (setId : T → ObjectId → T) (record : Bytes) :
    Except CodecError T := do
  let (id, object) ← Record.decode reader record
  return setId object id

def eventBinding : Binding Event where
  name := "event"
  id e := .ok e.id
  setId e id := .ok { e with id }
  body e := .ok e.body
  decode := decodeWith Event.reader fun e id => { e with id }

def tagBinding : Binding Tag where
  name := "tag"
  id t := .ok t.id
  setId t id := .ok { t with id }
  body t := .ok t.body
  decode := decodeWith Tag.reader fun t id => { t with id }

/-- How notes are kept: with their tags, if those are loaded. -/
def noteBinding : Binding Note where
  name := "note"
  id n := .ok n.id
  setId n id := .ok { n with id }
  body n := .ok n.body
  decode := decodeWith Note.reader fun n id => { n with id }
  putRelated txn id := do
    let note ← Editing.current
    if note.tags.isSome then
      Editing.focus Note.tags (fun note tags => { note with tags }) <|
        Store.replaceLinks tagBinding txn noteTags id note.id
  loadRelated txn note := do
    return { note with tags := some (← Store.relatedObjects tagBinding txn noteTags note.id) }

/-- The text of a label whose id cannot be asked for. -/
def badId : String := "<bad-id>"

/-- The text of a label that cannot be given an id. -/
def badSet : String := "<bad-set>"

/-- The text of a label that cannot be written. -/
def unencodable : String := "<unencodable>"

/-- The text of a label that cannot be read back. -/
def undecodable : String := "<undecodable>"

/-- How labels are kept, or fail to be. -/
def labelBinding : Binding Label where
  name := "label"
  id l := if l.text = badId then .error (.misuse (.other "label id rejected")) else .ok l.id
  setId l id :=
    if l.text = badSet then .error (.misuse (.other "label set_id rejected")) else .ok { l with id }
  body l := if l.text = unencodable then .error (.unencodable "label text rejected") else .ok l.body
  decode record := do
    let label ← decodeWith Label.reader (fun l id => { l with id }) record
    if label.text = undecodable then .error (.rejected "label text rejected") else .ok label

/-- How folders are kept: with their notes, and an event that tells of the folder. -/
def folderBinding : Binding Folder where
  name := "folder"
  id f := .ok f.id
  setId f id := .ok { f with id }
  body f := .ok f.body
  decode := decodeWith Folder.reader fun f id => { f with id }
  putRelated txn id := do
    let folder ← Editing.current
    Editing.focus Folder.notes (fun folder notes => { folder with notes }) <|
      Store.replaceLinks noteBinding txn folderNotes id folder.id
    let events ← Store.boxFor eventBinding
    let told : Event := { source := "folder:" ++ folder.name, seq := id }
    let _ ← Editing.focus (fun _ => told) (fun folder _ => folder) (events.put (some txn))
  loadRelated txn folder := do
    return { folder with
      notes := some (← Store.relatedObjects noteBinding txn folderNotes folder.id) }

def markerBinding : Binding Marker where
  name := "marker"
  id m := .ok m.id
  setId m id := .ok { m with id }
  body m := .ok m.body
  decode := decodeWith Marker.reader fun m id => { m with id }

def entityTypes : List EntityDescriptor :=
  [⟨10, "Event", false, eventBinding.name⟩, ⟨11, "Note", true, noteBinding.name⟩,
    ⟨12, "Tag", false, tagBinding.name⟩, ⟨13, "Label", false, labelBinding.name⟩,
    ⟨14, "Folder", true, folderBinding.name⟩, ⟨15, "Marker", true, markerBinding.name⟩]

def smallModel : Model :=
  { entities := entityTypes.take 3, relations := [noteTags] }

def fullModel : Model :=
  { entities := entityTypes
    relations := [noteTags, noteLabels, noteNotes, eventTags, folderNotes] }

end ObjectStore.Catalog
