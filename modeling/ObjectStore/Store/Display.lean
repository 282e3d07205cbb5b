import ObjectStore.Store.Transaction

/-! # Displayed forms

How the parts of a store are shown to whoever looks into them: the name of what it is, then the
parts that may be seen, each with its own name. Two dots stand for parts that are not shown.
-/

namespace ObjectStore

/-- A thing shown by its name and the parts that may be seen; `more` if there are others. -/
def displayed (name : String) (parts : List (String × String)) (more : Bool) : String :=
  let shown := parts.map fun part => part.1 ++ ": " ++ part.2
  name ++ " \x7b " ++ ", ".intercalate (if more then shown ++ [".."] else shown) ++ " \x7d"

namespace EntityDescriptor

/-- An entity type as it is shown; its binding is not. -/
def display (e : EntityDescriptor) : String :=
  displayed "EntityDescriptor" [("type_id", toString e.id), ("name", quoted e.name),
    ("has_relations", toString e.hasRelations)] true

/-- A box of an entity type as it is shown. -/
def displayBox (e : EntityDescriptor) (box : String) : String :=
  displayed box [("entity", e.display)] true

end EntityDescriptor

def Relation.display (r : Relation) : String :=
  displayed "RelationToMany" [("id", toString r.id), ("source", toString r.source),
    ("target", toString r.target)] false

def Queue.display (q : Queue) : String :=
  displayed "AsyncQueue" [("pending", toString q.pending.length)] true

def TxnMode.display : TxnMode → String
  | .read => "Read"
  | .write => "Write"

def Txn.display (t : Txn) : String :=
  displayed "Transaction" [("handle", "TxnHandle(" ++ toString t.handle ++ ")"),
    ("mode", t.mode.display), ("finished", "false")] true

end ObjectStore
