import ObjectStore.Engine.Basic

/-! # Calls on links

Linking, unlinking and listing the targets of a source. Linking twice and unlinking what is not
linked succeed and change no link; every served write counts.
-/

namespace ObjectStore.Engine

/-- One more single-link write was served. -/
def countLinkWrite (e : Engine) : Engine :=
  { e with relationWrites := e.relationWrites + 1 }

def relPut (e : Engine) (thread : ThreadId) (txn : Option Handle) (relation : RelationId)
    (source target : ObjectId) : Except Halt Engine := do
  let _ ← e.endpoints relation
  if source = 0 ∨ target = 0 then
    refuse (.reservedLink relation source target)
  else
    let (_, e) ← e.write thread txn fun s => .ok ((), s.link relation source target)
    return e.countLinkWrite

def relRemove (e : Engine) (thread : ThreadId) (txn : Option Handle) (relation : RelationId)
    (source target : ObjectId) : Except Halt Engine := do
  let _ ← e.endpoints relation
  let (_, e) ← e.write thread txn fun s => .ok ((), s.unlink relation source target)
  return e.countLinkWrite

/-- The targets of a source, ascending. -/
def relGetIds (e : Engine) (txn : Option Handle) (relation : RelationId) (source : ObjectId) :
    Except Halt (List ObjectId) := do
  let _ ← e.endpoints relation
  let s ← e.view txn
  return (s.targets relation source).toList

end ObjectStore.Engine
