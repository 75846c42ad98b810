/-
Amend.Yaml.Contents — what a document holds, with its shared parts.

Each node of a document holds one thing, however often it is referred to,
and a collection may be part of itself. A collection is therefore kept by
the numbers of its parts. It is unfolded into a value where one is needed;
there a collection inside itself shows as a recurrence.

  §1 Cells.
  §2 Entries of mappings.
  §3 Unfolding.
  §4 Looking into documents.
-/
import Amend.Value.Slot
import Amend.Yaml.Merge

namespace Amend.Yaml

/-! ## §1 Cells -/

/-- What a node holds. A leaf is `alone` if it is the same as no other, like
a number that is none. -/
inductive Cell where
  | leaf (v : Value) (alone : Bool)
  | list (items : List NodeId)
  | pairs (entries : List Entry)
  | set (members : List NodeId)
  | mapping (entries : List Entry)
  deriving Repr

/-- What the nodes of a document hold, by number. -/
structure Contents where
  cells : Array (Option Cell) := #[]
  deriving Repr

namespace Contents

/-- What a node holds. -/
def cell (c : Contents) (n : NodeId) : Cell := ((c.cells[n]?).join).getD (.leaf .null false)

/-- Whether it is known what a node holds. -/
def has (c : Contents) (n : NodeId) : Bool := ((c.cells[n]?).join).isSome

/-- The contents with what one node holds. -/
def put (c : Contents) (n : NodeId) (cell : Cell) : Contents :=
  ⟨c.cells.setIfInBounds n (some cell)⟩

/-! ## §2 Entries of mappings -/

/-- Whether two nodes are the same key. Only leaves are keys. -/
def sameKey (c : Contents) (n m : NodeId) : Bool :=
  n == m ||
    match c.cell n, c.cell m with
    | .leaf v false, .leaf w false => Value.same v w
    | _, _ => false

/-- Entries with one more: in place of the value of an entry with the same
key, or at the end. -/
def putEntry (c : Contents) (entries : List Entry) (e : Entry) : List Entry :=
  if entries.any fun f => c.sameKey f.1 e.1 then
    entries.map fun f => if c.sameKey f.1 e.1 then (f.1, e.2) else f
  else entries ++ [e]

/-- Whether a node may be a key: it holds nothing that can change. -/
def isKey (c : Contents) (n : NodeId) : Bool :=
  match c.cell n with
  | .leaf .. => true
  | _ => false

/-! ## §3 Unfolding -/

/-- A value, and whether it holds a recurrence. -/
abbrev Unfolded := Value × Bool

/-- The value a node stands for below the nodes of `path`. Values without
recurrences are the same below all nodes and are kept. `fuel` bounds the
nodes above each other. -/
def unfold (c : Contents) : (fuel : Nat) → (path : List NodeId) → NodeId →
    StateM (Array (Option Value)) Unfolded
  | 0, _, _ => return (.null, false)
  | fuel + 1, path, n => do
    let below (m : NodeId) : StateM (Array (Option Value)) Unfolded := c.unfold fuel (n :: path) m
    let belowBoth (e : Entry) : StateM (Array (Option Value)) ((Value × Value) × Bool) := do
      let (k, inKey) ← below e.1
      let (v, inValue) ← below e.2
      return ((k, v), inKey || inValue)
    let visit (ofMapping : Bool) (parts : StateM (Array (Option Value)) Unfolded) :
        StateM (Array (Option Value)) Unfolded := do
      if path.contains n then return (.recurrence ofMapping, true)
      match ((← get)[n]?).join with
      | some v => return (v, false)
      | none =>
        let (v, recurs) ← parts
        if !recurs then modify fun kept => kept.setIfInBounds n (some v)
        return (v, recurs)
    match c.cell n with
    | .leaf v _ => return (v, false)
    | .list ns => visit false do
      let us ← ns.mapM below
      return (.list (us.map Prod.fst), us.any Prod.snd)
    | .pairs es => visit false do
      let us ← es.mapM belowBoth
      return (.list (us.map fun u => .tuple [u.1.1, u.1.2]), us.any Prod.snd)
    | .set ns => visit false do
      let us ← ns.mapM below
      return (.set (Value.inSlots (us.map Prod.fst)), us.any Prod.snd)
    | .mapping es => visit true do
      let us ← es.mapM belowBoth
      return (.mapping (us.map Prod.fst), us.any Prod.snd)

/-- The values that some nodes stand for, each by itself. -/
def values (c : Contents) (ns : List NodeId) : List Value :=
  let shown := ns.mapM fun n => do return (← c.unfold (c.cells.size + 1) [] n).1
  (Id.run (shown.run (Array.replicate c.cells.size none))).1

/-! ## §4 Looking into documents -/

/-- The items of a list. A list of pairs has no nodes as items, so it is one
only if it is empty. -/
def items? (c : Contents) (n : NodeId) : Option (List NodeId) :=
  match c.cell n with
  | .list ns => some ns
  | .pairs [] => some []
  | _ => none

/-- The entries of a mapping. -/
def entries? (c : Contents) (n : NodeId) : Option (List Entry) :=
  match c.cell n with
  | .mapping es => some es
  | _ => none

/-- The entries of a mapping as values, each by itself. -/
def fields? (c : Contents) (n : NodeId) : Option (List (Value × Value)) :=
  (c.entries? n).map fun es => (c.values (es.map Prod.fst)).zip (c.values (es.map Prod.snd))

/-- The node at a key of a mapping that is a text. -/
def field? (c : Contents) (entries : List Entry) (key : String) : Option NodeId :=
  (entries.find? fun e =>
    match c.cell e.1 with
    | .leaf v _ => Value.same v (.ofString key)
    | _ => false).map Prod.snd

end Contents

end Amend.Yaml
