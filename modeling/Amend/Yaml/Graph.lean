/-
Amend.Yaml.Graph — reading a document as a graph of nodes.

Nodes are made in the order in which they begin. A collection has its number
before its parts are read, so an alias inside it may stand for it.
Collections stand inside each other up to a limit, beyond which reading
fails.

  §1 The state of the reading.
  §2 Properties of nodes.
  §3 Nodes from tokens.
  §4 Documents.
-/
import Amend.Table
import Amend.Yaml.Node
import Amend.Yaml.Token

namespace Amend.Yaml

/-! ## §1 The state of the reading -/

/-- The tokens that are left, what the handles of tags stand for, the nodes
that have names, all nodes, and how many collections are open. -/
structure Reader where
  lexer : Lexer
  handles : Table (List Char) (List Char)
  anchors : Table (List Char) NodeId := []
  graph : Graph := {}
  depth : Nat := 0

/-- A step of the reading. -/
abbrev Reading := StateT Reader (Except Error)

namespace Reading

/-- The next token. -/
def peek : Reading Token := do
  let r ← get
  let (t, l) ← r.lexer.peek
  set { r with lexer := l }
  return t

/-- Passes the next token. -/
def pass : Reading Unit := modify fun r => { r with lexer := r.lexer.pass }

/-- Fails because the next token does not belong where it stands. -/
def refuse {α : Type} : Reading α := do
  let _ ← peek
  throw .malformed

/-- Passes the next token if it is `t`, and says whether it was. -/
def accept (t : Token) : Reading Bool := do
  if (← peek) == t then
    pass
    return true
  else return false

/-- Passes the next token, which must be `t`. -/
def expect (t : Token) : Reading Unit := do
  if !(← accept t) then refuse

/-- Whether the next token is one of some. -/
def ahead (ts : List Token) : Reading Bool := do return ts.contains (← peek)

/-- Makes a node. -/
def make (node : Node) : Reading NodeId := do
  let r ← get
  set { r with graph := r.graph.add node }
  return r.graph.size

/-- Makes the node of a scalar that is not there. -/
def makeMissing : Reading NodeId := make .missing

/-! ## §2 Properties of nodes -/

/-- The name a node gets, and its tag: a handle and the rest. -/
structure Properties where
  anchor : Option (List Char) := none
  tag : Option (Option (List Char) × List Char) := none

/-- The name and the tag before a node, in either order. -/
def properties : Reading Properties := do
  match ← peek with
  | .anchor name =>
    pass
    match ← peek with
    | .tag handle suffix =>
      pass
      return ⟨some name, some (handle, suffix)⟩
    | _ => return ⟨some name, none⟩
  | .tag handle suffix =>
    pass
    match ← peek with
    | .anchor name =>
      pass
      return ⟨some name, some (handle, suffix)⟩
    | _ => return ⟨none, some (handle, suffix)⟩
  | _ => return {}

/-- The full name of a tag. The handle must be known. -/
def tagName (tag : Option (List Char) × List Char) : Reading (List Char) :=
  match tag with
  | (none, suffix) => return suffix
  | (some handle, suffix) => do
    match (← get).handles.get? handle with
    | some meaning => return meaning ++ suffix
    | none => throw .malformed

/-- The type of a collection whose tag has the given name. A mark alone is
no name. -/
def collectionTag (default : Tag) : Option (List Char) → Tag
  | none => default
  | some n => if n == ['!'] then default else Tag.ofName n

/-- The type of a scalar whose tag has the given name. -/
def scalarTag (plain : Bool) (t : Text) : Option (List Char) → Tag
  | none => if plain then Tag.ofPlain (Lexer.chars t) else .text
  | some n => if n == ['!'] then Tag.ofPlain (Lexer.chars t) else Tag.ofName n

/-- Makes a node and gives it its name, which no other node may have. -/
def makeNamed (anchor : Option (List Char)) (node : Node) : Reading NodeId := do
  match anchor with
  | none => make node
  | some a =>
    if (← get).anchors.has a then throw .malformed
    let n ← make node
    modify fun r => { r with anchors := r.anchors.put a n }
    return n

/-- How many collections may stand inside each other. -/
def depthLimit : Nat := 490

/-- Makes a collection, whose parts are read after it has its name. -/
def makeFrom (anchor : Option (List Char)) (tag : Tag) (empty : Content)
    (parts : Reading Content) : Reading NodeId := do
  let n ← makeNamed anchor ⟨tag, empty⟩
  if depthLimit ≤ (← get).depth then throw (.fault (.tooDeep []))
  modify fun r => { r with depth := r.depth + 1 }
  let c ← parts
  modify fun r => { r with depth := r.depth - 1, graph := r.graph.setContent n c }
  return n

/-! ## §3 Nodes from tokens -/

mutual

/-- A node. Outside brackets it may be a block collection, and where
`atItems` says so a sequence may begin without being indented. `fuel` bounds
the tokens, here and below. -/
def node (inBlock atItems : Bool) : (fuel : Nat) → Reading NodeId
  | 0 => refuse
  | fuel + 1 => do
    match ← peek with
    | .alias a =>
      pass
      match (← get).anchors.get? a with
      | some n => return n
      | none => throw .malformed
    | _ =>
      let p ← properties
      let tag ← p.tag.mapM tagName
      let sequence (items : Reading (List NodeId)) : Reading NodeId :=
        makeFrom p.anchor (collectionTag .sequence tag) (.sequence []) (.sequence <$> items)
      let mapping (entries : Reading (List (NodeId × NodeId))) : Reading NodeId :=
        makeFrom p.anchor (collectionTag .mapping tag) (.mapping []) (.mapping <$> entries)
      let scalar (plain : Bool) (t : Text) : Reading NodeId :=
        makeNamed p.anchor ⟨scalarTag plain t tag, .scalar t⟩
      let bare : Reading NodeId :=
        if p.anchor.isSome || p.tag.isSome then scalar true [] else refuse
      match ← peek with
      | .item => if atItems then sequence (looseItems fuel) else bare
      | .scalar plain t =>
        pass
        scalar plain t
      | .openBracket => sequence (do pass; flowItems true fuel)
      | .openBrace => mapping (do pass; flowEntries true fuel)
      | .sequenceStart => if inBlock then sequence (do pass; blockItems fuel) else bare
      | .mappingStart => if inBlock then mapping (do pass; blockEntries fuel) else bare
      | _ => bare

/-- A node, or a missing one before a token that cannot begin it. -/
def nodeUnless (stops : List Token) (inBlock atItems : Bool) : (fuel : Nat) → Reading NodeId
  | 0 => refuse
  | fuel + 1 => do if ← ahead stops then makeMissing else node inBlock atItems fuel

/-- The items of an indented sequence. -/
def blockItems : (fuel : Nat) → Reading (List NodeId)
  | 0 => refuse
  | fuel + 1 => do
    if ← accept .item then
      let n ← nodeUnless [.item, .blockEnd] true false fuel
      return n :: (← blockItems fuel)
    else
      expect .blockEnd
      return []

/-- The items of a sequence that is not indented. -/
def looseItems : (fuel : Nat) → Reading (List NodeId)
  | 0 => refuse
  | fuel + 1 => do
    if ← accept .item then
      let n ← nodeUnless [.item, .key, .value, .blockEnd] true false fuel
      return n :: (← looseItems fuel)
    else return []

/-- The entries of a block mapping. -/
def blockEntries : (fuel : Nat) → Reading (List (NodeId × NodeId))
  | 0 => refuse
  | fuel + 1 => do
    let stops := [Token.key, .value, .blockEnd]
    if ← accept .key then
      let k ← nodeUnless stops true true fuel
      let v ← valueUnless stops true fuel
      return (k, v) :: (← blockEntries fuel)
    else
      expect .blockEnd
      return []

/-- The value of an entry, or a missing one if there is no sign of a value. -/
def valueUnless (stops : List Token) (inBlock : Bool) : (fuel : Nat) → Reading NodeId
  | 0 => refuse
  | fuel + 1 => do
    if ← accept .value then nodeUnless stops inBlock inBlock fuel else makeMissing

/-- The items between brackets. An entry stands for a mapping of its own. -/
def flowItems (first : Bool) : (fuel : Nat) → Reading (List NodeId)
  | 0 => refuse
  | fuel + 1 => do
    if ← accept .closeBracket then return []
    if !first then expect .comma
    if (← peek) == .key then
      let n ← makeFrom none .mapping (.mapping []) (flowPair fuel)
      return n :: (← flowItems false fuel)
    else if ← accept .closeBracket then return []
    else
      let n ← node false false fuel
      return n :: (← flowItems false fuel)

/-- The one entry of a mapping between brackets. -/
def flowPair : (fuel : Nat) → Reading Content
  | 0 => refuse
  | fuel + 1 => do
    pass
    let k ← nodeUnless [.value, .comma, .closeBracket] false false fuel
    let v ← valueUnless [.comma, .closeBracket] false fuel
    return .mapping [(k, v)]

/-- The entries between braces. -/
def flowEntries (first : Bool) : (fuel : Nat) → Reading (List (NodeId × NodeId))
  | 0 => refuse
  | fuel + 1 => do
    if ← accept .closeBrace then return []
    if !first then expect .comma
    if ← accept .key then
      let k ← nodeUnless [.value, .comma, .closeBrace] false false fuel
      let v ← valueUnless [.comma, .closeBrace] false fuel
      return (k, v) :: (← flowEntries false fuel)
    else if ← accept .closeBrace then return []
    else
      let k ← node false false fuel
      let v ← makeMissing
      return (k, v) :: (← flowEntries false fuel)

end

/-! ## §4 Documents -/

/-- The handles that need no directive. -/
def knownHandles : Table (List Char) (List Char) := [(['!'], ['!']), (['!', '!'], Tag.standard)]

/-- The directives before a document: one version at most, which must be the
first, and what each handle stands for. -/
def directives : (fuel : Nat) → (versioned : Bool) → (handles : Table (List Char) (List Char)) →
    Reading (Table (List Char) (List Char))
  | 0, _, _ => refuse
  | fuel + 1, versioned, handles => do
    match ← peek with
    | .directive d =>
      pass
      match d with
      | .version major =>
        if versioned || major != 1 then throw .malformed
        directives fuel true handles
      | .handle name meaning =>
        if handles.has name then throw .malformed
        directives fuel versioned (handles.put name meaning)
      | .other => directives fuel versioned handles
    | _ => return handles

/-- The directives before a document and the sign that it begins. -/
def beginning (fuel : Nat) : Reading Unit := do
  let handles ← directives fuel false []
  modify fun r => { r with
    handles := handles ++ knownHandles.filter fun h => !handles.has h.1 }
  expect .documentStart

/-- Passes the marks at the end of a document. -/
def passEnds : (fuel : Nat) → Reading Unit
  | 0 => return ()
  | fuel + 1 => do if ← accept .documentEnd then passEnds fuel

/-- The only document; none if there is not even the start of one. -/
def document (fuel : Nat) : Reading (Option NodeId) := do
  match ← peek with
  | .finish => return none
  | .directive _ | .documentStart =>
    beginning fuel
    match ← peek with
    | .directive _ | .documentStart | .documentEnd | .finish => close (← makeMissing)
    | _ => close (← node true false fuel)
  | _ => close (← node true false fuel)
where
  /-- The document, if no other follows it. -/
  close (n : NodeId) : Reading (Option NodeId) := do
    passEnds fuel
    if (← peek) == .finish then return some n
    beginning fuel
    throw .malformed

end Reading

/-- The nodes of a document and the number of its root; none if there is no
document. `cut` says what is met at the end of the characters, if the
document goes on. -/
def Graph.read (cs : List Char) (cut : Option Error) : Except Error (Option (Graph × NodeId)) := do
  let fuel := 16 * (cs.length + 1)
  let (root, r) ← (Reading.document fuel).run
    { lexer := Lexer.start cs cut, handles := Reading.knownHandles }
  return root.map fun n => (r.graph, n)

end Amend.Yaml
