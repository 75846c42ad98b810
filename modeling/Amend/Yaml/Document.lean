/-
Amend.Yaml.Document — what the nodes of a YAML document stand for.

A node becomes what its type and its form together stand for; a document
that holds a node without a meaning has none. Scalars are evaluated where
they are met. Collections are only noted there, and are filled in the order
in which they were met, after all that was noted before them: this is the
order in which the first thing wrong with a document is found.

  §1 The state of the evaluation.
  §2 Scalars.
  §3 Collections.
  §4 Documents.
-/
import Amend.Text.Stream
import Amend.Yaml.Contents
import Amend.Yaml.Graph
import Amend.Yaml.Typed

namespace Amend.Yaml

/-! ## §1 The state of the evaluation -/

/-- The nodes, what is known of them, and the collections that are still to
be filled. -/
structure Progress where
  graph : Graph
  contents : Contents
  waiting : List NodeId := []

/-- A step of the evaluation. -/
abbrev Evaluation := StateT Progress (Except Error)

namespace Evaluation

/-- Says what a node holds. -/
def hold (n : NodeId) (cell : Cell) : Evaluation Unit :=
  modify fun p => { p with contents := p.contents.put n cell }

/-- Notes a collection, which is empty until it is filled. -/
def note (n : NodeId) (empty : Cell) : Evaluation Unit := do
  hold n empty
  modify fun p => { p with waiting := p.waiting ++ [n] }

/-! ## §2 Scalars -/

/-- The text of a scalar, or of the scalar at the key `=` of a mapping.
`fuel` bounds the mappings inside each other. -/
def words (g : Graph) : (fuel : Nat) → NodeId → Except Error Text
  | 0, _ => .error (.fault (.tooDeep []))
  | fuel + 1, n =>
    match (g.node n).content with
    | .scalar t => .ok t
    | .sequence _ => .error .malformed
    | .mapping es =>
      match es.find? fun e => (g.node e.1).tag = .value with
      | some (_, v) => words g fuel v
      | none => .error .malformed

/-- What a node of a scalar type holds. A moment is read only from a scalar
itself. -/
def scalarCell (g : Graph) (n : NodeId) : Except Error Cell := do
  let tag := (g.node n).tag
  if !Typed.isScalar tag then throw .malformed
  let t ← words g (g.size + 1) n
  if tag = .timestamp ∧ g.isMapping n then throw (.fault .noText)
  let v ← Typed.scalar tag t
  return .leaf v (v matches .float .nan && !Typed.isNanWord t)

/-- Evaluates a node, unless that is done. -/
def evaluate (n : NodeId) : Evaluation Unit := do
  let p ← get
  if p.contents.has n then return
  match (p.graph.node n).tag with
  | .sequence => note n (.list [])
  | .pairs | .ordered => note n (.pairs [])
  | .set => note n (.set [])
  | .mapping => note n (.mapping [])
  | _ => hold n (← scalarCell p.graph n)

/-! ## §3 Collections -/

/-- Evaluates the entries of a mapping: a later one replaces an earlier one
with the same key. -/
def gather : List Entry → (done : List Entry) → Evaluation (List Entry)
  | [], done => return done
  | (k, v) :: es, done => do
    evaluate k
    if !(← get).contents.isKey k then throw .malformed
    evaluate v
    gather es ((← get).contents.putEntry done (k, v))

/-- Evaluates mappings of one entry each, as pairs. -/
def gatherPairs : List NodeId → Evaluation (List Entry)
  | [] => return []
  | n :: ns => do
    match ((← get).graph.node n).content with
    | .mapping [(k, v)] =>
      evaluate k
      evaluate v
      return (k, v) :: (← gatherPairs ns)
    | _ => throw .malformed

/-- The entries of a mapping once its merge keys are carried out. -/
def entriesOf (n : NodeId) : Evaluation (List Entry) := do
  let p ← get
  if !p.graph.isMapping n then throw .malformed
  let g ← p.graph.merge n
  set { p with graph := g }
  gather (g.entries n) []

/-- Fills a collection, which must have the form that its type needs. -/
def fill (n : NodeId) : Evaluation Unit := do
  let node := (← get).graph.node n
  match node.tag, node.content with
  | .sequence, .sequence ns =>
    ns.forM evaluate
    hold n (.list ns)
  | .pairs, .sequence ns | .ordered, .sequence ns => hold n (.pairs (← gatherPairs ns))
  | .set, _ => hold n (.set ((← entriesOf n).map Prod.fst))
  | .mapping, _ => hold n (.mapping (← entriesOf n))
  | _, _ => throw .malformed

/-- Fills the collections that are noted. `fuel` bounds their number. -/
def fillAll : (fuel : Nat) → Evaluation Unit
  | 0 => return ()
  | fuel + 1 => do
    let p ← get
    match p.waiting with
    | [] => return ()
    | n :: ns =>
      set { p with waiting := ns }
      fill n
      fillAll fuel

end Evaluation

/-! ## §4 Documents -/

/-- What a document holds, and its root if it has one. -/
structure Document where
  contents : Contents := {}
  root : Option NodeId := none

namespace Document

/-- What the nodes of a document hold. -/
def ofGraph (g : Graph) (root : NodeId) : Except Error Document := do
  let work : Evaluation Unit := do
    Evaluation.evaluate root
    Evaluation.fillAll (g.size + 1)
  let ((), p) ← work.run { graph := g, contents := ⟨Array.replicate g.size none⟩ }
  return { contents := p.contents, root := some root }

/-- The value of a document; an empty one is null. -/
def value (d : Document) : Value :=
  match d.root with
  | some n => (d.contents.values [n]).headD .null
  | none => .null

/-- The entries of a document that is a mapping. -/
def fields? (d : Document) : Option (List (Value × Value)) := d.root.bind d.contents.fields?

/-- The only document among some characters; `cut` says what is met at their
end, if they go on. -/
def ofChars (cs : List Char) (cut : Option Error) : Except Error Document := do
  match ← Graph.read cs cut with
  | some (g, n) => ofGraph g n
  | none => return {}

/-- How many characters of a file are taken at a time. -/
def portion : Nat := 4096

/-- The characters of the portions up to the first that a document may not
hold, and what is met after them. -/
def portions : List Text → Option Utf8.Malformed → List Char × Option Error
  | [], defect => ([], defect.map fun m => .fault (.malformed m))
  | t :: ts, defect =>
    match printable? t with
    | none => ([], some .malformed)
    | some cs =>
      let (more, cut) := portions ts defect
      (cs ++ more, cut)

/-- The only document in a file. The first two portions are taken before the
document is read, the others as they are needed. -/
def read (content : Bytes) : Except Error Document :=
  let (ts, defect) := Supply.read portion content
  match portions [(ts.take 2).flatten] (if ts.length < 2 then defect else none) with
  | (_, some e) => .error e
  | (cs, none) =>
    let (more, cut) := portions (ts.drop 2) defect
    ofChars (cs ++ more) (if ts.length < 2 then none else cut)

end Document

end Amend.Yaml
