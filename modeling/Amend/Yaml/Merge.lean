/-
Amend.Yaml.Merge — merge keys.

A merge key stands for the entries of another mapping, or of the mappings of
a sequence. They are put before the entries of its own mapping, those of a
sequence from the last mapping on, so that of entries with one key the own
one wins, and then the one of the first mapping. A mapping may merge itself:
what is left of it then counts.

  §1 Finding merge keys.
  §2 Merging.
-/
import Amend.Yaml.Node

namespace Amend.Yaml

/-- An entry of a mapping. -/
abbrev Entry := NodeId × NodeId

/-! ## §1 Finding merge keys -/

namespace Graph

/-- What the first merge key among some entries merges, and the other
entries. -/
def splitMerge (g : Graph) : List Entry → Option (NodeId × List Entry)
  | [] => none
  | e :: es =>
    if (g.node e.1).tag = .merge then some (e.2, es)
    else (g.splitMerge es).map fun (source, rest) => (source, e :: rest)

/-- Whether a node is a mapping. -/
def isMapping (g : Graph) (n : NodeId) : Bool :=
  match (g.node n).content with
  | .mapping _ => true
  | _ => false

/-- The mappings that a merge key merges: a mapping, or those of a sequence
that holds nothing else. -/
def sources (g : Graph) (n : NodeId) : Except Error (List NodeId) :=
  match (g.node n).content with
  | .mapping _ => .ok [n]
  | .sequence ns => if ns.all g.isMapping then .ok ns else .error .malformed
  | .scalar _ => .error .malformed

/-- The entry without its merge key leaves fewer entries. -/
theorem length_of_splitMerge (g : Graph) {es rest : List Entry} {source : NodeId}
    (h : g.splitMerge es = some (source, rest)) : rest.length + 1 = es.length := by
  induction es generalizing rest with
  | nil => simp [splitMerge] at h
  | cons e es ih =>
    unfold splitMerge at h
    split at h
    · simp at h
      simp [h.2]
    · obtain ⟨⟨s, r⟩, hr, he⟩ := Option.map_eq_some_iff.1 h
      simp at he
      rw [he.1] at hr
      simp [← he.2, ih hr]

/-! ## §2 Merging -/

/-- Puts entries before those of a mapping, whose keys `=` are texts from
now on. -/
def mergeInto (g : Graph) (n : NodeId) (merged : List Entry) : Graph :=
  let es := g.entries n
  let g := es.foldl (fun g e => if (g.node e.1).tag = .value then g.setTag e.1 .text else g) g
  if merged.isEmpty then g else g.setContent n (.mapping (merged ++ es))

/-- Takes the merge keys out of a mapping and gives the entries they bring.
The mappings that are merged lose their own merge keys first. `fuel` bounds
the merge keys that are left. -/
def takeMerged : (fuel : Nat) → NodeId → StateT Graph (Except Error) (List Entry)
  | 0, _ => return []
  | fuel + 1, n => do
    let g ← get
    match g.splitMerge (g.entries n) with
    | none => return []
    | some (source, rest) =>
      set (g.setContent n (.mapping rest))
      let parts ← (← g.sources source).mapM fun s => do
        let merged ← takeMerged fuel s
        modify (·.mergeInto s merged)
        return (← get).entries s
      return parts.reverse.flatten ++ (← takeMerged fuel n)

/-- The graph with the merge keys of a mapping carried out. -/
def merge (g : Graph) (n : NodeId) : Except Error Graph := do
  let (merged, g) ← (takeMerged (g.entryCount + 1) n).run g
  return g.mergeInto n merged

end Graph

end Amend.Yaml
