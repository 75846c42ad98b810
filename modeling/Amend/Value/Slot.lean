/-
Amend.Value.Slot — the order in which the numbers of a set are shown.

The members of a set stand in a row of slots and are shown from the first
slot to the last. A number has a residue modulo a prime, and goes to the slot
that its residue names, or if that is taken to a free one that is found from
there. Sets with members that are no numbers keep the order in which the
members came.

  §1 Residues.
  §2 Slots.
-/
import Amend.Value.Basic

namespace Amend.Value

/-! ## §1 Residues -/

/-- The modulus of residues. -/
def modulus : Nat := Nat.pow 2 61 - 1

/-- What is left of a magnitude, with a sign. Minus one stands for a failure
elsewhere, so minus two takes its place. -/
def signed (negative : Bool) (magnitude : Nat) : Int :=
  let r : Int := magnitude % modulus
  if !negative then r else if r = 1 then -2 else -r

/-- The residue of a number. Equal numbers have one residue, whatever their
kind: 61 doublings change nothing, so a power of two counts modulo 61. -/
def residue? (v : Value) : Option Int :=
  match number? v with
  | some (.inl i) => some (signed (i < 0) i.natAbs)
  | some (.inr (.finite negative m e)) => some (signed negative (m * Nat.pow 2 (e % 61).toNat))
  | some (.inr (.infinite negative)) => some (signed negative 314159)
  | some (.inr .nan) | none => none

/-! ## §2 Slots -/

/-- How many slots there are for some members: eight, or the least power of
two above twice their number. -/
def slotCount (members : Nat) : Nat :=
  if members ≤ 4 then 8 else Nat.pow 2 ((2 * members).log2 + 1)

/-- The first free slot on the way from one: the slot itself and the nine
after it, or the slot alone near the end of the row, and then on from a slot
that `rest` names, of which each step drops five bits. `fuel` bounds the
steps. -/
def freeSlot (row : Array (Option Value)) : (fuel : Nat) → (slot rest : Nat) → Nat
  | 0, slot, _ => slot
  | fuel + 1, slot, rest =>
    let near := if slot + 9 < row.size then 10 else 1
    match (List.range near).find? fun k => ((row[slot + k]?).join).isNone with
    | some k => slot + k
    | none =>
      let rest := rest / 32
      freeSlot row fuel ((5 * slot + 1 + rest) % row.size) rest

/-- The row with one more member. -/
def putInSlot (row : Array (Option Value)) (v : Value) (residue : Int) : Array (Option Value) :=
  let rest := (residue % (Nat.pow 2 64 : Nat)).toNat
  row.setIfInBounds (freeSlot row (row.size + 13) (rest % row.size) rest) (some v)

/-- The members of a set in the order in which they are shown. -/
def inSlots (members : List Value) : List Value :=
  match members.mapM fun v => (residue? v).map fun r => (v, r) with
  | none => members
  | some ms =>
    let row := ms.foldl (fun row m => putInSlot row m.1 m.2)
      (Array.replicate (slotCount ms.length) none)
    row.toList.filterMap fun m => m

end Amend.Value
