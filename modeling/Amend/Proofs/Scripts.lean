/-
Amend.Proofs.Scripts — the regions of two sequences of lines, read as a
script of edits, lead from the first to the second.

A region is a list of edits: its lines are kept, or those of the first
sequence are removed and those of the second inserted. The edits of all
regions make the script, and those of the regions in the hunks are what a
difference shows. Cutting the script into hunks leaves out kept lines only.

  §1 Edits.
  §2 The script of two sequences.
  §3 What a difference shows.
-/
import Amend.Difference.Unified
import Amend.Proofs.Stretches

namespace Amend.Difference

/-! ## §1 Edits -/

/-- One step on the way from a sequence of lines to another. -/
inductive LineEdit where
  | keep (line : Text)
  | remove (line : Text)
  | insert (line : Text)
  deriving DecidableEq, Repr

namespace LineEdit

/-- The line of the first sequence the step is at. -/
def old? : LineEdit → Option Text
  | keep l | remove l => some l
  | insert _ => none

/-- The line of the second sequence the step is at. -/
def new? : LineEdit → Option Text
  | keep l | insert l => some l
  | remove _ => none

/-- The line that is removed. -/
def removed? : LineEdit → Option Text
  | remove l => some l
  | _ => none

/-- The line that is inserted. -/
def inserted? : LineEdit → Option Text
  | insert l => some l
  | _ => none

/-- Whether the step alters anything. -/
def changes : LineEdit → Bool
  | keep _ => false
  | _ => true

/-- The step as a line of a difference: the line after the mark of its
kind. -/
def line : LineEdit → Text
  | keep l => .char ' ' :: l
  | remove l => .char '-' :: l
  | insert l => .char '+' :: l

variable (ls : List Text) (es : List LineEdit)

@[simp] theorem filterMap_old?_map_keep : (ls.map keep).filterMap old? = ls := by
  rw [List.filterMap_map]
  exact List.filterMap_some

@[simp] theorem filterMap_old?_map_remove : (ls.map remove).filterMap old? = ls := by
  rw [List.filterMap_map]
  exact List.filterMap_some

@[simp] theorem filterMap_old?_map_insert : (ls.map insert).filterMap old? = [] := by
  simp [old?]

@[simp] theorem filterMap_new?_map_keep : (ls.map keep).filterMap new? = ls := by
  rw [List.filterMap_map]
  exact List.filterMap_some

@[simp] theorem filterMap_new?_map_remove : (ls.map remove).filterMap new? = [] := by
  simp [new?]

@[simp] theorem filterMap_new?_map_insert : (ls.map insert).filterMap new? = ls := by
  rw [List.filterMap_map]
  exact List.filterMap_some

@[simp] theorem filter_changes_map_keep : (ls.map keep).filter changes = [] := by
  simp [changes]

@[simp] theorem filter_changes_map_remove : (ls.map remove).filter changes = ls.map remove :=
  List.filter_eq_self.mpr (by simp [changes])

@[simp] theorem filter_changes_map_insert : (ls.map insert).filter changes = ls.map insert :=
  List.filter_eq_self.mpr (by simp [changes])

/-- Both sequences have the lines that are kept, and each those of its own. -/
theorem length_balance :
    (es.filterMap inserted?).length + (es.filterMap old?).length =
      (es.filterMap removed?).length + (es.filterMap new?).length := by
  induction es with
  | nil => rfl
  | cons e es ih =>
    cases e <;> simp [List.filterMap_cons, old?, new?, removed?, inserted?] <;> omega

theorem filterMap_removed?_filter_changes :
    (es.filter changes).filterMap removed? = es.filterMap removed? := by
  induction es with
  | nil => rfl
  | cons e es ih => cases e <;> simp [List.filter_cons, List.filterMap_cons, changes, removed?, ih]

theorem filterMap_inserted?_filter_changes :
    (es.filter changes).filterMap inserted? = es.filterMap inserted? := by
  induction es with
  | nil => rfl
  | cons e es ih => cases e <;> simp [List.filter_cons, List.filterMap_cons, changes, inserted?, ih]

/-- Without a change the two sequences are the same. -/
theorem filterMap_old?_eq_new? (h : es.filter changes = []) :
    es.filterMap old? = es.filterMap new? := by
  induction es with
  | nil => rfl
  | cons e es ih =>
    cases e with
    | keep l => simpa [old?, new?] using ih (by simpa [changes] using h)
    | remove l => simp [changes] at h
    | insert l => simp [changes] at h

end LineEdit

/-! ## §2 The script -/

/-- The lines of a range, the end left out. -/
def cut (ls : List Text) (start stop : Nat) : List Text := (ls.drop start).take (stop - start)

theorem cut_append_drop (ls : List Text) {a b : Nat} (h : a ≤ b) :
    cut ls a b ++ ls.drop b = ls.drop a := by
  have hdrop : ls.drop b = (ls.drop a).drop (b - a) := by
    rw [List.drop_drop, Nat.add_sub_cancel' h]
  rw [cut, hdrop, List.take_append_drop]

/-- The edits of a region. -/
def Region.edits (left right : List Text) (r : Region) : List LineEdit :=
  if r.same then (cut left r.leftFrom r.leftTo).map .keep
  else (cut left r.leftFrom r.leftTo).map .remove ++ (cut right r.rightFrom r.rightTo).map .insert

/-- The edits that lead from one sequence of lines to another. -/
def script (left right : List Text) : List LineEdit :=
  (regions left right).flatMap (Region.edits left right)

variable {left right : List Text}

/-- The lines of a common stretch are the same in both sequences. -/
theorem cut_eq_of_common {x : Stretch} (h : x.Common (Sequences.of left right)) :
    cut left x.left (x.left + x.length) = cut right x.right (x.right + x.length) := by
  rw [cut, cut, Nat.add_sub_cancel_left, Nat.add_sub_cancel_left]
  refine List.ext_getElem? fun t => ?_
  rw [List.getElem?_take, List.getElem?_take]
  split
  · rename_i ht
    obtain ⟨l, hl, hr⟩ := Sequences.agree_iff.mp (h t ht)
    simp only [Sequences.of, List.getElem?_toArray] at hl hr
    rw [List.getElem?_drop, List.getElem?_drop, hl, hr]
  · rfl

/-- The edits of the regions along a chain take up both sequences. -/
theorem edits_regionsFrom {i j : Nat} {xs : List Stretch}
    (h : Chain (Sequences.of left right) i j xs left.length right.length) :
    let es := (regionsFrom left.length right.length i j xs).flatMap (Region.edits left right)
    es.filterMap LineEdit.old? = left.drop i ∧ es.filterMap LineEdit.new? = right.drop j := by
  induction xs generalizing i j with
  | nil =>
    obtain ⟨hi, hj⟩ := h
    have hleft : cut left i left.length = left.drop i := by
      simpa using cut_append_drop left hi
    have hright : cut right j right.length = right.drop j := by
      simpa using cut_append_drop right hj
    rw [regionsFrom]
    split
    · simp only [List.flatMap_cons, List.flatMap_nil, List.append_nil, Region.edits,
        Bool.false_eq_true, if_false, List.filterMap_append, hleft, hright,
        LineEdit.filterMap_old?_map_remove, LineEdit.filterMap_old?_map_insert,
        LineEdit.filterMap_new?_map_remove, LineEdit.filterMap_new?_map_insert, List.nil_append, and_self]
    · rename_i hend
      rw [List.drop_of_length_le (by omega), List.drop_of_length_le (by omega)]
      simp
  | cons x xs ih =>
    obtain ⟨hi, hj, hx, hxs⟩ := h
    obtain ⟨hold, hnew⟩ := ih hxs
    have hsame := cut_eq_of_common hx
    -- The lines before the stretch, those of the stretch and those behind it.
    have hleft : cut left i x.left ++
        (cut left x.left (x.left + x.length) ++ left.drop (x.left + x.length)) = left.drop i := by
      rw [cut_append_drop left (Nat.le_add_right _ _), cut_append_drop left hi]
    have hright : cut right j x.right ++
        (cut left x.left (x.left + x.length) ++ right.drop (x.right + x.length)) = right.drop j := by
      rw [hsame, cut_append_drop right (Nat.le_add_right _ _), cut_append_drop right hj]
    have hbefore : ((if i < x.left ∨ j < x.right then
          [(⟨false, i, x.left, j, x.right⟩ : Region)] else []).flatMap (Region.edits left right)) =
        (cut left i x.left).map LineEdit.remove ++ (cut right j x.right).map LineEdit.insert := by
      split
      · simp [Region.edits]
      · rename_i hend
        have hl : x.left - i = 0 := by omega
        have hr : x.right - j = 0 := by omega
        simp [cut, hl, hr]
    simp only [regionsFrom, List.flatMap_append, List.flatMap_cons, hbefore, List.filterMap_append,
      LineEdit.filterMap_old?_map_remove, LineEdit.filterMap_old?_map_insert, LineEdit.filterMap_new?_map_remove,
      LineEdit.filterMap_new?_map_insert, hold, hnew]
    simp only [Region.edits, if_true, LineEdit.filterMap_old?_map_keep, LineEdit.filterMap_new?_map_keep,
      List.append_nil, List.nil_append]
    exact ⟨hleft, hright⟩

/-- The script of two sequences takes up the first and yields the second. -/
theorem script_spec (left right : List Text) :
    (script left right).filterMap LineEdit.old? = left ∧
      (script left right).filterMap LineEdit.new? = right :=
  edits_regionsFrom (chain_stretches left right)

/-! ## §3 What a difference shows -/

/-- The edits of the regions in the hunks. -/
def shown (left right : List Text) : List LineEdit :=
  (hunks left right).flatten.flatMap (Region.edits left right)

/-- The regions that are replaced. -/
def changed (rs : List Region) : List Region := rs.filter fun r => !r.same

theorem changed_append (rs rs' : List Region) : changed (rs ++ rs') = changed rs ++ changed rs' :=
  List.filter_append ..

theorem changed_cons_of_same {r : Region} (h : r.same = true) (rs : List Region) :
    changed (r :: rs) = changed rs := by
  simp [changed, h]

/-- Hunks hold every region that is replaced. -/
theorem changed_hunksFrom (acc rs : List Region) :
    changed (hunksFrom acc rs).flatten = changed (acc ++ rs) := by
  induction rs generalizing acc with
  | nil =>
    rw [hunksFrom, List.append_nil]
    split
    · simp
    · rename_i hnone
      have hsame : ∀ r ∈ acc, r.same = true := by simpa using hnone
      exact (List.filter_eq_nil_iff.mpr fun r hr => by simp [hsame r hr]).symm
  | cons r rs ih =>
    rw [hunksFrom]
    split
    · rename_i hlong
      have hsame : r.same = true := by simp only [Bool.and_eq_true] at hlong; exact hlong.1
      rw [List.flatten_cons, changed_append, ih, changed_append acc, List.singleton_append,
        changed_append, changed_cons_of_same hsame, changed_cons_of_same (r := r.back _) hsame,
        changed_cons_of_same (r := r.front _) hsame]
      simp [changed]
    · rw [ih, List.append_assoc, List.singleton_append]

theorem changed_trimLast (rs : List Region) :
    changed (match rs.getLast? with
      | some r => if r.same then rs.dropLast ++ [r.front contextLines] else rs
      | none => rs) = changed rs := by
  cases hlast : rs.getLast? with
  | none => rfl
  | some r =>
    dsimp only
    split
    · rename_i hsame
      obtain ⟨init, rfl⟩ := List.getLast?_eq_some_iff.mp hlast
      rw [List.dropLast_concat, changed_append, changed_append,
        changed_cons_of_same (r := r.front _) hsame, changed_cons_of_same hsame]
    · rfl

theorem changed_trimEnds (rs : List Region) : changed (trimEnds rs) = changed rs := by
  cases rs with
  | nil => rfl
  | cons r rest =>
    refine (changed_trimLast ((if r.same then r.back contextLines else r) :: rest)).trans ?_
    split
    · rename_i hsame
      rw [changed_cons_of_same (r := r.back _) hsame, changed_cons_of_same hsame]
    · rfl

theorem filter_changes_edits (left right : List Text) (rs : List Region) :
    (rs.flatMap (Region.edits left right)).filter LineEdit.changes =
      (changed rs).flatMap (Region.edits left right) := by
  induction rs with
  | nil => rfl
  | cons r rs ih =>
    rw [List.flatMap_cons, List.filter_append, ih]
    cases hsame : r.same with
    | true =>
      rw [changed_cons_of_same hsame]
      simp only [Region.edits, hsame, if_true, LineEdit.filter_changes_map_keep, List.nil_append]
    | false =>
      have hchanged : changed (r :: rs) = r :: changed rs := by simp [changed, hsame]
      rw [hchanged, List.flatMap_cons]
      simp only [Region.edits, hsame, Bool.false_eq_true, if_false, List.filter_append,
        LineEdit.filter_changes_map_remove, LineEdit.filter_changes_map_insert]

/-- A difference shows every change of the script, and no other. -/
theorem filter_changes_shown (left right : List Text) :
    (shown left right).filter LineEdit.changes = (script left right).filter LineEdit.changes := by
  rw [shown, script, filter_changes_edits, filter_changes_edits, hunks, changed_hunksFrom,
    List.nil_append, changed_trimEnds]

end Amend.Difference
