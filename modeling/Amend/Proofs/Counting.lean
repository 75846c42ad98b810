/-
Amend.Proofs.Counting — how many added and removed lines a change is said to
have.

The counts are read off the written difference by how its lines start, so
what a text adds to them is counted part by part: a line feed separates the
parts, and a boundary at the end of one adds no line with a mark
(`linesOf_unlines`). Behind its mark a line of either text is one line of the
difference, and of the kind of its edit unless it starts with the mark twice
more (`linesOf_line`); the rest of a path that holds a boundary is counted as
lines of the difference, in both names (`linesOf_name`). Together with the
script the difference is cut from, this says what the counts are for every
two texts (`lineCounts_modified`).

  §1 Lines of a kind.
  §2 Parts of a difference.
  §3 The counts of a change.
-/
import Mathlib.Algebra.Ring.Nat
import Amend.Review.Change
import Amend.Proofs.Boundaries
import Amend.Proofs.Scripts
import Amend.Proofs.Writing

namespace Amend.Change

open Text Difference

/-! ## §1 Lines of a kind -/

/-- How many lines of a text are of a kind. -/
def linesOf (k : LineKind) (t : Text) : Nat := ((bareLines t).map lineKind).count k

variable {k : LineKind}

theorem linesOf_concat (hk : k ≠ .plain) {e : Symbol} (he : isBoundary e = true) (t : Text) :
    linesOf k (t ++ [e]) = linesOf k t := by
  have hempty : lineKind [] = .plain := rfl
  unfold linesOf
  obtain heq | heq := bareLines_concat he t
  · rw [heq]
  · rw [heq, List.map_append, List.count_append, List.map_singleton, hempty,
      List.count_singleton, if_neg (by simpa using hk.symm), Nat.add_zero]

theorem linesOf_append_lf (hk : k ≠ .plain) (a b : Text) :
    linesOf k (a ++ lf :: b) = linesOf k a + linesOf k b := by
  rw [← linesOf_concat hk (e := lf) rfl a]
  unfold linesOf
  rw [bareLines_append_lf, List.map_append, List.count_append]

theorem linesOf_unlines (hk : k ≠ .plain) (ts : List Text) :
    linesOf k (unlines ts) = (ts.map (linesOf k)).sum := by
  induction ts with
  | nil => rfl
  | cons t ts ih =>
    cases ts with
    | nil => rw [unlines_singleton]; rfl
    | cons u us => rw [unlines_cons_cons, linesOf_append_lf hk, ih]; rfl

theorem linesOf_bare (hk : k ≠ .plain) (t : Text) : linesOf k (bare t) = linesOf k t := by
  -- What is stripped goes one symbol at a time, the last first.
  have hstrip : ∀ r : Text,
      linesOf k (r.dropWhile fun s => s = lf || s = cr).reverse = linesOf k r.reverse := by
    intro r
    induction r with
    | nil => rfl
    | cons e r ih =>
      rw [List.dropWhile_cons]
      split
      · rename_i hend
        have he : isBoundary e = true := by
          obtain rfl | rfl : e = lf ∨ e = cr := by simpa using hend
          · rfl
          · rfl
        rw [ih, List.reverse_cons, linesOf_concat hk he]
      · rfl
  rw [bare, hstrip, List.reverse_reverse]

/-! ## §2 Parts of a difference -/

/-- Whether a line begins with a mark twice, so that behind the mark it reads
as a header. -/
def readsAsHeader (mark : Char) (l : Text) : Bool := [.char mark, .char mark].isPrefixOf l

/-- What the line of an edit counts as. -/
def editKind : LineEdit → LineKind
  | .keep _ => .plain
  | .remove l => if readsAsHeader '-' l then .header else .removed
  | .insert l => if readsAsHeader '+' l then .header else .added

/-- The line an edit is about. -/
def editText : LineEdit → Text
  | .keep l | .remove l | .insert l => l

theorem lineKind_insert (l : Text) :
    lineKind (.char '+' :: l) = if readsAsHeader '+' l then .header else .added := by
  simp [lineKind, Text.ofString, List.isPrefixOf_cons_cons, readsAsHeader]

theorem lineKind_remove (l : Text) :
    lineKind (.char '-' :: l) = if readsAsHeader '-' l then .header else .removed := by
  simp [lineKind, Text.ofString, List.isPrefixOf_cons_cons, readsAsHeader]

theorem lineKind_keep (l : Text) : lineKind (.char ' ' :: l) = .plain := by
  simp [lineKind, Text.ofString, List.isPrefixOf_cons_cons]

theorem readsAsHeader_chomp {mark : Char} (h : isBoundary (.char mark) = false) (l : Text) :
    readsAsHeader mark (chomp l) = readsAsHeader mark l :=
  isPrefixOf_chomp (by simpa using h) l

/-- The line of an edit is one line, of the kind of the edit. -/
theorem linesOf_line {e : LineEdit} {t : Text} (h : editText e ∈ splitLines t) :
    linesOf k e.line = if editKind e = k then 1 else 0 := by
  have hmarked {c : Symbol} {l : Text} (hc : isBoundary c = false) (hl : l ∈ splitLines t) :
      linesOf k (c :: l) = if lineKind (c :: chomp l) = k then 1 else 0 := by
    rw [linesOf, bareLines_inner hc, bareLines_of_mem hl, consFirst, List.map_singleton,
      List.count_singleton]
    simp only [beq_iff_eq]
  cases e with
  | keep l =>
    refine (hmarked rfl h).trans ?_
    rw [lineKind_keep, editKind]
  | remove l =>
    refine (hmarked rfl h).trans ?_
    rw [lineKind_remove, editText, readsAsHeader_chomp rfl, editKind]
  | insert l =>
    refine (hmarked rfl h).trans ?_
    rw [lineKind_insert, editText, readsAsHeader_chomp rfl, editKind]

theorem sum_linesOf_line {es : List LineEdit} (h : ∀ e ∈ es, ∃ t, editText e ∈ splitLines t) :
    (es.map fun e => linesOf k e.line).sum = (es.map editKind).count k := by
  induction es with
  | nil => rfl
  | cons e es ih =>
    obtain ⟨t, ht⟩ := h e List.mem_cons_self
    rw [List.map_cons, List.sum_cons, ih fun e he => h e (List.mem_cons_of_mem _ he),
      linesOf_line ht, List.map_cons, List.count_cons, Nat.add_comm]
    simp only [beq_iff_eq]

/-- If the edits of a kind are those of one sort whose line does not read as a
header, the kind is counted among the lines of the sort. -/
theorem count_editKind {line? : LineEdit → Option Text} {mark : Char}
    (h : ∀ e, editKind e = k ↔ ∃ l, line? e = some l ∧ readsAsHeader mark l = false)
    (es : List LineEdit) :
    (es.map editKind).count k = (es.filterMap line?).countP fun l => !readsAsHeader mark l := by
  rw [List.count_eq_countP, List.countP_map, List.countP_filterMap]
  refine List.countP_congr fun e _ => ?_
  rw [Function.comp_apply, beq_iff_eq, h e]
  cases line? e <;> simp

theorem count_added (es : List LineEdit) : (es.map editKind).count .added =
    (es.filterMap LineEdit.inserted?).countP fun l => !readsAsHeader '+' l := by
  refine count_editKind (fun e => ?_) es
  cases e with
  | keep l => simp [editKind, LineEdit.inserted?]
  | remove l => cases h : readsAsHeader '-' l <;> simp [editKind, LineEdit.inserted?, h]
  | insert l => cases h : readsAsHeader '+' l <;> simp [editKind, LineEdit.inserted?, h]

theorem count_removed (es : List LineEdit) : (es.map editKind).count .removed =
    (es.filterMap LineEdit.removed?).countP fun l => !readsAsHeader '-' l := by
  refine count_editKind (fun e => ?_) es
  cases e with
  | keep l => simp [editKind, LineEdit.removed?]
  | remove l => cases h : readsAsHeader '-' l <;> simp [editKind, LineEdit.removed?, h]
  | insert l => cases h : readsAsHeader '+' l <;> simp [editKind, LineEdit.removed?, h]

/-- A text in one line is of one kind. -/
theorem linesOf_oneLine {t : Text} (h : ∀ c ∈ t, isBoundary c = false) (hne : t ≠ []) :
    linesOf k t = if lineKind t = k then 1 else 0 := by
  have hlines := bareLines_append h hne []
  simp only [List.append_nil, bareLines_nil, List.headD_nil, List.tail_nil] at hlines
  rw [linesOf, hlines, List.map_singleton, List.count_singleton]
  simp only [beq_iff_eq]

theorem isBoundary_of_digit {n : Nat} {c : Symbol} (h : c ∈ Text.ofNat n) :
    isBoundary c = false := by
  rw [ofNat_eq_map] at h
  obtain ⟨d, hd, rfl⟩ := List.mem_map.mp h
  have hdigit := Nat.isDigit_of_mem_toDigits (by decide) (by decide) hd
  obtain ⟨hlow, hhigh⟩ := Char.isDigit_iff_toNat.mp hdigit
  have hzero : '0'.toNat = 0x30 := rfl
  have hnine : '9'.toNat = 0x39 := rfl
  simp only [isBoundary, Bool.or_eq_false_iff, Bool.and_eq_false_iff, decide_eq_false_iff_not,
    beq_eq_false_iff_ne]
  omega

theorem isBoundary_of_mem_rangeText {start stop : Nat} {c : Symbol}
    (h : c ∈ rangeText start stop) : isBoundary c = false := by
  unfold rangeText at h
  extract_lets length at h
  split at h
  · exact isBoundary_of_digit h
  · simp only [List.mem_append] at h
    obtain (h | h) | h := h
    · exact isBoundary_of_digit h
    · obtain rfl : c = .char ',' := by simpa [Text.ofString] using h
      rfl
    · exact isBoundary_of_digit h

/-- A head line is one line, and has no mark. -/
theorem linesOf_head (hk : k ≠ .hunk) (a b c d : Nat) :
    linesOf k (("@@ -" : Text) ++ rangeText a b ++ " +" ++ rangeText c d ++ " @@") = 0 := by
  have hplain : ∀ s : Text, s = "@@ -" ∨ s = " +" ∨ s = " @@" → ∀ x ∈ s, isBoundary x = false := by
    rintro s (rfl | rfl | rfl) <;> decide
  rw [linesOf_oneLine, if_neg]
  · have hhunk : lineKind (("@@ -" : Text) ++ rangeText a b ++ " +" ++ rangeText c d ++ " @@") =
        .hunk := by
      simp [lineKind, Text.ofString, List.isPrefixOf_cons_cons]
    rw [hhunk]
    exact hk.symm
  · intro x hx
    simp only [List.mem_append] at hx
    obtain (((hx | hx) | hx) | hx) | hx := hx
    · exact hplain _ (.inl rfl) x hx
    · exact isBoundary_of_mem_rangeText hx
    · exact hplain _ (.inr (.inl rfl)) x hx
    · exact isBoundary_of_mem_rangeText hx
    · exact hplain _ (.inr (.inr rfl)) x hx
  · simp [Text.ofString]

/-- Of a name under the mark of a header, the lines of the path behind its
first count. -/
theorem linesOf_name (hk : k ≠ .header) {mark : Text} (hplain : ∀ c ∈ mark, isBoundary c = false)
    (hkind : ∀ l, lineKind (mark ++ l) = .header) (path : Text) :
    linesOf k (mark ++ path) = ((bareLines path).tail.map lineKind).count k := by
  have hne : mark ≠ [] := by rintro rfl; cases hkind []
  rw [linesOf, bareLines_append hplain hne, List.map_cons, hkind,
    List.count_cons_of_ne hk.symm]

/-! ## §3 The counts of a change -/

variable {left right : List Text}

theorem regionLines_eq (left right : List Text) (r : Region) :
    regionLines left.toArray right.toArray r = (r.edits left right).map LineEdit.line := by
  have hcut (ls : List Text) (a b : Nat) : (ls.toArray.extract a b).toList = cut ls a b := by
    simp [cut]
  unfold regionLines Region.edits
  simp only [hcut]
  split <;> simp [Function.comp_def, LineEdit.line]

theorem editText_of_mem_shown {e : LineEdit} (h : e ∈ shown left right) :
    editText e ∈ left ∨ editText e ∈ right := by
  have hcut {ls : List Text} {a b : Nat} {l : Text} (hl : l ∈ cut ls a b) : l ∈ ls :=
    List.mem_of_mem_drop (List.mem_of_mem_take hl)
  obtain ⟨r, -, he⟩ := List.mem_flatMap.mp h
  unfold Region.edits at he
  split at he
  · obtain ⟨l, hl, rfl⟩ := List.mem_map.mp he
    exact .inl (hcut hl)
  · obtain he | he := List.mem_append.mp he
    · obtain ⟨l, hl, rfl⟩ := List.mem_map.mp he
      exact .inl (hcut hl)
    · obtain ⟨l, hl, rfl⟩ := List.mem_map.mp he
      exact .inr (hcut hl)

theorem sum_linesOf_hunkLines (hk : k ≠ .hunk) (hs : List (List Region)) :
    ((hs.flatMap (hunkLines left.toArray right.toArray)).map (linesOf k)).sum =
      ((hs.flatten.flatMap (Region.edits left right)).map fun e => linesOf k e.line).sum := by
  have hregions (h : List Region) :
      ((h.flatMap (regionLines left.toArray right.toArray)).map (linesOf k)) =
        (h.flatMap (Region.edits left right)).map fun e => linesOf k e.line := by
    induction h with
    | nil => rfl
    | cons r h ih =>
      rw [List.flatMap_cons, List.map_append, ih, regionLines_eq, List.map_map, List.flatMap_cons,
        List.map_append]
      rfl
  have hhunk (h : List Region) : ((hunkLines left.toArray right.toArray h).map (linesOf k)).sum =
      ((h.flatMap (Region.edits left right)).map fun e => linesOf k e.line).sum := by
    unfold hunkLines
    split
    · rw [List.map_cons, List.sum_cons, linesOf_head hk, Nat.zero_add, hregions]
    · rename_i hnone
      cases h with
      | nil => rfl
      | cons r h => exact (hnone r _ rfl (List.getLast?_eq_some_getLast (List.cons_ne_nil r h))).elim
  induction hs with
  | nil => rfl
  | cons h hs ih =>
    rw [List.flatMap_cons, List.map_append, List.sum_append, ih, hhunk, List.flatten_cons,
      List.flatMap_append, List.map_append, List.sum_append]

/-- Two sequences of lines without a hunk are the same. -/
theorem eq_of_hunks_eq_nil (h : hunks left right = []) : left = right := by
  obtain ⟨hleft, hright⟩ := script_spec left right
  have hnone : (script left right).filter LineEdit.changes = [] := by
    rw [← filter_changes_shown, shown, h]
    rfl
  rw [← hleft, LineEdit.filterMap_old?_eq_new? _ hnone, hright]

/-- The lines of a kind in the difference of two texts: those of the edits
shown, and the lines of the path behind its first, once for each name. -/
theorem linesOf_unified (hk : k = .added ∨ k = .removed) (path : Text) {old new : Text}
    (hne : old ≠ new) :
    linesOf k (Difference.unified ("a/" ++ path) ("b/" ++ path) old new) =
      ((shown (splitLines old) (splitLines new)).map editKind).count k +
        2 * ((bareLines path).tail.map lineKind).count k := by
  have hplain : k ≠ .plain := by rintro rfl; simp at hk
  have hheader : k ≠ .header := by rintro rfl; simp at hk
  have hhunk : k ≠ .hunk := by rintro rfl; simp at hk
  have hhunks : hunks (splitLines old) (splitLines new) ≠ [] := fun h =>
    hne (by rw [← flatten_splitLines old, eq_of_hunks_eq_nil h, flatten_splitLines])
  have hold : linesOf k (("--- " : Text) ++ (("a/" : Text) ++ path)) =
      ((bareLines path).tail.map lineKind).count k := by
    rw [← List.append_assoc]
    exact linesOf_name hheader (by decide)
      (fun l => by simp [lineKind, Text.ofString, List.isPrefixOf_cons_cons]) path
  have hnew : linesOf k (("+++ " : Text) ++ (("b/" : Text) ++ path)) =
      ((bareLines path).tail.map lineKind).count k := by
    rw [← List.append_assoc]
    exact linesOf_name hheader (by decide)
      (fun l => by simp [lineKind, Text.ofString, List.isPrefixOf_cons_cons]) path
  have hmem : ∀ e ∈ shown (splitLines old) (splitLines new), ∃ t, editText e ∈ splitLines t :=
    fun e he => (editText_of_mem_shown he).elim (⟨old, ·⟩) (⟨new, ·⟩)
  have hbare : (linesOf k) ∘ bare = linesOf k := funext fun t => linesOf_bare hplain t
  rw [Difference.unified, linesOf_unlines hplain, List.map_map, hbare, ← sum_linesOf_line hmem, shown,
    ← sum_linesOf_hunkLines hhunk]
  unfold unifiedLines
  cases hhs : hunks (splitLines old) (splitLines new) with
  | nil => exact absurd hhs hhunks
  | cons h hs =>
    simp only [List.map_cons, List.sum_cons, hold, hnew]
    omega

/-- For every two texts of a file, the difference shows the changes of a
script that takes up all lines of the one and yields all lines of the other.
The counts of the change are the lines inserted and the lines removed that do
not begin with the mark twice, as those read as headers, and twice the lines
with such a mark that follow the first line of the path. -/
theorem lineCounts_modified (path old new : Text) :
    let left := splitLines old
    let right := splitLines new
    let come := (shown left right).filterMap LineEdit.inserted?
    let gone := (shown left right).filterMap LineEdit.removed?
    let stray (k : LineKind) : Nat := 2 * ((bareLines path).tail.map lineKind).count k
    (script left right).filterMap LineEdit.old? = left ∧
      (script left right).filterMap LineEdit.new? = right ∧
      (shown left right).filter LineEdit.changes = (script left right).filter LineEdit.changes ∧
      come.length + left.length = gone.length + right.length ∧
      lineCounts ⟨path, some old, new⟩ =
        if old = new then (0, 0)
        else ((come.countP fun l => !readsAsHeader '+' l) + stray .added,
          (gone.countP fun l => !readsAsHeader '-' l) + stray .removed) := by
  intro left right come gone stray
  obtain ⟨hleft, hright⟩ := script_spec left right
  have hshown := filter_changes_shown left right
  have hcome : (script left right).filterMap LineEdit.inserted? = come := by
    rw [← LineEdit.filterMap_inserted?_filter_changes, ← hshown,
      LineEdit.filterMap_inserted?_filter_changes]
  have hgone : (script left right).filterMap LineEdit.removed? = gone := by
    rw [← LineEdit.filterMap_removed?_filter_changes, ← hshown, LineEdit.filterMap_removed?_filter_changes]
  have hbalance := LineEdit.length_balance (script left right)
  rw [hcome, hgone, hleft, hright] at hbalance
  refine ⟨hleft, hright, hshown, hbalance, ?_⟩
  have hdifference : difference ⟨path, some old, new⟩ =
      if old = new then [] else Difference.unified ("a/" ++ path) ("b/" ++ path) old new := rfl
  change (linesOf .added _, linesOf .removed _) = _
  rw [hdifference]
  split
  · rfl
  · rename_i hne
    rw [linesOf_unified (.inl rfl) path hne, linesOf_unified (.inr rfl) path hne, count_added,
      count_removed]

/-- A deleted line that begins with two dashes is not counted. -/
theorem deleted_dashes_not_counted :
    let c : Change := ⟨"p", some "-- a\n", "b\n"⟩
    let left := splitLines "-- a\n"
    let right := splitLines "b\n"
    shown left right = [.remove "-- a\n", .insert "b\n"] ∧
      lines c.difference = ["--- a/p", "+++ b/p", "@@ -1 +1 @@", "--- a", "+b"] ∧
      c.lineCounts = (1, 0) ∧
      (c.lineCounts.1 : Int) - c.lineCounts.2 ≠ right.length - left.length := by
  decide +kernel

/-- The rest of a path is counted as lines of the difference. -/
example : lineCounts ⟨"x\n+y", some "a\n", "b\n"⟩ = (3, 1) := by decide +kernel

end Amend.Change
