/-
Amend.Proofs.Hinting — which copy of a text a hint picks.

The lines around a hint are cut out and searched as one text. Said without
the cut, the search takes an occurrence that begins on one of these lines and
ends on one of them (`InWindow`), for the offset of a symbol and its line are
two ways to say where it is (`closedLength_le_iff`). The first such occurrence
is what is found near the hint (`foundNear_findNear`), so a copy further up
among these lines is taken before the one on the line of the hint.

  §1 Lines and offsets.
  §2 Occurrences in a part of a text.
  §3 Occurrences around a hint.
  §4 The copy taken.
-/
import Amend.Proofs.LineNumbers

namespace Amend

open Text

/-! ## §1 Lines and offsets -/

namespace Text

theorem one_le_lineAt (content : Text) (offset : Nat) : 1 ≤ lineAt content offset :=
  Nat.le_add_left 1 _

theorem lineAt_mono (content : Text) {p q : Nat} (h : p ≤ q) : lineAt content p ≤ lineAt content q := by
  rw [lineAt, lineAt, breaks, breaks]
  exact Nat.succ_le_succ ((List.take_sublist_take_left h).count_le lf)

theorem lineAt_le_length_lines (content : Text) (offset : Nat) :
    lineAt content offset ≤ (lines content).length := by
  rw [length_lines, lineAt, breaks, breaks]
  exact Nat.succ_le_succ ((List.take_sublist offset content).count_le lf)

theorem lineAt_cons (c : Symbol) (t : Text) (offset : Nat) :
    lineAt (c :: t) (offset + 1) = lineAt t offset + if c = lf then 1 else 0 := by
  simp only [lineAt, breaks, List.take_succ_cons, List.count_cons, beq_iff_eq]
  omega

/-- An offset is not before the end of the first `k` lines just if it is on a
later line. -/
theorem closedLength_le_iff {content : Text} {k offset : Nat} (h : offset ≤ content.length) :
    closedLength ((lines content).take k) ≤ offset ↔ k < lineAt content offset := by
  induction content generalizing k offset with
  | nil =>
    obtain rfl : offset = 0 := by simpa using h
    cases k <;> simp [lines, closedLength, lineAt, breaks]
  | cons c t ih =>
    cases k with
    | zero => simp [closedLength, lineAt]
    | succ k =>
      cases offset with
      | zero => cases hl : lines (c :: t) with
        | nil => exact absurd hl (lines_ne_nil _)
        | cons l ls => simp [closedLength, lineAt, breaks]
      | succ offset =>
        have hoffset : offset ≤ t.length := Nat.le_of_succ_le_succ h
        rw [lineAt_cons, lines]
        split
        · rw [List.take_succ_cons, closedLength, List.length_nil]
          have := ih (k := k) hoffset
          omega
        · split
          · rename_i l ls hl
            have := ih (k := k + 1) hoffset
            rw [hl] at this
            simp only [List.take_succ_cons, closedLength, List.length_cons] at this ⊢
            omega
          · rename_i hl
            exact absurd hl (lines_ne_nil t)

theorem closedLength_append (ls ms : List Text) :
    closedLength (ls ++ ms) = closedLength ls + closedLength ms := by
  rw [← length_closedLines, ← length_closedLines, ← length_closedLines, closedLines, closedLines,
    closedLines, List.flatMap_append, List.length_append]

/-- Closing the last of some lines adds a line feed to them. -/
theorem closedLength_eq {ls : List Text} (h : ls ≠ []) :
    closedLength ls = (unlines ls).length + 1 := by
  induction ls with
  | nil => exact absurd rfl h
  | cons l ls ih =>
    cases ls with
    | nil => simp [closedLength, unlines_singleton]
    | cons m ms =>
      rw [closedLength, ih (List.cons_ne_nil m ms), unlines_cons_cons, List.length_append,
        List.length_cons]
      omega

/-- The lines from `start` up to `stop` end one symbol, their last line feed,
before the lines up to `stop` do. -/
theorem closedLength_window (content : Text) {start stop : Nat} (hlt : start < stop)
    (hstart : start < (lines content).length) :
    closedLength ((lines content).take start) +
      (unlines (((lines content).take stop).drop start)).length + 1 =
        closedLength ((lines content).take stop) := by
  have hwindow : ((lines content).take stop).drop start ≠ [] := by
    rw [Ne, List.drop_eq_nil_iff, List.length_take]
    omega
  have hbefore : ((lines content).take stop).take start = (lines content).take start := by
    rw [List.take_take, Nat.min_eq_left (Nat.le_of_lt hlt)]
  rw [Nat.add_assoc, ← closedLength_eq hwindow, ← hbefore, ← closedLength_append,
    List.take_append_drop]

end Text

/-! ## §2 Occurrences in a part of a text -/

/-- What a text holds inside one of its parts, the part holds. -/
theorem Strategy.exact_finds_part_iff {search part : Text} {s : Span} (before after : Text) :
    exact.Finds search part s ↔ s.stop ≤ part.length ∧
      exact.Finds search (before ++ (part ++ after))
        ⟨before.length + s.start, before.length + s.stop⟩ := by
  refine ⟨fun h => ⟨h.lt_and_le.2, h.of_part before after⟩, fun ⟨hstop, hlt, hle, hslice⟩ => ?_⟩
  have hstart : s.start < s.stop := Nat.lt_of_add_lt_add_left hlt
  refine ⟨hstart, hstop, ?_⟩
  rw [← hslice, slice, slice, Span.length, Span.length, Nat.add_sub_add_left,
    List.drop_append, List.drop_eq_nil_of_le (Nat.le_add_right _ _), List.nil_append,
    Nat.add_sub_cancel_left, List.drop_append_of_le_length (by omega),
    List.take_append_of_le_length (by rw [List.length_drop]; omega)]

theorem find?_eq_none_iff {content search : Text} (hne : search ≠ []) :
    find? content search = none ↔ ∀ s, ¬ Strategy.exact.Finds search content s := by
  rw [find?, if_neg hne, Option.map_eq_none_iff, first?_eq_none_iff (literal_bounded search)]
  exact forall_congr' fun s => not_congr takes_literal_iff

/-! ## §3 Occurrences around a hint -/

/-- A span lies in the lines around a hint: it begins on the first of them or
after it, and ends on the last of them, before its line feed, or earlier. -/
def InWindow (content : Text) (hint window : Int) (s : Span) : Prop :=
  hint - window ≤ lineAt content s.start ∧ (lineAt content s.stop : Int) < hint + window

instance (content : Text) (hint window : Int) (s : Span) : Decidable (InWindow content hint window s) :=
  inferInstanceAs (Decidable (_ ∧ _))

section Window

variable {content search : Text} {hint window : Int} {s : Span}

theorem windowStart_lt_lineAt_iff (offset : Nat) :
    windowStart hint window < lineAt content offset ↔ hint - window ≤ lineAt content offset := by
  have hpos := one_le_lineAt content offset
  unfold windowStart
  omega

theorem windowStop_lt_lineAt_iff (offset : Nat) :
    windowStop (lines content).length hint window < lineAt content offset ↔
      hint + window ≤ lineAt content offset := by
  have hpos := one_le_lineAt content offset
  have hcount := lineAt_le_length_lines content offset
  unfold windowStop
  omega

/-- Where there is no line to search, no span lies in the lines around the
hint. -/
theorem InWindow.windowStart_lt (h : InWindow content hint window s) (hs : s.start ≤ s.stop) :
    windowStart hint window < windowStop (lines content).length hint window := by
  have hstart := (windowStart_lt_lineAt_iff s.start).mpr h.1
  have hstop := mt (windowStop_lt_lineAt_iff s.stop).mp (Int.not_le.mpr h.2)
  have hmono := lineAt_mono content hs
  omega

/-- The text that is searched near a hint is a part of the content, and the
spans inside this part are those that lie in the lines around the hint. -/
theorem exists_searched (search : Text)
    (hlt : windowStart hint window < windowStop (lines content).length hint window) :
    ∃ before part after, content = before ++ (part ++ after) ∧
      findNear content search hint window = (find? part search).map (before.length + ·) ∧
      ∀ s : Span, s.start ≤ s.stop → s.stop ≤ content.length →
        (InWindow content hint window s ↔
          before.length ≤ s.start ∧ s.stop ≤ before.length + part.length) := by
  have hstop : windowStop (lines content).length hint window ≤ (lines content).length := by
    rw [windowStop]
    omega
  have hstart := Nat.lt_of_lt_of_le hlt hstop
  obtain ⟨before, after, hcontent, hbefore⟩ := append_window content hlt hstart
  refine ⟨before, _, after, hcontent, by rw [hbefore, findNear, if_neg (by omega)], ?_⟩
  intro s hs hle
  rw [InWindow, ← windowStart_lt_lineAt_iff, ← closedLength_le_iff (Nat.le_trans hs hle),
    ← Int.not_le, ← windowStop_lt_lineAt_iff, ← closedLength_le_iff hle,
    ← closedLength_window content hlt hstart, hbefore]
  omega

/-- Near a hint the first occurrence is taken that lies in the lines there. -/
inductive FoundNear (content search : Text) (hint window : Int) : Option Nat → Prop
  | first {offset : Nat}
      (finds : Strategy.exact.Finds search content ⟨offset, offset + search.length⟩)
      (inside : InWindow content hint window ⟨offset, offset + search.length⟩)
      (first : ∀ s, Strategy.exact.Finds search content s → InWindow content hint window s →
        offset ≤ s.start) :
      FoundNear content search hint window (some offset)
  | nowhere (outside : ∀ s, Strategy.exact.Finds search content s →
        ¬ InWindow content hint window s) :
      FoundNear content search hint window none

theorem foundNear_findNear (hne : search ≠ []) :
    FoundNear content search hint window (findNear content search hint window) := by
  by_cases hlt : windowStart hint window < windowStop (lines content).length hint window
  · obtain ⟨before, part, after, hcontent, hfind, hinside⟩ := exists_searched search hlt
    -- an occurrence that lies in the lines is one of the part
    have hpart : ∀ s, Strategy.exact.Finds search content s → InWindow content hint window s →
        before.length ≤ s.start ∧
          Strategy.exact.Finds search part ⟨s.start - before.length, s.stop - before.length⟩ := by
      intro s hs hin
      obtain ⟨hspan, hle⟩ := hs.lt_and_le
      obtain ⟨hfrom, hto⟩ := (hinside s (Nat.le_of_lt hspan) hle).mp hin
      refine ⟨hfrom, (Strategy.exact_finds_part_iff before after).mpr ⟨by simp only; omega, ?_⟩⟩
      rw [← hcontent]
      simpa only [Nat.add_sub_cancel' hfrom,
        Nat.add_sub_cancel' (Nat.le_trans hfrom (Nat.le_of_lt hspan))] using hs
    rw [hfind]
    cases hfound : find? part search with
    | some near =>
      obtain ⟨hstop, hfinds⟩ := (Strategy.exact_finds_part_iff before after).mp
        (Strategy.exact_finds_of_find? hne hfound)
      rw [← hcontent, ← Nat.add_assoc] at hfinds
      obtain ⟨hspan, hle⟩ := hfinds.lt_and_le
      refine .first hfinds ((hinside _ (Nat.le_of_lt hspan) hle).mpr
        ⟨Nat.le_add_right _ _, ?_⟩) fun s hs hin => ?_
      · rw [Nat.add_assoc]
        exact Nat.add_le_add_left hstop _
      · obtain ⟨hfrom, hs⟩ := hpart s hs hin
        have hleast := (find?_eq_some hne hfound).2 _ (takes_literal_iff.mpr hs)
        exact (Nat.le_sub_iff_add_le' hfrom).mp hleast
    | none =>
      exact .nowhere fun s hs hin => (find?_eq_none_iff hne).mp hfound _ (hpart s hs hin).2
  · rw [findNear, if_pos (Nat.le_of_not_lt hlt)]
    exact .nowhere fun s hs hin => hlt (hin.windowStart_lt (Nat.le_of_lt hs.lt_and_le.1))

/-! ## §4 The copy taken -/

/-- A copy of the text stands on the line of the hint and lies in the lines
around it. Then the text is located near the hint, at the first of its copies
there, and a block with this hint is put in at no other place. It begins on
the line of the hint or before, and on that line just if no copy in the lines
around the hint begins on a line before. -/
theorem locate_takes_first_near_hint (hs : Strategy.exact.Finds search content s)
    (hline : (lineAt content s.start : Int) = hint) (hin : InWindow content hint window s) :
    ∃ first : Span,
      locate content search (some hint) window =
        some ⟨first, lineAt content first.start, .exact, true⟩ ∧
      (∀ bs, ∀ p ∈ placements content window bs, ∀ b, bs[p.index]? = some b →
        b.sought = search → b.hint = some hint → p.place.span = first) ∧
      Strategy.exact.Finds search content first ∧ InWindow content hint window first ∧
      (∀ t, Strategy.exact.Finds search content t → InWindow content hint window t →
        first.start ≤ t.start) ∧
      (lineAt content first.start : Int) ≤ hint ∧
      ((lineAt content first.start : Int) = hint ↔
        ∀ t, Strategy.exact.Finds search content t → InWindow content hint window t →
          hint ≤ lineAt content t.start) := by
  have hne : search ≠ [] := (Strategy.exact_finds_iff_append.mp hs).1
  have hpos : 0 < hint := by
    have := one_le_lineAt content s.start
    omega
  have hfound : FoundNear content search hint window (findNear content search hint window) :=
    foundNear_findNear hne
  generalize hnear : findNear content search hint window = found at hfound
  cases hfound with
  | nowhere outside => exact absurd hin (outside s hs)
  | @first offset finds inside first =>
    have hlocate : locate content search (some hint) window =
        some (Location.exact content search true offset) := by
      simp [locate, hne, hpos, hnear]
    have hle : (lineAt content offset : Int) ≤ hint := by
      rw [← hline]
      exact_mod_cast lineAt_mono content (first s hs hin)
    refine ⟨⟨offset, offset + search.length⟩, hlocate, ?_, finds, inside, first, hle, ?_⟩
    · intro bs p hp b hb hsought hhint
      obtain ⟨b', hb', hplace, -⟩ := (selection_placements content window bs).located p hp
      obtain rfl := Option.some.inj (hb.symm.trans hb')
      rw [Block.locate, hsought, hhint, hlocate, Option.some.injEq] at hplace
      rw [← hplace]
      rfl
    · refine ⟨fun heq t ht htin => ?_, fun hall => Int.le_antisymm hle (hall _ finds inside)⟩
      rw [← heq]
      exact_mod_cast lineAt_mono content (first t ht htin)

end Window

/-- The copy on the first line is taken for a hint that names the second, on
which the text stands as well. -/
theorem locate_takes_copy_above : lineAt "a\na" 2 = 2 ∧
    ∃ first, locate "a\na" "a" (some 2) 30 = some ⟨first, 1, .exact, true⟩ ∧
      Strategy.exact.Finds "a" "a\na" first := by
  have hs : Strategy.exact.Finds "a" "a\na" ⟨2, 3⟩ := ⟨by decide, by decide, rfl⟩
  have hin : InWindow "a\na" 2 30 ⟨2, 3⟩ := by decide
  obtain ⟨first, hlocate, -, hfinds, -, hfirst, -⟩ := locate_takes_first_near_hint hs rfl hin
  have hstart : first.start = 0 :=
    Nat.le_zero.mp (hfirst ⟨0, 1⟩ ⟨by decide, by decide, rfl⟩ (by decide))
  rw [hstart] at hlocate
  exact ⟨rfl, first, hlocate, hfinds⟩

/-- It is not so that a text which stands on the line of its hint, in the lines
around it, is located on that line. -/
theorem not_locate_on_hinted_line : ¬ ∀ (content search : Text) (hint : Int) (s : Span),
    search ≠ [] → 1 ≤ hint → Strategy.exact.Finds search content s →
      (lineAt content s.start : Int) = hint → InWindow content hint defaultWindow s →
        ∃ place, locate content search (some hint) defaultWindow = some place ∧
          (place.line : Int) = hint := by
  intro hall
  obtain ⟨place, hplace, hline⟩ := hall "a\na" "a" 2 ⟨2, 3⟩ (by decide) (by decide)
    ⟨by decide, by decide, rfl⟩ rfl (by decide)
  have hlocated : locate "a\na" "a" (some 2) defaultWindow = some ⟨⟨0, 1⟩, 1, .exact, true⟩ := by
    cbv
  obtain rfl := Option.some.inj (hplace.symm.trans hlocated)
  cases hline

end Amend
