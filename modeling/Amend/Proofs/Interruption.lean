/-
Amend.Proofs.Interruption — blocks that another SEARCH line interrupts.

A block is complete once its separator has appeared and after it a REPLACE
line. Reading looks for these two and for nothing else, so a SEARCH line
before them is text to find or to put there like any other, and the marker
a block misses is taken from a later one. This happens in a request exactly
if some block it is read as holds a SEARCH line (`readBlocks_interrupted`).
Only where no later line supplies the missing marker the request is refused.

  §1 Marker lines.
  §2 The lines of a text.
  §3 Interruptions.
  §4 Requests.
-/
import Amend.Proofs.Grammar

namespace Amend

open Text

/-! ## §1 Marker lines -/

namespace Marker

variable {m n : Marker} {line : Text}

/-- A line is a marker of one kind at most. -/
theorem on_unique (hm : m.on line = true) (hn : n.on line = true) : m = n := by
  have htext : m.text = n.text := (eq_of_beq hm).symm.trans (eq_of_beq hn)
  cases m <;> cases n <;> first | rfl | exact absurd htext (by decide)

theorem on_eq_false (hm : m.on line = true) (hne : n ≠ m) : n.on line = false :=
  Bool.eq_false_iff.mpr fun hn => hne (on_unique hn hm)

/-- A hint line is no marker: no marker begins with a colon. -/
theorem on_eq_false_of_isHint (h : isHint line = true) : m.on line = false := by
  refine Bool.eq_false_iff.mpr fun hm => ?_
  have htext : Text.trim line = m.text := eq_of_beq hm
  have hlabel : hintLabel.isPrefixOf m.text = false := by cases m <;> decide
  simp [isHint, hintDigits?, htext, hlabel] at h

theorem on_nil (m : Marker) : m.on [] = false := by
  cases m <;> decide

end Marker

/-! ## §2 The lines of a text -/

namespace Text

theorem lines_eq_splitOn (t : Text) : lines t = t.splitOn lf := by
  induction t with
  | nil => rfl
  | cons c t ih =>
    have hcons : (c :: t).splitOn lf =
        if c = lf then [] :: t.splitOn lf else (t.splitOn lf).modifyHead (c :: ·) := by
      simp [List.splitOn, List.splitOnP_cons_eq_if_modifyHead]
    rw [lines, hcons, ← ih]
    split
    · rfl
    · split
      · rename_i hl
        rw [hl]
        rfl
      · rename_i hl
        exact absurd hl (lines_ne_nil t)

/-- Lines without line feeds are read back as they were joined. -/
theorem lines_unlines_of_notMem {ls : List Text} (hne : ls ≠ []) (hls : ∀ l ∈ ls, lf ∉ l) :
    lines (unlines ls) = ls := by
  rw [lines_eq_splitOn, unlines, join, List.splitOn_intercalate lf hls hne]

theorem lf_notMem_of_mem_lines {t l : Text} (hl : l ∈ lines t) : lf ∉ l := by
  induction t generalizing l with
  | nil => simp_all [lines]
  | cons c t ih =>
    rw [lines] at hl
    split at hl
    · obtain rfl | hl := List.mem_cons.mp hl
      · exact List.not_mem_nil
      · exact ih hl
    · rename_i hc
      split at hl
      · rename_i k ks hk
        rw [hk] at ih
        obtain rfl | hl := List.mem_cons.mp hl
        · have hrest := ih List.mem_cons_self
          simp [Ne.symm hc, hrest]
        · exact ih (List.mem_cons_of_mem k hl)
      · rename_i hnil
        exact absurd hnil (lines_ne_nil t)

/-- Joining lines and cutting the text again shows the same markers. -/
theorem exists_on_unlines_iff {ls : List Text} (hls : ∀ l ∈ ls, lf ∉ l) (m : Marker) :
    (∃ l ∈ lines (unlines ls), m.on l = true) ↔ ∃ l ∈ ls, m.on l = true := by
  cases ls with
  | nil => simp [lines, unlines, join, m.on_nil]
  | cons l ls => rw [lines_unlines_of_notMem (List.cons_ne_nil l ls) hls]

end Text

/-! ## §3 Interruptions -/

/-- A separator and, after it, a REPLACE line appear in the lines. -/
def Completes (ls : List Text) : Prop :=
  ∃ a separator b closing c, ls = a ++ separator :: (b ++ closing :: c) ∧
    Marker.separator.on separator = true ∧ Marker.replace.on closing = true

/-- After a SEARCH line another one comes before the block is complete. -/
def Interrupted (ls : List Text) : Prop :=
  ∃ a opening b next c, ls = a ++ opening :: (b ++ next :: c) ∧
    Marker.search.on opening = true ∧ Marker.search.on next = true ∧ ¬ Completes b

/-- A SEARCH line is among the text to find or the text to put there. -/
def Block.HoldsOpening (b : Block) : Prop :=
  (∃ l ∈ lines b.search, Marker.search.on l = true) ∨
    ∃ l ∈ lines b.replacement, Marker.search.on l = true

/-- Lines without a separator do not complete a block, nor do lines that
have no REPLACE line after their first separator. -/
theorem not_completes_append {u v : List Text} (hu : ∀ l ∈ u, Marker.separator.on l = false)
    (hv : ∀ l ∈ v.tail, Marker.replace.on l = false) : ¬ Completes (u ++ v) := by
  intro h
  obtain ⟨a, separator, b, closing, c, heq, hseparator, hclosing⟩ := h
  have hnone : closing ∉ v.tail := by
    intro hmem
    have hplain := hv closing hmem
    simp [hclosing] at hplain
  obtain ⟨d, -, rfl⟩ | ⟨d, rfl, hd⟩ := List.append_eq_append_iff.mp heq
  · cases d with
    | nil => simp at hnone
    | cons k d => simp at hnone
  · cases d with
    | nil =>
      have hv : v = separator :: (b ++ closing :: c) := hd.symm
      simp [hv] at hnone
    | cons k d =>
      obtain ⟨rfl, -⟩ := List.cons.inj hd
      have hplain := hu separator (by simp)
      simp [hseparator] at hplain

theorem headed_append (hint divider : Option Text) (body rest : List Text) :
    headed hint divider (body ++ rest) = headed hint divider body ++ rest := by
  simp [headed]

/-- Lines with a separator and a REPLACE line after it complete a block,
whatever comes before and after. -/
theorem completes_headed {hint divider : Option Text} {search replacement after : List Text}
    {separator closing : Text} (hseparator : Marker.separator.on separator = true)
    (hclosing : Marker.replace.on closing = true) :
    Completes (headed hint divider (search ++ separator :: (replacement ++ closing :: after))) :=
  ⟨headed hint divider search, separator, replacement, closing, after, headed_append ..,
    hseparator, hclosing⟩

namespace Passage

variable (p : Passage) {b c : List Text} {next : Text}

theorem completes (after : List Text) : Completes (p.linesThen after) :=
  completes_headed p.separator_on p.closing_on

theorem linesThen_append (after : List Text) : p.linesThen [] ++ after = p.linesThen after :=
  (List.cons.inj (p.lines_append after)).2

/-- A line before which a block is not complete is one of the block. -/
theorem mem_of_not_completes {after : List Text} (h : p.linesThen after = b ++ next :: c)
    (hb : ¬ Completes b) : next ∈ p.linesThen [] := by
  rw [← p.linesThen_append] at h
  obtain ⟨d, rfl, -⟩ | ⟨d, hd, hrest⟩ := List.append_eq_append_iff.mp h
  · rw [p.linesThen_append] at hb
    exact absurd (p.completes d) hb
  · cases d with
    | nil =>
      rw [List.append_nil] at hd
      rw [← hd] at hb
      exact absurd (p.completes []) hb
    | cons k d =>
      obtain ⟨rfl, -⟩ := List.cons.inj hrest
      rw [hd]
      exact List.mem_append_right b List.mem_cons_self

/-- Nothing before the separator is one. -/
theorem separator_first : ∀ l ∈ headed p.hint p.divider p.search,
    Marker.separator.on l = false := by
  intro l hl
  obtain hl | hl | hl := by simpa only [headed, List.mem_append, Option.mem_toList] using hl
  · exact Marker.on_eq_false_of_isHint (p.heading.hint_taken.on l hl)
  · exact Marker.on_eq_false (p.heading.divider_taken.on l hl) (by decide)
  · exact p.search_plain l hl

/-- The lines of a block before a SEARCH line do not complete it: they end
among those to find, or after the separator among those to put there. -/
theorem not_completes_before (h : p.linesThen [] = b ++ next :: c)
    (hnext : Marker.search.on next = true) : ¬ Completes b := by
  rw [linesThen, headed_append] at h
  obtain ⟨d, rfl, hd⟩ | ⟨d, hd, -⟩ := List.append_eq_append_iff.mp h
  · refine not_completes_append p.separator_first fun l hl => p.replacement_plain l ?_
    cases d with
    | nil => cases hl
    | cons k d =>
      obtain ⟨rfl, htail⟩ := List.cons.inj hd
      obtain ⟨e, rfl, he⟩ | ⟨e, he, -⟩ := List.append_eq_append_iff.mp htail
      · have hclosing := p.closing_on
        cases e with
        | nil =>
          obtain ⟨rfl, -⟩ := List.cons.inj he
          cases Marker.on_unique hclosing hnext
        | cons k e => simp at he
      · rw [he]
        exact List.mem_append_left e hl
  · have hb : ∀ l ∈ b, Marker.separator.on l = false := fun l hl =>
      p.separator_first l (by rw [hd]; exact List.mem_append_left d hl)
    simpa using not_completes_append hb (v := []) (List.forall_mem_nil _)

/-- A SEARCH line in a block is text to find or to put there. -/
theorem holdsOpening_iff (hlf : ∀ l ∈ p.lines, lf ∉ l) :
    p.block.HoldsOpening ↔ ∃ l ∈ p.linesThen [], Marker.search.on l = true := by
  have hmem : ∀ l, l ∈ p.linesThen [] ↔ l ∈ p.hint ∨ l ∈ p.divider ∨ l ∈ p.search ∨
      l = p.separator ∨ l ∈ p.replacement ∨ l = p.closing := by
    simp [linesThen, headed]
  have hsearch : ∀ l ∈ p.search, lf ∉ l := fun l hl =>
    hlf l (List.mem_cons_of_mem _ ((hmem l).mpr (by simp [hl])))
  have hreplacement : ∀ l ∈ p.replacement, lf ∉ l := fun l hl =>
    hlf l (List.mem_cons_of_mem _ ((hmem l).mpr (by simp [hl])))
  rw [Block.HoldsOpening, block, exists_on_unlines_iff hsearch, exists_on_unlines_iff hreplacement]
  constructor
  · intro h
    obtain ⟨l, hl, hon⟩ | ⟨l, hl, hon⟩ := h
    · exact ⟨l, (hmem l).mpr (by simp [hl]), hon⟩
    · exact ⟨l, (hmem l).mpr (by simp [hl]), hon⟩
  · intro h
    obtain ⟨l, hl, hon⟩ := h
    obtain hl | hl | hl | rfl | hl | rfl := (hmem l).mp hl
    · have hoff : Marker.search.on l = false :=
        Marker.on_eq_false_of_isHint (p.heading.hint_taken.on l hl)
      simp [hon] at hoff
    · cases Marker.on_unique hon (p.heading.divider_taken.on l hl)
    · exact .inl ⟨l, hl, hon⟩
    · cases Marker.on_unique hon p.separator_on
    · exact .inr ⟨l, hl, hon⟩
    · cases Marker.on_unique hon p.closing_on

end Passage

/-- Lines cut into parts are interrupted only within a block: the induction
is on the parts, and a SEARCH line that begins a block has all the lines of
the block between it and what comes after. -/
theorem exists_block_of_interrupted {ps : List Part} (h : Interrupted (partLines ps)) :
    ∃ p, .block p ∈ ps ∧ ∃ l ∈ p.linesThen [], Marker.search.on l = true := by
  induction ps with
  | nil =>
    obtain ⟨a, opening, b, next, c, heq, -⟩ := h
    simp [partLines] at heq
  | cons x ps ih =>
    have later (hrest : Interrupted (partLines ps)) :
        ∃ p, .block p ∈ x :: ps ∧ ∃ l ∈ p.linesThen [], Marker.search.on l = true := by
      obtain ⟨p, hp, hl⟩ := ih hrest
      exact ⟨p, List.mem_cons_of_mem x hp, hl⟩
    obtain ⟨a, opening, b, next, c, heq, hopening, hnext, hb⟩ := h
    rw [partLines_cons] at heq
    obtain ⟨d, -, hd⟩ | ⟨d, hd, hrest⟩ := List.append_eq_append_iff.mp heq
    · exact later ⟨d, opening, b, next, c, hd, hopening, hnext, hb⟩
    · cases d with
      | nil => exact later ⟨[], opening, b, next, c, hrest.symm, hopening, hnext, hb⟩
      | cons k d =>
        obtain ⟨rfl, hafter⟩ := List.cons.inj hrest
        cases x with
        | prose line plain =>
          have hmem : opening ∈ [line] := by
            rw [show [line] = a ++ opening :: d from hd]
            simp
          obtain rfl := List.mem_singleton.mp hmem
          simp [hopening] at plain
        | block p =>
          refine ⟨p, List.mem_cons_self, ?_⟩
          cases a with
          | cons k a =>
            obtain ⟨-, htail⟩ := List.cons.inj hd
            exact ⟨opening, by rw [htail]; simp, hopening⟩
          | nil =>
            obtain ⟨-, htail⟩ := List.cons.inj hd
            have hlines : p.linesThen (partLines ps) = b ++ next :: c := by
              rw [← p.linesThen_append, htail]
              exact hafter.symm
            exact ⟨next, p.mem_of_not_completes hlines hb, hnext⟩

theorem interrupted_partLines_iff {ps : List Part} : Interrupted (partLines ps) ↔
    ∃ p, .block p ∈ ps ∧ ∃ l ∈ p.linesThen [], Marker.search.on l = true := by
  refine ⟨exists_block_of_interrupted, fun h => ?_⟩
  obtain ⟨p, hp, next, hmem, hnext⟩ := h
  obtain ⟨qs, rs, rfl⟩ := List.append_of_mem hp
  obtain ⟨b, c, hlines⟩ := List.append_of_mem hmem
  refine ⟨partLines qs, p.opening, b, next, c ++ partLines rs, ?_, p.opening_on, hnext,
    p.not_completes_before hlines hnext⟩
  simp [partLines, Part.lines, Passage.lines, hlines]

/-! ## §4 Requests -/

/-- Where no later lines complete a block, a marker is missing. -/
theorem Flaw.of_not_completes {number : Nat} {rest : List Text} {e : BlockError}
    (h : Flaw number rest e) (hrest : ¬ Completes rest) :
    e = .noSeparator number ∨ e = .noReplace number ∨ ∃ digits, e = .longHint digits := by
  cases h with
  | longHint digits long => exact .inr (.inr ⟨_, rfl⟩)
  | noSeparator _ _ => exact .inl rfl
  | noReplace _ _ _ _ => exact .inr (.inl rfl)
  | emptySearch _ _ _ hseparator _ hclosing =>
    exact absurd (completes_headed hseparator hclosing) hrest

/-- If a SEARCH line comes before the block begun by an earlier one is
complete, the request is refused or a block it is read as holds such a line,
and in no other request does a block hold one. A block that no later lines
complete has the request refused, and its own line is named. -/
theorem readBlocks_interrupted (request : Text) :
    (∀ bs, readBlocks request = .ok bs →
      (Interrupted (lines (LineEnding.normalize request)) ↔ ∃ b ∈ bs, b.HoldsOpening)) ∧
    (Interrupted (lines (LineEnding.normalize request)) →
      readBlocks request ≠ .error .noBlocks) ∧
    ∀ ps opening rest, lines (LineEnding.normalize request) = partLines ps ++ opening :: rest →
      Marker.search.on opening = true → ¬ Completes rest →
      ∃ e, readBlocks request = .error e ∧ (e = .noSeparator ((partLines ps).length + 1) ∨
        e = .noReplace ((partLines ps).length + 1) ∨ ∃ digits, e = .longHint digits) := by
  refine ⟨?_, ?_, ?_⟩
  · intro bs hread
    obtain ⟨-, hfrom⟩ := readBlocks_eq_ok_iff.mp hread
    obtain ⟨ps, hps, rfl⟩ := blocksFrom_eq_ok_iff.mp hfrom
    have hholds : ∀ p, .block p ∈ ps →
        (p.block.HoldsOpening ↔ ∃ l ∈ p.linesThen [], Marker.search.on l = true) := by
      intro p hp
      refine p.holdsOpening_iff fun l hl => ?_
      have hmem : l ∈ partLines ps := List.mem_flatMap.mpr ⟨_, hp, hl⟩
      rw [hps] at hmem
      exact lf_notMem_of_mem_lines hmem
    rw [← hps, interrupted_partLines_iff]
    constructor
    · intro h
      obtain ⟨p, hp, hl⟩ := h
      exact ⟨p.block, List.mem_filterMap.mpr ⟨_, hp, rfl⟩, (hholds p hp).mpr hl⟩
    · intro h
      obtain ⟨b, hb, hl⟩ := h
      obtain ⟨x, hx, hblock⟩ := List.mem_filterMap.mp hb
      cases x with
      | prose line plain => cases hblock
      | block p =>
        obtain rfl := Option.some.inj hblock
        exact ⟨p, hx, (hholds p hx).mp hl⟩
  · intro h hnone
    obtain ⟨a, opening, b, next, c, hlines, hopening, -⟩ := h
    have hoff := readBlocks_eq_noBlocks_iff.mp hnone opening (by simp [hlines])
    simp [hopening] at hoff
  · intro ps opening rest hlines hopening hrest
    obtain ⟨p, after, hblock⟩ | hflaw := exists_passage_or_flaw hopening rest
    · rw [p.lines_append after] at hblock
      obtain ⟨-, rfl⟩ := List.cons.inj hblock
      exact absurd (p.completes after) hrest
    · obtain ⟨e, he⟩ := hflaw ((partLines ps).length + 1)
      have hread : readBlocks request = .error e :=
        (readBlocks_eq_flaw_iff he.ne_noBlocks).mpr ⟨ps, opening, rest, hlines, hopening, he⟩
      exact ⟨e, hread, he.of_not_completes hrest⟩

/-- The first block misses its REPLACE line and takes that of the second,
whose marker lines are then text to put there. -/
theorem missing_replace_taken_from_next :
    Interrupted (lines (LineEnding.normalize
      "<<<<<<< SEARCH\na\n=======\nb\n<<<<<<< SEARCH\nc\n=======\nd\n>>>>>>> REPLACE")) ∧
    readBlocks "<<<<<<< SEARCH\na\n=======\nb\n<<<<<<< SEARCH\nc\n=======\nd\n>>>>>>> REPLACE" =
      .ok [⟨"a", "b\n<<<<<<< SEARCH\nc\n=======\nd",
        "<<<<<<< SEARCH\na\n=======\nb\n<<<<<<< SEARCH\nc\n=======\nd\n>>>>>>> REPLACE", none⟩] := by
  refine ⟨⟨[], "<<<<<<< SEARCH", ["a", "=======", "b"], "<<<<<<< SEARCH",
    ["c", "=======", "d", ">>>>>>> REPLACE"], by decide +kernel, by decide, by decide, ?_⟩,
    by decide +kernel⟩
  exact not_completes_append (u := ["a"]) (v := ["=======", "b"]) (by decide) (by decide)

end Amend
