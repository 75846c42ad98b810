/-
Amend.Proofs.Joining — two requests joined by a line feed.

The lines of a joined text are those of the first text and then those of the
second, and so it is after carriage returns are taken off, unless the first
text ends in one (`lines_normalize_append`). Where a request is cut into parts
to its last line nothing is left over for the lines that follow: these are
read as they would be alone, except that their numbers are greater
(`Flaw.below`). So a joined request is read as the blocks of the one and then
those of the other (`readBlocks_append`).

  §1 Joined texts.
  §2 Lines with greater numbers.
  §3 Joined requests.
-/
import Amend.Proofs.Interruption

namespace Amend

open Text

/-! ## §1 Joined texts -/

namespace Text

theorem lines_append_lf (a b : Text) : lines (a ++ lf :: b) = lines a ++ lines b := by
  rw [lines_eq_splitOn, lines_eq_splitOn, lines_eq_splitOn]
  exact List.splitOnP_append_cons a b (beq_self_eq_true lf)

end Text

/-- Carriage returns are taken off each of two texts by itself, unless one
stands at the seam. -/
theorem normalize_append_lf {a : Text} (hend : a.getLast? ≠ some cr) (b : Text) :
    LineEnding.normalize (a ++ lf :: b) =
      LineEnding.normalize a ++ lf :: LineEnding.normalize b := by
  induction a with
  | nil => rfl
  | cons c a ih =>
    cases a with
    | nil =>
      have hc : c ≠ cr := by
        rintro rfl
        exact hend rfl
      simp [LineEnding.normalize, hc, show lf ≠ cr by decide]
    | cons d a =>
      have hrest := ih (by rwa [List.getLast?_cons_cons] at hend)
      have hhead : (d :: a ++ lf :: b).head? = (d :: a).head? := rfl
      rw [List.cons_append, LineEnding.normalize, LineEnding.normalize, hhead, hrest]
      split
      · rfl
      · rfl

theorem breaks_normalize (t : Text) : breaks (LineEnding.normalize t) = breaks t := by
  unfold breaks
  induction t with
  | nil => rfl
  | cons c t ih =>
    rw [LineEnding.normalize]
    split
    · rename_i hpair
      rw [ih, hpair.1, List.count_cons_of_ne (by decide)]
    · rw [List.count_cons, List.count_cons, ih]

/-- The lines of a joined request are those of the one and then those of the
other. -/
theorem lines_normalize_append {a : Text} (hend : a.getLast? ≠ some cr) (b : Text) :
    lines (LineEnding.normalize (a ++ lf :: b)) =
      lines (LineEnding.normalize a) ++ lines (LineEnding.normalize b) := by
  rw [normalize_append_lf hend, lines_append_lf]

theorem length_lines_normalize (t : Text) :
    (lines (LineEnding.normalize t)).length = (lines t).length := by
  rw [length_lines, length_lines, breaks_normalize]

/-! ## §2 Lines with greater numbers -/

/-- The error as it is told of a block that stands so many lines further
down. -/
def BlockError.below (count : Nat) : BlockError → BlockError
  | noSeparator line => noSeparator (line + count)
  | noReplace line => noReplace (line + count)
  | emptySearch line => emptySearch (line + count)
  | noBlocks => noBlocks
  | longHint digits => longHint digits

/-- What is wrong with a block does not depend on where it stands. -/
theorem Flaw.below {number : Nat} {rest : List Text} {e : BlockError} (h : Flaw number rest e)
    (count : Nat) : Flaw (number + count) rest (e.below count) := by
  cases h with
  | longHint digits long => exact .longHint digits long
  | noSeparator heading missing => exact .noSeparator heading missing
  | noReplace heading search_plain separator_on missing =>
    exact .noReplace heading search_plain separator_on missing
  | emptySearch heading search_plain search_nil separator_on replacement_plain closing_on =>
    exact .emptySearch heading search_plain search_nil separator_on replacement_plain closing_on

/-- Further down lines are read as the same blocks, or refused for the same
reason. -/
theorem blocksFrom_add (number count : Nat) (ls : List Text) :
    blocksFrom (number + count) ls = (blocksFrom number ls).mapError (·.below count) := by
  -- Parts are the same wherever they stand; only what is wrong names its line.
  obtain ⟨ps, tail, rfl, htail⟩ := exists_parts ls
  cases htail with
  | nil =>
    rw [List.append_nil, blocksFrom_partLines, blocksFrom_partLines]
    rfl
  | flaw hopening hflawed =>
    obtain ⟨e, hflaw⟩ := hflawed (number + (partLines ps).length)
    have hbelow := hflaw.below count
    rw [Nat.add_right_comm] at hbelow
    rw [blocksFrom_partLines_flaw hopening hflaw, blocksFrom_partLines_flaw hopening hbelow]
    rfl

/-! ## §3 Joined requests -/

/-- No line of the request is a SEARCH line. -/
def NoSearchLine (request : Text) : Prop :=
  ∀ l ∈ lines (LineEnding.normalize request), Marker.search.on l = false

theorem blocksFrom_of_noSearchLine {request : Text} (h : NoSearchLine request) :
    blocksFrom 1 (lines (LineEnding.normalize request)) = .ok [] := by
  obtain herror | ⟨-, hnone⟩ := readBlocks_eq_error_iff.mp (readBlocks_eq_noBlocks_iff.mpr h)
  · obtain ⟨ps, opening, rest, -, -, hflaw⟩ := blocksFrom_eq_error_iff.mp herror
    exact absurd rfl hflaw.ne_noBlocks
  · exact hnone

/-- Where the first request leaves nothing over, the second is read after it. -/
theorem blocksFrom_joined {a b : Text} (hend : a.getLast? ≠ some cr) {as : List Block}
    (ha : blocksFrom 1 (lines (LineEnding.normalize a)) = .ok as) :
    blocksFrom 1 (lines (LineEnding.normalize (a ++ lf :: b))) =
      ((blocksFrom 1 (lines (LineEnding.normalize b))).mapError
        (·.below (lines a).length)).map (as ++ ·) := by
  obtain ⟨ps, hps, rfl⟩ := blocksFrom_eq_ok_iff.mp ha
  rw [lines_normalize_append hend, ← hps, blocksFrom_parts, blocksFrom_add, hps,
    length_lines_normalize]

/-- A request and another one after it, joined by a line feed. If both can be
read, they are read as the blocks of the first and then those of the second. A
request without a SEARCH line makes no difference to the other, before it or
after it. If the first can be read or has no SEARCH line, and there is
something wrong with a block of the second, the joined request is refused for
the same reason, and the line that is named is so much greater as the first has
lines. The first request may not end in a carriage return, which the line feed
would take off. -/
theorem readBlocks_append {a b : Text} (hend : a.getLast? ≠ some cr) :
    (∀ as bs, readBlocks a = .ok as → readBlocks b = .ok bs →
      readBlocks (a ++ lf :: b) = .ok (as ++ bs)) ∧
    (∀ bs, NoSearchLine a → readBlocks b = .ok bs → readBlocks (a ++ lf :: b) = .ok bs) ∧
    (∀ as, readBlocks a = .ok as → NoSearchLine b → readBlocks (a ++ lf :: b) = .ok as) ∧
    (NoSearchLine a → NoSearchLine b → readBlocks (a ++ lf :: b) = .error .noBlocks) ∧
    ∀ e, (∃ as, readBlocks a = .ok as) ∨ NoSearchLine a → e ≠ .noBlocks →
      readBlocks b = .error e →
      readBlocks (a ++ lf :: b) = .error (e.below (lines a).length) := by
  have hjoined {as bs : List Block} (ha : blocksFrom 1 (lines (LineEnding.normalize a)) = .ok as)
      (hb : blocksFrom 1 (lines (LineEnding.normalize b)) = .ok bs) :
      blocksFrom 1 (lines (LineEnding.normalize (a ++ lf :: b))) = .ok (as ++ bs) := by
    rw [blocksFrom_joined hend ha, hb]
    rfl
  refine ⟨fun as bs ha hb => ?_, fun bs ha hb => ?_, fun as ha hb => ?_, fun ha hb => ?_,
    fun e ha hne hb => ?_⟩
  · obtain ⟨hne, ha⟩ := readBlocks_eq_ok_iff.mp ha
    obtain ⟨-, hb⟩ := readBlocks_eq_ok_iff.mp hb
    exact readBlocks_eq_ok_iff.mpr ⟨List.append_ne_nil_of_left_ne_nil hne bs, hjoined ha hb⟩
  · obtain ⟨hne, hb⟩ := readBlocks_eq_ok_iff.mp hb
    exact readBlocks_eq_ok_iff.mpr ⟨hne, hjoined (blocksFrom_of_noSearchLine ha) hb⟩
  · obtain ⟨hne, ha⟩ := readBlocks_eq_ok_iff.mp ha
    have hboth := hjoined ha (blocksFrom_of_noSearchLine hb)
    rw [List.append_nil] at hboth
    exact readBlocks_eq_ok_iff.mpr ⟨hne, hboth⟩
  · exact readBlocks_eq_error_iff.mpr (.inr
      ⟨rfl, hjoined (blocksFrom_of_noSearchLine ha) (blocksFrom_of_noSearchLine hb)⟩)
  · obtain ⟨as, ha⟩ : ∃ as, blocksFrom 1 (lines (LineEnding.normalize a)) = .ok as := by
      obtain ⟨as, ha⟩ | ha := ha
      · exact ⟨as, (readBlocks_eq_ok_iff.mp ha).2⟩
      · exact ⟨[], blocksFrom_of_noSearchLine ha⟩
    obtain hb | ⟨he, -⟩ := readBlocks_eq_error_iff.mp hb
    · refine readBlocks_eq_error_iff.mpr (.inl ?_)
      rw [blocksFrom_joined hend ha, hb]
      rfl
    · exact absurd he hne

/-- A block whose REPLACE line is missing, after a block that is whole: its
SEARCH line is the third of its request and the eighth of the joined one. -/
theorem readBlocks_append_of_unclosed :
    ∃ a b : Text, a.getLast? ≠ some cr ∧
      (∃ as, readBlocks a = .ok as) ∧ readBlocks b = .error (.noReplace 3) ∧
      readBlocks (a ++ lf :: b) = .error (.noReplace 8) := by
  let a : Text := "<<<<<<< SEARCH\na\n=======\nb\n>>>>>>> REPLACE"
  let b : Text := "\nmore\n<<<<<<< SEARCH\nc\n======="
  have hend : a.getLast? ≠ some cr := by decide +kernel
  have ha : readBlocks a =
      .ok [⟨"a", "b", "<<<<<<< SEARCH\na\n=======\nb\n>>>>>>> REPLACE", none⟩] := by decide +kernel
  have hb : readBlocks b = .error (.noReplace 3) := by decide +kernel
  have hlines : (lines a).length = 5 := by decide +kernel
  have hjoined := (readBlocks_append (b := b) hend).2.2.2.2 (.noReplace 3) (.inl ⟨_, ha⟩) nofun hb
  rw [hlines] at hjoined
  exact ⟨a, b, hend, ⟨_, ha⟩, hb, hjoined⟩

end Amend
