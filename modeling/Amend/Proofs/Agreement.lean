/-
Amend.Proofs.Agreement — a single edit and a request of one block agree.

The one counts the places of a search text and replaces them all; the other
looks for the first place, near a hint and then anywhere, and splices. Where
the search text stands at one offset at most there is nothing to choose
between: both take the same place (`locate_of_only`), and what is left after
a replacement depends on the place alone (`Replaced.unique`).

  §1 One place.
  §2 Requests of one block.
  §3 Edits and blocks.
-/
import Amend.Proofs.Encoding
import Amend.Proofs.Patching

namespace Amend

open Text

/-! ## §1 One place -/

namespace Strategy

variable {content search : Text}

/-- A text that stands at one offset at most is found once or not at all. -/
theorem exact_spans_of_only
    (hone : ∀ s t, exact.Finds search content s → exact.Finds search content t → s = t) :
    exact.spans content search = [] ∨ ∃ s, exact.spans content search = [s] := by
  have hordered := (exact.spans_greedy content search).ordered
    fun s hs => Nat.le_of_lt hs.lt_and_le.1
  match hspans : exact.spans content search with
  | [] => exact .inl rfl
  | [s] => exact .inr ⟨s, rfl⟩
  | s :: t :: ss =>
    rw [hspans] at hordered
    have hs : exact.Finds search content s := finds_of_mem_spans (by simp [hspans])
    obtain rfl := hone s t hs (finds_of_mem_spans (by simp [hspans]))
    have hlt := hs.lt_and_le.1
    have hbefore := (List.pairwise_cons.mp hordered).1 s (by simp)
    omega

end Strategy

/-- Of a text that stands at one offset at most, the place an edit commits is
the one located, unless only the words were found. -/
theorem locate_of_only {content search : Text} {m : Match}
    (hone : ∀ s t, Strategy.exact.Finds search content s → Strategy.exact.Finds search content t →
      s = t)
    (hm : findMatches content search 1 = .ok m) (htokens : m.strategy ≠ .tokens)
    (hint : Option Int) (window : Int) :
    ∃ place, locate content search hint window = some place ∧ m.spans = [place.span] ∧
      place.strategy = m.strategy ∧ place.line = lineAt content place.span.start := by
  obtain ⟨hspans, hcount⟩ := findMatches_ok hm
  obtain ⟨s, hs⟩ : ∃ s, m.spans = [s] := List.length_eq_one_iff.mp (by omega)
  rw [hs] at hspans
  obtain ⟨hfinds, hfirst⟩ := Strategy.finds_of_spans_eq_singleton hspans.symm
  have hlocated : locate content search hint window ≠ none := by
    rw [Ne, locate_eq_none_iff]
    intro hnone
    cases hst : m.strategy with
    | exact => exact (hnone s).1 (hst ▸ hfinds)
    | whitespace => exact (hnone s).2 (hst ▸ hfinds)
    | tokens => exact htokens hst
  obtain ⟨place, hplace⟩ := Option.ne_none_iff_exists'.mp hlocated
  obtain ⟨hfound, hline⟩ := locate_finds hplace
  suffices hsame : place.strategy = m.strategy ∧ place.span = s from
    ⟨place, hplace, by rw [hs, hsame.2], hsame.1, hline⟩
  cases hst : m.strategy with
  | exact =>
    rw [hst] at hfinds
    obtain hexact | ⟨-, hno, -⟩ := locate_strategy hplace
    · rw [hexact] at hfound
      exact ⟨hexact, hone _ _ hfound hfinds⟩
    · exact absurd hfinds (hno s)
  | whitespace =>
    rw [hst] at hfinds hfirst
    -- the text itself was not found once, so it is nowhere
    have hno : Strategy.exact.spans content search = [] := by
      refine (Strategy.exact_spans_of_only hone).resolve_right fun hsome => ?_
      obtain ⟨t, ht⟩ := hsome
      have hcommitted : findMatches content search 1 = .ok ⟨.exact, [t]⟩ := by
        simp [findMatches, ht]
      rw [hm, Except.ok.injEq] at hcommitted
      rw [hcommitted] at hst
      cases hst
    obtain hexact | ⟨hwhitespace, -, hleast⟩ := locate_strategy hplace
    · rw [hexact] at hfound
      exact absurd hfound (Strategy.not_finds_of_spans_eq_nil hno _)
    · rw [hwhitespace] at hfound
      have hstart := Nat.le_antisymm (hleast s hfinds) (hfirst _ hfound)
      exact ⟨hwhitespace, hfound.unique hfinds hstart⟩
  | tokens => exact absurd hst htokens

/-! ## §2 Requests of one block -/

theorem lineAt_splice {content : Text} {s : Span} (hs : s.start ≤ content.length) (new : Text) :
    lineAt (splice content s new) s.start = lineAt content s.start := by
  have hlen : (content.take s.start).length = s.start := List.length_take_of_le hs
  rw [lineAt, lineAt, splice, List.append_assoc, List.take_append_of_le_length (Nat.le_of_eq hlen.symm),
    List.take_of_length_le (Nat.le_of_eq hlen)]

/-- A block that is found is put in at its place, and its replacement begins
on the line the place is on. -/
theorem applyBlocks_singleton {content : Text} {window : Int} {b : Block} {place : Location}
    (h : b.locate content window = some place) :
    applyBlocks content window [b] =
      ⟨splice content place.span (LineEnding.normalize b.replacement),
        [.applied place.line (lineAt content place.span.start) place.strategy]⟩ := by
  have hverdict : judge content window [] b = .accepted place := by
    have hjudged := judged_judge content window [] b
    generalize judge content window [] b = v at hjudged ⊢
    cases hjudged with
    | empty nothing => exact absurd nothing (Block.sought_ne_nil h)
    | missing nowhere => simp [h] at nowhere
    | overlaps _ taken _ => cases taken
    | accepted found _ => rw [Option.some.inj (found.symm.trans h)]
  have hinside : place.span.start ≤ content.length := by
    have := (locate_finds h).1.lt_and_le
    omega
  have hline : lineOf (splice content place.span (LineEnding.normalize b.replacement))
      place.span.start = lineAt content place.span.start := by
    rw [← lineAt_splice hinside (LineEnding.normalize b.replacement), lineOf, Text.place,
      if_neg (by omega), Int.toNat_natCast, Nat.min_eq_right]
    rw [splice, List.append_assoc, List.length_append, List.length_take_of_le hinside]
    omega
  simp only [applyBlocks, verdicts, judgeFrom, placements, hverdict]
  simp [placementsFrom, inOrder, spliceAll, shifts, outcome, hline]

/-! ## §3 Edits and blocks -/

/-- A search text that stands at one offset at most: if an edit of one place
is carried out with it, as it stands or with white space relaxed, then a
request of one block puts it in too, whatever hint it has and however many
lines are searched around it. The text left and the strategy are the same,
and the lines told are the one of the place edited. -/
theorem applyBlocks_of_resolveEdit {content search replacement source : Text} {hint : Option Int}
    {window : Int} {e : Edit} (hsearch : ¬ [cr, lf] <:+: search)
    (hreplacement : ¬ [cr, lf] <:+: replacement)
    (hone : ∀ s t, Strategy.exact.Finds search content s → Strategy.exact.Finds search content t →
      s = t)
    (hedit : resolveEdit content search replacement 1 = .ok e)
    (htokens : e.found.strategy ≠ .tokens) :
    ∃ position, e.found.positions = [position] ∧
      applyBlocks content window [⟨search, replacement, source, hint⟩] =
        ⟨e.content,
          [.applied (lineAt content position) (lineAt content position) e.found.strategy]⟩ := by
  cases hm : findMatches content search 1 with
  | error m => simp [resolveEdit, hm, Except.map] at hedit
  | ok m =>
    simp only [resolveEdit, hm, Except.map, Except.ok.injEq] at hedit
    subst hedit
    obtain ⟨place, hplace, hspans, hstrategy, hline⟩ :=
      locate_of_only hone hm htokens hint window
    have hblock : Block.locate content window ⟨search, replacement, source, hint⟩ = some place := by
      rw [Block.locate, Block.sought, LineEnding.normalize_eq_self hsearch]
      exact hplace
    have hcontent : splice content place.span replacement =
        replaceAll (m.strategy.matcher search) content replacement := by
      have hall := replaceAll_replaced (m.strategy.matcher_bounded search) content replacement
      have hspans' : Text.spans (m.strategy.matcher search) content = [place.span] :=
        (findMatches_ok hm).1.symm.trans hspans
      rw [hspans', List.map_singleton] at hall
      have hin := (locate_finds hplace).1.lt_and_le
      have hone : Replaced 0 content [(place.span, replacement)]
          (splice content place.span replacement) := by
        rw [splice, List.append_assoc]
        exact .cut_span (Nat.zero_le _) (Nat.le_of_lt hin.1) (by omega) .rest
      exact hone.unique hall
    refine ⟨place.span.start, by rw [Match.positions, hspans]; rfl, ?_⟩
    rw [applyBlocks_singleton hblock, LineEnding.normalize_eq_self hreplacement, hcontent, hline,
      hstrategy]

/-- Only the white space of the block's text differs from that of the file;
the line feed after it is taken and the next line keeps its indentation. -/
theorem applyBlocks_of_tolerant_edit :
    Strategy.exact.spans "a\n  b\tc \n  d" "b c\n" = [] ∧
      resolveEdit "a\n  b\tc \n  d" "b c\n" "x\ny\n" 1 =
        .ok ⟨"a\n  x\ny\n  d", ⟨.whitespace, [⟨4, 9⟩]⟩⟩ ∧
      applyBlocks "a\n  b\tc \n  d" 0 [⟨"b c\n", "x\ny\n", [], some 3⟩] =
        ⟨"a\n  x\ny\n  d", [.applied 2 2 .whitespace]⟩ := by
  have hnone : Strategy.exact.spans "a\n  b\tc \n  d" "b c\n" = [] := by decide
  have hedit : resolveEdit "a\n  b\tc \n  d" "b c\n" "x\ny\n" 1 =
      .ok ⟨"a\n  x\ny\n  d", ⟨.whitespace, [⟨4, 9⟩]⟩⟩ := rfl
  obtain ⟨position, hposition, happlied⟩ := applyBlocks_of_resolveEdit (by decide) (by decide)
    (fun s _ hs _ => absurd hs (Strategy.not_finds_of_spans_eq_nil hnone s)) hedit (by decide)
  obtain rfl : 4 = position := by simpa [Match.positions] using hposition
  exact ⟨hnone, hedit, happlied⟩

end Amend
