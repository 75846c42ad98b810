/-
Amend.Proofs.Excerpts — the lines of a changed file that are shown.

The rows of an excerpt are lines of the text, in order and with their numbers
(`Excerpt.lines_rows`), so an excerpt is known from its bounds. Those of the
excerpt around a replacement, or around a line, are cut off where the text
begins and ends. What a tool decided to tell of a file it changes shows the
lines around the first place replaced (`EditTool.shows_of_rewrite`) or around
the first block put in (`DiffTool.shows_of_rewrite`), and no call changes a
file that is there but as it was decided (`changed_file_is_shown`).

  §1 Numbered lines.
  §2 Excerpts.
  §3 What is told of an edit.
  §4 What is told of blocks.
  §5 Calls that change a file.
-/
import Amend.Proofs.Footprint
import Amend.Proofs.Hinting
import Amend.Proofs.Joining
import Amend.Proofs.Tokens
import Amend.Proofs.Writing

namespace Amend

open Text

/-! ## §1 Numbered lines -/

/-- The lines of a text from one to another, counted from one, each after its
number and a tab. -/
def numberedLines (content : Text) (first last : Nat) : List Text :=
  (List.range' first (last + 1 - first)).map fun i =>
    Text.ofNat i ++ "\t" ++ (lines content).getD (i - 1) []

namespace Text

theorem lines_of_notMem {t : Text} (h : lf ∉ t) : lines t = [t] := by
  have hread := lines_unlines_of_notMem (List.cons_ne_nil t []) (List.forall_mem_singleton.mpr h)
  rwa [unlines_singleton] at hread

/-- The lines of texts that are joined are the lines of each, in turn. -/
theorem lines_unlines {ls : List Text} (hne : ls ≠ []) : lines (unlines ls) = ls.flatMap lines := by
  induction ls with
  | nil => exact absurd rfl hne
  | cons l ls ih =>
    cases ls with
    | nil => rw [unlines_singleton, List.flatMap_singleton]
    | cons m ms =>
      rw [unlines_cons_cons, lines_append_lf, ih (List.cons_ne_nil m ms), ← List.flatMap_cons]

theorem lf_notMem_ofNat (n : Nat) : lf ∉ ofNat n := by
  intro h
  have hspace := isSpace_of_mem_ofNat h
  revert hspace
  decide

end Text

theorem lf_notMem_of_mem_numberedLines {content : Text} {first last : Nat} {l : Text}
    (hl : l ∈ numberedLines content first last) : lf ∉ l := by
  obtain ⟨i, -, rfl⟩ := List.mem_map.mp hl
  have hline : lf ∉ (lines content).getD (i - 1) [] := by
    rw [List.getD_eq_getElem?_getD]
    cases hget : (lines content)[i - 1]? with
    | none => exact List.not_mem_nil
    | some l => exact lf_notMem_of_mem_lines (List.mem_of_getElem? hget)
  have htab : lf ∉ ofString "\t" := by decide
  simp only [List.mem_append, not_or]
  exact ⟨⟨lf_notMem_ofNat i, htab⟩, hline⟩

/-! ## §2 Excerpts -/

namespace Excerpt

theorem part_of_le {ls : List Text} {start stop : Nat} (hle : start ≤ stop)
    (hstop : stop ≤ ls.length) : part ls start stop = (ls.drop start).take (stop - start) := by
  have hplace (n : Nat) (h : n ≤ ls.length) : place ls.length n = n := by
    rw [place, if_neg (by omega), Int.toNat_natCast, Nat.min_eq_right h]
  rw [part, hplace start (Nat.le_trans hle hstop), hplace stop hstop]

/-- The rows of an excerpt are numbered lines. -/
theorem lines_rows {content : Text} {start stop : Nat} (hlt : start < stop)
    (hstop : stop ≤ (lines content).length) :
    lines (rows (lines content) start stop) = numberedLines content (start + 1) stop := by
  have hrows : rows (lines content) start stop =
      unlines (numberedLines content (start + 1) stop) := by
    rw [rows, numbered, part_of_le (Nat.le_of_lt hlt) hstop, numberedLines]
    congr 1
    refine List.ext_getElem ?_ fun i hi _ => ?_
    · simp only [List.length_mapIdx, List.length_take, List.length_drop, List.length_map,
        List.length_range']
      omega
    · rw [List.length_mapIdx, List.length_take, List.length_drop] at hi
      have hnumber : start + 1 + 1 * i = start + 1 + i := by omega
      have hindex : start + 1 + i - 1 = start + i := by omega
      rw [List.getElem_mapIdx, List.getElem_map, List.getElem_range', hnumber, hindex,
        List.getElem_take, List.getElem_drop, List.getElem_eq_getD []]
  have hne : numberedLines content (start + 1) stop ≠ [] := by
    rw [numberedLines, Ne, List.map_eq_nil_iff, List.range'_eq_nil_iff]
    omega
  rw [hrows, lines_unlines_of_notMem hne fun _ => lf_notMem_of_mem_numberedLines]

/-- Around a replacement the lines on which it stands are shown, and so many
above and below, as far as there are any. -/
theorem lines_aroundEdit (before new after : Text) (margin : Nat) :
    lines (aroundEdit (before ++ (new ++ after)) new margin (some before.length)) =
      numberedLines (before ++ (new ++ after))
        (max 1 (lineAt (before ++ (new ++ after)) before.length - margin))
        (min (lines (before ++ (new ++ after))).length
          (lineAt (before ++ (new ++ after)) before.length + (lines new).length - 1 + margin)) := by
  have hplace : ¬ ((before.length : Int) = -1 ∨
      ((before ++ (new ++ after)).length : Int) < before.length) := by
    rw [List.length_append]
    omega
  have hcount := length_lines (before ++ (new ++ after))
  have hsome := length_lines new
  rw [breaks_append, breaks_append] at hcount
  simp only [aroundEdit, if_neg hplace, lineOf_append, lineAt_append]
  generalize before ++ (new ++ after) = content at hcount ⊢
  have hfirst : max 1 (breaks before + 1 - margin) =
      (((breaks before + 1 : Nat) : Int) - 1 - margin).toNat + 1 := by
    omega
  have hlast : min ((lines content).length : Int)
      (((breaks before + 1 : Nat) : Int) - 1 + (lines new).length + margin) =
        (min (lines content).length (breaks before + 1 + (lines new).length - 1 + margin) : Nat) := by
    omega
  rw [hfirst, hlast, lines_rows (by omega) (Nat.min_le_left _ _)]

/-- Around a line so many lines above and below are shown, as far as there are
any. -/
theorem lines_aroundLine {content : Text} {line : Nat} (above below : Nat) (hpos : 1 ≤ line)
    (hle : line ≤ (lines content).length) :
    lines (aroundLine content line above below) =
      numberedLines content (max 1 (line - above)) (min (lines content).length (line + below)) := by
  have hfirst : max 1 (line - above) = ((line : Int) - 1 - above).toNat + 1 := by omega
  have hlast : min ((lines content).length : Int) ((line : Int) + below) =
      (min (lines content).length (line + below) : Nat) := by
    omega
  rw [aroundLine, hlast, hfirst, lines_rows (by omega) (Nat.min_le_left _ _)]

/-- The lines on which a replacement stands. -/
theorem lineAt_within (before new after : Text) (offset : Nat) (hfrom : before.length ≤ offset)
    (hto : offset ≤ before.length + new.length) :
    lineAt (before ++ (new ++ after)) before.length ≤ lineAt (before ++ (new ++ after)) offset ∧
      lineAt (before ++ (new ++ after)) offset ≤
        lineAt (before ++ (new ++ after)) before.length + (lines new).length - 1 := by
  refine ⟨lineAt_mono _ hfrom, Nat.le_trans (lineAt_mono _ hto) ?_⟩
  have hend := lineAt_append (before ++ new) after
  rw [List.length_append, List.append_assoc] at hend
  rw [hend, lineAt_append, breaks_append, length_lines]
  omega

end Excerpt

/-! ## §3 What is told of an edit -/

/-- An edit that expects something replaces a first place. The replacement
stands there after the text that was before it. -/
theorem exists_first_replacement {content search replacement : Text} {expected : Int} {e : Edit}
    (h : resolveEdit content search replacement expected = .ok e) (hpos : 0 < expected) :
    ∃ s ss after, e.found.spans = s :: ss ∧ (content.take s.start).length = s.start ∧
      e.content = content.take s.start ++ (replacement ++ after) := by
  obtain ⟨hfound, hnew⟩ := resolveEdit_ok h
  obtain ⟨hspans, hcount⟩ := findMatches_ok hfound
  obtain ⟨s, ss, hss⟩ : ∃ s ss, e.found.spans = s :: ss := by
    refine List.exists_cons_of_length_pos ?_
    omega
  have hs : s.start < s.stop ∧ s.stop ≤ content.length :=
    (Strategy.finds_of_mem_spans (hspans ▸ hss ▸ List.mem_cons_self)).lt_and_le
  have hreplaced := replaced_found hfound replacement
  rw [← hnew, hss, List.map_cons, ← List.nil_append (_ :: _)] at hreplaced
  obtain ⟨-, before, after, hcut, hbefore⟩ := hreplaced.exists_before
  -- no place is before the first, so the text before it is as it was
  obtain rfl := hbefore.unique .rest
  rw [Nat.sub_zero] at hcut
  exact ⟨s, ss, after, hss, List.length_take_of_le (by omega), hcut⟩

namespace EditTool

variable {w : Workplace} {r : Request} {raw bytes : Bytes} {content : Except Utf8.Unencodable Bytes}
  {note : Record} {answer : ToolResult}

/-- What is told of an edit shows the place replaced first. The replacement
stands there after the text that was before the place; the lines on which it
stands follow the title, with their numbers, and so many above and below as is
set, as far as there are any. -/
def Shows (w : Workplace) (r : Request) (old new told : Text) : Prop :=
  ∃ e s ss after,
    resolveEdit old (LineEnding.normalize r.search) (LineEnding.normalize r.replacement)
      r.expected = .ok e ∧
    e.content = new ∧ e.found.spans = s :: ss ∧
    (old.take s.start).length = s.start ∧
    new = old.take s.start ++ (LineEnding.normalize r.replacement ++ after) ∧
    ∀ margin : Nat, w.settings.editContextLines = margin →
      ∃ above first last,
        lines told = above ++ ofString "Post-edit context:" :: numberedLines new first last ∧
        first = max 1 (lineAt new s.start - margin) ∧
        last = min (lines new).length (lineAt new s.start +
          (lines (LineEnding.normalize r.replacement)).length - 1 + margin) ∧
        ∀ offset, s.start ≤ offset → offset ≤ s.start + (LineEnding.normalize r.replacement).length →
          first ≤ lineAt new offset ∧ lineAt new offset ≤ last

theorem text_of_rewrite (h : decide w r raw = .rewrite content note answer) {e : Edit}
    (he : resolveEdit (contentOf raw) (LineEnding.normalize r.search)
      (LineEnding.normalize r.replacement) r.expected = .ok e) :
    answer.text = report w r (LineEnding.normalize r.replacement) e := by
  rw [contentOf] at he
  simp only [decide, he] at h
  split at h
  · cases h
  · cases h
    rfl

theorem exists_lines_report (w : Workplace) (r : Request) (replacement : Text) (e : Edit) :
    ∃ above, lines (report w r replacement e) = above ++ ofString "Post-edit context:" ::
      lines (Excerpt.aroundEdit e.content replacement w.settings.editContextLines
        (e.found.positions.head?.map Int.ofNat)) := by
  have htitle : lines (ofString "Post-edit context:") = [ofString "Post-edit context:"] :=
    lines_of_notMem (by decide)
  have hmarks : ofString "\n\nPost-edit context:\n" =
      [lf] ++ lf :: (ofString "Post-edit context:" ++ [lf]) := by
    decide
  have hcut (head excerpt : Text) : lines (head ++ ofString "\n\nPost-edit context:\n" ++ excerpt) =
      lines (head ++ [lf]) ++ ofString "Post-edit context:" :: lines excerpt := by
    have hseam : head ++ ofString "\n\nPost-edit context:\n" ++ excerpt =
        (head ++ [lf]) ++ lf :: (ofString "Post-edit context:" ++ lf :: excerpt) := by
      rw [hmarks]
      simp
    rw [hseam, lines_append_lf (head ++ [lf]), lines_append_lf (ofString "Post-edit context:"), htitle,
      List.singleton_append]
  rw [report]
  exact ⟨_, hcut _ _⟩

theorem shows_of_rewrite (hpos : 0 < r.expected)
    (h : decide w r raw = .rewrite (.ok bytes) note answer) :
    ∃ new, new ≠ contentOf raw ∧ bytes = written (endingOf raw) new ∧
      Shows w r (contentOf raw) new answer.text := by
  obtain ⟨e, he, hdiffers, hcontent⟩ := of_decide_rewrite h
  obtain ⟨s, ss, after, hss, hstart, hcut⟩ := exists_first_replacement he (by omega)
  refine ⟨e.content, hdiffers, eq_written_of_tryEncode hcontent.symm, e, s, ss, after, he, rfl, hss, hstart, hcut, ?_⟩
  intro margin hmargin
  obtain ⟨above, habove⟩ := exists_lines_report w r (LineEnding.normalize r.replacement) e
  have hfirst : e.found.positions.head?.map Int.ofNat = some (s.start : Int) := by
    rw [Match.positions, hss]
    rfl
  have hrows := Excerpt.lines_aroundEdit ((contentOf raw).take s.start)
    (LineEnding.normalize r.replacement) after margin
  have hwithin := Excerpt.lineAt_within ((contentOf raw).take s.start)
    (LineEnding.normalize r.replacement) after
  rw [← hcut, hstart] at hrows hwithin
  refine ⟨above, _, _, ?_, rfl, rfl, ?_⟩
  · rw [text_of_rewrite h he, habove, hmargin, hfirst, hrows]
  · intro offset hfrom hto
    have hline := hwithin offset hfrom hto
    have hcount := lineAt_le_length_lines e.content offset
    have hpos := one_le_lineAt e.content offset
    omega

end EditTool

/-! ## §4 What is told of blocks -/

namespace DiffTool

variable {w : Workplace} {r : Request} {raw bytes : Bytes} {content : Except Utf8.Unencodable Bytes}
  {note : Record} {answer : ToolResult}

/-- The words above the lines around the first block put in. -/
def contextTitle (line : Nat) : Text := "Post-edit context (around line " ++ Text.ofNat line ++ "):"

/-- What is told of blocks shows the first of them that is put in. Its
replacement stands after the text that was before its place, in which the
accepted places before it are replaced; of the line on which it starts the
title tells, and this line follows with its number and so many above and below
as is set, as far as there are any. A request of one block may be told more
after them. -/
def Shows (w : Workplace) (blocks : List Block) (old new told : Text) : Prop :=
  ∃ q ∈ placements old w.settings.hintWindow blocks, ∃ before after qs,
    (applyBlocks old w.settings.hintWindow blocks).content = new ∧
    (applyBlocks old w.settings.hintWindow blocks).firstApplied? = some q.index ∧
    new = before ++ (q.replacement ++ after) ∧
    qs.Perm ((placements old w.settings.hintWindow blocks).filter fun p =>
      p.place.span.start < q.place.span.start) ∧
    Replaced 0 (old.take q.place.span.start) (cuts qs) before ∧
    ∀ above below : Nat, w.settings.diffContextBefore = above →
      w.settings.diffContextAfter = below →
      ∃ head, lines told = head ++ contextTitle (lineAt new before.length) ::
        (numberedLines new (max 1 (lineAt new before.length - above))
            (min (lines new).length (lineAt new before.length + below)) ++
          if blocks.length = 1 ∧ w.settings.singleBlockNotice = true then [[], notice] else [])

theorem lines_contextTitle (line : Nat) : lines (contextTitle line) = [contextTitle line] := by
  have hbefore : lf ∉ ofString "Post-edit context (around line " := by decide
  have hafter : lf ∉ ofString "):" := by decide
  refine lines_of_notMem ?_
  simp only [contextTitle, List.mem_append, not_or]
  exact ⟨⟨hbefore, lf_notMem_ofNat line⟩, hafter⟩

theorem of_rewrite (h : decide w r raw = .rewrite content note answer) :
    (applyBlocks (contentOf raw) w.settings.hintWindow r.blocks).succeeded = true ∧
      answer.text = report w r (applyBlocks (contentOf raw) w.settings.hintWindow r.blocks) := by
  simp only [decide] at h
  split at h
  · cases h
  · rename_i hsucceeded
    split at h
    · cases h
    · cases h
      exact ⟨by simpa [contentOf] using hsucceeded, rfl⟩

/-- Where a block is put in, the first line told is that of the first one. -/
theorem exists_first {p : Patched} (h : p.succeeded = true) :
    ∃ i matched result strategy, p.firstApplied? = some i ∧
      p.outcomes[i]? = some (.applied matched result strategy) ∧ firstLine? p = some result := by
  obtain ⟨text, os⟩ := p
  have hsome : ∃ o ∈ os, o.isApplied = true := by
    simpa [Patched.succeeded, Patched.applied] using h
  clear h
  induction os with
  | nil => simp at hsome
  | cons o os ih =>
    cases o with
    | applied matched result strategy =>
      refine ⟨0, matched, result, strategy, ?_, rfl, rfl⟩
      simp [Patched.firstApplied?, List.findIdx?_cons, Outcome.isApplied]
    | failed matched reason =>
      have hrest : ∃ o ∈ os, o.isApplied = true := by simpa [Outcome.isApplied] using hsome
      obtain ⟨i, matched, result, strategy, hi, hout, hline⟩ := ih hrest
      refine ⟨i + 1, matched, result, strategy, ?_, hout, hline⟩
      simpa [Patched.firstApplied?, List.findIdx?_cons, Outcome.isApplied] using hi

theorem exists_lines_report (w : Workplace) (r : Request) {p : Patched} {line : Nat}
    (h : firstLine? p = some line) :
    ∃ head, lines (report w r p) = head ++ contextTitle line ::
      (lines (Excerpt.aroundLine p.content line w.settings.diffContextBefore
          w.settings.diffContextAfter) ++
        if r.blocks.length = 1 ∧ w.settings.singleBlockNotice = true then [[], notice] else []) := by
  have hnotice : lines notice = [notice] := lines_of_notMem (by decide +kernel)
  have hlast : (if r.blocks.length = 1 ∧ w.settings.singleBlockNotice = true
      then [[], notice] else []).flatMap lines =
        if r.blocks.length = 1 ∧ w.settings.singleBlockNotice = true then [[], notice] else [] := by
    split
    · rw [List.flatMap_cons, List.flatMap_singleton, hnotice]
      rfl
    · rfl
  have hcontext (excerpt : Text) : [[], contextTitle line, excerpt].flatMap lines =
      [[], contextTitle line] ++ lines excerpt := by
    rw [List.flatMap_cons, List.flatMap_cons, List.flatMap_singleton, lines_contextTitle]
    rfl
  simp only [report, h, contextLines]
  rw [lines_unlines (by simp), List.flatMap_append, List.flatMap_append, hlast, ← contextTitle,
    hcontext]
  have hshape (xs ys zs : List Text) : xs ++ ([[], contextTitle line] ++ ys) ++ zs =
      (xs ++ [[]]) ++ contextTitle line :: (ys ++ zs) := by
    simp
  exact ⟨_, hshape _ _ _⟩

theorem shows_of_rewrite (h : decide w r raw = .rewrite (.ok bytes) note answer) :
    ∃ new, new ≠ contentOf raw ∧ bytes = written (endingOf raw) new ∧
      Shows w r.blocks (contentOf raw) new answer.text := by
  obtain ⟨hdiffers, hcontent, -⟩ := of_decide_rewrite h
  obtain ⟨hsucceeded, htext⟩ := of_rewrite h
  obtain ⟨i, matched, result, strategy, hi, hout, hfirst⟩ := exists_first hsucceeded
  obtain ⟨q, hq, rfl, -, -, hresult⟩ := exists_placement_of_applied hout
  have hsel := selection_placements (contentOf raw) w.settings.hintWindow r.blocks
  obtain ⟨before, after, qs, hcut, hqs, hbefore, hlength, -⟩ := hsel.exists_before hq
  obtain ⟨head, hhead⟩ := exists_lines_report w r hfirst
  have hline : result = lineAt (applyBlocks (contentOf raw) w.settings.hintWindow r.blocks).content
      before.length := by
    change (applyBlocks _ _ _).content = _ at hcut
    rw [hresult, ← hlength, hcut, lineOf_append, lineAt_append]
  refine ⟨_, hdiffers, eq_written_of_tryEncode hcontent.symm, q, hq, before, after, qs, rfl, hi,
    hcut, hqs, hbefore, fun above below habove hbelow => ⟨head, ?_⟩⟩
  rw [habove, hbelow, Excerpt.lines_aroundLine above below (hline ▸ one_le_lineAt _ _)
    (hline ▸ lineAt_le_length_lines _ _), hline] at hhead
  rw [htext, hhead]

end DiffTool

/-! ## §5 Calls that change a file -/

/-- Where the editing of a file writes, it writes what was decided on the
content read, and ends well. -/
theorem Course.of_write {place target : Text} {absent : Refusal} {decide : Bytes → Decision}
    {es : List Event} {out : Except Failure ToolResult} {content : Bytes}
    (h : Course place absent decide es out) (hwrite : (target, content, true) ∈ writes es) :
    target = place ∧ ∃ raw note answer, .read place (.ok raw) ∈ es ∧
      decide raw = .rewrite (.ok content) note answer ∧ out = .ok answer := by
  cases h with
  | @written raw _ note answer decided =>
    cases List.mem_singleton.mp hwrite
    exact ⟨rfl, raw, note, answer, by simp, decided, rfl⟩
  | _ => simp [writes, Event.write?, Except.isOk, Except.toBool] at hwrite

/-- What a call tells shows where it changed the text of a file first. -/
inductive Tool.Shows (w : Workplace) : Tool → Value → (old new told : Text) → Prop
  | edit {fields : List (Value × Value)} {r : EditTool.Request} {old new told : Text}
      (request : EditTool.readRequest fields = pure r) (search : r.search ≠ [])
      (shown : EditTool.Shows w r old new told) : Shows w .edit (.mapping fields) old new told
  | diff {fields : List (Value × Value)} {diff old new told : Text} {blocks : List Block}
      (diff_given : Value.field? fields "diff" = some (.text diff))
      (blocks_read : readBlocks diff = .ok blocks)
      (shown : DiffTool.Shows w blocks old new told) : Shows w .diff (.mapping fields) old new told

theorem Tool.Attempt.shows {w : Workplace} {t : Tool} {args : Value} {es : List Event}
    {place : Text} {content : Bytes} {out : Except Failure ToolResult}
    (h : Attempt w t args es out) (hthere : .has place true ∈ es)
    (hwrite : (place, content, true) ∈ writes es) :
    ∃ raw new answer, .read place (.ok raw) ∈ es ∧ out = .ok answer ∧ new ≠ contentOf raw ∧
      content = written (endingOf raw) new ∧ t.Shows w args (contentOf raw) new answer.text := by
  cases h with
  | cancelled => simp [writes, Event.write?] at hwrite
  | rejected _ _ => simp [writes, Event.write?] at hwrite
  | created _ _ _ course => cases course <;> simp [writes, Event.write?] at hthere hwrite
  | edited request _ search _ expects course =>
    obtain ⟨rfl, raw, note, answer, hread, hdecided, rfl⟩ := course.of_write hwrite
    obtain ⟨new, hdiffers, hcontent, hshown⟩ := EditTool.shows_of_rewrite expects hdecided
    exact ⟨raw, new, answer, List.mem_cons_of_mem _ hread, rfl, hdiffers, hcontent,
      .edit request search hshown⟩
  | patched _ diff_given blocks_read course =>
    obtain ⟨rfl, raw, note, answer, hread, hdecided, rfl⟩ := course.of_write hwrite
    obtain ⟨new, hdiffers, hcontent, hshown⟩ := DiffTool.shows_of_rewrite hdecided
    exact ⟨raw, new, answer, List.mem_cons_of_mem _ hread, rfl, hdiffers, hcontent,
      .diff diff_given blocks_read hshown⟩

section Calls

variable {m : Type → Type} {τ : Type} [Monad m] [LawfulMonad m] [Surroundings m] [Stateful m τ]

/-- A call that writes to a file that is there shows what it changed first,
whatever the surroundings. It has read the file and puts another text there,
with the line endings of the file. The answer is that of a success, and in it
stand the lines of this text around the first place replaced, or around the
first block put in, with their numbers. -/
theorem changed_file_is_shown {t : Tool} {w : Workplace} {args : Value} {signal : Signal} {s s' : τ}
    {answer : ToolResult} {place : Text} {content : Bytes}
    (hrun : Stateful.exec (runTool (m := m) signal (t.execute w args)) s = (.ok answer, s'))
    (hthere : .has place true ∈ (t.execute w args).events m signal (0, s))
    (hwrite : (place, content, true) ∈ writes ((t.execute w args).events m signal (0, s))) :
    answer.success = true ∧
      ∃ raw new, .read place (.ok raw) ∈ (t.execute w args).events m signal (0, s) ∧
        new ≠ contentOf raw ∧ content = written (endingOf raw) new ∧
        t.Shows w args (contentOf raw) new answer.text := by
  rw [exec_runTool, Prod.mk.injEq] at hrun
  have hfollow : Run (t.execute w args) ((t.execute w args).events m signal (0, s))
      ((t.execute w args).follow m signal (0, s)).1 :=
    run_events ..
  rw [hrun.1] at hfollow
  obtain ⟨reached, hattempt, hout⟩ := Tool.run_execute hfollow
  obtain ⟨raw, new, answer', hread, rfl, hdiffers, hcontent, hshown⟩ :=
    hattempt.shows (List.mem_filter.mpr ⟨hthere, rfl⟩) (by rwa [writes_quiet])
  obtain hsettled | ⟨f, hf, -⟩ := hout
  · obtain rfl := Except.ok.inj hsettled
    exact ⟨hattempt.success.1, raw, new, (List.mem_filter.mp hread).1, hdiffers, hcontent, hshown⟩
  · cases hf

end Calls

/-- A workplace where one line is shown above and below an edit, and of blocks
the line of the first one and the next. -/
def narrowWorkplace : Workplace :=
  ⟨"/w", "/home", { editContextLines := 1, diffContextBefore := 0, diffContextAfter := 1 }⟩

/-- A file with the lines `a`, `b`, `c` and `d`. -/
def Site.ofFourLines : Site Memory := .ofFile [97, 13, 10, 98, 13, 10, 99, 13, 10, 100, 13, 10]

/-- An edit and a block that put one line in place of two of these, each with
rows that are then shown. -/
def fourLineCalls : List (Tool × List (Value × Value) × List Text) :=
  [(.edit, textFields [("file_path", "a.txt"), ("old_string", "b\nc"), ("new_string", "x")],
      ["1\ta", "2\tx", "3\td"]),
    (.diff, textFields [("file_path", "a.txt"),
      ("diff", "<<<<<<< SEARCH\nb\nc\n=======\nx\n>>>>>>> REPLACE")], ["2\tx", "3\td"])]

/-- Both calls show the line they put in, with its number among the lines left. -/
theorem lines_left_are_shown :
    fourLineCalls.length = 2 ∧ ∀ c ∈ fourLineCalls, ∃ answer s' raw new,
      Stateful.exec (runTool (m := StateM (Site Memory)) none
        (c.1.execute narrowWorkplace (.mapping c.2.1))) .ofFourLines = (.ok answer, s') ∧
      c.1.Shows narrowWorkplace (.mapping c.2.1) (contentOf raw) new answer.text ∧
      c.2.2 <:+: lines answer.text := by
  refine ⟨rfl, fun c hc => ?_⟩
  have hthere : ∀ c ∈ fourLineCalls, ((c.1.execute narrowWorkplace (.mapping c.2.1)).events
      (StateM (Site Memory)) none (0, .ofFourLines)).any (fun
        | .has path there => there && path == ofString "/w/a.txt"
        | _ => false) = true := by
    decide +kernel
  have hwrites : ∀ c ∈ fourLineCalls, writes ((c.1.execute narrowWorkplace (.mapping c.2.1)).events
      (StateM (Site Memory)) none (0, .ofFourLines)) =
        [(ofString "/w/a.txt", [97, 13, 10, 120, 13, 10, 100, 13, 10], true)] := by
    decide +kernel
  have hrows : ∀ c ∈ fourLineCalls, (Stateful.exec (runTool (m := StateM (Site Memory)) none
      (c.1.execute narrowWorkplace (.mapping c.2.1))) .ofFourLines).1.toOption.any
        (fun answer => c.2.2 <:+: lines answer.text) = true := by
    decide +kernel
  obtain ⟨e, he, hhas⟩ := List.any_eq_true.mp (hthere c hc)
  obtain rfl : e = .has (ofString "/w/a.txt") true := by
    cases e with
    | has path there =>
      simp only [Bool.and_eq_true, beq_iff_eq] at hhas
      rw [hhas.1, hhas.2]
    | _ => cases hhas
  have hsuccess := hrows c hc
  cases hrun : Stateful.exec (runTool (m := StateM (Site Memory)) none
      (c.1.execute narrowWorkplace (.mapping c.2.1))) .ofFourLines with
  | mk out s' =>
    rw [hrun] at hsuccess
    cases out with
    | error f => cases hsuccess
    | ok answer =>
      obtain ⟨-, raw, new, -, -, -, hshown⟩ :=
        changed_file_is_shown hrun he ((hwrites c hc).symm ▸ List.mem_singleton_self _)
      exact ⟨answer, s', raw, new, rfl, hshown, by simpa [Except.toOption] using hsuccess⟩

end Amend
