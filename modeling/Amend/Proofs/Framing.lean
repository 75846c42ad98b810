/-
Amend.Proofs.Framing — what a call leaves alone in the bytes of a file.

A tool works on the text of a file with its lines ending in line feeds; the
file holds bytes, with its own line endings. Writing such a text is a
homomorphism (`written_append`), so a replacement of spans in the text is
one of spans in the bytes (`Replaced.written`), and each of these holds just
what is written for the symbols replaced (`held_written`). The file itself
is what its text is written as whenever its line endings agree; one whose
line endings do not is unified as a whole by any edit.

  §1 Spans of symbols and of bytes.
  §2 Applying blocks to a file.
  §3 Editing a file.
-/
import Amend.Proofs.Encoding
import Amend.Proofs.Patching
import Amend.Proofs.Stores

namespace Amend

open Text

/-! ## §1 Spans of symbols and of bytes -/

/-- The bytes of a text whose lines are to end as `e` says. -/
def written (e : LineEnding) (t : Text) : Bytes := Utf8.encode (LineEnding.restore t e)

@[simp] theorem written_nil (e : LineEnding) : written e [] = [] := rfl

@[simp] theorem written_append (e : LineEnding) (s t : Text) :
    written e (s ++ t) = written e s ++ written e t := by
  simp [written, LineEnding.restore, LineEnding.expand]

namespace Span

variable {α : Type}

/-- The members of a list that a span holds. -/
def held (s : Span) (t : List α) : List α := (t.drop s.start).take s.length

/-- The span of the bytes that are written for the symbols a span holds. -/
def written (e : LineEnding) (content : Text) (s : Span) : Span :=
  ⟨(Amend.written e (content.take s.start)).length, (Amend.written e (content.take s.stop)).length⟩

theorem held_append (before x after : List α) :
    (⟨before.length, before.length + x.length⟩ : Span).held (before ++ (x ++ after)) = x := by
  simp [held, length]

theorem held_written (e : LineEnding) (content : Text) {s : Span} (h : s.start ≤ s.stop) :
    (s.written e content).held (Amend.written e content) = Amend.written e (slice content s) := by
  have hcut : content.take s.start ++ (slice content s ++ content.drop s.stop) = content :=
    append_slice_append h
  have hstop : content.take s.stop = content.take s.start ++ slice content s := by
    rw [slice, length, ← List.take_add, Nat.add_sub_cancel' h]
  have hspan : s.written e content =
      ⟨(Amend.written e (content.take s.start)).length,
        (Amend.written e (content.take s.start)).length +
          (Amend.written e (slice content s)).length⟩ := by
    rw [written, hstop, written_append, List.length_append]
  conv_lhs => rw [← hcut, written_append, written_append, hcut, hspan]
  exact held_append ..

end Span

/-- What is replaced in a text is replaced in its bytes. The part of the
text before offset `pos` is `before`. -/
theorem Replaced.written_from (e : LineEnding) {pos : Nat} {t u : Text} {ps : List (Span × Text)}
    (h : Replaced pos t ps u) : ∀ before : Text, before.length = pos →
      Replaced (written e before).length (written e t)
        (ps.map fun p => (p.1.written e (before ++ t), written e p.2)) (written e u) := by
  induction h with
  | rest =>
    intro before _
    exact .rest
  | @cut pos gap old new t u ps _ ih =>
    rintro before rfl
    have hrest := ih (before ++ (gap ++ old)) (by simp [Nat.add_assoc])
    have hsame : before ++ (gap ++ old) ++ t = before ++ (gap ++ (old ++ t)) := by simp
    have hgap : (before ++ (gap ++ (old ++ t))).take (before.length + gap.length) = before ++ gap := by
      rw [← List.append_assoc, ← List.length_append, List.take_left]
    have hold : (before ++ (gap ++ (old ++ t))).take (before.length + gap.length + old.length) =
        before ++ (gap ++ old) := by
      rw [← hsame, List.take_left' (by simp [Nat.add_assoc])]
    rw [hsame] at hrest
    simp only [List.map_cons, Span.written, hgap, hold, written_append, List.length_append] at hrest ⊢
    rw [← Nat.add_assoc]
    exact .cut (by simpa [Nat.add_assoc] using hrest)

theorem Replaced.written (e : LineEnding) {t u : Text} {ps : List (Span × Text)}
    (h : Replaced 0 t ps u) :
    Replaced 0 (Amend.written e t) (ps.map fun p => (p.1.written e t, Amend.written e p.2))
      (Amend.written e u) :=
  h.written_from e [] rfl

/-! ## §2 Applying blocks to a file -/

/-- The text a tool works on when a file holds these bytes. -/
def contentOf (raw : Bytes) : Text := LineEnding.normalize (Utf8.decode raw)

/-- How the lines of a file end, as a tool takes it. -/
def endingOf (raw : Bytes) : LineEnding := LineEnding.detect (Utf8.decode raw)

theorem encodable_contentOf (raw : Bytes) : Utf8.Encodable (contentOf raw) :=
  Utf8.encodable_normalize.mpr (Utf8.encodable_decode raw)

theorem eq_written_of_tryEncode {t : Text} {e : LineEnding} {bs : Bytes}
    (h : Utf8.tryEncode (LineEnding.restore t e) = .ok bs) : bs = written e t :=
  (Utf8.tryEncode_eq_ok_iff.mp h).2

theorem written_contentOf (raw : Bytes) :
    written (endingOf raw) (contentOf raw) = unified 13 10 raw :=
  Utf8.written_decode raw

variable {σ : Type} [FileStore (StateM σ)] [LawfulStore σ]

namespace DiffTool

variable {w : Workplace} {r : Request} {raw : Bytes} {content : Except Utf8.Unencodable Bytes}
  {note : Record} {answer : ToolResult}

/-- What is told of the blocks: how many there were, and how many were put in. -/
theorem details_eq : ∃ st, Details.patched
    (overallStrategy (applyBlocks (contentOf raw) w.settings.hintWindow r.blocks))
    (applyBlocks (contentOf raw) w.settings.hintWindow r.blocks).outcomes.length
    (applyBlocks (contentOf raw) w.settings.hintWindow r.blocks).applied =
      .patched st r.blocks.length
        (placements (contentOf raw) w.settings.hintWindow r.blocks).length :=
  ⟨_, by rw [length_outcomes, applied_eq_length]⟩

theorem of_decide_keep (h : decide w r raw = .keep answer) :
    (applyBlocks (contentOf raw) w.settings.hintWindow r.blocks).content = contentOf raw ∧
      ∃ st, answer.details = .patched st r.blocks.length
        (placements (contentOf raw) w.settings.hintWindow r.blocks).length := by
  simp only [decide] at h
  split at h
  · cases h
  · split at h
    · rename_i hsame
      cases h
      exact ⟨hsame, details_eq⟩
    · cases h

theorem of_decide_rewrite (h : decide w r raw = .rewrite content note answer) :
    (applyBlocks (contentOf raw) w.settings.hintWindow r.blocks).content ≠ contentOf raw ∧
      content = Utf8.tryEncode (LineEnding.restore
        (applyBlocks (contentOf raw) w.settings.hintWindow r.blocks).content (endingOf raw)) ∧
      ∃ st, answer.details = .patched st r.blocks.length
        (placements (contentOf raw) w.settings.hintWindow r.blocks).length := by
  simp only [decide] at h
  split at h
  · cases h
  · split at h
    · cases h
    · rename_i hdiffers
      cases h
      exact ⟨hdiffers, rfl, details_eq⟩

end DiffTool

variable {w : Workplace} {fields : List (Value × Value)} {signal : Signal} {s s' : Site σ}
  {before : Bytes} {answer : ToolResult}

/-- Applying blocks with success to a file whose lines end alike changes the
bytes of the places matched and no others. The places are those located for
the blocks put in, in the order of the file; for each of them the bytes
written for its symbols give way to those written for the replacement, with
the file's own line ending. -/
theorem patch_replaces_matched_bytes {path : Text}
    (hpath : Value.field? fields "file_path" = some (.text path))
    (hbefore : fileAt s.store (Path.resolve w.home w.base path) = some before)
    (huniform : Uniform 13 10 before)
    (hrun : (runTool signal (Tool.diff.execute w (.mapping fields)) : StateM (Site σ) _).run s =
      (.ok answer, s'))
    (hsuccess : answer.success = true) :
    ∃ diff blocks after, ∃ qs : List Placement, ∃ st,
      Value.field? fields "diff" = some (.text diff) ∧ readBlocks diff = .ok blocks ∧
      fileAt s'.store (Path.resolve w.home w.base path) = some after ∧
      answer.details = .patched st blocks.length qs.length ∧
      qs.Perm (placements (contentOf before) w.settings.hintWindow blocks) ∧
      qs.Pairwise (fun p q => p.place.span.stop ≤ q.place.span.start) ∧
      (∀ q ∈ qs, ∃ b, blocks[q.index]? = some b ∧
        b.locate (contentOf before) w.settings.hintWindow = some q.place ∧
        q.replacement = LineEnding.normalize b.replacement ∧
        (q.place.span.written (endingOf before) (contentOf before)).held before =
          written (endingOf before) (slice (contentOf before) q.place.span)) ∧
      Replaced 0 before
        (qs.map fun q => (q.place.span.written (endingOf before) (contentOf before),
          written (endingOf before) q.replacement)) after := by
  have hwritten : written (endingOf before) (contentOf before) = before := by
    rw [written_contentOf, (unified_eq_self_iff (by decide)).mpr huniform]
  obtain ⟨es, hattempt, htrace⟩ := Tool.call_success hrun hsuccess
  cases hattempt with
  | @patched _ path' diff blocks es _ hpath' hdiff hblocks hcourse =>
    obtain rfl : path = path' := by simpa [hpath] using hpath'
    obtain ⟨_, rfl, htrace⟩ := htrace
    obtain ⟨raw, hraw, hafter⟩ := hcourse.file htrace
    obtain rfl : raw = before := Option.some.inj (hraw.symm.trans hbefore)
    -- kept or written, the file holds what the blocks make of its text
    have hresult : fileAt s'.store (Path.resolve w.home w.base path) =
        some (written (endingOf raw)
          (applyBlocks (contentOf raw) w.settings.hintWindow blocks).content) ∧
        ∃ st, answer.details = .patched st blocks.length
          (placements (contentOf raw) w.settings.hintWindow blocks).length := by
      rcases hafter with ⟨hkeep, hafter⟩ | ⟨content, note, hrewrite, hafter⟩
      · obtain ⟨hsame, hdetails⟩ := DiffTool.of_decide_keep hkeep
        exact ⟨by rw [hafter, hsame, hwritten], hdetails⟩
      · obtain ⟨-, hcontent, hdetails⟩ := DiffTool.of_decide_rewrite hrewrite
        rw [← eq_written_of_tryEncode hcontent.symm]
        exact ⟨hafter, hdetails⟩
    obtain ⟨hafter, st, hdetails⟩ := hresult
    have hsel := selection_placements (contentOf raw) w.settings.hintWindow blocks
    have hperm := inOrder_perm (placements (contentOf raw) w.settings.hintWindow blocks)
    refine ⟨diff, blocks, _, inOrder (placements (contentOf raw) w.settings.hintWindow blocks), st,
      hdiff, hblocks, hafter, ?_, hperm, hsel.inOrder_pairwise, ?_, ?_⟩
    · rw [hdetails, hperm.length_eq]
    · intro q hq
      have hq' := hperm.mem_iff.mp hq
      obtain ⟨b, hb, hplace, hnew⟩ := hsel.located q hq'
      refine ⟨b, hb, hplace, hnew, ?_⟩
      have hheld := Span.held_written (endingOf raw) (contentOf raw)
        (Nat.le_of_lt (hsel.inside hq').1)
      rwa [hwritten] at hheld
    · have hreplaced := hsel.spliceAll_replaced.written (endingOf raw)
      rw [hwritten, cuts, List.map_map] at hreplaced
      exact hreplaced

/-- A block is put into a file of two lines, one of which cannot be decoded. -/
theorem patch_replaces_bytes_of_line :
    ∃ before fields after, before = [0xFF, 13, 10, 98, 13, 10] ∧ Uniform (13 : UInt8) 10 before ∧
      fields = [("file_path", "a.txt"),
        ("diff", "<<<<<<< SEARCH\nb\n=======\nB\n>>>>>>> REPLACE")] ∧
      fileAt (callOnFile .diff fields before).2.store "/w/a.txt" = some after ∧
      ∃ qs : List Placement, Replaced 0 before
        (qs.map fun q => (q.place.span.written (endingOf before) (contentOf before),
          written (endingOf before) q.replacement)) after := by
  have huniform : Uniform (13 : UInt8) 10 [0xFF, 13, 10, 98, 13, 10] :=
    (unified_eq_self_iff (by decide)).mp (by decide)
  obtain ⟨answer, hrun, hsuccess⟩ := exists_success (x := callOnFile .diff [("file_path", "a.txt"),
    ("diff", "<<<<<<< SEARCH\nb\n=======\nB\n>>>>>>> REPLACE")] [0xFF, 13, 10, 98, 13, 10])
    (by decide +kernel)
  have hpath : Value.field? (textFields [("file_path", "a.txt"),
      ("diff", "<<<<<<< SEARCH\nb\n=======\nB\n>>>>>>> REPLACE")]) "file_path" =
    some (.text (ofString "a.txt")) := field?_textFields _ _
  obtain ⟨-, -, after, qs, -, -, -, hafter, -, -, -, -, hreplaced⟩ :=
    patch_replaces_matched_bytes hpath (by decide +kernel) huniform hrun hsuccess
  exact ⟨_, _, after, rfl, huniform, rfl, hafter, qs, hreplaced⟩

/-! ## §3 Editing a file -/

namespace Replaced

variable {α : Type}

/-- What replacing parts of one length by parts of one length does to the
length of the whole. -/
theorem length_add {pos old new : Nat} {t u : List α} {ps : List (Span × List α)}
    (h : Replaced pos t ps u) (hparts : ∀ p ∈ ps, p.1.length = old ∧ p.2.length = new) :
    t.length + ps.length * new = u.length + ps.length * old := by
  induction h with
  | rest => simp
  | cut _ ih =>
    obtain ⟨⟨hold, hnew⟩, hrest⟩ := List.forall_mem_cons.mp hparts
    have hlen := ih hrest
    simp only [Span.length, Nat.add_sub_cancel_left] at hold hnew
    simp only [List.length_append, List.length_cons, Nat.add_mul, hold, hnew]
    omega

/-- What is in a list after replacing was there before or was put there. -/
theorem mem_or_mem {pos : Nat} {t u : List α} {ps : List (Span × List α)}
    (h : Replaced pos t ps u) {a : α} (ha : a ∈ u) : a ∈ t ∨ ∃ p ∈ ps, a ∈ p.2 := by
  induction h with
  | rest => exact .inl ha
  | @cut _ gap old new t u ps _ ih =>
    simp only [List.mem_append] at ha
    rcases ha with hgap | hnew | hu
    · exact .inl (List.mem_append_left _ hgap)
    · exact .inr ⟨_, List.mem_cons_self, hnew⟩
    · obtain ht | ⟨p, hp, hmem⟩ := ih hu
      · exact .inl (List.mem_append_right _ (List.mem_append_right _ ht))
      · exact .inr ⟨p, List.mem_cons_of_mem _ hp, hmem⟩

theorem subset_of_mem {pos : Nat} {t u : List α} {ps : List (Span × List α)}
    (h : Replaced pos t ps u) {p : Span × List α} (hp : p ∈ ps) : p.2 ⊆ u := by
  induction h with
  | rest => cases hp
  | @cut _ gap old new t u ps _ ih =>
    intro a ha
    rcases List.mem_cons.mp hp with rfl | hp
    · exact List.mem_append_right _ (List.mem_append_left _ ha)
    · exact List.mem_append_right _ (List.mem_append_right _ (ih hp ha))

/-- Where replacing left the list as it was, the first new part was there
before, if it is as long as the old one. -/
theorem held_of_unchanged {t u : List α} {s : Span} {new : List α} {ps : List (Span × List α)}
    (h : Replaced 0 t ((s, new) :: ps) u) (hu : u = t) (hlen : new.length = s.length) :
    s.held t = new := by
  cases h with
  | @cut _ gap old _ t u _ _ =>
    simp only [Span.length, Nat.zero_add, Nat.add_sub_cancel_left] at hlen ⊢
    rw [Span.held_append]
    exact (List.append_inj (List.append_cancel_left hu) hlen).1.symm

end Replaced

theorem Strategy.exact_spans_nil (content : Text) : Strategy.exact.spans content [] = [] :=
  List.eq_nil_iff_forall_not_mem.mpr fun _ ho =>
    (exact_finds_iff_append.mp (finds_of_mem_spans ho)).1 rfl

theorem Strategy.spans_ne_nil {strategy : Strategy} {content search : Text} {expected : Nat}
    (hpos : 0 < expected) (hcount : strategy.count content search = expected) :
    strategy.spans content search ≠ [] := by
  intro hnil
  rw [Strategy.count, hnil] at hcount
  exact absurd hcount (Nat.ne_of_lt hpos)

/-- To replace every occurrence of a text by another changes the text they
are in, if there are any. -/
theorem replaceAll_ne_self {content search new : Text} (hne : search ≠ new)
    (hsome : Strategy.exact.spans content search ≠ []) :
    replaceAll (literal search) content new ≠ content := by
  intro hsame
  have hlength : ∀ o ∈ Strategy.exact.spans content search, o.length = search.length := by
    intro o ho
    have hfinds := Strategy.finds_of_mem_spans ho
    rw [← length_slice hfinds.2.1, hfinds.2.2]
  have hreplaced := replaceAll_replaced (literal_bounded search) content new
  rw [hsame] at hreplaced
  change Replaced 0 content ((Strategy.exact.spans content search).map fun o => (o, new)) content
    at hreplaced
  obtain ⟨o, os, hos⟩ := List.exists_cons_of_ne_nil hsome
  have ho : o ∈ Strategy.exact.spans content search := by simp [hos]
  -- all occurrences are as long as the search text, so the lengths agree
  have hlen : new.length = search.length := by
    have hparts : ∀ p ∈ (Strategy.exact.spans content search).map fun o => (o, new),
        p.1.length = search.length ∧ p.2.length = new.length := by
      simpa using hlength
    have hadd := hreplaced.length_add hparts
    simp only [List.length_map, Nat.add_left_cancel_iff] at hadd
    exact Nat.eq_of_mul_eq_mul_left (List.length_pos_iff.mpr hsome) hadd
  rw [hos, List.map_cons] at hreplaced
  have hslice := (Strategy.finds_of_mem_spans ho).2.2
  exact hne (hslice.symm.trans (hreplaced.held_of_unchanged rfl (by rw [hlen, hlength o ho])))

/-- What comes of replacing a text that occurs can be written if and only if
the replacement can. -/
theorem encodable_replaceAll_iff {content search new : Text} (hcontent : Utf8.Encodable content)
    (hsome : Strategy.exact.spans content search ≠ []) :
    Utf8.Encodable (replaceAll (literal search) content new) ↔ Utf8.Encodable new := by
  have hreplaced := replaceAll_replaced (literal_bounded search) content new
  constructor
  · intro h s hs
    obtain ⟨o, os, hos⟩ := List.exists_cons_of_ne_nil hsome
    have hmem : (o, new) ∈ (spans (literal search) content).map fun o => (o, new) :=
      List.mem_map_of_mem (by rw [Strategy.spans, Strategy.matcher] at hos; simp [hos])
    exact h s (hreplaced.subset_of_mem hmem hs)
  · intro h s hs
    obtain hold | ⟨p, hp, hnew⟩ := hreplaced.mem_or_mem hs
    · exact hcontent s hold
    · obtain ⟨o, -, rfl⟩ := List.mem_map.mp hp
      exact h s hnew

namespace EditTool

variable {r : Request} {raw : Bytes} {content : Except Utf8.Unencodable Bytes} {note : Record}
  {answer : ToolResult}

theorem of_decide_rewrite (h : decide w r raw = .rewrite content note answer) :
    ∃ e, resolveEdit (contentOf raw) (LineEnding.normalize r.search)
      (LineEnding.normalize r.replacement) r.expected = .ok e ∧ e.content ≠ contentOf raw ∧
      content = Utf8.tryEncode (LineEnding.restore e.content (endingOf raw)) := by
  simp only [decide] at h
  split at h
  · cases h
  · rename_i e he
    split at h
    · cases h
    · rename_i hdiffers
      cases h
      exact ⟨e, he, hdiffers, rfl⟩

theorem resolveEdit_of_exact_count (replacement : Text) {content search : Text} {expected : Nat}
    (h : Strategy.exact.count content search = expected) :
    resolveEdit content search replacement expected =
      .ok ⟨replaceAll (literal search) content replacement,
        ⟨.exact, Strategy.exact.spans content search⟩⟩ := by
  rw [Strategy.count] at h
  simp [resolveEdit, findMatches, h, Except.map, Strategy.matcher]

/-- Where the search text occurs as often as is expected, it is decided to
write what comes of replacing it. -/
theorem decide_of_exact_count (hpos : 0 < r.expected)
    (hcount : Strategy.exact.count (contentOf raw) (LineEnding.normalize r.search) = r.expected)
    (hdiffers : LineEnding.normalize r.search ≠ LineEnding.normalize r.replacement) :
    ∃ note answer, answer.success = true ∧ decide w r raw =
      .rewrite (Utf8.tryEncode (LineEnding.restore
        (replaceAll (literal (LineEnding.normalize r.search)) (contentOf raw)
          (LineEnding.normalize r.replacement)) (endingOf raw))) note answer := by
  have hsome := Strategy.spans_ne_nil hpos hcount
  have hresolve := resolveEdit_of_exact_count (LineEnding.normalize r.replacement) hcount
  have hchanges := replaceAll_ne_self hdiffers hsome
  rw [contentOf] at hresolve hchanges
  refine ⟨_, _, ?_, by simp only [decide, hresolve, if_neg hchanges]; rfl⟩
  rfl

theorem encodable_restored_iff (hpos : 0 < r.expected)
    (hcount : Strategy.exact.count (contentOf raw) (LineEnding.normalize r.search) = r.expected) :
    Utf8.Encodable (LineEnding.restore
      (replaceAll (literal (LineEnding.normalize r.search)) (contentOf raw)
        (LineEnding.normalize r.replacement)) (endingOf raw)) ↔ Utf8.Encodable r.replacement := by
  rw [Utf8.encodable_restore, encodable_replaceAll_iff (encodable_contentOf raw)
    (Strategy.spans_ne_nil hpos hcount), Utf8.encodable_normalize]

theorem decide_of_encodable (hpos : 0 < r.expected)
    (hcount : Strategy.exact.count (contentOf raw) (LineEnding.normalize r.search) = r.expected)
    (hdiffers : LineEnding.normalize r.search ≠ LineEnding.normalize r.replacement)
    (hbytes : Utf8.Encodable r.replacement) :
    ∃ note answer, answer.success = true ∧ decide w r raw =
      .rewrite (.ok (written (endingOf raw) (replaceAll (literal (LineEnding.normalize r.search))
        (contentOf raw) (LineEnding.normalize r.replacement)))) note answer := by
  obtain ⟨note, answer, hsuccess, hdecide⟩ :=
    decide_of_exact_count (w := w) hpos hcount hdiffers
  rw [Utf8.tryEncode_of_encodable ((encodable_restored_iff hpos hcount).mpr hbytes)] at hdecide
  exact ⟨note, answer, hsuccess, hdecide⟩

theorem decide_of_not_encodable (hpos : 0 < r.expected)
    (hcount : Strategy.exact.count (contentOf raw) (LineEnding.normalize r.search) = r.expected)
    (hdiffers : LineEnding.normalize r.search ≠ LineEnding.normalize r.replacement)
    (hbytes : ¬ Utf8.Encodable r.replacement) :
    ∃ u note answer, decide w r raw = .rewrite (.error u) note answer := by
  obtain ⟨note, answer, -, hdecide⟩ := decide_of_exact_count (w := w) hpos hcount hdiffers
  obtain ⟨u, hu⟩ := Utf8.exists_error_of_not_encodable fun h =>
    hbytes ((encodable_restored_iff hpos hcount).mp h)
  rw [hu] at hdecide
  exact ⟨u, note, answer, hdecide⟩

end EditTool

/-- In a file that can be edited let the search text occur as often as is
expected. A call that is not cancelled then succeeds and replaces the bytes
of just these occurrences in what is left of the file when its line endings
are unified; that is the file itself if they agree. A request that changes
no text leaves the file, and so does one whose replacement has no bytes. -/
theorem edit_replaces_occurrence_bytes {r : EditTool.Request} {out : Except Fault ToolResult}
    (hrequest : EditTool.readRequest fields = pure r)
    (hfile : Editable s.store (Path.resolve w.home w.base r.path) before)
    (hcount : Strategy.exact.count (contentOf before) (LineEnding.normalize r.search) = r.expected)
    (hsilent : signal.Silent)
    (hrun : (runTool signal (Tool.edit.execute w (.mapping fields)) : StateM (Site σ) _).run s =
      (out, s')) :
    ∃ after, fileAt s'.store (Path.resolve w.home w.base r.path) = some after ∧
      (LineEnding.normalize r.search = LineEnding.normalize r.replacement → after = before) ∧
      (LineEnding.normalize r.search ≠ LineEnding.normalize r.replacement →
        ¬ Utf8.Encodable r.replacement → after = before ∧ ∀ answer, out ≠ .ok answer) ∧
      (LineEnding.normalize r.search ≠ LineEnding.normalize r.replacement →
        Utf8.Encodable r.replacement →
        (∀ answer, out = .ok answer → answer.success = true) ∧
        (∀ o ∈ Strategy.exact.spans (contentOf before) (LineEnding.normalize r.search),
          (o.written (endingOf before) (contentOf before)).held (unified 13 10 before) =
            written (endingOf before) (LineEnding.normalize r.search)) ∧
        Replaced 0 (unified 13 10 before)
          ((Strategy.exact.spans (contentOf before) (LineEnding.normalize r.search)).map fun o =>
            (o.written (endingOf before) (contentOf before),
              written (endingOf before) (LineEnding.normalize r.replacement))) after) ∧
      (unified 13 10 before = before ↔ Uniform 13 10 before) := by
  obtain ⟨reached, hattempt, htrace, hout⟩ := Tool.call_attempt hrun
  have hquiet := Tool.events_ne_cancelled .edit w (.mapping fields) hsilent s
  have hpos : 0 < r.expected := EditTool.expected_pos hrequest
  have hsearch : r.search ≠ [] := by
    intro hnil
    rw [hnil, LineEnding.normalize, Strategy.count, Strategy.exact_spans_nil] at hcount
    exact absurd hcount (Nat.ne_of_lt hpos)
  generalize quiet _ = es at hattempt htrace hquiet
  cases hattempt with
  | cancelled => simp at hquiet
  | rejected _ hrejects =>
    obtain ⟨_, rfl, hstore⟩ := htrace
    have hstays : fileAt s'.store (Path.resolve w.home w.base r.path) = some before := by
      rw [hstore]
      exact hfile.read
    cases hrejects with
    | arguments hunread => exact absurd rfl (hunread fields)
    | edit hunread => cases hrequest.symm.trans hunread
    | identical hr' _ hsame =>
      obtain rfl := EditTool.readRequest_injective hrequest hr'
      exact ⟨before, hstays, fun _ => rfl, fun hdiffers => absurd hsame hdiffers,
        fun hdiffers => absurd hsame hdiffers, unified_eq_self_iff (by decide)⟩
  | @created _ r' _ _ hr' _ hnil _ =>
    obtain rfl := EditTool.readRequest_injective hrequest hr'
    exact absurd hnil hsearch
  | @edited _ r' es _ hr' _ _ hdiffers hexpects hcourse =>
    obtain rfl := EditTool.readRequest_injective hrequest hr'
    obtain ⟨_, rfl, htrace⟩ := htrace
    have hcourse := hcourse.of_editable htrace hfile (List.forall_mem_cons.mp hquiet).2
    by_cases hbytes : Utf8.Encodable r.replacement
    case neg =>
      obtain ⟨u, note, answer, hdecide⟩ :=
        EditTool.decide_of_not_encodable (w := w) hexpects hcount hdiffers hbytes
      rw [hdecide] at hcourse
      obtain ⟨rfl, hafter⟩ := hcourse
      refine ⟨before, hafter, fun _ => rfl, fun _ _ => ⟨rfl, ?_⟩, fun _ h => absurd h hbytes,
        unified_eq_self_iff (by decide)⟩
      rintro answer' rfl
      obtain hsettled | ⟨f, hf⟩ := hout
      · cases hsettled
      · cases hf
    obtain ⟨note, answer, hsuccess, hdecide⟩ :=
      EditTool.decide_of_encodable (w := w) hexpects hcount hdiffers hbytes
    rw [hdecide] at hcourse
    obtain ⟨rfl, hafter⟩ := hcourse
    refine ⟨_, hafter, fun hsame => absurd hsame hdiffers, fun _ h => absurd hbytes h,
      fun _ _ => ⟨?_, ?_, ?_⟩, unified_eq_self_iff (by decide)⟩
    · rintro answer' rfl
      obtain hsettled | ⟨f, hf⟩ := hout
      · rwa [Except.ok.inj hsettled]
      · cases hf
    · intro o ho
      have hfinds := Strategy.finds_of_mem_spans ho
      rw [← written_contentOf, Span.held_written _ _ (Nat.le_of_lt hfinds.1), hfinds.2.2]
    · have hreplaced := (replaceAll_replaced (literal_bounded (LineEnding.normalize r.search))
        (contentOf before) (LineEnding.normalize r.replacement)).written (endingOf before)
      rw [written_contentOf, List.map_map] at hreplaced
      exact hreplaced

/-- Two characters are replaced by a line break in a file with an undecodable
byte and a return on its own. -/
theorem edit_replaces_bytes_of_pair :
    ∃ before fields after, before = [0xFF, 97, 13, 97, 98, 10] ∧
      fields = [("file_path", "a.txt"), ("old_string", "ab"), ("new_string", "\n")] ∧
      fileAt (callOnFile .edit fields before).2.store "/w/a.txt" = some after ∧
      Replaced 0 (unified 13 10 before) ((Strategy.exact.spans (contentOf before) "ab").map
        fun o => (o.written (endingOf before) (contentOf before),
          written (endingOf before) "\n")) after := by
  have hrequest : EditTool.readRequest (textFields [("file_path", "a.txt"), ("old_string", "ab"),
      ("new_string", "\n")]) = pure ⟨"a.txt", "ab", "\n", 1⟩ :=
    EditTool.readRequest_of_fields (field?_textFields _ _) (by decide +kernel)
      (field?_textFields _ _) (field?_textFields _ _) (field?_textFields _ _)
  have hfile : Editable (Site.ofFile [0xFF, 97, 13, 97, 98, 10]).store
      (Path.resolve "/home" "/w" "a.txt") [0xFF, 97, 13, 97, 98, 10] :=
    Memory.editable (by decide +kernel)
  obtain ⟨after, hafter, -, -, hdiffers, -⟩ :=
    edit_replaces_occurrence_bytes (w := ⟨"/w", "/home", {}⟩) hrequest hfile (by decide +kernel)
      (nofun : Signal.Silent none) rfl
  exact ⟨_, _, after, rfl, rfl, hafter, (hdiffers (by decide +kernel) (by decide +kernel)).2.2⟩

/-- In a file with both line endings a line that is not edited changes: a
return is put at its end. -/
theorem edit_changes_line_not_edited :
    ∃ before fields, before = [97, 13, 10, 98, 10, 99, 10] ∧
      fields = [("file_path", "a.txt"), ("old_string", "a"), ("new_string", "x")] ∧
      Strategy.exact.spans (contentOf before) "a" = [⟨0, 1⟩] ∧
      (callOnFile .edit fields before).1.toOption.map ToolResult.success = some true ∧
      fileAt (callOnFile .edit fields before).2.store "/w/a.txt" =
        some [120, 13, 10, 98, 13, 10, 99, 13, 10] ∧
      fileAt (callOnFile .edit fields before).2.store "/w/a.txt" ≠ some (120 :: before.tail) :=
  ⟨_, _, rfl, rfl, by decide +kernel, by decide +kernel, by decide +kernel, by decide +kernel⟩

end Amend
