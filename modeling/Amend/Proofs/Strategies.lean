/-
Amend.Proofs.Strategies — the places a strategy finds, and the edit that
replaces them.

What a strategy finds is said without its matcher: the search text itself,
a span of its shape, or a span of its words (`Strategy.Finds`). The scan
lists the greedy selection of these places (`Strategy.spans_greedy`), and
an edit that is carried out replaces just them, all at once
(`resolveEdit_replaces_matches`).

  §1 What a strategy finds.
  §2 Tolerant matches.
  §3 Edits carried out.
-/
import Amend.Proofs.Backtracking

namespace Amend

open Text

/-! ## §1 What a strategy finds -/

namespace Strategy

/-- The span of the content is a place of the search text: it is the same
text, it has the shape the search text is laid out in, or it begins and
ends with a word and has the same words. -/
def Finds : Strategy → (search content : Text) → Span → Prop
  | exact, search, content, s =>
    s.start < s.stop ∧ s.stop ≤ content.length ∧ slice content s = search
  | whitespace, search, content, s => ∃ l : Layout, l.text = search ∧ l.ShapedAt content s
  | tokens, search, content, s =>
    s.stop ≤ content.length ∧
      ∃ l : Layout, l.text = slice content s ∧ l.lead = [] ∧ l.trail = [] ∧
        l.words = Text.words search

theorem not_takes_never (content : Text) (s : Span) : ¬ Pattern.never.matcher.Takes content s := by
  rintro ⟨-, -, h⟩
  cases h

/-- A text without words has no layout. -/
theorem text_ne_of_space {search : Text} (h : ∀ c ∈ search, c.isSpace = true) (l : Layout) :
    l.text ≠ search := by
  intro hl
  have hwords := l.words_text
  rw [hl, words_of_space h] at hwords
  cases hwords

theorem whitespace_takes_iff {search content : Text} {s : Span} :
    (whitespace.matcher search).Takes content s ↔ whitespace.Finds search content s := by
  rcases space_or_layout search with hspace | ⟨l, rfl⟩
  · constructor
    · intro h
      rw [matcher, Pattern.tolerant_of_space hspace] at h
      exact absurd h (not_takes_never content s)
    · rintro ⟨l, hl, -⟩
      exact absurd hl (text_ne_of_space hspace l)
  · rw [matcher, l.tolerant_text]
    constructor
    · exact fun h => ⟨l, rfl, Layout.takes_pieces_iff.mp h⟩
    · rintro ⟨l', hl, hs⟩
      obtain rfl := Layout.text_injective hl
      exact Layout.takes_pieces_iff.mpr hs

theorem tokens_takes_iff {search content : Text} {s : Span} :
    (tokens.matcher search).Takes content s ↔ tokens.Finds search content s := by
  rcases space_or_layout search with hspace | ⟨l, rfl⟩
  · constructor
    · intro h
      rw [matcher, Pattern.tokens_of_space hspace] at h
      exact absurd h (not_takes_never content s)
    · rintro ⟨-, l, -, -, -, hwords⟩
      rw [words_of_space hspace] at hwords
      cases hwords
  · have hiff : (tokens.matcher l.text).Takes content s ↔ l.bare.ShapedAt content s := by
      rw [matcher, l.tokens_text]
      exact Layout.takes_pieces_iff
    rw [hiff, Finds, l.words_text]
    constructor
    · rintro ⟨before, x, after, rfl, rfl, hx⟩
      rw [slice_append]
      refine ⟨?_, Layout.bare_shape_iff.mp hx⟩
      simp only [List.length_append]
      omega
    · rintro ⟨hle, l', hl', hshape⟩
      have hpos : 0 < s.length := by
        rw [← length_slice hle, ← hl']
        exact List.length_pos_iff.mpr l'.text_ne_nil
      simp only [Span.length] at hpos
      refine ⟨content.take s.start, slice content s, content.drop s.stop,
        (append_slice_append (by omega)).symm, ?_, Layout.bare_shape_iff.mpr ⟨l', hl', hshape⟩⟩
      rw [length_slice hle, List.length_take, Nat.min_eq_left (by omega)]
      simp only [Span.length, Nat.add_sub_cancel' (show s.start ≤ s.stop by omega)]

/-- A strategy's matcher takes the places the strategy finds. -/
theorem takes_iff {st : Strategy} {search content : Text} {s : Span} :
    (st.matcher search).Takes content s ↔ st.Finds search content s := by
  cases st with
  | exact => exact takes_literal_iff
  | whitespace => exact whitespace_takes_iff
  | tokens => exact tokens_takes_iff

theorem pattern_bounded (p : Pattern) : p.matcher.Bounded := by
  cases p with
  | never =>
    intro t n h
    cases h
  | pieces ps => exact Piece.takeAll_bounded ps

theorem matcher_bounded (st : Strategy) (search : Text) : (st.matcher search).Bounded := by
  cases st with
  | exact => exact literal_bounded search
  | whitespace => exact pattern_bounded _
  | tokens => exact pattern_bounded _

/-- A place found holds something and lies in the text. -/
theorem Finds.lt_and_le {st : Strategy} {search content : Text} {s : Span}
    (h : st.Finds search content s) : s.start < s.stop ∧ s.stop ≤ content.length := by
  obtain ⟨hlt, hle, -⟩ := takes_iff.mpr h
  exact ⟨hlt, hle⟩

/-- One place at most starts at an offset. -/
theorem Finds.unique {st : Strategy} {search content : Text} {s t : Span}
    (hs : st.Finds search content s) (ht : st.Finds search content t)
    (h : s.start = t.start) : s = t :=
  Matcher.Takes.unique (takes_iff.mpr hs) (takes_iff.mpr ht) h

/-- The places listed are the greedy selection of those the strategy finds. -/
theorem spans_greedy (st : Strategy) (content search : Text) :
    Greedy (st.Finds search content) 0 (st.spans content search) :=
  (Text.spans_greedy (st.matcher_bounded search) content).congr fun _ => takes_iff

theorem finds_of_mem_spans {st : Strategy} {content search : Text} {s : Span}
    (hs : s ∈ st.spans content search) : st.Finds search content s :=
  ((st.spans_greedy content search).mem (fun _ hs => Nat.le_of_lt hs.lt_and_le.1) s hs).1

/-- The place that is the only one listed is found, and none starts before
it. -/
theorem finds_of_spans_eq_singleton {st : Strategy} {content search : Text} {s : Span}
    (h : st.spans content search = [s]) : st.Finds search content s ∧
      ∀ t, st.Finds search content t → s.start ≤ t.start := by
  have hgreedy := st.spans_greedy content search
  rw [h] at hgreedy
  cases hgreedy with
  | next holds _ leftmost _ => exact ⟨holds, fun t ht => leftmost t ht (Nat.zero_le _)⟩

theorem not_finds_of_spans_eq_nil {st : Strategy} {content search : Text}
    (h : st.spans content search = []) (s : Span) : ¬ st.Finds search content s := by
  have hgreedy := st.spans_greedy content search
  rw [h] at hgreedy
  cases hgreedy with
  | done none_left => exact fun hs => Nat.not_lt_zero _ (none_left s hs)

/-- However white space may differ, the words of a place are those searched
for. -/
theorem Finds.words_slice {st : Strategy} {search content : Text} {s : Span}
    (h : st.Finds search content s) : Text.words (slice content s) = Text.words search := by
  cases st with
  | exact => rw [h.2.2]
  | whitespace =>
    obtain ⟨l, rfl, before, x, after, rfl, rfl, hx⟩ := h
    obtain ⟨l', rfl, hwords, -⟩ := hx.exists_layout
    rw [slice_append, l'.words_text, l.words_text, hwords]
  | tokens =>
    obtain ⟨-, l, hl, -, -, hwords⟩ := h
    rw [← hl, l.words_text, hwords]

end Strategy

/-! ## §2 Tolerant matches -/

/-- The tolerant matches of a text are the greedy selection, from left to
right and without overlap, of the spans that have the shape of the search
text, of which one at most starts anywhere. They take as many line breaks
at either end as the search text has there, stop at its last line break if
it ends with one, and are what a search with backtracking finds. -/
theorem tolerant_spans_greedy_shapes (search content : Text)
    (hword : ∃ c ∈ search, c.isSpace = false) :
    ∃ l : Layout, l.text = search ∧
      (∀ ss, Greedy (l.ShapedAt content) 0 ss ↔ ss = Strategy.whitespace.spans content search) ∧
      (∀ s t, l.ShapedAt content s → l.ShapedAt content t → s.start = t.start → s = t) ∧
      (∀ s, l.ShapedAt content s → ∃ l' : Layout, l'.text = slice content s ∧ l'.words = l.words ∧
        l'.lead.count lf = l.lead.count lf ∧ l'.trail.count lf = l.trail.count lf ∧
        (l.trail.getLast? = some lf → l'.trail.getLast? = some lf)) ∧
      Strategy.whitespace.spans content search =
        Text.spans (Pattern.tolerant search).backtracking content := by
  obtain ⟨l, rfl⟩ := exists_layout hword
  have hfinds : ∀ s, Strategy.whitespace.Finds l.text content s ↔ l.ShapedAt content s := by
    intro s
    constructor
    · rintro ⟨l', hl, hs⟩
      obtain rfl := Layout.text_injective hl
      exact hs
    · exact fun hs => ⟨l, rfl, hs⟩
  have hone : ∀ s t, l.ShapedAt content s → l.ShapedAt content t → s.start = t.start → s = t :=
    fun s t hs ht => Strategy.Finds.unique ((hfinds s).mpr hs) ((hfinds t).mpr ht)
  have hgreedy : Greedy (l.ShapedAt content) 0 (Strategy.whitespace.spans content l.text) :=
    (Strategy.whitespace.spans_greedy content l.text).congr hfinds
  refine ⟨l, rfl, fun ss => ⟨fun h => h.unique hone hgreedy, ?_⟩, hone, ?_, ?_⟩
  · rintro rfl
    exact hgreedy
  · rintro s ⟨before, x, after, rfl, rfl, hx⟩
    rw [slice_append]
    exact hx.exists_layout
  · rw [backtracking_tolerant]
    rfl

/-- The line break after the last word is matched, and the indentation of
the line after it is left alone. -/
theorem tolerant_match_leaves_next_indent :
    (∃ c ∈ ofString "if x:\n    foo()\n", c.isSpace = false) ∧
      ∃ l : Layout, l.text = ofString "if x:\n    foo()\n" ∧
        ∀ ss, Greedy (l.ShapedAt (ofString "if x:\n\tfoo() \n\tbaz()\n")) 0 ss ↔
          ss = [⟨0, 14⟩] := by
  have hword : ∃ c ∈ ofString "if x:\n    foo()\n", c.isSpace = false := by decide
  have hspans : Strategy.whitespace.spans (ofString "if x:\n\tfoo() \n\tbaz()\n")
      (ofString "if x:\n    foo()\n") = [⟨0, 14⟩] := by decide
  obtain ⟨l, hl, hgreedy, -⟩ :=
    tolerant_spans_greedy_shapes _ (ofString "if x:\n\tfoo() \n\tbaz()\n") hword
  rw [hspans] at hgreedy
  exact ⟨hword, l, hl, hgreedy⟩

/-! ## §3 Edits carried out -/

theorem findMatches_ok {content search : Text} {expected : Int} {m : Match}
    (h : findMatches content search expected = .ok m) :
    m.spans = m.strategy.spans content search ∧ (m.spans.length : Int) = expected := by
  simp only [findMatches] at h
  split at h
  · rename_i hcount
    cases h
    exact ⟨rfl, hcount⟩
  · split at h
    · rename_i hcount
      cases h
      exact ⟨rfl, hcount⟩
    · split at h
      · rename_i hcount
        cases h
        exact ⟨rfl, hcount⟩
      · cases h

/-- An edit carried out replaces as many places as were expected, at once
and by the replacement as it stands. The places lie in the text, hold
something, do not overlap and start at the positions told; each is a place
of the strategy committed, and no other place of it starts outside them. -/
theorem resolveEdit_replaces_matches {content search replacement : Text} {expected : Int}
    {e : Edit} (h : resolveEdit content search replacement expected = .ok e) :
    ∃ ss : List Span,
      (ss.length : Int) = expected ∧ e.found.count = ss.length ∧
      e.found.positions = ss.map Span.start ∧ e.found.positions.Pairwise (· < ·) ∧
      (∀ s ∈ ss, s.start < s.stop ∧ s.stop ≤ content.length) ∧
      ss.Pairwise (fun s t => s.stop ≤ t.start) ∧
      Replaced 0 content (ss.map fun s => (s, replacement)) e.content ∧
      (∀ s ∈ ss, if e.found.strategy = .exact then slice content s = search
        else Text.words (slice content s) = Text.words search) ∧
      ∀ t, e.found.strategy.Finds search content t →
        ∃ s ∈ ss, s.start ≤ t.start ∧ t.start < s.stop := by
  rw [resolveEdit] at h
  cases hm : findMatches content search expected with
  | error m => simp [hm, Except.map] at h
  | ok m =>
    obtain ⟨hspans, hcount⟩ := findMatches_ok hm
    simp only [hm, Except.map, Except.ok.injEq] at h
    subst h
    have hle : ∀ s, m.strategy.Finds search content s → s.start ≤ s.stop :=
      fun s hs => Nat.le_of_lt hs.lt_and_le.1
    have hgreedy := m.strategy.spans_greedy content search
    rw [← hspans] at hgreedy
    have hmem : ∀ s ∈ m.spans, m.strategy.Finds search content s :=
      fun s hs => (hgreedy.mem hle s hs).1
    have hordered := hgreedy.ordered hle
    refine ⟨m.spans, hcount, rfl, rfl, ?_, fun s hs => (hmem s hs).lt_and_le, hordered, ?_, ?_,
      fun t ht => hgreedy.covers ht (Nat.zero_le _)⟩
    · rw [Match.positions, List.pairwise_map]
      refine List.Pairwise.imp_of_mem (fun {s t} hs _ hst => ?_) hordered
      have := (hmem s hs).lt_and_le.1
      omega
    · rw [hspans]
      exact replaceAll_replaced (m.strategy.matcher_bounded search) content replacement
    · intro s hs
      split
      · rename_i hexact
        have hfinds := hmem s hs
        rw [hexact] at hfinds
        exact hfinds.2.2
      · exact (hmem s hs).words_slice

/-- Two places of words whose white space differs are replaced by a text that
looks like a reference to a group. -/
theorem resolveEdit_replaces_both :
    resolveEdit (ofString "x a\n b y a\tb") (ofString "a\u2003b") (ofString "\\1") 2 =
        .ok ⟨ofString "x \\1 y \\1", ⟨.tokens, [⟨2, 6⟩, ⟨9, 12⟩]⟩⟩ ∧
      ∃ ss : List Span, ss.map Span.start = [2, 9] ∧
        Replaced 0 (ofString "x a\n b y a\tb") (ss.map fun s => (s, ofString "\\1"))
          (ofString "x \\1 y \\1") := by
  have h : resolveEdit (ofString "x a\n b y a\tb") (ofString "a\u2003b") (ofString "\\1") 2 =
      .ok ⟨ofString "x \\1 y \\1", ⟨.tokens, [⟨2, 6⟩, ⟨9, 12⟩]⟩⟩ := rfl
  obtain ⟨ss, -, -, hpositions, -, -, -, hreplaced, -⟩ := resolveEdit_replaces_matches h
  exact ⟨h, ss, hpositions.symm, hreplaced⟩

end Amend
