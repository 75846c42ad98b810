/-
Amend.Proofs.Ambiguity — how many places the strategies find in one text.

A pattern that starts later never ends earlier, so that the greedy
selection of its places is a longest one. Hence the words alone are found
at least as often as any strategy finds the search text
(`count_le_tokens_count`). White space relaxed is found at least as often
as the search text itself only if the search text is matched by its own
pattern and two places of it never share a stretch of white space
(`Layout.Steady`, `exact_count_le_whitespace_count`). An ambiguous search
text is therefore refused whenever it is steady, and otherwise unless its
tolerant matches are by chance as many as expected
(`findMatches_of_exact_count_gt`).

  §1 Matchers that never end earlier.
  §2 Words are found most often.
  §3 Steady search texts.
  §4 Ambiguous search texts.
-/
import Amend.Proofs.Strategies
import Amend.Refusal

namespace Amend

open Text

/-! ## §1 Matchers that never end earlier -/

/-- What is taken from a later place on never ends before what is taken
from an earlier one. -/
def Matcher.EndsInOrder (m : Matcher) : Prop :=
  ∀ t k a b, m t = some a → m (t.drop k) = some b → a ≤ k + b

namespace Piece

/-- Inside a stretch, what is left of it is counted. -/
theorem blankCount_drop {x after : Text} (hx : Longest Symbol.isBlank x after) {k : Nat}
    (hk : k ≤ x.length) : blankCount ((x ++ after).drop k) = x.length - k := by
  rw [List.drop_append_of_le_length hk,
    blankCount_append ⟨fun c hc => hx.1 c (List.mem_of_mem_drop hc), hx.2⟩, List.length_drop]

theorem length_takeWhile_le (p : Symbol → Bool) (t : Text) (k : Nat) :
    (t.takeWhile p).length ≤ k + ((t.drop k).takeWhile p).length := by
  obtain ⟨x, after, rfl, hx⟩ := exists_longest p t
  rw [hx.takeWhile_append]
  by_cases hk : k ≤ x.length
  · have hdrop : Longest p (x.drop k) after := ⟨fun c hc => hx.1 c (List.mem_of_mem_drop hc), hx.2⟩
    rw [List.drop_append_of_le_length hk, hdrop.takeWhile_append, List.length_drop]
    omega
  · omega

theorem takeBreaks_endsInOrder (n : Nat) : Matcher.EndsInOrder (takeBreaks n) := by
  induction n with
  | zero =>
    intro t k a b ha hb
    obtain rfl : 0 = a := by simpa [takeBreaks] using ha
    omega
  | succ n ih =>
    intro t k a b ha hb
    obtain ⟨x, r, rfl, hx⟩ := exists_longest Symbol.isBlank t
    rw [takeBreaks, blankCount_append hx, List.drop_left] at ha
    cases r with
    | nil => simp at ha
    | cons c r =>
      by_cases hc : c = lf
      · subst hc
        simp only [if_true, Option.map_eq_some_iff] at ha
        obtain ⟨i, hi, rfl⟩ := ha
        by_cases hk : k ≤ x.length
        · have hdrop : Longest Symbol.isBlank (x.drop k) (lf :: r) :=
            ⟨fun d hd => hx.1 d (List.mem_of_mem_drop hd), hx.2⟩
          rw [List.drop_append_of_le_length hk, takeBreaks, blankCount_append hdrop,
            List.drop_left] at hb
          simp only [if_true, hi, Option.map_some, Option.some.injEq] at hb
          rw [List.length_drop] at hb
          omega
        · -- the first line break is passed: the rest is in order by induction
          obtain ⟨y, after, hy, hlen, hfits⟩ := exists_of_takeBreaks hb
          have hrest : (x ++ lf :: r).drop k = r.drop (k - x.length - 1) := by
            obtain ⟨j, rfl⟩ : ∃ j, k = x.length + (j + 1) := ⟨k - x.length - 1, by omega⟩
            rw [List.drop_append, List.drop_of_length_le (by omega)]
            simp
          rw [hrest] at hy
          cases hfits with
          | @more _ bl z _ hz =>
            have hafter : r.drop (k - x.length - 1 + (bl.length + 1)) = z ++ after := by
              rw [← List.drop_drop, hy, List.append_assoc, List.drop_append,
                List.drop_of_length_le (by omega)]
              simp
            have hj := ih r _ i z.length hi (by rw [hafter]; exact takeBreaks_append hz after)
            simp only [List.length_append, List.length_cons] at hlen
            omega
      · simp [hc] at ha

theorem take_endsInOrder (p : Piece) : Matcher.EndsInOrder p.take := by
  cases p with
  | word w =>
    intro t k a b ha hb
    simp only [take, Option.ite_none_right_eq_some, Option.some.injEq] at ha hb
    omega
  | breaks n => exact takeBreaks_endsInOrder n
  | blanks =>
    intro t k a b ha hb
    have hle : blankCount t ≤ k + blankCount (t.drop k) := length_takeWhile_le Symbol.isBlank t k
    simp only [take, Option.ite_none_left_eq_some, Option.some.injEq] at ha hb
    omega
  | indent =>
    intro t k a b ha hb
    have hle : blankCount t ≤ k + blankCount (t.drop k) := length_takeWhile_le Symbol.isBlank t k
    simp only [take, Option.some.injEq] at ha hb
    omega
  | gap =>
    intro t k a b ha hb
    have := length_takeWhile_le Symbol.isSpace t k
    simp only [take, Option.ite_none_left_eq_some, Option.some.injEq] at ha hb
    omega

theorem takeAll_endsInOrder (ps : List Piece) : Matcher.EndsInOrder (takeAll ps) := by
  induction ps with
  | nil =>
    intro t k a b ha hb
    obtain rfl : 0 = a := by simpa [takeAll] using ha
    omega
  | cons p ps ih =>
    intro t k a b ha hb
    rw [takeAll] at ha hb
    cases hpa : p.take t with
    | none => simp [hpa] at ha
    | some i =>
      cases hpb : p.take (t.drop k) with
      | none => simp [hpb] at hb
      | some j =>
        simp only [hpa, hpb, Option.map_eq_some_iff] at ha hb
        obtain ⟨a, ha, rfl⟩ := ha
        obtain ⟨b, hb, rfl⟩ := hb
        have hij := take_endsInOrder p t k i j hpa hpb
        have hdrop : (t.drop k).drop j = (t.drop i).drop (k + j - i) := by
          rw [List.drop_drop, List.drop_drop]
          congr 1
          omega
        have := ih (t.drop i) (k + j - i) a b ha (by rw [← hdrop]; exact hb)
        omega

end Piece

namespace Strategy

theorem matcher_endsInOrder (st : Strategy) (search : Text) :
    (st.matcher search).EndsInOrder := by
  have hpattern (p : Pattern) : p.matcher.EndsInOrder := by
    cases p with
    | never =>
      intro t k a b ha
      cases ha
    | pieces ps => exact Piece.takeAll_endsInOrder ps
  cases st with
  | exact =>
    intro t k a b ha hb
    obtain ⟨-, rfl, -⟩ := literal_eq_some_iff.mp ha
    obtain ⟨-, rfl, -⟩ := literal_eq_some_iff.mp hb
    omega
  | whitespace => exact hpattern _
  | tokens => exact hpattern _

/-- A place that starts later never ends earlier. -/
theorem Finds.stop_le_stop {st : Strategy} {search content : Text} {s t : Span}
    (hs : st.Finds search content s) (ht : st.Finds search content t) (h : s.start ≤ t.start) :
    s.stop ≤ t.stop := by
  obtain ⟨hlt, hle, hms⟩ := takes_iff.mpr hs
  obtain ⟨hlt', hle', hmt⟩ := takes_iff.mpr ht
  have hdrop : content.drop t.start = (content.drop s.start).drop (t.start - s.start) := by
    rw [List.drop_drop]
    congr 1
    omega
  rw [hdrop] at hmt
  have := st.matcher_endsInOrder search _ _ _ _ hms hmt
  simp only [Span.length] at this
  omega

end Strategy

/-! ## §2 Words are found most often -/

namespace Layout

/-- The layout without the white space at its two ends. -/
def core (l : Layout) : Layout where
  lead := []
  first := l.first
  rest := l.rest
  trail := []
  lead_space := nil_space
  first_word := l.first_word
  rest_alternates := l.rest_alternates
  trail_space := nil_space

theorem text_eq_core (l : Layout) : l.text = l.lead ++ (l.core.text ++ l.trail) := by
  simp [text, core]

end Layout

namespace Strategy

/-- Every place holds a place of the words alone. -/
theorem Finds.exists_tokens {st : Strategy} {search content : Text} {s : Span}
    (h : st.Finds search content s) (hword : ∃ c ∈ search, c.isSpace = false) :
    ∃ u, tokens.Finds search content u ∧ s.start ≤ u.start ∧ u.stop ≤ s.stop := by
  obtain ⟨l, rfl⟩ := exists_layout hword
  have hwords := h.words_slice
  obtain ⟨before, x, after, rfl, rfl, -, -⟩ := Matcher.takes_iff_append.mp (takes_iff.mpr h)
  rw [slice_append, l.words_text] at hwords
  rcases space_or_layout x with hspace | ⟨l', rfl⟩
  · rw [words_of_space hspace] at hwords
    cases hwords
  · have hcontent : before ++ (l'.text ++ after) =
        (before ++ l'.lead) ++ (l'.core.text ++ (l'.trail ++ after)) := by
      simp [l'.text_eq_core]
    rw [l'.words_text] at hwords
    refine ⟨⟨(before ++ l'.lead).length, (before ++ l'.lead).length + l'.core.text.length⟩,
      ⟨?_, l'.core, ?_, rfl, rfl, ?_⟩, ?_, ?_⟩
    · rw [hcontent]
      simp only [List.length_append]
      omega
    · rw [hcontent, slice_append]
    · rw [l.words_text, ← hwords]
      rfl
    · simp
    · simp only [l'.text_eq_core, List.length_append]
      omega

/-- Places that follow one another, whatever strategies find them, are never
more than the words alone are found. -/
theorem length_le_tokens_count {content search : Text} {ss : List Span}
    (hword : ∃ c ∈ search, c.isSpace = false) (hordered : ss.Pairwise fun s t => s.stop ≤ t.start)
    (hfound : ∀ s ∈ ss, ∃ st : Strategy, st.Finds search content s) :
    ss.length ≤ tokens.count content search := by
  refine (tokens.spans_greedy content search).length_le (fun s t => Finds.stop_le_stop) hordered
    fun s hs => ⟨Nat.zero_le _, fun q hq => ?_⟩
  obtain ⟨st, hst⟩ := hfound s hs
  obtain ⟨u, hu, hstart, hstop⟩ := hst.exists_tokens hword
  exact ⟨u, hu, Nat.le_trans hq hstart, hstop⟩

/-- The words alone are found at least as often as any strategy finds the
search text. -/
theorem count_le_tokens_count (st : Strategy) {search : Text} (content : Text)
    (hword : ∃ c ∈ search, c.isSpace = false) :
    st.count content search ≤ tokens.count content search :=
  length_le_tokens_count hword
    ((st.spans_greedy content search).ordered fun _ hs => Nat.le_of_lt hs.lt_and_le.1)
    fun _ hs => ⟨st, finds_of_mem_spans hs⟩

end Strategy

/-! ## §3 Steady search texts -/

theorem Longest.append {p : Symbol → Bool} {x y after : Text} (hx : ∀ c ∈ x, p c = true)
    (hy : Longest p y after) : Longest p (x ++ y) after := by
  refine ⟨fun c hc => ?_, hy.2⟩
  rcases List.mem_append.mp hc with hc | hc
  · exact hx c hc
  · exact hy.1 c hc

theorem exists_lineBreaks {run : Text} (h : ∀ c ∈ run, c.isBlank = true ∨ c = lf) :
    ∃ b i, run = b ++ i ∧ LineBreaks (run.count lf) b ∧ AllBlank i := by
  induction run with
  | nil => exact ⟨[], [], rfl, .none, by simp [AllBlank]⟩
  | cons c run ih =>
    obtain ⟨b, i, hrun, hb, hi⟩ := ih fun d hd => h d (List.mem_cons_of_mem c hd)
    rcases h c List.mem_cons_self with hc | rfl
    · have hne : c ≠ lf := by
        rintro rfl
        exact absurd hc (by decide)
      rw [List.count_cons_of_ne hne]
      have hcons {t : Text} (ht : AllBlank t) : AllBlank (c :: t) := by
        intro d hd
        rcases List.mem_cons.mp hd with rfl | hd
        · exact hc
        · exact ht d hd
      generalize run.count lf = n at hb ⊢
      cases hb with
      | none => exact ⟨[], c :: i, by simp [hrun], .none, hcons hi⟩
      | @more n bl t blank rest =>
        exact ⟨(c :: bl) ++ lf :: t, i, by simp [hrun], .more (hcons blank) rest, hi⟩
    · rw [List.count_cons_self]
      exact ⟨[] ++ lf :: b, i, by simp [hrun], .more (by simp [AllBlank]) hb, hi⟩

namespace Layout

/-- The search text is matched by its own pattern, and no stretch of white
space can end one place and begin the next: its white space is tabs, spaces
and line feeds, save where a gap that breaks the line may be any, and if it
ends in white space of which more may be taken, it does not begin with
white space of which some is needed. -/
structure Steady (l : Layout) : Prop where
  lead_plain : ∀ c ∈ l.lead, c.isBlank = true ∨ c = lf
  gaps_plain : ∀ p ∈ l.rest, lf ∈ p.1 ∨ AllBlank p.1
  trail_plain : ∀ c ∈ l.trail, c.isBlank = true ∨ c = lf
  apart : l.lead = [] ∨ lf ∈ l.lead ∨ l.trail = [] ∨ l.trail.getLast? = some lf

/-- How much of the white space that leads the search text a place can do
without. -/
def slack (l : Layout) : Nat := if lf ∈ l.lead then Piece.blankCount l.lead else 0

/-- How much of the text after a place of the search text belongs to it when
white space is relaxed. -/
def growth (l : Layout) (after : Text) : Nat :=
  if l.trail = [] ∨ l.trail.getLast? = some lf then 0 else Piece.blankCount after

theorem slack_le (l : Layout) : l.slack ≤ l.lead.length := by
  rw [slack]
  split
  · exact (List.takeWhile_sublist Symbol.isBlank).length_le
  · exact Nat.zero_le _

/-- The tabs and spaces a place starts with are its slack, if it needs no
others. -/
theorem blankCount_text_append {l : Layout} (h : l.lead = [] ∨ lf ∈ l.lead) (after : Text) :
    Piece.blankCount (l.text ++ after) = l.slack := by
  rw [slack, text]
  rcases h with hlead | hlf
  · have hnone : Longest Symbol.isBlank [] (l.first ++ (inner l.rest ++ l.trail) ++ after) := by
      rw [List.append_assoc, longest_append_word (fun _ => Symbol.isSpace_of_isBlank) l.first_word]
      simp
    rw [hlead, if_neg List.not_mem_nil, List.nil_append]
    exact Piece.blankCount_append hnone
  · obtain ⟨x, r, hx, hlong⟩ := exists_longest Symbol.isBlank l.lead
    rw [if_pos hlf, hx, Piece.blankCount_append hlong, List.append_assoc, List.append_assoc]
    refine Piece.blankCount_append ⟨hlong.1, ?_⟩
    cases r with
    | nil =>
      rw [hx, List.append_nil] at hlf
      exact absurd (hlong.1 lf hlf) (by decide)
    | cons c r => exact fun d hd => hlong.2 d hd

theorem leadFits_drop {run : Text} (h : ∀ c ∈ run, c.isBlank = true ∨ c = lf) {j : Nat}
    (hj : j ≤ if lf ∈ run then Piece.blankCount run else 0) : LeadFits run (run.drop j) := by
  rw [LeadFits]
  split
  · rename_i hrun
    rw [hrun, List.drop_nil]
  · split
    · rename_i hlf
      rw [if_pos hlf] at hj
      obtain ⟨x, r, hx, hlong⟩ := exists_longest Symbol.isBlank run
      have hjx : j ≤ x.length := by
        rw [hx, Piece.blankCount_append hlong] at hj
        exact hj
      have hcount : (run.drop j).count lf = run.count lf := by
        have hx0 : x.count lf = 0 := AllBlank.count hlong.1
        have hd0 : (x.drop j).count lf = 0 :=
          AllBlank.count fun c hc => hlong.1 c (List.mem_of_mem_drop hc)
        rw [hx, List.drop_append_of_le_length hjx, List.count_append, List.count_append, hx0, hd0]
      obtain ⟨b, i, hb, hbreaks, hi⟩ :=
        exists_lineBreaks fun c hc => h c (List.mem_of_mem_drop (i := j) hc)
      rw [hcount] at hbreaks
      exact ⟨b, i, hb, hbreaks, hi⟩
    · rename_i hne hlf
      rw [if_neg hlf] at hj
      obtain rfl : j = 0 := by omega
      refine ⟨hne, fun c hc => ?_⟩
      rcases h c hc with hc' | rfl
      · exact hc'
      · exact absurd hc hlf

theorem innerFits_inner {rest : List (Text × Text)} (hrest : ∀ p ∈ rest, IsGap p.1 ∧ IsWord p.2)
    (hplain : ∀ p ∈ rest, lf ∈ p.1 ∨ AllBlank p.1) : InnerFits rest (inner rest) := by
  induction rest with
  | nil => exact .nil
  | cons p rest ih =>
    obtain ⟨g, w⟩ := p
    obtain ⟨hg, hw⟩ := hrest (g, w) List.mem_cons_self
    rw [inner_cons]
    refine .cons hg.1 ?_ (ih (fun q hq => hrest q (List.mem_cons_of_mem _ hq))
      fun q hq => hplain q (List.mem_cons_of_mem _ hq))
    by_cases hlf : lf ∈ g
    · rw [if_pos hlf, longest_append_word (fun _ => id) hw]
      exact hg.2
    · rw [if_neg hlf, longest_append_word (fun _ => Symbol.isSpace_of_isBlank) hw]
      exact (hplain (g, w) List.mem_cons_self).resolve_left hlf

theorem trailFits_append {run ext after : Text} (h : ∀ c ∈ run, c.isBlank = true ∨ c = lf)
    (hopen : ¬ (run = [] ∨ run.getLast? = some lf) → Longest Symbol.isBlank ext after)
    (hclosed : run = [] ∨ run.getLast? = some lf → ext = []) :
    TrailFits run (run ++ ext) after := by
  rw [TrailFits]
  split
  · rename_i hrun
    rw [hrun, hclosed (.inl hrun)]
    rfl
  · rename_i hne
    split
    · obtain ⟨b, i, hb, hbreaks, hi⟩ := exists_lineBreaks h
      split
      · rename_i hlast
        have hnil : i = [] := by
          cases hil : i.getLast? with
          | none => exact List.getLast?_eq_none_iff.mp hil
          | some c =>
            rw [hb, List.getLast?_append, hil] at hlast
            obtain rfl : c = lf := by simpa using hlast
            exact absurd (hi lf (List.mem_of_getLast? hil)) (by decide)
        rw [hclosed (.inr hlast), List.append_nil]
        rw [hnil, List.append_nil] at hb
        rw [← hb] at hbreaks
        exact hbreaks
      · rename_i hlast
        refine ⟨b, i ++ ext, by rw [← List.append_assoc, ← hb], hbreaks, ?_⟩
        exact .append hi (hopen (by simp [hne, hlast]))
    · rename_i hlf
      have hblank : AllBlank run := by
        intro c hc
        rcases h c hc with hc' | rfl
        · exact hc'
        · exact absurd hc hlf
      refine ⟨by simp [hne], .append hblank (hopen ?_)⟩
      rintro (h | h)
      · exact hne h
      · exact hlf (List.mem_of_getLast? h)

/-- A place of a steady search text is one of its tolerant matches, also
without some of the slack, and may have grown. -/
theorem Steady.shape {l : Layout} (hl : l.Steady) {j : Nat} (hj : j ≤ l.slack) (after : Text) :
    l.Shape (l.text.drop j ++ after.take (l.growth after)) (after.drop (l.growth after)) := by
  have hlead : j ≤ l.lead.length := Nat.le_trans hj l.slack_le
  refine ⟨l.lead.drop j, inner l.rest, l.trail ++ after.take (l.growth after), ?_,
    leadFits_drop hl.lead_plain hj, innerFits_inner l.rest_alternates hl.gaps_plain,
    trailFits_append hl.trail_plain ?_ ?_⟩
  · rw [text, List.drop_append_of_le_length hlead]
    simp
  · intro hopen
    obtain ⟨x, r, rfl, hx⟩ := exists_longest Symbol.isBlank after
    rw [growth, if_neg hopen, Piece.blankCount_append hx, List.take_left, List.drop_left]
    exact hx
  · intro hclosed
    rw [growth, if_pos hclosed, List.take_zero]

end Layout

namespace Strategy

/-- From any offset up to the slack of a place, a tolerant match is still to
come that ends where the place has grown to. -/
theorem exists_whitespace_of_exact {l : Layout} (hl : l.Steady) {content : Text} {s : Span}
    (h : exact.Finds l.text content s) {q : Nat} (hq : q ≤ s.start + l.slack) :
    ∃ u, whitespace.Finds l.text content u ∧ q ≤ u.start ∧
      u.stop ≤ s.stop + l.growth (content.drop s.stop) := by
  obtain ⟨before, x, after, rfl, rfl, -, -⟩ := Matcher.takes_iff_append.mp (takes_iff.mpr h)
  have hx := h.2.2
  rw [slice_append] at hx
  subst hx
  have hj : q - before.length ≤ l.slack := by
    simp only at hq
    omega
  have hafter : (before ++ (l.text ++ after)).drop (before.length + l.text.length) = after := by
    rw [← List.append_assoc, ← List.length_append, List.drop_left]
  rw [hafter]
  generalize hjq : q - before.length = j at hj
  have hlen : j ≤ l.text.length := by
    refine Nat.le_trans (Nat.le_trans hj l.slack_le) ?_
    rw [Layout.text, List.length_append]
    exact Nat.le_add_right _ _
  have hcontent : before ++ (l.text ++ after) = (before ++ l.text.take j) ++
      ((l.text.drop j ++ after.take (l.growth after)) ++ after.drop (l.growth after)) := by
    rw [List.append_assoc before, List.append_assoc (l.text.drop j), List.take_append_drop,
      ← List.append_assoc (l.text.take j), List.take_append_drop]
  refine ⟨_, ⟨l, rfl, _, _, _, hcontent, rfl, hl.shape hj after⟩, ?_, ?_⟩
  · simp only [List.length_append, List.length_take]
    omega
  · simp only [List.length_append, List.length_take, List.length_drop]
    omega

/-- Two places of a steady search text, one after the other: the first does
not grow into more than the slack of the second. -/
theorem exact_growth_le {l : Layout} (hl : l.Steady) {content : Text} {s t : Span}
    (ht : exact.Finds l.text content t) (hst : s.stop ≤ t.start) :
    s.stop + l.growth (content.drop s.stop) ≤ t.start + l.slack := by
  by_cases hclosed : l.trail = [] ∨ l.trail.getLast? = some lf
  · rw [Layout.growth, if_pos hclosed]
    omega
  · rw [Layout.growth, if_neg hclosed]
    obtain ⟨x, r, hcut, hx⟩ := exists_longest Symbol.isBlank (content.drop s.stop)
    rw [hcut, Piece.blankCount_append hx]
    by_cases hreach : s.stop + x.length ≤ t.start
    · omega
    · -- the second place starts among the blanks after the first
      obtain ⟨before, y, after, rfl, rfl, -, -⟩ := Matcher.takes_iff_append.mp (takes_iff.mpr ht)
      have hy := ht.2.2
      rw [slice_append] at hy
      subst hy
      simp only at hst hreach ⊢
      have hblanks := Piece.blankCount_drop hx (k := before.length - s.stop) (by omega)
      rw [← hcut, List.drop_drop, Nat.add_sub_cancel' hst, List.drop_left] at hblanks
      rcases hl.apart with hlead | hlf | htrail
      · rw [Layout.blankCount_text_append (.inl hlead)] at hblanks
        omega
      · rw [Layout.blankCount_text_append (.inr hlf)] at hblanks
        omega
      · exact absurd htrail hclosed

/-- A steady search text is found at least as often with its white space
relaxed as it is found itself. -/
theorem exact_count_le_whitespace_count {l : Layout} (hl : l.Steady) (content : Text) :
    exact.count content l.text ≤ whitespace.count content l.text := by
  have hle : ∀ s, exact.Finds l.text content s → s.start ≤ s.stop :=
    fun s hs => Nat.le_of_lt hs.lt_and_le.1
  have hexact := exact.spans_greedy content l.text
  have hmem := hexact.mem hle
  have hapart : (exact.spans content l.text).Pairwise fun s t =>
      s.stop + l.growth (content.drop s.stop) ≤ t.start + l.slack :=
    (hexact.ordered hle).imp_of_mem fun _ ht hst => exact_growth_le hl (hmem _ ht).1 hst
  exact (whitespace.spans_greedy content l.text).length_le (fun s t => Finds.stop_le_stop)
    hapart fun s hs => ⟨Nat.zero_le _, fun q hq => exists_whitespace_of_exact hl (hmem s hs).1 hq⟩

/-- Without words nothing is found but the search text itself. -/
theorem count_of_space (st : Strategy) (hst : st ≠ exact) {search : Text}
    (h : ∀ c ∈ search, c.isSpace = true) (content : Text) : st.count content search = 0 := by
  have hgreedy := st.spans_greedy content search
  rw [count, List.length_eq_zero_iff]
  cases hspans : st.spans content search with
  | nil => rfl
  | cons s ss =>
    rw [hspans] at hgreedy
    cases hgreedy with
    | next holds _ _ _ =>
      cases st with
      | exact => exact absurd rfl hst
      | whitespace =>
        obtain ⟨l, hl, -⟩ := holds
        exact absurd hl (text_ne_of_space h l)
      | tokens =>
        obtain ⟨-, l, -, -, -, hwords⟩ := holds
        rw [words_of_space h] at hwords
        cases hwords

end Strategy

/-! ## §4 Ambiguous search texts -/

/-- The edit is refused for the number of places, and the refusal tells how
often the search text itself was found. -/
def RefusedAsAmbiguous (content search : Text) (expected : Int) : Prop :=
  ∃ m, findMatches content search expected = .error m ∧
    m.exact = Strategy.exact.count content search ∧
    ∀ target, (Refusal.mismatch target m).code = .countMismatch

/-- A search text found more often than expected is refused, unless its
tolerant matches are as many as expected, and then these are committed.
That never happens to a steady search text or to one without words. -/
theorem findMatches_of_exact_count_gt {content search : Text} {expected : Int}
    (hpos : 1 ≤ expected) (hmore : expected < Strategy.exact.count content search) :
    (RefusedAsAmbiguous content search expected ∨
      (Strategy.whitespace.count content search : Int) = expected ∧
        findMatches content search expected =
          .ok ⟨.whitespace, Strategy.whitespace.spans content search⟩) ∧
    ((∀ c ∈ search, c.isSpace = true) ∨ (∃ l : Layout, l.text = search ∧ l.Steady) →
      RefusedAsAmbiguous content search expected) := by
  have hexact : (Strategy.exact.count content search : Int) ≠ expected := by omega
  have htokens : (Strategy.tokens.count content search : Int) ≠ expected := by
    by_cases hword : ∃ c ∈ search, c.isSpace = false
    · have := Strategy.exact.count_le_tokens_count content hword
      omega
    · have hzero := Strategy.tokens.count_of_space (by simp) (by simpa using hword) content
      omega
  have hrefused (hws : (Strategy.whitespace.count content search : Int) ≠ expected) :
      RefusedAsAmbiguous content search expected := by
    refine ⟨⟨expected, Strategy.exact.count content search, Strategy.whitespace.count content search,
      Strategy.tokens.count content search⟩, ?_, rfl, fun target => ?_⟩
    · simp only [Strategy.count] at hexact htokens hws ⊢
      simp only [findMatches, hexact, hws, htokens, if_false]
    · have hne : Strategy.exact.count content search ≠ 0 := by omega
      simp [Refusal.code, Mismatch.isMiss, hne]
  constructor
  · by_cases hws : (Strategy.whitespace.count content search : Int) = expected
    · refine .inr ⟨hws, ?_⟩
      simp only [Strategy.count] at hexact hws
      simp only [findMatches, hexact, hws, if_false, if_true]
    · exact .inl (hrefused hws)
  · intro hsteady
    refine hrefused ?_
    rcases hsteady with hspace | ⟨l, rfl, hl⟩
    · have hzero := Strategy.whitespace.count_of_space (by simp) hspace content
      omega
    · have := Strategy.exact_count_le_whitespace_count hl content
      omega

/-- A statement that stands three times and is expected once: nothing is
edited, and the refusal says three. -/
theorem thrice_found_refused :
    (1 : Int) < Strategy.exact.count (ofString "foo();\nfoo();\nfoo();\n") (ofString "foo();") ∧
      RefusedAsAmbiguous (ofString "foo();\nfoo();\nfoo();\n") (ofString "foo();") 1 := by
  have hmore : (1 : Int) <
      Strategy.exact.count (ofString "foo();\nfoo();\nfoo();\n") (ofString "foo();") := by decide
  have hsteady : ∃ l : Layout, l.text = ofString "foo();" ∧ l.Steady :=
    ⟨⟨[], ofString "foo();", [], [], by simp, ⟨by decide, by decide⟩, by simp, by simp⟩, rfl,
      ⟨by simp, by simp, by simp, .inl rfl⟩⟩
  exact ⟨hmore, (findMatches_of_exact_count_gt (Int.le_refl 1) hmore).2 (.inr hsteady)⟩

/-- A search text that stands twice and is expected once may be edited all
the same: two places that share the white space between them have a single
tolerant match, and a place that its own pattern does not match leaves the
edit to another. -/
theorem ambiguous_search_committed :
    (Strategy.exact.count (ofString " a  a ") (ofString " a ") = 2 ∧
      findMatches (ofString " a  a ") (ofString " a ") 1 = .ok ⟨.whitespace, [⟨0, 4⟩]⟩ ∧
      ¬ RefusedAsAmbiguous (ofString " a  a ") (ofString " a ") 1) ∧
    Strategy.exact.count (ofString "a\u00a0b a\u00a0b a b") (ofString "a\u00a0b") = 2 ∧
      findMatches (ofString "a\u00a0b a\u00a0b a b") (ofString "a\u00a0b") 1 =
        .ok ⟨.whitespace, [⟨8, 11⟩]⟩ := by
  have hshared : findMatches (ofString " a  a ") (ofString " a ") 1 =
      .ok ⟨.whitespace, [⟨0, 4⟩]⟩ := rfl
  refine ⟨⟨by decide, hshared, ?_⟩, by decide, rfl⟩
  rintro ⟨m, hm, -⟩
  rw [hshared] at hm
  cases hm

end Amend
