/-
Amend.Proofs.Search — what the scans of a text find and replace.

The scan that lists the matches of a text and the scan that replaces them
are two recursions. Both are tied here to descriptions that mention
neither: the matches found are the greedy selection of the places the
matcher takes (`spans_greedy`), and replacing is the simultaneous
replacement of exactly these places (`replaceAll_replaced`).

  §1 Greedy selections  — what they contain, that there is one only, and
                          that none is longer where later places end later.
  §2 Matches            — the places a matcher takes; the scan selects
                          them greedily.
  §3 Replacement        — one text is another with some spans replaced.
  §4 The leftmost match — the first one found is the least there is.
-/
import Amend.Text.Search

namespace Amend

/-! ## §1 Greedy selections -/

/-- From offset `p` on, the places with `P` taken from left to right: each
is the first that starts where the one before ended or later. -/
inductive Greedy (P : Span → Prop) : Nat → List Span → Prop
  | done {p : Nat} (none_left : ∀ t, P t → t.start < p) : Greedy P p []
  | next {p : Nat} {s : Span} {ss : List Span} (holds : P s) (from_p : p ≤ s.start)
      (leftmost : ∀ t, P t → p ≤ t.start → s.start ≤ t.start)
      (rest : Greedy P s.stop ss) : Greedy P p (s :: ss)

namespace Greedy

variable {P Q : Span → Prop} {p : Nat} {ss ts : List Span}

/-- Whatever is selected has the property and does not start too early. -/
theorem mem (h : Greedy P p ss) (le : ∀ s, P s → s.start ≤ s.stop) :
    ∀ s ∈ ss, P s ∧ p ≤ s.start := by
  induction h with
  | done _ => simp
  | next holds from_p leftmost rest ih =>
    intro t ht
    rcases List.mem_cons.mp ht with rfl | ht
    · exact ⟨holds, from_p⟩
    · obtain ⟨htP, hstop⟩ := ih t ht
      have := le _ holds
      exact ⟨htP, by omega⟩

/-- No two selected places overlap, and they are listed in order. -/
theorem ordered (h : Greedy P p ss) (le : ∀ s, P s → s.start ≤ s.stop) :
    ss.Pairwise fun s t => s.stop ≤ t.start := by
  induction h with
  | done _ => exact .nil
  | next _ _ _ rest ih => exact .cons (fun t ht => (rest.mem le t ht).2) ih

/-- Nothing is left over: every place starts inside a selected one. -/
theorem covers (h : Greedy P p ss) {t : Span} (ht : P t) (hp : p ≤ t.start) :
    ∃ s ∈ ss, s.start ≤ t.start ∧ t.start < s.stop := by
  induction h with
  | done none_left =>
    have := none_left t ht
    omega
  | @next p s ss _ _ leftmost _ ih =>
    by_cases hin : t.start < s.stop
    · exact ⟨s, List.mem_cons_self, leftmost t ht hp, hin⟩
    · obtain ⟨u, hu, hut⟩ := ih (by omega)
      exact ⟨u, List.mem_cons_of_mem s hu, hut⟩

/-- Where only one place starts at an offset, there is only one selection. -/
theorem unique (one : ∀ s t, P s → P t → s.start = t.start → s = t)
    (hs : Greedy P p ss) (ht : Greedy P p ts) : ss = ts := by
  induction hs generalizing ts with
  | done none_left =>
    cases ht with
    | done _ => rfl
    | next holds from_p _ _ =>
      have := none_left _ holds
      omega
  | next holds from_p leftmost _ ih =>
    cases ht with
    | done none_left =>
      have := none_left _ holds
      omega
    | next holds' from_p' leftmost' rest' =>
      have hstart := Nat.le_antisymm (leftmost _ holds' from_p') (leftmost' _ holds from_p)
      obtain rfl := one _ _ holds holds' hstart
      rw [ih rest']

/-- The selection depends on the places alone, not on how they are told. -/
theorem congr (hPQ : ∀ s, P s ↔ Q s) (h : Greedy P p ss) : Greedy Q p ss := by
  have : P = Q := funext fun s => propext (hPQ s)
  rwa [← this]

/-- If nothing starts at `p`, selecting may as well begin after it. -/
theorem of_succ (h : Greedy P (p + 1) ss) (hp : ∀ s, P s → s.start ≠ p) : Greedy P p ss := by
  cases h with
  | done none_left =>
    refine .done fun t ht => ?_
    have := none_left t ht
    have := hp t ht
    omega
  | next holds from_p leftmost rest =>
    refine .next holds (by omega) (fun t ht htp => leftmost t ht ?_) rest
    have := hp t ht
    omega

/-- Where a place that starts later never ends earlier, no selection is longer
than the greedy one. To compare with others than places, each of them comes
with two offsets: from any offset up to `d` on there is still a place that
ends by `e`, and the `e` of one is not beyond the `d` of a later one. -/
theorem length_le (mono : ∀ s t, P s → P t → s.start ≤ t.start → s.stop ≤ t.stop)
    (h : Greedy P p ss) {d e : Span → Nat} (hts : ts.Pairwise fun t u => e t ≤ d u)
    (reach : ∀ t ∈ ts, p ≤ d t ∧ ∀ q ≤ d t, ∃ u, P u ∧ q ≤ u.start ∧ u.stop ≤ e t) :
    ts.length ≤ ss.length := by
  induction h generalizing ts with
  | done none_left =>
    cases ts with
    | nil => simp
    | cons t ts =>
      obtain ⟨hp, hreach⟩ := reach t List.mem_cons_self
      obtain ⟨u, hu, hpu, -⟩ := hreach _ hp
      have := none_left u hu
      omega
  | @next p s ss holds _ leftmost _ ih =>
    cases ts with
    | nil => simp
    | cons t ts =>
      obtain ⟨hfirst, hrest⟩ := List.pairwise_cons.mp hts
      obtain ⟨hp, hreach⟩ := reach t List.mem_cons_self
      obtain ⟨u, hu, hpu, hue⟩ := hreach _ hp
      have hstop : s.stop ≤ u.stop := mono s u holds hu (leftmost u hu hpu)
      have := ih hrest fun v hv =>
        ⟨Nat.le_trans hstop (Nat.le_trans hue (hfirst v hv)),
          (reach v (List.mem_cons_of_mem t hv)).2⟩
      simp only [List.length_cons]
      omega

end Greedy

/-! ## §2 Matches -/

namespace Text

/-- The symbols a span holds. -/
def slice (content : Text) (s : Span) : Text := (content.drop s.start).take s.length

theorem length_slice {content : Text} {s : Span} (h : s.stop ≤ content.length) :
    (slice content s).length = s.length := by
  simp only [slice, Span.length, List.length_take, List.length_drop]
  omega

/-- A span inside a text cuts it in three. -/
theorem append_slice_append {content : Text} {s : Span} (h : s.start ≤ s.stop) :
    content.take s.start ++ (slice content s ++ content.drop s.stop) = content := by
  have hdrop : content.drop s.stop = (content.drop s.start).drop s.length := by
    rw [List.drop_drop]
    congr 1
    simp only [Span.length]
    omega
  rw [hdrop, slice, List.take_append_drop, List.take_append_drop]

/-- The middle of a text in three parts is the slice at its place. -/
theorem slice_append (before x after : Text) :
    slice (before ++ (x ++ after)) ⟨before.length, before.length + x.length⟩ = x := by
  simp [slice, Span.length]

end Text

namespace Matcher

/-- The matcher never takes more symbols than there are. -/
def Bounded (m : Matcher) : Prop := ∀ t n, m t = some n → n ≤ t.length

/-- The matcher takes exactly the symbols of the span, one at least. -/
def Takes (m : Matcher) (content : Text) (s : Span) : Prop :=
  s.start < s.stop ∧ s.stop ≤ content.length ∧ m (content.drop s.start) = some s.length

/-- A place taken cuts the text in three. -/
theorem takes_iff_append {m : Matcher} {content : Text} {s : Span} :
    m.Takes content s ↔ ∃ before x after, content = before ++ (x ++ after) ∧
      s = ⟨before.length, before.length + x.length⟩ ∧ x ≠ [] ∧ m (x ++ after) = some x.length := by
  constructor
  · rintro ⟨hlt, hle, hm⟩
    have hcut : content.take s.start ++ (Text.slice content s ++ content.drop s.stop) = content :=
      Text.append_slice_append (Nat.le_of_lt hlt)
    have hlen : (Text.slice content s).length = s.length := Text.length_slice hle
    have hbefore : (content.take s.start).length = s.start := by
      rw [List.length_take]
      omega
    have hdrop : Text.slice content s ++ content.drop s.stop = content.drop s.start := by
      have h := congrArg (List.drop s.start) hcut
      rwa [List.drop_append_of_le_length (by omega), List.drop_of_length_le (by omega),
        List.nil_append] at h
    refine ⟨content.take s.start, Text.slice content s, content.drop s.stop, hcut.symm, ?_, ?_, ?_⟩
    · rw [hbefore, hlen, Span.length, Nat.add_sub_cancel' (Nat.le_of_lt hlt)]
    · intro hnil
      rw [hnil, List.length_nil, Span.length] at hlen
      omega
    · rw [hdrop, hm, hlen]
  · rintro ⟨before, x, after, rfl, rfl, hne, hm⟩
    have hpos := List.length_pos_iff.mpr hne
    refine ⟨by simpa using hpos, ?_, ?_⟩
    · simp only [List.length_append]
      omega
    · rw [List.drop_left, hm]
      simp [Span.length]

theorem Takes.unique {m : Matcher} {content : Text} {s t : Span} (hs : m.Takes content s)
    (ht : m.Takes content t) (h : s.start = t.start) : s = t := by
  obtain ⟨hlt, -, hms⟩ := hs
  obtain ⟨hlt', -, hmt⟩ := ht
  rw [h, hmt, Option.some.injEq] at hms
  obtain ⟨a, b⟩ := s
  obtain ⟨c, d⟩ := t
  simp only [Span.length] at h hms hlt hlt'
  simp only [Span.mk.injEq]
  omega

end Matcher

namespace Text

open Matcher

theorem literal_eq_some_iff {search t : Text} {n : Nat} :
    literal search t = some n ↔ search ≠ [] ∧ n = search.length ∧ ∃ r, t = search ++ r := by
  simp only [literal, List.isPrefixOf_iff_prefix]
  constructor
  · intro h
    split at h
    · rename_i hp
      obtain ⟨r, hr⟩ := hp.2
      exact ⟨hp.1, (Option.some.inj h).symm, r, hr.symm⟩
    · simp at h
  · rintro ⟨hne, rfl, r, rfl⟩
    simp [hne]

theorem literal_bounded (search : Text) : Bounded (literal search) := by
  intro t n h
  obtain ⟨-, rfl, r, rfl⟩ := literal_eq_some_iff.mp h
  simp

/-- A text is taken literally where it stands. -/
theorem takes_literal_iff {search content : Text} {s : Span} :
    Takes (literal search) content s ↔
      s.start < s.stop ∧ s.stop ≤ content.length ∧ slice content s = search := by
  constructor
  · rintro ⟨hlt, hle, hm⟩
    obtain ⟨-, hlen, r, hr⟩ := literal_eq_some_iff.mp hm
    exact ⟨hlt, hle, by rw [slice, hr, hlen, List.take_left]⟩
  · rintro ⟨hlt, hle, hs⟩
    have hlen : search.length = s.length := by rw [← hs, length_slice hle]
    refine ⟨hlt, hle, literal_eq_some_iff.mpr ⟨?_, hlen.symm, (content.drop s.start).drop s.length, ?_⟩⟩
    · rintro rfl
      simp only [List.length_nil, Span.length] at hlen
      omega
    · rw [← hs, slice, List.take_append_drop]

/-- The scan from any place on selects greedily. The induction is on the
part of the text that is left; `before` is the part that is gone. -/
theorem spansFrom_greedy {m : Matcher} (hm : m.Bounded) (t : Text) :
    ∀ (before : Text) (skip : Nat), skip ≤ t.length →
      Greedy (m.Takes (before ++ t)) (before.length + skip)
        (spansFrom m before.length skip t) := by
  induction t with
  | nil =>
    intro before skip hskip
    rw [spansFrom]
    refine .done fun s hs => ?_
    obtain ⟨hlt, hle, -⟩ := hs
    simp only [List.append_nil] at hle
    omega
  | cons c t ih =>
    intro before skip hskip
    have hcons : before ++ c :: t = (before ++ [c]) ++ t := by simp
    have hlen : (before ++ [c]).length = before.length + 1 := by simp
    cases skip with
    | succ skip =>
      have h := ih (before ++ [c]) skip (by simpa using hskip)
      rw [hlen, ← hcons] at h
      rw [spansFrom]
      simpa [Nat.add_comm, Nat.add_left_comm] using h
    | zero =>
      have hdrop : (before ++ c :: t).drop before.length = c :: t := List.drop_left
      rw [spansFrom]
      split
      · rename_i n hn
        have hnt : n ≤ t.length := by simpa using hm _ _ hn
        have h := ih (before ++ [c]) n hnt
        rw [hlen, ← hcons] at h
        refine .next ⟨?_, ?_, ?_⟩ (Nat.le_refl _) (fun u _ hu => hu) ?_
        · simp
        · simp only [List.length_append, List.length_cons]
          omega
        · simp only [Span.length, hdrop, hn]
          congr 1
          omega
        · simpa [Nat.add_comm, Nat.add_left_comm] using h
      · rename_i hno
        have h := ih (before ++ [c]) 0 (Nat.zero_le _)
        rw [hlen, ← hcons] at h
        refine Greedy.of_succ h fun s hs heq => ?_
        obtain ⟨hlt, -, hms⟩ := hs
        rw [heq, Nat.add_zero, hdrop] at hms
        obtain ⟨k, hk⟩ : ∃ k, s.length = k + 1 :=
          Nat.exists_eq_succ_of_ne_zero (by simp only [Span.length]; omega)
        rw [hk] at hms
        exact hno k hms

/-- The matches found are the greedy selection of the places taken. -/
theorem spans_greedy {m : Matcher} (hm : m.Bounded) (content : Text) :
    Greedy (m.Takes content) 0 (spans m content) := by
  simpa [spans] using spansFrom_greedy hm content [] 0 (Nat.zero_le _)

end Text

/-! ## §3 Replacement -/

/-- The second text is the first with what each span holds replaced by the
symbols beside the span, all at once: between the spans both are the same.
Offsets count from `pos`. -/
inductive Replaced {α : Type} : (pos : Nat) → List α → List (Span × List α) → List α → Prop
  | rest {pos : Nat} {t : List α} : Replaced pos t [] t
  | cut {pos : Nat} {gap old new t u : List α} {ps : List (Span × List α)}
      (tail : Replaced (pos + gap.length + old.length) t ps u) :
      Replaced pos (gap ++ (old ++ t))
        ((⟨pos + gap.length, pos + gap.length + old.length⟩, new) :: ps) (gap ++ (new ++ u))

namespace Replaced

variable {α : Type} {pos : Nat} {t u : List α} {ps : List (Span × List α)}

/-- What stands before the first span stays. -/
theorem prepend (gap : List α) (h : Replaced (pos + gap.length) t ps u) :
    Replaced pos (gap ++ t) ps (gap ++ u) := by
  cases h with
  | rest => exact .rest
  | @cut _ gap' old new t u ps tail =>
    have hlen : pos + gap.length + gap'.length = pos + (gap ++ gap').length := by
      rw [List.length_append, Nat.add_assoc]
    rw [hlen] at tail ⊢
    rw [← List.append_assoc gap gap', ← List.append_assoc gap gap']
    exact .cut tail

/-- A span further on is cut out of the text where it stands. -/
theorem cut_span {s : Span} {new : List α} (h0 : pos ≤ s.start) (hs : s.start ≤ s.stop)
    (ht : s.stop ≤ pos + t.length) (h : Replaced s.stop (t.drop (s.stop - pos)) ps u) :
    Replaced pos t ((s, new) :: ps) (t.take (s.start - pos) ++ (new ++ u)) := by
  have hgap : (t.take (s.start - pos)).length = s.start - pos := by
    rw [List.length_take]
    omega
  have hold : ((t.drop (s.start - pos)).take s.length).length = s.length := by
    simp only [List.length_take, List.length_drop, Span.length]
    omega
  have hrest : t.drop (s.stop - pos) = ((t.drop (s.start - pos)).drop s.length) := by
    rw [List.drop_drop]
    congr 1
    simp only [Span.length]
    omega
  have hstart : pos + (t.take (s.start - pos)).length = s.start := by omega
  have hstop : s.start + s.length = s.stop := by
    simp only [Span.length]
    omega
  have hcut := @cut α pos (t.take (s.start - pos)) ((t.drop (s.start - pos)).take s.length) new
    (t.drop (s.stop - pos)) u ps (by rw [hstart, hold, hstop]; exact h)
  rw [hstart, hold, hstop, hrest, List.take_append_drop, List.take_append_drop] at hcut
  exact hcut

/-- Replacing the same places of a text by the same leaves the same text. -/
theorem unique {u' : List α} (h : Replaced pos t ps u) (h' : Replaced pos t ps u') : u = u' := by
  induction h generalizing u' with
  | rest =>
    cases h'
    rfl
  | @cut pos gap old new t u cs _ ih =>
    generalize hwhole : gap ++ (old ++ t) = whole at h'
    generalize hspan : (⟨pos + gap.length, pos + gap.length + old.length⟩ : Span) = s at h'
    cases h' with
    | @cut _ gap' old' _ t' u' _ tail =>
      obtain ⟨hstart, hstop⟩ := Span.mk.inj hspan
      obtain ⟨rfl, hafter⟩ := List.append_inj hwhole (by omega)
      obtain ⟨rfl, rfl⟩ := List.append_inj hafter (by omega)
      rw [ih tail]

end Replaced

namespace Text

open Matcher

/-- The scan that replaces treats exactly the places the scan that lists
them finds. -/
theorem replaceFrom_replaced {m : Matcher} (hm : m.Bounded) (replacement t : Text) :
    ∀ pos skip : Nat, skip ≤ t.length →
      Replaced (pos + skip) (t.drop skip)
        ((spansFrom m pos skip t).map fun s => (s, replacement)) (replaceFrom m replacement skip t) := by
  induction t with
  | nil =>
    intro pos skip hskip
    rw [spansFrom, replaceFrom, List.drop_nil]
    exact .rest
  | cons c t ih =>
    intro pos skip hskip
    cases skip with
    | succ skip =>
      have h := ih (pos + 1) skip (by simpa using hskip)
      rw [spansFrom, replaceFrom, List.drop_succ_cons]
      simpa [Nat.add_comm, Nat.add_left_comm] using h
    | zero =>
      rw [spansFrom, replaceFrom, List.drop_zero]
      split
      · rename_i n hn
        have hnt : n ≤ t.length := by simpa using hm _ _ hn
        have h := ih (pos + 1) n hnt
        rw [Nat.add_right_comm] at h
        have hcut : Replaced pos (c :: t)
            ((⟨pos, pos + (n + 1)⟩, replacement) ::
              (spansFrom m (pos + 1) n t).map fun s => (s, replacement))
            ((c :: t).take (pos - pos) ++ (replacement ++ replaceFrom m replacement n t)) :=
          .cut_span (Nat.le_refl pos) (by simp) (by simpa using hnt)
            (by simpa [Nat.add_assoc] using h)
        simpa using hcut
      · exact Replaced.prepend [c] (ih (pos + 1) 0 (Nat.zero_le _))

/-- Replacing all is replacing the matches found, at once. -/
theorem replaceAll_replaced {m : Matcher} (hm : m.Bounded) (content replacement : Text) :
    Replaced 0 content ((spans m content).map fun s => (s, replacement))
      (replaceAll m content replacement) :=
  replaceFrom_replaced hm replacement content 0 0 (Nat.zero_le _)

/-! ## §4 The leftmost match -/

theorem firstFrom_eq_head? (m : Matcher) (t : Text) :
    ∀ pos : Nat, firstFrom m pos t = (spansFrom m pos 0 t).head? := by
  induction t with
  | nil => intro pos; rfl
  | cons c t ih =>
    intro pos
    rw [firstFrom, spansFrom]
    split
    · rfl
    · exact ih (pos + 1)

/-- The leftmost match is the first of all. -/
theorem first?_eq_head? (m : Matcher) (content : Text) :
    first? m content = (spans m content).head? :=
  firstFrom_eq_head? m content 0

theorem first?_eq_some {m : Matcher} (hm : m.Bounded) {content : Text} {s : Span}
    (h : first? m content = some s) :
    m.Takes content s ∧ ∀ t, m.Takes content t → s.start ≤ t.start := by
  have hg := spans_greedy hm content
  rw [first?_eq_head?] at h
  obtain ⟨ss, hss⟩ := List.head?_eq_some_iff.mp h
  rw [hss] at hg
  cases hg with
  | next holds from_p leftmost rest => exact ⟨holds, fun t ht => leftmost t ht (Nat.zero_le _)⟩

theorem first?_eq_none_iff {m : Matcher} (hm : m.Bounded) {content : Text} :
    first? m content = none ↔ ∀ t, ¬ m.Takes content t := by
  have hg := spans_greedy hm content
  rw [first?_eq_head?, List.head?_eq_none_iff]
  constructor
  · intro h t ht
    rw [h] at hg
    cases hg with
    | done none_left => exact absurd (none_left t ht) (Nat.not_lt_zero _)
  · intro h
    cases hs : spans m content with
    | nil => rfl
    | cons s ss =>
      rw [hs] at hg
      cases hg with
      | next holds _ _ _ => exact absurd holds (h s)

/-- A text found stands at the offset, and nowhere before. -/
theorem find?_eq_some {content search : Text} {offset : Nat} (hne : search ≠ [])
    (h : find? content search = some offset) :
    Takes (literal search) content ⟨offset, offset + search.length⟩ ∧
      ∀ t, Takes (literal search) content t → offset ≤ t.start := by
  rw [find?, if_neg hne, Option.map_eq_some_iff] at h
  obtain ⟨s, hs, rfl⟩ := h
  obtain ⟨htakes, hleast⟩ := first?_eq_some (literal_bounded search) hs
  have hlen : s.start + search.length = s.stop := by
    obtain ⟨hlt, hle, hsl⟩ := takes_literal_iff.mp htakes
    rw [← hsl, length_slice hle]
    simp only [Span.length]
    omega
  exact ⟨by rw [hlen]; exact htakes, hleast⟩

end Text
end Amend
