/-
Amend.Proofs.Locating — where a search text is located.

The lines around a hint are searched as one text, cut out of the content
line by line. That text stands in the content at the offset the lines
before it add up to (`append_window`), so an occurrence in it is one of the
content, and whatever is located is a place that the strategy named finds
(`locate_finds`). Nothing is located exactly where neither the text nor a
tolerant match of it stands anywhere (`locate_eq_none_iff`).

  §1 Some lines of a text as a part of it.
  §2 Locations.
-/
import Amend.Location
import Amend.Proofs.Strategies

namespace Amend

open Text

/-! ## §1 Some lines of a text as a part of it -/

namespace Text

theorem unlines_cons_cons (l m : Text) (ms : List Text) :
    unlines (l :: m :: ms) = l ++ (lf :: unlines (m :: ms)) := by
  simp [unlines, join, List.intercalate, List.intersperse]

theorem unlines_singleton (l : Text) : unlines [l] = l := by
  simp [unlines, join, List.intercalate, List.intersperse]

/-- Lines with a line feed after each. -/
def closedLines (ls : List Text) : Text := ls.flatMap fun l => l ++ [lf]

theorem length_closedLines (ls : List Text) : (closedLines ls).length = closedLength ls := by
  induction ls with
  | nil => rfl
  | cons l ls ih =>
    rw [closedLength, ← ih, closedLines, List.flatMap_cons, List.length_append,
      List.length_append, List.length_singleton, closedLines]

/-- Lines that others follow are closed. -/
theorem unlines_append (ls : List Text) {ms : List Text} (hms : ms ≠ []) :
    unlines (ls ++ ms) = closedLines ls ++ unlines ms := by
  induction ls with
  | nil => rfl
  | cons l ls ih =>
    obtain ⟨k, ks, hk⟩ := List.exists_cons_of_ne_nil (List.append_ne_nil_of_right_ne_nil ls hms)
    rw [List.cons_append, hk, unlines_cons_cons, ← hk, ih]
    simp [closedLines]

/-- Lines that others precede begin the rest of the text. -/
theorem exists_unlines_append {ls : List Text} (hls : ls ≠ []) (ms : List Text) :
    ∃ after, unlines (ls ++ ms) = unlines ls ++ after := by
  induction ls with
  | nil => exact absurd rfl hls
  | cons l ls ih =>
    cases ls with
    | nil =>
      cases ms with
      | nil => exact ⟨[], by simp⟩
      | cons m ms => exact ⟨lf :: unlines (m :: ms), by
          rw [List.singleton_append, unlines_cons_cons, unlines_singleton]⟩
    | cons k ks =>
      obtain ⟨after, hafter⟩ := ih (List.cons_ne_nil k ks)
      refine ⟨after, ?_⟩
      rw [List.cons_append, List.cons_append, unlines_cons_cons, unlines_cons_cons,
        ← List.cons_append, hafter]
      simp

/-- The lines from `start` up to `stop` are a part of the text, after as much
as the lines before them and their line feeds hold. -/
theorem append_window (content : Text) {start stop : Nat} (hlt : start < stop)
    (hstart : start < (lines content).length) :
    ∃ before after, content = before ++ (unlines (((lines content).take stop).drop start) ++ after) ∧
      before.length = closedLength ((lines content).take start) := by
  have hwindow : ((lines content).take stop).drop start ≠ [] := by
    rw [Ne, List.drop_eq_nil_iff, List.length_take]
    omega
  obtain ⟨after, hafter⟩ := exists_unlines_append hwindow ((lines content).drop stop)
  have hrest : ((lines content).take stop).drop start ++ (lines content).drop stop =
      (lines content).drop start := by
    have h := congrArg (List.drop start) (List.take_append_drop stop (lines content))
    rwa [List.drop_append_of_le_length (by rw [List.length_take]; omega)] at h
  refine ⟨closedLines ((lines content).take start), after, ?_, length_closedLines _⟩
  rw [← hafter, hrest, ← unlines_append _ (by rw [Ne, List.drop_eq_nil_iff]; omega),
    List.take_append_drop, unlines_lines]

end Text

/-! ## §2 Locations -/

namespace Strategy

theorem exact_finds_iff_append {search content : Text} {s : Span} :
    exact.Finds search content s ↔ search ≠ [] ∧ ∃ before after,
      content = before ++ (search ++ after) ∧
        s = ⟨before.length, before.length + search.length⟩ := by
  rw [← takes_iff, Matcher.takes_iff_append]
  constructor
  · rintro ⟨before, x, after, hc, hs, -, hm⟩
    obtain ⟨hne, hlen, r, hr⟩ := literal_eq_some_iff.mp hm
    obtain ⟨rfl, rfl⟩ := List.append_inj hr hlen
    exact ⟨hne, before, after, hc, hs⟩
  · rintro ⟨hne, before, after, hc, hs⟩
    exact ⟨before, search, after, hc, hs, hne, literal_eq_some_iff.mpr ⟨hne, rfl, after, rfl⟩⟩

/-- What a part of a text holds, the text holds further on. -/
theorem Finds.of_part {search part : Text} {s : Span} (h : exact.Finds search part s)
    (before after : Text) : exact.Finds search (before ++ (part ++ after))
      ⟨before.length + s.start, before.length + s.stop⟩ := by
  obtain ⟨hne, b, a, rfl, rfl⟩ := exact_finds_iff_append.mp h
  refine exact_finds_iff_append.mpr ⟨hne, before ++ b, a ++ after, by simp, ?_⟩
  simp [Nat.add_assoc]

theorem exact_finds_of_find? {search content : Text} (hne : search ≠ []) {offset : Nat}
    (h : find? content search = some offset) :
    exact.Finds search content ⟨offset, offset + search.length⟩ :=
  takes_iff.mp (find?_eq_some hne h).1

end Strategy

/-- An occurrence found near a hint is one of the content. -/
theorem findNear_finds {content search : Text} (hne : search ≠ []) {hint window : Int} {offset : Nat}
    (h : findNear content search hint window = some offset) :
    Strategy.exact.Finds search content ⟨offset, offset + search.length⟩ := by
  simp only [findNear] at h
  split at h
  · simp at h
  · rename_i hlt
    obtain ⟨local', hfound, rfl⟩ := Option.map_eq_some_iff.mp h
    have hstop : windowStop (lines content).length hint window ≤ (lines content).length := by
      rw [windowStop]
      omega
    obtain ⟨before, after, hcontent, hlen⟩ :=
      append_window content (Nat.lt_of_not_le hlt) (by omega)
    have hpart := (Strategy.exact_finds_of_find? hne hfound).of_part before after
    rw [← hcontent, hlen, ← Nat.add_assoc] at hpart
    exact hpart

/-- A text that is not empty is located near the hint, as it stands, or as if
there were no hint. -/
theorem locate_cases (content : Text) {search : Text} (hne : search ≠ []) (hint : Option Int)
    (window : Int) :
    (∃ offset, locate content search hint window =
        some (Location.exact content search true offset) ∧
      Strategy.exact.Finds search content ⟨offset, offset + search.length⟩) ∨
    locate content search hint window = locateAnywhere content search := by
  unfold locate
  rw [if_neg hne]
  split
  · split
    · split
      · rename_i offset hfound
        exact .inl ⟨offset, rfl, findNear_finds hne hfound⟩
      · exact .inr rfl
    · exact .inr rfl
  · exact .inr rfl

/-- In the whole text the first place as it stands is taken, and only where
there is none the first place with white space relaxed. -/
inductive FoundAnywhere (content search : Text) : Option Location → Prop
  | exact {offset : Nat}
      (finds : Strategy.exact.Finds search content ⟨offset, offset + search.length⟩)
      (first : ∀ s, Strategy.exact.Finds search content s → offset ≤ s.start) :
      FoundAnywhere content search (some (Location.exact content search false offset))
  | whitespace {s : Span} (no_exact : ∀ s, ¬ Strategy.exact.Finds search content s)
      (finds : Strategy.whitespace.Finds search content s)
      (first : ∀ t, Strategy.whitespace.Finds search content t → s.start ≤ t.start) :
      FoundAnywhere content search (some ⟨s, lineAt content s.start, .whitespace, false⟩)
  | nowhere (no_exact : ∀ s, ¬ Strategy.exact.Finds search content s)
      (no_whitespace : ∀ s, ¬ Strategy.whitespace.Finds search content s) :
      FoundAnywhere content search none

theorem foundAnywhere_locateAnywhere (content : Text) {search : Text} (hne : search ≠ []) :
    FoundAnywhere content search (locateAnywhere content search) := by
  rw [locateAnywhere]
  cases hfind : find? content search with
  | some offset =>
    obtain ⟨htakes, hfirst⟩ := find?_eq_some hne hfind
    exact .exact (takes_literal_iff.mp htakes)
      fun s hs => hfirst s (takes_literal_iff.mpr hs)
  | none =>
    have hno : ∀ s, ¬ Strategy.exact.Finds search content s := by
      rw [find?, if_neg hne, Option.map_eq_none_iff, first?_eq_none_iff (literal_bounded search)]
        at hfind
      exact fun s hs => hfind s (takes_literal_iff.mpr hs)
    have hbounded := Strategy.whitespace.matcher_bounded search
    cases hfirst : first? (Strategy.whitespace.matcher search) content with
    | some s =>
      obtain ⟨htakes, hleast⟩ := first?_eq_some hbounded hfirst
      exact .whitespace hno (Strategy.takes_iff.mp htakes)
        fun t ht => hleast t (Strategy.takes_iff.mpr ht)
    | none =>
      exact .nowhere hno fun s hs =>
        (first?_eq_none_iff hbounded).mp hfirst s (Strategy.takes_iff.mpr hs)

/-- What is located is a place that the strategy named finds, and the line
told is the one it starts on. -/
theorem locate_finds {content search : Text} {hint : Option Int} {window : Int} {place : Location}
    (h : locate content search hint window = some place) :
    place.strategy.Finds search content place.span ∧
      place.line = lineAt content place.span.start := by
  have hne : search ≠ [] := by
    rintro rfl
    simp [locate] at h
  obtain ⟨offset, hnear, hfinds⟩ | hanywhere := locate_cases content hne hint window
  · obtain rfl := Option.some.inj (hnear.symm.trans h)
    exact ⟨hfinds, rfl⟩
  · have hfound := foundAnywhere_locateAnywhere content hne
    rw [← hanywhere, h] at hfound
    cases hfound with
    | exact finds _ => exact ⟨finds, rfl⟩
    | whitespace _ finds _ => exact ⟨finds, rfl⟩

/-- No hint makes a text that stands somewhere impossible to locate, as it
stands or with white space relaxed. -/
theorem locate_eq_none_iff {content search : Text} {hint : Option Int} {window : Int} :
    locate content search hint window = none ↔
      ∀ s, ¬ Strategy.exact.Finds search content s ∧ ¬ Strategy.whitespace.Finds search content s := by
  by_cases hne : search = []
  · subst hne
    have hnone : locate content [] hint window = none := if_pos rfl
    refine iff_of_true hnone fun s => ⟨?_, ?_⟩
    · rintro h
      exact (Strategy.exact_finds_iff_append.mp h).1 rfl
    · rintro ⟨l, hl, -⟩
      exact l.text_ne_nil hl
  · obtain ⟨offset, hnear, hfinds⟩ | hanywhere := locate_cases content hne hint window
    · rw [hnear]
      exact iff_of_false nofun fun h => (h _).1 hfinds
    · have hfound := foundAnywhere_locateAnywhere content hne
      rw [hanywhere]
      generalize locateAnywhere content search = found at hfound ⊢
      cases hfound with
      | exact finds _ => exact iff_of_false nofun fun h => (h _).1 finds
      | whitespace _ finds _ => exact iff_of_false nofun fun h => (h _).2 finds
      | nowhere no_exact no_whitespace =>
        exact iff_of_true rfl fun s => ⟨no_exact s, no_whitespace s⟩

/-- White space is relaxed only for a text that stands nowhere as it is, and
then its first tolerant match is taken. -/
theorem locate_strategy {content search : Text} {hint : Option Int} {window : Int} {place : Location}
    (h : locate content search hint window = some place) :
    place.strategy = .exact ∨ place.strategy = .whitespace ∧
      (∀ s, ¬ Strategy.exact.Finds search content s) ∧
      ∀ s, Strategy.whitespace.Finds search content s → place.span.start ≤ s.start := by
  have hne : search ≠ [] := by
    rintro rfl
    simp [locate] at h
  obtain ⟨offset, hnear, -⟩ | hanywhere := locate_cases content hne hint window
  · obtain rfl := Option.some.inj (hnear.symm.trans h)
    exact .inl rfl
  · have hfound := foundAnywhere_locateAnywhere content hne
    rw [← hanywhere, h] at hfound
    cases hfound with
    | exact _ _ => exact .inl rfl
    | whitespace no_exact _ first => exact .inr ⟨rfl, no_exact, first⟩

end Amend
