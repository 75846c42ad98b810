/-
Amend.Proofs.Words — a text as its words and the white space around them.

A `Layout` writes a text as words with non-empty white space between them
and any white space at its two ends. Every text that is not white space
alone has one (`exists_layout`), and the maximal runs and the words of the
text can be read off it (`runs_text`, `words_text`), so it has only one
(`text_injective`).

  §1 Runs at the front of a text.
  §2 Layouts.
  §3 The runs and the words of a layout.
-/
import Amend.Text.Blank

namespace Amend

/-! ## §1 Runs at the front of a text -/

namespace Text

/-- White space, one symbol at least. -/
def IsGap (t : Text) : Prop := t ≠ [] ∧ ∀ c ∈ t, c.isSpace = true

/-- No white space, and one symbol at least. -/
def IsWord (t : Text) : Prop := t ≠ [] ∧ ∀ c ∈ t, c.isSpace = false

theorem runs_cons_eq_cons (c : Symbol) (t : Text) :
    ∃ x rs, runs (c :: t) = ⟨c.isSpace, x⟩ :: rs := by
  rw [runs]
  split
  · split
    · rename_i h
      exact ⟨_, _, by rw [h]⟩
    · exact ⟨_, _, rfl⟩
  · exact ⟨_, _, rfl⟩

/-- Symbols of one kind that a symbol of the other kind follows, or nothing,
are the first run. -/
theorem runs_append {b : Bool} {x t : Text} (hne : x ≠ []) (hx : ∀ c ∈ x, c.isSpace = b)
    (ht : ∀ c ∈ t.head?, c.isSpace = !b) : runs (x ++ t) = ⟨b, x⟩ :: runs t := by
  induction x with
  | nil => exact absurd rfl hne
  | cons c x ih =>
    have hc : c.isSpace = b := hx c List.mem_cons_self
    cases x with
    | nil =>
      rw [List.singleton_append, runs]
      cases t with
      | nil => simp [runs, hc]
      | cons d t =>
        obtain ⟨y, rs, hrs⟩ := runs_cons_eq_cons d t
        have hd : d.isSpace = !b := ht d rfl
        simp [hrs, hc, hd]
    | cons d x =>
      have h := ih (List.cons_ne_nil d x) fun e he => hx e (List.mem_cons_of_mem c he)
      rw [List.cons_append, runs, h]
      simp [hc]

theorem runs_gap_append {g t : Text} (hg : IsGap g) (ht : ∀ c ∈ t.head?, c.isSpace = false) :
    runs (g ++ t) = ⟨true, g⟩ :: runs t :=
  runs_append hg.1 hg.2 ht

theorem runs_word_append {w t : Text} (hw : IsWord w) (ht : ∀ c ∈ t.head?, c.isSpace = true) :
    runs (w ++ t) = ⟨false, w⟩ :: runs t :=
  runs_append hw.1 hw.2 ht

theorem IsWord.head?_append {w : Text} (hw : IsWord w) (t : Text) :
    ∀ c ∈ (w ++ t).head?, c.isSpace = false := by
  cases w with
  | nil => exact absurd rfl hw.1
  | cons d w =>
    intro c hc
    obtain rfl : d = c := by simpa using hc
    exact hw.2 d List.mem_cons_self

theorem IsGap.head?_append {g : Text} (hg : IsGap g) (t : Text) :
    ∀ c ∈ (g ++ t).head?, c.isSpace = true := by
  cases g with
  | nil => exact absurd rfl hg.1
  | cons d g =>
    intro c hc
    obtain rfl : d = c := by simpa using hc
    exact hg.2 d List.mem_cons_self

/-- The run a stretch of white space is, if it holds anything. -/
def spaceRuns (t : Text) : List Run := if t = [] then [] else [⟨true, t⟩]

theorem runs_space {t : Text} (ht : ∀ c ∈ t, c.isSpace = true) : runs t = spaceRuns t := by
  rw [spaceRuns]
  split
  · rename_i h
    rw [h]
    rfl
  · rename_i h
    simpa [runs] using runs_append (t := []) h ht (by simp)

end Text

/-! ## §2 Layouts -/

open Text

/-- Words with white space between them, each gap beside the word after it,
and what white space there is before the first word and after the last. -/
structure Layout where
  lead : Text
  first : Text
  rest : List (Text × Text)
  trail : Text
  lead_space : ∀ c ∈ lead, c.isSpace = true
  first_word : IsWord first
  rest_alternates : ∀ p ∈ rest, IsGap p.1 ∧ IsWord p.2
  trail_space : ∀ c ∈ trail, c.isSpace = true

namespace Layout

/-- A text without symbols may lead or trail. -/
theorem nil_space : ∀ c ∈ ([] : Text), c.isSpace = true := List.forall_mem_nil _

/-- Gaps and words written one after the other. -/
def inner (rest : List (Text × Text)) : Text := rest.flatMap fun p => p.1 ++ p.2

/-- The text laid out. -/
def text (l : Layout) : Text := l.lead ++ (l.first ++ (inner l.rest ++ l.trail))

/-- The words in order. -/
def words (l : Layout) : List Text := l.first :: l.rest.map Prod.snd

theorem inner_cons (g w : Text) (rest : List (Text × Text)) :
    inner ((g, w) :: rest) = g ++ (w ++ inner rest) := by
  simp [inner]

/-- A symbol put before a layout: white space widens what leads it, and any
other symbol begins a word. -/
theorem exists_cons (l : Layout) (c : Symbol) : ∃ l' : Layout, l'.text = c :: l.text := by
  cases hc : c.isSpace with
  | true =>
    refine ⟨⟨c :: l.lead, l.first, l.rest, l.trail, ?_, l.first_word, l.rest_alternates,
      l.trail_space⟩, rfl⟩
    intro d hd
    rcases List.mem_cons.mp hd with rfl | hd
    · exact hc
    · exact l.lead_space d hd
  | false =>
    by_cases hlead : l.lead = []
    · refine ⟨⟨[], c :: l.first, l.rest, l.trail, by simp, ⟨by simp, ?_⟩, l.rest_alternates,
        l.trail_space⟩, by simp [text, hlead]⟩
      intro d hd
      rcases List.mem_cons.mp hd with rfl | hd
      · exact hc
      · exact l.first_word.2 d hd
    · refine ⟨⟨[], [c], (l.lead, l.first) :: l.rest, l.trail, by simp, ⟨by simp, by simpa using hc⟩,
        ?_, l.trail_space⟩, by simp [text, inner_cons]⟩
      intro p hp
      rcases List.mem_cons.mp hp with rfl | hp
      · exact ⟨⟨hlead, l.lead_space⟩, l.first_word⟩
      · exact l.rest_alternates p hp

end Layout

/-- Every text that is not white space alone has a layout. -/
theorem exists_layout {t : Text} (h : ∃ c ∈ t, c.isSpace = false) :
    ∃ l : Layout, l.text = t := by
  induction t with
  | nil => simp at h
  | cons c t ih =>
    by_cases ht : ∃ d ∈ t, d.isSpace = false
    · obtain ⟨l, hl⟩ := ih ht
      rw [← hl]
      exact l.exists_cons c
    · have hspace : ∀ d ∈ t, d.isSpace = true := by simpa using ht
      have hc : c.isSpace = false := by
        obtain ⟨d, hd, hds⟩ := h
        rcases List.mem_cons.mp hd with rfl | hd
        · exact hds
        · exact absurd ⟨d, hd, hds⟩ ht
      exact ⟨⟨[], [c], [], t, by simp, ⟨by simp, by simpa using hc⟩, by simp, hspace⟩, rfl⟩

/-! ## §3 The runs and the words of a layout -/

namespace Layout

/-- The runs of gaps and words. -/
def innerRuns (rest : List (Text × Text)) : List Run :=
  rest.flatMap fun p => [⟨true, p.1⟩, ⟨false, p.2⟩]

theorem innerRuns_cons (g w : Text) (rest : List (Text × Text)) :
    innerRuns ((g, w) :: rest) = ⟨true, g⟩ :: ⟨false, w⟩ :: innerRuns rest := by
  simp [innerRuns]

/-- What follows a word, gaps and words and then white space, starts with
white space if it starts at all. -/
theorem head?_inner_append {rest : List (Text × Text)}
    (hrest : ∀ p ∈ rest, IsGap p.1 ∧ IsWord p.2) {trail : Text}
    (htrail : ∀ c ∈ trail, c.isSpace = true) :
    ∀ c ∈ (inner rest ++ trail).head?, c.isSpace = true := by
  cases rest with
  | nil =>
    intro c hc
    exact htrail c (List.mem_of_mem_head? (by simpa [inner] using hc))
  | cons p rest =>
    obtain ⟨g, w⟩ := p
    rw [inner_cons, List.append_assoc]
    exact (hrest (g, w) List.mem_cons_self).1.head?_append _

theorem runs_inner_append {rest : List (Text × Text)}
    (hrest : ∀ p ∈ rest, IsGap p.1 ∧ IsWord p.2) {trail : Text}
    (htrail : ∀ c ∈ trail, c.isSpace = true) :
    runs (inner rest ++ trail) = innerRuns rest ++ spaceRuns trail := by
  induction rest with
  | nil => simpa [inner, innerRuns] using runs_space htrail
  | cons p rest ih =>
    obtain ⟨g, w⟩ := p
    obtain ⟨hg, hw⟩ := hrest (g, w) List.mem_cons_self
    have hrest' : ∀ q ∈ rest, IsGap q.1 ∧ IsWord q.2 :=
      fun q hq => hrest q (List.mem_cons_of_mem _ hq)
    rw [inner_cons, innerRuns_cons, List.append_assoc, List.append_assoc,
      runs_gap_append hg (hw.head?_append _),
      runs_word_append hw (head?_inner_append hrest' htrail), ih hrest']
    rfl

/-- The maximal runs of a text are those its layout shows. -/
theorem runs_text (l : Layout) :
    runs l.text =
      spaceRuns l.lead ++ ⟨false, l.first⟩ :: (innerRuns l.rest ++ spaceRuns l.trail) := by
  have hword : runs (l.first ++ (inner l.rest ++ l.trail))
      = ⟨false, l.first⟩ :: (innerRuns l.rest ++ spaceRuns l.trail) := by
    rw [runs_word_append l.first_word (head?_inner_append l.rest_alternates l.trail_space),
      runs_inner_append l.rest_alternates l.trail_space]
  rw [text, spaceRuns]
  split
  · rename_i hlead
    rw [hlead, List.nil_append, List.nil_append, hword]
  · rename_i hlead
    rw [runs_gap_append ⟨hlead, l.lead_space⟩ (l.first_word.head?_append _), hword]
    rfl

theorem solid_spaceRuns (t : Text) : (spaceRuns t).filter (fun r => !r.blank) = [] := by
  rw [spaceRuns]
  split <;> simp

theorem solid_innerRuns (rest : List (Text × Text)) :
    ((innerRuns rest).filter fun r => !r.blank).map Run.text = rest.map Prod.snd := by
  induction rest with
  | nil => rfl
  | cons p rest ih =>
    obtain ⟨g, w⟩ := p
    simp [innerRuns_cons, ih]

/-- The words of a text are those its layout shows. -/
theorem words_text (l : Layout) : Text.words l.text = l.words := by
  simp [Text.words, runs_text, solid_spaceRuns, solid_innerRuns, words]

theorem innerRuns_append_inj {rest rest' : List (Text × Text)} {trail trail' : Text}
    (h : innerRuns rest ++ spaceRuns trail = innerRuns rest' ++ spaceRuns trail') :
    rest = rest' ∧ trail = trail' := by
  induction rest generalizing rest' with
  | nil =>
    cases rest' with
    | nil =>
      refine ⟨rfl, ?_⟩
      by_cases ht : trail = [] <;> by_cases ht' : trail' = [] <;>
        simp_all [innerRuns, spaceRuns]
    | cons p rest' =>
      by_cases ht : trail = [] <;> simp [innerRuns, spaceRuns, ht] at h
  | cons p rest ih =>
    cases rest' with
    | nil => by_cases ht : trail' = [] <;> simp [innerRuns, spaceRuns, ht] at h
    | cons p' rest' =>
      obtain ⟨g, w⟩ := p
      obtain ⟨g', w'⟩ := p'
      simp only [innerRuns_cons, List.cons_append, List.cons.injEq, Run.mk.injEq, true_and] at h
      obtain ⟨rfl, rfl, h⟩ := h
      obtain ⟨rfl, rfl⟩ := ih h
      exact ⟨rfl, rfl⟩

/-- A text has one layout at most. -/
theorem text_injective {l l' : Layout} (h : l.text = l'.text) : l = l' := by
  have hruns := l.runs_text
  rw [h, l'.runs_text] at hruns
  obtain ⟨lead, first, rest, trail, _, _, _, _⟩ := l
  obtain ⟨lead', first', rest', trail', _, _, _, _⟩ := l'
  simp only at hruns
  by_cases hl : lead = [] <;> by_cases hl' : lead' = [] <;>
    simp [spaceRuns, hl, hl'] at hruns
  · obtain ⟨rfl, hrest⟩ := hruns
    obtain ⟨rfl, rfl⟩ := innerRuns_append_inj hrest
    subst hl hl'
    rfl
  · obtain ⟨rfl, rfl, hrest⟩ := hruns
    obtain ⟨rfl, rfl⟩ := innerRuns_append_inj hrest
    rfl

end Layout

/-- A text is white space alone, or it has a layout. -/
theorem space_or_layout (t : Text) :
    (∀ c ∈ t, c.isSpace = true) ∨ ∃ l : Layout, l.text = t := by
  by_cases h : ∃ c ∈ t, c.isSpace = false
  · exact .inr (exists_layout h)
  · exact .inl (by simpa using h)

end Amend
