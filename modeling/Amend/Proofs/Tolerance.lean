/-
Amend.Proofs.Tolerance — what a relaxed search text matches.

A search text is laid out as words with white space around them, and the
places it matches tolerantly are described from that layout alone, without
a pattern: each run of white space says what may stand in its place
(`Layout.Shape`). The pieces of a tolerant pattern take just these places
(`takes_pieces_iff`).

  §1 Pieces       — what each piece takes, as a relation.
  §2 Shapes       — the places a layout may match.
  §3 Tolerance    — the pieces of a tolerant pattern take these places.
  §4 Tokens       — the same for the words alone.
  §5 Search texts without words.
-/
import Amend.Matching
import Amend.Proofs.Search
import Amend.Proofs.Words

namespace Amend

open Text

/-! ## §1 Pieces -/

theorem Symbol.isSpace_of_isBlank {c : Symbol} (h : c.isBlank = true) : c.isSpace = true := by
  simp only [Symbol.isBlank, Symbol.is, Bool.or_eq_true, beq_iff_eq] at h
  rcases h with rfl | rfl <;> decide

/-- Tabs and spaces, if anything. -/
def AllBlank (t : Text) : Prop := ∀ c ∈ t, c.isBlank = true

/-- Exactly `n` line feeds, each after tabs and spaces, if any. -/
inductive LineBreaks : Nat → Text → Prop
  | none : LineBreaks 0 []
  | more {n : Nat} {b t : Text} (blank : AllBlank b) (rest : LineBreaks n t) :
      LineBreaks (n + 1) (b ++ lf :: t)

/-- All of the text has `p`, and what follows it does not go on so. -/
def Longest (p : Symbol → Bool) (x after : Text) : Prop :=
  (∀ c ∈ x, p c = true) ∧ ∀ c ∈ after.head?, p c = false

theorem Longest.takeWhile_append {p : Symbol → Bool} {x after : Text} (h : Longest p x after) :
    (x ++ after).takeWhile p = x := by
  have hstop : after.takeWhile p = [] := by
    cases after with
    | nil => rfl
    | cons c t => exact List.takeWhile_cons_of_neg (by simp [h.2 c rfl])
  rw [List.takeWhile_append_of_pos h.1, hstop, List.append_nil]

/-- Every text starts with such a stretch. -/
theorem exists_longest (p : Symbol → Bool) (t : Text) :
    ∃ x after, t = x ++ after ∧ Longest p x after := by
  refine ⟨t.takeWhile p, t.dropWhile p, List.takeWhile_append_dropWhile.symm,
    List.all_eq_true.mp List.all_takeWhile, fun c hc => ?_⟩
  have hstop := List.head?_dropWhile_not p t
  rw [Option.mem_def.mp hc] at hstop
  simpa using hstop

namespace Piece

/-- The piece takes `x` where `after` follows. -/
def Fits : Piece → (x after : Text) → Prop
  | word w, x, _ => x = w
  | blanks, x, after => x ≠ [] ∧ Longest Symbol.isBlank x after
  | indent, x, after => Longest Symbol.isBlank x after
  | breaks n, x, _ => LineBreaks n x
  | gap, x, after => x ≠ [] ∧ Longest Symbol.isSpace x after

/-- The pieces take `x` one after the other where `after` follows. -/
def FitsAll : List Piece → (x after : Text) → Prop
  | [], x, _ => x = []
  | p :: ps, x, after => ∃ a b, x = a ++ b ∧ p.Fits a (b ++ after) ∧ FitsAll ps b after

theorem blankCount_append {x after : Text} (h : Longest Symbol.isBlank x after) :
    blankCount (x ++ after) = x.length := by
  rw [blankCount, h.takeWhile_append]

theorem takeBreaks_append {n : Nat} {x : Text} (h : LineBreaks n x) (after : Text) :
    takeBreaks n (x ++ after) = some x.length := by
  induction h with
  | none => rfl
  | @more n b t blank _ ih =>
    have hk : blankCount (b ++ (lf :: (t ++ after))) = b.length :=
      blankCount_append ⟨blank, by simp [Symbol.isBlank, Symbol.is, lf]⟩
    rw [List.append_assoc, List.cons_append, takeBreaks]
    simp only [hk, List.drop_left, if_true, ih, Option.map_some, List.length_append,
      List.length_cons]
    congr 1
    omega

theorem exists_of_takeBreaks {n k : Nat} {t : Text} (h : takeBreaks n t = some k) :
    ∃ x after, t = x ++ after ∧ x.length = k ∧ LineBreaks n x := by
  induction n generalizing t k with
  | zero =>
    obtain rfl : 0 = k := by simpa [takeBreaks] using h
    exact ⟨[], t, rfl, rfl, .none⟩
  | succ n ih =>
    obtain ⟨b, r, rfl, hb⟩ := exists_longest Symbol.isBlank t
    rw [takeBreaks, blankCount_append hb, List.drop_left] at h
    cases r with
    | nil => simp at h
    | cons c r =>
      by_cases hc : c = lf
      · simp only [hc, if_true, Option.map_eq_some_iff] at h
        obtain ⟨j, hj, rfl⟩ := h
        obtain ⟨x, after, rfl, hlen, hx⟩ := ih hj
        refine ⟨b ++ lf :: x, after, by simp [hc], ?_, .more hb.1 hx⟩
        simp only [List.length_append, List.length_cons, hlen]
        omega
      · simp [hc] at h

/-- Where a piece fits, it takes just that. -/
theorem take_append {p : Piece} {x after : Text} (h : p.Fits x after) :
    p.take (x ++ after) = some x.length := by
  cases p with
  | word w =>
    obtain rfl : x = w := h
    simp [take]
  | blanks => simp [take, blankCount_append h.2, h.1]
  | indent => simp [take, blankCount_append h]
  | breaks n => exact takeBreaks_append h after
  | gap => simp [take, h.2.takeWhile_append, h.1]

/-- Whatever a piece takes, it fits there. -/
theorem exists_of_take {p : Piece} {t : Text} {k : Nat} (h : p.take t = some k) :
    ∃ x after, t = x ++ after ∧ x.length = k ∧ p.Fits x after := by
  cases p with
  | word w =>
    simp only [take, List.isPrefixOf_iff_prefix, Option.ite_none_right_eq_some,
      Option.some.injEq] at h
    obtain ⟨⟨after, rfl⟩, rfl⟩ := h
    exact ⟨w, after, rfl, rfl, rfl⟩
  | blanks =>
    obtain ⟨x, after, rfl, hx⟩ := exists_longest Symbol.isBlank t
    simp only [take, blankCount_append hx, Option.ite_none_left_eq_some, Option.some.injEq] at h
    exact ⟨x, after, rfl, h.2, mt List.length_eq_zero_iff.mpr h.1, hx⟩
  | indent =>
    obtain ⟨x, after, rfl, hx⟩ := exists_longest Symbol.isBlank t
    simp only [take, blankCount_append hx, Option.some.injEq] at h
    exact ⟨x, after, rfl, h, hx⟩
  | breaks n => exact exists_of_takeBreaks h
  | gap =>
    obtain ⟨x, after, rfl, hx⟩ := exists_longest Symbol.isSpace t
    simp only [take, hx.takeWhile_append, Option.ite_none_left_eq_some, Option.some.injEq] at h
    exact ⟨x, after, rfl, h.2, mt List.length_eq_zero_iff.mpr h.1, hx⟩

theorem takeAll_append {ps : List Piece} {x after : Text} (h : FitsAll ps x after) :
    takeAll ps (x ++ after) = some x.length := by
  induction ps generalizing x with
  | nil =>
    obtain rfl : x = [] := h
    rfl
  | cons p ps ih =>
    obtain ⟨a, b, rfl, ha, hb⟩ := h
    rw [List.append_assoc, takeAll, take_append ha]
    simp [ih hb]

theorem exists_of_takeAll {ps : List Piece} {t : Text} {k : Nat} (h : takeAll ps t = some k) :
    ∃ x after, t = x ++ after ∧ x.length = k ∧ FitsAll ps x after := by
  induction ps generalizing t k with
  | nil =>
    obtain rfl : 0 = k := by simpa [takeAll] using h
    exact ⟨[], t, rfl, rfl, rfl⟩
  | cons p ps ih =>
    rw [takeAll] at h
    cases hp : p.take t with
    | none => simp [hp] at h
    | some j =>
      obtain ⟨a, r, rfl, rfl, ha⟩ := exists_of_take hp
      simp only [hp, List.drop_left, Option.map_eq_some_iff] at h
      obtain ⟨i, hi, rfl⟩ := h
      obtain ⟨b, after, rfl, rfl, hb⟩ := ih hi
      exact ⟨a ++ b, after, by simp, by simp, a, b, rfl, ha, hb⟩

theorem takeAll_append_iff {ps : List Piece} {x after : Text} :
    takeAll ps (x ++ after) = some x.length ↔ FitsAll ps x after := by
  refine ⟨fun h => ?_, takeAll_append⟩
  obtain ⟨x', after', heq, hlen, hfits⟩ := exists_of_takeAll h
  obtain ⟨rfl, rfl⟩ := List.append_inj heq hlen.symm
  exact hfits

theorem takeAll_bounded (ps : List Piece) : Matcher.Bounded (takeAll ps) := by
  intro t n h
  obtain ⟨x, after, rfl, rfl, -⟩ := exists_of_takeAll h
  simp

theorem fitsAll_append {ps qs : List Piece} {x after : Text} :
    FitsAll (ps ++ qs) x after ↔
      ∃ a b, x = a ++ b ∧ FitsAll ps a (b ++ after) ∧ FitsAll qs b after := by
  induction ps generalizing x with
  | nil =>
    constructor
    · exact fun h => ⟨[], x, rfl, rfl, h⟩
    · rintro ⟨a, b, rfl, rfl, h⟩
      exact h
  | cons p ps ih =>
    simp only [List.cons_append, FitsAll, ih]
    constructor
    · rintro ⟨a, b, rfl, ha, c, d, rfl, hc, hd⟩
      exact ⟨a ++ c, d, by simp, ⟨a, c, rfl, by simpa using ha, hc⟩, hd⟩
    · rintro ⟨a, b, rfl, ⟨c, d, rfl, hc, hd⟩, hb⟩
      exact ⟨c, d ++ b, by simp, by simpa using hc, d, b, rfl, hd, hb⟩

end Piece

/-! ## §2 Shapes -/

/-- What may lead a place where the search text starts with `run`. -/
def LeadFits (run a : Text) : Prop :=
  if run = [] then a = []
  else if lf ∈ run then ∃ b i, a = b ++ i ∧ LineBreaks (run.count lf) b ∧ AllBlank i
  else a ≠ [] ∧ AllBlank a

/-- What may stand between and after the words that follow the first: a gap
of the search text that breaks the line may be any white space, any other
must stay on its line. Gaps are as long as they can be. -/
inductive InnerFits : List (Text × Text) → Text → Prop
  | nil : InnerFits [] []
  | cons {g w v t : Text} {rest : List (Text × Text)} (ne : v ≠ [])
      (longest : Longest (if lf ∈ g then Symbol.isSpace else Symbol.isBlank) v (w ++ t))
      (more : InnerFits rest t) : InnerFits ((g, w) :: rest) (v ++ (w ++ t))

/-- What may end a place where the search text ends in `run`; tabs and
spaces after the last line break are taken to the last, unless the search
text ends with that break. -/
def TrailFits (run z after : Text) : Prop :=
  if run = [] then z = []
  else if lf ∈ run then
    if run.getLast? = some lf then LineBreaks (run.count lf) z
    else ∃ b i, z = b ++ i ∧ LineBreaks (run.count lf) b ∧ Longest Symbol.isBlank i after
  else z ≠ [] ∧ Longest Symbol.isBlank z after

namespace Layout

/-- The text `x` has the shape of the layout where `after` follows. -/
def Shape (l : Layout) (x after : Text) : Prop :=
  ∃ a m z, x = a ++ (l.first ++ (m ++ z)) ∧
    LeadFits l.lead a ∧ InnerFits l.rest m ∧ TrailFits l.trail z after

/-- The span of the content has the shape of the layout. -/
def ShapedAt (l : Layout) (content : Text) (s : Span) : Prop :=
  ∃ before x after, content = before ++ (x ++ after) ∧
    s = ⟨before.length, before.length + x.length⟩ ∧ l.Shape x after

end Layout

theorem LineBreaks.count {n : Nat} {t : Text} (h : LineBreaks n t) : t.count lf = n := by
  induction h with
  | none => rfl
  | more blank _ ih =>
    rw [List.count_append, List.count_cons_self, ih, List.count_eq_zero_of_not_mem, Nat.zero_add]
    intro hlf
    exact absurd (blank lf hlf) (by decide)

theorem AllBlank.count {t : Text} (h : AllBlank t) : t.count lf = 0 :=
  List.count_eq_zero_of_not_mem fun hlf => absurd (h lf hlf) (by decide)

theorem LineBreaks.isSpace {n : Nat} {t : Text} (h : LineBreaks n t) :
    ∀ c ∈ t, c.isSpace = true := by
  induction h with
  | none => simp
  | more blank _ ih =>
    intro c hc
    rcases List.mem_append.mp hc with hc | hc
    · exact Symbol.isSpace_of_isBlank (blank c hc)
    · rcases List.mem_cons.mp hc with rfl | hc
      · decide
      · exact ih c hc

theorem AllBlank.isSpace {t : Text} (h : AllBlank t) : ∀ c ∈ t, c.isSpace = true :=
  fun c hc => Symbol.isSpace_of_isBlank (h c hc)

theorem LineBreaks.getLast? {n : Nat} {t : Text} (h : LineBreaks n t) (hn : n ≠ 0) :
    t.getLast? = some lf := by
  induction h with
  | none => exact absurd rfl hn
  | @more n b t _ rest ih =>
    cases rest with
    | none => simp
    | more blank rest =>
      rw [List.getLast?_append, List.getLast?_cons, ih (Nat.succ_ne_zero _)]
      rfl

theorem LeadFits.isSpace {run a : Text} (h : LeadFits run a) : ∀ c ∈ a, c.isSpace = true := by
  rw [LeadFits] at h
  split at h
  · simp [h]
  · split at h
    · obtain ⟨b, i, rfl, hb, hi⟩ := h
      intro c hc
      rcases List.mem_append.mp hc with hc | hc
      · exact hb.isSpace c hc
      · exact hi.isSpace c hc
    · exact h.2.isSpace

/-- No line break more than the search text starts with. -/
theorem LeadFits.count {run a : Text} (h : LeadFits run a) : a.count lf = run.count lf := by
  rw [LeadFits] at h
  split at h
  · rename_i hrun
    rw [h, hrun]
  · split at h
    · obtain ⟨b, i, rfl, hb, hi⟩ := h
      rw [List.count_append, hb.count, hi.count, Nat.add_zero]
    · rename_i hlf
      rw [h.2.count, List.count_eq_zero_of_not_mem hlf]

theorem TrailFits.isSpace {run z after : Text} (h : TrailFits run z after) :
    ∀ c ∈ z, c.isSpace = true := by
  rw [TrailFits] at h
  split at h
  · simp [h]
  · split at h
    · split at h
      · exact h.isSpace
      · obtain ⟨b, i, rfl, hb, hi⟩ := h
        intro c hc
        rcases List.mem_append.mp hc with hc | hc
        · exact hb.isSpace c hc
        · exact Symbol.isSpace_of_isBlank (hi.1 c hc)
    · exact fun c hc => Symbol.isSpace_of_isBlank (h.2.1 c hc)

/-- No line break more than the search text ends with. -/
theorem TrailFits.count {run z after : Text} (h : TrailFits run z after) :
    z.count lf = run.count lf := by
  rw [TrailFits] at h
  split at h
  · rename_i hrun
    rw [h, hrun]
  · split at h
    · split at h
      · exact h.count
      · obtain ⟨b, i, rfl, hb, hi⟩ := h
        rw [List.count_append, hb.count, AllBlank.count hi.1, Nat.add_zero]
    · rename_i hlf
      rw [AllBlank.count h.2.1, List.count_eq_zero_of_not_mem hlf]

/-- Nothing of the line after, if the search text ends with a line break. -/
theorem TrailFits.getLast? {run z after : Text} (h : TrailFits run z after)
    (hlast : run.getLast? = some lf) : z.getLast? = some lf := by
  have hlf : lf ∈ run := List.mem_of_getLast? hlast
  have hne : run ≠ [] := List.ne_nil_of_mem hlf
  rw [TrailFits, if_neg hne, if_pos hlf, if_pos hlast] at h
  exact LineBreaks.getLast? h (by rw [Ne, List.count_eq_zero]; exact fun hno => hno hlf)

theorem InnerFits.exists_inner {rest : List (Text × Text)} {m : Text} (h : InnerFits rest m)
    (hrest : ∀ p ∈ rest, IsGap p.1 ∧ IsWord p.2) :
    ∃ rest', Layout.inner rest' = m ∧ (∀ p ∈ rest', IsGap p.1 ∧ IsWord p.2) ∧
      rest'.map Prod.snd = rest.map Prod.snd := by
  induction h with
  | nil => exact ⟨[], rfl, by simp, rfl⟩
  | @cons g w v t rest ne longest _ ih =>
    obtain ⟨rest', rfl, hrest', hwords⟩ := ih fun p hp => hrest p (List.mem_cons_of_mem _ hp)
    have hv : ∀ c ∈ v, c.isSpace = true := by
      intro c hc
      have hp := longest.1 c hc
      split at hp
      · exact hp
      · exact Symbol.isSpace_of_isBlank hp
    refine ⟨(v, w) :: rest', Layout.inner_cons v w rest', ?_, by simp [hwords]⟩
    intro p hp
    rcases List.mem_cons.mp hp with rfl | hp
    · exact ⟨⟨ne, hv⟩, (hrest (g, w) List.mem_cons_self).2⟩
    · exact hrest' p hp

namespace Layout

/-- A text of the shape of a layout is itself laid out with the same words,
with as many line breaks at either end, and ends its last line if the
search text does. -/
theorem Shape.exists_layout {l : Layout} {x after : Text} (h : l.Shape x after) :
    ∃ l' : Layout, l'.text = x ∧ l'.words = l.words ∧
      l'.lead.count lf = l.lead.count lf ∧ l'.trail.count lf = l.trail.count lf ∧
      (l.trail.getLast? = some lf → l'.trail.getLast? = some lf) := by
  obtain ⟨a, m, z, rfl, ha, hm, hz⟩ := h
  obtain ⟨rest', rfl, hrest', hwords⟩ := hm.exists_inner l.rest_alternates
  exact ⟨⟨a, l.first, rest', z, ha.isSpace, l.first_word, hrest', hz.isSpace⟩, rfl,
    by simp [words, hwords], ha.count, hz.count, hz.getLast?⟩

/-! ## §3 Tolerance -/

/-- The pieces of the white space a search text starts with. -/
def leadPieces (run : Text) : List Piece :=
  if run = [] then [] else if lf ∈ run then [.breaks (run.count lf), .indent] else [.blanks]

/-- The pieces of the gaps and the words after them. -/
def innerPieces (rest : List (Text × Text)) : List Piece :=
  rest.flatMap fun p => [if lf ∈ p.1 then .gap else .blanks, .word p.2]

/-- The pieces of the white space a search text ends in. -/
def trailPieces (run : Text) : List Piece :=
  if run = [] then [] else if lf ∈ run then Pattern.trailing run else [.blanks]

theorem innerPieces_cons (g w : Text) (rest : List (Text × Text)) :
    innerPieces ((g, w) :: rest) =
      (if lf ∈ g then .gap else .blanks) :: .word w :: innerPieces rest := by
  simp [innerPieces]

theorem relax_innerRuns (rest : List (Text × Text)) (trail : Text) :
    Pattern.relax false (innerRuns rest ++ spaceRuns trail) =
      innerPieces rest ++ trailPieces trail := by
  induction rest with
  | nil =>
    by_cases ht : trail = [] <;> by_cases hlf : lf ∈ trail <;>
      simp [innerRuns, innerPieces, spaceRuns, trailPieces, Pattern.relax, ht, hlf]
  | cons p rest ih =>
    obtain ⟨g, w⟩ := p
    rw [innerRuns_cons, innerPieces_cons, List.cons_append, List.cons_append, Pattern.relax,
      Pattern.relax, ih]
    by_cases hlf : lf ∈ g <;> simp [hlf]

theorem relax_lead (lead w : Text) (rs : List Run) :
    Pattern.relax true (spaceRuns lead ++ ⟨false, w⟩ :: rs) =
      leadPieces lead ++ .word w :: Pattern.relax false rs := by
  by_cases hl : lead = [] <;> by_cases hlf : lf ∈ lead <;>
    simp [spaceRuns, leadPieces, Pattern.relax, hl, hlf]

/-- The pieces a layout is relaxed to. -/
def pieces (l : Layout) : List Piece :=
  leadPieces l.lead ++ .word l.first :: (innerPieces l.rest ++ trailPieces l.trail)

theorem tolerant_text (l : Layout) : Pattern.tolerant l.text = .pieces l.pieces := by
  have hsolid : ¬ (runs l.text).all (·.blank) = true := by simp [l.runs_text]
  have h : Pattern.tolerant l.text = .pieces (Pattern.relax true (runs l.text)) :=
    if_neg hsolid
  rw [h, l.runs_text, relax_lead, relax_innerRuns, pieces]

/-- Before a word, a stretch is as long as it can be. -/
theorem longest_append_word {p : Symbol → Bool} (hp : ∀ c, p c = true → c.isSpace = true)
    {w : Text} (hw : IsWord w) {x t : Text} : Longest p x (w ++ t) ↔ ∀ c ∈ x, p c = true := by
  refine ⟨fun h => h.1, fun h => ⟨h, fun c hc => ?_⟩⟩
  have hsolid := hw.head?_append t c hc
  cases hpc : p c with
  | false => rfl
  | true => simp [hp c hpc] at hsolid

theorem fitsAll_singleton {p : Piece} {x after : Text} :
    Piece.FitsAll [p] x after ↔ p.Fits x after := by
  constructor
  · rintro ⟨a, b, rfl, ha, rfl⟩
    simpa using ha
  · exact fun h => ⟨x, [], by simp, by simpa using h, rfl⟩

theorem fitsAll_leadPieces {run w : Text} (hw : IsWord w) {a t : Text} :
    Piece.FitsAll (leadPieces run) a (w ++ t) ↔ LeadFits run a := by
  have hblank {x : Text} : Longest Symbol.isBlank x (w ++ t) ↔ AllBlank x :=
    longest_append_word (fun _ => Symbol.isSpace_of_isBlank) hw
  rw [leadPieces, LeadFits]
  split
  · exact Iff.rfl
  · split
    · constructor
      · rintro ⟨b, i, rfl, hb, hi⟩
        exact ⟨b, i, rfl, hb, hblank.mp (fitsAll_singleton.mp hi)⟩
      · rintro ⟨b, i, rfl, hb, hi⟩
        exact ⟨b, i, rfl, hb, fitsAll_singleton.mpr (hblank.mpr hi)⟩
    · rw [fitsAll_singleton, Piece.Fits, hblank]

theorem fitsAll_trailPieces {run z after : Text} :
    Piece.FitsAll (trailPieces run) z after ↔ TrailFits run z after := by
  rw [trailPieces, TrailFits, Pattern.trailing]
  split
  · exact Iff.rfl
  · split
    · split
      · exact fitsAll_singleton
      · constructor
        · rintro ⟨b, i, rfl, hb, hi⟩
          exact ⟨b, i, rfl, hb, fitsAll_singleton.mp hi⟩
        · rintro ⟨b, i, rfl, hb, hi⟩
          exact ⟨b, i, rfl, hb, fitsAll_singleton.mpr hi⟩
    · exact fitsAll_singleton

theorem fitsAll_innerPieces {rest : List (Text × Text)}
    (hrest : ∀ p ∈ rest, IsGap p.1 ∧ IsWord p.2) {m after : Text} :
    Piece.FitsAll (innerPieces rest) m after ↔ InnerFits rest m := by
  induction rest generalizing m with
  | nil =>
    constructor
    · intro h
      obtain rfl : m = [] := h
      exact .nil
    · intro h
      cases h
      rfl
  | cons p rest ih =>
    obtain ⟨g, w⟩ := p
    have hw : IsWord w := (hrest (g, w) List.mem_cons_self).2
    have hkind : ∀ c, (if lf ∈ g then Symbol.isSpace else Symbol.isBlank) c = true →
        c.isSpace = true := by
      intro c hc
      split at hc
      · exact hc
      · exact Symbol.isSpace_of_isBlank hc
    have hfits {v t : Text} : (if lf ∈ g then Piece.gap else Piece.blanks).Fits v t ↔
        v ≠ [] ∧ Longest (if lf ∈ g then Symbol.isSpace else Symbol.isBlank) v t := by
      split <;> exact Iff.rfl
    have ih := @ih fun q hq => hrest q (List.mem_cons_of_mem _ hq)
    rw [innerPieces_cons]
    constructor
    · rintro ⟨v, b, rfl, hv, c, t, rfl, rfl, ht⟩
      rw [hfits, List.append_assoc, longest_append_word hkind hw] at hv
      exact .cons hv.1 ((longest_append_word hkind hw).mpr hv.2) (ih.mp ht)
    · intro h
      cases h with
      | @cons _ _ v t _ ne longest more =>
        refine ⟨v, w ++ t, rfl, ?_, w, t, rfl, rfl, ih.mpr more⟩
        rw [hfits, List.append_assoc, longest_append_word hkind hw]
        exact ⟨ne, (longest_append_word hkind hw).mp longest⟩

/-- The pieces of a layout take what has its shape. -/
theorem fitsAll_pieces {l : Layout} {x after : Text} :
    Piece.FitsAll l.pieces x after ↔ l.Shape x after := by
  rw [pieces, Piece.fitsAll_append]
  constructor
  · rintro ⟨a, b, rfl, ha, w, c, rfl, rfl, hc⟩
    obtain ⟨m, z, rfl, hm, hz⟩ := Piece.fitsAll_append.mp hc
    rw [List.append_assoc, fitsAll_leadPieces l.first_word] at ha
    exact ⟨a, m, z, rfl, ha, (fitsAll_innerPieces l.rest_alternates).mp hm,
      fitsAll_trailPieces.mp hz⟩
  · rintro ⟨a, m, z, rfl, ha, hm, hz⟩
    refine ⟨a, l.first ++ (m ++ z), rfl, ?_, l.first, m ++ z, rfl, rfl,
      Piece.fitsAll_append.mpr ⟨m, z, rfl, (fitsAll_innerPieces l.rest_alternates).mpr hm,
        fitsAll_trailPieces.mpr hz⟩⟩
    rw [List.append_assoc, fitsAll_leadPieces l.first_word]
    exact ha

theorem text_ne_nil (l : Layout) : l.text ≠ [] := by
  simp [text, l.first_word.1]

theorem Shape.ne_nil {l : Layout} {x after : Text} (h : l.Shape x after) : x ≠ [] := by
  obtain ⟨l', rfl, -⟩ := h.exists_layout
  exact l'.text_ne_nil

/-- The pieces of a layout take the places that have its shape. -/
theorem takes_pieces_iff {l : Layout} {content : Text} {s : Span} :
    Matcher.Takes (Piece.takeAll l.pieces) content s ↔ l.ShapedAt content s := by
  rw [Matcher.takes_iff_append]
  constructor
  · rintro ⟨before, x, after, hc, hs, -, hm⟩
    exact ⟨before, x, after, hc, hs, fitsAll_pieces.mp (Piece.takeAll_append_iff.mp hm)⟩
  · rintro ⟨before, x, after, hc, hs, hx⟩
    exact ⟨before, x, after, hc, hs, hx.ne_nil,
      Piece.takeAll_append_iff.mpr (fitsAll_pieces.mpr hx)⟩

/-! ## §4 Tokens -/

/-- The words of a layout alone, each on a line of its own. -/
def bare (l : Layout) : Layout where
  lead := []
  first := l.first
  rest := l.rest.map fun p => ([lf], p.2)
  trail := []
  lead_space := nil_space
  first_word := l.first_word
  rest_alternates := by
    intro p hp
    obtain ⟨q, hq, rfl⟩ := List.mem_map.mp hp
    exact ⟨⟨by simp, by simp [lf]; decide⟩, (l.rest_alternates q hq).2⟩
  trail_space := nil_space

theorem intersperse_words (w : Text) (ws : List Text) :
    ((w :: ws).map Piece.word).intersperse .gap =
      .word w :: innerPieces (ws.map fun v => ([lf], v)) := by
  induction ws generalizing w with
  | nil => rfl
  | cons v ws ih =>
    have h := ih v
    simp only [List.map_cons] at h ⊢
    rw [innerPieces_cons, ← h]
    simp

/-- Words alone are matched as a search text whose gaps are line breaks. -/
theorem tokens_text (l : Layout) : Pattern.tokens l.text = .pieces l.bare.pieces := by
  have hpieces : l.bare.pieces = .word l.first :: innerPieces (l.bare.rest) := by
    simp [pieces, leadPieces, trailPieces, bare]
  have hinter := intersperse_words l.first (l.rest.map Prod.snd)
  rw [List.map_map] at hinter
  rw [Pattern.tokens, words_text, words, hpieces]
  exact congrArg Pattern.pieces hinter

theorem innerFits_bare {rest : List (Text × Text)} (hrest : ∀ p ∈ rest, IsGap p.1 ∧ IsWord p.2) :
    InnerFits (rest.map fun p => ([lf], p.2)) (inner rest) := by
  induction rest with
  | nil => exact .nil
  | cons p rest ih =>
    obtain ⟨g, w⟩ := p
    obtain ⟨hg, hw⟩ := hrest (g, w) List.mem_cons_self
    rw [inner_cons]
    refine .cons hg.1 ?_ (ih fun q hq => hrest q (List.mem_cons_of_mem _ hq))
    rw [if_pos (List.mem_singleton_self lf), longest_append_word (fun _ => id) hw]
    exact hg.2

/-- Words alone match the same words with any white space between them. -/
theorem bare_shape_iff {l : Layout} {x after : Text} :
    l.bare.Shape x after ↔
      ∃ l' : Layout, l'.text = x ∧ l'.lead = [] ∧ l'.trail = [] ∧ l'.words = l.words := by
  constructor
  · rintro ⟨a, m, z, rfl, ha, hm, hz⟩
    obtain rfl : a = [] := by simpa [LeadFits, bare] using ha
    obtain rfl : z = [] := by simpa [TrailFits, bare] using hz
    obtain ⟨rest', rfl, hrest', hwords⟩ := hm.exists_inner l.bare.rest_alternates
    refine ⟨⟨[], l.first, rest', [], by simp, l.first_word, hrest', by simp⟩, rfl, rfl, rfl, ?_⟩
    simpa [words, bare, Function.comp_def] using hwords
  · rintro ⟨l', rfl, hlead, htrail, hwords⟩
    obtain ⟨hfirst, hrest⟩ : l'.first = l.first ∧ l'.rest.map Prod.snd = l.rest.map Prod.snd := by
      simpa [words] using hwords
    have hmap : l.bare.rest = l'.rest.map fun p => ([lf], p.2) := by
      have := congrArg (List.map fun w => (([lf], w) : Text × Text)) hrest
      simpa [bare, List.map_map, Function.comp_def] using this.symm
    refine ⟨[], inner l'.rest, [], ?_, ?_, ?_, ?_⟩
    · simp [text, hlead, htrail, hfirst, bare]
    · simp [LeadFits, bare]
    · rw [hmap]
      exact innerFits_bare l'.rest_alternates
    · simp [TrailFits, bare]

end Layout

/-! ## §5 Search texts without words -/

theorem Text.spaceRuns_blank (t : Text) : (spaceRuns t).all (·.blank) = true := by
  rw [spaceRuns]
  split <;> simp

theorem Pattern.tolerant_of_space {search : Text} (h : ∀ c ∈ search, c.isSpace = true) :
    Pattern.tolerant search = .never :=
  if_pos (by rw [runs_space h, spaceRuns_blank])

theorem Text.words_of_space {t : Text} (h : ∀ c ∈ t, c.isSpace = true) : Text.words t = [] := by
  rw [Text.words, runs_space h, Layout.solid_spaceRuns, List.map_nil]

theorem Pattern.tokens_of_space {search : Text} (h : ∀ c ∈ search, c.isSpace = true) :
    Pattern.tokens search = .never := by
  rw [Pattern.tokens, words_of_space h]

end Amend
