/-
Amend.Proofs.Backtracking — giving symbols back finds nothing new.

A pattern takes each piece as long as it can and never tries again. As a
regular expression the same pattern is searched with backtracking: every
repetition tries its longest stretch first and then shorter ones. `waysAll`
lists all ways in that order, and its first is what the pattern takes
(`head?_waysAll`), because a shorter stretch leaves a symbol that what
follows cannot start with.

  §1 All ways to take pieces, in the order of a search.
  §2 Pieces that settle at once.
  §3 The patterns of a search text.
-/
import Amend.Proofs.Tolerance

namespace Amend

open Text

/-! ## §1 All ways -/

namespace Piece

/-- The lengths a repetition tries: `n` first, and `least` last. -/
def descending (least : Nat) : (n : Nat) → List Nat
  | 0 => if least = 0 then [0] else []
  | n + 1 => if least ≤ n + 1 then (n + 1) :: descending least n else []

/-- All ways to take `n` line breaks with tabs and spaces before each. -/
def breakWays : (n : Nat) → Text → List Nat
  | 0, _ => [0]
  | n + 1, t =>
    (descending 0 (blankCount t)).flatMap fun k =>
      match t.drop k with
      | c :: r => if c = lf then (breakWays n r).map (k + 1 + ·) else []
      | [] => []

/-- All ways to take a piece, in the order a search tries them. -/
def ways : Piece → Text → List Nat
  | word w, t => if w.isPrefixOf t then [w.length] else []
  | blanks, t => descending 1 (blankCount t)
  | indent, t => descending 0 (blankCount t)
  | breaks n, t => breakWays n t
  | gap, t => descending 1 (t.takeWhile Symbol.isSpace).length

/-- All ways to take the pieces one after the other: another way of the
first is tried when no way of the others is left. -/
def waysAll : List Piece → Text → List Nat
  | [], _ => [0]
  | p :: ps, t => (p.ways t).flatMap fun k => (waysAll ps (t.drop k)).map (k + ·)

theorem le_of_mem_descending {least n k : Nat} (h : k ∈ descending least n) : k ≤ n := by
  induction n with
  | zero =>
    rw [descending] at h
    split at h <;> simp_all
  | succ n ih =>
    rw [descending] at h
    split at h
    · rcases List.mem_cons.mp h with rfl | h
      · exact Nat.le_refl _
      · exact Nat.le_succ_of_le (ih h)
    · simp at h

theorem head?_descending (least n : Nat) :
    (descending least n).head? = if least ≤ n then some n else none := by
  cases n with
  | zero =>
    rw [descending]
    split <;> simp_all
  | succ n =>
    rw [descending]
    split <;> simp_all

/-- If every shorter stretch leads nowhere, the longest decides. -/
theorem flatMap_descending {least n : Nat} {f : Nat → List Nat} (h : ∀ k < n, f k = []) :
    (descending least n).flatMap f = if least ≤ n then f n else [] := by
  cases n with
  | zero =>
    rw [descending]
    split <;> simp_all
  | succ n =>
    rw [descending]
    split
    · have hrest : (descending least n).flatMap f = [] := by
        rw [List.flatMap_eq_nil_iff]
        exact fun k hk => h k (Nat.lt_succ_of_le (le_of_mem_descending hk))
      rw [List.flatMap_cons, hrest, List.append_nil]
    · rfl

/-! ## §2 Pieces that settle at once -/

/-- Inside a stretch another symbol of its kind comes next. -/
theorem drop_append_of_lt {p : Symbol → Bool} {x : Text} (hx : ∀ c ∈ x, p c = true) (after : Text)
    {k : Nat} (hk : k < x.length) : ∃ c r, (x ++ after).drop k = c :: r ∧ p c = true := by
  refine ⟨x[k], x.drop (k + 1) ++ after, ?_, hx _ (List.getElem_mem hk)⟩
  rw [List.drop_append_of_le_length (Nat.le_of_lt hk), List.drop_eq_getElem_cons hk,
    List.cons_append]

/-- Tabs and spaces given back are no line feed. -/
theorem breakWays_eq (n : Nat) (t : Text) : breakWays n t = (takeBreaks n t).toList := by
  induction n generalizing t with
  | zero => rfl
  | succ n ih =>
    obtain ⟨b, r, rfl, hb⟩ := exists_longest Symbol.isBlank t
    rw [breakWays, takeBreaks, blankCount_append hb, flatMap_descending]
    · simp only [Nat.zero_le, if_true, List.drop_left]
      cases r with
      | nil => rfl
      | cons c r =>
        by_cases hc : c = lf
        · simp only [hc, if_true, ih]
          cases takeBreaks n r <;> rfl
        · simp [hc]
    · intro k hk
      obtain ⟨c, r', hdrop, hc⟩ := drop_append_of_lt hb.1 r hk
      have hne : c ≠ lf := by
        rintro rfl
        exact absurd hc (by decide)
      simp [hdrop, hne]

/-- White space before a word leads nowhere. -/
theorem waysAll_word_of_space {w : Text} (hw : IsWord w) (ps : List Piece) {c : Symbol}
    (hc : c.isSpace = true) (t : Text) : waysAll (word w :: ps) (c :: t) = [] := by
  have hno : ¬ w.isPrefixOf (c :: t) = true := by
    rw [List.isPrefixOf_iff_prefix]
    rintro ⟨r, hr⟩
    have hsolid := hw.head?_append r c (by rw [hr]; rfl)
    rw [hc] at hsolid
    cases hsolid
  rw [waysAll, ways, if_neg hno]
  rfl

/-- In any place there is at most one way to take the first piece that the
others can go on from, and it is the one the piece takes. -/
def Definite (p : Piece) (ps : List Piece) : Prop :=
  ∀ t, waysAll (p :: ps) t =
    match p.take t with
    | some k => (waysAll ps (t.drop k)).map (k + ·)
    | none => []

theorem definite_word (w : Text) (ps : List Piece) : Definite (word w) ps := by
  intro t
  rw [waysAll, ways, take]
  split <;> simp

theorem definite_breaks (n : Nat) (ps : List Piece) : Definite (breaks n) ps := by
  intro t
  rw [waysAll, ways, take, breakWays_eq]
  cases takeBreaks n t <;> simp

/-- A repetition before a word: what it gives back is white space. -/
theorem flatMap_descending_word {p : Symbol → Bool} (hp : ∀ c, p c = true → c.isSpace = true)
    {w : Text} (hw : IsWord w) (ps : List Piece) {x after : Text} (hx : Longest p x after)
    (least : Nat) :
    ((descending least x.length).flatMap fun k =>
      (waysAll (word w :: ps) ((x ++ after).drop k)).map (k + ·)) =
      if least ≤ x.length then (waysAll (word w :: ps) after).map (x.length + ·) else [] := by
  rw [flatMap_descending, List.drop_left]
  intro k hk
  obtain ⟨c, r, hdrop, hc⟩ := drop_append_of_lt hx.1 after hk
  rw [hdrop, waysAll_word_of_space hw ps (hp c hc) r]
  rfl

theorem definite_before_word (p : Piece) {w : Text} (hw : IsWord w) (ps : List Piece) :
    Definite p (word w :: ps) := by
  cases p with
  | word v => exact definite_word v _
  | breaks n => exact definite_breaks n _
  | blanks =>
    intro t
    obtain ⟨x, after, rfl, hx⟩ := exists_longest Symbol.isBlank t
    rw [waysAll, ways, take, blankCount_append hx,
      flatMap_descending_word (fun _ => Symbol.isSpace_of_isBlank) hw ps hx]
    cases x <;> simp
  | indent =>
    intro t
    obtain ⟨x, after, rfl, hx⟩ := exists_longest Symbol.isBlank t
    rw [waysAll, ways, take, blankCount_append hx,
      flatMap_descending_word (fun _ => Symbol.isSpace_of_isBlank) hw ps hx]
    simp
  | gap =>
    intro t
    obtain ⟨x, after, rfl, hx⟩ := exists_longest Symbol.isSpace t
    rw [waysAll, ways, take, hx.takeWhile_append,
      flatMap_descending_word (fun _ => id) hw ps hx]
    cases x <;> simp

/-- Pieces of which each is a word or line breaks, is followed by a word, or
is the last. -/
inductive Settled : List Piece → Prop
  | nil : Settled []
  | last (p : Piece) : Settled [p]
  | word {w : Text} {ps : List Piece} (h : Settled ps) : Settled (.word w :: ps)
  | breaks {n : Nat} {ps : List Piece} (h : Settled ps) : Settled (.breaks n :: ps)
  | before {p : Piece} {w : Text} {ps : List Piece} (hw : IsWord w) (h : Settled (.word w :: ps)) :
      Settled (p :: .word w :: ps)

theorem head?_waysAll_cons {p : Piece} {ps : List Piece} (hp : Definite p ps)
    (ih : ∀ t, (waysAll ps t).head? = takeAll ps t) (t : Text) :
    (waysAll (p :: ps) t).head? = takeAll (p :: ps) t := by
  rw [hp t, takeAll]
  cases p.take t with
  | none => rfl
  | some k => rw [List.head?_map, ih]

/-- The last piece takes what a search would take first. -/
theorem head?_ways (p : Piece) (t : Text) : (p.ways t).head? = p.take t := by
  cases p with
  | word w =>
    rw [ways, take]
    split <;> rfl
  | breaks n =>
    rw [ways, take, breakWays_eq]
    cases takeBreaks n t <;> rfl
  | blanks =>
    rw [ways, take, head?_descending]
    by_cases h : blankCount t = 0 <;> simp [h, Nat.one_le_iff_ne_zero]
  | indent => simp [ways, take, head?_descending]
  | gap =>
    rw [ways, take, head?_descending]
    by_cases h : (t.takeWhile Symbol.isSpace).length = 0 <;> simp [h, Nat.one_le_iff_ne_zero]

/-- The first way of a search is the one taken without searching. -/
theorem head?_waysAll {ps : List Piece} (h : Settled ps) :
    ∀ t, (waysAll ps t).head? = takeAll ps t := by
  induction h with
  | nil => exact fun _ => rfl
  | last p =>
    intro t
    have hall : waysAll [p] t = p.ways t := by simp [waysAll]
    rw [hall, head?_ways, takeAll]
    cases p.take t <;> rfl
  | word _ ih => exact head?_waysAll_cons (definite_word _ _) ih
  | breaks _ ih => exact head?_waysAll_cons (definite_breaks _ _) ih
  | before hw _ ih => exact head?_waysAll_cons (definite_before_word _ hw _) ih

end Piece

/-! ## §3 The patterns of a search text -/

namespace Pattern

/-- The matcher of a pattern searched with backtracking. -/
def backtracking : Pattern → Matcher
  | never => fun _ => none
  | pieces ps => fun t => (Piece.waysAll ps t).head?

end Pattern

namespace Layout

open Piece (Settled)

theorem settled_trailPieces (run : Text) : Settled (trailPieces run) := by
  rw [trailPieces, Pattern.trailing]
  split
  · exact .nil
  · split
    · split
      · exact .last _
      · exact .breaks (.last _)
    · exact .last _

theorem settled_innerPieces {rest : List (Text × Text)}
    (hrest : ∀ p ∈ rest, IsGap p.1 ∧ IsWord p.2) {ps : List Piece} (hps : Settled ps) :
    Settled (innerPieces rest ++ ps) := by
  induction rest with
  | nil => exact hps
  | cons p rest ih =>
    obtain ⟨g, w⟩ := p
    rw [innerPieces_cons]
    exact .before (hrest (g, w) List.mem_cons_self).2
      (.word (ih fun q hq => hrest q (List.mem_cons_of_mem _ hq)))

theorem settled_pieces (l : Layout) : Settled l.pieces := by
  have hword : Settled (.word l.first :: (innerPieces l.rest ++ trailPieces l.trail)) :=
    .word (settled_innerPieces l.rest_alternates (settled_trailPieces l.trail))
  rw [pieces, leadPieces]
  split
  · exact hword
  · split
    · exact .breaks (.before l.first_word hword)
    · exact .before l.first_word hword

end Layout

/-- A tolerant pattern takes what a search with backtracking takes. -/
theorem backtracking_tolerant (search : Text) :
    (Pattern.tolerant search).backtracking = (Pattern.tolerant search).matcher := by
  rcases space_or_layout search with hspace | ⟨l, rfl⟩
  · rw [Pattern.tolerant_of_space hspace]
    rfl
  · rw [l.tolerant_text]
    exact funext (Piece.head?_waysAll l.settled_pieces)

/-- So does the pattern of the words alone. -/
theorem backtracking_tokens (search : Text) :
    (Pattern.tokens search).backtracking = (Pattern.tokens search).matcher := by
  rcases space_or_layout search with hspace | ⟨l, rfl⟩
  · rw [Pattern.tokens_of_space hspace]
    rfl
  · rw [l.tokens_text]
    exact funext (Piece.head?_waysAll l.bare.settled_pieces)

end Amend
