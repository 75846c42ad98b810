/-
Amend.Proofs.Boundaries — the lines of a text that is cut at every line
boundary.

What `splitLines` does at the front of a text depends on whether a symbol is
inside a line, the boundary of one, or half of the pair that makes one
boundary (`boundaryInduction`); `bareLines` does the same without the
boundaries. From this: lines make up the text, a line is its own only line, a
line feed between two texts separates their lines, and a boundary at the end
of a text adds an empty line at most.

  §1 Induction on the boundaries of a text.
  §2 Lines with their boundaries.
  §3 Lines without their boundaries.
-/
import Amend.Text.Lines

namespace Amend.Text

/-! ## §1 Induction on boundaries -/

/-- A text begins inside a line, with the pair of a carriage return and a line
feed, or with a boundary of one symbol. -/
@[elab_as_elim]
theorem boundaryInduction {P : Text → Prop} (nil : P [])
    (inner : ∀ c t, isBoundary c = false → P t → P (c :: t))
    (pair : ∀ t, P t → P (cr :: lf :: t))
    (boundary : ∀ c t, isBoundary c = true → ¬(c = cr ∧ t.head? = some lf) → P t → P (c :: t)) :
    ∀ t, P t
  | [] => nil
  | [c] => by
    cases hc : isBoundary c with
    | false => exact inner c [] hc nil
    | true => exact boundary c [] hc (by simp) nil
  | c :: d :: t => by
    have hrest : P (d :: t) := boundaryInduction nil inner pair boundary (d :: t)
    by_cases hpair : c = cr ∧ d = lf
    · obtain ⟨rfl, rfl⟩ := hpair
      exact pair t (boundaryInduction nil inner pair boundary t)
    · cases hc : isBoundary c with
      | false => exact inner c (d :: t) hc hrest
      | true => exact boundary c (d :: t) hc (by simpa using hpair) hrest

/-! ## §2 Lines with their boundaries -/

/-- A symbol put before the first of some lines, or as a line of its own. -/
def consFirst (c : Symbol) : List Text → List Text
  | l :: ls => (c :: l) :: ls
  | [] => [[c]]

theorem consFirst_append {c : Symbol} {ls : List Text} (h : ls ≠ []) (ls' : List Text) :
    consFirst c (ls ++ ls') = consFirst c ls ++ ls' := by
  cases ls with
  | nil => exact absurd rfl h
  | cons l ls => rfl

theorem splitLines_inner {c : Symbol} (h : isBoundary c = false) (t : Text) :
    splitLines (c :: t) = consFirst c (splitLines t) := by
  rw [splitLines]
  simp only [h, Bool.false_and, Bool.false_eq_true, if_false]
  cases splitLines t <;> rfl

theorem splitLines_boundary {c : Symbol} {t : Text} (h : isBoundary c = true)
    (hpair : ¬(c = cr ∧ t.head? = some lf)) : splitLines (c :: t) = [c] :: splitLines t := by
  have hglued : (decide (c = cr) && decide (t.head? = some lf)) = false := by simpa using hpair
  rw [splitLines]
  simp only [h, hglued, Bool.not_false, Bool.and_self, if_true]

theorem splitLines_lf (t : Text) : splitLines (lf :: t) = [lf] :: splitLines t :=
  splitLines_boundary rfl fun h => absurd h.1 (by decide)

theorem splitLines_pair (t : Text) : splitLines (cr :: lf :: t) = [cr, lf] :: splitLines t := by
  rw [splitLines]
  simp only [List.head?_cons, decide_true, Bool.and_self, Bool.not_true, Bool.and_false,
    Bool.false_eq_true, if_false, splitLines_lf]

/-- Half of a pair is at the end of a text only if the text is a carriage
return and nothing else. -/
theorem pair_concat {c e : Symbol} {t : Text} (h : ¬(c = cr ∧ t.head? = some lf))
    (hpair : c = cr ∧ (t ++ [e]).head? = some lf) : t = [] ∧ c = cr ∧ e = lf := by
  cases t with
  | nil => exact ⟨rfl, hpair.1, by simpa using hpair.2⟩
  | cons d t => exact absurd hpair h

theorem splitLines_ne_nil {t : Text} (h : t ≠ []) : splitLines t ≠ [] := by
  cases t using boundaryInduction with
  | nil => exact absurd rfl h
  | inner c t hc =>
    rw [splitLines_inner hc]
    cases splitLines t <;> exact List.cons_ne_nil _ _
  | pair t => rw [splitLines_pair]; exact List.cons_ne_nil _ _
  | boundary c t hc hpair => rw [splitLines_boundary hc hpair]; exact List.cons_ne_nil _ _

/-- The lines of a text make it up. -/
theorem flatten_splitLines (t : Text) : (splitLines t).flatten = t := by
  induction t using boundaryInduction with
  | nil => rfl
  | inner c t hc ih =>
    have hhead : (consFirst c (splitLines t)).flatten = c :: (splitLines t).flatten := by
      cases splitLines t <;> rfl
    rw [splitLines_inner hc, hhead, ih]
  | pair t ih => rw [splitLines_pair, List.flatten_cons, ih]; rfl
  | boundary c t hc hpair ih => rw [splitLines_boundary hc hpair, List.flatten_cons, ih]; rfl

/-- Every line is the only line of itself. -/
theorem splitLines_of_mem {t l : Text} (h : l ∈ splitLines t) : splitLines l = [l] := by
  induction t using boundaryInduction generalizing l with
  | nil => cases h
  | inner c t hc ih =>
    rw [splitLines_inner hc] at h
    cases hls : splitLines t with
    | nil =>
      rw [hls] at h
      obtain rfl := List.mem_singleton.mp h
      exact splitLines_inner hc []
    | cons m ms =>
      rw [hls] at h ih
      obtain rfl | hmem := List.mem_cons.mp h
      · rw [splitLines_inner hc, ih List.mem_cons_self]; rfl
      · exact ih (List.mem_cons_of_mem m hmem)
  | pair t ih =>
    rw [splitLines_pair] at h
    obtain rfl | hmem := List.mem_cons.mp h
    · exact splitLines_pair []
    · exact ih hmem
  | boundary c t hc hpair ih =>
    rw [splitLines_boundary hc hpair] at h
    obtain rfl | hmem := List.mem_cons.mp h
    · exact splitLines_boundary hc (by simp)
    · exact ih hmem

/-- A line feed between two texts separates their lines. -/
theorem splitLines_append_lf (a b : Text) :
    splitLines (a ++ lf :: b) = splitLines (a ++ [lf]) ++ splitLines b := by
  induction a using boundaryInduction with
  | nil => rw [List.nil_append, List.nil_append, splitLines_lf, splitLines_lf]; rfl
  | inner c a hc ih =>
    rw [List.cons_append, List.cons_append, splitLines_inner hc, splitLines_inner hc, ih,
      consFirst_append (splitLines_ne_nil (by simp))]
  | pair a ih =>
    simp only [List.cons_append, splitLines_pair, ih]
  | boundary c a hc hpair ih =>
    by_cases hend : c = cr ∧ (a ++ [lf]).head? = some lf
    · obtain ⟨rfl, rfl, -⟩ := pair_concat hpair hend
      exact (splitLines_pair b).trans (congrArg (· ++ splitLines b) (splitLines_pair []).symm)
    · have hend' : ¬(c = cr ∧ (a ++ lf :: b).head? = some lf) := by
        cases a <;> exact hend
      rw [List.cons_append, List.cons_append, splitLines_boundary hc hend,
        splitLines_boundary hc hend', ih, List.cons_append]

/-! ## §3 Lines without their boundaries -/

/-- A line is what is before its boundary, or the whole line if it has
none. -/
theorem chomp_spec (l : Text) :
    chomp l = l ∨ (∃ e, isBoundary e = true ∧ l = chomp l ++ [e]) ∨ l = chomp l ++ [cr, lf] := by
  obtain ⟨r, rfl⟩ : ∃ r : Text, l = r.reverse := ⟨l.reverse, l.reverse_reverse.symm⟩
  unfold chomp
  rw [List.reverse_reverse]
  match r with
  | [] => exact .inl rfl
  | [a] =>
    dsimp only
    split
    · rename_i ha
      exact .inr (.inl ⟨a, ha, rfl⟩)
    · exact .inl rfl
  | a :: b :: r =>
    dsimp only
    split
    · rename_i hab
      obtain ⟨rfl, rfl⟩ := hab
      exact .inr (.inr (by simp))
    · split
      · rename_i ha
        exact .inr (.inl ⟨a, ha, List.reverse_cons⟩)
      · exact .inl rfl

/-- What is inside a line is not part of its boundary. -/
theorem chomp_cons {c : Symbol} (h : isBoundary c = false) (l : Text) :
    chomp (c :: l) = c :: chomp l := by
  have hcr : c ≠ cr := by rintro rfl; cases h
  obtain ⟨r, rfl⟩ : ∃ r : Text, l = r.reverse := ⟨l.reverse, l.reverse_reverse.symm⟩
  unfold chomp
  rw [List.reverse_cons, List.reverse_reverse]
  match r with
  | [] => simp [h]
  | [a] =>
    simp only [List.singleton_append, hcr, and_false, if_false]
    split <;> simp
  | a :: b :: r =>
    simp only [List.cons_append]
    split
    · simp
    · split <;> simp

/-- A beginning without boundaries is one of the line without its boundary. -/
theorem isPrefixOf_chomp {p : Text} (h : ∀ c ∈ p, isBoundary c = false) (l : Text) :
    p.isPrefixOf (chomp l) = p.isPrefixOf l := by
  have hconcat {x : Text} {e : Symbol} (he : isBoundary e = true) : p <+: x ++ [e] ↔ p <+: x := by
    refine ⟨fun hp => (List.prefix_concat_iff.mp hp).resolve_left ?_,
      fun hp => hp.trans (List.prefix_append x [e])⟩
    rintro rfl
    rw [h e (by simp)] at he
    cases he
  rw [Bool.eq_iff_iff, List.isPrefixOf_iff_prefix, List.isPrefixOf_iff_prefix]
  obtain heq | ⟨e, he, heq⟩ | heq := chomp_spec l
  · rw [heq]
  · conv => rhs; rw [heq]
    exact (hconcat he).symm
  · have hpair : chomp l ++ [cr, lf] = (chomp l ++ [cr]) ++ [lf] := by simp
    conv => rhs; rw [heq, hpair]
    exact ((hconcat rfl).trans (hconcat rfl)).symm

@[simp] theorem bareLines_nil : bareLines [] = [] := rfl

theorem bareLines_inner {c : Symbol} (h : isBoundary c = false) (t : Text) :
    bareLines (c :: t) = consFirst c (bareLines t) := by
  rw [bareLines, splitLines_inner h, bareLines]
  cases splitLines t with
  | nil => exact congrArg (· :: []) (chomp_cons h [])
  | cons l ls => exact congrArg (· :: ls.map chomp) (chomp_cons h l)

theorem bareLines_pair (t : Text) : bareLines (cr :: lf :: t) = [] :: bareLines t := by
  rw [bareLines, splitLines_pair]; rfl

theorem bareLines_boundary {c : Symbol} {t : Text} (h : isBoundary c = true)
    (hpair : ¬(c = cr ∧ t.head? = some lf)) : bareLines (c :: t) = [] :: bareLines t := by
  have hchomp : chomp [c] = [] := if_pos h
  rw [bareLines, splitLines_boundary h hpair, List.map_cons, hchomp, bareLines]

theorem bareLines_of_mem {t l : Text} (h : l ∈ splitLines t) : bareLines l = [chomp l] := by
  rw [bareLines, splitLines_of_mem h, List.map_singleton]

theorem bareLines_append_lf (a b : Text) :
    bareLines (a ++ lf :: b) = bareLines (a ++ [lf]) ++ bareLines b := by
  rw [bareLines, splitLines_append_lf, List.map_append, bareLines, bareLines]

/-- A boundary at the end ends the last line, or an empty line. -/
theorem bareLines_concat {e : Symbol} (he : isBoundary e = true) (t : Text) :
    bareLines (t ++ [e]) = bareLines t ∨ bareLines (t ++ [e]) = bareLines t ++ [[]] := by
  induction t using boundaryInduction with
  | nil => exact .inr (bareLines_boundary he (by simp))
  | inner c t hc ih =>
    rw [List.cons_append, bareLines_inner hc, bareLines_inner hc]
    obtain heq | heq := ih
    · exact .inl (by rw [heq])
    · rw [heq]
      cases bareLines t with
      | nil => exact .inl rfl
      | cons l ls => exact .inr rfl
  | pair t ih =>
    rw [List.cons_append, List.cons_append, bareLines_pair, bareLines_pair]
    obtain heq | heq := ih
    · exact .inl (by rw [heq])
    · exact .inr (by rw [heq]; rfl)
  | boundary c t hc hpair ih =>
    by_cases hend : c = cr ∧ (t ++ [e]).head? = some lf
    · obtain ⟨rfl, rfl, rfl⟩ := pair_concat hpair hend
      exact .inl rfl
    · rw [List.cons_append, bareLines_boundary hc hend, bareLines_boundary hc hpair]
      obtain heq | heq := ih
      · exact .inl (by rw [heq])
      · exact .inr (by rw [heq]; rfl)

/-- A beginning without boundaries stands in the first line. -/
theorem bareLines_append {p : Text} (hp : ∀ c ∈ p, isBoundary c = false) (hne : p ≠ []) (t : Text) :
    bareLines (p ++ t) = (p ++ (bareLines t).headD []) :: (bareLines t).tail := by
  induction p with
  | nil => exact absurd rfl hne
  | cons c p ih =>
    rw [List.cons_append, bareLines_inner (hp c List.mem_cons_self)]
    cases p with
    | nil =>
      rw [List.nil_append]
      cases bareLines t <;> rfl
    | cons d p =>
      rw [ih (fun s hs => hp s (List.mem_cons_of_mem c hs)) (List.cons_ne_nil d p)]
      rfl

end Amend.Text
