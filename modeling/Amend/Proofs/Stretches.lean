/-
Amend.Proofs.Stretches — the stretches found in two sequences of lines are
common to both and follow each other in order.

A stretch found in a window lies in the window, and its lines agree
(`Inside`). The search keeps this for the longest stretch so far and for
every stretch that ends at the line before (`Ends`); prolonging keeps it.
The stretches of a window are then a chain from its first lines to its last
(`Chain`), and so are they once neighbours are joined.

  §1 Lines that agree.
  §2 The longest stretch of a window.
  §3 Chains.
-/
import Amend.Difference.Matching

namespace Amend.Difference

/-! ## §1 Lines that agree -/

namespace Sequences

theorem agree_iff {s : Sequences} {i j : Nat} :
    s.agree i j = true ↔ ∃ l, s.left[i]? = some l ∧ s.right[j]? = some l := by
  unfold agree
  cases s.left[i]? with
  | none => simp
  | some a =>
    cases s.right[j]? with
    | none => simp
    | some b =>
      simp only [beq_iff_eq, Option.some.injEq]
      exact ⟨fun h => ⟨a, rfl, h.symm⟩, fun ⟨_, ha, hb⟩ => ha.trans hb.symm⟩

/-- The places of each line of the first sequence hold the same line in the
second. -/
def Placed (s : Sequences) : Prop :=
  ∀ i, ∀ j ∈ s.places[i]?.getD [], s.agree i j = true

theorem placed_of (left right : List Text) : (of left right).Placed := by
  intro i j hj
  rw [agree_iff]
  simp only [of, List.getElem?_toArray, List.getElem?_map] at hj ⊢
  cases hl : left[i]? with
  | none => simp [hl] at hj
  | some l =>
    refine ⟨l, rfl, ?_⟩
    simp only [hl, Option.map_some, Option.getD_some, candidates] at hj
    split at hj
    · simp at hj
    · obtain ⟨⟨l', j'⟩, hmem, rfl⟩ := List.mem_map.mp hj
      obtain ⟨hzip, hsame⟩ := List.mem_filter.mp hmem
      obtain rfl : l' = l := by simpa using hsame
      exact List.mk_mem_zipIdx_iff_getElem?.mp hzip

end Sequences

/-- The lines of a stretch agree. -/
def Stretch.Common (s : Sequences) (x : Stretch) : Prop :=
  ∀ t < x.length, s.agree (x.left + t) (x.right + t) = true

namespace Sequences

/-- A stretch of common lines within a window. -/
structure Inside (s : Sequences) (w : Window) (x : Stretch) : Prop where
  leftFrom_le : w.leftFrom ≤ x.left
  le_leftTo : x.left + x.length ≤ w.leftTo
  rightFrom_le : w.rightFrom ≤ x.right
  le_rightTo : x.right + x.length ≤ w.rightTo
  common : x.Common s

/-- No range of the window ends before it starts. -/
def Window.Proper (w : Window) : Prop := w.leftFrom ≤ w.leftTo ∧ w.rightFrom ≤ w.rightTo

/-! ## §2 The longest stretch -/

variable {s : Sequences} {w : Window}

/-- An entry stands for a stretch of the window that ends before the line `i`
of the first sequence, at the entry's line of the second. -/
def Ends (s : Sequences) (w : Window) (i : Nat) (e : Nat × Nat) : Prop :=
  ∃ a b, a + e.2 = i ∧ b + e.2 = e.1 + 1 ∧ s.Inside w ⟨a, b, e.2⟩

/-- One line that agrees prolongs a stretch that ends just before it. -/
theorem Inside.snoc {a b n : Nat} (h : s.Inside w ⟨a, b, n⟩) (hi : a + n < w.leftTo)
    (hj : b + n < w.rightTo) (hagree : s.agree (a + n) (b + n) = true) :
    s.Inside w ⟨a, b, n + 1⟩ where
  leftFrom_le := h.leftFrom_le
  le_leftTo := hi
  rightFrom_le := h.rightFrom_le
  le_rightTo := hj
  common t ht := by
    obtain hlt | rfl : t < n ∨ t = n := by simp only at ht; omega
    · exact h.common t hlt
    · exact hagree

/-- And a line that agrees prolongs one that starts just behind it. -/
theorem Inside.cons {a b n : Nat} (h : s.Inside w ⟨a + 1, b + 1, n⟩) (hi : w.leftFrom ≤ a)
    (hj : w.rightFrom ≤ b) (hagree : s.agree a b = true) : s.Inside w ⟨a, b, n + 1⟩ where
  leftFrom_le := hi
  le_leftTo := by have := h.le_leftTo; simp only at *; omega
  rightFrom_le := hj
  le_rightTo := by have := h.le_rightTo; simp only at *; omega
  common t ht := by
    cases t with
    | zero => exact hagree
    | succ t =>
      have hback := h.common t (by simp only at *; omega)
      simp only [Nat.add_right_comm _ 1 t] at hback
      exact hback

theorem inside_nil {a b : Nat} (ha : w.leftFrom ≤ a) (ha' : a ≤ w.leftTo) (hb : w.rightFrom ≤ b)
    (hb' : b ≤ w.rightTo) : s.Inside w ⟨a, b, 0⟩ where
  leftFrom_le := ha
  le_leftTo := ha'
  rightFrom_le := hb
  le_rightTo := hb'
  common _ ht := absurd ht (Nat.not_lt_zero _)

/-- The stretches that end at a line are those that end at the line before,
prolonged, and the single lines that agree. -/
theorem ends_endings {i : Nat} {before : List (Nat × Nat)} {places : List Nat}
    (hfrom : w.leftFrom ≤ i) (hto : i < w.leftTo) (hbefore : ∀ e ∈ before, Ends s w i e)
    (hplaces : ∀ j ∈ places, s.agree i j = true ∧ w.rightFrom ≤ j ∧ j < w.rightTo) :
    ∀ e ∈ endings before places, Ends s w (i + 1) e := by
  intro e he
  obtain ⟨j, hj, rfl⟩ := List.mem_map.mp he
  obtain ⟨hagree, hjfrom, hjto⟩ := hplaces j hj
  cases hfind : before.find? fun e => e.1 + 1 == j with
  | none =>
    exact ⟨i, j, rfl, rfl, (inside_nil hfrom (Nat.le_of_lt hto) hjfrom (Nat.le_of_lt hjto)).snoc hto hjto hagree⟩
  | some e =>
    obtain ⟨a, b, ha, hb, hin⟩ := hbefore e (List.mem_of_find?_eq_some hfind)
    have hej : e.1 + 1 = j := by simpa using List.find?_some hfind
    have hright : b + e.2 = j := by omega
    refine ⟨a, b, by simp only [Option.map_some, Option.getD_some]; omega,
      by simp only [Option.map_some, Option.getD_some]; omega, ?_⟩
    exact hin.snoc (by omega) (by omega) (by rwa [ha, hright])

theorem inside_longer {i : Nat} {best : Stretch} {ends : List (Nat × Nat)} (hbest : s.Inside w best)
    (hends : ∀ e ∈ ends, Ends s w (i + 1) e) : s.Inside w (longer i best ends) := by
  unfold longer
  induction ends generalizing best with
  | nil => exact hbest
  | cons e ends ih =>
    refine ih ?_ fun e' he' => hends e' (List.mem_cons_of_mem e he')
    dsimp only
    split
    · obtain ⟨a, b, ha, hb, hin⟩ := hends e List.mem_cons_self
      have hleft : i + 1 - e.2 = a := by omega
      have hright : e.1 + 1 - e.2 = b := by omega
      rwa [hleft, hright]
    · exact hbest

theorem inside_longestCandidate (hs : s.Placed) (hw : w.Proper) :
    s.Inside w (s.longestCandidate w) := by
  obtain ⟨hleft, hright⟩ := hw
  unfold longestCandidate
  extract_lets step
  -- Before the line `i` is read, the best stretch and those that end there lie in the window.
  have hrun : ∀ n i state, w.leftFrom ≤ i → i + n = w.leftTo → s.Inside w state.1 →
      (∀ e ∈ state.2, Ends s w i e) →
      s.Inside w ((List.range' i n).foldl step state).1 := by
    intro n
    induction n with
    | zero => exact fun _ _ _ _ hbest _ => hbest
    | succ n ih =>
      intro i state hfrom hto hbest hends
      have hplaces : ∀ j ∈ (s.places[i]?.getD []).filter (fun j => w.rightFrom ≤ j && j < w.rightTo),
          s.agree i j = true ∧ w.rightFrom ≤ j ∧ j < w.rightTo := by
        intro j hj
        obtain ⟨hmem, hrange⟩ := List.mem_filter.mp hj
        exact ⟨hs i j hmem, by simpa using hrange⟩
      have hends' := ends_endings hfrom (by omega) hends hplaces
      rw [List.range'_succ, List.foldl_cons]
      exact ih (i + 1) _ (by omega) (by omega) (inside_longer hbest hends') hends'
  exact hrun _ _ _ (Nat.le_refl _) (by omega) (inside_nil (Nat.le_refl _) hleft (Nat.le_refl _) hright) (by simp)

theorem inside_prolongFront {x : Stretch} (fuel : Nat) (hx : s.Inside w x) :
    s.Inside w (s.prolongFront w fuel x) := by
  induction fuel generalizing x with
  | zero => exact hx
  | succ fuel ih =>
    rw [prolongFront]
    split
    · rename_i hcond
      simp only [Bool.and_eq_true, decide_eq_true_eq] at hcond
      obtain ⟨⟨hl, hr⟩, hagree⟩ := hcond
      refine ih (Inside.cons ?_ (by omega) (by omega) hagree)
      rwa [Nat.sub_add_cancel (by omega), Nat.sub_add_cancel (by omega)]
    · exact hx

theorem inside_prolongBack {x : Stretch} (fuel : Nat) (hx : s.Inside w x) :
    s.Inside w (s.prolongBack w fuel x) := by
  induction fuel generalizing x with
  | zero => exact hx
  | succ fuel ih =>
    rw [prolongBack]
    split
    · rename_i hcond
      simp only [Bool.and_eq_true, decide_eq_true_eq] at hcond
      obtain ⟨⟨hl, hr⟩, hagree⟩ := hcond
      exact ih (hx.snoc hl hr hagree)
    · exact hx

theorem inside_longest (hs : s.Placed) (hw : w.Proper) : s.Inside w (s.longest w) :=
  inside_prolongBack _ (inside_prolongFront _ (inside_longestCandidate hs hw))

end Sequences

/-! ## §3 Chains -/

/-- Common stretches one behind the other, from given lines on and not beyond
others. -/
def Chain (s : Sequences) : (i j : Nat) → List Stretch → (i' j' : Nat) → Prop
  | i, j, [], i', j' => i ≤ i' ∧ j ≤ j'
  | i, j, x :: xs, i', j' =>
    i ≤ x.left ∧ j ≤ x.right ∧ x.Common s ∧ Chain s (x.left + x.length) (x.right + x.length) xs i' j'

namespace Chain

variable {s : Sequences} {i j a b i' j' : Nat} {xs ys : List Stretch}

theorem of_le (hi : i ≤ a) (hj : j ≤ b) (h : Chain s a b xs i' j') : Chain s i j xs i' j' := by
  cases xs with
  | nil => exact ⟨Nat.le_trans hi h.1, Nat.le_trans hj h.2⟩
  | cons x xs => exact ⟨Nat.le_trans hi h.1, Nat.le_trans hj h.2.1, h.2.2⟩

theorem append (hx : Chain s i j xs a b) (hy : Chain s a b ys i' j') :
    Chain s i j (xs ++ ys) i' j' := by
  induction xs generalizing i j with
  | nil => exact of_le hx.1 hx.2 hy
  | cons x xs ih => exact ⟨hx.1, hx.2.1, hx.2.2.1, ih hx.2.2.2⟩

/-- Joining stretches that touch keeps a chain. -/
theorem joinAdjacent (h : Chain s i j xs i' j') : Chain s i j (joinAdjacent xs) i' j' := by
  induction xs generalizing i j with
  | nil => exact h
  | cons x xs ih =>
    obtain ⟨hi, hj, hx, hxs⟩ := h
    have hrest := ih hxs
    rw [Difference.joinAdjacent]
    cases hys : Difference.joinAdjacent xs with
    | nil =>
      rw [hys] at hrest
      exact ⟨hi, hj, hx, hrest⟩
    | cons y ys =>
      rw [hys] at hrest
      dsimp only
      split
      · rename_i htouch
        obtain ⟨-, -, hy, hys'⟩ := hrest
        refine ⟨hi, hj, fun t ht => ?_, ?_⟩
        · by_cases hlt : t < x.length
          · exact hx t hlt
          · have hback := hy (t - x.length) (by simp only at ht; omega)
            rw [← htouch.1, ← htouch.2, Nat.add_assoc, Nat.add_assoc,
              Nat.add_sub_cancel' (by omega)] at hback
            exact hback
        · dsimp only
          rwa [← Nat.add_assoc, ← Nat.add_assoc, htouch.1, htouch.2]
      · exact ⟨hi, hj, hx, hrest⟩

end Chain

/-- The stretches of a window are a chain from its first lines to its last. -/
theorem Sequences.chain_stretchesIn {s : Sequences} (hs : s.Placed) (fuel : Nat) {w : Window}
    (hw : w.Proper) :
    Chain s w.leftFrom w.rightFrom (s.stretchesIn fuel w) w.leftTo w.rightTo := by
  induction fuel generalizing w with
  | zero => exact hw
  | succ fuel ih =>
    obtain ⟨hleft, hleft', hright, hright', hcommon⟩ := inside_longest hs hw
    have hbefore : Window.Proper ⟨w.leftFrom, (s.longest w).left, w.rightFrom, (s.longest w).right⟩ :=
      ⟨hleft, hright⟩
    have hafter : Window.Proper ⟨(s.longest w).left + (s.longest w).length, w.leftTo,
        (s.longest w).right + (s.longest w).length, w.rightTo⟩ := ⟨hleft', hright'⟩
    rw [stretchesIn]
    split
    · exact hw
    · -- What is found before the stretch ends at it, what is found behind it starts there.
      refine Chain.append (a := (s.longest w).left) (b := (s.longest w).right) ?_
        ⟨Nat.le_refl _, Nat.le_refl _, hcommon, ?_⟩
      · split
        · exact ih hbefore
        · exact hbefore
      · split
        · exact ih hafter
        · exact hafter

/-- The common stretches of two sequences are a chain through both. -/
theorem chain_stretches (left right : List Text) :
    Chain (Sequences.of left right) 0 0 (stretches left right) left.length right.length := by
  have hw : Sequences.Window.Proper ⟨0, left.length, 0, right.length⟩ :=
    ⟨Nat.zero_le _, Nat.zero_le _⟩
  exact (Sequences.chain_stretchesIn (Sequences.placed_of left right) _ hw).joinAdjacent

end Amend.Difference
