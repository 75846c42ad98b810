/-
Amend.Proofs.Patching — what applying the blocks of a request does to a text.

The blocks are decided one after another, each against the places accepted
before it. One more block keeps the accepted places apart
(`Selection.extend`), so a whole request does (`selection_placements`).
The splices then go from the last place to the first; since the places are
apart, none moves a place still to come, and all of them together are one
simultaneous replacement (`spliceAll_replaced`).

  §1 Deciding   — the verdict on one block, and how a longer request
                  extends a shorter one.
  §2 Selections — what the placements of a request satisfy.
  §3 Splicing   — the places in order, and the text they leave.
  §4 Applying.
-/
import Mathlib.Data.List.Induction
import Mathlib.Data.List.Pairwise
import Amend.Patch
import Amend.Proofs.Locating

namespace Amend

open Text

/-! ## §1 Deciding -/

theorem Span.overlaps_eq_false_iff {s t : Span} :
    s.overlaps t = false ↔ t.stop ≤ s.start ∨ s.stop ≤ t.start := by
  simp only [Span.overlaps, Bool.and_eq_false_iff, decide_eq_false_iff_not, Nat.not_lt]

theorem Span.overlaps_comm (s t : Span) : s.overlaps t = t.overlaps s :=
  Bool.and_comm _ _

/-- Why a block gets the verdict it gets. -/
inductive Judged (content : Text) (window : Int) (before : List Placement) (b : Block) :
    Verdict → Prop
  | empty (nothing : b.sought = []) : Judged content window before b .empty
  | missing (nowhere : b.locate content window = none) : Judged content window before b .missing
  | overlaps {place : Location} {p : Placement} (found : b.locate content window = some place)
      (taken : p ∈ before) (common : place.span.overlaps p.place.span = true) :
      Judged content window before b (.overlaps place p.index)
  | accepted {place : Location} (found : b.locate content window = some place)
      (free : ∀ p ∈ before, place.span.overlaps p.place.span = false) :
      Judged content window before b (.accepted place)

theorem judged_judge (content : Text) (window : Int) (before : List Placement) (b : Block) :
    Judged content window before b (judge content window before b) := by
  unfold judge
  split
  · rename_i hempty
    exact .empty hempty
  · split
    · rename_i hnone
      exact .missing hnone
    · rename_i place hplace
      split
      · rename_i p hp
        have hcommon : place.span.overlaps p.place.span = true := by
          simpa using List.find?_some hp
        exact .overlaps hplace (List.mem_of_find?_eq_some hp) hcommon
      · rename_i hfree
        refine .accepted hplace fun p hp => ?_
        exact Bool.eq_false_iff.mpr (List.find?_eq_none.mp hfree p hp)

/-- What a block with this index and verdict adds to the placements. -/
def Verdict.placed (i : Nat) (b : Block) : Verdict → List Placement
  | .accepted place => [⟨i, place, LineEnding.normalize b.replacement⟩]
  | _ => []

theorem Verdict.mem_placed {v : Verdict} {i : Nat} {b : Block} {p : Placement} :
    p ∈ v.placed i b ↔ v = .accepted p.place ∧ p.index = i ∧
      p.replacement = LineEnding.normalize b.replacement := by
  cases v with
  | accepted place =>
    constructor
    · intro h
      obtain rfl := List.mem_singleton.mp h
      exact ⟨rfl, rfl, rfl⟩
    · rintro ⟨hv, rfl, hnew⟩
      obtain rfl := Verdict.accepted.inj hv
      rw [placed, ← hnew]
      exact List.mem_singleton.mpr rfl
  | _ => simp [placed]

section Extension

variable (content : Text) (window : Int)

theorem judgeFrom_cons (i : Nat) (before : List Placement) (b : Block) (bs : List Block) :
    judgeFrom content window i before (b :: bs) =
      judge content window before b ::
        judgeFrom content window (i + 1)
          (before ++ (judge content window before b).placed i b) bs := by
  rw [judgeFrom]
  cases judge content window before b <;> simp [Verdict.placed]

theorem placementsFrom_cons (i : Nat) (b : Block) (v : Verdict) (r : List (Block × Verdict)) :
    placementsFrom i ((b, v) :: r) = v.placed i b ++ placementsFrom (i + 1) r := by
  cases v <;> rfl

@[simp] theorem length_judgeFrom (bs : List Block) :
    ∀ (i : Nat) (before : List Placement),
      (judgeFrom content window i before bs).length = bs.length := by
  induction bs with
  | nil => intro i before; rfl
  | cons b bs ih => intro i before; simp [judgeFrom_cons, ih]

theorem length_verdicts (bs : List Block) : (verdicts content window bs).length = bs.length :=
  length_judgeFrom content window bs 0 []

theorem judgeFrom_concat (b : Block) (bs : List Block) :
    ∀ (i : Nat) (before : List Placement),
      judgeFrom content window i before (bs ++ [b]) =
        judgeFrom content window i before bs ++
          [judge content window (before ++
            placementsFrom i (bs.zip (judgeFrom content window i before bs))) b] := by
  induction bs with
  | nil =>
    intro i before
    simp [judgeFrom_cons, judgeFrom, placementsFrom]
  | cons c bs ih =>
    intro i before
    rw [List.cons_append, judgeFrom_cons, judgeFrom_cons, ih, List.zip_cons_cons,
      placementsFrom_cons, List.cons_append, List.append_assoc]

theorem placementsFrom_append (r s : List (Block × Verdict)) :
    ∀ i : Nat, placementsFrom i (r ++ s) = placementsFrom i r ++ placementsFrom (i + r.length) s := by
  induction r with
  | nil => intro i; rfl
  | cons x r ih =>
    intro i
    obtain ⟨b, v⟩ := x
    rw [List.cons_append, placementsFrom_cons, placementsFrom_cons, ih, List.append_assoc,
      List.length_cons, Nat.add_assoc, Nat.add_comm 1]

/-- One more block is judged against the blocks placed so far. -/
theorem verdicts_concat (bs : List Block) (b : Block) :
    verdicts content window (bs ++ [b]) =
      verdicts content window bs ++ [judge content window (placements content window bs) b] :=
  judgeFrom_concat content window b bs 0 []

/-- One more block adds what its verdict says. -/
theorem placements_concat (bs : List Block) (b : Block) :
    placements content window (bs ++ [b]) =
      placements content window bs ++
        (judge content window (placements content window bs) b).placed bs.length b := by
  have hlen : bs.length = (verdicts content window bs).length :=
    (length_verdicts content window bs).symm
  rw [placements, verdicts_concat, List.zip_append hlen, placementsFrom_append,
    List.length_zip, ← hlen, Nat.min_self, Nat.zero_add]
  simp [placementsFrom_cons, placementsFrom, placements]

end Extension

/-- What is placed from index `i` on are the blocks accepted. -/
theorem mem_placementsFrom {p : Placement} (r : List (Block × Verdict)) :
    ∀ {i : Nat}, p ∈ placementsFrom i r ↔
      ∃ j b, r[j]? = some (b, .accepted p.place) ∧ p.index = i + j ∧
        p.replacement = LineEnding.normalize b.replacement := by
  induction r with
  | nil => simp [placementsFrom]
  | cons x r ih =>
    intro i
    obtain ⟨b, v⟩ := x
    rw [placementsFrom_cons, List.mem_append, Verdict.mem_placed, ih]
    constructor
    · rintro (⟨rfl, hi, hnew⟩ | ⟨j, c, hj, hi, hnew⟩)
      · exact ⟨0, b, rfl, hi, hnew⟩
      · exact ⟨j + 1, c, hj, by omega, hnew⟩
    · rintro ⟨j, c, hj, hi, hnew⟩
      cases j with
      | zero =>
        simp only [List.getElem?_cons_zero, Option.some.injEq, Prod.mk.injEq] at hj
        obtain ⟨rfl, rfl⟩ := hj
        exact .inl ⟨rfl, hi, hnew⟩
      | succ j => exact .inr ⟨j, c, hj, by omega, hnew⟩

theorem mem_placements_iff {content : Text} {window : Int} {bs : List Block} {p : Placement} :
    p ∈ placements content window bs ↔
      ∃ b, bs[p.index]? = some b ∧
        (verdicts content window bs)[p.index]? = some (.accepted p.place) ∧
        p.replacement = LineEnding.normalize b.replacement := by
  rw [placements, mem_placementsFrom]
  constructor
  · rintro ⟨j, b, hj, hi, hnew⟩
    obtain rfl : p.index = j := by omega
    obtain ⟨hb, hv⟩ := List.getElem?_zip_eq_some.mp hj
    exact ⟨b, hb, hv, hnew⟩
  · rintro ⟨b, hb, hv, hnew⟩
    exact ⟨p.index, b, List.getElem?_zip_eq_some.mpr ⟨hb, hv⟩, (Nat.zero_add _).symm, hnew⟩

/-! ## §2 Selections -/

/-- The block cannot be put in when `ps` are accepted: there is nothing to
find, it is nowhere, or its place is taken by a block before index `i`. -/
def Block.Refused (content : Text) (window : Int) (ps : List Placement) (i : Nat) (b : Block) :
    Prop :=
  b.sought = [] ∨ b.locate content window = none ∨
    ∃ place, b.locate content window = some place ∧
      ∃ p ∈ ps, p.index < i ∧ place.span.overlaps p.place.span = true

/-- The placements are those of a request decided block by block: they stand
in its order, no two overlap, each has a block's place and replacement, and
the blocks without one are refused for what is accepted before them. -/
structure Selection (content : Text) (window : Int) (bs : List Block) (ps : List Placement) :
    Prop where
  in_order : ps.Pairwise fun p q => p.index < q.index
  apart : ps.Pairwise fun p q => p.place.span.overlaps q.place.span = false
  located : ∀ p ∈ ps, ∃ b, bs[p.index]? = some b ∧ b.locate content window = some p.place ∧
    p.replacement = LineEnding.normalize b.replacement
  refused : ∀ i b, bs[i]? = some b → (∀ p ∈ ps, p.index ≠ i) → b.Refused content window ps i

theorem Block.Refused.mono {content : Text} {window : Int} {ps qs : List Placement} {i : Nat}
    {b : Block} (h : b.Refused content window ps i) (hsub : ps ⊆ qs) :
    b.Refused content window qs i := by
  obtain hempty | hnone | ⟨place, hplace, p, hp, hlt, hover⟩ := h
  · exact .inl hempty
  · exact .inr (.inl hnone)
  · exact .inr (.inr ⟨place, hplace, p, hsub hp, hlt, hover⟩)

theorem Block.sought_ne_nil {content : Text} {window : Int} {b : Block} {place : Location}
    (h : b.locate content window = some place) : b.sought ≠ [] := by
  intro hempty
  simp [Block.locate, Amend.locate, hempty] at h

namespace Selection

variable {content : Text} {window : Int} {bs : List Block} {ps : List Placement}

theorem nil : Selection content window [] [] where
  in_order := .nil
  apart := .nil
  located := by simp
  refused := by simp

theorem index_lt (h : Selection content window bs ps) {p : Placement} (hp : p ∈ ps) :
    p.index < bs.length := by
  obtain ⟨b, hb, -⟩ := h.located p hp
  exact (List.getElem?_eq_some_iff.mp hb).1

/-- A block refused leaves the selection as it is. -/
theorem refuse (h : Selection content window bs ps) {b : Block}
    (hb : b.Refused content window ps bs.length) : Selection content window (bs ++ [b]) ps where
  in_order := h.in_order
  apart := h.apart
  located p hp := by
    rw [List.getElem?_append_left (h.index_lt hp)]
    exact h.located p hp
  refused i c hc hno := by
    rcases Nat.lt_or_ge i bs.length with hlt | hge
    · rw [List.getElem?_append_left hlt] at hc
      exact h.refused i c hc hno
    · obtain ⟨hlen, -⟩ := List.getElem?_eq_some_iff.mp hc
      obtain rfl : i = bs.length := by simp at hlen; omega
      obtain rfl : b = c := by simpa using hc
      exact hb

/-- A block whose place is free is added to the selection. -/
theorem accept (h : Selection content window bs ps) {b : Block} {place : Location}
    (hb : b.locate content window = some place)
    (hfree : ∀ p ∈ ps, place.span.overlaps p.place.span = false) :
    Selection content window (bs ++ [b])
      (ps ++ [⟨bs.length, place, LineEnding.normalize b.replacement⟩]) where
  in_order := by
    refine List.pairwise_append.mpr ⟨h.in_order, List.pairwise_singleton _ _, fun p hp q hq => ?_⟩
    obtain rfl := List.mem_singleton.mp hq
    exact h.index_lt hp
  apart := by
    refine List.pairwise_append.mpr ⟨h.apart, List.pairwise_singleton _ _, fun p hp q hq => ?_⟩
    obtain rfl := List.mem_singleton.mp hq
    rw [Span.overlaps_comm]
    exact hfree p hp
  located p hp := by
    rcases List.mem_append.mp hp with hp | hp
    · rw [List.getElem?_append_left (h.index_lt hp)]
      exact h.located p hp
    · obtain rfl := List.mem_singleton.mp hp
      exact ⟨b, by simp, hb, rfl⟩
  refused i c hc hno := by
    have hne : bs.length ≠ i := hno _ (List.mem_append_right ps (List.mem_singleton.mpr rfl))
    obtain ⟨hlen, -⟩ := List.getElem?_eq_some_iff.mp hc
    have hlt : i < bs.length := by simp at hlen; omega
    rw [List.getElem?_append_left hlt] at hc
    exact (h.refused i c hc fun p hp => hno p (List.mem_append_left _ hp)).mono
      (List.subset_append_left _ _)

/-- Deciding one more block keeps the selection one. -/
theorem extend (h : Selection content window bs ps) (b : Block) :
    Selection content window (bs ++ [b])
      (ps ++ (judge content window ps b).placed bs.length b) := by
  have hjudged := judged_judge content window ps b
  generalize judge content window ps b = v at hjudged ⊢
  cases hjudged with
  | empty nothing =>
    simp only [Verdict.placed, List.append_nil]
    exact h.refuse (.inl nothing)
  | missing nowhere =>
    simp only [Verdict.placed, List.append_nil]
    exact h.refuse (.inr (.inl nowhere))
  | overlaps found taken common =>
    simp only [Verdict.placed, List.append_nil]
    exact h.refuse (.inr (.inr ⟨_, found, _, taken, h.index_lt taken, common⟩))
  | accepted found free => exact h.accept found free

theorem overlaps_eq_false (h : Selection content window bs ps) {p q : Placement} (hp : p ∈ ps)
    (hq : q ∈ ps) (hne : p.index ≠ q.index) : p.place.span.overlaps q.place.span = false := by
  have : Std.Symm fun p q : Placement => p.place.span.overlaps q.place.span = false :=
    ⟨fun p q hpq => by rw [Span.overlaps_comm]; exact hpq⟩
  exact h.apart.forall hp hq fun heq => hne (congrArg Placement.index heq)

/-- A block is refused exactly when it is not among the placements. -/
theorem refused_iff (h : Selection content window bs ps) {i : Nat} {b : Block}
    (hb : bs[i]? = some b) : b.Refused content window ps i ↔ ∀ p ∈ ps, p.index ≠ i := by
  refine ⟨?_, h.refused i b hb⟩
  rintro hrefused p hp rfl
  obtain ⟨c, hc, hplace, -⟩ := h.located p hp
  obtain rfl : b = c := Option.some.inj (hb.symm.trans hc)
  obtain hempty | hnone | ⟨place, hplace', q, hq, hlt, hover⟩ := hrefused
  · exact Block.sought_ne_nil hplace hempty
  · simp [hplace] at hnone
  · obtain rfl : p.place = place := Option.some.inj (hplace.symm.trans hplace')
    have hfree := h.overlaps_eq_false hp hq (Nat.ne_of_gt hlt)
    simp [hfree] at hover

/-- The places are not empty and lie in the text. -/
theorem inside (h : Selection content window bs ps) {p : Placement} (hp : p ∈ ps) :
    p.place.span.start < p.place.span.stop ∧ p.place.span.stop ≤ content.length := by
  obtain ⟨b, -, hplace, -⟩ := h.located p hp
  exact (locate_finds hplace).1.lt_and_le

end Selection

/-- What a request's blocks place is a selection. -/
theorem selection_placements (content : Text) (window : Int) (bs : List Block) :
    Selection content window bs (placements content window bs) := by
  induction bs using List.reverseRecOn with
  | nil => exact .nil
  | append_singleton bs b ih =>
    rw [placements_concat]
    exact ih.extend b

/-! ## §3 Splicing -/

/-- The spans of placements and what is put there. -/
def cuts (ps : List Placement) : List (Span × Text) :=
  ps.map fun p => (p.place.span, p.replacement)

theorem inOrder_perm (ps : List Placement) : (inOrder ps).Perm ps := List.mergeSort_perm ps _

theorem inOrder_pairwise (ps : List Placement) :
    (inOrder ps).Pairwise fun p q => p.place.span.start ≤ q.place.span.start := by
  let before (p q : Placement) : Bool := p.place.span.start ≤ q.place.span.start
  have htrans (p q r : Placement) : before p q → before q r → before p r := by
    simp only [before, decide_eq_true_eq]
    exact Nat.le_trans
  have htotal (p q : Placement) : before p q || before q p := by
    simp only [before, Bool.or_eq_true, decide_eq_true_eq]
    exact Nat.le_total _ _
  exact (List.pairwise_mergeSort htrans htotal ps).imp of_decide_eq_true

/-- Sorted, the places of a selection follow one another. -/
theorem Selection.inOrder_pairwise {content : Text} {window : Int} {bs : List Block}
    {ps : List Placement} (h : Selection content window bs ps) :
    (inOrder ps).Pairwise fun p q => p.place.span.stop ≤ q.place.span.start := by
  have hapart : (inOrder ps).Pairwise fun p q => p.place.span.overlaps q.place.span = false :=
    (inOrder_perm ps).symm.pairwise h.apart fun hpq => by rw [Span.overlaps_comm]; exact hpq
  refine ((Amend.inOrder_pairwise ps).and hapart).imp_of_mem ?_
  rintro p q hp hq ⟨hle, hfree⟩
  have hin := h.inside ((inOrder_perm ps).mem_iff.mp hq)
  rcases Span.overlaps_eq_false_iff.mp hfree with hqp | hpq <;> omega

/-- Putting in the last of some places that follow one another leaves the
text up to the first of them as it is: this is what the splices before it
rely on. Offset `pos` is where the places may begin. -/
theorem spliceAll_eq_append (content : Text) (ps : List Placement) :
    ∀ pos : Nat, pos ≤ content.length →
      (ps.Pairwise fun p q => p.place.span.stop ≤ q.place.span.start) →
      (∀ p ∈ ps, pos ≤ p.place.span.start ∧ p.place.span.start ≤ p.place.span.stop ∧
        p.place.span.stop ≤ content.length) →
      ∃ u, spliceAll content ps = content.take pos ++ u ∧
        Replaced pos (content.drop pos) (cuts ps) u := by
  induction ps with
  | nil => exact fun pos _ _ _ => ⟨content.drop pos, (List.take_append_drop pos content).symm, .rest⟩
  | cons p ps ih =>
    intro pos hpos hordered hinside
    obtain ⟨hfollow, hrest⟩ := List.pairwise_cons.mp hordered
    obtain ⟨hstart, hle, hstop⟩ := hinside p List.mem_cons_self
    obtain ⟨u, hu, hreplaced⟩ := ih p.place.span.stop hstop hrest fun q hq =>
      ⟨hfollow q hq, (hinside q (List.mem_cons_of_mem p hq)).2⟩
    have hdrop : content.drop p.place.span.stop =
        (content.drop pos).drop (p.place.span.stop - pos) := by
      rw [List.drop_drop]
      congr 1
      omega
    rw [hdrop] at hreplaced
    have hlen : p.place.span.stop ≤ pos + (content.drop pos).length := by
      rw [List.length_drop]
      omega
    refine ⟨_, ?_, Replaced.cut_span hstart hle hlen hreplaced⟩
    have htake : (content.take p.place.span.stop).length = p.place.span.stop :=
      List.length_take_of_le hstop
    have hbefore : content.take p.place.span.start =
        content.take pos ++ (content.drop pos).take (p.place.span.start - pos) := by
      rw [← List.take_add, Nat.add_sub_cancel' hstart]
    calc spliceAll content (p :: ps)
        = splice (content.take p.place.span.stop ++ u) p.place.span p.replacement := by
          rw [← hu]
          rfl
      _ = content.take p.place.span.start ++ p.replacement ++ u := by
          rw [splice, List.take_append_of_le_length (by omega), List.take_take,
            Nat.min_eq_left hle, List.drop_append_of_le_length (by omega),
            List.drop_of_length_le (by omega), List.nil_append]
      _ = content.take pos ++
            ((content.drop pos).take (p.place.span.start - pos) ++ (p.replacement ++ u)) := by
          rw [hbefore]
          simp only [List.append_assoc]

/-- Splicing the places of a selection one by one replaces them all at once. -/
theorem Selection.spliceAll_replaced {content : Text} {window : Int} {bs : List Block}
    {ps : List Placement} (h : Selection content window bs ps) :
    Replaced 0 content (cuts (inOrder ps)) (spliceAll content (inOrder ps)) := by
  obtain ⟨u, hu, hreplaced⟩ := spliceAll_eq_append content (inOrder ps) 0 (Nat.zero_le _)
    h.inOrder_pairwise fun p hp => by
      have hin := h.inside ((inOrder_perm ps).mem_iff.mp hp)
      exact ⟨Nat.zero_le _, Nat.le_of_lt hin.1, hin.2⟩
  rw [List.take_zero, List.nil_append] at hu
  rwa [hu]

/-! ## §4 Applying -/

namespace Outcome

theorem isApplied_outcome {moved : List (Placement × Int)} {after : Text} {i : Nat} {b : Block}
    {v : Verdict} :
    (outcome moved after i b v).isApplied = true ↔ ∃ place, v = .accepted place := by
  cases v <;> simp [outcome, isApplied]

end Outcome

section Applying

variable {content : Text} {window : Int} {bs : List Block}

theorem length_outcomes : (applyBlocks content window bs).outcomes.length = bs.length := by
  simp [applyBlocks, length_verdicts]

/-- The outcome of a block is that of its verdict. -/
theorem getElem?_outcomes {i : Nat} {o : Outcome} :
    (applyBlocks content window bs).outcomes[i]? = some o ↔
      ∃ b v, bs[i]? = some b ∧ (verdicts content window bs)[i]? = some v ∧
        o = outcome (shifts 0 (inOrder (placements content window bs)))
          (applyBlocks content window bs).content i b v := by
  simp only [applyBlocks, List.getElem?_mapIdx, Option.map_eq_some_iff, Prod.exists,
    List.getElem?_zip_eq_some]
  grind

/-- A block is put in exactly when it is placed. -/
theorem isApplied_iff_placed {i : Nat} {o : Outcome}
    (ho : (applyBlocks content window bs).outcomes[i]? = some o) :
    o.isApplied = true ↔ ∃ p ∈ placements content window bs, p.index = i := by
  obtain ⟨b, v, hb, hv, rfl⟩ := getElem?_outcomes.mp ho
  rw [Outcome.isApplied_outcome]
  constructor
  · rintro ⟨place, rfl⟩
    exact ⟨⟨i, place, _⟩, mem_placements_iff.mpr ⟨b, hb, hv, rfl⟩, rfl⟩
  · rintro ⟨p, hp, rfl⟩
    obtain ⟨c, -, hv', -⟩ := mem_placements_iff.mp hp
    exact ⟨p.place, Option.some.inj (hv.symm.trans hv')⟩

/-- A block placed is told with its line and how it was matched. -/
theorem exists_outcome_of_mem {p : Placement} (hp : p ∈ placements content window bs) :
    ∃ line, (applyBlocks content window bs).outcomes[p.index]? =
      some (.applied p.place.line line p.place.strategy) := by
  obtain ⟨b, hb, hv, -⟩ := mem_placements_iff.mp hp
  exact ⟨_, getElem?_outcomes.mpr ⟨b, _, hb, hv, rfl⟩⟩

/-- As many outcomes tell of a block put in as verdicts from index `i` on
place one. -/
theorem countP_isApplied_mapIdx (moved : List (Placement × Int)) (after : Text)
    (r : List (Block × Verdict)) : ∀ i : Nat,
      (r.mapIdx fun j (b, v) => outcome moved after (j + i) b v).countP Outcome.isApplied =
        (placementsFrom i r).length := by
  induction r with
  | nil => intro i; rfl
  | cons x r ih =>
    intro i
    obtain ⟨b, v⟩ := x
    have hshift : ∀ j, j + 1 + i = j + (i + 1) := fun j => by omega
    rw [placementsFrom_cons, List.length_append, List.mapIdx_cons, List.countP_cons]
    simp only [hshift, ih (i + 1)]
    cases v <;> simp [outcome, Outcome.isApplied, Verdict.placed, Nat.add_comm]

/-- The blocks told to be put in are as many as those placed. -/
theorem applied_eq_length :
    (applyBlocks content window bs).applied = (placements content window bs).length :=
  countP_isApplied_mapIdx _ _ _ 0

end Applying

/-- Applying blocks replaces the places of those accepted, all at once: each
at the place located for it in the text as it was, none of them empty and no
two of them overlapping. There is one outcome for each block, in the order of
the request. The blocks put in are those accepted, and a block fails exactly
when there is nothing to find, it is nowhere, or its place overlaps that of
an accepted block before it. If all fail, the text stays as it is. -/
theorem applyBlocks_replaces_accepted (content : Text) (window : Int) (bs : List Block) :
    ∃ ps : List Placement, Selection content window bs ps ∧
      (∀ p ∈ ps, p.place.span.start < p.place.span.stop ∧
        p.place.span.stop ≤ content.length) ∧
      (∃ qs : List Placement, qs.Perm ps ∧
        Replaced 0 content (cuts qs) (applyBlocks content window bs).content) ∧
      (applyBlocks content window bs).outcomes.length = bs.length ∧
      (∀ p ∈ ps, ∃ line, (applyBlocks content window bs).outcomes[p.index]? =
        some (.applied p.place.line line p.place.strategy)) ∧
      (∀ i b o, bs[i]? = some b → (applyBlocks content window bs).outcomes[i]? = some o →
        (o.isApplied = true ↔ ∃ p ∈ ps, p.index = i) ∧
        (o.isApplied = false ↔ b.Refused content window ps i)) ∧
      ((∀ o ∈ (applyBlocks content window bs).outcomes, o.isApplied = false) →
        (applyBlocks content window bs).content = content) := by
  have hsel := selection_placements content window bs
  have hafter := hsel.spliceAll_replaced
  refine ⟨placements content window bs, hsel, fun p hp => hsel.inside hp,
    ⟨inOrder (placements content window bs), inOrder_perm _, hafter⟩, length_outcomes,
    fun p hp => exists_outcome_of_mem hp, ?_, ?_⟩
  · intro i b o hb ho
    have happlied := isApplied_iff_placed ho
    refine ⟨happlied, ?_⟩
    rw [hsel.refused_iff hb, ← Bool.not_eq_true, happlied]
    simp
  · intro hfailed
    have hnone : placements content window bs = [] := by
      refine List.eq_nil_iff_forall_not_mem.mpr fun p hp => ?_
      obtain ⟨line, hline⟩ := exists_outcome_of_mem hp
      have := hfailed _ (List.mem_of_getElem? hline)
      simp [Outcome.isApplied] at this
    simp [applyBlocks, hnone, inOrder, spliceAll]

-- The second block would match white space relaxed, but the first has its `c`.
example : (applyBlocks "a b c" 30
    [⟨"c", "CC", [], none⟩, ⟨"b  c", "x", [], none⟩, ⟨"a", [], [], none⟩]).content = " b CC" := by
  cbv

end Amend
