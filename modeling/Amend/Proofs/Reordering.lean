/-
Amend.Proofs.Reordering — what is put in does not depend on the order of the
blocks, nor on the blocks that fail.

What a block puts where is known from the block and the text
(`Block.cut?`), and what is told of it from all that is put in, in whatever
order (`Block.told`): its replacement has moved by what the places before it
have grown, and a sum does not depend on the order of its terms
(`growthBefore`). Accepted blocks are apart, and blocks that are apart are
all accepted (`verdicts_of_apart`). So the accepted blocks of a request, by
themselves and in any order, put in the same, and sorted by their places
there is one order only (`cuts_inOrder_eq`).

  §1 Places and replacements.
  §2 Growth             — how far a replacement has moved.
  §3 Applied blocks     — what is told of them.
  §4 Blocks apart.
  §5 Reordered requests.
-/
import Mathlib.Algebra.BigOperators.Group.List.Basic
import Mathlib.Algebra.Module.Submodule.Lattice
import Mathlib.Data.List.Permutation
import Amend.Proofs.Patching

namespace Amend

open Text

/-! ## §1 Places and replacements -/

/-- What a block puts where, if it is found. -/
def Block.cut? (content : Text) (window : Int) (b : Block) : Option (Span × Text) :=
  (b.locate content window).map fun place => (place.span, LineEnding.normalize b.replacement)

/-- Splicing sees only what is put where. -/
theorem spliceAll_eq_foldr (content : Text) (ps : List Placement) :
    spliceAll content ps = (cuts ps).foldr (fun c text => splice text c.1 c.2) content := by
  rw [cuts, List.foldr_map, spliceAll]

/-- What two selections put where is the same in the order of the places, if
it is the same in some order: no two places begin together. -/
theorem cuts_inOrder_eq {content : Text} {window : Int} {bs bs' : List Block}
    {ps ps' : List Placement} (h : Selection content window bs ps)
    (h' : Selection content window bs' ps') (hperm : (cuts ps').Perm (cuts ps)) :
    cuts (inOrder ps') = cuts (inOrder ps) := by
  have hsorted {cs : List Block} {qs : List Placement} (hq : Selection content window cs qs) :
      (cuts (inOrder qs)).Pairwise fun c d => c.1.stop ≤ d.1.start :=
    List.pairwise_map.mpr hq.inOrder_pairwise
  have hnonempty : ∀ c ∈ cuts (inOrder ps), c.1.start < c.1.stop := by
    intro c hc
    obtain ⟨p, hp, rfl⟩ := List.mem_map.mp hc
    exact (h.inside ((inOrder_perm ps).mem_iff.mp hp)).1
  have hall : (cuts (inOrder ps')).Perm (cuts (inOrder ps)) :=
    ((inOrder_perm ps').map _).trans (hperm.trans ((inOrder_perm ps).map _).symm)
  refine hall.eq_of_pairwise ?_ (hsorted h') (hsorted h)
  intro c d hc hd hcd hdc
  have hc' := hnonempty c (hall.mem_iff.mp hc)
  have hd' := hnonempty d hd
  omega

/-! ## §2 Growth -/

/-- By how much the places that begin before an offset grow. -/
def growthBefore (cs : List (Span × Text)) (offset : Nat) : Int :=
  ((cs.filter fun c => c.1.start < offset).map fun c => (c.2.length : Int) - c.1.length).sum

theorem growthBefore_perm {cs ds : List (Span × Text)} (h : cs.Perm ds) (offset : Nat) :
    growthBefore cs offset = growthBefore ds offset :=
  ((h.filter _).map _).sum_eq

theorem growthBefore_cons (c : Span × Text) (cs : List (Span × Text)) (offset : Nat) :
    growthBefore (c :: cs) offset =
      (if c.1.start < offset then (c.2.length : Int) - c.1.length else 0) +
        growthBefore cs offset := by
  by_cases hlt : c.1.start < offset <;> simp [growthBefore, hlt]

theorem growthBefore_eq_zero {cs : List (Span × Text)} {offset : Nat}
    (h : ∀ c ∈ cs, offset ≤ c.1.start) : growthBefore cs offset = 0 := by
  have hnone : (cs.filter fun c => c.1.start < offset) = [] :=
    List.filter_eq_nil_iff.mpr fun c hc => by simp [h c hc]
  rw [growthBefore, hnone]
  rfl

theorem map_fst_shifts (ps : List Placement) :
    ∀ shift : Int, (shifts shift ps).map Prod.fst = ps := by
  induction ps with
  | nil => exact fun _ => rfl
  | cons p ps ih =>
    intro shift
    rw [shifts, List.map_cons, ih]

/-- The running shift is what the places before have grown. -/
theorem shift_eq_growthBefore {ps : List Placement} {q : Placement} {k : Int}
    (hordered : ps.Pairwise fun p q => p.place.span.stop ≤ q.place.span.start)
    (hnonempty : ∀ p ∈ ps, p.place.span.start < p.place.span.stop) :
    ∀ shift : Int, (q, k) ∈ shifts shift ps →
      k = shift + growthBefore (cuts ps) q.place.span.start := by
  induction ps with
  | nil => exact fun shift h => absurd h List.not_mem_nil
  | cons p ps ih =>
    intro shift hmem
    obtain ⟨hfollow, hrest⟩ := List.pairwise_cons.mp hordered
    obtain ⟨hp, hnonempty⟩ := List.forall_mem_cons.mp hnonempty
    have hcuts : cuts (p :: ps) = (p.place.span, p.replacement) :: cuts ps := rfl
    rw [hcuts, growthBefore_cons]
    obtain heq | hmem := List.mem_cons.mp hmem
    · obtain ⟨rfl, rfl⟩ := Prod.mk.inj heq
      have hlater : ∀ c ∈ cuts ps, q.place.span.start ≤ c.1.start := by
        intro c hc
        obtain ⟨r, hr, rfl⟩ := List.mem_map.mp hc
        exact Nat.le_trans (Nat.le_of_lt hp) (hfollow r hr)
      rw [growthBefore_eq_zero hlater]
      simp
    · have hq : q ∈ ps := by
        rw [← map_fst_shifts ps]
        exact List.mem_map_of_mem hmem
      have hlt : p.place.span.start < q.place.span.start := Nat.lt_of_lt_of_le hp (hfollow q hq)
      rw [ih hrest hnonempty _ hmem, if_pos hlt]
      dsimp only
      omega

namespace Selection

variable {content : Text} {window : Int} {bs : List Block} {ps : List Placement}

theorem eq_of_index_eq (h : Selection content window bs ps) {p q : Placement} (hp : p ∈ ps)
    (hq : q ∈ ps) (hindex : p.index = q.index) : p = q := by
  obtain ⟨b, hb, hplace, hnew⟩ := h.located p hp
  obtain ⟨c, hc, hplace', hnew'⟩ := h.located q hq
  rw [hindex, hc] at hb
  obtain rfl := Option.some.inj hb
  have hspot : p.place = q.place := Option.some.inj (hplace.symm.trans hplace')
  cases p
  cases q
  simp_all

/-- What a placement has moved by is found under its index. -/
theorem find?_shifts (h : Selection content window bs ps) {p : Placement} (hp : p ∈ ps) :
    (shifts 0 (inOrder ps)).find? (fun m => m.1.index = p.index) =
      some (p, growthBefore (cuts ps) p.place.span.start) := by
  have hmem : p ∈ (shifts 0 (inOrder ps)).map Prod.fst := by
    rw [map_fst_shifts]
    exact (inOrder_perm ps).mem_iff.mpr hp
  obtain ⟨m, hm, hfirst⟩ := List.mem_map.mp hmem
  have hsome : ((shifts 0 (inOrder ps)).find? fun m => m.1.index = p.index).isSome := by
    rw [List.find?_isSome]
    exact ⟨m, hm, by simp [hfirst]⟩
  obtain ⟨⟨q, k⟩, hfound⟩ := Option.isSome_iff_exists.mp hsome
  have hqk := List.mem_of_find?_eq_some hfound
  have hq : q ∈ ps := by
    rw [← (inOrder_perm ps).mem_iff, ← map_fst_shifts (inOrder ps) 0]
    exact List.mem_map_of_mem hqk
  have hindex : q.index = p.index := by simpa using List.find?_some hfound
  obtain rfl := h.eq_of_index_eq hq hp hindex
  have hk := shift_eq_growthBefore h.inOrder_pairwise
    (fun p hp => (h.inside ((inOrder_perm ps).mem_iff.mp hp)).1) 0 hqk
  have hcuts : (cuts (inOrder ps)).Perm (cuts ps) := (inOrder_perm ps).map _
  rw [hfound, hk, Int.zero_add, growthBefore_perm hcuts]

end Selection

/-! ## §3 Applied blocks -/

/-- The blocks that are put in, each with what is told of it. -/
def appliedBlocks (content : Text) (window : Int) (bs : List Block) : List (Block × Outcome) :=
  (bs.zip (applyBlocks content window bs).outcomes).filter fun x => x.2.isApplied

/-- What is told of a block that is put in, by what else is put in. -/
def Block.told (content : Text) (window : Int) (after : Text) (cs : List (Span × Text))
    (b : Block) : Option Outcome :=
  (b.locate content window).map fun place =>
    .applied place.line (lineOf after (place.span.start + growthBefore cs place.span.start))
      place.strategy

section Applied

variable {content : Text} {window : Int} {bs : List Block}

/-- A block is accepted at the place located for it. -/
theorem locate_of_accepted {i : Nat} {b : Block} {place : Location} (hb : bs[i]? = some b)
    (hv : (verdicts content window bs)[i]? = some (.accepted place)) :
    b.locate content window = some place := by
  obtain ⟨c, hc, hplace, -⟩ := (selection_placements content window bs).located
    ⟨i, place, LineEnding.normalize b.replacement⟩ (mem_placements_iff.mpr ⟨b, hb, hv, rfl⟩)
  obtain rfl : b = c := Option.some.inj (hb.symm.trans hc)
  exact hplace

theorem mem_appliedBlocks_iff {b : Block} {o : Outcome} : (b, o) ∈ appliedBlocks content window bs ↔
    ∃ i : Nat, bs[i]? = some b ∧ (applyBlocks content window bs).outcomes[i]? = some o ∧
      o.isApplied = true := by
  rw [appliedBlocks, List.mem_filter, List.mem_iff_getElem?]
  simp only [List.getElem?_zip_eq_some]
  grind

theorem told_of_mem_appliedBlocks {b : Block} {o : Outcome}
    (h : (b, o) ∈ appliedBlocks content window bs) :
    b.told content window (applyBlocks content window bs).content
      (cuts (placements content window bs)) = some o := by
  obtain ⟨i, hb, ho, happlied⟩ := mem_appliedBlocks_iff.mp h
  obtain ⟨c, v, hc, hv, rfl⟩ := getElem?_outcomes.mp ho
  obtain rfl : b = c := Option.some.inj (hb.symm.trans hc)
  obtain ⟨place, rfl⟩ := Outcome.isApplied_outcome.mp happlied
  have hplace := locate_of_accepted hb hv
  have hp : (⟨i, place, LineEnding.normalize b.replacement⟩ : Placement) ∈
      placements content window bs := mem_placements_iff.mpr ⟨b, hb, hv, rfl⟩
  rw [Block.told, hplace, outcome, (selection_placements content window bs).find?_shifts hp]
  rfl

/-- What is placed is what the applied blocks put where. The induction is on
the blocks with their verdicts, from index `i` on. -/
theorem cuts_placementsFrom (moved : List (Placement × Int)) (after : Text)
    {r : List (Block × Verdict)}
    (hr : ∀ b place, (b, .accepted place) ∈ r → b.locate content window = some place) :
    ∀ i : Nat, cuts (placementsFrom i r) =
      ((((r.map Prod.fst).zip (r.mapIdx fun j (b, v) => outcome moved after (j + i) b v)).filter
        fun x => x.2.isApplied).map Prod.fst).filterMap (Block.cut? content window) := by
  induction r with
  | nil => exact fun _ => rfl
  | cons x r ih =>
    intro i
    obtain ⟨b, v⟩ := x
    have hshift : ∀ j, j + 1 + i = j + (i + 1) := fun j => by omega
    have hrest := ih (fun c place hc => hr c place (List.mem_cons_of_mem _ hc)) (i + 1)
    rw [placementsFrom_cons, cuts, List.map_append, ← cuts, ← cuts, hrest, List.mapIdx_cons,
      List.map_cons, List.zip_cons_cons, List.filter_cons]
    cases v with
    | accepted place =>
      have hplace := hr b place List.mem_cons_self
      simp [outcome, Outcome.isApplied, Verdict.placed, cuts, Block.cut?, hplace, hshift]
    | _ => simp [outcome, Outcome.isApplied, Verdict.placed, cuts, hshift]

theorem cuts_placements : cuts (placements content window bs) =
    ((appliedBlocks content window bs).map Prod.fst).filterMap (Block.cut? content window) := by
  have hlength : bs.length ≤ (verdicts content window bs).length :=
    Nat.le_of_eq (length_verdicts content window bs).symm
  have hlocated : ∀ b place, (b, .accepted place) ∈ bs.zip (verdicts content window bs) →
      b.locate content window = some place := by
    intro b place hmem
    obtain ⟨i, hi⟩ := List.mem_iff_getElem?.mp hmem
    obtain ⟨hb, hv⟩ := List.getElem?_zip_eq_some.mp hi
    exact locate_of_accepted hb hv
  have hcuts := cuts_placementsFrom (shifts 0 (inOrder (placements content window bs)))
    (applyBlocks content window bs).content hlocated 0
  rw [List.map_fst_zip hlength] at hcuts
  exact hcuts

end Applied

/-! ## §4 Blocks apart -/

/-- What two blocks replace has nothing in common. -/
def Block.Apart (content : Text) (window : Int) (b c : Block) : Prop :=
  ∀ x ∈ b.cut? content window, ∀ y ∈ c.cut? content window, x.1.overlaps y.1 = false

theorem Block.Apart.symm {content : Text} {window : Int} {b c : Block}
    (h : b.Apart content window c) : c.Apart content window b := by
  intro x hx y hy
  rw [Span.overlaps_comm]
  exact h y hy x hx

/-- A block that is found takes a place of its own. -/
theorem Block.not_apart_self {content : Text} {window : Int} {b : Block}
    (h : (b.cut? content window).isSome) : ¬ b.Apart content window b := by
  intro hself
  obtain ⟨x, hx⟩ := Option.isSome_iff_exists.mp h
  obtain ⟨place, hplace, rfl⟩ := Option.map_eq_some_iff.mp hx
  have hlt := (locate_finds hplace).1.lt_and_le.1
  have hfree := Span.overlaps_eq_false_iff.mp (hself _ hx _ hx)
  simp only [or_self] at hfree
  omega

section Accepting

variable {content : Text} {window : Int} {bs : List Block}

theorem Block.cut?_isSome_iff {b : Block} :
    (b.cut? content window).isSome ↔ ∃ place, b.locate content window = some place := by
  rw [cut?, Option.isSome_map, Option.isSome_iff_exists]

/-- Blocks that are found apart from one another are all accepted. -/
theorem verdicts_of_apart (hfound : ∀ b ∈ bs, (b.cut? content window).isSome)
    (hapart : bs.Pairwise (Block.Apart content window)) :
    ∀ v ∈ verdicts content window bs, ∃ place, v = .accepted place := by
  induction bs using List.reverseRecOn with
  | nil => exact nofun
  | append_singleton bs b ih =>
    obtain ⟨hrest, -, hlast⟩ := List.pairwise_append.mp hapart
    rw [verdicts_concat]
    intro v hv
    obtain hv | hv := List.mem_append.mp hv
    · exact ih (fun c hc => hfound c (List.mem_append_left [b] hc)) hrest v hv
    obtain rfl := List.mem_singleton.mp hv
    obtain ⟨place, hplace⟩ := Block.cut?_isSome_iff.mp (hfound b (by simp))
    have hjudged := judged_judge content window (placements content window bs) b
    generalize judge content window (placements content window bs) b = v at hjudged ⊢
    cases hjudged with
    | empty nothing => exact absurd nothing (Block.sought_ne_nil hplace)
    | missing nowhere => simp [hplace] at nowhere
    | @overlaps place p found taken common =>
      obtain ⟨c, hc, hplace', -⟩ := (selection_placements content window bs).located p taken
      have hfree := hlast c (List.mem_of_getElem? hc) b (List.mem_singleton.mpr rfl)
        (p.place.span, LineEnding.normalize c.replacement) (by simp [Block.cut?, hplace'])
        (place.span, LineEnding.normalize b.replacement) (by simp [Block.cut?, found])
      rw [Span.overlaps_comm] at hfree
      simp [hfree] at common
    | accepted found free => exact ⟨_, rfl⟩

/-- The blocks applied are found, apart from one another. -/
theorem isSome_cut?_of_mem {b : Block} (hb : b ∈ (appliedBlocks content window bs).map Prod.fst) :
    (b.cut? content window).isSome := by
  obtain ⟨⟨b, o⟩, hmem, rfl⟩ := List.mem_map.mp hb
  obtain ⟨place, hplace, -⟩ := Option.map_eq_some_iff.mp (told_of_mem_appliedBlocks hmem)
  exact Block.cut?_isSome_iff.mpr ⟨place, hplace⟩

theorem pairwise_apart :
    ((appliedBlocks content window bs).map Prod.fst).Pairwise (Block.Apart content window) := by
  have hcuts : (cuts (placements content window bs)).Pairwise
      fun c d => c.1.overlaps d.1 = false :=
    List.pairwise_map.mpr (selection_placements content window bs).apart
  rw [cuts_placements] at hcuts
  exact List.pairwise_filterMap.mp hcuts

end Accepting

/-! ## §5 Reordered requests -/

section Reordered

variable {content : Text} {window : Int} {bs bs' : List Block}

/-- If all blocks are accepted, all are applied. -/
theorem isApplied_of_accepted (h : ∀ v ∈ verdicts content window bs, ∃ place, v = .accepted place) :
    ∀ o ∈ (applyBlocks content window bs).outcomes, o.isApplied = true := by
  intro o ho
  obtain ⟨i, hi⟩ := List.mem_iff_getElem?.mp ho
  obtain ⟨b, v, -, hv, rfl⟩ := getElem?_outcomes.mp hi
  exact Outcome.isApplied_outcome.mpr (h v (List.mem_of_getElem? hv))

/-- The outcomes of the blocks applied are what is told of them. -/
theorem appliedBlocks_eq_told (content : Text) (window : Int) (bs : List Block) :
    appliedBlocks content window bs =
      ((appliedBlocks content window bs).map Prod.fst).filterMap fun b =>
        (b.told content window (applyBlocks content window bs).content
          (cuts (placements content window bs))).map (b, ·) := by
  rw [List.filterMap_map]
  refine (List.filterMap_some.symm.trans (List.filterMap_congr fun x hx => ?_))
  have htold := told_of_mem_appliedBlocks (b := x.1) (o := x.2) hx
  simp [htold]

/-- What the blocks of a request put in depends only on those accepted: by
themselves and in any order they are all accepted and leave the same text,
and the same is told of each of them, namely the line it matched on, the line
its replacement begins on, and how it was matched. No two of them are the
same block, so no outcome is confused with another. -/
theorem applyBlocks_reordered (h : bs'.Perm ((appliedBlocks content window bs).map Prod.fst)) :
    (applyBlocks content window bs').content = (applyBlocks content window bs).content ∧
    (∀ o ∈ (applyBlocks content window bs').outcomes, o.isApplied = true) ∧
    (bs'.zip (applyBlocks content window bs').outcomes).Perm (appliedBlocks content window bs) ∧
    bs'.Nodup := by
  have hfound : ∀ b ∈ bs', (b.cut? content window).isSome := fun b hb =>
    isSome_cut?_of_mem (h.mem_iff.mp hb)
  have hapart : bs'.Pairwise (Block.Apart content window) :=
    h.symm.pairwise pairwise_apart Block.Apart.symm
  have hall := isApplied_of_accepted (verdicts_of_apart hfound hapart)
  have hzip : appliedBlocks content window bs' =
      bs'.zip (applyBlocks content window bs').outcomes :=
    List.filter_eq_self.mpr fun x hx => hall x.2 (List.of_mem_zip hx).2
  have hblocks : (appliedBlocks content window bs').map Prod.fst = bs' := by
    rw [hzip, List.map_fst_zip (Nat.le_of_eq length_outcomes.symm)]
  have hcuts : (cuts (placements content window bs')).Perm
      (cuts (placements content window bs)) := by
    rw [cuts_placements, cuts_placements, hblocks]
    exact h.filterMap _
  have hcontent : (applyBlocks content window bs').content =
      (applyBlocks content window bs).content := by
    have horder := cuts_inOrder_eq (selection_placements content window bs)
      (selection_placements content window bs') hcuts
    simp only [applyBlocks, spliceAll_eq_foldr, horder]
  refine ⟨hcontent, hall, ?_, ?_⟩
  · have htold : ∀ b : Block, b.told content window (applyBlocks content window bs').content
        (cuts (placements content window bs')) = b.told content window
          (applyBlocks content window bs).content (cuts (placements content window bs)) := by
      intro b
      simp only [Block.told, hcontent, growthBefore_perm hcuts]
    rw [← hzip, appliedBlocks_eq_told content window bs',
      appliedBlocks_eq_told content window bs, hblocks]
    simp only [htold]
    exact h.filterMap _
  · refine hapart.imp_of_mem fun hb _ hbc => ?_
    rintro rfl
    exact Block.not_apart_self (hfound _ hb) hbc

end Reordered

/-- The second block overlaps the first and fails; the other two can change
places, though the last one moves the first up a line. -/
theorem applyBlocks_swapped :
    ([⟨"a\n", [], [], none⟩, ⟨"c", "x\ny", [], some 3⟩] : List Block).Perm
      ((appliedBlocks "a\nb\nc\n" 30 [⟨"c", "x\ny", [], some 3⟩, ⟨"b\nc", "z", [], none⟩,
        ⟨"a\n", [], [], none⟩]).map Prod.fst) ∧
    (applyBlocks "a\nb\nc\n" 30 [⟨"a\n", [], [], none⟩, ⟨"c", "x\ny", [], some 3⟩]).content =
      "b\nx\ny\n" ∧
    (([⟨"a\n", [], [], none⟩, ⟨"c", "x\ny", [], some 3⟩] : List Block).zip
      (applyBlocks "a\nb\nc\n" 30
        [⟨"a\n", [], [], none⟩, ⟨"c", "x\ny", [], some 3⟩]).outcomes).Perm
      [(⟨"c", "x\ny", [], some 3⟩, .applied 3 2 .exact),
        (⟨"a\n", [], [], none⟩, .applied 1 1 .exact)] := by
  have hperm : ([⟨"a\n", [], [], none⟩, ⟨"c", "x\ny", [], some 3⟩] : List Block).Perm
      ((appliedBlocks "a\nb\nc\n" 30 [⟨"c", "x\ny", [], some 3⟩, ⟨"b\nc", "z", [], none⟩,
        ⟨"a\n", [], [], none⟩]).map Prod.fst) := by
    decide +kernel
  obtain ⟨hcontent, -, houtcomes, -⟩ := applyBlocks_reordered hperm
  refine ⟨hperm, hcontent.trans ?_, houtcomes.trans (.of_eq ?_)⟩
  · cbv
  · cbv

end Amend
