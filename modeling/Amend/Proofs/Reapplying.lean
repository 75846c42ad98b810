/-
Amend.Proofs.Reapplying — applying the same blocks once more.

Blocks that were all put in, with no replacement that holds a text sought,
are expected to find nothing the second time. They find nothing exactly
where no text sought is left (`applyBlocks_eq_notFound_iff`). A part of the
text left was kept from between the places replaced, belongs to a
replacement, or reaches across the border of one (`Replaced.origin`), so a
text sought is left as a copy that stood there before, as a replacement that
holds it with white space relaxed, or across such a border
(`leftover_of_finds`). Each of the three can happen.

  §1 Where a part of the text left comes from.
  §2 Texts that are found elsewhere.
  §3 Texts sought that are left.
  §4 Applying again.
-/
import Mathlib.Algebra.Module.Submodule.Lattice
import Mathlib.Data.List.Permutation
import Amend.Proofs.Patching

namespace Amend

open Text

/-! ## §1 Where a part of the text left comes from -/

/-- Of two ways to cut a list, the one that cuts later cuts the rest of the
other. -/
theorem exists_of_append_eq {α : Type} {a b c d : List α} (h : a ++ b = c ++ d)
    (hle : a.length ≤ c.length) : ∃ e, c = a ++ e ∧ b = e ++ d := by
  obtain ⟨e, rfl⟩ : a <+: c :=
    List.prefix_of_prefix_length_le (List.prefix_append a b) ⟨d, h.symm⟩ hle
  rw [List.append_assoc] at h
  exact ⟨e, rfl, List.append_cancel_left h⟩

namespace Replaced

variable {α : Type} {pos k : Nat} {t u gap old new left x right : List α}
  {ps mid : List (Span × List α)}

/-- The text replaced holds `x` at offset `k`. The places replaced before it
leave `left` of what is before, those after it leave `right` of what is
after, and the others are `mid`. -/
inductive Around (pos : Nat) : List α → List (Span × List α) → (left : List α) → (k : Nat) →
    (x : List α) → (mid : List (Span × List α)) → (right : List α) → Prop
  | between {a x c left right : List α} {ps mid qs : List (Span × List α)}
      (before : Replaced pos a ps left)
      (after : Replaced (pos + a.length + x.length) c qs right) :
      Around pos (a ++ (x ++ c)) (ps ++ (mid ++ qs)) left (pos + a.length) x mid right

/-- The text left has `x` between `left` and `right`, and it is the text that
stood at offset `k`, with no place replaced in it. -/
def Keeps (pos : Nat) (t : List α) (ps : List (Span × List α)) (left x right : List α)
    (k : Nat) : Prop :=
  Around pos t ps left k x [] right

/-- The text left has the replacement `new` between `left` and `right`. -/
def Puts (pos : Nat) (t : List α) (ps : List (Span × List α)) (left new right : List α) : Prop :=
  ∃ k old, Around pos t ps left k old [(⟨k, k + old.length⟩, new)] right

theorem Keeps.text (h : Keeps pos t ps left x right k) :
    ∃ a c, t = a ++ (x ++ c) ∧ k = pos + a.length := by
  unfold Keeps at h
  cases h
  exact ⟨_, _, rfl, rfl⟩

/-- What stands before the first place replaced is kept. -/
theorem Keeps.first (h : Replaced (pos + left.length + x.length) t ps right) :
    Keeps pos (left ++ (x ++ t)) ps left x right (pos + left.length) :=
  @Around.between α pos left x t left right [] [] ps .rest h

/-- The first replacement is put after what stands before its place. -/
theorem Puts.first (h : Replaced (pos + gap.length + old.length) t ps u) :
    Puts pos (gap ++ (old ++ t))
      ((⟨pos + gap.length, pos + gap.length + old.length⟩, new) :: ps) gap new u :=
  ⟨pos + gap.length, old, @Around.between α pos gap old t gap u [] [_] ps .rest h⟩

/-- One more place may be replaced before. -/
theorem Around.cons (h : Around (pos + gap.length + old.length) t ps left k x mid right) :
    Around pos (gap ++ (old ++ t))
      ((⟨pos + gap.length, pos + gap.length + old.length⟩, new) :: ps)
      (gap ++ (new ++ left)) k x mid right := by
  cases h with
  | @between a _ c _ _ ps _ qs before after =>
    have hlen : pos + gap.length + old.length + a.length = pos + (gap ++ (old ++ a)).length := by
      simp only [List.length_append]
      omega
    have hbefore : Replaced pos (gap ++ (old ++ a))
        ((⟨pos + gap.length, pos + gap.length + old.length⟩, new) :: ps)
        (gap ++ (new ++ left)) := .cut before
    rw [hlen] at after ⊢
    have h := @Around.between α pos _ x c _ right _ mid qs hbefore after
    simpa only [List.append_assoc, List.cons_append] using h

theorem Puts.mem (h : Puts pos t ps left new right) : ∃ s, (s, new) ∈ ps := by
  obtain ⟨k, old, h⟩ := h
  cases h
  exact ⟨_, List.mem_append_right _ (List.mem_append_left _ (List.mem_singleton.mpr rfl))⟩

/-- A part of the text left was kept, belongs to a replacement, or reaches
across a border of one. The induction is on the places replaced: a part that
begins after a replacement is one of what is left after it. -/
theorem origin (h : Replaced pos t ps u) : ∀ {left x right : List α}, u = left ++ (x ++ right) →
    (∃ k, Keeps pos t ps left x right k) ∨
      ∃ before new after, Puts pos t ps before new after ∧ u = before ++ (new ++ after) ∧
        (before.length ≤ left.length ∧
            left.length + x.length ≤ before.length + new.length ∨
          ∃ border, (border = before.length ∨ border = before.length + new.length) ∧
            left.length < border ∧ border < left.length + x.length) := by
  induction h with
  | @rest pos t =>
    rintro left x right rfl
    exact .inl ⟨_, .first .rest⟩
  | @cut pos gap old new t u ps tail ih =>
    intro left x right hu
    -- the part ends before the first replacement, begins after it, or meets it
    by_cases hbefore : left.length + x.length ≤ gap.length
    · have hcut : (left ++ x) ++ right = gap ++ (new ++ u) := by rw [List.append_assoc, hu]
      obtain ⟨rest, rfl, rfl⟩ := exists_of_append_eq hcut (by simpa using hbefore)
      have hlen : pos + (left ++ x ++ rest).length =
          pos + left.length + x.length + rest.length := by
        simp only [List.length_append]
        omega
      rw [hlen] at tail ⊢
      rw [List.append_assoc, List.append_assoc]
      exact .inl ⟨_, .first (.cut tail)⟩
    · by_cases hafter : gap.length + new.length ≤ left.length
      · have hcut : (gap ++ new) ++ u = left ++ (x ++ right) := by rw [List.append_assoc, hu]
        obtain ⟨rest, rfl, hrest⟩ := exists_of_append_eq hcut (by simpa using hafter)
        rw [List.append_assoc]
        obtain ⟨k, hkept⟩ | ⟨before, new', after, ⟨k, old', hput⟩, rfl, hplace⟩ := ih hrest
        · exact .inl ⟨k, hkept.cons⟩
        · refine .inr ⟨gap ++ (new ++ before), new', after, ⟨k, old', hput.cons⟩, by simp, ?_⟩
          simp only [List.length_append]
          obtain hin | ⟨border, hborder, hcross⟩ := hplace
          · exact .inl (by omega)
          · exact .inr ⟨gap.length + (new.length + border), by omega, by omega, by omega⟩
      · refine .inr ⟨gap, new, u, .first tail, rfl, ?_⟩
        by_cases hstart : left.length < gap.length
        · exact .inr ⟨gap.length, .inl rfl, hstart, by omega⟩
        · by_cases hstop : left.length + x.length ≤ gap.length + new.length
          · exact .inl ⟨by omega, hstop⟩
          · exact .inr ⟨gap.length + new.length, .inr rfl, by omega, by omega⟩

end Replaced

/-! ## §2 Texts that are found elsewhere -/

/-- With another text after it, the end of a place may go on with tabs and
spaces. -/
theorem TrailFits.exists_more {run z after : Text} (h : TrailFits run z after) (after' : Text) :
    ∃ y rest, after' = y ++ rest ∧ AllBlank y ∧ TrailFits run (z ++ y) rest := by
  obtain ⟨y, rest, hsplit, hlongest⟩ := exists_longest Symbol.isBlank after'
  have hmore {i : Text} (hi : Longest Symbol.isBlank i after) :
      Longest Symbol.isBlank (i ++ y) rest :=
    ⟨fun c hc => (List.mem_append.mp hc).elim (hi.1 c) (hlongest.1 c), hlongest.2⟩
  by_cases hrun : run = []
  · simp only [TrailFits, if_pos hrun] at h ⊢
    exact ⟨[], after', rfl, List.forall_mem_nil _, by rw [h, List.append_nil]⟩
  by_cases hlf : lf ∈ run
  · by_cases hlast : run.getLast? = some lf
    · simp only [TrailFits, if_neg hrun, if_pos hlf, if_pos hlast] at h ⊢
      exact ⟨[], after', rfl, List.forall_mem_nil _, by rwa [List.append_nil]⟩
    · simp only [TrailFits, if_neg hrun, if_pos hlf, if_neg hlast] at h ⊢
      obtain ⟨b, i, rfl, hb, hi⟩ := h
      exact ⟨y, rest, hsplit, hlongest.1, b, i ++ y, List.append_assoc .., hb, hmore hi⟩
  · simp only [TrailFits, if_neg hrun, if_neg hlf] at h ⊢
    exact ⟨y, rest, hsplit, hlongest.1, List.append_ne_nil_of_left_ne_nil h.1 y, hmore h.2⟩

theorem Layout.Shape.exists_more {l : Layout} {x after : Text} (h : l.Shape x after)
    (after' : Text) : ∃ y rest, after' = y ++ rest ∧ AllBlank y ∧ l.Shape (x ++ y) rest := by
  obtain ⟨a, m, z, rfl, ha, hm, hz⟩ := h
  obtain ⟨y, rest, hsplit, hblank, hz'⟩ := hz.exists_more after'
  exact ⟨y, rest, hsplit, hblank, a, m, z ++ y, by simp, ha, hm, hz'⟩

/-- What is found in one text is found wherever it stands, but where white
space is relaxed it may go on there with tabs and spaces. -/
theorem Strategy.Finds.elsewhere {st : Strategy} {search left x right : Text}
    (hst : st ≠ .tokens)
    (h : st.Finds search (left ++ (x ++ right)) ⟨left.length, left.length + x.length⟩)
    (before after : Text) : ∃ y rest, after = y ++ rest ∧ AllBlank y ∧
      st.Finds search (before ++ (x ++ after)) ⟨before.length, before.length + (x ++ y).length⟩ := by
  cases st with
  | exact =>
    obtain ⟨hlt, -, hslice⟩ := h
    rw [slice_append] at hslice
    subst hslice
    have hne : x ≠ [] := by
      rintro rfl
      exact Nat.lt_irrefl _ hlt
    refine ⟨[], after, rfl, nofun, exact_finds_iff_append.mpr ⟨hne, before, after, rfl, ?_⟩⟩
    rw [List.append_nil]
  | whitespace =>
    obtain ⟨l, hl, before', x', after', htext, hspan, hshape⟩ := h
    obtain ⟨hstart, hstop⟩ := Span.mk.inj hspan
    obtain ⟨rfl, hrest⟩ := List.append_inj htext hstart
    obtain ⟨rfl, rfl⟩ := List.append_inj hrest (by omega)
    obtain ⟨y, rest, rfl, hblank, hmore⟩ := hshape.exists_more after
    exact ⟨y, rest, rfl, hblank, l, hl, before, x ++ y, rest, by simp, rfl, hmore⟩
  | tokens => exact absurd rfl hst

/-! ## §3 Texts sought that are left -/

/-- How a text sought can be found in `after`, which is left when places of
`content` are replaced. -/
inductive Leftover (content : Text) (cs : List (Span × Text)) (after search : Text) :
    Strategy → Span → Prop
  /-- It stood in `content` already, and what is found now was kept from
  between the places replaced. White space that is relaxed may have gone on
  after it with the tabs and spaces `y`. -/
  | copy {st : Strategy} {left x right y rest : Text} {k : Nat}
      (text : after = left ++ (x ++ right)) (kept : Replaced.Keeps 0 content cs left x right k)
      (more : content.drop (k + x.length) = y ++ rest) (blank : AllBlank y)
      (stood : st.Finds search content ⟨k, k + (x ++ y).length⟩) :
      Leftover content cs after search st ⟨left.length, left.length + x.length⟩
  /-- It is part of a replacement, which itself holds the text with white
  space relaxed. -/
  | relaxed {left new right : Text} {s r : Span} (text : after = left ++ (new ++ right))
      (put : Replaced.Puts 0 content cs left new right)
      (inside : left.length ≤ s.start ∧ s.stop ≤ left.length + new.length)
      (held : Strategy.whitespace.Finds search new r) :
      Leftover content cs after search .whitespace s
  /-- It reaches across a border of a replacement. -/
  | across {st : Strategy} {left new right : Text} {s : Span} {border : Nat}
      (text : after = left ++ (new ++ right)) (put : Replaced.Puts 0 content cs left new right)
      (edge : border = left.length ∨ border = left.length + new.length)
      (crossed : s.start < border ∧ border < s.stop) :
      Leftover content cs after search st s

/-- If no replacement holds the text sought, it is found in one of these
ways or not at all. -/
theorem leftover_of_finds {content after search : Text} {cs : List (Span × Text)} {st : Strategy}
    {s : Span} (hreplaced : Replaced 0 content cs after) (hnew : ∀ c ∈ cs, ¬ search <:+: c.2)
    (hst : st ≠ .tokens) (h : st.Finds search after s) : Leftover content cs after search st s := by
  obtain ⟨left, x, right, rfl, rfl, -⟩ :=
    Matcher.takes_iff_append.mp (Strategy.takes_iff.mpr h)
  obtain ⟨k, hkept⟩ | ⟨before, new, behind, hput, htext, hplace⟩ := hreplaced.origin rfl
  · obtain ⟨a, c, rfl, rfl⟩ := hkept.text
    rw [Nat.zero_add] at hkept
    obtain ⟨y, rest, rfl, hblank, hstood⟩ := h.elsewhere hst a c
    have hmore : (a ++ (x ++ (y ++ rest))).drop (a.length + x.length) = y ++ rest := by
      rw [← List.drop_drop, List.drop_left, List.drop_left]
    exact .copy rfl hkept hmore hblank hstood
  · obtain ⟨hstart, hstop⟩ | ⟨border, hedge, hcrossed⟩ := hplace
    · obtain ⟨a, rfl, hin⟩ := exists_of_append_eq htext.symm hstart
      have hcut : (a ++ x) ++ right = new ++ behind := by rw [List.append_assoc, hin]
      obtain ⟨b, rfl, rfl⟩ := exists_of_append_eq hcut (by simp at hstop ⊢; omega)
      obtain ⟨place, hmem⟩ := hput.mem
      cases st with
      | exact =>
        have hsame : x = search := by
          obtain ⟨-, -, hslice⟩ := h
          rwa [slice_append] at hslice
        subst hsame
        exact absurd ⟨a, b, rfl⟩ (hnew _ hmem)
      | whitespace =>
        obtain ⟨y, rest, hb, -, hheld⟩ := h.elsewhere hst a b
        rw [← List.append_assoc] at hheld
        exact .relaxed htext hput ⟨hstart, hstop⟩ hheld
      | tokens => exact absurd rfl hst
    · exact .across htext hput hedge hcrossed

/-! ## §4 Applying again -/

/-- The outcome of a block whose text is nowhere. -/
def Block.notFound (b : Block) : Outcome :=
  .failed none ("Could not find search content" ++ hintNote "hinted at line " b ++ ": \"" ++
    b.preview ++ "\"")

section Again

variable {content : Text} {window : Int} {bs : List Block}

theorem verdicts_of_locate_eq_none (hsought : ∀ b ∈ bs, b.sought ≠ [])
    (hnone : ∀ b ∈ bs, b.locate content window = none) :
    verdicts content window bs = bs.map fun _ => .missing := by
  have hfrom (bs : List Block) (hbs : ∀ b ∈ bs, b.sought ≠ [] ∧ b.locate content window = none) :
      ∀ i before, judgeFrom content window i before bs = bs.map fun _ => .missing := by
    induction bs with
    | nil => exact fun _ _ => rfl
    | cons b bs ih =>
      intro i before
      obtain ⟨⟨hne, hb⟩, hrest⟩ := List.forall_mem_cons.mp hbs
      have hjudge : judge content window before b = .missing := by
        rw [judge, if_neg hne, hb]
      rw [judgeFrom_cons, hjudge, ih hrest, List.map_cons]
  exact hfrom bs (fun b hb => ⟨hsought b hb, hnone b hb⟩) 0 []

/-- All blocks fail for want of their texts, and the text is left as it is,
exactly where none of them is located. -/
theorem applyBlocks_eq_notFound_iff (hsought : ∀ b ∈ bs, b.sought ≠ []) :
    applyBlocks content window bs = ⟨content, bs.map Block.notFound⟩ ↔
      ∀ b ∈ bs, b.locate content window = none := by
  have hsel := selection_placements content window bs
  constructor
  · intro h b hb
    have hplaced : placements content window bs = [] := by
      refine List.eq_nil_iff_forall_not_mem.mpr fun p hp => ?_
      obtain ⟨line, hline⟩ := exists_outcome_of_mem hp
      rw [h, List.getElem?_map, Option.map_eq_some_iff] at hline
      obtain ⟨c, -, hc⟩ := hline
      cases hc
    obtain ⟨i, hi⟩ := List.getElem?_of_mem hb
    rw [hplaced] at hsel
    obtain hempty | hnone | ⟨-, -, p, hp, -⟩ := hsel.refused i b hi (fun p hp => nomatch hp)
    · exact absurd hempty (hsought b hb)
    · exact hnone
    · cases hp
  · intro hnone
    have hplaced : placements content window bs = [] := by
      refine List.eq_nil_iff_forall_not_mem.mpr fun p hp => ?_
      obtain ⟨b, hb, hplace, -⟩ := hsel.located p hp
      rw [hnone b (List.mem_of_getElem? hb)] at hplace
      cases hplace
    have hcontent : spliceAll content (inOrder []) = content := by simp [inOrder, spliceAll]
    rw [applyBlocks, hplaced, hcontent, verdicts_of_locate_eq_none hsought hnone]
    exact congrArg (Patched.mk content) (List.ext_getElem (by simp) fun i _ _ => by
      simp [outcome, Block.notFound])

theorem sought_ne_nil_of_applied
    (happlied : ∀ o ∈ (applyBlocks content window bs).outcomes, o.isApplied = true) :
    ∀ b ∈ bs, b.sought ≠ [] := by
  intro b hb
  obtain ⟨i, hi⟩ := List.getElem?_of_mem hb
  have hlt : i < (applyBlocks content window bs).outcomes.length := by
    rw [length_outcomes]
    exact (List.getElem?_eq_some_iff.mp hi).1
  have houtcome := List.getElem?_eq_getElem hlt
  obtain ⟨p, hp, rfl⟩ := (isApplied_iff_placed houtcome).mp (happlied _ (List.getElem_mem hlt))
  obtain ⟨c, hc, hplace, -⟩ := (selection_placements content window bs).located p hp
  obtain rfl := Option.some.inj (hi.symm.trans hc)
  exact Block.sought_ne_nil hplace

end Again

/-- Blocks that were all put in, and whose replacements hold none of the texts
sought, are applied to the text they left. They all fail for want of their
texts, and leave the text as it is, exactly if no text sought is found in it,
as it stands or with white space relaxed. A text sought is found only as a
copy that stood there before, in a replacement that holds it with white space
relaxed, or across the border of a replacement, so this is where a block is
put in again if it is. -/
theorem applyBlocks_again {content after : Text} {window : Int} {bs : List Block}
    {outcomes : List Outcome} (hrun : applyBlocks content window bs = ⟨after, outcomes⟩)
    (happlied : ∀ o ∈ outcomes, o.isApplied = true)
    (hnew : ∀ b ∈ bs, ∀ c ∈ bs, ¬ b.sought <:+: LineEnding.normalize c.replacement) :
    ∃ qs : List Placement, qs.Perm (placements content window bs) ∧
      Replaced 0 content (cuts qs) after ∧
      (applyBlocks after window bs = ⟨after, bs.map Block.notFound⟩ ↔
        ∀ b ∈ bs, ∀ (st : Strategy) (s : Span), st ≠ .tokens → ¬ st.Finds b.sought after s) ∧
      (∀ b ∈ bs, ∀ (st : Strategy) (s : Span), st ≠ .tokens → st.Finds b.sought after s →
        Leftover content (cuts qs) after b.sought st s) ∧
      ∀ p ∈ placements after window bs, ∃ b, bs[p.index]? = some b ∧
        Leftover content (cuts qs) after b.sought p.place.strategy p.place.span := by
  have hafter : after = spliceAll content (inOrder (placements content window bs)) :=
    (congrArg Patched.content hrun).symm
  have hsel := selection_placements content window bs
  have hreplaced := hsel.spliceAll_replaced
  rw [← hafter] at hreplaced
  have hfresh : ∀ b ∈ bs, ∀ c ∈ cuts (inOrder (placements content window bs)),
      ¬ b.sought <:+: c.2 := by
    intro b hb c hc
    obtain ⟨p, hp, rfl⟩ := List.mem_map.mp hc
    obtain ⟨d, hd, -, hreplacement⟩ := hsel.located p ((inOrder_perm _).mem_iff.mp hp)
    rw [hreplacement]
    exact hnew b hb d (List.mem_of_getElem? hd)
  have hleft : ∀ b ∈ bs, ∀ (st : Strategy) (s : Span), st ≠ .tokens →
      st.Finds b.sought after s → Leftover content
        (cuts (inOrder (placements content window bs))) after b.sought st s :=
    fun b hb st s hst hfinds => leftover_of_finds hreplaced (hfresh b hb) hst hfinds
  refine ⟨_, inOrder_perm _, hreplaced, ?_, hleft, fun p hp => ?_⟩
  · have hall : ∀ o ∈ (applyBlocks content window bs).outcomes, o.isApplied = true := by
      rw [hrun]
      exact happlied
    rw [applyBlocks_eq_notFound_iff (sought_ne_nil_of_applied hall)]
    refine forall₂_congr fun b _ => locate_eq_none_iff.trans ⟨fun h st s hst => ?_, fun h s => ?_⟩
    · cases st with
      | exact => exact (h s).1
      | whitespace => exact (h s).2
      | tokens => exact absurd rfl hst
    · exact ⟨h .exact s (by decide), h .whitespace s (by decide)⟩
  · obtain ⟨b, hb, hplace, -⟩ := (selection_placements after window bs).located p hp
    have hst : p.place.strategy ≠ .tokens := by
      obtain hexact | ⟨hwhitespace, -⟩ := locate_strategy hplace
      · rw [hexact]
        exact nofun
      · rw [hwhitespace]
        exact nofun
    exact ⟨b, hb, hleft b (List.mem_of_getElem? hb) _ _ hst (locate_finds hplace).1⟩

/-- Of a text that stands once, with a replacement that shares nothing with
it, nothing is left. -/
theorem applyBlocks_again_finds_nothing :
    applyBlocks "aaa\nbbb\nccc\n" 30 [⟨"bbb", "BBB", [], some 2⟩] =
        ⟨"aaa\nBBB\nccc\n", [.applied 2 2 .exact]⟩ ∧
      (∀ b ∈ [(⟨"bbb", "BBB", [], some 2⟩ : Block)], ∀ c ∈ [(⟨"bbb", "BBB", [], some 2⟩ : Block)],
        ¬ b.sought <:+: LineEnding.normalize c.replacement) ∧
      ∀ s, ¬ Strategy.whitespace.Finds "bbb" "aaa\nBBB\nccc\n" s := by
  have hrun : applyBlocks "aaa\nbbb\nccc\n" 30 [⟨"bbb", "BBB", [], some 2⟩] =
      ⟨"aaa\nBBB\nccc\n", [.applied 2 2 .exact]⟩ := by
    cbv
  have hnew : ∀ b ∈ [(⟨"bbb", "BBB", [], some 2⟩ : Block)],
      ∀ c ∈ [(⟨"bbb", "BBB", [], some 2⟩ : Block)],
        ¬ b.sought <:+: LineEnding.normalize c.replacement := by decide
  have hagain : applyBlocks "aaa\nBBB\nccc\n" 30 [⟨"bbb", "BBB", [], some 2⟩] =
      ⟨"aaa\nBBB\nccc\n", [Block.notFound ⟨"bbb", "BBB", [], some 2⟩]⟩ := by
    cbv
  obtain ⟨-, -, -, hiff, -⟩ := applyBlocks_again hrun (by decide) hnew
  exact ⟨hrun, hnew, fun s => hiff.mp hagain _ List.mem_cons_self .whitespace s (by decide)⟩

/-- A block is put in again at the second copy of its text. -/
theorem applied_again_to_second_copy :
    cr ∉ ofString "foo\nfoo\n" ∧
      (∀ o ∈ (applyBlocks "foo\nfoo\n" 30 [⟨"foo", "bar", [], none⟩]).outcomes,
        o.isApplied = true) ∧
      (∀ b ∈ [(⟨"foo", "bar", [], none⟩ : Block)], ∀ c ∈ [(⟨"foo", "bar", [], none⟩ : Block)],
        ¬ b.sought <:+: LineEnding.normalize c.replacement) ∧
      ¬ ∀ o ∈ (applyBlocks (applyBlocks "foo\nfoo\n" 30 [⟨"foo", "bar", [], none⟩]).content 30
        [⟨"foo", "bar", [], none⟩]).outcomes, o.isApplied = false := by
  have hfirst : applyBlocks "foo\nfoo\n" 30 [⟨"foo", "bar", [], none⟩] =
      ⟨"bar\nfoo\n", [.applied 1 1 .exact]⟩ := by
    cbv
  have hsecond : applyBlocks "bar\nfoo\n" 30 [⟨"foo", "bar", [], none⟩] =
      ⟨"bar\nbar\n", [.applied 2 2 .exact]⟩ := by
    cbv
  rw [hfirst, hsecond]
  decide

-- A deletion joins the halves of a further copy.
example : (applyBlocks "aabb" 30 [⟨"ab", [], [], none⟩]).content = "ab" ∧
    (applyBlocks "ab" 30 [⟨"ab", [], [], none⟩]).outcomes = [.applied 1 1 .exact] := by
  constructor <;> cbv

-- The replacement holds the text with a space more.
example : (applyBlocks "a b" 30 [⟨"a b", "a  b", [], none⟩]).content = "a  b" ∧
    (applyBlocks "a  b" 30 [⟨"a b", "a  b", [], none⟩]).outcomes = [.applied 1 1 .whitespace] := by
  constructor <;> cbv

end Amend
