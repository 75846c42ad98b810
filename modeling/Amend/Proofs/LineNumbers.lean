/-
Amend.Proofs.LineNumbers — the lines that are told of the blocks put in.

A measure of texts that adds up over their parts, such as the length or the
number of line feeds, gains by a replacement what it gains at each place
(`Replaced.measure`). The text before a replacement that was put in is the
text before its place with the places before it replaced
(`Replaced.exists_before`). Its length is the place moved by what the places
before have grown, and its line feeds are counted in the same way, so the
line that is told is the line on which the replacement starts.

  §1 What replacing gains.
  §2 The text before a replacement.
  §3 The lines told.
-/
import Amend.Proofs.Reordering

namespace Amend

open Text

/-! ## §1 What replacing gains -/

namespace Text

/-- A span that ends where the text is cut off, or before, holds the same. -/
theorem slice_take {content : Text} {s : Span} {n : Nat} (h : s.stop ≤ n) :
    slice (content.take n) s = slice content s := by
  have hle : s.length ≤ n - s.start := by
    unfold Span.length
    omega
  unfold slice
  rw [List.drop_take, List.take_take, Nat.min_eq_left hle]

theorem breaks_append (a b : Text) : breaks (a ++ b) = breaks a + breaks b :=
  List.count_append ..

/-- The line of an offset counts the line feeds before it. -/
theorem lineOf_append (before after : Text) :
    lineOf (before ++ after) before.length = breaks before + 1 := by
  unfold lineOf lineAt place
  rw [if_neg (by omega), Int.toNat_natCast, Nat.min_eq_right (by simp), List.take_left]

theorem lineAt_append (before after : Text) :
    lineAt (before ++ after) before.length = breaks before + 1 := by
  rw [lineAt, List.take_left]

end Text

/-- What a measure of texts gains when a span of `content` is replaced. -/
def gain (f : Text → Int) (content : Text) (c : Span × Text) : Int := f c.2 - f (slice content c.1)

/-- A measure that adds up over the parts of a text gains what it gains at
each place. The text replaced is the part of `content` from `pos` on. -/
theorem Replaced.measure {f : Text → Int} (hf : ∀ a b : Text, f (a ++ b) = f a + f b)
    {content t u : Text} {pos : Nat} {cs : List (Span × Text)} (h : Replaced pos t cs u)
    (ht : content.drop pos = t) : f u = f t + (cs.map (gain f content)).sum := by
  induction h with
  | rest => simp
  | @cut pos gap old new t u cs _ ih =>
    have hold : content.drop (pos + gap.length) = old ++ t := by
      rw [← List.drop_drop, ht, List.drop_left]
    have hrest : content.drop (pos + gap.length + old.length) = t := by
      rw [← List.drop_drop, hold, List.drop_left]
    have hslice : slice content ⟨pos + gap.length, pos + gap.length + old.length⟩ = old := by
      simp [slice, hold, Span.length]
    simp only [List.map_cons, List.sum_cons, gain, hf, hslice, ih hrest]
    omega

/-- By how many lines the places that begin before an offset grow. -/
def lineGrowthBefore (content : Text) (cs : List (Span × Text)) (offset : Nat) : Int :=
  ((cs.filter fun c => c.1.start < offset).map fun c =>
    (breaks c.2 : Int) - breaks (slice content c.1)).sum

theorem lineGrowthBefore_perm {content : Text} {cs ds : List (Span × Text)} (h : cs.Perm ds)
    (offset : Nat) : lineGrowthBefore content cs offset = lineGrowthBefore content ds offset :=
  ((h.filter _).map _).sum_eq

/-! ## §2 The text before a replacement -/

/-- The text before a replacement is the text before its place, with the
places before it replaced. The induction is on the places before. -/
theorem Replaced.exists_before {α : Type} {s : Span} {new : List α} {cs ds : List (Span × List α)} :
    ∀ {pos : Nat} {t u : List α}, Replaced pos t (cs ++ (s, new) :: ds) u →
      pos ≤ s.start ∧ ∃ before after, u = before ++ (new ++ after) ∧
        Replaced pos (t.take (s.start - pos)) cs before := by
  induction cs with
  | nil =>
    intro pos t u h
    cases h with
    | @cut _ gap old _ t u _ _ =>
      refine ⟨Nat.le_add_right _ _, gap, u, rfl, ?_⟩
      rw [Nat.add_sub_cancel_left, List.take_left]
      exact .rest
  | cons c cs ih =>
    intro pos t u h
    cases h with
    | @cut _ gap old new' t u _ tail =>
      obtain ⟨hle, before, after, rfl, hbefore⟩ := ih tail
      have hlen : s.start - pos =
          gap.length + (old.length + (s.start - (pos + gap.length + old.length))) := by
        omega
      refine ⟨by omega, gap ++ (new' ++ before), after, by simp, ?_⟩
      rw [hlen, List.take_length_add_append, List.take_length_add_append]
      exact .cut hbefore

theorem filter_cuts (ps : List Placement) (offset : Nat) :
    (cuts ps).filter (fun c => c.1.start < offset) =
      cuts (ps.filter fun q => q.place.span.start < offset) :=
  List.filter_map ..

namespace Selection

variable {content : Text} {window : Int} {bs : List Block} {ps : List Placement}

/-- In order, the places that begin before an accepted place are those that
stand before it. -/
theorem exists_inOrder (h : Selection content window bs ps) {p : Placement} (hp : p ∈ ps) :
    ∃ l r, inOrder ps = l ++ p :: r ∧
      (inOrder ps).filter (fun q => q.place.span.start < p.place.span.start) = l ∧
      ∀ q ∈ l, q.place.span.start ≤ q.place.span.stop ∧
        q.place.span.stop ≤ p.place.span.start := by
  obtain ⟨l, r, hsplit⟩ := List.append_of_mem ((inOrder_perm ps).mem_iff.mpr hp)
  have hordered := h.inOrder_pairwise
  have hinside : ∀ q ∈ inOrder ps, q.place.span.start < q.place.span.stop := fun q hq =>
    (h.inside ((inOrder_perm ps).mem_iff.mp hq)).1
  rw [hsplit] at hordered hinside ⊢
  obtain ⟨-, hright, hleft⟩ := List.pairwise_append.mp hordered
  have hbefore : ∀ q ∈ l, q.place.span.start < q.place.span.stop ∧
      q.place.span.stop ≤ p.place.span.start := fun q hq =>
    ⟨hinside q (List.mem_append_left _ hq), hleft q hq p List.mem_cons_self⟩
  refine ⟨l, r, rfl, ?_, fun q hq => ⟨Nat.le_of_lt (hbefore q hq).1, (hbefore q hq).2⟩⟩
  have hall : l.filter (fun q => q.place.span.start < p.place.span.start) = l := by
    refine List.filter_eq_self.mpr fun q hq => ?_
    have hq := hbefore q hq
    simp only [decide_eq_true_eq]
    omega
  have hnone : (p :: r).filter (fun q => q.place.span.start < p.place.span.start) = [] := by
    refine List.filter_eq_nil_iff.mpr fun q hq => ?_
    have hp := hinside p (List.mem_append_right _ List.mem_cons_self)
    simp only [decide_eq_true_eq, Nat.not_lt]
    rcases List.mem_cons.mp hq with rfl | hq
    · exact Nat.le_refl _
    · have hstop := (List.pairwise_cons.mp hright).1 q hq
      omega
  rw [List.filter_append, hall, hnone, List.append_nil]

/-- The replacement of an accepted place stands after the text before the
place with the places before it replaced. By what these have grown that text
is longer, in symbols and in lines. -/
theorem exists_before (h : Selection content window bs ps) {p : Placement} (hp : p ∈ ps) :
    ∃ before after qs, spliceAll content (inOrder ps) = before ++ (p.replacement ++ after) ∧
      qs.Perm (ps.filter fun q => q.place.span.start < p.place.span.start) ∧
      Replaced 0 (content.take p.place.span.start) (cuts qs) before ∧
      (before.length : Int) = p.place.span.start + growthBefore (cuts ps) p.place.span.start ∧
      (breaks before : Int) = breaks (content.take p.place.span.start) +
        lineGrowthBefore content (cuts ps) p.place.span.start := by
  obtain ⟨l, r, hsplit, hfilter, hl⟩ := h.exists_inOrder hp
  have hreplaced := h.spliceAll_replaced
  have hcuts : cuts (inOrder ps) = cuts l ++ (p.place.span, p.replacement) :: cuts r := by
    rw [hsplit]
    exact List.map_append ..
  rw [hcuts] at hreplaced
  obtain ⟨-, before, after, hafter, hbefore⟩ := hreplaced.exists_before
  rw [Nat.sub_zero] at hbefore
  have hstart : p.place.span.start ≤ content.length :=
    Nat.le_trans (Nat.le_of_lt (h.inside hp).1) (h.inside hp).2
  have hmeasure (f : Text → Int) (hf : ∀ a b : Text, f (a ++ b) = f a + f b) :=
    hbefore.measure hf (List.drop_zero ..)
  have hperm : (cuts (inOrder ps)).Perm (cuts ps) := (inOrder_perm ps).map _
  refine ⟨before, after, l, hafter, ?_, hbefore, ?_, ?_⟩
  · rw [← hfilter]
    exact (inOrder_perm ps).filter _
  · rw [hmeasure (fun t => t.length) fun a b => by simp, List.length_take_of_le hstart,
      ← growthBefore_perm hperm, growthBefore, filter_cuts, hfilter]
    congr 2
    refine List.map_congr_left fun c hc => ?_
    obtain ⟨q, hq, rfl⟩ := List.mem_map.mp hc
    rw [gain, slice_take (hl q hq).2, length_slice (Nat.le_trans (hl q hq).2 hstart)]
  · rw [hmeasure (fun t => breaks t) fun a b => by simp [breaks_append],
      ← lineGrowthBefore_perm hperm, lineGrowthBefore, filter_cuts, hfilter]
    congr 2
    refine List.map_congr_left fun c hc => ?_
    obtain ⟨q, hq, rfl⟩ := List.mem_map.mp hc
    rw [gain, slice_take (hl q hq).2]

end Selection

/-! ## §3 The lines told -/

section Told

variable {content : Text} {window : Int} {bs : List Block} {i matched result : Nat}
  {strategy : Strategy}

/-- A block that is told to be applied is placed, and what is told of it is
known from its place. -/
theorem exists_placement_of_applied (h : (applyBlocks content window bs).outcomes[i]? =
    some (.applied matched result strategy)) :
    ∃ p ∈ placements content window bs, p.index = i ∧ p.place.strategy = strategy ∧
      p.place.line = matched ∧
      result = lineOf (applyBlocks content window bs).content
        (p.place.span.start + growthBefore (cuts (placements content window bs))
          p.place.span.start) := by
  obtain ⟨p, hp, rfl⟩ := (isApplied_iff_placed h).mp rfl
  obtain ⟨b, v, hb, hv, hout⟩ := getElem?_outcomes.mp h
  obtain ⟨c, hc, hv', -⟩ := mem_placements_iff.mp hp
  obtain rfl := Option.some.inj (hv.symm.trans hv')
  rw [outcome, (selection_placements content window bs).find?_shifts hp] at hout
  obtain ⟨hline, hresult, hstrategy⟩ := Outcome.applied.inj hout
  exact ⟨p, hp, rfl, hstrategy.symm, hline.symm, hresult⟩

/-- The lines told of a block that is put in are true. The first is the line
of the text as it was on which its place begins. The second is the line of
the text afterwards on which its replacement begins: the replacement stands
there after the text before its place, in which the accepted places before it
are replaced. The two differ by the line feeds these places have gained, and
the second is a line of the text afterwards. -/
theorem applyBlocks_tells_lines (h : (applyBlocks content window bs).outcomes[i]? =
    some (.applied matched result strategy)) :
    ∃ p ∈ placements content window bs, p.index = i ∧ p.place.strategy = strategy ∧
      (∃ b, bs[i]? = some b ∧ p.replacement = LineEnding.normalize b.replacement) ∧
      matched = lineAt content p.place.span.start ∧
      (∃ before after qs,
        (applyBlocks content window bs).content = before ++ (p.replacement ++ after) ∧
        qs.Perm ((placements content window bs).filter fun q =>
          q.place.span.start < p.place.span.start) ∧
        Replaced 0 (content.take p.place.span.start) (cuts qs) before ∧
        result = lineAt (applyBlocks content window bs).content before.length) ∧
      (result : Int) - matched =
        lineGrowthBefore content (cuts (placements content window bs)) p.place.span.start ∧
      1 ≤ result ∧ result ≤ (lines (applyBlocks content window bs).content).length := by
  obtain ⟨p, hp, rfl, hstrategy, hmatched, hresult⟩ := exists_placement_of_applied h
  have hsel := selection_placements content window bs
  obtain ⟨b, hb, hplace, hnew⟩ := hsel.located p hp
  obtain ⟨before, after, qs, hafter, hqs, hbefore, hlength, hbreaks⟩ := hsel.exists_before hp
  have hcontent : (applyBlocks content window bs).content = before ++ (p.replacement ++ after) :=
    hafter
  have hline : p.place.line = breaks (content.take p.place.span.start) + 1 :=
    (locate_finds hplace).2
  rw [← hlength, hcontent, lineOf_append] at hresult
  refine ⟨p, hp, rfl, hstrategy, ⟨b, hb, hnew⟩, by rw [← hmatched, hline, lineAt],
    ⟨before, after, qs, hcontent, hqs, hbefore, ?_⟩, ?_, ?_, ?_⟩
  · rw [hcontent, lineAt_append, hresult]
  · omega
  · omega
  · rw [hcontent, length_lines, breaks_append, hresult]
    omega

end Told

/-- The first block is matched on line 3 and put in on line 2: the second one
takes the line feed before it away, and what the first one puts in has one
that counts for neither. -/
theorem applyBlocks_tells_moved_line :
    (applyBlocks "a\nb\nc\n" 30 [⟨"c", "x\ny", [], none⟩, ⟨"a\n", [], [], none⟩]).outcomes[0]? =
        some (.applied 3 2 .exact) ∧
      ∃ p ∈ placements "a\nb\nc\n" 30 [⟨"c", "x\ny", [], none⟩, ⟨"a\n", [], [], none⟩],
        p.index = 0 ∧ (2 : Int) - 3 = lineGrowthBefore "a\nb\nc\n"
          (cuts (placements "a\nb\nc\n" 30 [⟨"c", "x\ny", [], none⟩, ⟨"a\n", [], [], none⟩]))
          p.place.span.start := by
  have h : (applyBlocks "a\nb\nc\n" 30
      [⟨"c", "x\ny", [], none⟩, ⟨"a\n", [], [], none⟩]).outcomes[0]? =
        some (.applied 3 2 .exact) := by
    cbv
  obtain ⟨p, hp, hindex, -, -, -, -, hgrowth, -⟩ := applyBlocks_tells_lines h
  exact ⟨h, p, hp, hindex, hgrowth⟩

end Amend
