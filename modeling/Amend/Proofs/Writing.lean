/-
Amend.Proofs.Writing — a request that is written is read back.

A request is written from drafts: lines of prose, and the texts and hints of
blocks (`Draft`). With a divider in front of the lines to find, these may
look like a hint, a divider or a marker of another block. Each draft has the
lines of the part it stands for (`Draft.Plain.exists_part`), so reading finds
the drafts again (`readBlocks_write`).

  §1 Texts and their lines.
  §2 Numbers on hint lines.
  §3 Drafts.
  §4 Requests.
-/
import Mathlib.Data.List.TakeWhile
import Amend.Proofs.Encoding
import Amend.Proofs.Interruption

namespace Amend

open Text

/-! ## §1 Texts and their lines -/

namespace Text

theorem trim_eq_self {t : Text} (h : ∀ s ∈ t, s.isSpace = false) : trim t = t := by
  have hkeep {u : Text} (hu : ∀ s ∈ u, s.isSpace = false) : u.dropWhile Symbol.isSpace = u := by
    rw [List.dropWhile_eq_self_iff]
    intro hpos
    rw [hu _ (List.getElem_mem hpos)]
    exact Bool.false_ne_true
  unfold trim trimStart trimEnd
  rw [hkeep h, hkeep fun s hs => h s (List.mem_reverse.mp hs), List.reverse_reverse]

theorem mem_unlines {ls : List Text} {s : Symbol} (h : s ∈ unlines ls) :
    s = lf ∨ ∃ l ∈ ls, s ∈ l := by
  induction ls with
  | nil => cases h
  | cons l ls ih =>
    cases ls with
    | nil =>
      rw [unlines_singleton] at h
      exact .inr ⟨l, List.mem_cons_self, h⟩
    | cons m ms =>
      rw [unlines_cons_cons] at h
      rcases List.mem_append.mp h with hl | hrest
      · exact .inr ⟨l, List.mem_cons_self, hl⟩
      · rcases List.mem_cons.mp hrest with heq | hrest
        · exact .inl heq
        · obtain heq | ⟨k, hk, hs⟩ := ih hrest
          · exact .inl heq
          · exact .inr ⟨k, List.mem_cons_of_mem l hk, hs⟩

theorem subset_unlines {ls : List Text} {l : Text} (hl : l ∈ ls) : l ⊆ unlines ls := by
  induction ls with
  | nil => cases hl
  | cons k ls ih =>
    cases ls with
    | nil =>
      obtain rfl := List.mem_singleton.mp hl
      rw [unlines_singleton]
      exact List.Subset.refl l
    | cons m ms =>
      rw [unlines_cons_cons]
      rcases List.mem_cons.mp hl with rfl | hl
      · exact List.subset_append_left _ _
      · exact List.subset_append_of_subset_right k (List.subset_cons_of_subset lf (ih hl))

/-- A line holds nothing that its text does not hold. -/
theorem subset_of_mem_lines {t l : Text} (hl : l ∈ lines t) : l ⊆ t := by
  have hsubset := subset_unlines hl
  rwa [unlines_lines] at hsubset

/-- Lines without line breaks are read back as they were joined. -/
theorem lines_normalize_unlines {ls : List Text} (hne : ls ≠ [])
    (hplain : ∀ l ∈ ls, lf ∉ l ∧ cr ∉ l) : lines (LineEnding.normalize (unlines ls)) = ls := by
  have hpair : ¬ [cr, lf] <:+: unlines ls := by
    intro hpair
    obtain heq | ⟨l, hl, hcr⟩ := mem_unlines (hpair.subset List.mem_cons_self)
    · cases heq
    · exact (hplain l hl).2 hcr
  rw [LineEnding.normalize_eq_self hpair,
    lines_unlines_of_notMem hne fun l hl => (hplain l hl).1]

end Text

/-! ## §2 Numbers on hint lines -/

/-- A label and digits, with no white space among them, are a hint line. -/
theorem hintDigits_label_append {digits : Text} {ds : List Nat} (hne : ds ≠ [])
    (hdigits : digits.mapM Symbol.digit? = some ds) (hspace : ∀ s ∈ digits, s.isSpace = false) :
    hintDigits? (hintLabel ++ digits) = some ds := by
  have hlabel : ∀ s ∈ hintLabel, s.isSpace = false := by decide +kernel
  have htrim : trim (hintLabel ++ digits) = hintLabel ++ digits :=
    trim_eq_self fun s hs => (List.mem_append.mp hs).elim (hlabel s) (hspace s)
  obtain ⟨d, ds, rfl⟩ := List.exists_cons_of_ne_nil hne
  unfold hintDigits?
  rw [htrim]
  dsimp only
  rw [List.drop_left, hdigits, if_pos (List.isPrefixOf_iff_prefix.mpr (List.prefix_append _ _))]

namespace Symbol

variable {c : Char}

theorem digit?_of_isDigit (h : c.isDigit = true) :
    digit? (.char c) = some (c.toNat - '0'.toNat) := by
  obtain ⟨hlow, hhigh⟩ := Char.isDigit_iff_toNat.mp h
  have hzero : '0'.toNat = 0x30 := rfl
  have hnine : '9'.toNat = 0x39 := rfl
  unfold digit?
  dsimp only
  rw [if_pos (by omega), if_pos (by omega), hzero]

theorem isSpace_of_isDigit (h : c.isDigit = true) : (Symbol.char c).isSpace = false := by
  obtain ⟨hlow, hhigh⟩ := Char.isDigit_iff_toNat.mp h
  have hzero : '0'.toNat = 0x30 := rfl
  have hnine : '9'.toNat = 0x39 := rfl
  have hranges : ∀ r ∈ whiteSpaceRanges, r.2 < 0x30 ∨ 0x39 < r.1 := by decide
  refine List.any_eq_false.mpr fun r hr => ?_
  have hapart := hranges r hr
  rw [Bool.and_eq_true, decide_eq_true_iff, decide_eq_true_iff]
  omega

end Symbol

namespace Text

/-- The values of the digits a number is written with. -/
def digitsOf (n : Nat) : List Nat := (Nat.toDigits 10 n).map fun c => c.toNat - '0'.toNat

theorem ofNat_eq_map (n : Nat) : ofNat n = (Nat.toDigits 10 n).map .char := by
  rw [ofNat, ofString, Nat.toList_repr]

theorem isSpace_of_mem_ofNat {n : Nat} {s : Symbol} (hs : s ∈ ofNat n) : s.isSpace = false := by
  rw [ofNat_eq_map] at hs
  obtain ⟨c, hc, rfl⟩ := List.mem_map.mp hs
  exact Symbol.isSpace_of_isDigit (Nat.isDigit_of_mem_toDigits (by decide) (by decide) hc)

theorem digitsOf_ne_nil (n : Nat) : digitsOf n ≠ [] :=
  List.map_eq_nil_iff.not.mpr Nat.toDigits_ne_nil

theorem length_digitsOf (n : Nat) : (digitsOf n).length = (ofNat n).length := by
  rw [digitsOf, ofNat_eq_map, List.length_map, List.length_map]

theorem mapM_digit_ofNat (n : Nat) : (ofNat n).mapM Symbol.digit? = some (digitsOf n) := by
  have hmap {cs : List Char} (hcs : ∀ c ∈ cs, c.isDigit = true) :
      (cs.map Symbol.char).mapM Symbol.digit? = some (cs.map fun c => c.toNat - '0'.toNat) := by
    induction cs with
    | nil => rfl
    | cons c cs ih =>
      obtain ⟨hc, hrest⟩ := List.forall_mem_cons.mp hcs
      rw [List.map_cons, List.mapM_cons, Symbol.digit?_of_isDigit hc, ih hrest]
      rfl
  rw [ofNat_eq_map]
  exact hmap fun c hc => Nat.isDigit_of_mem_toDigits (by decide) (by decide) hc

/-- The digits of a number are read as the number. -/
theorem ofDigits_digitsOf (n : Nat) : Decimal.ofDigits 0 (digitsOf n) = n := by
  have hfold : Decimal.ofDigits 0 (digitsOf n) =
      Nat.ofDigitChars 10 (Nat.toDigits 10 n) 0 := by
    rw [Nat.ofDigitChars_eq_foldl, Decimal.ofDigits, digitsOf, List.foldl_map]
    simp only [Nat.mul_comm 10]
  rw [hfold, Nat.ofDigitChars_ten_toDigits]

end Text

/-- The line that states a hint. -/
def hintLine (n : Nat) : Text := hintLabel ++ Text.ofNat n

theorem hintDigits_hintLine (n : Nat) : hintDigits? (hintLine n) = some (digitsOf n) :=
  hintDigits_label_append (digitsOf_ne_nil n) (mapM_digit_ofNat n) fun _ => isSpace_of_mem_ofNat

/-! ## §3 Drafts -/

/-- A piece of a request before it is written. -/
inductive Draft where
  | prose (line : Text)
  | block (search replacement : Text) (hint : Option Nat)
  deriving DecidableEq, Repr

namespace Draft

/-- The lines a draft is written with. -/
def lines : Draft → List Text
  | prose line => [line]
  | block search replacement hint => Block.write search replacement hint

/-- The block that a draft means, if it means one. -/
def block? : Draft → Option Block
  | prose _ => none
  | block search replacement hint =>
    some ⟨search, replacement, unlines (Block.write search replacement hint), hint.map Int.ofNat⟩

/-- A draft that can be written: its texts hold no carriage return and no
marker line that would end them early, and its hint names a line and is not
too long. -/
def Plain : Draft → Prop
  | prose line => cr ∉ line ∧ lf ∉ line ∧ Marker.search.on line = false
  | block search replacement hint =>
    cr ∉ search ∧ cr ∉ replacement ∧ search ≠ [] ∧
      (∀ l ∈ Text.lines search, Marker.separator.on l = false) ∧
      (∀ l ∈ Text.lines replacement, Marker.replace.on l = false) ∧
      ∀ n ∈ hint, 0 < n ∧ (ofNat n).length ≤ digitLimit

instance : DecidablePred Plain
  | prose line => inferInstanceAs (Decidable (cr ∉ line ∧ lf ∉ line ∧ _))
  | block search replacement _ => inferInstanceAs (Decidable (cr ∉ search ∧ cr ∉ replacement ∧ _))

namespace Plain

variable {d : Draft}

/-- The lines of a draft have no line break within them. -/
theorem breaks_notMem (h : d.Plain) : ∀ l ∈ d.lines, lf ∉ l ∧ cr ∉ l := by
  have hmarker (m : Marker) : lf ∉ m.text ∧ cr ∉ m.text := by cases m <;> decide
  have hhint (n : Nat) : lf ∉ hintLine n ∧ cr ∉ hintLine n := by
    have hlabel : lf ∉ hintLabel ∧ cr ∉ hintLabel := by decide
    have hnumber {s : Symbol} (hspace : s.isSpace = true) : s ∉ ofNat n := fun hs => by
      rw [isSpace_of_mem_ofNat hs] at hspace
      cases hspace
    constructor
    · exact fun hmem => (List.mem_append.mp hmem).elim hlabel.1 (hnumber (by decide))
    · exact fun hmem => (List.mem_append.mp hmem).elim hlabel.2 (hnumber (by decide))
  have hbody {t : Text} (hcr : cr ∉ t) : ∀ l ∈ Text.lines t, lf ∉ l ∧ cr ∉ l := fun l hl =>
    ⟨lf_notMem_of_mem_lines hl, fun hmem => hcr (subset_of_mem_lines hl hmem)⟩
  cases d with
  | prose line =>
    intro l hl
    obtain rfl := List.mem_singleton.mp hl
    exact ⟨h.2.1, h.1⟩
  | block search replacement hint =>
    obtain ⟨hsearch, hreplacement, -⟩ := h
    intro l hl
    simp only [lines, Block.write, List.mem_append, List.mem_singleton] at hl
    obtain ((((((rfl | hl) | rfl) | hl) | rfl) | hl) | rfl) := hl
    · exact hmarker .search
    · cases hint with
      | none => cases hl
      | some n =>
        obtain rfl := List.mem_singleton.mp hl
        exact hhint n
    · exact hmarker .divider
    · exact hbody hsearch l hl
    · exact hmarker .separator
    · exact hbody hreplacement l hl
    · exact hmarker .replace

end Plain

/-- The lines above the lines to find are the heading they are meant to be,
whatever comes after the divider. -/
theorem heading_written {hint : Option Nat}
    (hhint : ∀ n ∈ hint, 0 < n ∧ (ofNat n).length ≤ digitLimit) (body : List Text) :
    Heading (hint.map hintLine) (some Marker.divider.text) body where
  hint_taken := by
    refine ⟨fun l hl => ?_, fun _ l hl => ?_⟩
    · obtain ⟨n, -, rfl⟩ := Option.map_eq_some_iff.mp hl
      rw [isHint, hintDigits_hintLine]
      rfl
    · obtain rfl := Option.some.inj hl
      decide
  short := by
    intro l ds hl hds
    obtain ⟨n, hn, rfl⟩ := Option.map_eq_some_iff.mp hl
    rw [hintDigits_hintLine, Option.some.injEq] at hds
    rw [← hds, length_digitsOf]
    exact (hhint n hn).2
  divider_taken := by
    refine ⟨fun l hl => ?_, fun h => absurd h (Option.some_ne_none _)⟩
    obtain rfl := Option.some.inj hl
    decide

theorem hintOn_written {hint : Option Nat}
    (hhint : ∀ n ∈ hint, 0 < n ∧ (ofNat n).length ≤ digitLimit) :
    hintOn (hint.map hintLine) = hint.map Int.ofNat := by
  cases hint with
  | none => rfl
  | some n =>
    have hpos := (hhint n rfl).1
    rw [Option.map_some, hintOn, Option.bind_some, hintDigits_hintLine, Option.bind_some,
      ofDigits_digitsOf, if_neg (by omega)]
    rfl

/-- A draft is written as a part of a request that is read as it was meant. -/
theorem Plain.exists_part {d : Draft} (h : d.Plain) :
    ∃ x : Part, x.lines = d.lines ∧ x.block? = d.block? := by
  cases d with
  | prose line => exact ⟨.prose line h.2.2, rfl, rfl⟩
  | block search replacement hint =>
    obtain ⟨-, -, hne, hseparator, hreplace, hhint⟩ := h
    let p : Passage := {
      opening := Marker.search.text
      hint := hint.map hintLine
      divider := some Marker.divider.text
      search := Text.lines search
      separator := Marker.separator.text
      replacement := Text.lines replacement
      closing := Marker.replace.text
      opening_on := by decide
      heading := heading_written hhint _
      search_plain := hseparator
      search_ne_nil := by rwa [unlines_lines]
      separator_on := by decide
      replacement_plain := hreplace
      closing_on := by decide }
    have hlines : p.lines = Block.write search replacement hint := by
      cases hint <;> simp [p, Passage.lines, Passage.linesThen, headed, Block.write, hintLine]
    refine ⟨.block p, hlines, ?_⟩
    rw [Part.block?, Passage.block, hlines, block?]
    simp only [p, unlines_lines, hintOn_written hhint]

end Draft

/-! ## §4 Requests -/

/-- Drafts are the parts that their lines are cut into. -/
theorem exists_parts_of_plain {ds : List Draft} (h : ∀ d ∈ ds, d.Plain) :
    ∃ ps, partLines ps = ds.flatMap Draft.lines ∧ partBlocks ps = ds.filterMap Draft.block? := by
  induction ds with
  | nil => exact ⟨[], rfl, rfl⟩
  | cons d ds ih =>
    obtain ⟨hd, hrest⟩ := List.forall_mem_cons.mp h
    obtain ⟨x, hlines, hblock⟩ := hd.exists_part
    obtain ⟨ps, hparts, hblocks⟩ := ih hrest
    refine ⟨x :: ps, ?_, ?_⟩
    · rw [partLines_cons, List.flatMap_cons, hlines, hparts]
    · rw [partBlocks, List.filterMap_cons, List.filterMap_cons, hblock, ← hblocks]
      rfl

/-- A request written from drafts is read as the blocks among them, as they
were written. -/
theorem readBlocks_write {ds : List Draft} (hplain : ∀ d ∈ ds, d.Plain)
    (hblock : ds.filterMap Draft.block? ≠ []) :
    readBlocks (unlines (ds.flatMap Draft.lines)) = .ok (ds.filterMap Draft.block?) := by
  obtain ⟨ps, hparts, hblocks⟩ := exists_parts_of_plain hplain
  have hne : ds.flatMap Draft.lines ≠ [] := by
    rintro hnil
    rw [hnil] at hparts
    have hnone : partBlocks ps = [] :=
      partBlocks_eq_nil_iff.mpr fun l hl => by rw [hparts] at hl; cases hl
    exact hblock (hblocks.symm.trans hnone)
  have hbreaks : ∀ l ∈ ds.flatMap Draft.lines, lf ∉ l ∧ cr ∉ l := by
    intro l hl
    obtain ⟨d, hd, hld⟩ := List.mem_flatMap.mp hl
    exact (hplain d hd).breaks_notMem l hld
  rw [readBlocks_eq_ok_iff, lines_normalize_unlines hne hbreaks, ← hparts, ← hblocks]
  exact ⟨hblocks ▸ hblock, blocksFrom_partLines 1 ps⟩

/-- The texts of the first block look like the heading and the end of a block
and hold markers of others. -/
theorem readBlocks_write_of_markers :
    let ds : List Draft := [.prose "Two edits.", .prose "",
      .block ":start_line:7\n-------\n<<<<<<< SEARCH\n>>>>>>> REPLACE\n" " =======\n\n" (some 12),
      .prose "-------", .block "\n" "" none, .prose "======="]
    (∀ d ∈ ds, d.Plain) ∧ ds.filterMap Draft.block? ≠ [] ∧
      readBlocks (unlines (ds.flatMap Draft.lines)) = .ok (ds.filterMap Draft.block?) := by
  intro ds
  have hplain : ∀ d ∈ ds, d.Plain := by decide +kernel
  have hblock : ds.filterMap Draft.block? ≠ [] := by decide +kernel
  exact ⟨hplain, hblock, readBlocks_write hplain hblock⟩

end Amend
