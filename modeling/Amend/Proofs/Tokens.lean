/-
Amend.Proofs.Tokens — what the last strategy finds and what it leaves.

The words of a search text are found wherever the text itself is, and no
places that follow one another are more than theirs. So the number of times
the words are found decides whether an edit is refused as found nowhere, and
no edit can be carried out that expects more (`tokens_count_decides`).

A place of the words begins and ends with a word, while the replacement is put
there as it stands. White space that both the search text and the replacement
have at their ends is therefore put beside that of the file, and the text is
longer by it at every place (`tokens_edit_adds_edges`).

  §1 How often the words are found.
  §2 The white space at the ends of a text.
  §3 Replacing the same places by two texts.
  §4 Edits by the words alone.
-/
import Amend.Proofs.Ambiguity
import Amend.Proofs.LineNumbers
import Mathlib.Data.List.TakeWhile

namespace Amend

open Text

/-! ## §1 How often the words are found -/

/-- The edit is refused since the search text is found nowhere. -/
def RefusedAsMissing (content search : Text) (expected : Int) : Prop :=
  ∃ m, findMatches content search expected = .error m ∧
    ∀ target, (Refusal.mismatch target m).code = .notFound

section Counting

variable {content search : Text} {expected : Int}

/-- No strategy is committed just if each finds another number of places than
is expected. -/
theorem findMatches_error_iff {m : Mismatch} :
    findMatches content search expected = .error m ↔
      (∀ st : Strategy, (st.count content search : Int) ≠ expected) ∧
        m = ⟨expected, Strategy.exact.count content search,
          Strategy.whitespace.count content search, Strategy.tokens.count content search⟩ := by
  simp only [findMatches, Strategy.count]
  constructor
  · intro h
    split at h
    · cases h
    · rename_i hexact
      split at h
      · cases h
      · rename_i hwhitespace
        split at h
        · cases h
        · rename_i htokens
          refine ⟨fun st => ?_, (Except.error.inj h).symm⟩
          cases st with
          | exact => exact hexact
          | whitespace => exact hwhitespace
          | tokens => exact htokens
  · rintro ⟨hcounts, rfl⟩
    rw [if_neg (hcounts .exact), if_neg (hcounts .whitespace), if_neg (hcounts .tokens)]

theorem refusedAsMissing_iff (hpos : 1 ≤ expected) :
    RefusedAsMissing content search expected ↔ ∀ st : Strategy, st.count content search = 0 := by
  constructor
  · rintro ⟨m, hm, hcode⟩
    obtain ⟨-, rfl⟩ := findMatches_error_iff.mp hm
    have hcode := hcode []
    simp only [Refusal.code] at hcode
    split at hcode
    · rename_i hmiss
      simp only [Mismatch.isMiss, Bool.and_eq_true, beq_iff_eq] at hmiss
      intro st
      cases st with
      | exact => exact hmiss.1.1
      | whitespace => exact hmiss.1.2
      | tokens => exact hmiss.2
    · cases hcode
  · intro hcounts
    refine ⟨_, findMatches_error_iff.mpr ⟨fun st => ?_, rfl⟩, fun target => ?_⟩
    · rw [hcounts st]
      omega
    · simp [Refusal.code, Mismatch.isMiss, hcounts]

theorem Strategy.count_eq_zero_iff (st : Strategy) :
    st.count content search = 0 ↔ ∀ s, ¬ st.Finds search content s := by
  rw [count, List.length_eq_zero_iff]
  refine ⟨not_finds_of_spans_eq_nil, fun h => List.eq_nil_iff_forall_not_mem.mpr fun s hs => ?_⟩
  exact h s (finds_of_mem_spans hs)

/-- The words of a search text are found at least as often as the text itself
and as its tolerant matches; no places of any strategies that follow one another
are more. An edit that expects something is therefore refused as found nowhere
just if the words are found nowhere, and it is refused whenever it expects more
than their places. -/
theorem tokens_count_decides (hword : ∃ c ∈ search, c.isSpace = false) :
    Strategy.exact.count content search ≤ Strategy.tokens.count content search ∧
    Strategy.whitespace.count content search ≤ Strategy.tokens.count content search ∧
    (∀ ss : List Span, ss.Pairwise (fun s t => s.stop ≤ t.start) →
      (∀ s ∈ ss, ∃ st : Strategy, st.Finds search content s) →
        ss.length ≤ Strategy.tokens.count content search) ∧
    ∀ expected : Int, 1 ≤ expected →
      (RefusedAsMissing content search expected ↔
        ∀ s, ¬ Strategy.tokens.Finds search content s) ∧
      ((Strategy.tokens.count content search : Int) < expected →
        ∃ m, findMatches content search expected = .error m) := by
  have hcount (st : Strategy) := st.count_le_tokens_count content hword
  refine ⟨hcount .exact, hcount .whitespace,
    fun ss hordered hfound => Strategy.length_le_tokens_count hword hordered hfound,
    fun expected hpos => ⟨?_, fun hmore => ?_⟩⟩
  · rw [refusedAsMissing_iff hpos, ← Strategy.count_eq_zero_iff]
    exact ⟨fun h => h .tokens, fun h st => Nat.le_zero.mp (h ▸ hcount st)⟩
  · refine ⟨_, findMatches_error_iff.mpr ⟨fun st => ?_, rfl⟩⟩
    have := hcount st
    omega

/-- Where the words are committed, something is expected: a strategy that
finds no more than they do was not committed before them. -/
theorem one_le_of_tokens {m : Match} (h : findMatches content search expected = .ok m)
    (htokens : m.strategy = .tokens) : 1 ≤ expected := by
  simp only [findMatches] at h
  split at h
  · cases h
    cases htokens
  · rename_i hexact
    split at h
    · cases h
      cases htokens
    · rename_i hwhitespace
      split at h
      · rename_i hcount
        by_cases hword : ∃ c ∈ search, c.isSpace = false
        · have hle := Strategy.exact.count_le_tokens_count content hword
          simp only [Strategy.count] at hle
          omega
        · have hnone := Strategy.whitespace.count_of_space (by simp) (by simpa using hword) content
          have hnone' := Strategy.tokens.count_of_space (by simp) (by simpa using hword) content
          simp only [Strategy.count] at hnone hnone'
          omega
      · cases h

end Counting

/-- A text that stands once as it is, once more with its white space relaxed,
and once more as words: four are more than there are. -/
theorem four_expected_refused :
    (∃ c ∈ ofString "a b", c.isSpace = false) ∧ (1 : Int) ≤ 4 ∧
      (Strategy.tokens.count (ofString "a b\na\nb\na  b\n") (ofString "a b") : Int) < 4 ∧
      ∃ m, findMatches (ofString "a b\na\nb\na  b\n") (ofString "a b") 4 = .error m := by
  have hword : ∃ c ∈ ofString "a b", c.isSpace = false := by decide
  have hcount : (Strategy.tokens.count (ofString "a b\na\nb\na  b\n") (ofString "a b") : Int) < 4 := by
    decide
  exact ⟨hword, by decide, hcount, ((tokens_count_decides hword).2.2.2 4 (by decide)).2 hcount⟩

/-! ## §2 The white space at the ends of a text -/

namespace Text

/-- The white space a text begins with. -/
def leading (t : Text) : Text := t.takeWhile Symbol.isSpace

/-- The white space a text ends in. -/
def trailing (t : Text) : Text := (t.reverse.takeWhile Symbol.isSpace).reverse

theorem leading_append_trimStart (t : Text) : leading t ++ trimStart t = t :=
  List.takeWhile_append_dropWhile

theorem trimEnd_append_trailing (t : Text) : trimEnd t ++ trailing t = t := by
  rw [trimEnd, trailing, ← List.reverse_append, List.takeWhile_append_dropWhile,
    List.reverse_reverse]

/-- Where a text holds a word, its end is that of what follows the white space
it begins with. -/
theorem trailing_trimStart {t : Text} (hword : ∃ c ∈ t, c.isSpace = false) :
    trailing (trimStart t) = trailing t := by
  have hstop : ∃ c ∈ (trimStart t).reverse, c.isSpace = false := by
    obtain ⟨c, hc, hspace⟩ := hword
    refine ⟨c, List.mem_reverse.mpr ?_, hspace⟩
    rw [← leading_append_trimStart t] at hc
    refine (List.mem_append.mp hc).resolve_left fun hlead => ?_
    have hall := List.mem_takeWhile_imp hlead
    rw [hspace] at hall
    cases hall
  have hreverse : t.reverse = (trimStart t).reverse ++ (leading t).reverse := by
    rw [← List.reverse_append, leading_append_trimStart]
  obtain ⟨x, after, hcut, hlong⟩ := exists_longest Symbol.isSpace (trimStart t).reverse
  have hafter : after ≠ [] := by
    rintro rfl
    obtain ⟨c, hc, hspace⟩ := hstop
    rw [hcut, List.append_nil] at hc
    rw [hlong.1 c hc] at hspace
    cases hspace
  obtain ⟨c, after, rfl⟩ := List.exists_cons_of_ne_nil hafter
  have hlong' : Longest Symbol.isSpace x (c :: after ++ (leading t).reverse) :=
    ⟨hlong.1, fun d hd => hlong.2 d hd⟩
  rw [trailing, trailing, hreverse, hcut, hlong.takeWhile_append, List.append_assoc,
    hlong'.takeWhile_append]

/-- A text that holds a word is what is left of it when it is trimmed, between
the white space at its ends. -/
theorem leading_append_trim_append {t : Text} (hword : ∃ c ∈ t, c.isSpace = false) :
    leading t ++ (trim t ++ trailing t) = t := by
  rw [trim, ← trailing_trimStart hword, trimEnd_append_trailing, leading_append_trimStart]

/-- A text has no white space at its ends just if trimming leaves it as long
as it is. -/
theorem length_trim_eq_iff {t : Text} :
    (trim t).length = t.length ↔ leading t = [] ∧ trailing t = [] := by
  by_cases hword : ∃ c ∈ t, c.isSpace = false
  · have hlength := congrArg List.length (leading_append_trim_append hword)
    simp only [List.length_append] at hlength
    rw [← List.length_eq_zero_iff, ← List.length_eq_zero_iff]
    omega
  · have hspace : ∀ c ∈ t, c.isSpace = true := by simpa using hword
    have hleading : leading t = t := List.takeWhile_eq_self_iff.mpr hspace
    have htrailing : trailing t = t := by
      rw [trailing, List.takeWhile_eq_self_iff.mpr fun c hc => hspace c (List.mem_reverse.mp hc),
        List.reverse_reverse]
    have htrim : trim t = [] := by
      rw [trim, trimStart, List.dropWhile_eq_nil_iff.mpr hspace]
      rfl
    rw [hleading, htrailing, htrim, and_self, List.length_nil, eq_comm, List.length_eq_zero_iff]

/-- A text that is as long when it is trimmed is the same. -/
theorem trim_eq_of_length_eq {t : Text} (h : (trim t).length = t.length) : trim t = t := by
  obtain ⟨hleading, htrailing⟩ := length_trim_eq_iff.mp h
  have hstart := leading_append_trimStart t
  have hend := trimEnd_append_trailing t
  rw [hleading, List.nil_append] at hstart
  rw [htrailing, List.append_nil] at hend
  rw [trim, hstart, hend]

end Text

/-! ## §3 Replacing the same places by two texts -/

theorem sum_map_gain (f : Text → Int) (content new : Text) (ss : List Span) :
    ((ss.map fun s => (s, new)).map (gain f content)).sum =
      ss.length * f new - (ss.map fun s => f (slice content s)).sum := by
  induction ss with
  | nil => simp
  | cons s ss ih =>
    simp only [List.map_cons, List.sum_cons, ih, gain, List.length_cons, Nat.cast_succ,
      Int.add_mul, Int.one_mul]
    omega

/-- Put at the same places, one text makes the whole longer than another by
what it is longer itself, once for each place. -/
theorem Replaced.length_add_mul {content x y u v : Text} {ss : List Span}
    (hx : Replaced 0 content (ss.map fun s => (s, x)) u)
    (hy : Replaced 0 content (ss.map fun s => (s, y)) v) :
    (u.length : Int) = v.length + ss.length * (x.length - y.length) := by
  have hlength (a b : Text) : ((a ++ b).length : Int) = a.length + b.length := by simp
  have hu := hx.measure (f := fun t => (t.length : Int)) hlength (List.drop_zero ..)
  have hv := hy.measure (f := fun t => (t.length : Int)) hlength (List.drop_zero ..)
  rw [sum_map_gain] at hu hv
  rw [hu, hv, Int.mul_sub]
  omega

/-! ## §4 Edits by the words alone -/

section Editing

variable {content search replacement : Text} {expected : Int} {e : Edit}

theorem resolveEdit_ok (h : resolveEdit content search replacement expected = .ok e) :
    findMatches content search expected = .ok e.found ∧
      e.content = replaceAll (e.found.strategy.matcher search) content replacement := by
  rw [resolveEdit] at h
  cases hm : findMatches content search expected with
  | error m => simp [hm, Except.map] at h
  | ok m =>
    simp only [hm, Except.map, Except.ok.injEq] at h
    subst h
    exact ⟨rfl, rfl⟩

/-- Replacing the places an edit found by a text, all at once. -/
theorem replaced_found (h : findMatches content search expected = .ok e.found) (new : Text) :
    Replaced 0 content (e.found.spans.map fun s => (s, new))
      (replaceAll (e.found.strategy.matcher search) content new) := by
  rw [(findMatches_ok h).1]
  exact replaceAll_replaced (e.found.strategy.matcher_bounded search) content new

/-- The search text and the replacement begin with the same white space and end
in the same white space, and the words alone are committed. Each place found
begins and ends with a word, so that none of the white space around it is
replaced, and the whole replacement is put there, white space included. In the
text without it, which has what the replacement is when trimmed at the same
places, nothing would stand twice; the text left is longer than that one by
this white space, once for each place. It is the same just if there is none. -/
theorem tokens_edit_adds_edges (h : resolveEdit content search replacement expected = .ok e)
    (htokens : e.found.strategy = .tokens) (hleading : leading search = leading replacement)
    (htrailing : trailing search = trailing replacement) :
    (∀ s ∈ e.found.spans, Strategy.tokens.Finds search content s) ∧
    Replaced 0 content (e.found.spans.map fun s => (s, replacement)) e.content ∧
    ((∃ c ∈ replacement, c.isSpace = false) →
      replacement = leading search ++ (trim replacement ++ trailing search)) ∧
    ∃ once, Replaced 0 content (e.found.spans.map fun s => (s, trim replacement)) once ∧
      (e.content.length : Int) =
        once.length + expected * (replacement.length - (trim replacement).length) ∧
      (e.content = once ↔ leading search = [] ∧ trailing search = []) := by
  obtain ⟨hfound, hcontent⟩ := resolveEdit_ok h
  obtain ⟨hspans, hcount⟩ := findMatches_ok hfound
  have hwhole := replaced_found hfound replacement
  have honce := replaced_found hfound (trim replacement)
  rw [← hcontent] at hwhole
  have hlonger := hwhole.length_add_mul honce
  rw [hcount] at hlonger
  refine ⟨fun s hs => ?_, hwhole, fun hword => ?_, _, honce, hlonger, ?_⟩
  · rw [hspans, htokens] at hs
    exact Strategy.finds_of_mem_spans hs
  · rw [hleading, htrailing, leading_append_trim_append hword]
  · rw [hleading, htrailing, ← length_trim_eq_iff]
    constructor
    · intro hsame
      have hpos := one_le_of_tokens hfound htokens
      rw [← hsame, left_eq_add, Int.mul_eq_zero] at hlonger
      omega
    · intro hlength
      rw [trim_eq_of_length_eq hlength] at honce ⊢
      exact hwhole.unique honce

end Editing

/-- A call that the file breaks over two lines is renamed. It was indented, and
so are the search text and the replacement: afterwards it is indented twice,
and a line without anything follows it. -/
theorem token_edit_doubles_indentation :
    resolveEdit "    foo(a,\n        b)\n" "    foo(a, b)\n" "    bar(a, b)\n" 1 =
        .ok ⟨"        bar(a, b)\n\n", ⟨.tokens, [⟨4, 21⟩]⟩⟩ ∧
      leading "    foo(a, b)\n" = leading "    bar(a, b)\n" ∧
      trailing "    foo(a, b)\n" = trailing "    bar(a, b)\n" ∧
      trim "    bar(a, b)\n" = ofString "bar(a, b)" ∧
      ¬ Replaced 0 (ofString "    foo(a,\n        b)\n") [(⟨4, 21⟩, ofString "bar(a, b)")]
        (ofString "        bar(a, b)\n\n") := by
  refine ⟨by cbv, by decide, by decide, by decide, fun h => ?_⟩
  have honce : Replaced 0 (ofString "    foo(a,\n        b)\n") [(⟨4, 21⟩, ofString "bar(a, b)")]
      (ofString "    bar(a, b)\n") :=
    .cut_span (by decide) (by decide) (by decide) .rest
  exact absurd (h.unique honce) (by decide)

/-- Two places are replaced; both the search text and the replacement begin
with a space, which the text left has twice more than it should. -/
theorem tokens_edit_adds_spaces :
    ∃ e once, resolveEdit " a\nb; a  b" " a\u2003b" " c" 2 = .ok e ∧
      e.found.strategy = .tokens ∧ leading " a\u2003b" = leading " c" ∧
      trailing " a\u2003b" = trailing " c" ∧
      Replaced 0 (ofString " a\nb; a  b") (e.found.spans.map fun s => (s, trim " c")) once ∧
      e.content.length = once.length + 2 ∧ e.content ≠ once := by
  have h : resolveEdit " a\nb; a  b" " a\u2003b" " c" 2 =
      .ok ⟨"  c;  c", ⟨.tokens, [⟨1, 4⟩, ⟨6, 10⟩]⟩⟩ := by
    cbv
  obtain ⟨-, -, -, once, honce, hlength, hsame⟩ :=
    tokens_edit_adds_edges h rfl (by decide) (by decide)
  refine ⟨_, once, h, rfl, by decide, by decide, honce, ?_, fun heq => ?_⟩
  · have hedge : ((ofString " c").length : Int) - (trim " c").length = 1 := by decide
    rw [hedge] at hlength
    exact_mod_cast hlength
  · exact absurd (hsame.mp heq).1 (by decide)

end Amend
