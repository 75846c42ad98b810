/-
Amend.Proofs.Restoring — texts brought to line feeds and back.

To collapse pairs and to write line feeds as an ending are replacements of
literal text like any other (`normalize_eq_replace`, `expand_eq_replace`). A
pair that is replaced leaves a shorter text, so `normalize` leaves alone the
texts without a pair and no others (`normalize_eq_self_iff`). Returns that are
put in are all taken out again; returns that are taken out are put in again
where every line feed had one. What comes of one round trip is not changed by
another (`restore_normalize_again`).

  §1 Endings as replaced text.
  §2 Round trips.
-/
import Amend.Proofs.Returns

namespace Amend.LineEnding

open Text

/-! ## §1 Endings as replaced text -/

theorem literal_crlf_cons (c : Symbol) (t : Text) :
    literal crlf.text (c :: t) =
      if c = Amend.cr ∧ t.head? = some Amend.lf then some 2 else none := by
  cases t with
  | nil => simp [literal, text]
  | cons d t => simp [literal, text, eq_comm (a := c), eq_comm (a := d)]

theorem literal_lf_cons (c : Symbol) (t : Text) :
    literal lf.text (c :: t) = if c = Amend.lf then some 1 else none := by
  simp [literal, text, eq_comm (a := c)]

/-- Bringing a text to line feeds is to replace each pair by a line feed. -/
theorem normalize_eq_replace (t : Text) : normalize t = replace t crlf.text lf.text := by
  rw [replace, replaceAll]
  induction t with
  | nil => rfl
  | cons c t ih =>
    rw [normalize, replaceFrom, literal_crlf_cons]
    by_cases h : c = Amend.cr ∧ t.head? = some Amend.lf
    · obtain ⟨t, rfl⟩ := List.head?_eq_some_iff.mp h.2
      -- no pair starts at the line feed, so it is kept either way
      have hfeed : literal crlf.text (Amend.lf :: t) = none := by
        rw [literal_crlf_cons, if_neg (fun hpair => absurd hpair.1 (by decide))]
      rw [if_pos h, if_pos h, ih, replaceFrom, hfeed]
      rfl
    · rw [if_neg h, if_neg h, ih]

/-- Writing line feeds as an ending is to replace each of them by it. -/
theorem expand_eq_replace (ending t : Text) : expand ending t = replace t lf.text ending := by
  rw [replace, replaceAll]
  induction t with
  | nil => rfl
  | cons c t ih =>
    rw [expand, List.flatMap_cons, ← expand, replaceFrom, literal_lf_cons, ih]
    by_cases h : c = Amend.lf
    · rw [if_pos h, if_pos h]
    · rw [if_neg h, if_neg h]
      rfl

/-- Only a text without a pair is left alone when pairs are collapsed: its
pairs are found as any text is, and each leaves it shorter. -/
theorem normalize_eq_self_iff {t : Text} :
    normalize t = t ↔ ¬ [Amend.cr, Amend.lf] <:+: t := by
  refine ⟨?_, normalize_eq_self⟩
  rintro hsame ⟨before, after, rfl⟩
  have hfinds : Strategy.exact.Finds crlf.text (before ++ crlf.text ++ after)
      ⟨before.length, before.length + crlf.text.length⟩ :=
    Strategy.exact_finds_iff_append.mpr
      ⟨by decide, before, after, List.append_assoc before crlf.text after, rfl⟩
  have hsome : Strategy.exact.spans (before ++ crlf.text ++ after) crlf.text ≠ [] :=
    fun hnil => Strategy.not_finds_of_spans_eq_nil hnil _ hfinds
  have hdiffers : crlf.text ≠ lf.text := by decide
  exact replaceAll_ne_self hdiffers hsome ((normalize_eq_replace _).symm.trans hsame)

-- The last of several returns belongs to the pair; those before it stay and
-- may stand in a pair that was none before.
example : normalize [Amend.cr, Amend.cr, Amend.lf] = [Amend.cr, Amend.lf] := by decide

/-! ## §2 Round trips -/

/-- Returns that are taken out are put in again where every line feed had one. -/
theorem restore_normalize_eq_self_iff (raw : Text) :
    restore (normalize raw) (detect raw) = raw ↔ ¬ [Amend.cr, Amend.lf] <:+: raw ∨
      ∀ pre post, raw = pre ++ Amend.lf :: post → pre.getLast? = some Amend.cr := by
  rw [restore_normalize, unified_eq_self_iff (by decide), Uniform]

/-- The lines of a text that has made the round trip end alike, so it makes
the next one unchanged. -/
theorem restore_normalize_again {raw t : Text} (ht : restore (normalize raw) (detect raw) = t) :
    restore (normalize t) (detect t) = t := by
  cases hending : detect t with
  | lf => rw [restore_lf, normalize_eq_self (detect_eq_lf_iff.mp hending)]
  | crlf =>
    cases hraw : detect raw with
    | lf =>
      have hplain := normalize_eq_self (detect_eq_lf_iff.mp hraw)
      rw [hraw, restore_lf, hplain] at ht
      rw [← ht, hraw] at hending
      cases hending
    | crlf =>
      -- the returns put in are taken out, and put in once more
      rw [hraw, restore] at ht
      rw [restore, ← ht, normalize_expand]

/-- The round trips of line endings. A text brought to line feeds and written
with the ending it had is the text it was if and only if no pair was in it or
a return stood before each of its line feeds. The other way round, line feeds
written as pairs all come back, also those that follow a return. Line feeds
written as they are come back if and only if none of them follows a return. -/
theorem round_trips :
    (∀ raw : Text, restore (normalize raw) (detect raw) = raw ↔ ¬ [Amend.cr, Amend.lf] <:+: raw ∨
      ∀ pre post, raw = pre ++ Amend.lf :: post → pre.getLast? = some Amend.cr) ∧
    (∀ content : Text, normalize (restore content crlf) = content) ∧
    ∀ content : Text, normalize (restore content lf) = content ↔
      ¬ [Amend.cr, Amend.lf] <:+: content := by
  refine ⟨restore_normalize_eq_self_iff, normalize_expand, fun content => ?_⟩
  rw [restore_lf, normalize_eq_self_iff]

end Amend.LineEnding
