/-
Amend.Text.Blank — white space and the runs it cuts a text into.

White space is every Unicode character with the property White_Space
together with the four separators U+001C to U+001F. A text is cut into
maximal runs, alternately blank and solid; joined again the runs give the
text back (`flatten_runs`), and no run is empty (`text_ne_nil_of_mem_runs`).
-/
import Amend.Text.Symbol

namespace Amend

/-- The ranges of white space, ends included. -/
def whiteSpaceRanges : List (Nat × Nat) :=
  [(0x09, 0x0D), (0x1C, 0x20), (0x85, 0x85), (0xA0, 0xA0), (0x1680, 0x1680),
   (0x2000, 0x200A), (0x2028, 0x2029), (0x202F, 0x202F), (0x205F, 0x205F), (0x3000, 0x3000)]

namespace Symbol

/-- White space; a surrogate never is. -/
def isSpace : Symbol → Bool
  | char c => whiteSpaceRanges.any fun r => r.1 ≤ c.toNat && c.toNat ≤ r.2
  | stray _ => false

/-- The white space that stays on its line when an edit is matched: the
tab and the space. -/
def isBlank (s : Symbol) : Bool := s.is '\t' || s.is ' '

end Symbol

namespace Text

/-- The text without the white space at its start. -/
def trimStart (t : Text) : Text := t.dropWhile Symbol.isSpace

/-- The text without the white space at its end. -/
def trimEnd (t : Text) : Text := (t.reverse.dropWhile Symbol.isSpace).reverse

/-- The text without the white space at its two ends. -/
def trim (t : Text) : Text := trimEnd (trimStart t)

/-- A maximal run of symbols that are all white space, or all not. -/
structure Run where
  blank : Bool
  text : Text
  deriving DecidableEq, Repr

/-- The maximal runs of a text, in order. -/
def runs : Text → List Run
  | [] => []
  | c :: t =>
    match runs t with
    | r :: rs =>
      if r.blank = c.isSpace then ⟨r.blank, c :: r.text⟩ :: rs
      else ⟨c.isSpace, [c]⟩ :: r :: rs
    | [] => [⟨c.isSpace, [c]⟩]

/-- The solid runs of a text: its words. -/
def words (t : Text) : List Text := ((runs t).filter fun r => !r.blank).map Run.text

/-- Cutting into runs loses nothing. -/
theorem flatten_runs (t : Text) : ((runs t).map Run.text).flatten = t := by
  induction t with
  | nil => rfl
  | cons c t ih =>
    unfold runs
    split
    · rename_i r rs h
      rw [h] at ih
      split <;> simp_all
    · rename_i h
      rw [h] at ih
      simp_all

/-- No run is empty. -/
theorem text_ne_nil_of_mem_runs {t : Text} {r : Run} (h : r ∈ runs t) : r.text ≠ [] := by
  induction t generalizing r with
  | nil => simp [runs] at h
  | cons c t ih =>
    unfold runs at h
    split at h
    · rename_i q qs hq
      split at h
      · rcases List.mem_cons.1 h with rfl | h
        · simp
        · exact ih (by rw [hq]; exact List.mem_cons_of_mem _ h)
      · rcases List.mem_cons.1 h with rfl | h
        · simp
        · exact ih (by rw [hq]; exact h)
    · rcases List.mem_singleton.1 h with rfl
      simp

end Text

end Amend
