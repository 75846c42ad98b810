/-
Amend.Proofs.Windows — what is located, for every hint and window.

The lines around a hint are a part of the text (`slice_linesSpan`), and the
occurrences that begin on one of these lines and end on one of them are those
inside this part (`occursNear_iff`). What is located can therefore be told
without searching: the leftmost occurrence in the lines around the hint, else
the leftmost occurrence anywhere, else the leftmost tolerant match
(`Located`). Nothing else is ever located, whatever the hint and the window
(`locate_tells_leftmost`).

  §1 Lines as a part of a text.
  §2 What is located.
-/
import Amend.Proofs.Hinting

namespace Amend

open Text

/-! ## §1 Lines as a part of a text -/

/-- Where the lines from `first` to `last` of a text stand in it, counted from
one. The line feed of the last of them is left out. -/
def linesSpan (content : Text) (first last : Nat) : Span :=
  ⟨closedLength ((lines content).take (first - 1)), closedLength ((lines content).take last) - 1⟩

/-- What stands there are these lines. -/
theorem slice_linesSpan {content : Text} {first last : Nat} (hfirst : 1 ≤ first)
    (hle : first ≤ last) (hlast : last ≤ (lines content).length) :
    slice content (linesSpan content first last) =
      unlines (((lines content).take last).drop (first - 1)) := by
  have hlt : first - 1 < last := by omega
  have hstart : first - 1 < (lines content).length := by omega
  obtain ⟨before, after, hcontent, hbefore⟩ := append_window content hlt hstart
  have hlength := closedLength_window content hlt hstart
  have hspan : linesSpan content first last = ⟨before.length, before.length +
      (unlines (((lines content).take last).drop (first - 1))).length⟩ := by
    rw [linesSpan, hbefore, ← hlength, Nat.add_sub_cancel]
  have hslice := slice_append before (unlines (((lines content).take last).drop (first - 1))) after
  rwa [← hcontent, ← hspan] at hslice

/-- The text occurs inside the lines around a hint: of the lines from
`hint - window` to `hint + window - 1`, those that there are. -/
def OccursNear (search content : Text) (hint window : Int) (s : Span) : Prop :=
  Strategy.exact.Finds search content s ∧ ∃ first last : Nat,
    (first : Int) = max 1 (hint - window) ∧
    (last : Int) = min ((lines content).length : Int) (hint + window - 1) ∧ first ≤ last ∧
    (linesSpan content first last).start ≤ s.start ∧ s.stop ≤ (linesSpan content first last).stop

/-- An occurrence is inside the lines around a hint if it begins on one of them
and ends on one of them. -/
theorem occursNear_iff {search content : Text} {hint window : Int} {s : Span} :
    OccursNear search content hint window s ↔
      Strategy.exact.Finds search content s ∧ InWindow content hint window s := by
  refine and_congr_right fun hs => ?_
  obtain ⟨hlt, hstop⟩ := hs.lt_and_le
  have hstart : s.start ≤ content.length := Nat.le_trans (Nat.le_of_lt hlt) hstop
  have hmono := lineAt_mono content (Nat.le_of_lt hlt)
  have hpos := one_le_lineAt content s.start
  have hcount := lineAt_le_length_lines content s.stop
  have hfrom (k : Nat) := closedLength_le_iff (k := k) hstart
  have hto (k : Nat) := closedLength_le_iff (k := k) hstop
  rw [InWindow]
  constructor
  · rintro ⟨first, last, hfirst, hlast, hle, hin, hout⟩
    have hbegin := (hfrom (first - 1)).mp hin
    -- some line is closed before `last` ends, so one symbol less is a real bound
    have hsome : 0 < closedLength ((lines content).take last) := by
      have := closedLength_le_iff (k := last) (Nat.zero_le content.length)
      simp only [lineAt, breaks, List.take_zero, List.count_nil] at this
      omega
    have hend := mt (hto last).mpr (by simp only [linesSpan] at hout; omega)
    omega
  · rintro ⟨hbegin, hend⟩
    refine ⟨(max 1 (hint - window)).toNat,
      (min ((lines content).length : Int) (hint + window - 1)).toNat, by omega, by omega, by omega,
      (hfrom _).mpr (by omega), Nat.le_sub_one_of_lt (Nat.lt_of_not_le (mt (hto _).mp ?_))⟩
    omega

/-! ## §2 What is located -/

/-- Of the places with a property, none starts before this one. -/
def Leftmost (P : Span → Prop) (s : Span) : Prop := P s ∧ ∀ t, P t → s.start ≤ t.start

theorem Leftmost.unique {P : Span → Prop} (one : ∀ s t, P s → P t → s.start = t.start → s = t)
    {s t : Span} (hs : Leftmost P s) (ht : Leftmost P t) : s = t :=
  one s t hs.1 ht.1 (Nat.le_antisymm (hs.2 t ht.1) (ht.2 s hs.1))

/-- Where a search text may be located: at its first occurrence in the lines
around the hint, if a line is hinted at and it occurs there; else at its first
occurrence, if it occurs; else at its first tolerant match, if there is one. -/
inductive Located (content search : Text) (hint : Option Int) (window : Int) :
    Option Location → Prop
  | near {h : Int} {s : Span} (hinted : hint = some h) (counted : 1 ≤ h)
      (first : Leftmost (OccursNear search content h window) s) :
      Located content search hint window (some ⟨s, lineAt content s.start, .exact, true⟩)
  | exact {s : Span}
      (not_near : ∀ h, hint = some h → 1 ≤ h → ∀ t, ¬ OccursNear search content h window t)
      (first : Leftmost (Strategy.exact.Finds search content) s) :
      Located content search hint window (some ⟨s, lineAt content s.start, .exact, false⟩)
  | whitespace {s : Span} (not_exact : ∀ t, ¬ Strategy.exact.Finds search content t)
      (first : Leftmost (Strategy.whitespace.Finds search content) s) :
      Located content search hint window (some ⟨s, lineAt content s.start, .whitespace, false⟩)
  | nowhere (not_exact : ∀ t, ¬ Strategy.exact.Finds search content t)
      (not_whitespace : ∀ t, ¬ Strategy.whitespace.Finds search content t) :
      Located content search hint window none

section Locating

variable {content search : Text} {hint : Option Int} {window : Int} {found found' : Option Location}

/-- A search text may be located at one place only. -/
theorem Located.unique (h : Located content search hint window found)
    (h' : Located content search hint window found') : found = found' := by
  cases h with
  | near hinted counted first =>
    cases h' with
    | near hinted' _ first' =>
      obtain rfl := Option.some.inj (hinted.symm.trans hinted')
      rw [first.unique (fun _ _ hs ht => hs.1.unique ht.1) first']
    | exact not_near _ => exact absurd first.1 (not_near _ hinted counted _)
    | whitespace not_exact _ => exact absurd first.1.1 (not_exact _)
    | nowhere not_exact _ => exact absurd first.1.1 (not_exact _)
  | exact not_near first =>
    cases h' with
    | near hinted counted first' => exact absurd first'.1 (not_near _ hinted counted _)
    | exact _ first' => rw [first.unique (fun _ _ hs ht => hs.unique ht) first']
    | whitespace not_exact _ => exact absurd first.1 (not_exact _)
    | nowhere not_exact _ => exact absurd first.1 (not_exact _)
  | whitespace not_exact first =>
    cases h' with
    | near _ _ first' => exact absurd first'.1.1 (not_exact _)
    | exact _ first' => exact absurd first'.1 (not_exact _)
    | whitespace _ first' => rw [first.unique (fun _ _ hs ht => hs.unique ht) first']
    | nowhere _ not_whitespace => exact absurd first.1 (not_whitespace _)
  | nowhere not_exact not_whitespace =>
    cases h' with
    | near _ _ first' => exact absurd first'.1.1 (not_exact _)
    | exact _ first' => exact absurd first'.1 (not_exact _)
    | whitespace _ first' => exact absurd first'.1 (not_whitespace _)
    | nowhere _ _ => rfl

theorem located_locateAnywhere (hne : search ≠ [])
    (hfar : ∀ h, hint = some h → 1 ≤ h → ∀ t, ¬ OccursNear search content h window t) :
    Located content search hint window (locateAnywhere content search) := by
  have hanywhere := foundAnywhere_locateAnywhere content hne
  generalize locateAnywhere content search = found at hanywhere ⊢
  cases hanywhere with
  | exact finds first => exact .exact hfar ⟨finds, first⟩
  | whitespace no_exact finds first => exact .whitespace no_exact ⟨finds, first⟩
  | nowhere no_exact no_whitespace => exact .nowhere no_exact no_whitespace

/-- What is located may be located. -/
theorem located_locate (hne : search ≠ []) :
    Located content search hint window (locate content search hint window) := by
  unfold locate
  rw [if_neg hne]
  split
  · rename_i h
    split
    · rename_i hpos
      have hnear : FoundNear content search h window (findNear content search h window) :=
        foundNear_findNear hne
      cases hfound : findNear content search h window with
      | some offset =>
        rw [hfound] at hnear
        cases hnear with
        | first finds inside first =>
          exact .near rfl hpos ⟨occursNear_iff.mpr ⟨finds, inside⟩, fun t ht =>
            have ⟨htfinds, htinside⟩ := occursNear_iff.mp ht
            first t htfinds htinside⟩
      | none =>
        rw [hfound] at hnear
        cases hnear with
        | nowhere outside =>
          refine located_locateAnywhere hne ?_
          rintro h' heq - t ht
          obtain rfl := Option.some.inj heq
          obtain ⟨htfinds, htinside⟩ := occursNear_iff.mp ht
          exact outside t htfinds htinside
    · rename_i hnonpos
      refine located_locateAnywhere hne ?_
      rintro h' heq hpos
      obtain rfl := Option.some.inj heq
      exact absurd hpos hnonpos
  · exact located_locateAnywhere hne nofun

/-- What is located is, whatever the hint and the window: the first occurrence
in the lines around the hint, if the text occurs there; else its first
occurrence, or else its first tolerant match. So no hint and no window keeps a
text from being located that occurs or is matched somewhere. A place located
lies in the text and holds something, and the line told is the one on which it
starts. -/
theorem locate_tells_leftmost (hne : search ≠ []) :
    (∀ found, locate content search hint window = found ↔
      Located content search hint window found) ∧
    (locate content search hint window = none ↔ ∀ s,
      ¬ Strategy.exact.Finds search content s ∧ ¬ Strategy.whitespace.Finds search content s) ∧
    ∀ place, locate content search hint window = some place →
      place.span.start < place.span.stop ∧ place.span.stop ≤ content.length ∧
      place.line = 1 + breaks (content.take place.span.start) := by
  refine ⟨fun found => ⟨?_, fun h => (located_locate hne).unique h⟩, locate_eq_none_iff, ?_⟩
  · rintro rfl
    exact located_locate hne
  · intro place hplace
    obtain ⟨hfinds, hline⟩ := locate_finds hplace
    exact ⟨hfinds.lt_and_le.1, hfinds.lt_and_le.2, by rw [hline, lineAt, Nat.add_comm]⟩

end Locating

/-- The text stands on the first, the second and the last of four lines. With
the third hinted at and a window of one line, the copies on the first line and
on the last are outside the lines searched. -/
theorem locate_tells_copy_between :
    (ofString "a" ≠ []) ∧
      locate "a\na\nb\na" "a" (some 3) 1 = some ⟨⟨2, 3⟩, 2, .exact, true⟩ ∧
      Leftmost (OccursNear "a" "a\na\nb\na" 3 1) ⟨2, 3⟩ := by
  have hne : ofString "a" ≠ [] := by decide
  have hlocate : locate "a\na\nb\na" "a" (some 3) 1 = some ⟨⟨2, 3⟩, 2, .exact, true⟩ := by
    cbv
  refine ⟨hne, hlocate, ?_⟩
  generalize hfound : some (⟨⟨2, 3⟩, 2, .exact, true⟩ : Location) = found at hlocate
  cases ((locate_tells_leftmost hne).1 found).mp hlocate with
  | near hinted _ first =>
    obtain rfl := Option.some.inj hinted
    obtain ⟨rfl, -⟩ := Location.mk.inj (Option.some.inj hfound)
    exact first
  | _ => simp at hfound

end Amend
