/-
Amend.Proofs.Tearing — a line that was torn off hides the object written after it.

A value that is put behind other symbols is not read. If these end outside a
string, the object is read as a value of its own and nothing is left to close
what they opened; if they end inside one, the quote before the first key
closes it, and the key stands where a comma, a colon or a bracket should. In
either case some of the object is still to be read (`Remains`) after every
part of the reader: every part keeps it, so the reader never comes to its end
(`read_append_ne_ok`).

  §1 More room and more fuel.
  §2 What is still to be read.
  §3 Words, numbers and strings.
  §4 Values.
-/
import Amend.Proofs.Rankings

namespace Amend.Json

/-! ## §1 More room and more fuel -/

/-- What is read with some room and fuel is read alike with more. -/
theorem takeValue_mono (fuel : Nat) :
    (∀ room t p, takeValue room fuel t = .ok p → ∀ room' fuel', room ≤ room' → fuel ≤ fuel' →
        takeValue room' fuel' t = .ok p) ∧
      (∀ room acc t p, takeItems room fuel acc t = .ok p → ∀ room' fuel', room ≤ room' →
        fuel ≤ fuel' → takeItems room' fuel' acc t = .ok p) ∧
      (∀ room acc t p, takeEntries room fuel acc t = .ok p → ∀ room' fuel', room ≤ room' →
        fuel ≤ fuel' → takeEntries room' fuel' acc t = .ok p) := by
  induction fuel with
  | zero => exact ⟨fun _ _ _ => nofun, fun _ _ _ _ => nofun, fun _ _ _ _ => nofun⟩
  | succ fuel ih =>
    obtain ⟨hvalue, hitems, hentries⟩ := ih
    refine ⟨fun room t p h room' fuel' hroom hfuel => ?_,
      fun room acc t p h room' fuel' hroom hfuel => ?_,
      fun room acc t p h room' fuel' hroom hfuel => ?_⟩
    all_goals obtain ⟨fuel', rfl⟩ := Nat.exists_eq_succ_of_ne_zero (Nat.ne_zero_of_lt hfuel)
    all_goals have hfuel := Nat.le_of_succ_le_succ hfuel
    · rw [takeValue.eq_def] at h ⊢
      dsimp only at h ⊢
      split at h
      · cases h
      · exact h
      · split at h
        · cases h
        · rw [if_neg (by omega)]
          split at h
          · exact h
          · exact hitems _ _ _ _ h _ _ (by omega) hfuel
      · split at h
        · cases h
        · rw [if_neg (by omega)]
          split at h
          · exact h
          · exact hentries _ _ _ _ h _ _ (by omega) hfuel
      · exact h
    · rw [takeItems.eq_def] at h ⊢
      obtain ⟨⟨u, q⟩, hu, h⟩ := Except.exists_of_bind h
      dsimp only at h ⊢
      rw [hvalue _ _ _ hu _ _ hroom hfuel]
      simp only [bind, Except.bind]
      split at h
      · exact hitems _ _ _ _ h _ _ hroom hfuel
      · exact h
      · cases h
    · rw [takeEntries.eq_def] at h ⊢
      dsimp only at h ⊢
      split at h
      · split at h
        · cases h
        · split at h
          · obtain ⟨⟨u, q⟩, hu, h⟩ := Except.exists_of_bind h
            dsimp only at h ⊢
            rw [hvalue _ _ _ hu _ _ hroom hfuel]
            simp only [bind, Except.bind]
            split at h
            · exact hentries _ _ _ _ h _ _ hroom hfuel
            · exact h
            · cases h
          · cases h
      · cases h

/-! ## §2 What is still to be read -/

/-- The text of an object whose first key starts with a letter. -/
def objectText (z : Text) : Text := .char '\x7b' :: .char '"' :: .char 't' :: z

/-- The object is still to be read, with or without something before it. -/
def Behind (z r : Text) : Prop := ∃ y, r = y ++ objectText z

/-- Of the object everything is still to be read, or all from its first key on. -/
def Remains (z r : Text) : Prop := Behind z r ∨ r = .char 't' :: z

variable {z t r : Text}

theorem Behind.cons_cases {s : Symbol} (h : Behind z (s :: r)) :
    Behind z r ∨ s :: r = objectText z := by
  obtain ⟨y, hy⟩ := h
  cases y with
  | nil => exact .inr hy
  | cons s' y => exact .inl ⟨y, (List.cons.inj hy).2⟩

/-- What is no brace stands before the object. -/
theorem Behind.of_cons {s : Symbol} (h : Behind z (s :: r)) (hs : s ≠ .char '\x7b') : Behind z r :=
  h.cons_cases.resolve_right fun heq => hs (List.cons.inj heq).1

theorem Behind.of_append {a : Text} (h : Behind z (a ++ r)) (ha : Symbol.char '\x7b' ∉ a) :
    Behind z r := by
  induction a with
  | nil => exact h
  | cons s a ih =>
    rw [List.mem_cons, not_or] at ha
    exact ih (h.of_cons (Ne.symm ha.1)) ha.2

theorem Behind.ne_nil (h : Behind z r) : r ≠ [] := by
  obtain ⟨y, rfl⟩ := h
  exact List.append_ne_nil_of_right_ne_nil y (List.cons_ne_nil _ _)

theorem skip_append (y z : Text) : skip (y ++ objectText z) = skip y ++ objectText z := by
  rw [skip, List.dropWhile_append, ← skip]
  split
  · rename_i hblank
    rw [List.isEmpty_iff.mp hblank]
    rfl
  · rfl

theorem Behind.skip (h : Behind z r) : Behind z (skip r) := by
  obtain ⟨y, rfl⟩ := h
  exact ⟨Json.skip y, skip_append y z⟩

theorem Remains.skip (h : Remains z r) : Remains z (skip r) := by
  obtain h | rfl := h
  · exact .inl h.skip
  · exact .inr rfl

theorem Remains.ne_nil (h : Remains z r) : r ≠ [] := by
  obtain h | rfl := h
  · exact h.ne_nil
  · exact List.cons_ne_nil _ _

/-- What is no brace and no letter stands before the object. -/
theorem Remains.of_cons {c : Char} (h : Remains z (.char c :: r)) (hbrace : c ≠ '\x7b')
    (hletter : c ≠ 't') : Behind z r := by
  obtain h | h := h
  · exact h.of_cons fun hc => hbrace (Symbol.char.inj hc)
  · exact absurd (Symbol.char.inj (List.cons.inj h).1) hletter

/-! ## §3 Words, numbers and strings -/

theorem Behind.takeWord {v : Value} (h : Behind z t) (ht : takeWord t = .ok (v, r)) : Behind z r := by
  unfold Json.takeWord at ht
  dsimp only at ht
  split at ht
  · rename_i w u hfind
    cases ht
    have hbrace : Symbol.char '\x7b' ∉ Text.ofString w := by
      have hwords : ∀ w ∈ ["null", "true", "false", "NaN", "Infinity", "-Infinity"],
          Symbol.char '\x7b' ∉ Text.ofString w := by decide
      exact hwords w (List.mem_map_of_mem (f := Prod.fst) (List.mem_of_find?_eq_some hfind))
    have hprefix := List.find?_some hfind
    obtain ⟨b, rfl⟩ := List.isPrefixOf_iff_prefix.mp hprefix
    have hlength : w.length = (Text.ofString w).length := by
      rw [Text.ofString, List.length_map, String.length_toList]
    rw [hlength, List.drop_left]
    exact h.of_append hbrace
  · cases ht

theorem digit?_brace : digit? (.char '\x7b') = none := rfl

theorem Behind.takeDigits (h : Behind z t) : Behind z (takeDigits t).2 := by
  induction t with
  | nil => exact h
  | cons s t ih =>
    rw [Json.takeDigits]
    split
    · rename_i d hd
      exact ih (h.of_cons fun hs => by rw [hs, digit?_brace] at hd; cases hd)
    · exact h

theorem Behind.takeExponent {e : Int} (h : Behind z t) (ht : takeExponent t = some (e, r)) :
    Behind z r := by
  revert ht
  fun_cases Json.takeExponent t <;> intro ht <;> cases ht
  rename_i s t he negative u hsign ds _ _ hdigits
  have hrest : Behind z t := h.of_cons (by rintro rfl; cases he)
  have hunsigned : Behind z u := by
    split at hsign
    · cases hsign
      exact hrest.of_cons (by decide)
    · cases hsign
      exact hrest.of_cons (by decide)
    · cases hsign
      exact hrest
  have hbehind := hunsigned.takeDigits
  rwa [hdigits] at hbehind

theorem behind_fraction {p : List Nat × Text × Bool} (hp : (match t with
      | .char '.' :: q =>
        match takeDigits q with
        | ([], _) => ([], t, false)
        | (ds, q) => (ds, q, true)
      | _ => ([], t, false)) = p) (h : Behind z t) : Behind z p.2.1 := by
  subst hp
  split
  · have hdigits := (h.of_cons (by decide)).takeDigits
    split
    · exact h
    · rename_i hq
      rwa [hq] at hdigits
  · exact h

theorem behind_unsigned {p : Bool × Text} (hp : (match t with
      | .char '-' :: r => (true, r)
      | r => (false, r)) = p) (h : Behind z t) : Behind z p.2 := by
  subst hp
  split
  · exact h.of_cons (by decide)
  · exact h

theorem Behind.finish {negative : Bool} {whole : List Nat} {v : Value} (h : Behind z t)
    (ht : takeNumber.finish negative whole t = .ok (v, r)) : Behind z r := by
  revert ht
  fun_cases takeNumber.finish negative whole t <;> intro ht <;> cases ht
  · rename_i hp _ hexponent
    exact (behind_fraction hp h).takeExponent hexponent
  · rename_i hp
    exact behind_fraction hp h
  · rename_i hp _
    exact behind_fraction hp h

theorem Behind.takeNumber {v : Value} (h : Behind z t) (ht : takeNumber t = .ok (v, r)) :
    Behind z r := by
  revert ht
  fun_cases Json.takeNumber t with
  | case1 => exact fun ht => nomatch ht
  | case2 negative u hp _ _ _ hzero =>
    -- what has a digit in front does not start with the object
    refine Behind.finish ?_
    cases u with
    | nil => cases hzero
    | cons s u =>
      refine (behind_unsigned hp h).of_cons ?_
      rintro rfl
      cases hzero
  | case3 negative u hp whole r _ _ hwhole =>
    have hdigits := (behind_unsigned hp h).takeDigits
    rw [hwhole] at hdigits
    exact hdigits.finish

theorem Behind.takeBody {body : Text} (h : Behind z t) (ht : takeBody t = some (body, r)) :
    Remains z r := by
  have hquote {body : Text} (ht : Json.takeBody (.char '"' :: .char 't' :: z) = some (body, r)) :
      Remains z r := by
    cases ht
    exact .inr rfl
  revert body
  fun_induction Json.takeBody t with
  | case1 => exact fun ht => nomatch ht
  | case2 r =>
    intro body ht
    cases ht
    exact .inl (h.of_cons (by decide))
  | case3 s t ih =>
    intro body ht
    obtain ⟨p, hp, hpr⟩ := Option.map_eq_some_iff.mp ht
    cases hpr
    obtain h | h := (h.of_cons (by decide)).cons_cases
    · exact ih h hp
    · cases h
      exact hquote hp
  | case4 s t hq hs hcode => exact fun ht => nomatch ht
  | case5 s t hq hs hcode ih =>
    intro body ht
    obtain ⟨p, hp, hpr⟩ := Option.map_eq_some_iff.mp ht
    cases hpr
    obtain h | h := h.cons_cases
    · exact ih h hp
    · cases h
      exact hquote hp

theorem Behind.takeString {s : Text} (h : Behind z t) (ht : takeString t = some (s, r)) :
    Remains z r := by
  obtain ⟨p, hp, ht⟩ := Option.bind_eq_some_iff.mp ht
  obtain ⟨u, -, ht⟩ := Option.bind_eq_some_iff.mp ht
  cases ht
  exact h.takeBody hp

/-! ## §4 Values -/

theorem exists_of_read {v : Value} (h : read t = .ok v) :
    ∃ r, takeValue depthLimit (2 * t.length + 1) (skip t) = .ok (v, r) ∧ skip r = [] := by
  unfold read at h
  split at h
  · cases h
  · obtain ⟨⟨u, r⟩, hu, h⟩ := Except.exists_of_bind h
    dsimp only at h
    split at h
    · rename_i hend
      cases h
      exact ⟨r, hu, List.isEmpty_iff.mp hend⟩
    · cases h

/-- Of the object itself nothing is left by the reader, if it can be read. -/
def Whole (z : Text) : Prop := ∀ room fuel v r, room ≤ depthLimit →
  takeValue room fuel (objectText z) = .ok (v, r) → skip r = []

theorem whole_of_read {v : Value} (h : read (objectText z) = .ok v) : Whole z := by
  intro room fuel u r hroom ht
  obtain ⟨q, hq, hend⟩ := exists_of_read h
  have hmore := (takeValue_mono _).1 _ _ _ ht depthLimit
    (max fuel (2 * (objectText z).length + 1)) hroom (Nat.le_max_left _ _)
  have hmore' := (takeValue_mono _).1 _ _ _ hq depthLimit
    (max fuel (2 * (objectText z).length + 1)) (Nat.le_refl _) (Nat.le_max_right _ _)
  cases hmore.symm.trans hmore'
  exact hend

/-- Every part of the reader leaves some of the object, unless it is the object
that it reads. -/
theorem remains_takeValue (hwhole : Whole z) (fuel : Nat) :
    (∀ room t v r, room ≤ depthLimit → Behind z t → takeValue room fuel t = .ok (v, r) →
        (t = objectText z ∧ skip r = []) ∨ Remains z r) ∧
      (∀ room acc t v r, room ≤ depthLimit → Behind z t → takeItems room fuel acc t = .ok (v, r) →
        Remains z r) ∧
      (∀ room acc t v r, room ≤ depthLimit → Behind z t → takeEntries room fuel acc t = .ok (v, r) →
        Remains z r) := by
  induction fuel with
  | zero =>
    exact ⟨fun _ _ _ _ _ _ => nofun, fun _ _ _ _ _ _ _ => nofun, fun _ _ _ _ _ _ _ => nofun⟩
  | succ fuel ih =>
    obtain ⟨hvalue, hitems, hentries⟩ := ih
    -- After a value something else must follow, so it is not the object.
    have hafter {room : Nat} {t : Text} {v : Value} {q : Text} (hroom : room ≤ depthLimit)
        (h : Behind z t) (ht : takeValue room fuel t = .ok (v, q)) {c : Char} {r : Text}
        (hq : skip q = .char c :: r) : Remains z (.char c :: r) := by
      obtain ⟨-, hend⟩ | hremains := hvalue _ _ _ _ hroom h ht
      · rw [hend] at hq
        cases hq
      · exact hq ▸ hremains.skip
    refine ⟨fun room t v r hroom h ht => ?_, fun room acc t v r hroom h ht => ?_,
      fun room acc t v r hroom h ht => ?_⟩
    · by_cases hobject : t = objectText z
      · subst hobject
        exact .inl ⟨rfl, hwhole _ _ _ _ hroom ht⟩
      refine .inr ?_
      have hrest {s : Symbol} {q : Text} (hq : t = s :: q) : Behind z q :=
        (hq ▸ h).cons_cases.resolve_right fun heq => hobject (hq.trans heq)
      rw [takeValue.eq_def] at ht
      dsimp only at ht
      split at ht
      · cases ht
      · split at ht
        · rename_i hstring
          cases ht
          exact (hrest rfl).takeString hstring
        · cases ht
      · split at ht
        · cases ht
        · split at ht
          · rename_i q hq
            cases ht
            exact .inl ((hq ▸ (hrest rfl).skip).of_cons (by decide))
          · exact hitems _ _ _ _ _ (by omega) (hrest rfl).skip ht
      · split at ht
        · cases ht
        · split at ht
          · rename_i q hq
            cases ht
            exact .inl ((hq ▸ (hrest rfl).skip).of_cons (by decide))
          · exact hentries _ _ _ _ _ (by omega) (hrest rfl).skip ht
      · split at ht
        · rename_i hword
          cases ht
          exact .inl (h.takeWord hword)
        · split at ht
          · exact .inl (h.takeNumber ht)
          · cases ht
    · rw [takeItems.eq_def] at ht
      obtain ⟨⟨u, q⟩, hu, ht⟩ := Except.exists_of_bind ht
      dsimp only at ht
      split at ht
      · rename_i q' hq
        exact hitems _ _ _ _ _ hroom ((hafter hroom h hu hq).of_cons (by decide) (by decide)).skip ht
      · rename_i q' hq
        cases ht
        exact .inl ((hafter hroom h hu hq).of_cons (by decide) (by decide))
      · cases ht
    · rw [takeEntries.eq_def] at ht
      dsimp only at ht
      split at ht
      · rename_i q
        split at ht
        · cases ht
        · rename_i key q' hkey
          have hkey := ((h.of_cons (by decide)).takeString hkey).skip
          split at ht
          · rename_i q'' hcolon
            obtain ⟨⟨u, p⟩, hu, ht⟩ := Except.exists_of_bind ht
            have hbehind := ((hcolon ▸ hkey).of_cons (by decide) (by decide)).skip
            dsimp only at ht
            split at ht
            · rename_i p' hp
              exact hentries _ _ _ _ _ hroom
                ((hafter hroom hbehind hu hp).of_cons (by decide) (by decide)).skip ht
            · rename_i p' hp
              cases ht
              exact .inl ((hafter hroom hbehind hu hp).of_cons (by decide) (by decide))
            · cases ht
          · cases ht
      · cases ht

/-- An object behind something else is not read with it. -/
theorem read_append_ne_ok {y : Text} {v w : Value} (hobject : read (objectText z) = .ok w)
    (hy : skip y ≠ []) : read (y ++ objectText z) ≠ .ok v := by
  intro h
  obtain ⟨r, hr, hend⟩ := exists_of_read h
  rw [skip_append] at hr
  obtain ⟨hnothing, -⟩ | hremains := (remains_takeValue (whole_of_read hobject) _).1 _ _ _ _
    (Nat.le_refl _) ⟨skip y, rfl⟩ hr
  · exact hy (List.append_left_eq_self.mp hnothing)
  · exact hremains.skip.ne_nil hend

end Amend.Json
