/-
Amend.Proofs.Numerals — which texts are integers, and what integer a number
is cut to.

An integer is written as a sign, digits of any script with single underscores
between them, and white space around (`Numeral`). The reader takes the longest
run of digits that it finds, and as no digit and no underscore is white space
this is all of them, so it reads these texts and no others (`readInt_eq_ok_iff`).
A double is cut toward zero (`truncate?_eq_some_iff`).

  §1 Digits.
  §2 Numerals.
  §3 Doubles.
-/
import Mathlib.Data.List.TakeWhile
import Mathlib.Data.Rat.Floor
import Amend.Proofs.Rankings

namespace Amend

/-! ## §1 Digits -/

namespace Decimal

/-- Digits with single underscores between some of them, and their values. -/
inductive DigitsOf : Text → List Nat → Prop
  | last {s : Symbol} {d : Nat} (digit : s.digit? = some d) : DigitsOf [s] [d]
  | next {s : Symbol} {d : Nat} {t : Text} {ds : List Nat} (digit : s.digit? = some d)
    (rest : DigitsOf t ds) : DigitsOf (s :: t) (d :: ds)
  | apart {s : Symbol} {d : Nat} {t : Text} {ds : List Nat} (digit : s.digit? = some d)
    (rest : DigitsOf t ds) : DigitsOf (s :: .char '_' :: t) (d :: ds)

/-- A run of digits ends before this text. -/
def EndsDigits (r : Text) : Prop := ∀ s, r.head? = some s → s.digit? = none ∧ s ≠ .char '_'

variable {t u r : Text} {ds : List Nat}

theorem digit?_underscore : Symbol.digit? (.char '_') = none := by decide

theorem digitRun?_end (h : EndsDigits r) : digitRun? true r = some ([], r) := by
  cases r with
  | nil => rfl
  | cons s r =>
    obtain ⟨hdigit, hunderscore⟩ := h s rfl
    rw [digitRun?, hdigit]
    simp [Symbol.is, hunderscore]

/-- All digits in front of such a text are read. -/
theorem digitRun?_append (h : DigitsOf u ds) (hr : EndsDigits r) (afterDigit : Bool) :
    digitRun? afterDigit (u ++ r) = some (ds, r) := by
  induction h generalizing afterDigit with
  | last digit =>
    rw [List.singleton_append, digitRun?, digit]
    simp [digitRun?_end hr]
  | next digit _ ih =>
    rw [List.cons_append, digitRun?, digit]
    simp [ih]
  | apart digit _ ih =>
    rw [List.cons_append, List.cons_append, digitRun?, digit]
    simp only [digitRun?, digit?_underscore]
    simp [Symbol.is, ih]

/-- What is read of a text is digits at its start, after an underscore only if
one was expected there. -/
theorem digitsOf_of_digitRun? {afterDigit : Bool} (h : digitRun? afterDigit t = some (ds, r)) :
    (∃ u, t = u ++ r ∧ DigitsOf u ds) ∨
      (afterDigit = true ∧ ds = [] ∧ t = r) ∨
        (afterDigit = true ∧ ∃ u, t = .char '_' :: u ++ r ∧ DigitsOf u ds) := by
  induction t generalizing afterDigit ds with
  | nil =>
    cases afterDigit with
    | false => cases h
    | true =>
      cases h
      exact .inr (.inl ⟨rfl, rfl, rfl⟩)
  | cons s t ih =>
    rw [digitRun?] at h
    split at h
    · rename_i d hdigit
      obtain ⟨⟨ds', r'⟩, hrun, heq⟩ := Option.map_eq_some_iff.mp h
      cases heq
      refine .inl ?_
      obtain ⟨u, rfl, hu⟩ | ⟨-, rfl, rfl⟩ | ⟨-, u, rfl, hu⟩ := ih hrun
      · exact ⟨s :: u, rfl, .next hdigit hu⟩
      · exact ⟨[s], rfl, .last hdigit⟩
      · exact ⟨s :: .char '_' :: u, rfl, .apart hdigit hu⟩
    · cases afterDigit with
      | false => cases h
      | true =>
        simp only [Bool.not_true, Bool.false_eq_true, if_false] at h
        split at h
        · rename_i hunderscore
          have hs : s = .char '_' := by simpa [Symbol.is] using hunderscore
          obtain ⟨u, rfl, hu⟩ | ⟨hfalse, -⟩ | ⟨hfalse, -⟩ := ih h
          · exact .inr (.inr ⟨rfl, u, by rw [hs]; rfl, hu⟩)
          · cases hfalse
          · cases hfalse
        · cases h
          exact .inr (.inl ⟨rfl, rfl, rfl⟩)

theorem DigitsOf.exists_digit (h : DigitsOf u ds) : ∃ s v d, u = s :: v ∧ s.digit? = some d := by
  cases h with
  | last digit => exact ⟨_, _, _, rfl, digit⟩
  | next digit _ => exact ⟨_, _, _, rfl, digit⟩
  | apart digit _ => exact ⟨_, _, _, rfl, digit⟩

/-! ## §2 Numerals -/

/-- Digits with a sign or without one, and the integer they stand for. -/
inductive Signed : Text → List Nat → Int → Prop
  | plain {u : Text} {ds : List Nat} (digits : DigitsOf u ds) : Signed u ds (ofDigits 0 ds)
  | plus {u : Text} {ds : List Nat} (digits : DigitsOf u ds) :
    Signed (.char '+' :: u) ds (ofDigits 0 ds)
  | minus {u : Text} {ds : List Nat} (digits : DigitsOf u ds) :
    Signed (.char '-' :: u) ds (-(ofDigits 0 ds : Int))

/-- The text is an integer: digits, not too many, with a sign or without one,
and white space around. -/
def Numeral (t : Text) (i : Int) : Prop :=
  ∃ before body after ds, t = before ++ body ++ after ∧ Signed body ds i ∧
    ds.length ≤ digitLimit ∧ (∀ s ∈ before, isPadding s = true) ∧ ∀ s ∈ after, isPadding s = true

variable {s : Symbol}

/-- No digit is white space. -/
theorem isPadding_of_digit {d : Nat} (h : s.digit? = some d) : isPadding s = false := by
  cases s with
  | stray low => rfl
  | char c =>
    have hapart : ∀ q ∈ whiteSpaceRanges, (q.2 < 0x30 ∨ 0x39 < q.1) ∧
        ∀ z ∈ digitZeros, q.2 < z ∨ z + 9 < q.1 := by decide
    have hspace : (Symbol.char c).isSpace = false := by
      refine List.any_eq_false.mpr fun q hq => ?_
      obtain ⟨hascii, hother⟩ := hapart q hq
      rw [Bool.and_eq_true, decide_eq_true_iff, decide_eq_true_iff]
      simp only [Symbol.digit?] at h
      split at h
      · split at h
        · omega
        · cases h
      · obtain ⟨z, hz, -⟩ := Option.map_eq_some_iff.mp h
        have hrange := List.find?_some hz
        have hzero := hother z (List.mem_of_find?_eq_some hz)
        simp only [Bool.and_eq_true, decide_eq_true_iff] at hrange
        omega
    rw [isPadding, hspace, Bool.false_and]

theorem endsDigits_of_padding (h : ∀ s ∈ r, isPadding s = true) : EndsDigits r := by
  intro s hs
  have hpadding := h s (List.mem_of_head? hs)
  constructor
  · cases hdigit : s.digit? with
    | none => rfl
    | some d =>
      rw [isPadding_of_digit hdigit] at hpadding
      cases hpadding
  · rintro rfl
    exact absurd hpadding (by decide)

theorem Signed.exists_cons {body : Text} {i : Int} (h : Signed body ds i) :
    ∃ s v, body = s :: v ∧ isPadding s = false := by
  cases h with
  | plain digits =>
    obtain ⟨s, v, d, rfl, hd⟩ := digits.exists_digit
    exact ⟨s, v, rfl, isPadding_of_digit hd⟩
  | plus digits => exact ⟨_, _, rfl, by decide⟩
  | minus digits => exact ⟨_, _, rfl, by decide⟩

theorem readDigits_eq_ok_iff {n : Nat} : readDigits t = .ok n ↔ ∃ u after ds, t = u ++ after ∧
    DigitsOf u ds ∧ ds.length ≤ digitLimit ∧ (∀ s ∈ after, isPadding s = true) ∧
      n = ofDigits 0 ds := by
  constructor
  · intro h
    unfold readDigits at h
    split at h
    · cases h
    · rename_i ds r hrun
      split at h
      · cases h
      · rename_i hlength
        split at h
        · rename_i hpadding
          cases h
          obtain ⟨u, hu, hdigits⟩ | ⟨hfalse, -⟩ | ⟨hfalse, -⟩ := digitsOf_of_digitRun? hrun
          · exact ⟨u, r, ds, hu, hdigits, Nat.le_of_not_lt hlength, List.all_eq_true.mp hpadding, rfl⟩
          · cases hfalse
          · cases hfalse
        · cases h
  · rintro ⟨u, after, ds, rfl, hdigits, hlength, hpadding, rfl⟩
    rw [readDigits, digitRun?_append hdigits (endsDigits_of_padding hpadding)]
    dsimp only
    rw [if_neg (Nat.not_lt.mpr hlength), if_pos (List.all_eq_true.mpr hpadding)]

/-- How integers are read, by what they begin with. -/
theorem readInt_eq (t : Text) : readInt t =
    match t.dropWhile isPadding with
    | .char '-' :: u => (readDigits u).map fun n : Nat => -(n : Int)
    | .char '+' :: u => (readDigits u).map Int.ofNat
    | u => (readDigits u).map Int.ofNat := by
  have hminus : (fun u : Text => (do let n ← readDigits u; pure (n : Int) : Except IntegerError Int).map
      fun n => -n) = fun u => (readDigits u).map fun n : Nat => -(n : Int) := by
    funext u
    cases readDigits u <;> rfl
  unfold readInt
  rewrite [hminus]
  rfl

/-- The integers that are read are the numerals. -/
theorem readInt_eq_ok_iff {i : Int} : readInt t = .ok i ↔ Numeral t i := by
  rw [readInt_eq]
  constructor
  · intro h
    have hpadding : ∀ s ∈ t.takeWhile isPadding, isPadding s = true := fun s => List.mem_takeWhile_imp
    have hsplit : t = t.takeWhile isPadding ++ t.dropWhile isPadding :=
      List.takeWhile_append_dropWhile.symm
    have hbody {body after : Text} {ds : List Nat} (hsigned : Signed body ds i)
        (hrest : t.dropWhile isPadding = body ++ after) (hlength : ds.length ≤ digitLimit)
        (hafter : ∀ s ∈ after, isPadding s = true) : Numeral t i :=
      ⟨_, body, after, ds, by rw [List.append_assoc, ← hrest, ← hsplit], hsigned, hlength, hpadding,
        hafter⟩
    split at h
    · rename_i u hrest
      obtain ⟨n, hn, rfl⟩ := Except.exists_of_map h
      obtain ⟨v, after, ds, rfl, hdigits, hlength, hafter, rfl⟩ := readDigits_eq_ok_iff.mp hn
      exact hbody (.minus hdigits) hrest hlength hafter
    · rename_i u hrest
      obtain ⟨n, hn, rfl⟩ := Except.exists_of_map h
      obtain ⟨v, after, ds, rfl, hdigits, hlength, hafter, rfl⟩ := readDigits_eq_ok_iff.mp hn
      exact hbody (.plus hdigits) hrest hlength hafter
    · obtain ⟨n, hn, rfl⟩ := Except.exists_of_map h
      obtain ⟨v, after, ds, hrest, hdigits, hlength, hafter, rfl⟩ := readDigits_eq_ok_iff.mp hn
      exact hbody (.plain hdigits) hrest hlength hafter
  · rintro ⟨before, body, after, ds, rfl, hsigned, hlength, hbefore, hafter⟩
    obtain ⟨s, v, hbody, hs⟩ := hsigned.exists_cons
    have hrest : (before ++ body ++ after).dropWhile isPadding = body ++ after := by
      rw [List.append_assoc, List.dropWhile_append_of_pos hbefore, hbody, List.cons_append,
        List.dropWhile_cons_of_neg (by simp [hs])]
    have hread {u : Text} (hdigits : DigitsOf u ds) : readDigits (u ++ after) = .ok (ofDigits 0 ds) :=
      readDigits_eq_ok_iff.mpr ⟨u, after, ds, rfl, hdigits, hlength, hafter, rfl⟩
    rw [hrest]
    cases hsigned with
    | plain digits =>
      -- a digit is no sign
      obtain ⟨s, v, d, rfl, hd⟩ := digits.exists_digit
      split
      · rename_i heq
        obtain ⟨rfl, -⟩ := List.cons.inj heq
        cases hd
      · rename_i heq
        obtain ⟨rfl, -⟩ := List.cons.inj heq
        cases hd
      · rw [hread digits]
        rfl
    | plus digits => exact congrArg (Except.map Int.ofNat) (hread digits)
    | minus digits => exact congrArg (Except.map fun n : Nat => -(n : Int)) (hread digits)

end Decimal

/-! ## §3 Doubles -/

namespace Binary64

/-- A number without its fraction. -/
def cut (q : ℚ) : Int := if 0 ≤ q then ⌊q⌋ else ⌈q⌉

theorem cut_div (a : Int) {b : Nat} (hb : 0 < b) : cut ((a : ℚ) / b) = a.tdiv b := by
  have hb' : (0 : ℚ) < b := Nat.cast_pos.mpr hb
  unfold cut
  split
  · rename_i hq
    have ha : 0 ≤ a := by
      rwa [le_div_iff₀ hb', zero_mul, Int.cast_nonneg_iff] at hq
    rw [Rat.floor_intCast_div_natCast, Int.tdiv_eq_ediv_of_nonneg ha]
  · rename_i hq
    have ha : 0 ≤ -a := by
      rw [le_div_iff₀ hb', zero_mul, Int.cast_nonneg_iff] at hq
      omega
    rw [Rat.ceil_intCast_div_natCast, ← Int.tdiv_eq_ediv_of_nonneg ha, Int.neg_tdiv, neg_neg]

/-- A double is cut toward zero; only numbers are. -/
theorem truncate?_eq_some_iff {x : Binary64} {i : Int} :
    x.truncate? = some i ↔ ∃ q, x.standing = .number q ∧ i = cut q := by
  cases x with
  | finite negative m e =>
    obtain ⟨a, b, hb, hfraction, hstanding⟩ := Value.exists_fraction negative m e
    have htruncate : (Binary64.finite negative m e).truncate? = some (a.tdiv b) := by
      rw [truncate?, hfraction]
      rfl
    rw [htruncate, hstanding, ← cut_div a hb, Option.some_inj]
    constructor
    · rintro rfl
      exact ⟨_, rfl, rfl⟩
    · rintro ⟨q, hq, rfl⟩
      rw [Standing.number.inj hq]
  | infinite negative => simp [truncate?, fraction?, standing]
  | nan => simp [truncate?, fraction?, standing]

end Binary64

end Amend
