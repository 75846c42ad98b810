/-
Amend.Proofs.Rankings — how often each of some values occurs.

Two values of the kinds that JSON has and that may be keys are the same if
they stand for the same thing: equal numbers for one number, whatever their
kinds (`same_iff`). So likeness is an equivalence on them, and tallying lists
each of them once, as the first one like it, with the number of those like it
(`tally_values`).

  §1 What values stand for.
  §2 Values read from JSON.
  §3 Tallies.
-/
import Mathlib.Algebra.Order.Field.Rat
import Mathlib.Data.List.Induction
import Mathlib.Tactic.FieldSimp
import Amend.Metric

namespace Amend

/-! ## §1 What values stand for -/

/-- What a value stands for that JSON has and that may be a key. -/
inductive Standing where
  | null
  | number (q : ℚ)
  | infinite (negative : Bool)
  | nan
  | text (t : Text)
  deriving DecidableEq

namespace Binary64

/-- What a double stands for. -/
def standing (x : Binary64) : Standing :=
  match x with
  | finite .. => .number ((x.fraction?.map fun f => (f.1 : ℚ) / f.2).getD 0)
  | infinite negative => .infinite negative
  | nan => .nan

end Binary64

namespace Value

/-- What a number stands for. -/
def numberStanding : Int ⊕ Binary64 → Standing
  | .inl i => .number i
  | .inr x => x.standing

/-- What a value stands for, if JSON has it and it may be a key. -/
def standing? : Value → Option Standing
  | null => some .null
  | text t => some (.text t)
  | v => v.number?.map numberStanding

theorem exists_fraction (negative : Bool) (m : Nat) (e : Int) :
    ∃ (a : Int) (b : Nat), 0 < b ∧ (Binary64.finite negative m e).fraction? = some (a, b) ∧
      (Binary64.finite negative m e).standing = .number (a / b) := by
  have hpos : 0 < (Binary64.ratio m e).2 := by
    unfold Binary64.ratio Binary64.scaled
    split
    · exact Nat.one_pos
    · exact Nat.mul_pos Nat.one_pos (Nat.pow_pos (by decide))
  exact ⟨_, _, hpos, rfl, rfl⟩

/-- Numbers are the same if they stand for the same number. -/
theorem sameNumber_iff (a b : Int ⊕ Binary64) :
    sameNumber a b = true ↔ numberStanding a = numberStanding b := by
  -- Fractions are compared crosswise, an integer being one over one.
  have hfraction {a c : Int} {b d : Nat} (hb : 0 < b) (hd : 0 < d) :
      a * d = c * b ↔ (a : ℚ) / b = c / d := by
    have hb' : (b : ℚ) ≠ 0 := Nat.cast_ne_zero.mpr (Nat.ne_of_gt hb)
    have hd' : (d : ℚ) ≠ 0 := Nat.cast_ne_zero.mpr (Nat.ne_of_gt hd)
    rw [div_eq_div_iff hb' hd']
    exact_mod_cast Iff.rfl
  have hwhole {a i : Int} {b : Nat} (hb : 0 < b) : a = i * b ↔ (a : ℚ) / b = i := by
    simpa using hfraction (a := a) (c := i) hb Nat.one_pos
  rcases a with i | x <;> rcases b with j | y
  · simp [sameNumber, compareNumbers, numberStanding]
  · rcases y with ⟨s, m, e⟩ | s | _
    · obtain ⟨a, b, hb, hf, hs⟩ := exists_fraction s m e
      simpa [sameNumber, compareNumbers, Binary64.compareInt?, numberStanding, hf, hs] using
        (hwhole hb).trans eq_comm
    all_goals
      try cases s
      all_goals simp [sameNumber, compareNumbers, Binary64.compareInt?, numberStanding,
        Binary64.standing]
  · rcases x with ⟨s, m, e⟩ | s | _
    · obtain ⟨a, b, hb, hf, hs⟩ := exists_fraction s m e
      simpa [sameNumber, compareNumbers, Binary64.compareInt?, numberStanding, hf, hs] using hwhole hb
    all_goals
      try cases s
      all_goals simp [sameNumber, compareNumbers, Binary64.compareInt?, numberStanding,
        Binary64.standing]
  · rcases x with ⟨s, m, e⟩ | s | _ <;> rcases y with ⟨s', m', e'⟩ | s' | _
    · obtain ⟨a, b, hb, hf, hs⟩ := exists_fraction s m e
      obtain ⟨c, d, hd, hf', hs'⟩ := exists_fraction s' m' e'
      simpa [sameNumber, compareNumbers, Binary64.compare?, numberStanding, hf, hs, hf', hs'] using
        hfraction hb hd
    all_goals
      try cases s
      all_goals try cases s'
      all_goals simp [sameNumber, compareNumbers, Binary64.compare?, numberStanding,
        Binary64.standing]

theorem number?_of_standing? {v : Value} {a : Standing} (h : standing? v = some a) :
    (v = null ∧ a = .null) ∨ (∃ t, v = text t ∧ a = .text t) ∨
      ∃ n, number? v = some n ∧ a = numberStanding n := by
  cases v with
  | null => exact .inl ⟨rfl, (Option.some.inj h).symm⟩
  | text t => exact .inr (.inl ⟨t, rfl, (Option.some.inj h).symm⟩)
  | bool b => exact .inr (.inr ⟨_, rfl, (Option.some.inj h).symm⟩)
  | int i => exact .inr (.inr ⟨_, rfl, (Option.some.inj h).symm⟩)
  | float x => exact .inr (.inr ⟨_, rfl, (Option.some.inj h).symm⟩)
  | _ => cases h

theorem same_of_number? {v : Value} {n : Int ⊕ Binary64} (h : number? v = some n) (w : Value) :
    same v w = match number? w with
      | some m => sameNumber n m
      | none => false := by
  cases v with
  | bool b => cases h; rw [same]; rfl
  | int i => cases h; rw [same]; rfl
  | float x => cases h; rw [same]; rfl
  | _ => cases h

theorem numberStanding_ne (n : Int ⊕ Binary64) :
    numberStanding n ≠ .null ∧ ∀ t, numberStanding n ≠ .text t := by
  rcases n with i | x
  · exact ⟨nofun, nofun⟩
  · cases x <;> exact ⟨nofun, nofun⟩

/-- Values are the same if they stand for the same thing. -/
theorem same_iff {v w : Value} {a b : Standing} (hv : standing? v = some a)
    (hw : standing? w = some b) : same v w = true ↔ a = b := by
  obtain ⟨rfl, rfl⟩ | ⟨t, rfl, rfl⟩ | ⟨n, hn, rfl⟩ := number?_of_standing? hv <;>
    obtain ⟨rfl, rfl⟩ | ⟨u, rfl, rfl⟩ | ⟨m, hm, rfl⟩ := number?_of_standing? hw
  · simp [same]
  · simp [same]
  · have hne := (numberStanding_ne m).1.symm
    cases w <;> simp_all [same, number?]
  · simp [same]
  · simp [same]
  · have hne := ((numberStanding_ne m).2 t).symm
    cases w <;> simp_all [same, number?]
  · simp [same_of_number? hn, number?, numberStanding_ne n]
  · simp [same_of_number? hn, number?, numberStanding_ne n]
  · simp [same_of_number? hn, hm, sameNumber_iff]

end Value

/-! ## §2 Values read from JSON -/

theorem Except.exists_of_bind {ε α β : Type} {x : Except ε α} {f : α → Except ε β} {b : β}
    (h : x >>= f = .ok b) : ∃ a, x = .ok a ∧ f a = .ok b := by
  cases x with
  | error e => cases h
  | ok a => exact ⟨a, rfl, h⟩

theorem Except.exists_of_map {ε α β : Type} {x : Except ε α} {f : α → β} {b : β}
    (h : x.map f = .ok b) : ∃ a, x = .ok a ∧ f a = b := by
  cases x with
  | error e => cases h
  | ok a => exact ⟨a, rfl, Except.ok.inj h⟩

theorem Except.toOption_eq_some_iff {ε α : Type} {x : Except ε α} {a : α} :
    x.toOption = some a ↔ x = .ok a := by
  cases x with
  | error e => exact ⟨nofun, nofun⟩
  | ok b => exact ⟨fun h => congrArg Except.ok (Option.some.inj h), fun h => by rw [h]; rfl⟩

namespace Json

/-- A value of a kind that JSON has, as are the values of its entries. -/
inductive Kind : Value → Prop
  | null : Kind .null
  | bool (b : Bool) : Kind (.bool b)
  | int (i : Int) : Kind (.int i)
  | float (x : Binary64) : Kind (.float x)
  | text (t : Text) : Kind (.text t)
  | list (xs : List Value) : Kind (.list xs)
  | mapping {es : List (Value × Value)} (h : ∀ e ∈ es, Kind e.2) : Kind (.mapping es)

theorem kind_takeNumber {t : Text} {v : Value} {r : Text} (h : takeNumber t = .ok (v, r)) :
    Kind v := by
  have hfinish {negative : Bool} {whole : List Nat} {q : Text}
      (h : takeNumber.finish negative whole q = .ok (v, r)) : Kind v := by
    revert h
    fun_cases takeNumber.finish negative whole q <;> intro h <;> cases h
    all_goals first | exact .float _ | exact .int _
  unfold takeNumber at h
  dsimp only at h
  split at h
  · cases h
  · exact hfinish h
  · exact hfinish h

theorem kind_takeWord {t : Text} {v : Value} {r : Text} (h : takeWord t = .ok (v, r)) : Kind v := by
  unfold takeWord at h
  dsimp only at h
  split at h
  · rename_i w u hfind
    cases h
    have hmem := List.mem_of_find?_eq_some hfind
    simp only [List.mem_cons, List.not_mem_nil, or_false, Prod.mk.injEq] at hmem
    obtain ⟨-, rfl⟩ | ⟨-, rfl⟩ | ⟨-, rfl⟩ | ⟨-, rfl⟩ | ⟨-, rfl⟩ | ⟨-, rfl⟩ := hmem
    · exact .null
    · exact .bool _
    · exact .bool _
    · exact .float _
    · exact .float _
    · exact .float _
  · cases h

theorem kind_putEntry {acc : List (Value × Value)} (hacc : ∀ e ∈ acc, Kind e.2) (key : Text)
    {v : Value} (hv : Kind v) : ∀ e ∈ putEntry acc key v, Kind e.2 := by
  intro e he
  unfold putEntry Value.put at he
  split at he
  · obtain ⟨f, hf, rfl⟩ := List.mem_map.mp he
    split
    · exact hv
    · exact hacc f hf
  · obtain he | he := List.mem_append.mp he
    · exact hacc e he
    · rw [List.mem_singleton.mp he]
      exact hv

/-- Whatever is read is of a kind that JSON has. -/
theorem kind_takeValue (fuel : Nat) :
    (∀ room t v r, takeValue room fuel t = .ok (v, r) → Kind v) ∧
      (∀ room acc t v r, takeItems room fuel acc t = .ok (v, r) → Kind v) ∧
      (∀ room acc t v r, (∀ e ∈ acc, Kind e.2) → takeEntries room fuel acc t = .ok (v, r) →
        Kind v) := by
  induction fuel with
  | zero => exact ⟨fun _ _ _ _ => nofun, fun _ _ _ _ _ => nofun, fun _ _ _ _ _ _ => nofun⟩
  | succ fuel ih =>
    obtain ⟨hvalue, hitems, hentries⟩ := ih
    refine ⟨fun room t v r h => ?_, fun room acc t v r h => ?_, fun room acc t v r hacc h => ?_⟩
    · rw [takeValue.eq_def] at h
      dsimp only at h
      split at h
      · cases h
      · split at h
        · cases h
          exact .text _
        · cases h
      · split at h
        · cases h
        · split at h
          · cases h
            exact .list []
          · exact hitems _ _ _ _ _ h
      · split at h
        · cases h
        · split at h
          · cases h
            exact .mapping (List.forall_mem_nil _)
          · exact hentries _ _ _ _ _ (List.forall_mem_nil _) h
      · split at h
        · rename_i a hword
          cases h
          exact kind_takeWord hword
        · split at h
          · exact kind_takeNumber h
          · cases h
    · rw [takeItems.eq_def] at h
      obtain ⟨⟨u, q⟩, -, h⟩ := Except.exists_of_bind h
      dsimp only at h
      split at h
      · exact hitems _ _ _ _ _ h
      · cases h
        exact .list _
      · cases h
    · rw [takeEntries.eq_def] at h
      dsimp only at h
      split at h
      · split at h
        · cases h
        · rename_i key _ _
          split at h
          · obtain ⟨⟨u, q⟩, hu, h⟩ := Except.exists_of_bind h
            have hacc' := kind_putEntry hacc key (hvalue _ _ _ _ hu)
            dsimp only at h
            split at h
            · exact hentries _ _ _ _ _ hacc' h
            · cases h
              exact .mapping hacc'
            · cases h
          · cases h
      · cases h

/-- What a text is read as is of a kind that JSON has. -/
theorem kind_read {t : Text} {v : Value} (h : read t = .ok v) : Kind v := by
  unfold read at h
  split at h
  · cases h
  · obtain ⟨⟨u, r⟩, hu, h⟩ := Except.exists_of_bind h
    dsimp only at h
    split at h
    · cases h
      exact (kind_takeValue _).1 _ _ _ _ hu
    · cases h

theorem Kind.standing? {v : Value} (h : Kind v) (hkey : v.isKey = true) :
    (Value.standing? v).isSome = true := by
  cases h with
  | list xs => cases hkey
  | mapping h => cases hkey
  | _ => rfl

end Json

/-! ## §3 Tallies -/

namespace Metric

open Value

variable {vs : List Value}

/-- Values that stand for something, so that likeness is an equivalence on
them. -/
def Comparable (vs : List Value) : Prop := ∀ v ∈ vs, (standing? v).isSome = true

/-- Of such values, those like one of two that are alike are like the other. -/
theorem Comparable.same_congr (h : Comparable vs) {u v w : Value} (hu : u ∈ vs) (hv : v ∈ vs)
    (hw : w ∈ vs) (huv : same u v = true) : same u w = same v w := by
  obtain ⟨a, ha⟩ := Option.isSome_iff_exists.mp (h u hu)
  obtain ⟨b, hb⟩ := Option.isSome_iff_exists.mp (h v hv)
  obtain ⟨c, hc⟩ := Option.isSome_iff_exists.mp (h w hw)
  obtain rfl := (same_iff ha hb).mp huv
  rw [Bool.eq_iff_iff, same_iff ha hc, same_iff hb hc]

theorem Comparable.same_refl (h : Comparable vs) {v : Value} (hv : v ∈ vs) : same v v = true := by
  obtain ⟨a, ha⟩ := Option.isSome_iff_exists.mp (h v hv)
  exact (same_iff ha ha).mpr rfl

theorem Comparable.same_symm (h : Comparable vs) {u v : Value} (hu : u ∈ vs) (hv : v ∈ vs)
    (huv : same u v = true) : same v u = true := by
  rw [← h.same_congr hu hv hu huv]
  exact h.same_refl hu

theorem find?_congr {p q : Value → Bool} (h : ∀ v ∈ vs, p v = q v) : vs.find? p = vs.find? q := by
  rw [← List.head?_filter, ← List.head?_filter, List.filter_congr h]

/-- A value is counted where one like it is, or comes last with the count
one. -/
theorem tally_map {order : List Value} (hnodup : order.Nodup) (count : Value → Nat) {v : Value}
    (hunique : ∀ u ∈ order, ∀ w ∈ order, same u v = true → same w v = true → u = w) :
    tally (order.map fun w => (w, count w)) v =
      if order.any (same · v) then
        order.map fun w => (w, if same w v then count w + 1 else count w)
      else order.map (fun w => (w, count w)) ++ [(v, 1)] := by
  induction order with
  | nil => rfl
  | cons w order ih =>
    obtain ⟨hw, horder⟩ := List.nodup_cons.mp hnodup
    have hrest := ih horder fun u hu x hx =>
      hunique u (List.mem_cons_of_mem w hu) x (List.mem_cons_of_mem w hx)
    rw [List.map_cons, tally, List.any_cons]
    cases hlike : same w v with
    | true =>
      have hothers : ∀ u ∈ order, same u v = false := fun u hu => by
        by_contra hu'
        have heq := hunique w List.mem_cons_self u (List.mem_cons_of_mem w hu) hlike (by simpa using hu')
        exact hw (heq ▸ hu)
      have hsame : order.map (fun u => (u, if same u v then count u + 1 else count u)) =
          order.map fun u => (u, count u) :=
        List.map_congr_left fun u hu => by rw [hothers u hu, if_neg Bool.false_ne_true]
      simp [hlike, hsame]
    | false =>
      rw [if_neg Bool.false_ne_true, hrest, Bool.false_or]
      split
      · simp [hlike]
      · rfl

/-- Tallying lists each value once, as the first one like it, with how many
are like it. -/
theorem tally_values (h : Comparable vs) : ∃ order : List Value, order.Nodup ∧
    (∀ w, w ∈ order ↔ vs.find? (same w) = some w) ∧
      vs.foldl tally [] = order.map fun w => (w, vs.countP (same w)) := by
  -- A fold counts the last one last, so the induction is from the end.
  induction vs using List.reverseRecOn with
  | nil => exact ⟨[], List.nodup_nil, by simp, rfl⟩
  | append_singleton vs v ih =>
    have hvs : Comparable vs := fun w hw => h w (List.mem_append_left [v] hw)
    obtain ⟨order, hnodup, hmem, htally⟩ := ih hvs
    have hv : v ∈ vs ++ [v] := List.mem_append_right vs (List.mem_singleton_self v)
    have hin {w : Value} (hw : w ∈ order) : w ∈ vs := List.mem_of_find?_eq_some ((hmem w).mp hw)
    have hin' {w : Value} (hw : w ∈ vs) : w ∈ vs ++ [v] := List.mem_append_left [v] hw
    have hunique : ∀ u ∈ order, ∀ w ∈ order, same u v = true → same w v = true → u = w := by
      intro u hu w hw huv hwv
      have hclass : ∀ x ∈ vs, same u x = same w x := fun x hx =>
        (h.same_congr (hin' (hin hu)) hv (hin' hx) huv).trans
          (h.same_congr (hin' (hin hw)) hv (hin' hx) hwv).symm
      have hfind := (hmem u).mp hu
      rw [find?_congr hclass, (hmem w).mp hw] at hfind
      exact (Option.some.inj hfind).symm
    have hcount (w : Value) : (vs ++ [v]).countP (same w) =
        if same w v then vs.countP (same w) + 1 else vs.countP (same w) := by
      rw [List.countP_append, List.countP_singleton]
      split <;> rfl
    have hfind (w : Value) : (vs ++ [v]).find? (same w) = some w ↔
        vs.find? (same w) = some w ∨ vs.find? (same w) = none ∧ same w v = true ∧ v = w := by
      rw [List.find?_append, List.find?_singleton]
      cases vs.find? (same w) with
      | none => cases same w v <;> simp
      | some x => simp
    rw [List.foldl_concat, htally, tally_map hnodup _ hunique]
    cases hfirst : vs.find? (same v) with
    | some u =>
      -- One like it came before, and the first of these is counted once more.
      have hu : u ∈ vs := List.mem_of_find?_eq_some hfirst
      have hvu : same v u = true := by simpa using List.find?_some hfirst
      have hclass : ∀ x ∈ vs, same u x = same v x := fun x hx =>
        (h.same_congr hv (hin' hu) (hin' hx) hvu).symm
      have horder : u ∈ order := (hmem u).mpr (by rw [find?_congr hclass, hfirst])
      have hany : order.any (same · v) = true :=
        List.any_eq_true.mpr ⟨u, horder, h.same_symm hv (hin' hu) hvu⟩
      refine ⟨order, hnodup, fun w => ?_, ?_⟩
      · rw [hfind, hmem]
        refine ⟨.inl, fun hw => hw.elim id ?_⟩
        rintro ⟨hnone, -, rfl⟩
        cases hfirst.symm.trans hnone
      · rw [if_pos hany]
        simp only [hcount]
    | none =>
      have hnew : ∀ w ∈ order, same w v = false := fun w hw => by
        by_contra hlike
        have hlike' := h.same_symm (hin' (hin hw)) hv (by simpa using hlike)
        exact List.find?_eq_none.mp hfirst w (hin hw) hlike'
      have hany : ¬ order.any (same · v) = true := by simpa using hnew
      have hzero : vs.countP (same v) = 0 := List.countP_eq_zero.mpr (List.find?_eq_none.mp hfirst)
      have hself : same v v = true := h.same_refl hv
      refine ⟨order ++ [v], ?_, fun w => ?_, ?_⟩
      · refine List.nodup_append.mpr ⟨hnodup, List.pairwise_singleton _ v, fun w hw x hx hwx => ?_⟩
        obtain rfl : w = v := hwx.trans (List.mem_singleton.mp hx)
        cases hfirst.symm.trans ((hmem w).mp hw)
      · rw [List.mem_append, List.mem_singleton, hmem, hfind]
        refine or_congr_right ⟨?_, fun hw => hw.2.2.symm⟩
        rintro rfl
        exact ⟨hfirst, hself, rfl⟩
      · have hold : order.map (fun w => (w, (vs ++ [v]).countP (same w))) =
            order.map fun w => (w, vs.countP (same w)) :=
          List.map_congr_left fun w hw => by rw [hcount, hnew w hw, if_neg Bool.false_ne_true]
        rw [if_neg hany, List.map_append, List.map_singleton, hold, hcount, hself, if_pos rfl, hzero]

/-- The ranking lists each value once, as the first one like it, the most
frequent first. -/
theorem ranking_values (h : Comparable vs) : ∃ order : List Value, order.Nodup ∧
    (∀ w, w ∈ order ↔ vs.find? (same w) = some w) ∧
      order.Pairwise (fun v w => vs.countP (same w) ≤ vs.countP (same v)) ∧
        ranking vs = order.map fun w => (w, vs.countP (same w)) := by
  obtain ⟨order, hnodup, hmem, htally⟩ := tally_values h
  have hperm := List.mergeSort_perm order fun v w => vs.countP (same w) ≤ vs.countP (same v)
  refine ⟨_, hperm.nodup_iff.mpr hnodup, fun w => hperm.mem_iff.trans (hmem w), ?_, ?_⟩
  · have hsorted : (order.mergeSort fun v w => vs.countP (same w) ≤ vs.countP (same v)).Pairwise
        fun v w => decide (vs.countP (same w) ≤ vs.countP (same v)) = true :=
      List.pairwise_mergeSort (fun u v w huv hvw => by simp at *; omega)
        (fun v w => by simp; omega) order
    simpa using hsorted
  · rw [ranking, htally]
    exact (List.map_mergeSort (f := fun w => (w, vs.countP (same w))) fun v _ w _ => rfl).symm

end Metric

end Amend
