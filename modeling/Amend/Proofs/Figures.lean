/-
Amend.Proofs.Figures — the figures of entries are those of the results.

An entry tells three things of a result: whether the call succeeded, whether
blocks were left out, and the strategy (`Reports`). Of a list of entries the
figures are the rates of these, each rounded from a quotient of two counts
(`figures_tells`). The ranking lists each strategy once
(`ranking_strategies`), so the exact shares make up the whole.

  §1 What a result tells.
  §2 Entries that report results.
  §3 Counting strategies.
  §4 Figures.
-/
import Mathlib.Algebra.BigOperators.Group.List.Lemmas
import Mathlib.Algebra.BigOperators.Ring.List
import Mathlib.Algebra.Order.Field.Rat
import Mathlib.Data.List.Forall2
import Mathlib.Tactic.FieldSimp
import Mathlib.Tactic.Positivity
import Amend.Metric
import Amend.Proofs.Rankings
import Amend.Proofs.Stores
import Amend.Tool.Basic

namespace Amend

/-! ## §1 What a result tells -/

namespace ToolResult

/-- The strategy that a result names, if it names one. -/
def strategy? (r : ToolResult) : Option Strategy :=
  match r.details with
  | .nothing | .created => none
  | .replaced s _ | .patched s _ _ => some s

/-- Whether a call succeeded with fewer blocks applied than there were. -/
def isPartly (r : ToolResult) : Bool :=
  r.success &&
    match r.details with
    | .patched _ total applied => decide (applied < total)
    | _ => false

end ToolResult

namespace Metric

/-- A part of a whole in per cent, exactly; of nothing it is zero. -/
def share (part whole : Nat) : ℚ := part / whole * 100

/-- A part of a whole in per cent as figures have it; of nothing it is zero. -/
def rate (part whole : Nat) : Binary64 :=
  if whole = 0 then Binary64.zero false else percent part whole

/-- The strategies that results name. -/
def named (rs : List ToolResult) : List Strategy := rs.filterMap ToolResult.strategy?

/-- A strategy as entries have it. -/
def strategyValue (s : Strategy) : Value := .ofString s.name

/-- The figures tell of these results: each rate is rounded from the share that
is counted in them, and the strategies come with theirs, each one once and the
most frequent first. No more calls are partly successful than are successful,
and the shares of the strategies make up the whole. -/
structure Figures.Tells (f : Figures) (rs : List ToolResult) : Prop where
  total : f.total = rs.length
  success : f.success = rate (rs.countP ToolResult.success) rs.length
  partly : f.partly = rate (rs.countP ToolResult.isPartly) rs.length
  partly_le_success : share (rs.countP ToolResult.isPartly) rs.length ≤
    share (rs.countP ToolResult.success) rs.length
  fallback : f.fallback = rate ((named rs).countP (· ≠ .exact)) (named rs).length
  strategies : ∃ order : List Strategy, order.Nodup ∧ (∀ s, s ∈ order ↔ s ∈ named rs) ∧
    order.Pairwise (fun s t => (named rs).count t ≤ (named rs).count s) ∧
    (f.strategies = order.map fun s =>
      (strategyValue s, rate ((named rs).count s) (named rs).length)) ∧
    (named rs ≠ [] →
      (order.map fun s => share ((named rs).count s) (named rs).length).sum = 100)

/-! ## §2 Entries that report results -/

/-- The entry tells of the result. -/
structure Reports (es : List (Value × Value)) (r : ToolResult) : Prop where
  success : succeeded es = r.success
  partly : isPartial es = .ok r.isPartly
  strategy : Value.field? es "strategy" = r.strategy?.map strategyValue

/-! ## §3 Counting strategies -/

theorem same_strategyValue (s t : Strategy) :
    Value.same (strategyValue s) (strategyValue t) = decide (s = t) := by
  rw [strategyValue, strategyValue, Value.ofString, Value.ofString, Value.same]
  cases s <;> cases t <;> decide

theorem strategyValue_injective : strategyValue.Injective := fun s t h => by
  have hsame : decide (s = s) = decide (s = t) := by
    rw [← same_strategyValue, ← same_strategyValue, h]
  simpa using hsame

theorem countP_same_strategyValue (s : Strategy) (ss : List Strategy) :
    (ss.map strategyValue).countP (Value.same (strategyValue s)) = ss.count s := by
  rw [List.countP_map, List.count_eq_countP]
  refine List.countP_congr fun t _ => ?_
  rw [Function.comp_apply, same_strategyValue, decide_eq_true_iff, beq_iff_eq]
  exact eq_comm

theorem find?_same_strategyValue (s : Strategy) (ss : List Strategy) :
    (ss.map strategyValue).find? (Value.same (strategyValue s)) = some (strategyValue s) ↔
      s ∈ ss := by
  refine ⟨fun h => (List.mem_map_of_injective strategyValue_injective).mp
    (List.mem_of_find?_eq_some h), fun h => ?_⟩
  induction ss with
  | nil => cases h
  | cons t ss ih =>
    rw [List.map_cons, List.find?_cons, same_strategyValue]
    by_cases hst : s = t
    · rw [hst, decide_eq_true rfl]
    · rw [decide_eq_false hst]
      exact ih ((List.mem_cons.mp h).resolve_left hst)

/-- The ranking lists each strategy once, the most frequent first. -/
theorem ranking_strategies (ss : List Strategy) : ∃ order : List Strategy, order.Nodup ∧
    (∀ s, s ∈ order ↔ s ∈ ss) ∧ order.Pairwise (fun s t => ss.count t ≤ ss.count s) ∧
      ranking (ss.map strategyValue) = order.map fun s => (strategyValue s, ss.count s) := by
  have hcomparable : Comparable (ss.map strategyValue) := by
    intro v hv
    obtain ⟨s, -, rfl⟩ := List.mem_map.mp hv
    rfl
  obtain ⟨values, hnodup, hmem, hsorted, hranking⟩ := ranking_values hcomparable
  -- What is ranked are strategies as entries have them.
  obtain ⟨order, rfl⟩ : ∃ order : List Strategy, order.map strategyValue = values := by
    refine (Set.range_list_map strategyValue).ge fun v hv => ?_
    obtain ⟨s, -, hs⟩ := List.mem_map.mp (List.mem_of_find?_eq_some ((hmem v).mp hv))
    exact ⟨s, hs⟩
  refine ⟨order, hnodup.of_map, fun s => ?_, ?_, ?_⟩
  · rw [← List.mem_map_of_injective strategyValue_injective, hmem, find?_same_strategyValue]
  · simpa only [List.pairwise_map, countP_same_strategyValue] using hsorted
  · rw [hranking, List.map_map]
    exact List.map_congr_left fun s _ => by rw [Function.comp_apply, countP_same_strategyValue]

/-- The shares of all strategies make up the whole. -/
theorem sum_share {ss order : List Strategy} (hne : ss ≠ []) (hnodup : order.Nodup)
    (hmem : ∀ s, s ∈ order ↔ s ∈ ss) :
    (order.map fun s => share (ss.count s) ss.length).sum = 100 := by
  have hperm : order.Perm ss.dedup :=
    (List.perm_ext_iff_of_nodup hnodup (List.nodup_dedup ss)).mpr fun s => by
      rw [hmem, List.mem_dedup]
  have hcount : (order.map fun s => ss.count s).sum = ss.length := by
    rw [(hperm.map _).sum_eq, List.sum_map_count_dedup_eq_length]
  have hlength : (ss.length : ℚ) ≠ 0 := Nat.cast_ne_zero.mpr (by simpa using hne)
  have hcast : (order.map fun s => (ss.count s : ℚ)).sum = ss.length := by
    rw [← hcount, ← Nat.coe_castAddMonoidHom, map_list_sum, List.map_map]
    rfl
  simp only [share, div_eq_mul_inv]
  rw [List.sum_map_mul_right, List.sum_map_mul_right, hcast]
  field_simp

/-! ## §4 Figures -/

variable {fields : List (List (Value × Value))} {rs : List ToolResult}

theorem mapM_fieldsOf (fields : List (List (Value × Value))) :
    (fields.map Value.mapping).mapM fieldsOf = .ok fields := by
  induction fields with
  | nil => rfl
  | cons es fields ih =>
    rw [List.map_cons, List.mapM_cons, ih]
    rfl

theorem countP_succeeded (h : List.Forall₂ Reports fields rs) :
    fields.countP succeeded = rs.countP ToolResult.success := by
  induction h with
  | nil => rfl
  | cons head _ ih => rw [List.countP_cons, List.countP_cons, ih, head.success]

theorem mapM_isPartial (h : List.Forall₂ Reports fields rs) :
    fields.mapM isPartial = .ok (rs.map ToolResult.isPartly) := by
  induction h with
  | nil => rfl
  | cons head _ ih =>
    rw [List.mapM_cons, head.partly, ih]
    rfl

theorem filterMap_strategy (h : List.Forall₂ Reports fields rs) :
    fields.filterMap (Value.field? · "strategy") = (named rs).map strategyValue := by
  induction h with
  | nil => rfl
  | @cons es r _ _ head _ ih =>
    have hnamed := head.strategy
    rw [List.filterMap_cons, hnamed, ih]
    cases hs : r.strategy? <;> simp [named, hs]

/-- Every strategy has a name that counts and may be a key. -/
theorem filter_strategyValue (ss : List Strategy) :
    (ss.map strategyValue).filter Value.truthy = ss.map strategyValue ∧
      (ss.map strategyValue).find? (fun v => !v.isKey) = none := by
  constructor
  · refine List.filter_eq_self.mpr fun v hv => ?_
    obtain ⟨s, -, rfl⟩ := List.mem_map.mp hv
    cases s <;> rfl
  · refine List.find?_eq_none.mpr fun v hv => ?_
    obtain ⟨s, -, rfl⟩ := List.mem_map.mp hv
    cases s <;> decide

theorem countP_fallbacks (ss : List Strategy) :
    (ss.map strategyValue).countP (fun v => !Value.same v (.ofString "exact")) =
      ss.countP (· ≠ .exact) := by
  rw [List.countP_map]
  refine List.countP_congr fun s _ => ?_
  have hsame : Value.same (strategyValue s) (.ofString "exact") = decide (s = .exact) :=
    same_strategyValue s .exact
  simp [hsame]

theorem rate_of_ne {part whole : Nat} (h : whole ≠ 0) : rate part whole = percent part whole :=
  if_neg h

/-- A part is counted in the calls that succeeded. -/
theorem share_partly_le (rs : List ToolResult) : share (rs.countP ToolResult.isPartly) rs.length ≤
    share (rs.countP ToolResult.success) rs.length := by
  have hle : rs.countP ToolResult.isPartly ≤ rs.countP ToolResult.success :=
    List.countP_mono_left fun r _ hpartly => (Bool.and_eq_true_iff.mp hpartly).1
  have hcast : (rs.countP ToolResult.isPartly : ℚ) ≤ rs.countP ToolResult.success :=
    Nat.cast_le.mpr hle
  unfold share
  gcongr

/-- Of entries that report results the figures tell of these. -/
theorem figures_tells (h : List.Forall₂ Reports fields rs) :
    ∃ f, figures (fields.map .mapping) = .ok f ∧ f.Tells rs := by
  obtain ⟨order, hnodup, hmem, hsorted, hranking⟩ := ranking_strategies (named rs)
  obtain ⟨htruthy, hkeys⟩ := filter_strategyValue (named rs)
  have hpartials : (rs.map ToolResult.isPartly).count true = rs.countP ToolResult.isPartly := by
    rw [List.count_eq_countP, List.countP_map]
    exact List.countP_congr fun r _ => by simp
  cases h with
  | nil =>
    refine ⟨_, rfl, rfl, rfl, rfl, share_partly_le [], rfl, [], List.nodup_nil, fun s => Iff.rfl,
      .nil, rfl, fun hne => absurd rfl hne⟩
  | @cons es r fields rs head tail =>
    have h := List.Forall₂.cons head tail
    have hnonempty : (r :: rs).length ≠ 0 := Nat.succ_ne_zero _
    rw [figures, if_neg (by simp)]
    simp only [mapM_fieldsOf, bind, Except.bind, mapM_isPartial h, filterMap_strategy h, htruthy,
      hkeys, hranking, countP_fallbacks, countP_succeeded h, hpartials, List.length_map, h.length_eq]
    refine ⟨_, rfl, rfl, ?_, ?_, share_partly_le _, ?_, order, hnodup, hmem, hsorted, ?_,
      fun hne => sum_share hne hnodup hmem⟩
    · exact (rate_of_ne hnonempty).symm
    · exact (rate_of_ne hnonempty).symm
    · simp [rate]
    · rw [List.map_map]
      refine List.map_congr_left fun s hs => ?_
      have hnamed : (named (r :: rs)).length ≠ 0 :=
        Nat.ne_of_gt (List.length_pos_of_mem ((hmem s).mp hs))
      rw [rate_of_ne hnamed]
      rfl

end Metric

end Amend
