/-
Amend.Proofs.Recent — the figures of a log rest on its newest entries.

A window of at least one takes the last values of a log and leaves the others
out, however many there are. So two logs that agree on the values in the window
have the same figures, whatever stood in either of them before
(`figuresOf_alike`). A window of none is no such window: it takes every value
(`figuresOf_zero`).

  §1 Values that were read.
  §2 Logs that agree.
-/
import Amend.Proofs.Skipping

namespace Amend.Metric

/-! ## §1 Values that were read -/

variable {log log' : Bytes} {vs vs' : List Value} {fs : List (List (Value × Value))}

theorem figuresOf_of_values (h : values log = .ok vs) (n : Int) :
    figuresOf log n = figures (newest n vs) := by
  rw [figuresOf, h]
  rfl

/-- The values of entries that were read from a log are of kinds that JSON has. -/
theorem kinds_of_values (h : values log = .ok vs) {k : Nat} (hnewest : vs.drop k = fs.map .mapping) :
    ∀ es ∈ fs, ∀ e ∈ es, Json.Kind e.2 := by
  obtain ⟨t, -, -, rfl⟩ := values_eq_ok_iff.mp h
  exact kinds_of_read hnewest

/-! ## §2 Logs that agree -/

/-- Two logs whose newest entries are the same have the same figures, those of
these entries. The total is the size of the window, or the number of entries
where there are fewer. -/
theorem figuresOf_alike {n : Nat} (hn : 1 ≤ n) (hlog : values log = .ok vs)
    (hlog' : values log' = .ok vs') (hnewest : vs.drop (vs.length - n) = fs.map .mapping)
    (hnewest' : vs'.drop (vs'.length - n) = fs.map .mapping) (hsound : ∀ es ∈ fs, Sound es) :
    ∃ f, figuresOf log n = .ok f ∧ figuresOf log' n = .ok f ∧ f.total = min n vs.length ∧
      f.CountedFrom fs := by
  obtain ⟨f, hf, hcounted⟩ := figures_of_sound (kinds_of_values hlog hnewest) hsound
  have hlength : fs.length = min n vs.length := by
    have hdrop := congrArg List.length hnewest
    rw [List.length_drop, List.length_map] at hdrop
    omega
  refine ⟨f, ?_, ?_, hcounted.total.trans hlength, hcounted⟩
  · rw [figuresOf_of_values hlog, newest_eq_drop hn, hnewest, hf]
  · rw [figuresOf_of_values hlog', newest_eq_drop hn, hnewest', hf]

/-- A log of entries that each tell no more than whether they succeeded. -/
def successLog (successes : List Bool) : Bytes :=
  Utf8.encode (Text.closedLines (successes.map fun b =>
    Json.write (.mapping (Json.keyed [(Text.ofString "success", .bool b)]))))

theorem values_successLog (successes : List Bool) : values (successLog successes) =
    .ok (successes.map fun b => .mapping (Json.keyed [(Text.ofString "success", .bool b)])) := by
  have hlines : List.Forall₂ LineOf
      (successes.map fun b => Json.write (.mapping (Json.keyed [(Text.ofString "success", .bool b)])))
      (successes.map fun b => [(Text.ofString "success", .bool b)]) := by
    induction successes with
    | nil => exact .nil
    | cons b successes ih =>
      exact .cons ⟨rfl, List.cons_ne_nil _ _, List.nodup_singleton _,
        List.forall_mem_singleton.mpr (Json.joined_ofString _),
        List.forall_mem_singleton.mpr (.bool b)⟩ ih
  rw [successLog, values_log hlines, List.map_map]
  rfl

/-- A failure before the newest entry changes nothing. -/
theorem older_failure_left_out :
    1 ≤ 1 ∧ ∃ fs f, figuresOf (successLog [false, true]) 1 = .ok f ∧
      figuresOf (successLog [true]) 1 = .ok f ∧ f.total = 1 ∧ f.CountedFrom fs := by
  refine ⟨by decide, [Json.keyed [(Text.ofString "success", .bool true)]], ?_⟩
  refine figuresOf_alike (show 1 ≤ 1 by decide) (values_successLog [false, true])
    (values_successLog [true]) rfl rfl ?_
  have hfield {key : String} (h : key ≠ "success") :
      Value.field? (Json.keyed [(Text.ofString "success", .bool true)]) key = none := by
    rw [show Json.keyed [(Text.ofString "success", .bool true)] =
      [(Value.ofString "success", .bool true)] from rfl, field?_cons, if_neg h]
    rfl
  refine List.forall_mem_singleton.mpr ⟨fun _ => ⟨false, ?_⟩, fun s hs => ?_⟩
  · rw [blocks, blocks, hfield (by decide), hfield (by decide)]
    exact less_int 0 0
  · rw [hfield (by decide)] at hs
    cases hs

/-- A window of none takes all values. -/
theorem figuresOf_zero (h : values log = .ok vs) : figuresOf log 0 = figures vs := by
  have hall : newest 0 vs = vs := by
    have hlength : ¬ (vs.length : Int) < 0 := by omega
    simp [newest, Text.part, Text.place, hlength]
  rw [figuresOf_of_values h, hall]

/-- So two logs, which agree on no entries at all, have other figures. -/
theorem empty_window_tells_all :
    (figuresOf (successLog []) 0).toOption.map Figures.total = some 0 ∧
      (figuresOf (successLog [true]) 0).toOption.map Figures.total = some 1 := by
  decide +kernel

end Amend.Metric
