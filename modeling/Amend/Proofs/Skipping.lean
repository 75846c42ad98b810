/-
Amend.Proofs.Skipping — which logs have figures, and what these are.

A line that is no JSON is passed over, and so is a blank one. Anything else
that is no entry stops the figures: bytes that are no UTF-8, a line with a
number too long or too much inside each other, and among the newest values one
that is no mapping, has blocks that do not compare or a strategy that cannot
be a key (`Told`). Of a log without any of these the figures are those of its
newest entries (`Figures.CountedFrom`), and no other log has figures
(`figuresOf_newest`).

  §1 Lists that are gone through.
  §2 The values of a log.
  §3 The figures of entries.
  §4 The figures of a log.
-/
import Amend.Proofs.Decoding
import Amend.Proofs.Metrics
import Amend.Proofs.Rankings

namespace Amend.Metric

open Text

/-! ## §1 Lists that are gone through -/

section

variable {ε α β : Type} {f : α → Except ε β}

theorem forall_of_mapM {xs : List α} {ys : List β} (h : xs.mapM f = .ok ys) :
    ∀ x ∈ xs, ∃ y, f x = .ok y := by
  induction xs generalizing ys with
  | nil => exact List.forall_mem_nil _
  | cons x xs ih =>
    rw [List.mapM_cons] at h
    obtain ⟨y, hy, h⟩ := Except.exists_of_bind h
    obtain ⟨ys', hys, -⟩ := Except.exists_of_bind h
    exact List.forall_mem_cons.mpr ⟨⟨y, hy⟩, ih hys⟩

theorem mapM_of_forall {xs : List α} {g : α → β} (h : ∀ x ∈ xs, f x = .ok (g x)) :
    xs.mapM f = .ok (xs.map g) := by
  induction xs with
  | nil => rfl
  | cons x xs ih =>
    rw [List.mapM_cons, h x List.mem_cons_self, ih fun x hx => h x (List.mem_cons_of_mem _ hx)]
    rfl

end

/-! ## §2 The values of a log -/

/-- The value in a line of a log, if it holds one. -/
def lineValue? (l : Text) : Option Value := (Json.read (trim l)).toOption

/-- Whether a line holds a number too long to convert, or too much inside each
other. Such a line is no JSON value, but is not passed over. -/
def Overflows (l : Text) : Prop := ∃ e, Json.read (trim l) = .error e ∧ e ≠ .malformed

/-- Lines of which none overflows hold the values that can be read. -/
theorem valuesOf_eq {ls : List Text} (h : ∀ l ∈ ls, ¬ Overflows l) :
    valuesOf ls = .ok (ls.filterMap lineValue?) := by
  induction ls with
  | nil => rfl
  | cons l ls ih =>
    obtain ⟨hl, hls⟩ := List.forall_mem_cons.mp h
    rw [valuesOf, ih hls, List.filterMap_cons]
    split
    · rename_i hblank
      rw [lineValue?, hblank]
      rfl
    · cases hread : Json.read (trim l) with
      | ok v => simp [lineValue?, hread, Except.toOption, Except.map]
      | error e =>
        by_cases he : e = .malformed
        · subst he
          simp [lineValue?, hread, Except.toOption]
        · exact absurd ⟨e, hread, he⟩ hl

theorem valuesOf_overflows {ls : List Text} (h : ∃ l ∈ ls, Overflows l) :
    ∃ fault, valuesOf ls = .error fault := by
  induction ls with
  | nil => simp at h
  | cons l ls ih =>
    have hrest (hl : ¬ Overflows l) : ∃ fault, valuesOf ls = .error fault := by
      obtain ⟨k, hk, hover⟩ := h
      obtain rfl | hk := List.mem_cons.mp hk
      · exact absurd hover hl
      · exact ih ⟨k, hk, hover⟩
    rw [valuesOf]
    split
    · rename_i hblank
      refine hrest ?_
      rintro ⟨e, he, hne⟩
      rw [hblank] at he
      cases he
      exact hne rfl
    · cases hread : Json.read (trim l) with
      | ok v =>
        have hl : ¬ Overflows l := by
          rintro ⟨e, he, -⟩
          cases hread.symm.trans he
        obtain ⟨fault, hfault⟩ := hrest hl
        exact ⟨fault, by simp [hfault, Except.map]⟩
      | error e =>
        cases e with
        | malformed =>
          refine hrest ?_
          rintro ⟨e, he, hne⟩
          cases hread.symm.trans he
          exact hne rfl
        | tooLong n => exact ⟨_, rfl⟩
        | tooDeep m => exact ⟨_, rfl⟩

/-- Lines are read if none overflows. -/
theorem valuesOf_eq_ok_iff {ls : List Text} {vs : List Value} : valuesOf ls = .ok vs ↔
    (∀ l ∈ ls, ¬ Overflows l) ∧ ls.filterMap lineValue? = vs := by
  constructor
  · intro h
    have hlines : ∀ l ∈ ls, ¬ Overflows l := by
      intro l hl hover
      obtain ⟨fault, hfault⟩ := valuesOf_overflows ⟨l, hl, hover⟩
      cases hfault.symm.trans h
    rw [valuesOf_eq hlines] at h
    exact ⟨hlines, Except.ok.inj h⟩
  · rintro ⟨hlines, rfl⟩
    exact valuesOf_eq hlines

theorem values_of_strict {log : Bytes} {t : Text} (h : Utf8.decodeStrict log = .ok t) :
    values log = valuesOf (lines (universal t)) := by
  have hspec := Stream.read_spec log
  rw [Utf8.strict?, h] at hspec
  rw [values, show Stream.read log = _ from hspec]

theorem values_of_malformed {log : Bytes} (h : ∀ t, Utf8.decodeStrict log ≠ .ok t) :
    ∃ fault, values log = .error fault := by
  have hspec := Stream.read_spec log
  cases hdecoded : Utf8.decodeStrict log with
  | ok t => exact absurd hdecoded (h t)
  | error m =>
    rw [Utf8.strict?, hdecoded] at hspec
    obtain ⟨t, m, hread⟩ := hspec
    rw [values, hread]
    dsimp only
    cases valuesOf (lines t).dropLast with
    | error fault => exact ⟨fault, rfl⟩
    | ok vs => exact ⟨.malformed m, rfl⟩

/-- A log is read if it is UTF-8 and no line overflows; it then has the values
of its lines, in order. -/
theorem values_eq_ok_iff {log : Bytes} {vs : List Value} : values log = .ok vs ↔
    ∃ t, Utf8.decodeStrict log = .ok t ∧ (∀ l ∈ lines (universal t), ¬ Overflows l) ∧
      (lines (universal t)).filterMap lineValue? = vs := by
  constructor
  · intro h
    obtain ⟨t, hdecoded⟩ : ∃ t, Utf8.decodeStrict log = .ok t := by
      by_contra hnone
      obtain ⟨fault, hfault⟩ := values_of_malformed fun t ht => hnone ⟨t, ht⟩
      cases hfault.symm.trans h
    rw [values_of_strict hdecoded] at h
    exact ⟨t, hdecoded, valuesOf_eq_ok_iff.mp h⟩
  · rintro ⟨t, hdecoded, hlines⟩
    rw [values_of_strict hdecoded]
    exact valuesOf_eq_ok_iff.mpr hlines

/-! ## §3 The figures of entries -/

/-- The number of blocks that an entry has under a key; none if it does not
say. -/
def blocks (es : List (Value × Value)) (key : String) : Value :=
  (Value.field? es key).getD (.int 0)

/-- Whether an entry is one of success with fewer blocks applied than there
were. -/
def leftBlocks (es : List (Value × Value)) : Bool :=
  succeeded es &&
    (Value.less (blocks es "blocks_applied") (blocks es "blocks_total")).toOption.getD false

/-- The strategies that entries name. -/
def namesOf (fs : List (List (Value × Value))) : List Value :=
  (fs.filterMap fun es => Value.field? es "strategy").filter Value.truthy

/-- An entry the figures can be drawn from: the blocks of a success compare,
and the strategy may be a key. -/
structure Sound (es : List (Value × Value)) : Prop where
  compares : succeeded es = true →
    ∃ b, Value.less (blocks es "blocks_applied") (blocks es "blocks_total") = .ok b
  named : ∀ s, Value.field? es "strategy" = some s → s.truthy = true → s.isKey = true

/-- The figures are those of the entries: each rate is rounded from the share
that is counted in them, and each strategy comes once, as the first one like
it, with the share of those like it, the most frequent first. -/
structure Figures.CountedFrom (f : Figures) (fs : List (List (Value × Value))) : Prop where
  total : f.total = fs.length
  success : f.success = rate (fs.countP succeeded) fs.length
  partly : f.partly = rate (fs.countP leftBlocks) fs.length
  fallback : f.fallback =
    rate ((namesOf fs).countP fun s => !Value.same s (.ofString "exact")) (namesOf fs).length
  strategies : ∃ order : List Value, order.Nodup ∧
    (∀ w, w ∈ order ↔ (namesOf fs).find? (Value.same w) = some w) ∧
    order.Pairwise (fun v w =>
      (namesOf fs).countP (Value.same w) ≤ (namesOf fs).countP (Value.same v)) ∧
    f.strategies = order.map fun w =>
      (w, rate ((namesOf fs).countP (Value.same w)) (namesOf fs).length)

variable {fs : List (List (Value × Value))}

/-- An entry is judged if its blocks compare where they have to. -/
theorem isPartial_eq_ok_iff {es : List (Value × Value)} {b : Bool} :
    isPartial es = .ok b ↔ b = leftBlocks es ∧ (succeeded es = true →
      ∃ b, Value.less (blocks es "blocks_applied") (blocks es "blocks_total") = .ok b) := by
  have hless : isPartial es =
      if succeeded es then
        (Value.less (blocks es "blocks_applied") (blocks es "blocks_total")).mapError fun u =>
          .unordered u.left u.right
      else .ok false := rfl
  rw [hless, leftBlocks]
  cases succeeded es with
  | false => simp [eq_comm]
  | true =>
    cases Value.less (blocks es "blocks_applied") (blocks es "blocks_total") <;>
      simp [Except.mapError, Except.toOption, eq_comm]

theorem mem_namesOf {s : Value} (h : s ∈ namesOf fs) :
    s.truthy = true ∧ ∃ es ∈ fs, Value.field? es "strategy" = some s := by
  obtain ⟨hmem, htruthy⟩ := List.mem_filter.mp h
  exact ⟨htruthy, List.mem_filterMap.mp hmem⟩

/-- Names that were read from JSON and may be keys stand for something. -/
theorem comparable_namesOf (hkinds : ∀ es ∈ fs, ∀ e ∈ es, Json.Kind e.2)
    (hsound : ∀ es ∈ fs, Sound es) : Comparable (namesOf fs) := by
  intro s hs
  obtain ⟨htruthy, es, hes, hfield⟩ := mem_namesOf hs
  obtain ⟨e, he, rfl⟩ := Option.map_eq_some_iff.mp hfield
  exact (hkinds es hes e (List.mem_of_find?_eq_some he)).standing?
    ((hsound es hes).named _ hfield htruthy)

/-- The figures of so many entries with these fields, of which so many left
blocks out. -/
def drawn (total : Nat) (fs : List (List (Value × Value))) (partials : Nat) : Figures where
  total
  success := percent (fs.countP succeeded) total
  partly := percent partials total
  fallback :=
    if namesOf fs = [] then Binary64.zero false
    else percent ((namesOf fs).countP fun s => !Value.same s (.ofString "exact")) (namesOf fs).length
  strategies := (ranking (namesOf fs)).map fun (s, n) => (s, percent n (namesOf fs).length)

theorem figures_eq {vs : List Value} (hne : vs ≠ []) : figures vs = (do
    let fs ← vs.mapM fieldsOf
    let ps ← fs.mapM isPartial
    match (namesOf fs).find? fun s => !s.isKey with
    | some s => throw (.noKey s.kind)
    | none => return drawn vs.length fs (ps.count true)) := by
  rw [figures, if_neg hne]
  rfl

theorem eq_map_of_mapM {vs : List Value} (h : vs.mapM fieldsOf = .ok fs) : vs = fs.map .mapping := by
  induction vs generalizing fs with
  | nil =>
    cases h
    rfl
  | cons v vs ih =>
    rw [List.mapM_cons] at h
    obtain ⟨es, hes, h⟩ := Except.exists_of_bind h
    obtain ⟨fs', hfs, h⟩ := Except.exists_of_bind h
    cases h
    rw [List.map_cons, ← ih hfs]
    cases v with
    | mapping es' =>
      cases hes
      rfl
    | _ => cases hes

theorem drawn_countedFrom (hne : fs ≠ []) (hcomparable : Comparable (namesOf fs)) :
    (drawn fs.length fs (fs.countP leftBlocks)).CountedFrom fs := by
  obtain ⟨order, hnodup, hmem, hsorted, hranking⟩ := ranking_values hcomparable
  have hlength : fs.length ≠ 0 := by simpa using hne
  refine ⟨rfl, (rate_of_ne hlength).symm, (rate_of_ne hlength).symm, ?_, order, hnodup, hmem,
    hsorted, ?_⟩
  · simp only [drawn, rate, List.length_eq_zero_iff]
  · rw [drawn, hranking, List.map_map]
    refine List.map_congr_left fun w hw => ?_
    have hnamed : (namesOf fs).length ≠ 0 :=
      Nat.ne_of_gt (List.length_pos_of_mem (List.mem_of_find?_eq_some ((hmem w).mp hw)))
    rw [rate_of_ne hnamed]
    rfl

/-- Sound entries have figures, which are theirs. -/
theorem figures_of_sound (hkinds : ∀ es ∈ fs, ∀ e ∈ es, Json.Kind e.2)
    (hsound : ∀ es ∈ fs, Sound es) :
    ∃ f, figures (fs.map .mapping) = .ok f ∧ f.CountedFrom fs := by
  by_cases hfs : fs = []
  · subst hfs
    exact ⟨_, rfl, rfl, rfl, rfl, rfl, [], List.nodup_nil, by simp [namesOf], .nil, rfl⟩
  · have hpartials : fs.mapM isPartial = .ok (fs.map leftBlocks) :=
      mapM_of_forall fun es hes => isPartial_eq_ok_iff.mpr ⟨rfl, (hsound es hes).compares⟩
    have hcount : (fs.map leftBlocks).count true = fs.countP leftBlocks := by
      rw [List.count_eq_countP, List.countP_map]
      exact List.countP_congr fun es _ => by simp
    have hkeys : (namesOf fs).find? (fun s => !s.isKey) = none := by
      refine List.find?_eq_none.mpr fun s hs => ?_
      obtain ⟨htruthy, es, hes, hfield⟩ := mem_namesOf hs
      simp [(hsound es hes).named s hfield htruthy]
    refine ⟨_, ?_, drawn_countedFrom hfs (comparable_namesOf hkinds hsound)⟩
    rw [figures_eq (by simpa using hfs), mapM_fieldsOf]
    simp only [bind, Except.bind, hpartials, hkeys, hcount, List.length_map]
    rfl

/-- What has figures is sound entries. -/
theorem sound_of_figures {vs : List Value} {f : Figures} (h : figures vs = .ok f) :
    ∃ fs : List (List (Value × Value)), vs = fs.map .mapping ∧ ∀ es ∈ fs, Sound es := by
  by_cases hvs : vs = []
  · exact ⟨[], hvs, List.forall_mem_nil _⟩
  · rw [figures_eq hvs] at h
    obtain ⟨fs, hfields, h⟩ := Except.exists_of_bind h
    obtain ⟨ps, hpartials, h⟩ := Except.exists_of_bind h
    refine ⟨fs, eq_map_of_mapM hfields, fun es hes => ⟨?_, fun s hs htruthy => ?_⟩⟩
    · obtain ⟨b, hb⟩ := forall_of_mapM hpartials es hes
      exact (isPartial_eq_ok_iff.mp hb).2
    · split at h
      · cases h
      · rename_i hkeys
        have hmem : s ∈ namesOf fs :=
          List.mem_filter.mpr ⟨List.mem_filterMap.mpr ⟨es, hes, hs⟩, htruthy⟩
        simpa using List.find?_eq_none.mp hkeys s hmem

/-! ## §4 The figures of a log -/

/-- The newest entries of a log, if figures tell of them: the log is UTF-8, no
line overflows, and the newest values are sound entries. -/
structure Told (log : Bytes) (n : Nat) (fs : List (List (Value × Value))) : Prop where
  read : ∃ t, Utf8.decodeStrict log = .ok t ∧ (∀ l ∈ lines (universal t), ¬ Overflows l) ∧
    let vs := (lines (universal t)).filterMap lineValue?
    vs.drop (vs.length - n) = fs.map .mapping
  sound : ∀ es ∈ fs, Sound es

theorem kinds_of_read {ls : List Text} {n : Nat}
    (h : (ls.filterMap lineValue?).drop n = fs.map .mapping) :
    ∀ es ∈ fs, ∀ e ∈ es, Json.Kind e.2 := by
  intro es hes
  have hmem : Value.mapping es ∈ ls.filterMap lineValue? :=
    List.mem_of_mem_drop (h ▸ List.mem_map_of_mem hes)
  obtain ⟨l, -, hl⟩ := List.mem_filterMap.mp hmem
  cases hread : Json.read (trim l) with
  | error e => rw [lineValue?, hread] at hl; cases hl
  | ok v =>
    rw [lineValue?, hread] at hl
    cases hl
    cases Json.kind_read hread with
    | mapping hes => exact hes

variable {log : Bytes} {n : Nat}

theorem figuresOf_of_told (hn : 1 ≤ n) (h : Told log n fs) :
    ∃ f, figuresOf log n = .ok f ∧ f.CountedFrom fs := by
  obtain ⟨⟨t, hdecoded, hlines, hnewest⟩, hsound⟩ := h
  obtain ⟨f, hf, hcounted⟩ := figures_of_sound (kinds_of_read hnewest) hsound
  refine ⟨f, ?_, hcounted⟩
  rw [figuresOf, values_of_strict hdecoded, valuesOf_eq hlines]
  change figures (newest n _) = _
  rw [newest_eq_drop hn, hnewest, hf]

theorem told_of_figuresOf (hn : 1 ≤ n) {f : Figures} (h : figuresOf log n = .ok f) :
    ∃ fs, Told log n fs := by
  obtain ⟨vs, hvalues, h⟩ := Except.exists_of_bind h
  obtain ⟨t, hdecoded, hlines, rfl⟩ := values_eq_ok_iff.mp hvalues
  rw [newest_eq_drop hn] at h
  obtain ⟨fs, hnewest, hsound⟩ := sound_of_figures h
  exact ⟨fs, ⟨t, hdecoded, hlines, hnewest⟩, hsound⟩

/-- A log has figures exactly if its newest entries can be told of, and these
are the figures of those entries. -/
theorem figuresOf_newest (log : Bytes) {n : Nat} (hn : 1 ≤ n) :
    (∃ fs f, Told log n fs ∧ figuresOf log n = .ok f ∧ f.CountedFrom fs) ∨
      ((∀ fs, ¬ Told log n fs) ∧ ∃ fault, figuresOf log n = .error fault) := by
  cases hfigures : figuresOf log n with
  | ok f =>
    obtain ⟨fs, htold⟩ := told_of_figuresOf hn hfigures
    obtain ⟨f', hf', hcounted⟩ := figuresOf_of_told hn htold
    cases hfigures.symm.trans hf'
    exact .inl ⟨fs, f, htold, rfl, hcounted⟩
  | error fault =>
    refine .inr ⟨fun fs htold => ?_, fault, rfl⟩
    obtain ⟨f, hf, -⟩ := figuresOf_of_told hn htold
    cases hfigures.symm.trans hf

/-- Two entries, and between them a line that is no JSON and a blank one. -/
def twoOfFour : Bytes :=
  Utf8.encode "\x7b\"success\": true\x7d\n\x7bnot json\n\n\x7b\"success\": true\x7d\n"

/-- A line that is no JSON is passed over, as is a blank one. -/
theorem corrupt_line_passed_over :
    1 ≤ 50 ∧ ∃ fs f, Told twoOfFour 50 fs ∧ figuresOf twoOfFour 50 = .ok f ∧
      f.CountedFrom fs ∧ fs.length = 2 := by
  refine ⟨by decide, ?_⟩
  have htotal : (figuresOf twoOfFour 50).toOption.map Figures.total = some 2 := by
    decide +kernel
  obtain ⟨fs, f, htold, hf, hcounted⟩ | ⟨-, fault, hfault⟩ :=
    figuresOf_newest twoOfFour (show 1 ≤ 50 by decide)
  · refine ⟨fs, f, htold, hf, hcounted, ?_⟩
    rw [show figuresOf twoOfFour 50 = _ from hf] at htotal
    rw [← hcounted.total]
    exact Option.some.inj htotal
  · rw [show figuresOf twoOfFour 50 = _ from hfault] at htotal
    cases htotal

/-- A line that is JSON and no entry is not passed over, nor are bytes that
are no UTF-8, and what cannot be counted is not left out. -/
theorem other_lines_not_passed_over :
    (figuresOf (Utf8.encode "[1]\n") 50).toOption.isNone ∧
      (figuresOf [0xFF, 0x0A] 50).toOption.isNone ∧
      (figuresOf (Utf8.encode "\x7b\"success\": true, \"blocks_applied\": \"a\"\x7d\n") 50).toOption.isNone ∧
      (figuresOf (Utf8.encode "\x7b\"strategy\": [1]\x7d\n") 50).toOption.isNone := by
  decide +kernel

end Amend.Metric
