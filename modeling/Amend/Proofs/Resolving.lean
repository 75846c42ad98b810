/-
Amend.Proofs.Resolving — what each setting is, by what is given for it.

A setting has the value converted from its environment variable, or else the
value converted from its key in the settings file, and its default where there
is nothing to convert or what there is does not convert (`Resolved`). This holds
of all nine settings at once, with two exceptions that stop the program: an
infinite number for an integer, and values too deep inside each other for a text
(`ofSource_cases`).

  §1 Values that can be written out.
  §2 What values are converted to.
  §3 One setting.
  §4 All settings.
-/
import Amend.Proofs.Numerals
import Amend.Settings

namespace Amend

/-! ## §1 Writing -/

namespace Value

mutual

/-- How many values are written inside each other, this one included. A set that
has members is written as a list of them in something more. -/
def depth : Value → Nat
  | list xs | tuple xs => depthAll xs + 1
  | set xs => if xs.isEmpty then 1 else depthAll xs + 2
  | mapping es => depthEntries es + 1
  | _ => 1

/-- The greatest depth of the values of a list. -/
def depthAll : List Value → Nat
  | [] => 0
  | x :: xs => max (depth x) (depthAll xs)

/-- The greatest depth of the keys and values of a mapping. -/
def depthEntries : List (Value × Value) → Nat
  | [] => 0
  | (k, v) :: es => max (max (depth k) (depth v)) (depthEntries es)

end

/-- What an obstacle, met with so much room, tells of a value: of whether an
integer in it is too long, and of its depth. -/
def Told (room : Nat) (tooLong : Bool) (depth : Nat) : Option Unwritable → Prop
  | none => tooLong = false ∧ depth ≤ room
  | some .tooLong => tooLong = true
  | some .tooDeep => room < depth

variable {room d e : Nat} {b c : Bool} {o p : Option Unwritable}

/-- The first obstacle of two tells of both. -/
theorem Told.or (ho : Told room b d o) (hp : Told room c e p) :
    Told room (b || c) (max d e) (o.or p) := by
  cases o with
  | none =>
    obtain ⟨rfl, hd⟩ := ho
    cases p with
    | none => exact ⟨hp.1, Nat.max_le.mpr ⟨hd, hp.2⟩⟩
    | some u =>
      cases u with
      | tooLong => exact hp
      | tooDeep => exact Nat.lt_of_lt_of_le hp (Nat.le_max_right d e)
  | some u =>
    cases u with
    | tooLong => exact Bool.or_eq_true_iff.mpr (.inl ho)
    | tooDeep => exact Nat.lt_of_lt_of_le ho (Nat.le_max_left d e)

/-- A level around what was met takes room. -/
theorem Told.succ (h : Told room b d o) : Told (room + 1) b (d + 1) o := by
  cases o with
  | none => exact ⟨h.1, Nat.succ_le_succ h.2⟩
  | some u =>
    cases u with
    | tooLong => exact h
    | tooDeep => exact Nat.succ_lt_succ h

theorem depth_pos (v : Value) : 0 < depth v := by
  cases v <;> simp only [depth] <;> try split
  all_goals omega

theorem told_none : Told (room + 1) false 1 none := ⟨rfl, Nat.succ_le_succ (Nat.zero_le room)⟩

mutual

/-- A value is written out unless an integer in it is too long or it is too
deep, and what keeps it from that is one of the two. -/
theorem told_unwritable? (room : Nat) (v : Value) :
    Told room (tooLong v) (depth v) (unwritable? room v) := by
  cases room with
  | zero =>
    rw [unwritable?]
    exact depth_pos v
  | succ room =>
    cases v with
    | int i =>
      rw [unwritable?, tooLong]
      split
      · rename_i h
        exact decide_eq_true h
      · rename_i h
        exact ⟨decide_eq_false h, Nat.succ_le_succ (Nat.zero_le room)⟩
    | list xs =>
      rw [unwritable?, tooLong, depth]
      exact (told_unwritableAll? room xs).succ
    | tuple xs =>
      rw [unwritable?, tooLong, depth]
      exact (told_unwritableAll? room xs).succ
    | set xs =>
      rw [unwritable?, tooLong, depth]
      cases xs with
      | nil => exact told_none
      | cons x xs =>
        cases room with
        | zero => exact Nat.succ_lt_succ (Nat.succ_pos _)
        | succ room => exact (told_unwritableAll? room (x :: xs)).succ.succ
    | mapping es =>
      rw [unwritable?, tooLong, depth]
      exact (told_unwritableEntries? room es).succ
    | null | bool | float | text | bytes | date | moment | recurrence => exact told_none

theorem told_unwritableAll? (room : Nat) (xs : List Value) :
    Told room (anyTooLong xs) (depthAll xs) (unwritableAll? room xs) := by
  cases xs with
  | nil => exact ⟨rfl, Nat.zero_le room⟩
  | cons x xs =>
    rw [unwritableAll?, anyTooLong, depthAll]
    exact (told_unwritable? room x).or (told_unwritableAll? room xs)

theorem told_unwritableEntries? (room : Nat) (es : List (Value × Value)) :
    Told room (anyEntryTooLong es) (depthEntries es) (unwritableEntries? room es) := by
  cases es with
  | nil => exact ⟨rfl, Nat.zero_le room⟩
  | cons e es =>
    rw [unwritableEntries?, anyEntryTooLong, depthEntries]
    exact ((told_unwritable? room e.1).or (told_unwritable? room e.2)).or
      (told_unwritableEntries? room es)

end

/-- The values that are written out hold no integer that is too long and are
not too deep. -/
theorem unwritable?_eq_none_iff {v : Value} :
    unwritable? room v = none ↔ tooLong v = false ∧ depth v ≤ room := by
  have htold := told_unwritable? room v
  constructor
  · intro h
    rwa [h] at htold
  · rintro ⟨hlong, hdepth⟩
    cases h : unwritable? room v with
    | none => rfl
    | some u =>
      rw [h] at htold
      cases u with
      | tooLong => exact absurd (hlong.symm.trans htold) (by decide)
      | tooDeep => exact absurd hdepth (Nat.not_le.mpr htold)

/-- Without such integers the depth alone decides. -/
theorem unwritable?_eq_tooDeep_iff {v : Value} (hshort : tooLong v = false) :
    unwritable? room v = some .tooDeep ↔ room < depth v := by
  have htold := told_unwritable? room v
  constructor
  · intro h
    rwa [h] at htold
  · intro hdepth
    cases h : unwritable? room v with
    | none => exact absurd (unwritable?_eq_none_iff.mp h).2 (Nat.not_le.mpr hdepth)
    | some u =>
      rw [h] at htold
      cases u with
      | tooLong => exact absurd (hshort.symm.trans htold) (by decide)
      | tooDeep => rfl

end Value

namespace Settings

/-! ## §2 Conversions -/

/-- The integer that a value is converted to. -/
inductive IntegerOf : Value → Int → Prop
  | no : IntegerOf (.bool false) 0
  | yes : IntegerOf (.bool true) 1
  | int (i : Int) : IntegerOf (.int i) i
  | float {x : Binary64} {q : ℚ} (number : x.standing = .number q) :
    IntegerOf (.float x) (Binary64.cut q)
  | text {t : Text} {i : Int} (numeral : Decimal.Numeral t i) : IntegerOf (.text t) i
  | bytes {bs : Bytes} {i : Int} (ascii : ∀ b ∈ bs, b < 0x80)
    (numeral : Decimal.Numeral (bs.map fun b => .char (Char.ofNat b.toNat)) i) :
    IntegerOf (.bytes bs) i

/-- The choice that a value is converted to. -/
inductive ChoiceOf : Value → Bool → Prop
  | yes {t : Text} (word : Text.toLower (Text.trim t) ∈ yesWords) : ChoiceOf (.text t) true
  | no {t : Text} (word : Text.toLower (Text.trim t) ∉ yesWords) : ChoiceOf (.text t) false
  | other {v : Value} (other : ∀ t, v ≠ .text t) : ChoiceOf v v.truthy

/-- The text that a value is converted to. -/
inductive WordsOf : Value → Text → Prop
  | shown {v : Value} (short : v.tooLong = false) (shallow : v.depth ≤ Value.displayDepth) :
    WordsOf v v.shown

/-- A conversion gives what it should, and stops with a fault at certain values;
these are neither null nor texts. -/
structure Converts {α : Type} (convert : Value → Except Fault (Option α))
    (converts : Value → α → Prop) (fault : Fault) (stops : Value → Prop) : Prop where
  some_iff : ∀ v a, convert v = .ok (some a) ↔ converts v a
  error_iff : ∀ v f, convert v = .error f ↔ f = fault ∧ stops v
  null : ¬stops .null
  text : ∀ t, ¬stops (.text t)

/-- An infinite number. -/
def IsInfinite (v : Value) : Prop := ∃ negative, v = .float (.infinite negative)

theorem asciiText?_eq_some_iff {bs : Bytes} {t : Text} : asciiText? bs = some t ↔
    (∀ b ∈ bs, b < 0x80) ∧ t = bs.map fun b => .char (Char.ofNat b.toNat) := by
  unfold asciiText?
  split
  · rename_i h
    have hascii : ∀ b ∈ bs, b < 0x80 := by simpa using h
    exact ⟨fun heq => ⟨hascii, (Option.some.inj heq).symm⟩, fun heq => by rw [heq.2]⟩
  · rename_i h
    have hascii : ¬∀ b ∈ bs, b < 0x80 := by simpa using h
    exact ⟨nofun, fun heq => absurd heq.1 hascii⟩

theorem toInt?_eq_some_iff (v : Value) (i : Int) : toInt? v = .ok (some i) ↔ IntegerOf v i := by
  constructor
  · intro h
    cases v with
    | bool b =>
      cases h
      cases b with
      | false => exact .no
      | true => exact .yes
    | int j =>
      cases h
      exact .int i
    | float x =>
      cases x with
      | infinite negative => cases h
      | finite negative m e =>
        obtain ⟨q, hq, rfl⟩ := Binary64.truncate?_eq_some_iff.mp (Except.ok.inj h)
        exact .float hq
      | nan => cases Except.ok.inj h
    | text t =>
      have hread := Except.toOption_eq_some_iff.mp (Except.ok.inj h)
      exact .text (Decimal.readInt_eq_ok_iff.mp hread)
    | bytes bs =>
      obtain ⟨t, ht, hread⟩ := Option.bind_eq_some_iff.mp (Except.ok.inj h)
      obtain ⟨hascii, rfl⟩ := asciiText?_eq_some_iff.mp ht
      exact .bytes hascii (Decimal.readInt_eq_ok_iff.mp (Except.toOption_eq_some_iff.mp hread))
    | null | date | moment | list | tuple | set | mapping | recurrence => cases h
  · intro h
    cases h with
    | no | yes | int => rfl
    | @float x q hq =>
      cases x with
      | infinite negative => cases hq
      | finite negative m e =>
        exact congrArg Except.ok (Binary64.truncate?_eq_some_iff.mpr ⟨q, hq, rfl⟩)
      | nan => cases hq
    | text hnumeral =>
      have hread := Decimal.readInt_eq_ok_iff.mpr hnumeral
      exact congrArg Except.ok (Except.toOption_eq_some_iff.mpr hread)
    | bytes hascii hnumeral =>
      rw [toInt?, asciiText?_eq_some_iff.mpr ⟨hascii, rfl⟩, Option.bind_some,
        Decimal.readInt_eq_ok_iff.mpr hnumeral]
      rfl

theorem toInt?_eq_error_iff (v : Value) (f : Fault) :
    toInt? v = .error f ↔ f = .infinite ∧ IsInfinite v := by
  constructor
  · intro h
    cases v with
    | float x =>
      cases x with
      | infinite negative =>
        cases h
        exact ⟨rfl, negative, rfl⟩
      | finite | nan => cases h
    | null | bool | int | text | bytes | date | moment | list | tuple | set | mapping |
      recurrence => cases h
  · rintro ⟨rfl, negative, rfl⟩
    rfl

/-- Numbers, and the texts and bytes that write one, are converted to integers. -/
theorem converts_int : Converts toInt? IntegerOf .infinite IsInfinite where
  some_iff := toInt?_eq_some_iff
  error_iff := toInt?_eq_error_iff
  null := fun ⟨_, h⟩ => by cases h
  text := fun t ⟨_, h⟩ => by cases h

theorem toFlag_eq_iff (v : Value) (b : Bool) : toFlag v = b ↔ ChoiceOf v b := by
  constructor
  · rintro rfl
    cases v with
    | text t =>
      rw [toFlag]
      cases h : yesWords.contains (Text.toLower (Text.trim t)) with
      | false => exact .no (by simpa using h)
      | true => exact .yes (by simpa using h)
    | null | bool | int | float | bytes | date | moment | list | tuple | set | mapping |
      recurrence => exact .other nofun
  · rintro (⟨hword⟩ | ⟨hword⟩ | ⟨hother⟩)
    · simpa [toFlag] using hword
    · simpa [toFlag] using hword
    · cases v with
      | text t => exact absurd rfl (hother t)
      | null | bool | int | float | bytes | date | moment | list | tuple | set | mapping |
        recurrence => rfl

/-- Every value is converted to a choice, and none stops the program. -/
theorem converts_flag (fault : Fault) :
    Converts (fun v => .ok (some (toFlag v))) ChoiceOf fault fun _ => False where
  some_iff v b := by rw [Except.ok.injEq, Option.some_inj, toFlag_eq_iff]
  error_iff _ _ := ⟨nofun, fun h => h.2.elim⟩
  null := id
  text _ := id

/-- The fault of values that are too deep inside each other to be written out. -/
def bottomless : Fault := .tooDeep " while getting the repr of an object"

/-- A value that is found to be too deep on the way through it. -/
def IsBottomless (v : Value) : Prop := v.unwritable? Value.displayDepth = some .tooDeep

/-- Values without integers that are too long are converted to texts, if they
are not too deep. -/
theorem converts_words : Converts toWords? WordsOf bottomless IsBottomless where
  some_iff v t := by
    unfold toWords?
    cases h : v.unwritable? Value.displayDepth with
    | none =>
      obtain ⟨hshort, hshallow⟩ := Value.unwritable?_eq_none_iff.mp h
      constructor
      · rintro ⟨⟩
        exact .shown hshort hshallow
      · rintro ⟨⟩
        rfl
    | some u =>
      have hnot : ¬WordsOf v t := by
        rintro ⟨hshort, hshallow⟩
        rw [Value.unwritable?_eq_none_iff.mpr ⟨hshort, hshallow⟩] at h
        cases h
      cases u <;> exact ⟨nofun, fun h => absurd h hnot⟩
  error_iff v f := by
    unfold toWords? IsBottomless
    split
    · rename_i h
      exact ⟨nofun, fun hf => by rw [h] at hf; cases hf.2⟩
    · rename_i h
      exact ⟨nofun, fun hf => by rw [h] at hf; cases hf.2⟩
    · rename_i h
      exact ⟨fun hf => ⟨(Except.error.inj hf).symm, h⟩, fun hf => congrArg Except.error hf.1.symm⟩
  null := nofun
  text _ := nofun

/-! ## §3 One setting -/

variable {environment : Text → Option Text} {es : List (Value × Value)} {α : Type} {key : String}
  {default : α} {convert : Value → Except Fault (Option α)} {converts : Value → α → Prop}
  {fault : Fault} {stops : Value → Prop}

/-- What a setting is: the environment comes before the settings file, and the
default is for what is not given, null or not converted. -/
inductive Resolved (environment : Text → Option Text) (es : List (Value × Value))
    (converts : Value → α → Prop) (key : String) (default : α) : α → Prop
  | environment {t : Text} {a : α} (given : environment (variableName key) = some t)
    (converted : converts (.text t) a) : Resolved environment es converts key default a
  | spoiled {t : Text} (given : environment (variableName key) = some t)
    (unconverted : ∀ a, ¬converts (.text t) a) : Resolved environment es converts key default default
  | file {v : Value} {a : α} (unset : environment (variableName key) = none)
    (given : Value.field? es key = some v) (some : v ≠ .null) (converted : converts v a) :
    Resolved environment es converts key default a
  | default (unset : environment (variableName key) = none)
    (unconverted : ∀ v, Value.field? es key = some v → v ≠ .null → ∀ a, ¬converts v a) :
    Resolved environment es converts key default default

/-- The settings file gives a value for a key that is looked at. -/
def Stops (environment : Text → Option Text) (es : List (Value × Value)) (stops : Value → Prop)
    (key : String) : Prop :=
  environment (variableName key) = none ∧ ∃ v, Value.field? es key = some v ∧ stops v

/-- What is given for a setting, converted. -/
def Source.resolve (s : Source) (convert : Value → Except Fault (Option α)) (key : String)
    (default : α) : Except Fault α := do
  match ← s.find key with
  | none => return default
  | some v => return (← convert v).getD default

variable {s : Source}

theorem find_of_environment {t : Text} (h : environment (variableName key) = some t) :
    Source.find ⟨environment, .mapping es⟩ key = .ok (some (.text t)) := by
  simp only [Source.find, h]

theorem find_of_file {v : Value} (hunset : environment (variableName key) = none)
    (hgiven : Value.field? es key = some v) (hsome : v ≠ .null) :
    Source.find ⟨environment, .mapping es⟩ key = .ok (some v) := by
  have htruthy : (Value.mapping es).truthy = true := by
    cases es with
    | nil => cases hgiven
    | cons e es => rfl
  simp only [Source.find, hunset, htruthy, hgiven, Bool.not_true, Bool.false_eq_true, if_false]
  split
  · rename_i h
    exact absurd (Option.some.inj h) hsome
  · rfl

theorem find_of_nothing (hunset : environment (variableName key) = none)
    (hnothing : ∀ v, Value.field? es key = some v → v = .null) :
    Source.find ⟨environment, .mapping es⟩ key = .ok none := by
  simp only [Source.find, hunset]
  split
  · rfl
  · split
    · rfl
    · rename_i hnull
      cases h : Value.field? es key with
      | none => rfl
      | some v => exact absurd (hnothing v h ▸ h) hnull

theorem resolve_of_nothing (h : s.find key = .ok none) :
    s.resolve convert key default = .ok default := by
  rw [Source.resolve, h]
  rfl

theorem resolve_of_some {v : Value} (h : s.find key = .ok (some v)) :
    s.resolve convert key default = (convert v).map fun a => a.getD default := by
  rw [Source.resolve, h]
  show (convert v >>= fun a => pure (a.getD default)) = _
  cases convert v <;> rfl

/-- What a conversion may come to. -/
theorem Converts.cases (h : Converts convert converts fault stops) (v : Value) :
    (stops v ∧ convert v = .error fault) ∨
    (¬stops v ∧ ((∃ a, converts v a ∧ convert v = .ok (some a)) ∨
      ((∀ a, ¬converts v a) ∧ convert v = .ok none))) := by
  cases hv : convert v with
  | error f =>
    obtain ⟨rfl, hstops⟩ := (h.error_iff v f).mp hv
    exact .inl ⟨hstops, rfl⟩
  | ok o =>
    have hnot : ¬stops v := fun hstops => by
      rw [(h.error_iff v fault).mpr ⟨rfl, hstops⟩] at hv
      cases hv
    cases o with
    | none =>
      refine .inr ⟨hnot, .inr ⟨fun a ha => ?_, rfl⟩⟩
      rw [(h.some_iff v a).mpr ha] at hv
      cases hv
    | some a => exact .inr ⟨hnot, .inl ⟨a, (h.some_iff v a).mp hv, rfl⟩⟩

/-- A setting stops the program where the settings file gives such a value, and
is resolved where it gives none. -/
theorem resolve_cases (h : Converts convert converts fault stops) (environment : Text → Option Text)
    (es : List (Value × Value)) (key : String) (default : α) :
    (Stops environment es stops key ∧
      Source.resolve ⟨environment, .mapping es⟩ convert key default = .error fault) ∨
    (¬Stops environment es stops key ∧
      ∃ a, Source.resolve ⟨environment, .mapping es⟩ convert key default = .ok a ∧
        Resolved environment es converts key default a) := by
  cases hunset : environment (variableName key) with
  | some t =>
    have hnot : ¬Stops environment es stops key := fun hstops => by
      rw [hstops.1] at hunset
      cases hunset
    refine .inr ⟨hnot, ?_⟩
    rw [resolve_of_some (find_of_environment hunset)]
    obtain ⟨hstops, -⟩ | ⟨-, ⟨a, ha, hconvert⟩ | ⟨hnone, hconvert⟩⟩ := h.cases (.text t)
    · exact absurd hstops (h.text t)
    · exact ⟨a, by rw [hconvert]; rfl, .environment hunset ha⟩
    · exact ⟨default, by rw [hconvert]; rfl, .spoiled hunset hnone⟩
  | none =>
    by_cases hgiven : ∃ v, Value.field? es key = some v ∧ v ≠ .null
    · obtain ⟨v, hv, hsome⟩ := hgiven
      have honly {w : Value} (hw : Value.field? es key = some w) : w = v :=
        Option.some.inj (hw.symm.trans hv)
      rw [resolve_of_some (find_of_file hunset hv hsome)]
      obtain ⟨hstops, hconvert⟩ | ⟨hnot, hrest⟩ := h.cases v
      · exact .inl ⟨⟨hunset, v, hv, hstops⟩, by rw [hconvert]; rfl⟩
      · refine .inr ⟨fun ⟨_, w, hw, hstops⟩ => hnot (honly hw ▸ hstops), ?_⟩
        obtain ⟨a, ha, hconvert⟩ | ⟨hnone, hconvert⟩ := hrest
        · exact ⟨a, by rw [hconvert]; rfl, .file hunset hv hsome ha⟩
        · exact ⟨default, by rw [hconvert]; rfl, .default hunset fun w hw _ => honly hw ▸ hnone⟩
    · have hnothing : ∀ v, Value.field? es key = some v → v = .null := fun v hv =>
        by_contra fun hsome => hgiven ⟨v, hv, hsome⟩
      refine .inr ⟨fun ⟨_, v, hv, hstops⟩ => h.null (hnothing v hv ▸ hstops), default, ?_, ?_⟩
      · exact resolve_of_nothing (find_of_nothing hunset hnothing)
      · exact .default hunset fun v hv hsome => absurd (hnothing v hv) hsome

/-- What is given for a setting determines it. -/
theorem Resolved.unique (h : Converts convert converts fault stops) {a b : α}
    (ha : Resolved environment es converts key default a)
    (hb : Resolved environment es converts key default b) : a = b := by
  have hsame {v : Value} {a b : α} (ha : converts v a) (hb : converts v b) : a = b := by
    have heq := ((h.some_iff v a).mpr ha).symm.trans ((h.some_iff v b).mpr hb)
    exact Option.some.inj (Except.ok.inj heq)
  cases ha with
  | environment given converted =>
    cases hb with
    | environment given' converted' =>
      cases Option.some.inj (given.symm.trans given')
      exact hsame converted converted'
    | spoiled given' unconverted =>
      cases Option.some.inj (given.symm.trans given')
      exact absurd converted (unconverted a)
    | file unset | default unset => cases unset.symm.trans given
  | spoiled given unconverted =>
    cases hb with
    | environment given' converted =>
      cases Option.some.inj (given.symm.trans given')
      exact absurd converted (unconverted b)
    | spoiled => rfl
    | file unset | default unset => cases unset.symm.trans given
  | file unset given some converted =>
    cases hb with
    | environment given' | spoiled given' => cases unset.symm.trans given'
    | file _ given' _ converted' =>
      cases Option.some.inj (given.symm.trans given')
      exact hsame converted converted'
    | default _ unconverted => exact absurd converted (unconverted _ given some a)
  | default unset unconverted =>
    cases hb with
    | environment given' | spoiled given' => cases unset.symm.trans given'
    | file _ given some converted => exact absurd converted (unconverted _ given some b)
    | default => rfl

/-! ## §4 All settings -/

/-- The settings that are integers. -/
def integerSettings : List (String × (Settings → Int)) :=
  [("hint_window", hintWindow), ("edit_context_lines", editContextLines),
    ("diff_context_before", diffContextBefore), ("diff_context_after", diffContextAfter),
    ("create_preview_lines", createPreviewLines)]

/-- The settings that are choices. -/
def choiceSettings : List (String × (Settings → Bool)) :=
  [("single_block_notice", singleBlockNotice), ("record_metrics", recordMetrics)]

/-- The settings that are texts. -/
def textSettings : List (String × (Settings → Text)) :=
  [("metrics_dir", metricsDir), ("log_dir", logDir)]

/-- Each setting is what is given for it, with the standard one as its default. -/
structure ResolvedFrom (environment : Text → Option Text) (es : List (Value × Value))
    (c : Settings) : Prop where
  integers : ∀ s ∈ integerSettings, Resolved environment es IntegerOf s.1 (s.2 {}) (s.2 c)
  choices : ∀ s ∈ choiceSettings, Resolved environment es ChoiceOf s.1 (s.2 {}) (s.2 c)
  texts : ∀ s ∈ textSettings, Resolved environment es WordsOf s.1 (s.2 {}) (s.2 c)

/-- The settings file gives an infinite number for an integer. -/
def GivesInfinite (environment : Text → Option Text) (es : List (Value × Value)) : Prop :=
  ∃ s ∈ integerSettings, Stops environment es IsInfinite s.1

/-- The settings file gives a value that is too deep for a text. -/
def GivesBottomless (environment : Text → Option Text) (es : List (Value × Value)) : Prop :=
  ∃ s ∈ textSettings, Stops environment es IsBottomless s.1

theorem int_cases (environment : Text → Option Text) (es : List (Value × Value)) (key : String)
    (default : Int) :
    (Stops environment es IsInfinite key ∧
      Source.int ⟨environment, .mapping es⟩ key default = .error .infinite) ∨
    (¬Stops environment es IsInfinite key ∧
      ∃ i, Source.int ⟨environment, .mapping es⟩ key default = .ok i ∧
        Resolved environment es IntegerOf key default i) :=
  resolve_cases converts_int environment es key default

theorem flag_resolved (environment : Text → Option Text) (es : List (Value × Value)) (key : String)
    (default : Bool) :
    ∃ b, Source.flag ⟨environment, .mapping es⟩ key default = .ok b ∧
      Resolved environment es ChoiceOf key default b := by
  obtain ⟨⟨-, -, -, hstops⟩, -⟩ | ⟨-, hresolved⟩ :=
    resolve_cases (converts_flag bottomless) environment es key default
  · exact hstops.elim
  · exact hresolved

theorem words_cases (environment : Text → Option Text) (es : List (Value × Value)) (key : String)
    (default : Text) :
    (Stops environment es IsBottomless key ∧
      Source.words ⟨environment, .mapping es⟩ key default = .error bottomless) ∨
    (¬Stops environment es IsBottomless key ∧
      ∃ t, Source.words ⟨environment, .mapping es⟩ key default = .ok t ∧
        Resolved environment es WordsOf key default t) :=
  resolve_cases converts_words environment es key default

/-- All settings are what is given for them, the program being stopped only by
an infinite number for an integer or by a value too deep for a text. -/
theorem ofSource_cases (environment : Text → Option Text) (es : List (Value × Value)) :
    (GivesInfinite environment es ∧ ofSource ⟨environment, .mapping es⟩ = .error .infinite) ∨
    (¬GivesInfinite environment es ∧ GivesBottomless environment es ∧
      ofSource ⟨environment, .mapping es⟩ = .error bottomless) ∨
    (¬GivesInfinite environment es ∧ ¬GivesBottomless environment es ∧
      ∃ c, ofSource ⟨environment, .mapping es⟩ = .ok c ∧ ResolvedFrom environment es c) := by
  have hinfinite (k : Fin 5) (h : Stops environment es IsInfinite (integerSettings.get k).1) :
      GivesInfinite environment es := ⟨_, List.get_mem integerSettings k, h⟩
  have hbottomless (k : Fin 2) (h : Stops environment es IsBottomless (textSettings.get k).1) :
      GivesBottomless environment es := ⟨_, List.get_mem textSettings k, h⟩
  -- The settings are found in order, so the first that stops the program is told.
  obtain ⟨hstops, h⟩ | ⟨n₁, i₁, h₁, r₁⟩ :=
    int_cases environment es "hint_window" (hintWindow {})
  · exact .inl ⟨hinfinite 0 hstops, by rw [ofSource, h]; rfl⟩
  obtain ⟨hstops, h⟩ | ⟨n₂, i₂, h₂, r₂⟩ :=
    int_cases environment es "edit_context_lines" (editContextLines {})
  · exact .inl ⟨hinfinite 1 hstops, by rw [ofSource, h₁, h]; rfl⟩
  obtain ⟨hstops, h⟩ | ⟨n₃, i₃, h₃, r₃⟩ :=
    int_cases environment es "diff_context_before" (diffContextBefore {})
  · exact .inl ⟨hinfinite 2 hstops, by rw [ofSource, h₁, h₂, h]; rfl⟩
  obtain ⟨hstops, h⟩ | ⟨n₄, i₄, h₄, r₄⟩ :=
    int_cases environment es "diff_context_after" (diffContextAfter {})
  · exact .inl ⟨hinfinite 3 hstops, by rw [ofSource, h₁, h₂, h₃, h]; rfl⟩
  obtain ⟨hstops, h⟩ | ⟨n₅, i₅, h₅, r₅⟩ :=
    int_cases environment es "create_preview_lines" (createPreviewLines {})
  · exact .inl ⟨hinfinite 4 hstops, by rw [ofSource, h₁, h₂, h₃, h₄, h]; rfl⟩
  have hfinite : ¬GivesInfinite environment es := by
    simpa [GivesInfinite, integerSettings] using ⟨n₁, n₂, n₃, n₄, n₅⟩
  obtain ⟨b₆, h₆, r₆⟩ := flag_resolved environment es "single_block_notice" (singleBlockNotice {})
  obtain ⟨b₇, h₇, r₇⟩ := flag_resolved environment es "record_metrics" (recordMetrics {})
  obtain ⟨hstops, h⟩ | ⟨n₈, t₈, h₈, r₈⟩ := words_cases environment es "metrics_dir" (metricsDir {})
  · exact .inr (.inl ⟨hfinite, hbottomless 0 hstops,
      by rw [ofSource, h₁, h₂, h₃, h₄, h₅, h₆, h₇, h]; rfl⟩)
  obtain ⟨hstops, h⟩ | ⟨n₉, t₉, h₉, r₉⟩ := words_cases environment es "log_dir" (logDir {})
  · exact .inr (.inl ⟨hfinite, hbottomless 1 hstops,
      by rw [ofSource, h₁, h₂, h₃, h₄, h₅, h₆, h₇, h₈, h]; rfl⟩)
  have hshallow : ¬GivesBottomless environment es := by
    simpa [GivesBottomless, textSettings] using ⟨n₈, n₉⟩
  refine .inr (.inr ⟨hfinite, hshallow, ⟨i₁, i₂, i₃, i₄, i₅, b₆, b₇, t₈, t₉⟩,
    by rw [ofSource, h₁, h₂, h₃, h₄, h₅, h₆, h₇, h₈, h₉]; rfl, ?_, ?_, ?_⟩)
  · simpa [integerSettings] using ⟨r₁, r₂, r₃, r₄, r₅⟩
  · simpa [choiceSettings] using ⟨r₆, r₇⟩
  · simpa [textSettings] using ⟨r₈, r₉⟩

/-- An infinite number in a settings file stops the program. -/
theorem infinite_window_stops : ofSource ⟨fun _ => none,
    .mapping [(.ofString "hint_window", .float (.infinite false))]⟩ = .error .infinite := by
  decide +kernel

end Settings

end Amend
