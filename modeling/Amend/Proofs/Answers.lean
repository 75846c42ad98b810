/-
Amend.Proofs.Answers — calls that get an answer.

A call that ends without a result ends in a fault, and it is always one of
these (`Tool.Unanswered`): a number of too many digits to be written or read, a
value too deep to be written out, a surrogate that has no bytes in a text for
the file, or a log whose path no system has. Every other failure on the way
becomes a result of failure with a code. A store in memory has no part in this,
since it refuses no path for its name (`NamedStore`).

  §1 Refusals of a store.
  §2 Texts that cannot be written.
  §3 Faults of a request.
  §4 Calls.
  §5 Hints of many digits.
-/
import Mathlib.Data.List.TakeWhile
import Amend.Proofs.Disks
import Amend.Proofs.Footprint
import Amend.Proofs.Resolving
import Amend.Proofs.Tokens
import Amend.Proofs.Writing

namespace Amend

/-! ## §1 Refusals of a store -/

/-- The refusal of the file operation that an event is. -/
def Event.refusal? : Event → Option FileError
  | .read _ (.error e) | .write _ _ (.error e) | .makeDirs _ (.error e) => some e
  | _ => none

/-- A store in which any text can name a file, whatever else it refuses. -/
class NamedStore (σ : Type) [FileStore (StateM σ)] : Prop where
  refusal_kind : ∀ {ev : Event} {t t' : σ} {e : FileError}, ev.Moves t t' →
    ev.refusal? = some e → e.kind ≠ .invalidPath

theorem FileError.system_kind_ne (number : Int) (words path : Text) (target : Option Text) :
    (system number words path target).kind ≠ .invalidPath := by
  have hbranch {P : Prop} [Decidable P] {k l : FileErrorKind} (hk : k ≠ .invalidPath)
      (hl : l ≠ .invalidPath) : (if P then k else l) ≠ .invalidPath := by
    split
    · exact hk
    · exact hl
  rw [kind]
  repeat' refine hbranch ?_ ?_
  all_goals exact nofun

instance : NamedStore Memory where
  refusal_kind {ev t t' e} hmoves hrefusal := by
    cases ev with
    | read path got =>
      cases got with
      | ok _ => cases hrefusal
      | error e' =>
        obtain rfl := Option.some.inj hrefusal
        have hread : t.read path = .error e' := congrArg Prod.fst hmoves
        unfold Memory.read at hread
        split at hread
        · cases hread
        · cases hread
          exact nofun
    | write path content got =>
      obtain rfl : got = .ok () := (congrArg Prod.fst hmoves).symm
      cases hrefusal
    | makeDirs path got =>
      obtain rfl : got = .ok () := (congrArg Prod.fst hmoves).symm
      cases hrefusal
    | _ => cases hrefusal

variable {σ : Type} [FileStore (StateM σ)]

omit [FileStore (StateM σ)] in
theorem Faulty.guarded_error {α : Type} {fault : Faults → Option (Int × Text)} {path : Text}
    {x : StateM σ (Except FileError α)} {t t' : Faulty σ} {e : FileError}
    (h : (guarded fault path x).run t = (.error e, t')) :
    e.kind ≠ .invalidPath ∨ x.run t.store = (.error e, t'.store) := by
  rw [guarded_run] at h
  split at h
  · cases h
    exact .inl (FileError.system_kind_ne _ _ _ _)
  · rw [Prod.mk.injEq] at h
    obtain ⟨hout, rfl⟩ := h
    exact .inr (Prod.ext hout rfl)

/-- Faults that are put into a store have numbers of the system. -/
instance [NamedStore σ] : NamedStore (Faulty σ) where
  refusal_kind {ev t t' e} hmoves hrefusal := by
    have beneath {v : Event} {u : σ} (hmoves : e.kind ≠ .invalidPath ∨ v.Moves t.store u)
        (hv : v.refusal? = some e) : e.kind ≠ .invalidPath :=
      hmoves.elim id fun h => NamedStore.refusal_kind h hv
    cases ev with
    | read path got =>
      cases got with
      | ok _ => cases hrefusal
      | error e' =>
        obtain rfl := Option.some.inj hrefusal
        exact beneath (v := .read path (.error e')) (Faulty.guarded_error hmoves) rfl
    | write path content got =>
      cases got with
      | ok _ => cases hrefusal
      | error e' =>
        obtain rfl := Option.some.inj hrefusal
        exact beneath (v := .write path content (.error e')) (Faulty.guarded_error hmoves) rfl
    | makeDirs path got =>
      cases got with
      | ok _ => cases hrefusal
      | error e' =>
        obtain rfl := Option.some.inj hrefusal
        exact beneath (v := .makeDirs path (.error e')) (Faulty.guarded_error hmoves) rfl
    | _ => cases hrefusal

/-- An attempt that ends with a refused file operation ends there. -/
theorem Course.refusal {place : Text} {absent : Refusal} {decide : Bytes → Decision}
    {es : List Event} {e : FileError} (h : Course place absent decide es (.error (.file e)))
    (hdecide : ∀ raw, decide raw ≠ .refuse (.file e)) : ∃ ev ∈ es, ev.refusal? = some e := by
  cases h with
  | unread => exact ⟨_, .tail _ (.head _), rfl⟩
  | refused decided => exact absurd decided (hdecide _)
  | unwritten =>
    exact ⟨_, .tail _ (.tail _ (.tail _ (.tail _ (.head _)))), rfl⟩

theorem EditTool.Creation.refusal {w : Workplace} {r : Request} {place : Text} {es : List Event}
    {e : FileError} (h : Creation w r place es (.error (.file e))) :
    ∃ ev ∈ es, ev.refusal? = some e := by
  cases h with
  | undirected => exact ⟨_, .tail _ (.tail _ (.head _)), rfl⟩
  | unwritten => exact ⟨_, .tail _ (.tail _ (.tail _ (.head _))), rfl⟩

/-! ## §2 Texts that cannot be written -/

namespace Utf8.Unencodable

variable {u : Unencodable}

/-- The surrogate that has no bytes is one of a text. -/
def From (u : Unencodable) (t : Text) : Prop := ∃ s ∈ t, s.isLone = true ∧ s.code = u.code

theorem From.of_normalize {t : Text} (h : u.From (LineEnding.normalize t)) : u.From t := by
  obtain ⟨s, hs, hlone, hcode⟩ := h
  have hne : s ≠ cr := fun hcr => by cases hcr ▸ hlone
  exact ⟨s, (LineEnding.mem_normalize_iff hne).mp hs, hlone, hcode⟩

/-- What keeps a text from being written, with its lines ending in some way, is
one of the surrogates in it. -/
theorem From.of_restore {t : Text} {e : LineEnding}
    (h : tryEncode (LineEnding.restore t e) = .error u) : u.From t := by
  obtain ⟨s, hs, hlone, hcode⟩ := exists_lone_of_tryEncode h
  have hne : s ≠ cr := fun hcr => by cases hcr ▸ hlone
  exact ⟨s, (LineEnding.mem_restore_iff hne).mp hs, hlone, hcode⟩

/-- Such a surrogate comes from what was put into a text that can be written. -/
theorem From.of_replaced {content t : Text} {pos : Nat} {ps : List (Span × Text)}
    (hreplaced : Replaced pos content ps t) (hcontent : Encodable content) (h : u.From t) :
    ∃ p ∈ ps, u.From p.2 := by
  obtain ⟨s, hs, hlone, hcode⟩ := h
  obtain hold | ⟨p, hp, hnew⟩ := hreplaced.mem_or_mem hs
  · rw [hcontent s hold] at hlone
    cases hlone
  · exact ⟨p, hp, s, hnew, hlone, hcode⟩

end Utf8.Unencodable

/-- What an edit decides to write cannot be written only for its replacement. -/
theorem EditTool.from_replacement {w : Workplace} {r : Request} {raw : Bytes}
    {u : Utf8.Unencodable} {note : Record} {answer : ToolResult}
    (h : decide w r raw = .rewrite (.error u) note answer) : u.From r.replacement := by
  obtain ⟨e, hresolve, -, hcontent⟩ := of_decide_rewrite h
  have hfrom := Utf8.Unencodable.From.of_restore hcontent.symm
  rw [(resolveEdit_ok hresolve).2] at hfrom
  obtain ⟨p, hp, hnew⟩ := Utf8.Unencodable.From.of_replaced
    (Text.replaceAll_replaced (Strategy.matcher_bounded _ _) _ _) (encodable_contentOf raw) hfrom
  obtain ⟨o, -, rfl⟩ := List.mem_map.mp hp
  exact .of_normalize hnew

/-- What is decided to be written for blocks cannot be written only for the
replacement of one of them. -/
theorem DiffTool.from_replacement {w : Workplace} {r : Request} {raw : Bytes}
    {u : Utf8.Unencodable} {note : Record} {answer : ToolResult}
    (h : decide w r raw = .rewrite (.error u) note answer) :
    ∃ b ∈ r.blocks, u.From b.replacement := by
  obtain ⟨-, hcontent, -⟩ := of_decide_rewrite h
  have hsel := selection_placements (contentOf raw) w.settings.hintWindow r.blocks
  obtain ⟨p, hp, hnew⟩ := Utf8.Unencodable.From.of_replaced hsel.spliceAll_replaced
    (encodable_contentOf raw) (.of_restore hcontent.symm)
  obtain ⟨q, hq, rfl⟩ := List.mem_map.mp hp
  obtain ⟨b, hb, -, hreplacement⟩ := hsel.located q ((inOrder_perm _).mem_iff.mp hq)
  rw [hreplacement] at hnew
  exact ⟨b, List.mem_of_getElem? hb, .of_normalize hnew⟩

/-! ## §3 Faults of a request -/

namespace EditTool

/-- A number as it is taken where occurrences are counted: a whole one that
is written with a point is an integer. -/
def taken : Value → Value
  | .float x => if x.isInteger then (x.truncate?).elim .null .int else .float x
  | v => v

/-- The number of occurrences that is asked for has too many digits to be
written. -/
def LongCount (fields : List (Value × Value)) : Prop :=
  ∃ v, Value.field? fields "expected_replacements" = some v ∧ (taken v).tooLong = true

/-- What stands for the number of occurrences is too deep to be written out. -/
def DeepCount (fields : List (Value × Value)) : Prop :=
  ∃ v, Value.field? fields "expected_replacements" = some v ∧ Value.displayDepth < v.depth

/-- The faults that the number of occurrences can end in. -/
inductive CountFault (fields : List (Value × Value)) : Fault → Prop
  | long (long : LongCount fields) : CountFault fields .tooLongNumber
  | deep (deep : DeepCount fields) : CountFault fields Settings.bottomless

theorem depth_taken (v : Value) : (taken v).depth = v.depth := by
  cases v with
  | float x =>
    rw [taken]
    split
    · cases x.truncate? <;> rfl
    · rfl
  | _ => rfl

theorem expectedCount_taken {v : Value} (h : v ≠ .null) :
    expectedCount (some v) = expectedCount.positive (taken v) := by
  cases v with
  | null => exact absurd rfl h
  | float x =>
    unfold expectedCount taken
    dsimp only
    split <;> rfl
  | _ => rfl

theorem positive_cases (v : Value) :
    (∃ n : Nat, v = .int n ∧ expectedCount.positive v = pure n) ∨
      expectedCount.positive v = expectedCount.invalid v := by
  rw [expectedCount.positive.eq_def]
  split
  · exact .inl ⟨_, rfl, rfl⟩
  · exact .inr rfl

/-- A value that is no number is named in the refusal, unless it cannot be
written out. -/
theorem invalid_fault {v : Value} {f : Fault} (h : expectedCount.invalid v = throw (.fault f)) :
    (v.tooLong = true ∧ f = .tooLongNumber) ∨
      (Value.displayDepth < v.depth ∧ f = Settings.bottomless) := by
  have htold := Value.told_unwritable? Value.displayDepth v
  unfold expectedCount.invalid at h
  split at h
  · cases h
  · rename_i why hwhy
    rw [hwhy] at htold
    cases h
    cases why with
    | tooLong => exact .inl ⟨htold, rfl⟩
    | tooDeep => exact .inr ⟨htold, rfl⟩

theorem expectedCount_fault {fields : List (Value × Value)} {f : Fault}
    (h : expectedCount (Value.field? fields "expected_replacements") = throw (.fault f)) :
    CountFault fields f := by
  cases hv : Value.field? fields "expected_replacements" with
  | none =>
    rw [hv] at h
    cases h
  | some v =>
    rw [hv] at h
    by_cases hnull : v = .null
    · subst hnull
      cases h
    · rw [expectedCount_taken hnull] at h
      obtain ⟨n, -, hn⟩ | hinvalid := positive_cases (taken v)
      · rw [hn] at h
        cases h
      · rw [hinvalid] at h
        obtain ⟨hlong, rfl⟩ | ⟨hdeep, rfl⟩ := invalid_fault h
        · exact .long ⟨v, hv, hlong⟩
        · exact .deep ⟨v, hv, depth_taken v ▸ hdeep⟩

theorem taken_of_expectedCount {v : Option Value} {n : Nat} (h : expectedCount v = pure n) :
    n = 1 ∨ ∃ v', v = some v' ∧ taken v' = .int n := by
  cases v with
  | none =>
    cases h
    exact .inl rfl
  | some v =>
    by_cases hnull : v = .null
    · subst hnull
      cases h
      exact .inl rfl
    · rw [expectedCount_taken hnull] at h
      obtain ⟨k, hv, hk⟩ | hinvalid := positive_cases (taken v)
      · rw [hk] at h
        cases h
        exact .inr ⟨v, rfl, hv⟩
      · rw [hinvalid] at h
        unfold expectedCount.invalid at h
        split at h
        · cases h
        · cases h

/-- Of what a request to edit gives, only the number of occurrences can end in
a fault. -/
theorem countFault_of_fault {fields : List (Value × Value)} {f : Fault}
    (h : readRequest fields = throw (.fault f)) : CountFault fields f := by
  obtain ⟨path, search, replacement, -, -, hread⟩ | ⟨r, hread⟩ := readRequest_cases fields
  · obtain ⟨n, -, hn⟩ | ⟨why, hwhy, -⟩ :=
      expectedCount_eq (Value.field? fields "expected_replacements")
    · rw [hn, pure_bind, h] at hread
      cases hread
    · rw [hwhy, Step.throw_bind, h] at hread
      cases hread
      exact expectedCount_fault hwhy
  · cases h.symm.trans hread

/-- A request that is read has the replacement and the number of occurrences
that its fields give. -/
theorem fields_of_readRequest {fields : List (Value × Value)} {r : Request}
    (h : readRequest fields = pure r) :
    Value.field? fields "new_string" = some (.text r.replacement) ∧
      expectedCount (Value.field? fields "expected_replacements") = pure r.expected := by
  obtain ⟨r', hr', -, hreplacement, hcount, -⟩ | ⟨why, hwhy, -⟩ := readRequest_eq fields
  · rw [readRequest_injective h hr']
    exact ⟨hreplacement, hcount⟩
  · cases h.symm.trans hwhy

theorem longCount_of_expected {fields : List (Value × Value)} {r : Request}
    (h : readRequest fields = pure r) (hlong : (Value.int r.expected).tooLong = true) :
    LongCount fields := by
  obtain hone | ⟨v, hv, htaken⟩ := taken_of_expectedCount (fields_of_readRequest h).2
  · rw [hone] at hlong
    cases hlong
  · exact ⟨v, hv, by rw [htaken]; exact hlong⟩

theorem expected_of_resolveEdit {content search replacement : Text} {expected : Int}
    {m : Mismatch} (h : resolveEdit content search replacement expected = .error m) :
    m.expected = expected := by
  unfold resolveEdit findMatches at h
  dsimp only at h
  split at h
  · cases h
  · split at h
    · cases h
    · split at h
      · cases h
      · cases h
        rfl

theorem decide_ne_file (w : Workplace) (r : Request) (raw : Bytes) (e : FileError) :
    decide w r raw ≠ .refuse (.file e) := by
  intro h
  unfold decide at h
  dsimp only at h
  split at h
  · have hfailure : mismatchFailure r.path _ = .file e := Decision.refuse.inj h
    unfold mismatchFailure at hfailure
    split at hfailure
    · cases hfailure
    · cases hfailure
  · split at h
    · cases h
    · cases h

/-- That no strategy finds the number of places asked for ends in a fault only
if the number cannot be written. -/
theorem longCount_of_decide {w : Workplace} {fields : List (Value × Value)} {r : Request}
    {raw : Bytes} {f : Fault} (h : readRequest fields = pure r)
    (hdecide : decide w r raw = .refuse (.fault f)) : f = .tooLongNumber ∧ LongCount fields := by
  unfold decide at hdecide
  dsimp only at hdecide
  split at hdecide
  · rename_i m hm
    have hfailure : mismatchFailure r.path m = .fault f := Decision.refuse.inj hdecide
    unfold mismatchFailure at hfailure
    split at hfailure
    · cases hfailure
    · rename_i hshown
      rw [expected_of_resolveEdit hm] at hshown
      have hlong : (Value.int r.expected).tooLong = true := by
        by_contra hshort
        simp [Value.display?, hshort] at hshown
      cases hfailure
      exact ⟨rfl, longCount_of_expected h hlong⟩
  · split at hdecide
    · cases hdecide
    · cases hdecide

end EditTool

/-- A request is refused for a hint exactly if such a hint stands after a SEARCH
line, behind parts that are as they should be. -/
theorem readBlocks_eq_longHint_iff {request : Text} {digits : Nat} :
    readBlocks request = .error (.longHint digits) ↔ ∃ ps opening l ls ds,
      Text.lines (LineEnding.normalize request) = partLines ps ++ opening :: l :: ls ∧
        Marker.search.on opening = true ∧ hintDigits? l = some ds ∧ digitLimit < ds.length ∧
        digits = ds.length := by
  have hne : BlockError.longHint digits ≠ .noBlocks := nofun
  rw [readBlocks_eq_flaw_iff hne]
  constructor
  · rintro ⟨ps, opening, rest, hlines, hopening, hflaw⟩
    cases hflaw with
    | @longHint l ls ds hdigits hlong =>
      exact ⟨ps, opening, l, ls, ds, hlines, hopening, hdigits, hlong, rfl⟩
  · rintro ⟨ps, opening, l, ls, ds, hlines, hopening, hdigits, hlong, rfl⟩
    exact ⟨ps, opening, l :: ls, hlines, hopening, .longHint hdigits hlong⟩

namespace DiffTool

theorem readRequest_of_longHint {fields : List (Value × Value)} {path diff : Text} {digits : Nat}
    (hpath : Value.field? fields "file_path" = some (.text path)) (hname : Text.trim path ≠ [])
    (hdiff : Value.field? fields "diff" = some (.text diff)) (hsome : Text.trim diff ≠ [])
    (hhint : readBlocks diff = .error (.longHint digits)) :
    readRequest fields = throw (.fault (.tooManyDigits digits)) := by
  simp only [readRequest, requirePath, hpath, hdiff, hhint, if_neg hname, if_neg hsome]
  rfl

/-- Of what a request of blocks gives, only the hint of a block can end in a
fault. -/
theorem longHint_of_fault {fields : List (Value × Value)} {f : Fault}
    (h : readRequest fields = throw (.fault f)) :
    ∃ diff digits, Value.field? fields "diff" = some (.text diff) ∧
      readBlocks diff = .error (.longHint digits) ∧ f = .tooManyDigits digits := by
  obtain ⟨path, diff, -, hdiff, hread⟩ | ⟨r, hread⟩ := readRequest_cases fields
  · cases hblocks : readBlocks diff with
    | error e =>
      rw [hblocks, h] at hread
      cases e with
      | longHint digits =>
        cases hread
        exact ⟨diff, digits, hdiff, hblocks, rfl⟩
      | _ => cases hread
    | ok blocks =>
      rw [hblocks, h] at hread
      cases hread
  · cases h.symm.trans hread

/-- The blocks of a request that was read are refused, or the file is kept or
written. -/
theorem decide_ne {w : Workplace} {r : Request} {raw : Bytes} {why : Failure}
    (hwhy : ∀ refusal, why ≠ .refused refusal) : decide w r raw ≠ .refuse why := by
  intro h
  unfold decide at h
  dsimp only at h
  split at h
  · cases h
    exact hwhy _ rfl
  · split at h
    · cases h
    · cases h

end DiffTool

namespace Tool

/-- A call that has no result, and the fault it ends in. -/
inductive Unanswered (w : Workplace) : Tool → Value → Fault → Prop
  /-- The number of occurrences to replace has too many digits, or is a value
  too deep to be named in a refusal. -/
  | count {fields : List (Value × Value)} {f : Fault} (fault : EditTool.CountFault fields f) :
      Unanswered w .edit (.mapping fields) f
  /-- The hint of a block has too many digits. -/
  | hint {fields : List (Value × Value)} {diff : Text} {digits : Nat}
      (diff_given : Value.field? fields "diff" = some (.text diff))
      (unread : readBlocks diff = .error (.longHint digits)) (long : digitLimit < digits) :
      Unanswered w .diff (.mapping fields) (.tooManyDigits digits)
  /-- The file cannot be written for a surrogate in the replacement. -/
  | replacement {fields : List (Value × Value)} {new : Text} {u : Utf8.Unencodable}
      (given : Value.field? fields "new_string" = some (.text new)) (unwritable : u.From new) :
      Unanswered w .edit (.mapping fields) (.unencodable u)
  /-- The file cannot be written for a surrogate in the replacement of a block. -/
  | block {fields : List (Value × Value)} {diff : Text} {blocks : List Block} {b : Block}
      {u : Utf8.Unencodable} (diff_given : Value.field? fields "diff" = some (.text diff))
      (blocks_read : readBlocks diff = .ok blocks) (mem : b ∈ blocks)
      (unwritable : u.From b.replacement) :
      Unanswered w .diff (.mapping fields) (.unencodable u)
  /-- What stands for the path is too deep to be named in a record. -/
  | path {t : Tool} {args : Value} (deep : Value.displayDepth < (pathGiven args).depth) :
      Unanswered w t args Settings.bottomless
  /-- Results are to be logged, under a path that no system has. -/
  | log {t : Tool} {args : Value} {part : Text} {e : FileError}
      (asked : w.settings.recordMetrics = true)
      (within : part <+: Metric.logPath w.base w.settings.metricsDir)
      (invalid : FileError.ofPath? part = some e) : Unanswered w t args (.file e)

/-- The faults of an attempt come from numbers, or from values and texts that
cannot be written, in its request. -/
theorem Attempt.fault {w : Workplace} {t : Tool} {args : Value} {es : List Event} {f : Fault}
    (h : Attempt w t args es (.error (.fault f))) : Unanswered w t args f := by
  cases h with
  | rejected _ rejects =>
    cases rejects with
    | edit unread => exact .count (EditTool.countFault_of_fault unread)
    | diff unread =>
      obtain ⟨diff, digits, hdiff, hhint, rfl⟩ := DiffTool.longHint_of_fault unread
      obtain ⟨_, _, _, _, ds, -, -, -, hlong, rfl⟩ := readBlocks_eq_longHint_iff.mp hhint
      exact .hint hdiff hhint hlong
  | created request _ _ course =>
    cases course with
    | unencoded unwritable =>
      exact .replacement (EditTool.fields_of_readRequest request).1
        (Utf8.exists_lone_of_tryEncode unwritable)
  | edited request _ _ _ _ course =>
    cases course with
    | refused decided =>
      obtain ⟨rfl, hlong⟩ := EditTool.longCount_of_decide request decided
      exact .count (.long hlong)
    | unencoded decided =>
      exact .replacement (EditTool.fields_of_readRequest request).1
        (EditTool.from_replacement decided)
  | patched _ diff_given blocks_read course =>
    cases course with
    | refused decided => exact absurd decided (DiffTool.decide_ne nofun)
    | unencoded decided =>
      obtain ⟨b, hb, hfrom⟩ := DiffTool.from_replacement decided
      exact .block diff_given blocks_read hb hfrom

/-- A request of blocks with such a hint does end in a fault, unless the call
is cancelled before. -/
theorem Attempt.of_longHint {w : Workplace} {fields : List (Value × Value)} {path diff : Text}
    {digits : Nat} {es : List Event} {out : Except Failure ToolResult}
    (h : Attempt w .diff (.mapping fields) es out)
    (hpath : Value.field? fields "file_path" = some (.text path)) (hname : Text.trim path ≠ [])
    (hdiff : Value.field? fields "diff" = some (.text diff)) (hsome : Text.trim diff ≠ [])
    (hhint : readBlocks diff = .error (.longHint digits)) (hsilent : .cancelled true ∉ es) :
    out = .error (.fault (.tooManyDigits digits)) := by
  cases h with
  | cancelled => exact absurd List.mem_cons_self hsilent
  | rejected _ rejects =>
    cases rejects with
    | arguments unread => exact absurd rfl (unread fields)
    | diff unread =>
      rw [DiffTool.readRequest_of_longHint hpath hname hdiff hsome hhint] at unread
      cases unread
      rfl
  | patched _ diff_given blocks_read _ =>
    rw [hdiff] at diff_given
    cases diff_given
    rw [hhint] at blocks_read
    cases blocks_read

/-- An attempt that ends with a refused file operation ends there. -/
theorem Attempt.refusal {w : Workplace} {t : Tool} {args : Value} {es : List Event} {e : FileError}
    (h : Attempt w t args es (.error (.file e))) : ∃ ev ∈ es, ev.refusal? = some e := by
  cases h with
  | rejected input _ => exact absurd rfl (input e)
  | created _ _ _ course =>
    obtain ⟨ev, hev, hrefusal⟩ := course.refusal
    exact ⟨ev, .tail _ hev, hrefusal⟩
  | edited _ _ _ _ _ course =>
    obtain ⟨ev, hev, hrefusal⟩ := course.refusal fun raw => EditTool.decide_ne_file _ _ raw e
    exact ⟨ev, .tail _ hev, hrefusal⟩
  | patched _ _ _ course =>
    obtain ⟨ev, hev, hrefusal⟩ := course.refusal fun _ => DiffTool.decide_ne nofun
    exact ⟨ev, .tail _ hev, hrefusal⟩

/-- A failure has a result, unless what stands for the path is too deep to be
named in the record of it. -/
theorem noted_cases (w : Workplace) (t : Tool) (args : Value) (r : ToolResult) :
    noted args r = .ok r ∨ ∃ f, noted args r = .error f ∧ Unanswered w t args f := by
  cases hwords : Settings.toWords? (pathGiven args) with
  | ok words =>
    rw [noted, hwords]
    exact .inl rfl
  | error f =>
    obtain ⟨rfl, hdeep⟩ := (Settings.converts_words.error_iff _ _).mp hwords
    have htold := Value.told_unwritable? Value.displayDepth (pathGiven args)
    rw [hdeep] at htold
    refine .inr ⟨_, ?_, .path htold⟩
    rw [noted, hwords]
    rfl

/-- How an attempt ended is told by a result, as a success if it ended well and
as a failure with a code if not, or is a fault. -/
theorem settled_cases {w : Workplace} {t : Tool} {args : Value} {es : List Event}
    {reached : Except Failure ToolResult} (h : Attempt w t args es reached)
    (hkind : ∀ e, reached = .error (.file e) → e.kind ≠ .invalidPath) :
    (∃ r, settled args reached = .ok r ∧ (r.success = true ↔ reached = .ok r) ∧
        (r.success = true ↔ r.code = none)) ∨
      ∃ f, settled args reached = .error f ∧ Unanswered w t args f := by
  cases reached with
  | ok answer =>
    obtain ⟨hsuccess, hcode⟩ := h.success
    exact .inl ⟨answer, rfl, iff_of_true hsuccess rfl, iff_of_true hsuccess hcode⟩
  | error why =>
    cases why with
    | refused r =>
      exact (noted_cases w t args (refusedResult r)).imp_left fun hr =>
        ⟨_, hr, by simp [refusedResult], by simp [refusedResult]⟩
    | file e =>
      have hsettled : settled args (.error (.file e)) =
          noted args (fileResult (pathGiven args).shown e) := if_neg (hkind e rfl)
      rw [hsettled]
      exact (noted_cases w t args _).imp_left fun hr =>
        ⟨_, hr, by simp [fileResult], by simp [fileResult]⟩
    | fault f => exact .inr ⟨f, rfl, h.fault⟩

end Tool

/-! ## §4 Calls -/

/-- What happened did so between two states. -/
theorem Trail.exists_leads {m : Type → Type} {τ : Type} [Monad m] [Surroundings m] [Stateful m τ]
    {signal : Signal} {es : List Event} {s s' : Nat × τ} (h : Trail m signal es s s') {e : Event}
    (he : e ∈ es) : ∃ s₁ s₂, e.Leads m signal s₁ s₂ := by
  induction h with
  | nil s => cases he
  | cons head _ ih =>
    rcases List.mem_cons.mp he with rfl | he
    · exact ⟨_, _, head⟩
    · exact ih he

/-- On a site a log is refused for its name only if no system has that name, or
that of a directory on the way to it. -/
theorem Site.invalidOnly_of_append {signal : Signal} {path : Text} {content : Bytes} {e : FileError}
    {s s' : Nat × Site σ}
    (h : (Event.append path content (.error e)).Leads (StateM (Site σ)) signal s s') :
    Disk.InvalidOnly path e := by
  obtain ⟨n, s⟩ := s
  have hrefused : ((Disk.appendMaking path content).run.run s.disk).1 = .error e :=
    congrArg Prod.fst h
  exact (Disk.appendMaking_confined content (List.mem_singleton_self _)).refuses s.disk rfl e hrefused

namespace Text

theorem trim_ne_nil {t : Text} {s : Symbol} (h : s ∈ t) (hs : s.isSpace = false) : trim t ≠ [] := by
  intro hnil
  unfold trim trimStart trimEnd at hnil
  rw [List.reverse_eq_nil_iff, List.dropWhile_eq_nil_iff] at hnil
  have hmem : s ∈ t.dropWhile Symbol.isSpace := by
    rw [← List.takeWhile_append_dropWhile (p := Symbol.isSpace) (l := t)] at h
    rcases List.mem_append.mp h with htake | hdrop
    · rw [List.mem_takeWhile_imp htake] at hs
      cases hs
    · exact hdrop
  rw [hnil s (List.mem_reverse.mpr hmem)] at hs
  cases hs

end Text

/-- A hint line whose number is so many ones. -/
def onesHint (n : Nat) : Text := hintLabel ++ List.replicate n (.char '1')

theorem hintDigits_onesHint (n : Nat) :
    hintDigits? (onesHint (n + 1)) = some (List.replicate (n + 1) 1) := by
  have hdigits (k : Nat) :
      (List.replicate k (Symbol.char '1')).mapM Symbol.digit? = some (List.replicate k 1) := by
    induction k with
    | zero => rfl
    | succ k ih =>
      have hone : Symbol.digit? (.char '1') = some 1 := by decide
      rw [List.replicate_succ, List.mapM_cons, ih, hone]
      rfl
  refine hintDigits_label_append (List.cons_ne_nil _ _) (hdigits (n + 1)) fun s hs => ?_
  rw [List.eq_of_mem_replicate hs]
  decide

/-- The lines of a block with such a hint. -/
def longHintLines (n : Nat) : List Text :=
  [Marker.search.text, onesHint n, "a", Marker.separator.text, "b", Marker.replace.text]

theorem readBlocks_longHintLines {n : Nat} (h : digitLimit ≤ n) :
    readBlocks (Text.unlines (longHintLines (n + 1))) = .error (.longHint (n + 1)) := by
  have hbreaks : ∀ s ∈ [lf, cr], s ∉ hintLabel ∧ s ≠ .char '1' ∧
      ∀ l ∈ [Marker.search.text, "a", Marker.separator.text, "b", Marker.replace.text], s ∉ l := by
    decide +kernel
  have hplain {s : Symbol} (hs : s ∈ [lf, cr]) : ∀ l ∈ longHintLines (n + 1), s ∉ l := by
    obtain ⟨hlabel, hone, hother⟩ := hbreaks s hs
    intro l hl
    rcases List.mem_cons.mp hl with rfl | hl
    · exact hother _ List.mem_cons_self
    rcases List.mem_cons.mp hl with rfl | hl
    · intro hmem
      rcases List.mem_append.mp hmem with hmem | hmem
      · exact hlabel hmem
      · exact hone (List.eq_of_mem_replicate hmem)
    · exact hother l (List.mem_cons_of_mem _ hl)
  rw [readBlocks_eq_longHint_iff]
  refine ⟨[], Marker.search.text, onesHint (n + 1), _, List.replicate (n + 1) 1,
    Text.lines_normalize_unlines (List.cons_ne_nil _ _) fun l hl =>
      ⟨hplain List.mem_cons_self l hl, hplain (List.mem_cons_of_mem _ List.mem_cons_self) l hl⟩,
    by decide +kernel, hintDigits_onesHint n, ?_, ?_⟩
  · rw [List.length_replicate]
    omega
  · rw [List.length_replicate]

/-- The fields of a request of such a block. -/
def longHintFields (n : Nat) : List (Value × Value) :=
  [(.ofString "file_path", .ofString "a.txt"),
    (.ofString "diff", .text (Text.unlines (longHintLines n)))]

theorem call_longHint {n : Nat} (h : digitLimit ≤ n) (s : Site Memory) :
    ∃ f, ((runTool none (Tool.diff.execute ⟨"/w", "/home", {}⟩ (.mapping (longHintFields (n + 1)))) :
      StateM (Site Memory) _).run s).1 = .error f := by
  have hpath : Value.field? (longHintFields (n + 1)) "file_path" = some (.text "a.txt") := by
    rw [longHintFields, field?_cons, if_pos rfl]
    rfl
  have hdiff : Value.field? (longHintFields (n + 1)) "diff" =
      some (.text (Text.unlines (longHintLines (n + 1)))) := by
    rw [longHintFields, field?_cons, if_neg (by decide), field?_cons, if_pos rfl]
  have hsome : Text.trim (Text.unlines (longHintLines (n + 1))) ≠ [] := by
    rw [longHintLines, Text.unlines_cons_cons]
    exact Text.trim_ne_nil (s := .char '<') (List.mem_append_left _ (by decide +kernel)) (by decide)
  obtain ⟨out, s', hrun⟩ : ∃ out s', (runTool none (Tool.diff.execute ⟨"/w", "/home", {}⟩
    (.mapping (longHintFields (n + 1)))) : StateM (Site Memory) _).run s = (out, s') := ⟨_, _, rfl⟩
  obtain ⟨reached, hattempt, -, hout⟩ := Tool.call_attempt hrun
  have hsilent : .cancelled true ∉ quiet ((Tool.diff.execute ⟨"/w", "/home", {}⟩
      (.mapping (longHintFields (n + 1)))).events (StateM (Site Memory)) none (0, s)) := by
    intro hmem
    exact Tool.events_ne_cancelled .diff _ _ (fun f hf => by cases hf) s _ hmem rfl
  rw [hattempt.of_longHint hpath (by decide +kernel) hdiff hsome (readBlocks_longHintLines h)
    hsilent] at hout
  rw [hrun]
  obtain hsettled | hfault := hout
  · exact ⟨_, hsettled⟩
  · exact hfault

end Amend
