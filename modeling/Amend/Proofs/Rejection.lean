/-
Amend.Proofs.Rejection — requests that are refused as they stand.

Three codes say that a request cannot be carried out wherever it is made: its
arguments are not such as a tool takes, or its blocks cannot be read. Of all
the ways in which an attempt ends, only those that come before the first look
at a file have such a code (`Tool.Attempt.rejects`). The program is then one
that leaves records and nothing else (`Tool.run_execute_rejected`), so it goes
the same beside every store (`follow_withStore`).

  §1 Questions to a store.
  §2 Codes of requests.
  §3 Rejected requests.
  §4 Calls.
-/
import Amend.Proofs.Footprint

namespace Amend

open Stateful (exec exec_pure exec_lift)

/-! ## §1 Questions to a store -/

/-- The event is an operation of the store. -/
def Event.asksStore : Event → Bool
  | .read .. | .write .. | .has .. | .makeDirs .. => true
  | _ => false

/-- What is neither asked of the store nor left as a record is a look at the
signal. -/
theorem asksStore_of_quiet {es : List Event} {got : Bool} (h : quiet es = [.cancelled got]) :
    ∀ e ∈ es, e.asksStore = false := by
  intro e he
  cases hrecord : e.isRecord with
  | true =>
    cases e with
    | journal _ | now _ | append _ _ _ => rfl
    | _ => cases hrecord
  | false =>
    have hquiet : e ∈ quiet es := List.mem_filter.mpr ⟨he, by rw [hrecord]; rfl⟩
    rw [h] at hquiet
    obtain rfl := List.mem_singleton.mp hquiet
    rfl

/-- The site with another store. -/
def Site.withStore {σ ρ : Type} (s : Site σ) (t : ρ) : Site ρ :=
  ⟨t, s.disk, s.records, s.clock⟩

section Sites

variable {σ ρ α : Type} [FileStore (StateM σ)] [FileStore (StateM ρ)] {signal : Signal}

/-- What is not asked of the store is answered the same beside another one. -/
theorem ToolQuery.reply_withStore {q : ToolQuery α} {n : Nat} {s : Site σ} (t : ρ)
    (h : (q.event (q.reply (m := StateM (Site σ)) signal (n, s)).1).asksStore = false) :
    q.reply (m := StateM (Site ρ)) signal (n, s.withStore t) =
      ((q.reply (m := StateM (Site σ)) signal (n, s)).1,
        (q.reply (m := StateM (Site σ)) signal (n, s)).2.1,
        (q.reply (m := StateM (Site σ)) signal (n, s)).2.2.withStore t) := by
  cases q with
  | cancelled => cases signal <;> rfl
  | journal _ | now | append _ _ => rfl
  | _ => cases h

/-- A program that asks nothing of the store goes the same beside another
one. -/
theorem follow_withStore (t : ρ) (a : Action ToolQuery α) :
    ∀ {n : Nat} {s : Site σ},
      (∀ e ∈ a.events (StateM (Site σ)) signal (n, s), e.asksStore = false) →
      a.follow (StateM (Site ρ)) signal (n, s.withStore t) =
        ((a.follow (StateM (Site σ)) signal (n, s)).1,
          (a.follow (StateM (Site σ)) signal (n, s)).2.1,
          (a.follow (StateM (Site σ)) signal (n, s)).2.2.withStore t) := by
  induction a with
  | done a =>
    intro n s _
    rw [Action.follow_done, Action.follow_done]
  | ask q next ih =>
    intro n s h
    obtain ⟨hfirst, hrest⟩ := List.forall_mem_cons.mp h
    rw [Action.follow_ask, Action.follow_ask, ToolQuery.reply_withStore t hfirst]
    exact ih _ hrest

end Sites

/-! ## §2 Codes of requests -/

/-- The code says that the request cannot be carried out as it stands. -/
def Code.isInput : Code → Bool
  | .input | .parse | .noBlocks => true
  | _ => false

/-- Where a file is looked at, the call is refused for what is there, for its
absence, or because it is cancelled. -/
theorem Course.refusal_cases {place : Text} {absent r : Refusal} {decide : Bytes → Decision}
    {es : List Event} (h : Course place absent decide es (.error (.refused r))) :
    r = absent ∨ r = .cancelled ∨ ∃ raw, decide raw = .refuse (.refused r) := by
  cases h with
  | absent => exact .inl rfl
  | cancelledEarly _ | cancelledLate _ => exact .inr (.inl rfl)
  | refused decided => exact .inr (.inr ⟨_, decided⟩)

theorem EditTool.isInput_of_decide {w : Workplace} {req : Request} {raw : Bytes} {r : Refusal}
    (h : decide w req raw = .refuse (.refused r)) : r.code.isInput = false := by
  unfold decide at h
  dsimp only at h
  split at h
  · rename_i m _
    have hfailure : mismatchFailure req.path m = .refused r := Decision.refuse.inj h
    unfold mismatchFailure at hfailure
    split at hfailure
    · obtain rfl := Failure.refused.inj hfailure
      rw [Refusal.code]
      split <;> rfl
    · cases hfailure
  · split at h <;> cases h

theorem DiffTool.isInput_of_decide {w : Workplace} {req : Request} {raw : Bytes} {r : Refusal}
    (h : decide w req raw = .refuse (.refused r)) : r.code.isInput = false := by
  unfold decide at h
  dsimp only at h
  split at h
  · obtain rfl := Failure.refused.inj (Decision.refuse.inj h)
    rfl
  · split at h <;> cases h

/-! ## §3 Rejected requests -/

namespace Tool

variable {w : Workplace} {t : Tool} {args : Value} {es : List Event} {r : Refusal}

/-- An attempt that ends with the code of a request ended before a file was
looked at. -/
theorem Attempt.rejects (h : Attempt w t args es (.error (.refused r)))
    (hcode : r.code.isInput = true) : Rejects t args (.refused r) := by
  have hcourse {place path : Text} {creating : Bool} {decide : Bytes → Decision} {es : List Event}
      (h : Course place (.absent path creating) decide es (.error (.refused r)))
      (hdecide : ∀ raw, decide raw = .refuse (.refused r) → r.code.isInput = false) : False := by
    obtain rfl | rfl | ⟨raw, hraw⟩ := h.refusal_cases
    · cases hcode
    · cases hcode
    · rw [hdecide raw hraw] at hcode
      cases hcode
  cases h with
  | cancelled => cases hcode
  | rejected _ rejects => exact rejects
  | created _ _ _ course => cases course <;> cases hcode
  | edited _ _ _ _ _ course => exact (hcourse course fun _ => EditTool.isInput_of_decide).elim
  | patched _ _ _ course => exact (hcourse course fun _ => DiffTool.isInput_of_decide).elim

/-- A result with the code of a request is that of an attempt that was
refused with it. -/
theorem refusal_of_settled {reached : Except Failure ToolResult} {answer : ToolResult} {c : Code}
    (hattempt : Attempt w t args es reached) (hanswer : settled args reached = .ok answer)
    (hcode : answer.code = some c) (hinput : c.isInput = true) :
    ∃ r, reached = .error (.refused r) ∧ answer = refusedResult r ∧ r.code = c := by
  cases reached with
  | ok given =>
    obtain rfl := Except.ok.inj hanswer
    rw [hattempt.success.2] at hcode
    cases hcode
  | error why =>
    cases why with
    | refused r =>
      obtain rfl := eq_of_noted hanswer
      exact ⟨r, rfl, rfl, Option.some.inj hcode⟩
    | file e =>
      rw [settled] at hanswer
      split at hanswer
      · cases hanswer
      · obtain rfl := eq_of_noted hanswer
        obtain rfl := Option.some.inj hcode
        cases hinput
    | fault f => cases hanswer

theorem Unlogged.mono {es' : List Event} {f : Fault} (h : Unlogged w es f) (hsub : es ⊆ es') :
    Unlogged w es' f := by
  obtain ⟨hasked, content, e, hkind, hfault, happend⟩ := h
  exact ⟨hasked, content, e, hkind, hfault, hsub happend⟩

/-- The call of a rejected request looks at the signal and leaves records. If
it is not cancelled it gives the refusal, unless that cannot be recorded or
logged. -/
theorem run_execute_rejected {out : Except Fault ToolResult} (hr : Rejects t args (.refused r))
    (h : Run (execute t w args) es out) (hsilent : .cancelled true ∉ es) :
    quiet es = [.cancelled false] ∧
      (out = noted args (refusedResult r) ∨ ∃ f, out = .error f ∧ Unlogged w es f) := by
  obtain ⟨answer, es₁, es₂, rfl, hsettle, h₂⟩ := Run.bind_iff.mp h
  obtain ⟨reached, es₃, es₄, rfl, hattempt, h₄⟩ := Run.bind_iff.mp hsettle
  rw [attempt_of_rejects hr] at hattempt
  obtain ⟨rfl, -⟩ | ⟨_, rfl, hthrow⟩ := Step.run_checkCancelled_bind_iff.mp hattempt
  · exact absurd List.mem_cons_self hsilent
  obtain ⟨rfl, rfl⟩ := Step.run_throw_iff.mp hthrow
  obtain ⟨hnote, rfl⟩ := run_note h₄
  have hlast : quiet es₂ = [] ∧ (out = noted args (refusedResult r) ∨
      ∃ f, out = .error f ∧ Unlogged w es₂ f) := by
    cases hnoted : noted args (refusedResult r) with
    | error f =>
      rw [hnoted] at h₂
      obtain ⟨rfl, rfl⟩ := Run.pure_iff.mp h₂
      exact ⟨rfl, .inl rfl⟩
    | ok answer =>
      rw [hnoted] at h₂
      obtain ⟨logged, es₆, es₇, rfl, hlog, h₇⟩ := Run.bind_iff.mp h₂
      obtain ⟨hnone, rfl | ⟨f, rfl, hunlogged⟩⟩ := run_log hlog
      · obtain ⟨rfl, rfl⟩ := Run.pure_iff.mp h₇
        exact ⟨by rw [List.append_nil]; exact hnone, .inl rfl⟩
      · obtain ⟨rfl, rfl⟩ := Run.pure_iff.mp h₇
        rw [List.append_nil]
        exact ⟨hnone, .inr ⟨f, rfl, hunlogged⟩⟩
  refine ⟨?_, hlast.2.imp id ?_⟩
  · rw [quiet_append, quiet_append, hnote, hlast.1]
    rfl
  · rintro ⟨f, hf, hunlogged⟩
    exact ⟨f, hf, hunlogged.mono (List.subset_append_right _ _)⟩

end Tool

/-! ## §4 Calls -/

section Calls

variable {m : Type → Type} {τ : Type} [Monad m] [Surroundings m] [Stateful m τ]

/-- Without a signal no check finds one set. -/
theorem cancelled_notMem_events {α : Type} (a : Action ToolQuery α) :
    ∀ s : Nat × τ, .cancelled true ∉ a.events m none s := by
  induction a with
  | done a => exact fun _ => List.not_mem_nil
  | ask q next ih =>
    intro s hmem
    obtain hfirst | hrest := List.mem_cons.mp hmem
    · cases q with
      | cancelled =>
        have hreply : ToolQuery.reply (m := m) none .cancelled s = (false, s) := exec_pure false s
        rw [hreply] at hfirst
        cases hfirst
      | _ => cases hfirst
    · exact ih _ _ hrest

/-- A call that gives a result with the code of a request, in whatever
surroundings: in no surroundings does the same call ask anything of the store,
and it gives the same result there unless results are to be logged under a
path that no system has. On a site it goes the same beside every store: it
gives the same result, and leaves the same records and logs. -/
theorem execute_rejects_alike [LawfulMonad m] (t : Tool) (w : Workplace) (args : Value) {s : τ}
    {answer : ToolResult} {c : Code}
    (hanswer : (exec (runTool (m := m) none (t.execute w args)) s).1 = .ok answer)
    (hcode : answer.code = some c) (hinput : c.isInput = true) :
    (∀ {m' : Type → Type} {τ' : Type} [Monad m'] [LawfulMonad m'] [Surroundings m']
        [Stateful m' τ'] (s' : τ'),
      (∀ e ∈ (t.execute w args).events m' none (0, s'), e.asksStore = false) ∧
      ((exec (runTool (m := m') none (t.execute w args)) s').1 = .ok answer ∨
        ∃ f, (exec (runTool (m := m') none (t.execute w args)) s').1 = .error f ∧
          Tool.Unlogged w ((t.execute w args).events m' none (0, s')) f)) ∧
    ∀ {σ ρ : Type} [FileStore (StateM σ)] [FileStore (StateM ρ)] (s' : Site σ) (other : ρ),
      exec (runTool (m := StateM (Site ρ)) none (t.execute w args)) (s'.withStore other) =
        ((exec (runTool (m := StateM (Site σ)) none (t.execute w args)) s').1,
          (exec (runTool (m := StateM (Site σ)) none (t.execute w args)) s').2.withStore other) := by
  have hrun : Run (t.execute w args) (Action.events m none _ (0, s)) _ :=
    run_events (t.execute w args) (0, s)
  rw [exec_runTool] at hanswer
  obtain ⟨reached, hattempt, hsettled | ⟨f, hf, -⟩⟩ := Tool.run_execute hrun
  · obtain ⟨r, rfl, rfl, rfl⟩ :=
      Tool.refusal_of_settled hattempt (hsettled.symm.trans hanswer) hcode hinput
    have hrejects := hattempt.rejects hinput
    have hquiet {m' : Type → Type} {τ' : Type} [Monad m'] [Surroundings m'] [Stateful m' τ']
        (s' : τ') := Tool.run_execute_rejected hrejects
      (run_events (t.execute w args) (0, s') : Run _ (Action.events m' none _ (0, s')) _)
      (cancelled_notMem_events _ _)
    refine ⟨fun s' => ?_, fun s' other => ?_⟩
    · have hnoted : Tool.noted args (Tool.refusedResult r) = .ok (Tool.refusedResult r) :=
        hsettled.symm.trans hanswer
      rw [exec_runTool, ← hnoted]
      exact ⟨asksStore_of_quiet (hquiet s').1, (hquiet s').2⟩
    · rw [exec_runTool, exec_runTool, follow_withStore other _ (asksStore_of_quiet (hquiet s').1)]
  · cases hf.symm.trans hanswer

end Calls

/-- A block without its separator is not looked for: the call is refused on a
store that holds the file, and in the same words on one that refuses to be
read. -/
theorem open_block_rejected_alike :
    ∃ (s : Site Memory) (other : Faulty Memory) (args : Value) (answer : ToolResult),
      s = .ofFile [97] ∧ other = ⟨{}, { read := some (5, "Input/output error") }⟩ ∧
      args = .mapping (textFields [("file_path", "a.txt"), ("diff", "<<<<<<< SEARCH\na\n")]) ∧
      (exec (runTool (m := StateM (Site Memory)) none
        (Tool.diff.execute ⟨"/w", "/home", {}⟩ args)) s).1 = .ok answer ∧
      answer.code = some .parse ∧
      (exec (runTool (m := StateM (Site (Faulty Memory))) none
        (Tool.diff.execute ⟨"/w", "/home", {}⟩ args)) (s.withStore other)).1 = .ok answer ∧
      ∀ e ∈ (Tool.diff.execute ⟨"/w", "/home", {}⟩ args).events (StateM (Site (Faulty Memory))) none
        (0, s.withStore other), e.asksStore = false := by
  let s : Site Memory := .ofFile [97]
  let other : Faulty Memory := ⟨{}, { read := some (5, "Input/output error") }⟩
  let args : Value :=
    .mapping (textFields [("file_path", "a.txt"), ("diff", "<<<<<<< SEARCH\na\n")])
  have hanswer : (exec (runTool (m := StateM (Site Memory)) none
      (Tool.diff.execute ⟨"/w", "/home", {}⟩ args)) s).1 =
      .ok (Tool.refusedResult (.noSeparator 1)) := by decide +kernel
  obtain ⟨hquiet, hsame⟩ :=
    execute_rejects_alike .diff ⟨"/w", "/home", {}⟩ args hanswer rfl rfl
  refine ⟨s, other, args, _, rfl, rfl, rfl, hanswer, rfl, ?_, (hquiet _).1⟩
  rw [hsame s other]
  exact hanswer

end Amend
