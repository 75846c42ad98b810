/-
Amend.Proofs.Cancelling — calls that are cancelled.

A signal is seen through the checks of a call alone. While all of them find
it silent, every answer is the one that is given where there is no signal,
so the call goes as it would without (`follow_eq_of_silent`). The check that
finds the signal set ends the attempt, and until then a call has only looked
at files (`Tool.Attempt.of_cancelled`). So whatever the signal says and when,
a call is carried out as if there were none, or it is refused and no file
or directory has been touched.

  §1 A signal that stays silent.
  §2 A signal that is seen.
  §3 Files and directories in a view.
  §4 Cancelled calls.
-/
import Amend.Proofs.Staging

namespace Amend

open Stateful (exec exec_pure exec_bind exec_lift exec_get exec_set)

/-! ## §1 A signal that stays silent -/

section Silent

variable {m : Type → Type} {τ : Type} [Monad m] [Surroundings m] [Stateful m τ] {α : Type}

theorem ToolQuery.reply_cancelled (f : Nat → Bool) (n : Nat) (t : τ) :
    ToolQuery.reply (m := m) (some f) .cancelled (n, t) = (f (n + 1), n + 1, t) := by
  unfold reply answer
  rw [exec_bind, exec_get, exec_bind, exec_set, exec_pure]

/-- A question that does not find the signal set is answered as if there were
no signal. -/
theorem ToolQuery.reply_of_silent {signal : Signal} {q : ToolQuery α} {n k : Nat} {t : τ}
    (h : q.event (q.reply (m := m) signal (n, t)).1 ≠ .cancelled true) :
    (q.reply (m := m) none (k, t)).1 = (q.reply (m := m) signal (n, t)).1 ∧
      (q.reply (m := m) none (k, t)).2.2 = (q.reply (m := m) signal (n, t)).2.2 := by
  have hnone (n : Nat) : ToolQuery.reply (m := m) none .cancelled (n, t) = (false, n, t) :=
    exec_pure false (n, t)
  cases q with
  | cancelled =>
    cases signal with
    | none => rw [hnone, hnone]; exact ⟨rfl, rfl⟩
    | some f =>
      rw [ToolQuery.reply_cancelled] at h ⊢
      rw [hnone]
      cases hf : f (n + 1) with
      | false => exact ⟨rfl, rfl⟩
      | true => exact absurd (congrArg Event.cancelled hf) h
  | _ =>
    unfold reply answer
    simp only [exec_lift]
    exact ⟨trivial, trivial⟩

/-- A program that never finds the signal set goes as if there were none. -/
theorem follow_eq_of_silent {signal : Signal} (a : Action ToolQuery α) :
    ∀ {n k : Nat} {t : τ}, .cancelled true ∉ a.events m signal (n, t) →
      (a.follow m none (k, t)).1 = (a.follow m signal (n, t)).1 ∧
        (a.follow m none (k, t)).2.2 = (a.follow m signal (n, t)).2.2 := by
  induction a with
  | done a =>
    intro n k t _
    rw [Action.follow_done, Action.follow_done]
    exact ⟨rfl, rfl⟩
  | ask q next ih =>
    intro n k t h
    obtain ⟨hfirst, hrest⟩ := List.ne_and_not_mem_of_not_mem_cons h
    obtain ⟨hanswer, hstate⟩ := ToolQuery.reply_of_silent (k := k) hfirst.symm
    rw [Action.follow_ask, Action.follow_ask, hanswer]
    generalize q.reply (m := m) none (k, t) = r at hstate ⊢
    obtain ⟨_, k', t'⟩ := r
    obtain rfl : t' = _ := hstate
    exact ih _ hrest

end Silent

/-! ## §2 A signal that is seen -/

/-- The event only looks at files, or whether the call is cancelled. -/
def Event.isLook : Event → Bool
  | .read .. | .has .. | .cancelled _ => true
  | _ => false

theorem Course.of_cancelled {place : Text} {absent : Refusal} {decide : Bytes → Decision}
    {es : List Event} {out : Except Failure ToolResult} (h : Course place absent decide es out)
    (hseen : .cancelled true ∈ es) :
    out = .error (.refused .cancelled) ∧ ∀ e ∈ es, e.isLook = true := by
  cases h with
  | cancelledEarly _ | cancelledLate _ => exact ⟨rfl, by simp [Event.isLook]⟩
  | _ => simp at hseen

theorem EditTool.Creation.of_cancelled {w : Workplace} {r : EditTool.Request} {place : Text}
    {es : List Event} {out : Except Failure ToolResult} (h : EditTool.Creation w r place es out)
    (hseen : .cancelled true ∈ es) :
    out = .error (.refused .cancelled) ∧ ∀ e ∈ es, e.isLook = true := by
  cases h with
  | cancelled => exact ⟨rfl, by simp [Event.isLook]⟩
  | _ => simp at hseen

/-- An attempt that finds the signal set ends with that refusal, and has only
looked so far. -/
theorem Tool.Attempt.of_cancelled {w : Workplace} {t : Tool} {args : Value} {es : List Event}
    {out : Except Failure ToolResult} (h : Attempt w t args es out)
    (hseen : .cancelled true ∈ es) :
    out = .error (.refused .cancelled) ∧ ∀ e ∈ es, e.isLook = true := by
  have hlater {es : List Event} (hseen : .cancelled true ∈ .cancelled false :: es) :
      .cancelled true ∈ es := by simpa using hseen
  cases h with
  | cancelled => exact ⟨rfl, by simp [Event.isLook]⟩
  | rejected _ _ => simp at hseen
  | created _ _ _ course =>
    obtain ⟨hout, hlook⟩ := course.of_cancelled (hlater hseen)
    exact ⟨hout, List.forall_mem_cons.mpr ⟨rfl, hlook⟩⟩
  | edited _ _ _ _ _ course =>
    obtain ⟨hout, hlook⟩ := course.of_cancelled (hlater hseen)
    exact ⟨hout, List.forall_mem_cons.mpr ⟨rfl, hlook⟩⟩
  | patched _ _ _ course =>
    obtain ⟨hout, hlook⟩ := course.of_cancelled (hlater hseen)
    exact ⟨hout, List.forall_mem_cons.mpr ⟨rfl, hlook⟩⟩

/-! ## §3 Files and directories in a view -/

/-- Surroundings in which files and directories make up a part of the state.
Looking at them and leaving records does not change that part. -/
class FilesView (m : Type → Type) {τ : outParam Type} [Monad m] [Surroundings m] [Stateful m τ]
    (ν : outParam Type) where
  view : τ → ν
  view_read : ∀ (path : Text) (t : τ),
    view (exec (FileStore.read path : m (Except FileError Bytes)) t).2 = view t
  view_has : ∀ (path : Text) (t : τ), view (exec (FileStore.has path : m Bool) t).2 = view t
  view_journal : ∀ (r : Record) (t : τ), view (exec (Surroundings.journal r : m Unit) t).2 = view t
  view_now : ∀ t : τ, view (exec (Surroundings.now : m Text) t).2 = view t
  view_append : ∀ (path : Text) (content : Bytes) (t : τ),
    view (exec (Surroundings.append path content : m (Except FileError Unit)) t).2 = view t

open FilesView (view)

/-- On a site they are its store. -/
instance {σ : Type} [FileStore (StateM σ)] [LawfulStore σ] : FilesView (StateM (Site σ)) σ where
  view := Site.store
  view_read path t := LawfulStore.read_keeps path t.store
  view_has path t := LawfulStore.has_keeps path t.store
  view_journal _ _ := rfl
  view_now _ := rfl
  view_append _ _ _ := rfl

/-- A disk is looked at without being changed, whatever it holds. -/
instance : FilesView (StateM (Site Disk)) Disk where
  view := Site.store
  view_read _ _ := rfl
  view_has _ _ := rfl
  view_journal _ _ := rfl
  view_now _ := rfl
  view_append _ _ _ := rfl

section View

variable {m : Type → Type} {τ ν : Type} [Monad m] [Surroundings m] [Stateful m τ] [FilesView m ν]

/-- With changes staged over them, what is staged belongs to the view. -/
instance : FilesView (StateT Overlay m) (Overlay × ν) where
  view s := (s.1, view m s.2)
  view_read path s := by
    obtain ⟨o, t⟩ := s
    show (fun s : Overlay × τ => (s.1, view m s.2)) (exec (do
      match (← get).pending.get? path with
      | some b => return .ok b
      | none => StateT.lift (FileStore.read path) : StateT Overlay m (Except FileError Bytes))
        (o, t)).2 = _
    rw [exec_bind, exec_get]
    dsimp only
    split
    · rw [exec_pure]
    · rw [exec_lift]
      exact congrArg (Prod.mk o) (FilesView.view_read path t)
  view_has path s := by
    obtain ⟨o, t⟩ := s
    show (fun s : Overlay × τ => (s.1, view m s.2)) (exec (do
      if (← get).pending.has path then return true
      else StateT.lift (FileStore.has path) : StateT Overlay m Bool) (o, t)).2 = _
    rw [exec_bind, exec_get]
    dsimp only
    split
    · rw [exec_pure]
    · rw [exec_lift]
      exact congrArg (Prod.mk o) (FilesView.view_has path t)
  view_journal r s := by
    show (fun s : Overlay × τ => (s.1, view m s.2))
      (exec (StateT.lift (Surroundings.journal r) : StateT Overlay m Unit) (s.1, s.2)).2 = _
    rw [exec_lift]
    exact congrArg (Prod.mk s.1) (FilesView.view_journal r s.2)
  view_now s := by
    show (fun s : Overlay × τ => (s.1, view m s.2))
      (exec (StateT.lift Surroundings.now : StateT Overlay m Text) (s.1, s.2)).2 = _
    rw [exec_lift]
    exact congrArg (Prod.mk s.1) (FilesView.view_now s.2)
  view_append path content s := by
    show (fun s : Overlay × τ => (s.1, view m s.2)) (exec (StateT.lift
      (Surroundings.append path content) : StateT Overlay m (Except FileError Unit)) (s.1, s.2)).2 = _
    rw [exec_lift]
    exact congrArg (Prod.mk s.1) (FilesView.view_append path content s.2)

variable {signal : Signal}

/-- A question that looks at files or leaves records leaves the view. -/
theorem ToolQuery.view_reply {β : Type} {q : ToolQuery β} {b : β}
    (hlook : (q.event b).isLook = true ∨ (q.event b).isRecord = true) :
    view m (q.reply (m := m) signal s).2.2 = view m s.2 := by
  obtain ⟨n, t⟩ := s
  cases q with
  | read path =>
    show view m (exec (StateT.lift (FileStore.read path) : StateT Nat m _) (n, t)).2.2 = _
    rw [exec_lift, FilesView.view_read]
  | has path =>
    show view m (exec (StateT.lift (FileStore.has path) : StateT Nat m _) (n, t)).2.2 = _
    rw [exec_lift, FilesView.view_has]
  | write _ _ | makeDirs _ => simp [event, Event.isLook, Event.isRecord] at hlook
  | cancelled =>
    cases signal with
    | none =>
      show view m (exec (pure false : StateT Nat m Bool) (n, t)).2.2 = _
      rw [exec_pure]
    | some f => rw [reply_cancelled]
  | journal r =>
    show view m (exec (StateT.lift (Surroundings.journal r) : StateT Nat m _) (n, t)).2.2 = _
    rw [exec_lift, FilesView.view_journal]
  | now =>
    show view m (exec (StateT.lift Surroundings.now : StateT Nat m _) (n, t)).2.2 = _
    rw [exec_lift, FilesView.view_now]
  | append path content =>
    show view m (exec (StateT.lift (Surroundings.append path content) : StateT Nat m _) (n, t)).2.2 = _
    rw [exec_lift, FilesView.view_append]

/-- A program that only looks at files and leaves records leaves the view. -/
theorem view_follow {α : Type} (a : Action ToolQuery α) :
    ∀ {s : Nat × τ}, (∀ e ∈ a.events m signal s, e.isLook = true ∨ e.isRecord = true) →
      view m (a.follow m signal s).2.2 = view m s.2 := by
  induction a with
  | done a =>
    intro s _
    rw [Action.follow_done]
  | ask q next ih =>
    intro s hlook
    obtain ⟨hfirst, hrest⟩ := List.forall_mem_cons.mp hlook
    rw [Action.follow_ask, ih _ hrest, ToolQuery.view_reply hfirst]

end View

/-! ## §4 Cancelled calls -/

/-- A call that looks at the signal and is done goes as it would without a
signal. -/
theorem follow_ask_cancelled {m : Type → Type} {τ α : Type} [Monad m] [Surroundings m]
    [Stateful m τ] (signal : Signal) (a : α) (n : Nat) (t : τ) :
    ((Action.ask .cancelled fun _ => .done a).follow m signal (n, t)).1 = a ∧
      ((Action.ask .cancelled fun _ => .done a).follow m signal (n, t)).2.2 = t := by
  rw [Action.follow_ask, Action.follow_done]
  refine ⟨rfl, ?_⟩
  cases signal with
  | none =>
    have hreply : ToolQuery.reply (m := m) none .cancelled (n, t) = (false, n, t) :=
      exec_pure false (n, t)
    rw [hreply]
  | some f => rw [ToolQuery.reply_cancelled]

/-- A call of a tool, whatever its signal says and when: if no check finds the
signal set, the call goes as it would without a signal. If one does, every
file and directory is as before, and the call is refused as cancelled, cannot
be logged for want of a path, or goes as it would without a signal, since it
gives a path too deep to be named. -/
theorem execute_cancelled {m : Type → Type} {τ ν : Type} [Monad m] [LawfulMonad m]
    [Surroundings m] [Stateful m τ] [FilesView m ν] (t : Tool) (w : Workplace) (args : Value)
    (signal : Signal) (s : τ) :
    (.cancelled true ∉ (t.execute w args).events m signal (0, s) →
      exec (runTool (m := m) signal (t.execute w args)) s =
        exec (runTool (m := m) none (t.execute w args)) s) ∧
    (.cancelled true ∈ (t.execute w args).events m signal (0, s) →
      view m (exec (runTool (m := m) signal (t.execute w args)) s).2 = view m s ∧
      ((exec (runTool (m := m) signal (t.execute w args)) s).1 =
          .ok (Tool.refusedResult .cancelled) ∨
        (∃ f, (exec (runTool (m := m) signal (t.execute w args)) s).1 = .error f ∧
          Tool.Unlogged w ((t.execute w args).events m signal (0, s)) f) ∨
        ∃ f, Settings.toWords? (Tool.pathGiven args) = .error f ∧
          (exec (runTool (m := m) signal (t.execute w args)) s).1 = .error f ∧
          exec (runTool (m := m) signal (t.execute w args)) s =
            exec (runTool (m := m) none (t.execute w args)) s)) := by
  simp only [exec_runTool]
  constructor
  · intro hsilent
    obtain ⟨hanswer, hstate⟩ := follow_eq_of_silent (k := 0) _ hsilent
    rw [hanswer, hstate]
  · intro hseen
    have hrun : Run (t.execute w args) (Action.events m signal _ (0, s)) _ :=
      run_events (t.execute w args) (0, s)
    obtain ⟨reached, hattempt, hout⟩ := Tool.run_execute hrun
    have hquiet : .cancelled true ∈ quiet ((t.execute w args).events m signal (0, s)) :=
      List.mem_filter.mpr ⟨hseen, rfl⟩
    obtain ⟨rfl, hlook⟩ := hattempt.of_cancelled hquiet
    refine ⟨view_follow _ fun e he => ?_, ?_⟩
    · cases hrecord : e.isRecord with
      | true => exact .inr rfl
      | false => exact .inl (hlook e (List.mem_filter.mpr ⟨he, by rw [hrecord]; rfl⟩))
    · cases hwords : Settings.toWords? (Tool.pathGiven args) with
      | error f =>
        -- the path cannot be named, so there is no result either way
        have hcall (signal : Signal) := follow_ask_cancelled (m := m) signal
          (.error f : Except Fault ToolResult) 0 s
        rw [Tool.execute_of_deep hwords, (hcall signal).1, (hcall signal).2, (hcall none).1,
          (hcall none).2]
        exact .inr (.inr ⟨f, rfl, rfl, rfl⟩)
      | ok words =>
        have hnoted : Tool.noted args (Tool.refusedResult .cancelled) =
            .ok (Tool.refusedResult .cancelled) := by
          rw [Tool.noted, hwords]
          rfl
        exact hout.imp (fun hsettled => hsettled.trans hnoted) .inl

/-- The second check of an edit finds the signal set: the call is refused and
the file stays. -/
theorem edit_cancelled_at_second_check :
    ∃ (s : Site Memory) (args : Value) (signal : Signal),
      s = .ofFile [97] ∧ signal = some (fun n => decide (2 ≤ n)) ∧
      args = .mapping (textFields [("file_path", "a.txt"), ("old_string", "a"), ("new_string", "b")]) ∧
      (exec (runTool (m := StateM (Site Memory)) signal (Tool.edit.execute ⟨"/w", "/home", {}⟩ args)) s).1 =
        .ok (Tool.refusedResult .cancelled) ∧
      (exec (runTool (m := StateM (Site Memory)) signal
        (Tool.edit.execute ⟨"/w", "/home", {}⟩ args)) s).2.store = s.store := by
  let s : Site Memory := .ofFile [97]
  let args : Value :=
    .mapping (textFields [("file_path", "a.txt"), ("old_string", "a"), ("new_string", "b")])
  let signal : Signal := some fun n => decide (2 ≤ n)
  obtain ⟨-, hseen⟩ := execute_cancelled (m := StateM (Site Memory)) .edit ⟨"/w", "/home", {}⟩ args
    signal s
  have hevent : (Action.events (StateM (Site Memory)) signal
      (Tool.edit.execute ⟨"/w", "/home", {}⟩ args) (0, s)).any
        (fun e => match e with | .cancelled got => got | _ => false) = true := by decide +kernel
  obtain ⟨e, hmem, he⟩ := List.any_eq_true.mp hevent
  cases e with
  | cancelled got =>
    obtain rfl : got = true := he
    obtain ⟨hstore, hanswer | ⟨f, -, hasked, -⟩ | ⟨f, hdeep, -⟩⟩ := hseen hmem
    · exact ⟨s, args, signal, rfl, rfl, rfl, hanswer, hstore⟩
    · cases hasked
    · have hwords : (Settings.toWords? (Tool.pathGiven args)).toOption.isSome = true := by
        decide +kernel
      rw [hdeep] at hwords
      cases hwords
  | _ => cases he

end Amend
