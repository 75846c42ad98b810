/-
Amend.Proofs.Runs — the runs of a tool, and the states they lead through.

A tool is a tree of questions. A run is a path through the tree: the
questions asked, each with the answer it got, and the result at the end.
What a tool may do is said of its runs alone, whatever the surroundings
answer. In surroundings that have a state a tool follows one of its runs
(`run_events`), with the answers that the states give (`trail_events`), and
any run answered so is that one (`follow_eq_of_run`).

  §1 Events and runs.
  §2 Runs of steps — one equation for each way of putting steps together.
  §3 Surroundings with a state.
-/
import Amend.Tool.Basic

namespace Amend

/-! ## §1 Events and runs -/

/-- A question that was asked, with the answer it got. -/
inductive Event where
  | read (path : Text) (got : Except FileError Bytes)
  | write (path : Text) (content : Bytes) (got : Except FileError Unit)
  | has (path : Text) (got : Bool)
  | makeDirs (path : Text) (got : Except FileError Unit)
  | cancelled (got : Bool)
  | journal (r : Record)
  | now (got : Text)
  | append (path : Text) (content : Bytes) (got : Except FileError Unit)

/-- The event of a question that gets an answer. -/
def ToolQuery.event {β : Type} : ToolQuery β → β → Event
  | .read path, got => .read path got
  | .write path content, got => .write path content got
  | .has path, got => .has path got
  | .makeDirs path, got => .makeDirs path got
  | .cancelled, got => .cancelled got
  | .journal r, _ => .journal r
  | .now, got => .now got
  | .append path content, got => .append path content got

/-- The program may ask and be answered as the events say and then be done
with the result. -/
inductive Run {α : Type} : Action ToolQuery α → List Event → α → Prop
  | done (a : α) : Run (.done a) [] a
  | ask {β : Type} {next : β → Action ToolQuery α} {es : List Event} {r : α} (q : ToolQuery β)
      (b : β) (rest : Run (next b) es r) : Run (.ask q next) (q.event b :: es) r

namespace Run

variable {α β : Type} {es : List Event}

theorem pure_iff {a r : α} : Run (pure a : Action ToolQuery α) es r ↔ es = [] ∧ r = a := by
  constructor
  · intro h
    cases h
    exact ⟨rfl, rfl⟩
  · rintro ⟨rfl, rfl⟩
    exact .done r

theorem ask_iff {q : ToolQuery β} {next : β → Action ToolQuery α} {r : α} :
    Run (.ask q next) es r ↔ ∃ b es', es = q.event b :: es' ∧ Run (next b) es' r := by
  constructor
  · intro h
    cases h with
    | ask _ b rest => exact ⟨b, _, rfl, rest⟩
  · rintro ⟨b, es', rfl, rest⟩
    exact .ask q b rest

/-- A run of two programs in a row is a run of the first and one of the
second. -/
theorem bind_iff {x : Action ToolQuery α} {f : α → Action ToolQuery β} {r : β} :
    Run (x >>= f) es r ↔ ∃ a es₁ es₂, es = es₁ ++ es₂ ∧ Run x es₁ a ∧ Run (f a) es₂ r := by
  induction x generalizing es with
  | done a =>
    constructor
    · intro h
      exact ⟨a, [], es, rfl, .done a, h⟩
    · rintro ⟨_, _, _, rfl, hx, hf⟩
      obtain ⟨rfl, rfl⟩ := pure_iff.mp hx
      exact hf
  | ask q next ih =>
    have hbind : (Action.ask q next >>= f) = .ask q fun b => next b >>= f := rfl
    rw [hbind, ask_iff]
    constructor
    · rintro ⟨b, es', rfl, h⟩
      obtain ⟨a, es₁, es₂, rfl, hx, hf⟩ := (ih b).mp h
      exact ⟨a, q.event b :: es₁, es₂, rfl, .ask q b hx, hf⟩
    · rintro ⟨a, es₁, es₂, rfl, hx, hf⟩
      obtain ⟨b, es', rfl, hnext⟩ := ask_iff.mp hx
      exact ⟨b, es' ++ es₂, rfl, (ih b).mpr ⟨a, es', es₂, rfl, hnext, hf⟩⟩

theorem query_bind_iff {q : ToolQuery α} {f : α → Action ToolQuery β} {r : β} :
    Run (Action.query q >>= f) es r ↔ ∃ b es', es = q.event b :: es' ∧ Run (f b) es' r :=
  ask_iff

end Run

/-! ## §2 Runs of steps -/

namespace Step

variable {α β : Type} {es : List Event} {r : Except Failure β}

theorem run_pure_iff {b : β} : Run (pure b : Step β).run es r ↔ es = [] ∧ r = .ok b :=
  Run.pure_iff

theorem run_throw_iff {e : Failure} : Run (throw e : Step β).run es r ↔ es = [] ∧ r = .error e :=
  Run.pure_iff

/-- A step that fails is not gone on from. -/
theorem throw_bind (e : Failure) (f : α → Step β) : (throw e >>= f) = throw e := rfl

theorem run_ask_bind_iff {q : ToolQuery α} {f : α → Step β} :
    Run (ask q >>= f).run es r ↔ ∃ b es', es = q.event b :: es' ∧ Run (f b).run es' r :=
  Run.ask_iff

/-- A file operation is refused, and the step fails, or its answer is used. -/
theorem run_demand_bind_iff {q : ToolQuery (Except FileError α)} {f : α → Step β} :
    Run (demand q >>= f).run es r ↔
      (∃ e, es = [q.event (.error e)] ∧ r = .error (.file e)) ∨
        ∃ a es', es = q.event (.ok a) :: es' ∧ Run (f a).run es' r := by
  rw [demand, bind_assoc, run_ask_bind_iff]
  constructor
  · rintro ⟨e | a, es', rfl, h⟩
    · obtain ⟨rfl, rfl⟩ := run_throw_iff.mp h
      exact .inl ⟨e, rfl, rfl⟩
    · exact .inr ⟨a, es', rfl, h⟩
  · rintro (⟨e, rfl, rfl⟩ | ⟨a, es', rfl, h⟩)
    · exact ⟨.error e, [], rfl, .done _⟩
    · exact ⟨.ok a, es', rfl, h⟩

theorem run_checkCancelled_bind_iff {f : Unit → Step β} :
    Run (checkCancelled >>= f).run es r ↔
      (es = [.cancelled true] ∧ r = .error (.refused .cancelled)) ∨
        ∃ es', es = .cancelled false :: es' ∧ Run (f ()).run es' r := by
  rw [checkCancelled, bind_assoc, run_ask_bind_iff]
  constructor
  · rintro ⟨_ | _, es', rfl, h⟩
    · exact .inr ⟨es', rfl, h⟩
    · obtain ⟨rfl, rfl⟩ := run_throw_iff.mp h
      exact .inl ⟨rfl, rfl⟩
  · rintro (⟨rfl, rfl⟩ | ⟨es', rfl, h⟩)
    · exact ⟨true, [], rfl, .done _⟩
    · exact ⟨false, es', rfl, h⟩

theorem run_journal_bind_iff {rs : List Record} {f : Unit → Step β} :
    Run (journal rs >>= f).run es r ↔ ∃ es', es = rs.map .journal ++ es' ∧ Run (f ()).run es' r := by
  induction rs generalizing es with
  | nil => simp [journal]
  | cons record rs ih =>
    rw [journal, bind_assoc, run_ask_bind_iff]
    constructor
    · rintro ⟨_, es', rfl, h⟩
      obtain ⟨es'', rfl, hf⟩ := ih.mp h
      exact ⟨es'', rfl, hf⟩
    · rintro ⟨es', rfl, h⟩
      exact ⟨(), _, rfl, ih.mpr ⟨es', rfl, h⟩⟩

end Step

/-! ## §3 Surroundings with a state -/

/-- A monad whose programs are functions of a state. -/
class Stateful (m : Type → Type) [Monad m] (τ : outParam Type) where
  /-- The result of a program started in a state, and the state it leaves. -/
  exec : {α : Type} → m α → τ → α × τ
  exec_pure : ∀ {α : Type} (a : α) (t : τ), exec (pure a) t = (a, t)
  exec_bind : ∀ {α β : Type} (x : m α) (f : α → m β) (t : τ),
    exec (x >>= f) t = exec (f (exec x t).1) (exec x t).2

open Stateful (exec exec_pure exec_bind)

instance (τ : Type) : Stateful (StateM τ) τ where
  exec x t := x.run t
  exec_pure _ _ := rfl
  exec_bind _ _ _ := rfl

instance {m : Type → Type} {σ τ : Type} [Monad m] [Stateful m τ] :
    Stateful (StateT σ m) (σ × τ) where
  exec x s := ((exec (x.run s.1) s.2).1.1, (exec (x.run s.1) s.2).1.2, (exec (x.run s.1) s.2).2)
  exec_pure a s := by simp [exec_pure]
  exec_bind x f s := by simp [exec_bind]

namespace Stateful

variable {m : Type → Type} {σ τ : Type} [Monad m] [Stateful m τ] {α : Type}

theorem exec_lift (x : m α) (s : σ) (t : τ) :
    exec (StateT.lift x : StateT σ m α) (s, t) = ((exec x t).1, s, (exec x t).2) := by
  show ((exec (x >>= fun a => pure (a, s)) t).1.1, (exec (x >>= fun a => pure (a, s)) t).1.2,
    (exec (x >>= fun a => pure (a, s)) t).2) = _
  rw [exec_bind, exec_pure]

theorem exec_get (s : σ) (t : τ) : exec (get : StateT σ m σ) (s, t) = (s, s, t) := by
  show ((exec (pure (s, s) : m (σ × σ)) t).1.1, (exec (pure (s, s) : m (σ × σ)) t).1.2,
    (exec (pure (s, s) : m (σ × σ)) t).2) = _
  rw [exec_pure]

theorem exec_set (s s' : σ) (t : τ) :
    exec (set s' : StateT σ m PUnit) (s, t) = (⟨⟩, s', t) := by
  show ((exec (pure (⟨⟩, s') : m (PUnit × σ)) t).1.1, (exec (pure (⟨⟩, s') : m (PUnit × σ)) t).1.2,
    (exec (pure (⟨⟩, s') : m (PUnit × σ)) t).2) = _
  rw [exec_pure]

end Stateful

section Execution

variable {m : Type → Type} {τ : Type} [Monad m] [Surroundings m] [Stateful m τ] {α : Type}
variable {signal : Signal} {es : List Event} {s s' : Nat × τ}

/-- The answer to a question; the state is how often the signal was looked
at, and that of the surroundings. -/
def ToolQuery.reply (signal : Signal) (q : ToolQuery α) (s : Nat × τ) : α × Nat × τ :=
  exec (q.answer (m := m) signal) s

variable (m) in
/-- The event happens in the first state and leads to the second. -/
def Event.Leads (signal : Signal) (s s' : Nat × τ) : Event → Prop
  | .read path got => ToolQuery.reply (m := m) signal (.read path) s = (got, s')
  | .write path content got => ToolQuery.reply (m := m) signal (.write path content) s = (got, s')
  | .has path got => ToolQuery.reply (m := m) signal (.has path) s = (got, s')
  | .makeDirs path got => ToolQuery.reply (m := m) signal (.makeDirs path) s = (got, s')
  | .cancelled got => ToolQuery.reply (m := m) signal .cancelled s = (got, s')
  | .journal r => ToolQuery.reply (m := m) signal (.journal r) s = ((), s')
  | .now got => ToolQuery.reply (m := m) signal .now s = (got, s')
  | .append path content got => ToolQuery.reply (m := m) signal (.append path content) s = (got, s')

theorem ToolQuery.event_leads_iff {q : ToolQuery α} {b : α} :
    (q.event b).Leads m signal s s' ↔ q.reply (m := m) signal s = (b, s') := by
  cases q <;> rfl

variable (m) in
/-- The events happen one after the other, from the first state to the
second. -/
inductive Trail (signal : Signal) : List Event → Nat × τ → Nat × τ → Prop
  | nil (s : Nat × τ) : Trail signal [] s s
  | cons {e : Event} {es : List Event} {s s₁ s₂ : Nat × τ} (head : e.Leads m signal s s₁)
      (tail : Trail signal es s₁ s₂) : Trail signal (e :: es) s s₂

variable (m) in
/-- What comes of a tool from a state on: its result, and the state it
leaves. -/
def Action.follow (signal : Signal) (a : Action ToolQuery α) (s : Nat × τ) : α × Nat × τ :=
  exec (Action.run (m := StateT Nat m) (ToolQuery.answer signal) a) s

theorem Action.follow_done (a : α) : (Action.done a).follow m signal s = (a, s) :=
  exec_pure a s

theorem Action.follow_ask {β : Type} (q : ToolQuery β) (next : β → Action ToolQuery α) :
    (Action.ask q next).follow m signal s =
      (next (q.reply (m := m) signal s).1).follow m signal (q.reply (m := m) signal s).2 :=
  exec_bind _ _ s

variable (m) in
/-- The events of a tool that is followed from a state on. -/
def Action.events (signal : Signal) : Action ToolQuery α → Nat × τ → List Event
  | .done _, _ => []
  | .ask q next, s =>
    q.event (q.reply (m := m) signal s).1 ::
      (next (q.reply (m := m) signal s).1).events signal (q.reply (m := m) signal s).2

/-- What is followed is a run. -/
theorem run_events (a : Action ToolQuery α) (s : Nat × τ) :
    Run a (a.events m signal s) (a.follow m signal s).1 := by
  induction a generalizing s with
  | done a =>
    rw [Action.follow_done]
    exact .done a
  | ask q next ih =>
    rw [Action.follow_ask]
    exact .ask q _ (ih _ _)

/-- The run that is followed is answered as the states say. -/
theorem trail_events (a : Action ToolQuery α) (s : Nat × τ) :
    Trail m signal (a.events m signal s) s (a.follow m signal s).2 := by
  induction a generalizing s with
  | done a =>
    rw [Action.follow_done]
    exact .nil s
  | ask q next ih =>
    rw [Action.follow_ask]
    exact .cons (ToolQuery.event_leads_iff.mpr rfl) (ih _ _)

/-- A run answered as the states say is the one that is followed. -/
theorem follow_eq_of_run {a : Action ToolQuery α} {r : α} (hrun : Run a es r)
    (htrail : Trail m signal es s s') : a.follow m signal s = (r, s') := by
  induction hrun generalizing s with
  | done a =>
    cases htrail
    rw [Action.follow_done]
  | ask q b _ ih =>
    cases htrail with
    | cons head tail =>
      rw [Action.follow_ask, ToolQuery.event_leads_iff.mp head]
      exact ih tail

/-- A tool is run with a signal that was not looked at yet. -/
theorem exec_runTool [LawfulMonad m] (a : Action ToolQuery α) (t : τ) :
    exec (runTool (m := m) signal a) t =
      ((a.follow m signal (0, t)).1, (a.follow m signal (0, t)).2.2) := by
  rw [runTool, StateT.run', map_eq_pure_bind, exec_bind, exec_pure]
  rfl

end Execution

end Amend
