/-
Amend.Proofs.Stores — what a call does to the files of a store.

Of the events of a call only those that ask for files touch the store
(`Trail.trace`, `trace_quiet`). So what a call does to a store can be read
off its course, and from a store only two things are needed: looking changes
nothing, and a file that was read and then written holds what was written
(`LawfulStore`). A call that succeeds then leaves what its tool decided on
the content it read (`Course.file`); and on a file that can be edited every
call that is not cancelled comes to a decision (`Course.of_editable`).

  §1 Events and stores.
  §2 Lawful stores.
  §3 Calls on a site.
-/
import Amend.Proofs.Calls
import Amend.Tool.Site

namespace Amend

variable {σ : Type} [FileStore (StateM σ)]

/-! ## §1 Events and stores -/

/-- The event can happen in a store and turns it into another. Events that
ask for no file leave every store as it is. -/
def Event.Moves (t t' : σ) : Event → Prop
  | .read path got => (FileStore.read path : StateM σ (Except FileError Bytes)).run t = (got, t')
  | .write path content got =>
    (FileStore.write path content : StateM σ (Except FileError Unit)).run t = (got, t')
  | .has path got => (FileStore.has path : StateM σ Bool).run t = (got, t')
  | .makeDirs path got =>
    (FileStore.makeDirs path : StateM σ (Except FileError Unit)).run t = (got, t')
  | .cancelled _ | .journal _ | .now _ | .append .. => t' = t

/-- The events can happen one after the other and turn the first store into
the second. -/
def Trace : List Event → σ → σ → Prop
  | [], t, t' => t' = t
  | e :: es, t, t' => ∃ t₁, e.Moves t t₁ ∧ Trace es t₁ t'

theorem Event.moves_of_isRecord {e : Event} (h : e.isRecord = true) {t t' : σ} :
    e.Moves t t' ↔ t' = t := by
  cases e with
  | journal _ | now _ | append _ _ _ => rfl
  | _ => cases h

/-- Leaving records touches no store. -/
theorem trace_quiet {es : List Event} {t t' : σ} : Trace (quiet es) t t' ↔ Trace es t t' := by
  induction es generalizing t with
  | nil => rfl
  | cons e es ih =>
    cases hrecord : e.isRecord with
    | true =>
      have hquiet : quiet (e :: es) = quiet es := by simp [quiet, hrecord]
      simp [hquiet, ih, Trace, Event.moves_of_isRecord hrecord]
    | false =>
      have hquiet : quiet (e :: es) = e :: quiet es := by simp [quiet, hrecord]
      simp [hquiet, ih, Trace]

omit [FileStore (StateM σ)] in
/-- A file operation on a site is one on its store. -/
theorem Site.exec_onStore {α : Type} (x : StateM σ α) (n : Nat) (s : Site σ) :
    Stateful.exec (StateT.lift (Site.onStore x) : StateT Nat (StateM (Site σ)) α) (n, s) =
      ((x.run s.store).1, n, { s with store := (x.run s.store).2 }) := rfl

/-- What happens on a site happens to its store. -/
theorem Event.Leads.moves {signal : Signal} {e : Event} {s s' : Nat × Site σ}
    (h : e.Leads (StateM (Site σ)) signal s s') : e.Moves s.2.store s'.2.store := by
  obtain ⟨n, s⟩ := s
  cases e with
  | read _ _ | write _ _ _ | has _ _ | makeDirs _ _ =>
    have h' := (Site.exec_onStore _ n s).symm.trans h
    simp only [Prod.mk.injEq] at h'
    obtain ⟨rfl, rfl⟩ := h'
    rfl
  | cancelled _ =>
    cases signal with
    | none => cases h; rfl
    | some f => cases h; rfl
  | journal _ | now _ | append _ _ _ => cases h; rfl

/-- The signal never says that the call is cancelled. -/
def Signal.Silent (signal : Signal) : Prop := ∀ f, signal = some f → ∀ n, f n = false

theorem Event.Leads.ne_cancelled {signal : Signal} (hsilent : signal.Silent)
    {e : Event} {s s' : Nat × Site σ} (h : e.Leads (StateM (Site σ)) signal s s') :
    e ≠ .cancelled true := by
  rintro rfl
  cases signal with
  | none => cases h
  | some f =>
    have hanswer : f (s.1 + 1) = true := congrArg Prod.fst h
    rw [hsilent f rfl] at hanswer
    cases hanswer

theorem Trail.ne_cancelled {signal : Signal} (hsilent : signal.Silent) {es : List Event}
    {s s' : Nat × Site σ} (h : Trail (StateM (Site σ)) signal es s s') :
    ∀ e ∈ es, e ≠ .cancelled true := by
  induction h with
  | nil s => exact fun e he => nomatch he
  | cons head _ ih => exact List.forall_mem_cons.mpr ⟨head.ne_cancelled hsilent, ih⟩

theorem Trail.trace {signal : Signal} {es : List Event} {s s' : Nat × Site σ}
    (h : Trail (StateM (Site σ)) signal es s s') : Trace es s.2.store s'.2.store := by
  induction h with
  | nil s => exact rfl
  | cons head _ ih => exact ⟨_, head.moves, ih⟩

/-! ## §2 Lawful stores -/

/-- The content of a file in a store, if it can be read. -/
def fileAt (t : σ) (path : Text) : Option Bytes :=
  ((FileStore.read path : StateM σ (Except FileError Bytes)).run t).1.toOption

/-- A store that looking does not change, and in which a file that was read
and then written holds what was written. -/
class LawfulStore (σ : Type) [FileStore (StateM σ)] : Prop where
  read_keeps : ∀ (path : Text) (t : σ),
    ((FileStore.read path : StateM σ (Except FileError Bytes)).run t).2 = t
  has_keeps : ∀ (path : Text) (t : σ), ((FileStore.has path : StateM σ Bool).run t).2 = t
  fileAt_write : ∀ (path : Text) (content : Bytes) (t : σ), (fileAt t path).isSome →
    ((FileStore.write path content : StateM σ (Except FileError Unit)).run t).1 = .ok () →
    fileAt ((FileStore.write path content : StateM σ (Except FileError Unit)).run t).2 path =
      some content

instance : LawfulStore Memory where
  read_keeps _ _ := rfl
  has_keeps _ _ := rfl
  fileAt_write path content t _ _ := by
    have hread : (t.write path content).read path = .ok content := by
      simp [Memory.read, Memory.write]
    exact congrArg Except.toOption hread

omit [FileStore (StateM σ)] in
theorem Faulty.guarded_run {α : Type} (fault : Faults → Option (Int × Text)) (path : Text)
    (x : StateM σ (Except FileError α)) (t : Faulty σ) :
    (guarded fault path x).run t =
      match fault t.faults with
      | some (number, words) => (.error (.system number words path none), t)
      | none => ((x.run t.store).1, { t with store := (x.run t.store).2 }) := by
  change (match fault t.faults with
    | some (number, words) => _
    | none => _ : StateM (Faulty σ) (Except FileError α)).run t = _
  split <;> rfl

/-- A store with faults is as lawful as the store beneath: a file that was
read can be read again. -/
instance [LawfulStore σ] : LawfulStore (Faulty σ) where
  read_keeps path t := by
    change ((Faulty.guarded Faults.read path (FileStore.read path)).run t).2 = t
    rw [Faulty.guarded_run]
    split
    · rfl
    · rw [LawfulStore.read_keeps]
  has_keeps path t := by
    change { t with store := ((FileStore.has path : StateM σ Bool).run t.store).2 } = t
    rw [LawfulStore.has_keeps]
  fileAt_write path content t hread hwrite := by
    have hfile (u : Faulty σ) : fileAt u path =
        match u.faults.read with
        | some _ => none
        | none => fileAt u.store path := by
      change Except.toOption ((Faulty.guarded Faults.read path (FileStore.read path)).run u).1 = _
      rw [Faulty.guarded_run]
      split <;> simp_all [Except.toOption, fileAt]
    change ((Faulty.guarded Faults.write path (FileStore.write path content)).run t).1 = _ at hwrite
    change fileAt ((Faulty.guarded Faults.write path (FileStore.write path content)).run t).2 path = _
    rw [Faulty.guarded_run] at hwrite ⊢
    rw [hfile] at hread
    split at hread
    · cases hread
    · rename_i hreadable
      split at hwrite
      · cases hwrite
      · simp only [hfile, hreadable]
        exact LawfulStore.fileAt_write path content t.store hread hwrite

section Lawful

variable [LawfulStore σ] {t t' : σ} {path : Text}

theorem Event.moves_read {got : Except FileError Bytes} (h : (Event.read path got).Moves t t') :
    t' = t ∧ fileAt t path = got.toOption := by
  have hkeeps := LawfulStore.read_keeps path t
  rw [Event.Moves] at h
  rw [h] at hkeeps
  exact ⟨hkeeps, by rw [fileAt, h]⟩

theorem Event.moves_has {got : Bool} (h : (Event.has path got).Moves t t') : t' = t := by
  have hkeeps := LawfulStore.has_keeps path t
  rw [Event.Moves] at h
  rwa [h] at hkeeps

theorem Event.moves_write {content : Bytes} (hread : (fileAt t path).isSome)
    (h : (Event.write path content (.ok ())).Moves t t') : fileAt t' path = some content := by
  rw [Event.Moves] at h
  have hwrite := LawfulStore.fileAt_write path content t hread (by rw [h])
  rwa [h] at hwrite

/-- What stands before the decision on a file's content leaves the store as
it is. -/
theorem Trace.of_read {raw : Bytes} {es : List Event}
    (h : Trace (.has path true :: .read path (.ok raw) :: .cancelled false :: es) t t') :
    fileAt t path = some raw ∧ Trace es t t' := by
  obtain ⟨t₁, hhas, t₂, hread, t₃, hcancelled, hrest⟩ := h
  obtain rfl := Event.moves_has hhas
  obtain ⟨rfl, hfile⟩ := Event.moves_read hread
  obtain rfl : t₃ = t₂ := hcancelled
  exact ⟨hfile, hrest⟩

/-- A file that is edited with success was there, and holds afterwards what
was decided on its content, be that to keep it. -/
theorem Course.file {place : Text} {absent : Refusal} {decide : Bytes → Decision} {es : List Event}
    {answer : ToolResult} (h : Course place absent decide es (.ok answer)) (ht : Trace es t t') :
    ∃ raw, fileAt t place = some raw ∧
      ((decide raw = .keep answer ∧ fileAt t' place = some raw) ∨
        ∃ content note, decide raw = .rewrite (.ok content) note answer ∧
          fileAt t' place = some content) := by
  cases h with
  | @kept raw _ decided =>
    obtain ⟨hfile, rfl⟩ := ht.of_read
    exact ⟨raw, hfile, .inl ⟨decided, hfile⟩⟩
  | @written raw content note _ decided =>
    obtain ⟨hfile, t₁, rfl, t₂, hwrite, rfl⟩ := ht.of_read
    refine ⟨raw, hfile, .inr ⟨content, note, decided, ?_⟩⟩
    exact Event.moves_write (by rw [hfile]; rfl) hwrite

/-- A file with this content that can be seen, read and written. -/
structure Editable (t : σ) (path : Text) (raw : Bytes) : Prop where
  there : ((FileStore.has path : StateM σ Bool).run t).1 = true
  read : fileAt t path = some raw
  writable : ∀ content,
    ((FileStore.write path content : StateM σ (Except FileError Unit)).run t).1 = .ok ()

/-- Of a file that can be edited everything is decided, unless the call is
cancelled; and what is decided is done, or keeps the file as it is if it has
no bytes. -/
theorem Course.of_editable {place : Text} {absent : Refusal} {decide : Bytes → Decision}
    {es : List Event} {out : Except Failure ToolResult} {raw : Bytes}
    (h : Course place absent decide es out) (ht : Trace es t t') (hfile : Editable t place raw)
    (hquiet : ∀ e ∈ es, e ≠ .cancelled true) :
    match decide raw with
    | .refuse why => out = .error why ∧ fileAt t' place = some raw
    | .keep answer => out = .ok answer ∧ fileAt t' place = some raw
    | .rewrite (.error u) _ _ =>
      out = .error (.fault (.unencodable u)) ∧ fileAt t' place = some raw
    | .rewrite (.ok content) _ answer => out = .ok answer ∧ fileAt t' place = some content := by
  have same {raw' : Bytes} (h' : fileAt t place = some raw') : raw' = raw :=
    Option.some.inj (h'.symm.trans hfile.read)
  cases h with
  | absent =>
    obtain ⟨_, hhas, -⟩ := ht
    rw [Event.Moves] at hhas
    have hthere := hfile.there
    rw [hhas] at hthere
    cases hthere
  | unread e =>
    obtain ⟨_, hhas, _, hread, -⟩ := ht
    obtain rfl := Event.moves_has hhas
    have hnone := (Event.moves_read hread).2
    rw [hfile.read] at hnone
    cases hnone
  | cancelledEarly _ | cancelledLate _ => simp at hquiet
  | @refused raw' why decided =>
    obtain ⟨hread, rfl⟩ := ht.of_read
    obtain rfl := same hread
    rw [decided]
    exact ⟨rfl, hread⟩
  | @kept raw' answer decided =>
    obtain ⟨hread, rfl⟩ := ht.of_read
    obtain rfl := same hread
    rw [decided]
    exact ⟨rfl, hread⟩
  | @unencoded raw' u _ _ decided =>
    obtain ⟨hread, _, rfl, rfl⟩ := ht.of_read
    obtain rfl := same hread
    rw [decided]
    exact ⟨rfl, hread⟩
  | @unwritten raw' content _ _ decided e =>
    obtain ⟨-, _, rfl, _, hwrite, -⟩ := ht.of_read
    have hdone := hfile.writable content
    rw [Event.Moves] at hwrite
    rw [hwrite] at hdone
    cases hdone
  | @written raw' content _ _ decided =>
    obtain ⟨hread, _, rfl, _, hwrite, rfl⟩ := ht.of_read
    obtain rfl := same hread
    rw [decided]
    exact ⟨rfl, Event.moves_write (by rw [hread]; rfl) hwrite⟩

end Lawful

/-- In memory every file that is there can be edited. -/
theorem Memory.editable {m : Memory} {path : Text} {raw : Bytes} (h : fileAt m path = some raw) :
    Editable m path raw where
  there := by
    have hget : m.files.get? (Path.normalize path) = some raw := by
      change (m.read path).toOption = some raw at h
      rw [Memory.read] at h
      split at h
      · rename_i b hb
        rw [hb, Option.some.inj h]
      · cases h
    change m.has path = true
    rw [Memory.has, Table.has, hget]
    rfl
  read := h
  writable _ := rfl

/-! ## §3 Calls on a site -/

theorem Tool.eq_ok_of_settled {args : Value} {reached : Except Failure ToolResult}
    {answer : ToolResult} (h : settled args reached = .ok answer)
    (hsuccess : answer.success = true) : reached = .ok answer := by
  cases reached with
  | ok r =>
    obtain rfl := Except.ok.inj h
    rfl
  | error why =>
    cases why with
    | refused r =>
      obtain rfl := eq_of_noted h
      cases hsuccess
    | file e =>
      simp only [settled] at h
      split at h
      · cases h
      · obtain rfl := eq_of_noted h
        cases hsuccess
    | fault f => cases h

/-- A call of a tool on a site attempts something, which is what happens to
the store, and settles it. -/
theorem Tool.call_attempt {t : Tool} {w : Workplace} {args : Value} {signal : Signal}
    {s s' : Site σ} {out : Except Fault ToolResult}
    (h : (runTool signal (t.execute w args) : StateM (Site σ) _).run s = (out, s')) :
    ∃ reached,
      Attempt w t args (quiet ((t.execute w args).events (StateM (Site σ)) signal (0, s))) reached ∧
      Trace (quiet ((t.execute w args).events (StateM (Site σ)) signal (0, s))) s.store s'.store ∧
      (out = settled args reached ∨ ∃ f, out = .error f) := by
  have hexec : Stateful.exec (runTool (m := StateM (Site σ)) signal (t.execute w args)) s =
    (out, s') := h
  rw [exec_runTool, Prod.mk.injEq] at hexec
  obtain ⟨rfl, rfl⟩ := hexec
  have htrail : Trail (StateM (Site σ)) signal _ (0, s) _ := trail_events (t.execute w args) (0, s)
  have hrun : Run (t.execute w args) (Action.events (StateM (Site σ)) signal _ (0, s)) _ :=
    run_events (t.execute w args) (0, s)
  obtain ⟨reached, hattempt, hout⟩ := run_execute hrun
  refine ⟨reached, hattempt, trace_quiet.mpr htrail.trace, hout.imp id ?_⟩
  rintro ⟨f, hf, -⟩
  exact ⟨f, hf⟩

theorem Tool.events_ne_cancelled (t : Tool) (w : Workplace) (args : Value) {signal : Signal}
    (hsilent : signal.Silent) (s : Site σ) :
    ∀ e ∈ quiet ((t.execute w args).events (StateM (Site σ)) signal (0, s)), e ≠ .cancelled true := by
  have htrail : Trail (StateM (Site σ)) signal _ (0, s) _ := trail_events (t.execute w args) (0, s)
  exact fun e he => htrail.ne_cancelled hsilent e ((List.mem_filter.mp he).1)

/-- A call that succeeds does so because its attempt does. -/
theorem Tool.call_success {t : Tool} {w : Workplace} {args : Value} {signal : Signal}
    {s s' : Site σ} {answer : ToolResult}
    (h : (runTool signal (t.execute w args) : StateM (Site σ) _).run s = (.ok answer, s'))
    (hsuccess : answer.success = true) :
    ∃ es, Attempt w t args es (.ok answer) ∧ Trace es s.store s'.store := by
  obtain ⟨reached, hattempt, htrace, hout | ⟨f, hf⟩⟩ := call_attempt h
  · obtain rfl := eq_ok_of_settled hout.symm hsuccess
    exact ⟨_, hattempt, htrace⟩
  · cases hf

/-- Arguments that are all texts. -/
def textFields (fields : List (String × String)) : List (Value × Value) :=
  fields.map fun (k, v) => (.ofString k, .ofString v)

omit [FileStore (StateM σ)] in
/-- Fields are looked up by their names. -/
theorem field?_cons (k key : String) (v : Value) (fields : List (Value × Value)) :
    Value.field? ((.ofString k, v) :: fields) key =
      if key = k then some v else Value.field? fields key := by
  have hsame : Value.same (.ofString k) (.ofString key) = (key == k) := by
    rw [Bool.eq_iff_iff, Value.ofString, Value.ofString, Value.same, beq_iff_eq, beq_iff_eq,
      Text.ofString, Text.ofString, List.map_inj_right (fun _ _ h => Symbol.char.inj h),
      String.toList_inj, eq_comm]
  unfold Value.field? Value.find?
  rw [List.find?_cons]
  simp only [hsame]
  by_cases hk : key = k
  · rw [beq_iff_eq.mpr hk, if_pos hk]
    rfl
  · rw [beq_false_of_ne hk, if_neg hk]

theorem field?_textFields (fields : List (String × String)) (key : String) :
    Value.field? (textFields fields) key = (fields.lookup key).map Value.ofString := by
  induction fields with
  | nil => rfl
  | cons e fields ih =>
    obtain ⟨k, v⟩ := e
    rw [textFields, List.map_cons, field?_cons, List.lookup_cons]
    by_cases hk : key = k
    · rw [beq_iff_eq.mpr hk, if_pos hk]
      rfl
    · rw [beq_false_of_ne hk, if_neg hk]
      exact ih

/-- A site in memory where `/w/a.txt` is the only file. -/
def Site.ofFile (content : Bytes) : Site Memory := { store := .ofFiles [("/w/a.txt", content)] }

/-- What comes of a call in the directory `/w` of such a site. -/
def callOnFile (t : Tool) (fields : List (String × String)) (content : Bytes) :
    Except Fault ToolResult × Site Memory :=
  (runTool none (t.execute ⟨"/w", "/home", {}⟩ (.mapping (textFields fields))) :
    StateM (Site Memory) _).run (.ofFile content)

omit [FileStore (StateM σ)] in
theorem exists_success {x : Except Fault ToolResult × Site σ}
    (h : x.1.toOption.map ToolResult.success = some true) :
    ∃ answer, x = (.ok answer, x.2) ∧ answer.success = true := by
  obtain ⟨_ | answer, s'⟩ := x
  · cases h
  · exact ⟨answer, rfl, Option.some.inj h⟩

end Amend
