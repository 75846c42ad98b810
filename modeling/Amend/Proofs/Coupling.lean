/-
Amend.Proofs.Coupling — two runs of a tool, side by side.

Two programs are coupled if from states that are related they come to
results and states that are related (`Coupled`). Couplings are put together
as programs are, a question at a time (`Coupled.ask`) and one program after
another (`Coupled.bind`).

The states of interest here are alike but for the content of one file, which
is some bytes in the one and a function of these bytes in the other (`Twin`).
Only who reads the file can tell them apart. So an edit of the file goes
alike in both if what it decides commutes with the function
(`alike_onFile`), and everything else goes alike anyway.

  §1 Programs side by side.
  §2 Stores in which a file is exchanged.
  §3 Twins       — what two such states answer.
  §4 Alike runs.
-/
import Amend.Proofs.Footprint
import Amend.Proofs.Staging

namespace Amend

/-! ## §1 Programs side by side -/

section Coupling

variable {m : Type → Type} {τ : Type} [Monad m] [Surroundings m] [Stateful m τ]
variable {signal : Signal} {α β γ δ : Type}

theorem Action.follow_bind (x : Action ToolQuery α) (f : α → Action ToolQuery β) (s : Nat × τ) :
    (x >>= f).follow m signal s =
      (f (x.follow m signal s).1).follow m signal (x.follow m signal s).2 := by
  induction x generalizing s with
  | done a =>
    rw [follow_done]
    rfl
  | ask q next ih =>
    have hbind : (Action.ask q next >>= f) = .ask q fun b => next b >>= f := rfl
    rw [hbind, follow_ask, follow_ask, ih]

variable (m) in
/-- Started in related states, the programs end with related results in
related states. -/
def Coupled (signal : Signal) (R : Nat × τ → Nat × τ → Prop) (x : Action ToolQuery α)
    (y : Action ToolQuery β) (S : α → β → Nat × τ → Nat × τ → Prop) : Prop :=
  ∀ s s', R s s' → S (x.follow m signal s).1 (y.follow m signal s').1
    (x.follow m signal s).2 (y.follow m signal s').2

namespace Coupled

variable {R : Nat × τ → Nat × τ → Prop} {S : α → β → Nat × τ → Nat × τ → Prop}

theorem done {a : α} {b : β} (h : ∀ s s', R s s' → S a b s s') :
    Coupled m signal R (.done a) (.done b) S := by
  intro s s' hs
  rw [Action.follow_done, Action.follow_done]
  exact h s s' hs

/-- Programs that ask are coupled if the answers are, and what is done with
them. -/
theorem ask {q : ToolQuery γ} {q' : ToolQuery δ} {next : γ → Action ToolQuery α}
    {next' : δ → Action ToolQuery β} {Q : γ → δ → Nat × τ → Nat × τ → Prop}
    (hq : ∀ s s', R s s' → Q (q.reply (m := m) signal s).1 (q'.reply (m := m) signal s').1
      (q.reply (m := m) signal s).2 (q'.reply (m := m) signal s').2)
    (hnext : ∀ c d, Coupled m signal (Q c d) (next c) (next' d) S) :
    Coupled m signal R (.ask q next) (.ask q' next') S := by
  intro s s' hs
  rw [Action.follow_ask, Action.follow_ask]
  exact hnext _ _ _ _ (hq s s' hs)

theorem bind {x : Action ToolQuery γ} {y : Action ToolQuery δ} {f : γ → Action ToolQuery α}
    {g : δ → Action ToolQuery β} {Q : γ → δ → Nat × τ → Nat × τ → Prop}
    (hx : Coupled m signal R x y Q) (hf : ∀ c d, Coupled m signal (Q c d) (f c) (g d) S) :
    Coupled m signal R (x >>= f) (y >>= g) S := by
  intro s s' hs
  rw [Action.follow_bind, Action.follow_bind]
  exact hf _ _ _ _ (hx s s' hs)

end Coupled

end Coupling

/-! ## §2 Stores in which a file is exchanged -/

open FileTable (files)

/-- A store in which the content of a file that is there can be exchanged for
another, and no operation shows it but the reading of that file. -/
class ExchangeStore (σ : Type) [FileStore (StateM σ)] extends FileTable σ where
  exchange : (key : Text) → Bytes → σ → σ
  files_exchange : ∀ (key : Text) (content : Bytes) (t : σ),
    files (exchange key content t) = (files t).put key content
  has_file : ∀ (path : Text) (t : σ), ((files t).get? (Path.normalize path)).isSome →
    ((FileStore.has (m := StateM σ) path).run t).1 = true
  read_file : ∀ (path : Text) (raw : Bytes) (t : σ),
    ((FileStore.read (m := StateM σ) path).run t).1 = .ok raw →
    (files t).get? (Path.normalize path) = some raw
  has_exchange : ∀ (key : Text) (content : Bytes) (path : Text) (t : σ),
    ((files t).get? key).isSome →
    (FileStore.has (m := StateM σ) path).run (exchange key content t) =
      (((FileStore.has (m := StateM σ) path).run t).1,
        exchange key content ((FileStore.has (m := StateM σ) path).run t).2)
  makeDirs_exchange : ∀ (key : Text) (content : Bytes) (path : Text) (t : σ),
    ((files t).get? key).isSome →
    (FileStore.makeDirs (m := StateM σ) path).run (exchange key content t) =
      (((FileStore.makeDirs (m := StateM σ) path).run t).1,
        exchange key content ((FileStore.makeDirs (m := StateM σ) path).run t).2)
  read_exchange : ∀ (key : Text) (content : Bytes) (path : Text) (t : σ),
    ((files t).get? key).isSome →
    (FileStore.read (m := StateM σ) path).run (exchange key content t) =
      (((FileStore.read (m := StateM σ) path).run t).1.map
          fun raw => if Path.normalize path = key then content else raw,
        exchange key content ((FileStore.read (m := StateM σ) path).run t).2)
  write_exchange : ∀ (key : Text) (content : Bytes) (path : Text) (new : Bytes) (t : σ),
    ((files t).get? key).isSome → Path.normalize path ≠ key →
    (FileStore.write (m := StateM σ) path new).run (exchange key content t) =
      (((FileStore.write (m := StateM σ) path new).run t).1,
        exchange key content ((FileStore.write (m := StateM σ) path new).run t).2)
  write_exchanged : ∀ (content : Bytes) (path : Text) (new new' : Bytes) (t : σ),
    ((files t).get? (Path.normalize path)).isSome →
    (FileStore.write (m := StateM σ) path new').run (exchange (Path.normalize path) content t) =
      (((FileStore.write (m := StateM σ) path new).run t).1,
        exchange (Path.normalize path)
          (if ((FileStore.write (m := StateM σ) path new).run t).1.isOk then new' else content)
          ((FileStore.write (m := StateM σ) path new).run t).2)

namespace Memory

/-- The store with another content at a key. -/
def exchange (m : Memory) (key : Text) (content : Bytes) : Memory :=
  { m with files := m.files.put key content }

variable {m : Memory} {key : Text}

theorem read_exchange (h : (m.files.get? key).isSome) (content : Bytes) (path : Text) :
    (m.exchange key content).read path =
      (m.read path).map fun raw => if Path.normalize path = key then content else raw := by
  by_cases hpath : Path.normalize path = key
  · obtain ⟨raw, hraw⟩ := Option.isSome_iff_exists.mp h
    simp [read, exchange, hpath, hraw, Except.map]
  · rw [read, read, exchange, Table.get?_put_of_ne _ content hpath]
    cases m.files.get? (Path.normalize path) with
    | none => rfl
    | some raw => simp [Except.map, hpath]

theorem has_exchange (h : (m.files.get? key).isSome) (content : Bytes) (path : Text) :
    (m.exchange key content).has path = m.has path := by
  simp only [has, exchange, Table.has_put h]

theorem makeDirs_exchange (m : Memory) (key : Text) (content : Bytes) (path : Text) :
    (m.exchange key content).makeDirs path = (m.makeDirs path).exchange key content := by
  by_cases hmade : path = [] ∨ Path.normalize path ∈ m.dirs
  · simp [makeDirs, exchange, hmade]
  · simp [makeDirs, exchange, hmade]

theorem write_exchange (h : (m.files.get? key).isSome) (content : Bytes) {path : Text}
    (hpath : Path.normalize path ≠ key) (new : Bytes) :
    (m.exchange key content).write path new = (m.write path new).exchange key content := by
  have hkey : key ∈ m.files.keys := Table.has_iff_mem_keys.mp h
  simp only [write, exchange, Table.put_comm hpath hkey]

theorem write_exchanged (m : Memory) (content : Bytes) (path : Text) (new new' : Bytes) :
    (m.exchange (Path.normalize path) content).write path new' =
      (m.write path new).exchange (Path.normalize path) new' := by
  simp only [write, exchange, Table.put_put_self]

end Memory

instance : ExchangeStore Memory where
  exchange key content m := m.exchange key content
  files_exchange _ _ _ := rfl
  has_file path t h := by
    change t.has path = true
    have hthere : t.files.has (Path.normalize path) = true := h
    simp [Memory.has, hthere]
  read_file path raw t h := by
    change t.read path = .ok raw at h
    rw [Memory.read] at h
    split at h
    · rename_i hfile
      rw [← Except.ok.inj h]
      exact hfile
    · cases h
  has_exchange _ content path _ h := Prod.ext (Memory.has_exchange h content path) rfl
  makeDirs_exchange key content path t _ :=
    Prod.ext rfl (Memory.makeDirs_exchange t key content path)
  read_exchange _ content path _ h := Prod.ext (Memory.read_exchange h content path) rfl
  write_exchange _ content _ new _ h hpath :=
    Prod.ext rfl (Memory.write_exchange h content hpath new)
  write_exchanged content path new new' t _ :=
    Prod.ext rfl (Memory.write_exchanged t content path new new')

variable {σ : Type} [FileStore (StateM σ)]

/-- A guarded operation shows no more of the file than the operation itself:
if it is refused, nothing happens. Here `g` is what becomes of its answer
and `c` is the content of the file afterwards. -/
theorem Faulty.guarded_exchange [ExchangeStore σ] {α : Type} (fault : Faults → Option (Int × Text))
    (path : Text) {x y : StateM σ (Except FileError α)} {key : Text} {content : Bytes}
    (g : Except FileError α → Except FileError α) (c : Except FileError α → Bytes)
    (hg : ∀ e, g (.error e) = .error e) (hc : ∀ e, c (.error e) = content) {t : Faulty σ}
    (hstore : x.run (ExchangeStore.exchange key content t.store) =
      (g (y.run t.store).1, ExchangeStore.exchange key (c (y.run t.store).1) (y.run t.store).2)) :
    (guarded fault path x).run { t with store := ExchangeStore.exchange key content t.store } =
      (g ((guarded fault path y).run t).1,
        { (guarded fault path y).run t |>.2 with
          store := ExchangeStore.exchange key (c ((guarded fault path y).run t).1)
            ((guarded fault path y).run t).2.store }) := by
  rw [guarded_run, guarded_run]
  cases hfault : fault t.faults with
  | some words =>
    dsimp only
    rw [hg, hc]
  | none =>
    dsimp only
    rw [hstore]

instance [ExchangeStore σ] : ExchangeStore (Faulty σ) where
  exchange key content t := { t with store := ExchangeStore.exchange key content t.store }
  files_exchange key content t := ExchangeStore.files_exchange key content t.store
  has_file path t := ExchangeStore.has_file path t.store
  read_file path raw t h := by
    change ((Faulty.guarded Faults.read path (FileStore.read path)).run t).1 = _ at h
    rw [Faulty.guarded_run] at h
    split at h
    · cases h
    · exact ExchangeStore.read_file path raw t.store h
  has_exchange key content path t h := by
    have hstore := ExchangeStore.has_exchange key content path t.store h
    exact congrArg (fun r => (r.1, { t with store := r.2 })) hstore
  makeDirs_exchange key content path t h :=
    Faulty.guarded_exchange Faults.makeDirs path id (fun _ => content) (fun _ => rfl) (fun _ => rfl)
      (ExchangeStore.makeDirs_exchange key content path t.store h)
  read_exchange key content path t h :=
    Faulty.guarded_exchange Faults.read path
      (Except.map fun raw => if Path.normalize path = key then content else raw)
      (fun _ => content) (fun _ => rfl) (fun _ => rfl)
      (ExchangeStore.read_exchange key content path t.store h)
  write_exchange key content path new t h hne :=
    Faulty.guarded_exchange Faults.write path id (fun _ => content) (fun _ => rfl) (fun _ => rfl)
      (ExchangeStore.write_exchange key content path new t.store h hne)
  write_exchanged content path new new' t h :=
    Faulty.guarded_exchange Faults.write path id (fun got => if got.isOk then new' else content)
      (fun _ => rfl) (fun _ => rfl)
      (ExchangeStore.write_exchanged content path new new' t.store h)

/-! ## §3 Twins -/

section Replies

variable {signal : Signal} {n : Nat} {s : Site σ}

theorem Site.reply_read (path : Text) :
    (ToolQuery.read path).reply (m := StateM (Site σ)) signal (n, s) =
      (((FileStore.read (m := StateM σ) path).run s.store).1, n,
        { s with store := ((FileStore.read (m := StateM σ) path).run s.store).2 }) := rfl

theorem Site.reply_write (path : Text) (content : Bytes) :
    (ToolQuery.write path content).reply (m := StateM (Site σ)) signal (n, s) =
      (((FileStore.write (m := StateM σ) path content).run s.store).1, n,
        { s with store := ((FileStore.write (m := StateM σ) path content).run s.store).2 }) := rfl

theorem Site.reply_has (path : Text) :
    (ToolQuery.has path).reply (m := StateM (Site σ)) signal (n, s) =
      (((FileStore.has (m := StateM σ) path).run s.store).1, n,
        { s with store := ((FileStore.has (m := StateM σ) path).run s.store).2 }) := rfl

theorem Site.reply_makeDirs (path : Text) :
    (ToolQuery.makeDirs path).reply (m := StateM (Site σ)) signal (n, s) =
      (((FileStore.makeDirs (m := StateM σ) path).run s.store).1, n,
        { s with store := ((FileStore.makeDirs (m := StateM σ) path).run s.store).2 }) := rfl

end Replies

variable [ExchangeStore σ] {signal : Signal}

/-- The site with the content of a file exchanged. -/
def Site.exchange (s : Site σ) (key : Text) (content : Bytes) : Site σ :=
  { s with store := ExchangeStore.exchange key content s.store }

/-- The states are alike, but a file holds `raw` in the first and `f raw` in
the second. -/
def Twin (key : Text) (f : Bytes → Bytes) (raw : Bytes) (s s' : Nat × Site σ) : Prop :=
  (files s.2.store).get? key = some raw ∧ s' = (s.1, s.2.exchange key (f raw))

/-- The question is about the content of no file. -/
def ToolQuery.Plain {γ : Type} : ToolQuery γ → Prop
  | .read _ => False
  | .write _ _ => False
  | _ => True

namespace Twin

variable {key : Text} {f : Bytes → Bytes} {raw : Bytes} {s s' : Nat × Site σ}
variable (signal : Signal)

theorem reply_plain (h : Twin key f raw s s') {γ : Type} {q : ToolQuery γ} (hq : q.Plain) :
    (q.reply (m := StateM (Site σ)) signal s').1 = (q.reply (m := StateM (Site σ)) signal s).1 ∧
      Twin key f raw (q.reply (m := StateM (Site σ)) signal s).2
        (q.reply (m := StateM (Site σ)) signal s').2 := by
  obtain ⟨hfile, rfl⟩ := h
  obtain ⟨n, s⟩ := s
  have hthere : ((files s.store).get? key).isSome := by rw [hfile]; rfl
  cases q with
  | read path => exact hq.elim
  | write path content => exact hq.elim
  | has path =>
    have hkeeps := FileTable.files_has path s.store
    rw [Site.reply_has, Site.reply_has, Site.exchange,
      ExchangeStore.has_exchange key (f raw) path s.store hthere]
    exact ⟨rfl, by rw [hkeeps, hfile], rfl⟩
  | makeDirs path =>
    have hkeeps := FileTable.files_makeDirs path s.store
    rw [Site.reply_makeDirs, Site.reply_makeDirs, Site.exchange,
      ExchangeStore.makeDirs_exchange key (f raw) path s.store hthere]
    exact ⟨rfl, by rw [hkeeps, hfile], rfl⟩
  | cancelled =>
    cases signal with
    | none => exact ⟨rfl, hfile, rfl⟩
    | some answer => exact ⟨rfl, hfile, rfl⟩
  | journal r => exact ⟨rfl, hfile, rfl⟩
  | now => exact ⟨rfl, hfile, rfl⟩
  | append path content => exact ⟨rfl, hfile, rfl⟩

/-- Who reads the file sees the difference, and no other. -/
theorem reply_read (h : Twin key f raw s s') (path : Text) :
    ((ToolQuery.read path).reply (m := StateM (Site σ)) signal s').1 =
        ((ToolQuery.read path).reply (m := StateM (Site σ)) signal s).1.map
          (fun b => if Path.normalize path = key then f b else b) ∧
      (∀ b, ((ToolQuery.read path).reply (m := StateM (Site σ)) signal s).1 = .ok b →
        Path.normalize path = key → b = raw) ∧
      Twin key f raw ((ToolQuery.read path).reply (m := StateM (Site σ)) signal s).2
        ((ToolQuery.read path).reply (m := StateM (Site σ)) signal s').2 := by
  obtain ⟨hfile, rfl⟩ := h
  obtain ⟨n, s⟩ := s
  have hthere : ((files s.store).get? key).isSome := by rw [hfile]; rfl
  have hkeeps := FileTable.files_read path s.store
  have hread : ∀ b, ((FileStore.read (m := StateM σ) path).run s.store).1 = .ok b →
      Path.normalize path = key → b = raw := by
    intro b hb hpath
    have hget := ExchangeStore.read_file path b s.store hb
    rw [hpath, hfile] at hget
    exact (Option.some.inj hget).symm
  rw [Site.reply_read, Site.reply_read, Site.exchange,
    ExchangeStore.read_exchange key (f raw) path s.store hthere]
  refine ⟨?_, hread, by rw [hkeeps, hfile], rfl⟩
  dsimp only
  cases hgot : ((FileStore.read (m := StateM σ) path).run s.store).1 with
  | error e => rfl
  | ok b =>
    by_cases hpath : Path.normalize path = key
    · simp [Except.map, hpath, hread b hgot hpath]
    · simp [Except.map, hpath]

/-- The file may be written in both, and is then what was written, or may be
refused in both. -/
theorem reply_write (h : Twin key f raw s s') (path : Text) (content : Bytes) :
    ((ToolQuery.write path (if Path.normalize path = key then f content else content)).reply
        (m := StateM (Site σ)) signal s').1 =
      ((ToolQuery.write path content).reply (m := StateM (Site σ)) signal s).1 ∧
    ∃ after, Twin key f after
      ((ToolQuery.write path content).reply (m := StateM (Site σ)) signal s).2
      ((ToolQuery.write path (if Path.normalize path = key then f content else content)).reply
        (m := StateM (Site σ)) signal s').2 := by
  obtain ⟨hfile, rfl⟩ := h
  obtain ⟨n, s⟩ := s
  have hthere : ((files s.store).get? key).isSome := by rw [hfile]; rfl
  have hput := FileTable.files_write path content s.store
  rw [Site.reply_write, Site.reply_write, Site.exchange]
  by_cases hpath : Path.normalize path = key
  · subst hpath
    rw [if_pos rfl, ExchangeStore.write_exchanged (f raw) path content (f content) s.store hthere]
    refine ⟨rfl, ?_⟩
    cases hdone : ((FileStore.write (m := StateM σ) path content).run s.store).1.isOk with
    | true =>
      rw [hdone, if_pos rfl] at hput
      exact ⟨content, by rw [hput, Table.get?_put_self], rfl⟩
    | false =>
      rw [hdone, if_neg Bool.false_ne_true] at hput
      exact ⟨raw, by rw [hput, hfile], rfl⟩
  · rw [if_neg hpath, ExchangeStore.write_exchange key (f raw) path content s.store hthere hpath]
    refine ⟨rfl, raw, ?_, rfl⟩
    rw [hput]
    split
    · rw [Table.get?_put_of_ne _ content (Ne.symm hpath), hfile]
    · exact hfile

end Twin

/-! ## §4 Alike runs -/

/-- Results that may be a fault. -/
class Faulting (α : Type) where
  fault : Fault → α

instance {α : Type} : Faulting (Except Failure α) := ⟨fun f => .error (.fault f)⟩

instance {α : Type} : Faulting (Except Fault α) := ⟨.error⟩

/-- The results are the same, or both are the fault of a text that holds the
same surrogate, if perhaps at different places. -/
inductive SameBut {α : Type} [Faulting α] : α → α → Prop
  | same (a : α) : SameBut a a
  | moved {u u' : Utf8.Unencodable} (code : u'.code = u.code) (count : u'.count = u.count) :
    SameBut (Faulting.fault (.unencodable u)) (Faulting.fault (.unencodable u'))

theorem SameBut.eq_ok_iff {α : Type} {x y : Except Fault α} (h : SameBut x y) {a : α} :
    x = .ok a ↔ y = .ok a := by
  cases h with
  | same _ => rfl
  | moved _ _ => exact iff_of_false nofun nofun

variable (σ) in
/-- Where the states are twins, the programs give the same result, such places
apart, and leave twins. -/
def Alike {α : Type} [Faulting α] (signal : Signal) (key : Text) (f : Bytes → Bytes) (raw : Bytes)
    (x y : Action ToolQuery α) : Prop :=
  Coupled (StateM (Site σ)) signal (Twin key f raw) x y fun a b s s' =>
    SameBut a b ∧ ∃ after, Twin key f after s s'

namespace Alike

variable {α β γ : Type} [Faulting α] {key : Text} {f : Bytes → Bytes} {raw : Bytes}

theorem done (a : α) : Alike σ signal key f raw (.done a) (.done a) :=
  Coupled.done fun _ _ h => ⟨.same a, raw, h⟩

theorem done_moved {u u' : Utf8.Unencodable} (hcode : u'.code = u.code)
    (hcount : u'.count = u.count) :
    Alike σ signal key f raw (.done (Faulting.fault (.unencodable u) : α))
      (.done (Faulting.fault (.unencodable u'))) :=
  Coupled.done fun _ _ h => ⟨.moved hcode hcount, raw, h⟩

/-- What is done with two results is alike, also where they are faults that
tell different places. -/
theorem bind [Faulting γ] {x y : Action ToolQuery γ} {g h : γ → Action ToolQuery α}
    (hx : Alike σ signal key f raw x y)
    (hnext : ∀ after a, Alike σ signal key f after (g a) (h a))
    (hmoved : ∀ after (u u' : Utf8.Unencodable), u'.code = u.code → u'.count = u.count →
      Alike σ signal key f after (g (Faulting.fault (.unencodable u)))
        (h (Faulting.fault (.unencodable u')))) :
    Alike σ signal key f raw (x >>= g) (y >>= h) := by
  refine Coupled.bind hx fun a b s s' hs => ?_
  obtain ⟨hab, after, htwin⟩ := hs
  cases hab with
  | same a => exact hnext after a s s' htwin
  | moved hcode hcount => exact hmoved after _ _ hcode hcount s s' htwin

theorem ask {q : ToolQuery γ} (hq : q.Plain) {next next' : γ → Action ToolQuery α}
    (hnext : ∀ c, Alike σ signal key f raw (next c) (next' c)) :
    Alike σ signal key f raw (.ask q next) (.ask q next') := by
  refine Coupled.ask (Q := fun c d s s' => d = c ∧ Twin key f raw s s')
    (fun s s' hs => hs.reply_plain signal hq) fun c d s s' hs => ?_
  obtain ⟨rfl, htwin⟩ := hs
  exact hnext d s s' htwin

/-! Steps are put together in the same way. -/

variable {g h : γ → Step β}

theorem throw (e : Failure) :
    Alike σ signal key f raw (throw e : Step β).run (throw e : Step β).run := done _

theorem ask_bind {q : ToolQuery γ} (hq : q.Plain)
    (hnext : ∀ c, Alike σ signal key f raw (g c).run (h c).run) :
    Alike σ signal key f raw (Step.ask q >>= g).run (Step.ask q >>= h).run :=
  ask hq hnext

theorem demand_bind {q : ToolQuery (Except FileError γ)} (hq : q.Plain)
    (hnext : ∀ c, Alike σ signal key f raw (g c).run (h c).run) :
    Alike σ signal key f raw (Step.demand q >>= g).run (Step.demand q >>= h).run := by
  rw [Step.demand, bind_assoc, bind_assoc]
  refine ask_bind hq fun got => ?_
  cases got with
  | error e => exact throw _
  | ok c => exact hnext c

theorem checkCancelled_bind {g h : Unit → Step β}
    (hnext : Alike σ signal key f raw (g ()).run (h ()).run) :
    Alike σ signal key f raw (Step.checkCancelled >>= g).run
      (Step.checkCancelled >>= h).run := by
  rw [Step.checkCancelled, bind_assoc, bind_assoc]
  refine ask_bind trivial fun got => ?_
  cases got with
  | true => exact throw _
  | false => exact hnext

theorem journal_bind (rs : List Record) {g h : Unit → Step β}
    (hnext : Alike σ signal key f raw (g ()).run (h ()).run) :
    Alike σ signal key f raw (Step.journal rs >>= g).run (Step.journal rs >>= h).run := by
  induction rs with
  | nil => exact hnext
  | cons r rs ih =>
    rw [Step.journal, bind_assoc, bind_assoc]
    exact ask_bind trivial fun _ => ih

/-- After a reading the one goes on with what is in the file, the other with
what the function makes of it. -/
theorem read_bind (path : Text) {g h : Bytes → Step β}
    (hnext : ∀ b, (Path.normalize path = key → b = raw) → Alike σ signal key f raw (g b).run
      (h (if Path.normalize path = key then f b else b)).run) :
    Alike σ signal key f raw (Step.demand (.read path) >>= g).run
      (Step.demand (.read path) >>= h).run := by
  rw [Step.demand, bind_assoc, bind_assoc]
  refine Coupled.ask (Q := fun c d s s' =>
    d = c.map (fun b => if Path.normalize path = key then f b else b) ∧
      (∀ b, c = .ok b → Path.normalize path = key → b = raw) ∧ Twin key f raw s s')
    (fun s s' hs => hs.reply_read signal path) fun c d s s' hs => ?_
  obtain ⟨rfl, hraw, htwin⟩ := hs
  cases c with
  | error e => exact throw _ s s' htwin
  | ok b => exact hnext b (hraw b rfl) s s' htwin

theorem write_bind (path : Text) (content : Bytes) {g h : Unit → Step β}
    (hnext : ∀ after, Alike σ signal key f after (g ()).run (h ()).run) :
    Alike σ signal key f raw (Step.demand (.write path content) >>= g).run
      (Step.demand (.write path (if Path.normalize path = key then f content else content)) >>=
        h).run := by
  rw [Step.demand, bind_assoc, Step.demand, bind_assoc]
  refine Coupled.ask (Q := fun c d s s' => d = c ∧ ∃ after, Twin key f after s s')
    (fun s s' hs => hs.reply_write signal path content) fun c d s s' hs => ?_
  obtain ⟨rfl, after, htwin⟩ := hs
  cases d with
  | error e => exact throw _ s s' htwin
  | ok c => exact hnext after s s' htwin

/-- Another file is written alike in both. -/
theorem write_bind_of_ne {path : Text} (hpath : Path.normalize path ≠ key) (content : Bytes)
    {g h : Unit → Step β}
    (hnext : ∀ after, Alike σ signal key f after (g ()).run (h ()).run) :
    Alike σ signal key f raw (Step.demand (.write path content) >>= g).run
      (Step.demand (.write path content) >>= h).run := by
  have hwrite : Alike σ signal key f raw _ _ := write_bind path content hnext
  rwa [if_neg hpath] at hwrite

end Alike

end Amend
