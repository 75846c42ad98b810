/-
Amend.Proofs.Overlays — a store in memory seen through staged changes.

An overlay may be read, written, committed and discarded in any order. What
it holds is told by the operations alone that came after the last commit or
discard (`recent`): the last write to each path, and the paths in the order
of their first write (`Holds`). Every operation keeps it so (`Holds.next`),
hence so does every run (`holds_after`), and what the next operation answers
and leaves can be read off (`overlay_answers`).

  §1 Lists, stores and paths.
  §2 Operations.
  §3 What operations stage.
  §4 One operation.
  §5 Runs.
-/
import Mathlib.Data.List.DropRight
import Amend.Proofs.Staging

namespace Amend

/-! ## §1 Lists, stores and paths -/

/-- A value that was there keeps its place; a new one comes last. -/
theorem eraseDups_concat {α : Type} [BEq α] [LawfulBEq α] (l : List α) (a : α) :
    (l ++ [a]).eraseDups = if a ∈ l.eraseDups then l.eraseDups else l.eraseDups ++ [a] := by
  rw [List.eraseDups_append]
  by_cases h : a ∈ l
  · simp [List.removeAll, h]
  · simp [List.removeAll, h, List.eraseDups_cons]

namespace Memory

/-- Files written under their normal paths are found there, and no others
are touched. -/
theorem get?_writeAll_of_normal {files : Table Text Bytes} (hnodup : files.keys.Nodup)
    (hnormal : ∀ path ∈ files.keys, Path.normalize path = path) (key : Text) :
    ∀ m : Memory, (m.writeAll files).files.get? key =
      (files.get? key).or (m.files.get? key) := by
  induction files with
  | nil => exact fun _ => rfl
  | cons e files ih =>
    intro m
    obtain ⟨path, content⟩ := e
    obtain ⟨hfresh, hrest⟩ := List.nodup_cons.mp hnodup
    obtain ⟨hpath, hothers⟩ := List.forall_mem_cons.mp hnormal
    rw [writeAll_cons, ih hrest hothers, write, hpath, Table.get?_put, Table.get?_cons]
    by_cases h : path = key
    · subst h
      have hnone : Table.get? files path = none := by
        rw [← Option.not_isSome_iff_eq_none]
        exact fun hsome => hfresh (Table.has_iff_mem_keys.mp hsome)
      simp [hnone]
    · simp [h]

end Memory

theorem Path.normalize_ne_nil (path : Text) : normalize path ≠ [] := by
  unfold normalize
  dsimp only
  split
  · exact List.cons_ne_nil _ _
  · assumption

namespace Overlay

open Stateful (exec exec_pure exec_bind exec_lift exec_get)

/-! ## §2 Operations -/

/-- An operation on a store with changes staged over it. -/
inductive Op where
  | read (path : Text)
  | write (path : Text) (content : Bytes)
  | has (path : Text)
  | makeDirs (path : Text)
  | discard
  | commit
  deriving DecidableEq, Repr

/-- What an operation answers. -/
inductive Answer where
  | content (got : Except FileError Bytes)
  | done (result : Except FileError Unit)
  | found (there : Bool)
  | discarded
  | committed (written : Except FileError (List Text))

/-- A store in memory with changes staged over it. -/
abbrev Layered := StateT Overlay (StateM Memory)

namespace Op

/-- Carries the operation out. -/
def run : Op → Layered Answer
  | read path => return .content (← FileStore.read path)
  | write path content => return .done (← FileStore.write path content)
  | has path => return .found (← FileStore.has path)
  | makeDirs path => return .done (← FileStore.makeDirs path)
  | discard => do
    Overlay.discard
    return .discarded
  | commit => return .committed (← Overlay.commit)

/-- What the operation answers where some changes are staged over a store. -/
def answer (op : Op) (s : Overlay × Memory) : Answer := (exec op.run s).1

/-- The staged changes and the store that the operation leaves. -/
def next (op : Op) (s : Overlay × Memory) : Overlay × Memory := (exec op.run s).2

/-- The path the operation names. -/
def path? : Op → Option Text
  | read path | write path _ | has path | makeDirs path => some path
  | discard | commit => none

/-- The operation names no path, or one in its normal form. -/
def Normal (op : Op) : Prop := ∀ path ∈ op.path?, Path.normalize path = path

instance : DecidablePred Normal := fun op => inferInstanceAs (Decidable (∀ _ ∈ op.path?, _))

end Op

/-- The answers to operations, one after the other. -/
def answers : List Op → Overlay × Memory → List Answer
  | [], _ => []
  | op :: ops, s => op.answer s :: answers ops (op.next s)

/-- What operations leave of a store over which nothing is staged at first. -/
def after (base : Memory) (ops : List Op) : Overlay × Memory :=
  ops.foldl (fun s op => op.next s) ({}, base)

theorem after_concat (base : Memory) (ops : List Op) (op : Op) :
    after base (ops ++ [op]) = op.next (after base ops) := by
  rw [after, List.foldl_append]
  rfl

/-! ## §3 What operations stage -/

namespace Op

/-- Whether nothing is staged after the operation. -/
def settles : Op → Bool
  | discard | commit => true
  | _ => false

/-- The content the operation writes to a path, if it does. -/
def contentFor? (path : Text) : Op → Option Bytes
  | write p content => if p = path then some content else none
  | _ => none

/-- The path the operation writes to, if it writes. -/
def written? : Op → Option Text
  | write path _ => some path
  | _ => none

/-- The directory the operation asks for, if it does. -/
def made? : Op → Option Text
  | makeDirs path => some path
  | _ => none

end Op

/-- The operations after the last commit or discard. -/
def recent (ops : List Op) : List Op := ops.rtakeWhile fun op => !op.settles

/-- The content last written to a path since then. -/
def lastWrite? (ops : List Op) (path : Text) : Option Bytes :=
  ((recent ops).filterMap (Op.contentFor? path)).getLast?

/-- The paths written to since then, once each, in the order of first writes. -/
def writtenPaths (ops : List Op) : List Text := ((recent ops).filterMap Op.written?).eraseDups

/-- The directories asked for since then. -/
def madeDirs (ops : List Op) : List Text := (recent ops).filterMap Op.made?

section Concat

variable {ops : List Op} {op : Op}

theorem recent_concat (h : op.settles = false) : recent (ops ++ [op]) = recent ops ++ [op] := by
  rw [recent, List.rtakeWhile_concat, h]
  rfl

theorem recent_concat_of_settles (h : op.settles = true) : recent (ops ++ [op]) = [] := by
  rw [recent, List.rtakeWhile_concat, h]
  rfl

theorem lastWrite?_concat (h : op.settles = false) (path : Text) :
    lastWrite? (ops ++ [op]) path = (op.contentFor? path).or (lastWrite? ops path) := by
  rw [lastWrite?, recent_concat h, List.filterMap_append]
  cases hc : op.contentFor? path with
  | none => simp [hc, lastWrite?]
  | some c => simp [hc]

theorem writtenPaths_concat (h : op.settles = false) (hno : op.written? = none) :
    writtenPaths (ops ++ [op]) = writtenPaths ops := by
  simp [writtenPaths, recent_concat h, hno]

theorem writtenPaths_concat_write (path : Text) (content : Bytes) :
    writtenPaths (ops ++ [.write path content]) =
      if path ∈ writtenPaths ops then writtenPaths ops else writtenPaths ops ++ [path] := by
  rw [writtenPaths, recent_concat rfl, List.filterMap_append]
  exact eraseDups_concat _ path

theorem madeDirs_concat (h : op.settles = false) :
    madeDirs (ops ++ [op]) = madeDirs ops ++ op.made?.toList := by
  rw [madeDirs, recent_concat h, List.filterMap_append]
  cases hd : op.made? <;> simp [hd, madeDirs]

end Concat

/-- The overlay holds what operations staged since the last commit or discard
and nothing else. -/
structure Holds (ops : List Op) (o : Overlay) : Prop where
  content : ∀ path, o.pending.get? path = lastWrite? ops path
  paths : o.pending.keys = writtenPaths ops
  nodup : o.pending.keys.Nodup
  dirs : o.dirs = madeDirs ops

/-! ## §4 One operation -/

section Operation

variable (o : Overlay) (m : Memory) (path : Text)

theorem exec_read : exec (FileStore.read path : Layered (Except FileError Bytes)) (o, m) =
    (match o.pending.get? path with
      | some content => .ok content
      | none => m.read path, o, m) := by
  refine (exec_bind _ _ _).trans ?_
  rw [exec_get]
  dsimp only
  cases h : o.pending.get? path with
  | none =>
    dsimp only
    rw [exec_lift]
    rfl
  | some content => rw [exec_pure]

theorem exec_has : exec (FileStore.has path : Layered Bool) (o, m) =
    (o.pending.has path || m.has path, o, m) := by
  refine (exec_bind _ _ _).trans ?_
  rw [exec_get]
  dsimp only
  cases h : o.pending.has path with
  | false =>
    rw [if_neg Bool.false_ne_true, exec_lift]
    rfl
  | true => rw [if_pos rfl, exec_pure, Bool.true_or]

theorem exec_commit_layered : exec (commit : Layered (Except FileError (List Text))) (o, m) =
    (.ok o.pending.keys, {}, o.flush m) :=
  exec_commit_view id (fun _ _ => rfl) (fun _ _ _ => rfl) o m

theorem answer_read : (Op.read path).answer (o, m) =
    .content (match o.pending.get? path with
      | some content => .ok content
      | none => m.read path) := by
  rw [Op.answer, Op.run, exec_bind, exec_pure, exec_read]

theorem answer_has : (Op.has path).answer (o, m) = .found (o.pending.has path || m.has path) := by
  rw [Op.answer, Op.run, exec_bind, exec_pure, exec_has]

theorem answer_commit : Op.commit.answer (o, m) = .committed (.ok o.pending.keys) := by
  rw [Op.answer, Op.run, exec_bind, exec_pure, exec_commit_layered]

theorem next_read : (Op.read path).next (o, m) = (o, m) := by
  rw [Op.next, Op.run, exec_bind, exec_pure, exec_read]

theorem next_has : (Op.has path).next (o, m) = (o, m) := by
  rw [Op.next, Op.run, exec_bind, exec_pure, exec_has]

theorem next_write (content : Bytes) : (Op.write path content).next (o, m) =
    ({ o with pending := o.pending.put path content }, m) := rfl

theorem next_makeDirs : (Op.makeDirs path).next (o, m) = ({ o with dirs := o.dirs ++ [path] }, m) :=
  rfl

theorem next_discard : Op.discard.next (o, m) = ({}, m) := rfl

theorem next_commit : Op.commit.next (o, m) = ({}, o.flush m) := by
  rw [Op.next, Op.run, exec_bind, exec_pure, exec_commit_layered]

/-- The store itself changes in a commit only. -/
theorem next_store {op : Op} (h : op ≠ .commit) : (op.next (o, m)).2 = m := by
  cases op with
  | read path => rw [next_read]
  | has path => rw [next_has]
  | write path content => rw [next_write]
  | makeDirs path => rw [next_makeDirs]
  | discard => rw [next_discard]
  | commit => exact absurd rfl h

end Operation

namespace Holds

variable {ops : List Op} {o : Overlay}

theorem of_settles {op : Op} (h : op.settles = true) : Holds (ops ++ [op]) {} where
  content path := by rw [lastWrite?, recent_concat_of_settles h]; rfl
  paths := by rw [writtenPaths, recent_concat_of_settles h]; rfl
  nodup := .nil
  dirs := by rw [madeDirs, recent_concat_of_settles h]; rfl

/-- An operation that stages nothing leaves what is held. -/
theorem of_idle (h : Holds ops o) {op : Op} (hgoes : op.settles = false)
    (hcontent : ∀ path, op.contentFor? path = none) (hpath : op.written? = none)
    (hdir : op.made? = none) : Holds (ops ++ [op]) o where
  content path := by rw [lastWrite?_concat hgoes, hcontent, Option.none_or, h.content]
  paths := by rw [writtenPaths_concat hgoes hpath, h.paths]
  nodup := h.nodup
  dirs := by rw [madeDirs_concat hgoes, hdir, h.dirs]; exact (List.append_nil _).symm

theorem write (h : Holds ops o) (path : Text) (content : Bytes) :
    Holds (ops ++ [.write path content]) { o with pending := o.pending.put path content } where
  content q := by
    rw [lastWrite?_concat rfl, Table.get?_put, ← h.content, Op.contentFor?]
    split <;> rfl
  paths := by rw [writtenPaths_concat_write, ← h.paths, Table.keys_put]
  nodup := Table.nodup_keys_put h.nodup path content
  dirs := by rw [madeDirs_concat rfl, ← h.dirs]; exact (List.append_nil _).symm

theorem makeDirs (h : Holds ops o) (path : Text) :
    Holds (ops ++ [.makeDirs path]) { o with dirs := o.dirs ++ [path] } where
  content q := by rw [lastWrite?_concat rfl, h.content]; rfl
  paths := by rw [writtenPaths_concat rfl rfl, h.paths]
  nodup := h.nodup
  dirs := by rw [madeDirs_concat rfl, ← h.dirs]; rfl

theorem next {m : Memory} (h : Holds ops o) (op : Op) :
    Holds (ops ++ [op]) (op.next (o, m)).1 := by
  cases op with
  | read path =>
    rw [next_read]
    exact h.of_idle rfl (fun _ => rfl) rfl rfl
  | has path =>
    rw [next_has]
    exact h.of_idle rfl (fun _ => rfl) rfl rfl
  | write path content =>
    rw [next_write]
    exact h.write path content
  | makeDirs path =>
    rw [next_makeDirs]
    exact h.makeDirs path
  | discard =>
    rw [next_discard]
    exact of_settles rfl
  | commit =>
    rw [next_commit]
    exact of_settles rfl

end Holds

/-! ## §5 Runs -/

variable {ops : List Op}

/-- After any run the overlay holds what was staged since the last commit or
discard. -/
theorem holds_after (base : Memory) (ops : List Op) : Holds ops (after base ops).1 := by
  induction ops using List.reverseRecOn with
  | nil => exact ⟨fun _ => rfl, rfl, .nil, rfl⟩
  | append_singleton ops op ih =>
    rw [after_concat]
    exact ih.next op

theorem mem_of_mem_recent {op : Op} (h : op ∈ recent ops) : op ∈ ops :=
  (List.rtakeWhile_suffix _ ops).subset h

theorem normal_of_mem_writtenPaths (hnormal : ∀ op ∈ ops, op.Normal) {path : Text}
    (h : path ∈ writtenPaths ops) : Path.normalize path = path := by
  obtain ⟨op, hop, hpath⟩ := List.mem_filterMap.mp (List.mem_eraseDups.mp h)
  cases op with
  | write p content =>
    obtain rfl := Option.some.inj hpath
    exact hnormal _ (mem_of_mem_recent hop) p rfl
  | _ => cases hpath

theorem normal_of_mem_madeDirs (hnormal : ∀ op ∈ ops, op.Normal) {dir : Text}
    (h : dir ∈ madeDirs ops) : Path.normalize dir = dir := by
  obtain ⟨op, hop, hdir⟩ := List.mem_filterMap.mp h
  cases op with
  | makeDirs p =>
    obtain rfl := Option.some.inj hdir
    exact hnormal _ (mem_of_mem_recent hop) p rfl
  | _ => cases hdir

namespace Holds

variable {o : Overlay} (h : Holds ops o) (hnormal : ∀ op ∈ ops, op.Normal) (m : Memory)

include h hnormal

/-- A commit leaves the last content of each path written, and every other
file. -/
theorem get?_flush (key : Text) :
    (o.flush m).files.get? key = (lastWrite? ops key).or (m.files.get? key) := by
  have hkeys : ∀ path ∈ o.pending.keys, Path.normalize path = path := fun path hpath =>
    normal_of_mem_writtenPaths hnormal (h.paths ▸ hpath)
  rw [flush, Memory.get?_writeAll_of_normal h.nodup hkeys, Memory.files_foldl_makeDirs, h.content]

theorem mem_dirs_flush (dir : Text) :
    dir ∈ (o.flush m).dirs ↔ dir ∈ m.dirs ∨ dir ∈ madeDirs ops := by
  rw [flush, Memory.dirs_writeAll, Memory.mem_dirs_foldl_makeDirs, h.dirs]
  refine or_congr_right ⟨?_, fun hdir => ?_⟩
  · rintro ⟨made, hmade, -, rfl⟩
    rwa [normal_of_mem_madeDirs hnormal hmade]
  · have hsame := normal_of_mem_madeDirs hnormal hdir
    exact ⟨dir, hdir, hsame ▸ Path.normalize_ne_nil dir, hsame.symm⟩

theorem read_flush {path : Text} (hpath : Path.normalize path = path) :
    (o.flush m).read path =
      match o.pending.get? path with
      | some content => .ok content
      | none => m.read path := by
  rw [Memory.read, Memory.read, hpath, h.get?_flush hnormal, ← h.content]
  cases o.pending.get? path <;> rfl

end Holds

/-- Of a store in memory over which operations in normal paths were staged,
committed and discarded in any order: the store changes in a commit only. A
file reads as it was last written since the last commit or discard, and as
the store has it if it was not. After a discard every answer is that of the
store with nothing staged over it. A commit tells the paths written, once
each in the order of first writes, leaves the last content of each, the
directories asked for and everything else as it was, and no file reads
otherwise after it. -/
theorem overlay_answers (base : Memory) (ops : List Op) (hnormal : ∀ op ∈ ops, op.Normal) :
    (∀ op, op ≠ .commit → (after base (ops ++ [op])).2 = (after base ops).2) ∧
    (∀ path, (Op.read path).answer (after base ops) =
      .content (match lastWrite? ops path with
        | some content => .ok content
        | none => (after base ops).2.read path)) ∧
    (∀ path, (Op.has path).answer (after base ops) =
      .found ((lastWrite? ops path).isSome || (after base ops).2.has path)) ∧
    (∀ later, answers later (after base (ops ++ [.discard])) =
      answers later ({}, (after base ops).2)) ∧
    Op.commit.answer (after base ops) = .committed (.ok (writtenPaths ops)) ∧
    (∀ key, (after base (ops ++ [.commit])).2.files.get? key =
      (lastWrite? ops key).or ((after base ops).2.files.get? key)) ∧
    (∀ dir, dir ∈ (after base (ops ++ [.commit])).2.dirs ↔
      dir ∈ (after base ops).2.dirs ∨ dir ∈ madeDirs ops) ∧
    ∀ path, Path.normalize path = path →
      (Op.read path).answer (after base (ops ++ [.commit])) =
        (Op.read path).answer (after base ops) := by
  have hholds := holds_after base ops
  simp only [after_concat]
  generalize after base ops = s at hholds
  obtain ⟨o, m⟩ := s
  rw [next_discard, next_commit, answer_commit, hholds.paths]
  refine ⟨fun op hop => next_store o m hop, fun path => ?_, fun path => ?_, fun _ => rfl, rfl,
    hholds.get?_flush hnormal m, hholds.mem_dirs_flush hnormal m, fun path hpath => ?_⟩
  · rw [answer_read, hholds.content]
  · rw [answer_has, Table.has, hholds.content]
  · rw [answer_read, answer_read, hholds.read_flush hnormal m hpath]
    rfl

/-- A commit and a discard come before the writes that count, of which one
is written over. -/
theorem overlay_answers_of_second_commit :
    ∃ (base : Memory) (ops : List Op), base = .ofFiles [("/a", [0]), ("/c", [9])] ∧
      ops = [.write "/a" [1], .commit, .write "/c" [7], .discard, .write "/b" [2], .makeDirs "/d",
        .write "/a" [3], .write "/b" [4]] ∧
      (∀ op ∈ ops, op.Normal) ∧
      (Op.read "/a").answer (after base ops) = .content (.ok [3]) ∧
      (Op.read "/c").answer (after base ops) = .content (.ok [9]) ∧
      Op.commit.answer (after base ops) = .committed (.ok ["/b", "/a"]) ∧
      (after base (ops ++ [.commit])).2.files.get? "/b" = some [4] ∧
      (Op.read "/c").answer (after base (ops ++ [.commit])) = .content (.ok [9]) := by
  let base : Memory := .ofFiles [("/a", [0]), ("/c", [9])]
  let ops : List Op := [.write "/a" [1], .commit, .write "/c" [7], .discard, .write "/b" [2],
    .makeDirs "/d", .write "/a" [3], .write "/b" [4]]
  have hnormal : ∀ op ∈ ops, op.Normal := by decide +kernel
  obtain ⟨-, hread, -, -, hcommit, hfiles, -, hsame⟩ := overlay_answers base ops hnormal
  have hc : (Op.read "/c").answer (after base ops) = .content (.ok [9]) := hread "/c"
  refine ⟨base, ops, rfl, rfl, hnormal, hread "/a", hc, hcommit, hfiles "/b", ?_⟩
  rw [hsame "/c" (by decide), hc]

end Overlay

end Amend
