/-
Amend.Proofs.Retrying — commits that fail and are tried again.

A commit carries out one change after the other, and any of them may go wrong:
the call is refused, or it is carried out and an error reported all the same.
What is left then is the store with the first few changes carried out
(`Shaky.carryOut_store`), and everything is still staged. To carry all changes
out afterwards comes to the same as to carry them out from the start
(`flush_flushTo`): a directory is made once, and a file is written over by
what comes last. This is kept by every failed commit, so the one that
succeeds leaves what a single one would have (`flush_attempts`).

  §1 Calls that go wrong.
  §2 One commit.
  §3 Carrying out again what was begun.
  §4 Any number of commits.
-/
import Amend.Proofs.Overlays

namespace Amend

open Stateful (exec exec_pure exec_bind exec_lift exec_get exec_set)

namespace Overlay

/-! ## §1 Calls that go wrong -/

/-- What can go wrong with a call that changes a store: the error that is
reported, and whether the change was carried out before. -/
structure Mishap where
  error : FileError
  carriedOut : Bool
  deriving DecidableEq, Repr

/-- A store in memory, and what goes wrong with the coming calls that change
it, one after the other. With calls beyond these nothing goes wrong. -/
structure Shaky where
  store : Memory
  ahead : List (Option Mishap) := []
  deriving Repr

namespace Shaky

/-- Changes the store, unless something goes wrong. -/
def change (f : Memory → Memory) (s : Shaky) : Except FileError Unit × Shaky :=
  match s.ahead with
  | some mishap :: ahead =>
    (.error mishap.error, ⟨if mishap.carriedOut then f s.store else s.store, ahead⟩)
  | none :: ahead => (.ok (), ⟨f s.store, ahead⟩)
  | [] => (.ok (), ⟨f s.store, []⟩)

instance : FileStore (StateM Shaky) where
  read path := do return (← get).store.read path
  write path content := change (·.write path content)
  has path := do return (← get).store.has path
  makeDirs path := change (·.makeDirs path)

/-- Carries changes out until something goes wrong. -/
def carryOut : List (Memory → Memory) → Shaky → Except FileError Unit × Shaky
  | [], s => (.ok (), s)
  | f :: fs, s =>
    match s.change f with
    | (.ok (), s') => carryOut fs s'
    | (.error e, s') => (.error e, s')

theorem carryOut_append (fs gs : List (Memory → Memory)) (s : Shaky) :
    carryOut (fs ++ gs) s =
      match carryOut fs s with
      | (.ok (), s') => carryOut gs s'
      | (.error e, s') => (.error e, s') := by
  induction fs generalizing s with
  | nil => rfl
  | cons f fs ih =>
    rw [List.cons_append, carryOut, carryOut]
    cases h : s.change f with
    | mk got s' =>
      cases got with
      | ok _ => exact ih s'
      | error e => rfl

/-- However far it goes, the first few changes are carried out; all of them,
if nothing goes wrong. -/
theorem carryOut_store (fs : List (Memory → Memory)) (s : Shaky) :
    ∃ k, (carryOut fs s).2.store = (fs.take k).foldl (fun m f => f m) s.store ∧
      ((carryOut fs s).1 = .ok () → fs.length ≤ k) := by
  induction fs generalizing s with
  | nil => exact ⟨0, rfl, fun _ => Nat.le_refl 0⟩
  | cons f fs ih =>
    obtain ⟨m, ahead⟩ := s
    have hgoesOn (ahead : List (Option Mishap)) :
        ∃ k, (carryOut fs ⟨f m, ahead⟩).2.store = ((f :: fs).take k).foldl (fun m f => f m) m ∧
          ((carryOut fs ⟨f m, ahead⟩).1 = .ok () → (f :: fs).length ≤ k) := by
      obtain ⟨k, hstore, hall⟩ := ih ⟨f m, ahead⟩
      exact ⟨k + 1, hstore, fun h => Nat.succ_le_succ (hall h)⟩
    match ahead with
    | [] => exact hgoesOn []
    | none :: ahead => exact hgoesOn ahead
    | some ⟨e, true⟩ :: ahead => exact ⟨1, rfl, nofun⟩
    | some ⟨e, false⟩ :: ahead => exact ⟨0, rfl, nofun⟩

/-- All changes are carried out exactly if nothing goes wrong with any. -/
theorem carryOut_eq_ok_iff (fs : List (Memory → Memory)) (s : Shaky) :
    (carryOut fs s).1 = .ok () ↔ ∀ fate ∈ s.ahead.take fs.length, fate = none := by
  induction fs generalizing s with
  | nil => simp [carryOut]
  | cons f fs ih =>
    obtain ⟨m, ahead⟩ := s
    match ahead with
    | [] => simpa [carryOut, change] using ih ⟨f m, []⟩
    | none :: ahead => simpa [carryOut, change] using ih ⟨f m, ahead⟩
    | some mishap :: ahead => simp [carryOut, change]

end Shaky

/-! ## §2 One commit -/

/-- The changes that a commit carries out, in order. -/
def changes (o : Overlay) : List (Memory → Memory) :=
  o.dirs.map (fun dir m => m.makeDirs dir) ++ o.pending.map fun (path, content) m => m.write path content

theorem exec_makeAll_shaky (dirs : List Text) (s : Shaky) :
    exec (makeAll dirs : StateM Shaky (Except FileError Unit)) s =
      Shaky.carryOut (dirs.map fun dir m => m.makeDirs dir) s := by
  induction dirs generalizing s with
  | nil => rfl
  | cons dir dirs ih =>
    have hmake : exec (FileStore.makeDirs dir : StateM Shaky (Except FileError Unit)) s =
      s.change (·.makeDirs dir) := rfl
    rw [makeAll, exec_bind, hmake, List.map_cons, Shaky.carryOut]
    cases h : s.change (·.makeDirs dir) with
    | mk got s' =>
      cases got with
      | ok _ => exact ih s'
      | error e => rfl

theorem exec_writeAll_shaky (files : Table Text Bytes) (s : Shaky) :
    exec (writeAll files : StateM Shaky (Except FileError Unit)) s =
      Shaky.carryOut (files.map fun (path, content) m => m.write path content) s := by
  induction files generalizing s with
  | nil => rfl
  | cons e files ih =>
    have hwrite : exec (FileStore.write e.1 e.2 : StateM Shaky (Except FileError Unit)) s =
      s.change (·.write e.1 e.2) := rfl
    rw [writeAll, exec_bind, hwrite, List.map_cons, Shaky.carryOut]
    cases h : s.change (·.write e.1 e.2) with
    | mk got s' =>
      cases got with
      | ok _ => exact ih s'
      | error e => rfl

/-- A commit of what is staged over such a store: what it returns, and what it
leaves. -/
def attempt (s : Overlay × Shaky) : Except FileError (List Text) × Overlay × Shaky :=
  exec (commit : StateT Overlay (StateM Shaky) (Except FileError (List Text))) s

/-- A commit carries the changes out. Only if that succeeds are they staged no
more. -/
theorem attempt_eq (o : Overlay) (s : Shaky) :
    attempt (o, s) =
      match Shaky.carryOut o.changes s with
      | (.ok (), s') => (.ok o.pending.keys, {}, s')
      | (.error e, s') => (.error e, o, s') := by
  rw [attempt, commit, exec_bind, exec_get, exec_bind, exec_lift, exec_makeAll_shaky, changes,
    Shaky.carryOut_append]
  cases h : Shaky.carryOut (o.dirs.map fun dir m => m.makeDirs dir) s with
  | mk made s' =>
    cases made with
    | error e => rfl
    | ok _ =>
      dsimp only
      rw [exec_bind, exec_lift, exec_writeAll_shaky]
      cases h : Shaky.carryOut (o.pending.map fun (path, content) m => m.write path content) s' with
      | mk wrote s'' => cases wrote <;> rfl

end Overlay

/-! ## §3 Carrying out again what was begun -/

namespace Memory

/-- A directory that is made again leaves the store. -/
theorem makeDirs_eq_self {m : Memory} {dir : Text} (h : dir = [] ∨ Path.normalize dir ∈ m.dirs) :
    m.makeDirs dir = m := by
  rw [makeDirs, if_pos h]

/-- Directories that were made are there, so to make them first of all leaves
no trace. -/
theorem foldl_makeDirs_take (dirs : List Text) (k : Nat) : ∀ m : Memory,
    dirs.foldl makeDirs ((dirs.take k).foldl makeDirs m) = dirs.foldl makeDirs m := by
  induction dirs generalizing k with
  | nil => simp
  | cons dir dirs ih =>
    intro m
    cases k with
    | zero => rfl
    | succ k =>
      have hthere : dir = [] ∨
          Path.normalize dir ∈ ((dirs.take k).foldl makeDirs (m.makeDirs dir)).dirs := by
        by_cases hdir : dir = []
        · exact .inl hdir
        · exact .inr ((mem_dirs_foldl_makeDirs _ _).mpr
            (.inl (mem_dirs_makeDirs.mpr (.inr ⟨hdir, rfl⟩))))
      rw [List.take_succ_cons, List.foldl_cons, List.foldl_cons, List.foldl_cons,
        makeDirs_eq_self hthere]
      exact ih k _

theorem foldl_makeDirs_writeAll (dirs : List Text) (files : Table Text Bytes) : ∀ m : Memory,
    dirs.foldl makeDirs (m.writeAll files) = (dirs.foldl makeDirs m).writeAll files := by
  induction dirs with
  | nil => exact fun _ => rfl
  | cons dir dirs ih =>
    intro m
    rw [List.foldl_cons, List.foldl_cons, makeDirs_writeAll, ih]

/-- What is written to a file that is there and will be written later leaves
no trace. -/
theorem writeAll_write_of_later {path : Text} {files : Table Text Bytes}
    (hlater : ∃ q ∈ files.keys, Path.normalize q = Path.normalize path) (content : Bytes) :
    ∀ m : Memory, Path.normalize path ∈ m.files.keys →
      (m.write path content).writeAll files = m.writeAll files := by
  induction files with
  | nil => simp [Table.keys] at hlater
  | cons e files ih =>
    intro m hthere
    obtain ⟨q, b⟩ := e
    rw [writeAll_cons, writeAll_cons]
    by_cases hq : Path.normalize q = Path.normalize path
    · simp only [write, hq, Table.put_put_self]
    · have hlater' : ∃ q ∈ Table.keys files, Path.normalize q = Path.normalize path := by
        simpa [Table.keys, hq] using hlater
      have hcomm : (m.write path content).write q b = (m.write q b).write path content := by
        simp only [write, Table.put_comm hq hthere]
      rw [hcomm, ih hlater' _ (Table.mem_keys_put.mpr (.inr hthere))]

/-- Writes may be begun before all of them are done: a file holds what is
written to it last, in the place of its first write. -/
theorem writeAll_take (files : Table Text Bytes) (k : Nat) : ∀ m : Memory,
    (m.writeAll (files.take k)).writeAll files = m.writeAll files := by
  induction files generalizing k with
  | nil => simp [writeAll]
  | cons e files ih =>
    intro m
    cases k with
    | zero => rfl
    | succ k =>
      obtain ⟨path, content⟩ := e
      have hthere (begun : Table Text Bytes) :
          Path.normalize path ∈ ((m.write path content).writeAll begun).files.keys := by
        induction begun using List.reverseRecOn with
        | nil => exact Table.mem_keys_put.mpr (.inl rfl)
        | append_singleton begun e ih' =>
          rw [writeAll, List.foldl_append]
          exact Table.mem_keys_put.mpr (.inr ih')
      rw [List.take_succ_cons, writeAll_cons, writeAll_cons, writeAll_cons]
      by_cases hlater : ∃ q ∈ Table.keys files, Path.normalize q = Path.normalize path
      · rw [writeAll_write_of_later hlater content _ (hthere _), ih]
      · have hother : ∀ q ∈ Table.keys (files.take k), Path.normalize q ≠ Path.normalize path := by
          intro q hq hsame
          exact hlater ⟨q, (List.map_subset _ (List.take_subset k files)) hq, hsame⟩
        have hself : (m.write path content).write path content = m.write path content := by
          simp only [write, Table.put_put_self]
        rw [write_writeAll content _ hother _ (Table.mem_keys_put.mpr (.inl rfl)), hself, ih]

end Memory

namespace Overlay

/-- The store with the first of the staged changes carried out. -/
def flushTo (o : Overlay) (k : Nat) (m : Memory) : Memory :=
  (o.changes.take k).foldl (fun m f => f m) m

theorem flushTo_eq (o : Overlay) (k : Nat) (m : Memory) :
    o.flushTo k m =
      ((o.dirs.take k).foldl Memory.makeDirs m).writeAll (o.pending.take (k - o.dirs.length)) := by
  rw [flushTo, changes, List.take_append, List.foldl_append, ← List.map_take, ← List.map_take,
    List.foldl_map, List.foldl_map, List.length_map]
  rfl

/-- When all changes have been carried out, what is staged is. -/
theorem flushTo_of_le (o : Overlay) {k : Nat} (h : o.changes.length ≤ k) (m : Memory) :
    o.flushTo k m = o.flush m := by
  rw [changes, List.length_append, List.length_map, List.length_map] at h
  rw [flushTo_eq, List.take_of_length_le (by omega), List.take_of_length_le (by omega), flush]

/-- To carry out what was begun comes to the same as to carry it out at
once. -/
theorem flush_flushTo (o : Overlay) (k : Nat) (m : Memory) : o.flush (o.flushTo k m) = o.flush m := by
  rw [flush, flushTo_eq, Memory.foldl_makeDirs_writeAll, Memory.foldl_makeDirs_take,
    Memory.writeAll_take, flush]

/-! ## §4 Any number of commits -/

/-- Commits one after the other: what each returns, and what they leave. -/
def attempts : Nat → Overlay × Shaky → List (Except FileError (List Text)) × Overlay × Shaky
  | 0, s => ([], s)
  | n + 1, s =>
    ((attempt s).1 :: (attempts n (attempt s).2).1, (attempts n (attempt s).2).2)

/-- A commit that fails leaves everything staged, and the store so that to
carry it out comes to the same. -/
theorem attempt_of_failure {o : Overlay} {s : Shaky} (h : (attempt (o, s)).1.isOk = false) :
    (attempt (o, s)).2.1 = o ∧ o.flush (attempt (o, s)).2.2.store = o.flush s.store := by
  obtain ⟨k, hstore, -⟩ := Shaky.carryOut_store o.changes s
  have hflush : o.flush (Shaky.carryOut o.changes s).2.store = o.flush s.store := by
    rw [hstore]
    exact flush_flushTo o k s.store
  rw [attempt_eq] at h ⊢
  generalize Shaky.carryOut o.changes s = r at h hflush
  obtain ⟨_ | _, s'⟩ := r
  · exact ⟨rfl, hflush⟩
  · cases h

/-- So do any number of commits that fail. -/
theorem flush_attempts (o : Overlay) (n : Nat) (s : Shaky)
    (h : ∀ got ∈ (attempts n (o, s)).1, got.isOk = false) :
    (attempts n (o, s)).2.1 = o ∧ o.flush (attempts n (o, s)).2.2.store = o.flush s.store := by
  induction n generalizing s with
  | zero => exact ⟨rfl, rfl⟩
  | succ n ih =>
    obtain ⟨hfirst, hrest⟩ := List.forall_mem_cons.mp h
    obtain ⟨hsame, hflush⟩ := attempt_of_failure hfirst
    rw [attempts]
    generalize (attempt (o, s)).2 = s' at hrest hsame hflush ⊢
    obtain ⟨o', s'⟩ := s'
    obtain rfl : o' = o := hsame
    obtain ⟨hstaged, hstore⟩ := ih s' hrest
    exact ⟨hstaged, hstore.trans hflush⟩

/-- Whatever is staged over a store in memory, whatever goes wrong with the
calls of its commits and with which of them: after any number of failed commits
everything is still staged. The next commit succeeds exactly if nothing goes
wrong with its own calls. It then returns the paths, and leaves the files and
directories, that a single commit to a store where nothing goes wrong would
have, and nothing staged. -/
theorem commit_after_failures (o : Overlay) (base : Memory) (ahead : List (Option Mishap)) (n : Nat)
    (hfailed : ∀ got ∈ (attempts n (o, ⟨base, ahead⟩)).1, got.isOk = false) :
    let left := (attempts n (o, ⟨base, ahead⟩)).2
    let single := exec (commit : Layered (Except FileError (List Text))) (o, base)
    left.1 = o ∧
    ((attempt left).1.isOk = true ↔
      ∀ fate ∈ left.2.ahead.take (o.dirs.length + o.pending.length), fate = none) ∧
    ((attempt left).1.isOk = true →
      (attempt left).1 = single.1 ∧ (attempt left).2.1 = {} ∧
        (attempt left).2.2.store = single.2.2) := by
  obtain ⟨hsame, hflush⟩ := flush_attempts o n ⟨base, ahead⟩ hfailed
  generalize (attempts n (o, ⟨base, ahead⟩)).2 = left at hsame hflush
  obtain ⟨o', s⟩ := left
  obtain rfl : o' = o := hsame
  obtain ⟨k, hstore, hall⟩ := Shaky.carryOut_store o'.changes s
  have hok := Shaky.carryOut_eq_ok_iff o'.changes s
  have hlength : o'.changes.length = o'.dirs.length + o'.pending.length := by simp [changes]
  rw [hlength] at hok
  dsimp only
  rw [attempt_eq, exec_commit_layered]
  generalize Shaky.carryOut o'.changes s = r at hstore hall hok
  obtain ⟨e | ⟨⟩, s'⟩ := r
  · exact ⟨rfl, iff_of_false nofun fun h => (nomatch hok.mpr h), nofun⟩
  · refine ⟨rfl, iff_of_true rfl (hok.mp rfl), fun _ => ⟨rfl, rfl, ?_⟩⟩
    rw [← hflush]
    exact hstore.trans (flushTo_of_le o' (hall rfl) s.store)

/-- The first commit is refused after one of its writes, the second one at the
same path in another spelling, which is written all the same. The third
succeeds. -/
theorem third_commit_succeeds :
    ∃ (o : Overlay) (base : Memory) (ahead : List (Option Mishap)) (e : FileError),
      o = ⟨[("a", [1]), ("b", [2]), ("./a", [3])], ["d"]⟩ ∧ base = .ofFiles [("b", [0])] ∧
      e = .system 28 "No space left on device" "a" none ∧
      ahead = [none, none, some ⟨e, false⟩, none, none, none, some ⟨e, true⟩] ∧
      (∀ got ∈ (attempts 2 (o, ⟨base, ahead⟩)).1, got.isOk = false) ∧
      (attempts 2 (o, ⟨base, ahead⟩)).2.1 = o ∧
      (attempt (attempts 2 (o, ⟨base, ahead⟩)).2).1 = .ok ["a", "b", "./a"] ∧
      (attempt (attempts 2 (o, ⟨base, ahead⟩)).2).2.2.store = o.flush base := by
  let o : Overlay := ⟨[("a", [1]), ("b", [2]), ("./a", [3])], ["d"]⟩
  let base : Memory := .ofFiles [("b", [0])]
  let e : FileError := .system 28 "No space left on device" "a" none
  let ahead : List (Option Mishap) :=
    [none, none, some ⟨e, false⟩, none, none, none, some ⟨e, true⟩]
  have hfailed : ∀ got ∈ (attempts 2 (o, ⟨base, ahead⟩)).1, got.isOk = false := by decide +kernel
  obtain ⟨hstaged, hok, hdone⟩ := commit_after_failures o base ahead 2 hfailed
  have hsteady : ∀ fate ∈ (attempts 2 (o, ⟨base, ahead⟩)).2.2.ahead.take 4, fate = none := by
    decide +kernel
  obtain ⟨hpaths, -, hstore⟩ := hdone (hok.mpr hsteady)
  rw [exec_commit_layered] at hpaths hstore
  exact ⟨o, base, ahead, e, rfl, rfl, rfl, rfl, hfailed, hstaged, hpaths, hstore⟩

end Overlay

end Amend
