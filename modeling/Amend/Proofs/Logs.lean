/-
Amend.Proofs.Logs — a log grows by what is appended to it.

Before each entry the directory of a log is made. Once it is there this
changes nothing, as every directory on the way to it is there as well
(`makeDirs_of_isDirectory`), and a walk that comes through goes on coming
through when a file is put where nothing was (`walk_putNode`). So after the
first entry only the log itself changes: it holds the entries one after the
other (`run_appendMaking_again`).

  §1 The parts of a path.
  §2 Walks that come through.
  §3 Directories that are there.
  §4 Room for a log.
-/
import Mathlib.Data.List.TakeWhile
import Amend.Proofs.Replacing

namespace Amend

namespace Path

/-! ## §1 The parts of a path -/

/-- A path is cut at a slash: the first part leads to where the name after it is
found, and ends in a slash only if it is nothing but slashes. -/
structure Cut (path head tail : Text) : Prop where
  begins : ∃ rest, path = head ++ rest
  entries_eq : entries path = entries head ++ entries tail
  no_slash : slash ∉ tail
  slashes : head.getLast? = some slash → ∀ s ∈ head, s = slash

theorem entries_append_replicate (t : Text) (count : Nat) :
    entries (t ++ List.replicate count slash) = entries t := by
  induction count generalizing t with
  | zero => rw [List.replicate_zero, List.append_nil]
  | succ count ih =>
    rw [List.replicate_succ, ← List.singleton_append, ← List.append_assoc, ih,
      entries_append_singleton]

theorem exists_trimSlashes (t : Text) :
    (∃ count, t = trimSlashes t ++ List.replicate count slash) ∧
      (trimSlashes t).getLast? ≠ some slash := by
  constructor
  · refine ⟨(t.reverse.takeWhile (· = slash)).length, ?_⟩
    have hslashes : t.reverse.takeWhile (· = slash) =
        List.replicate (t.reverse.takeWhile (· = slash)).length slash :=
      List.eq_replicate_iff.mpr ⟨rfl, fun s hs => by simpa using List.mem_takeWhile_imp hs⟩
    rw [trimSlashes, ← List.reverse_replicate, ← hslashes, ← List.reverse_append,
      List.takeWhile_append_dropWhile, List.reverse_reverse]
  · rw [trimSlashes, List.getLast?_reverse]
    intro hlast
    have hnot := List.head?_dropWhile_not (· = slash) t.reverse
    rw [hlast] at hnot
    simp at hnot

/-- What stands before the last name of a path is nothing or ends in a slash. -/
theorem exists_before_split (path : Text) : ∃ before, path = before ++ (split path).2 ∧
    slash ∉ (split path).2 ∧ (before = [] ∨ before.getLast? = some slash) ∧
      (split path).1 = if before.all (· = slash) then before else trimSlashes before := by
  have hpath : path = (path.reverse.dropWhile (· ≠ slash)).reverse ++ (split path).2 := by
    rw [split, ← List.reverse_append, List.takeWhile_append_dropWhile, List.reverse_reverse]
  generalize hbefore : (path.reverse.dropWhile (· ≠ slash)).reverse = before at hpath
  have htake : path.take (path.length - (split path).2.length) = before := by
    have hlength := congrArg List.length hpath
    rw [List.length_append] at hlength
    rw [hlength, Nat.add_sub_cancel]
    nth_rewrite 1 [hpath]
    exact List.take_left
  refine ⟨before, hpath, fun hmem => ?_, ?_, ?_⟩
  · have hne := List.mem_takeWhile_imp (List.mem_reverse.mp hmem)
    simp at hne
  · rw [← hbefore, List.getLast?_reverse]
    cases hlast : (path.reverse.dropWhile (· ≠ slash)).head? with
    | none => exact .inl (by rw [List.head?_eq_none_iff.mp hlast, List.reverse_nil])
    | some s =>
      have hnot := List.head?_dropWhile_not (· ≠ slash) path.reverse
      rw [hlast] at hnot
      exact .inr (by simpa using hnot)
  · rw [← htake]
    rfl

theorem cut_split (path : Text) : Cut path (split path).1 (split path).2 := by
  obtain ⟨before, hpath, hname, hbefore, hhead⟩ := exists_before_split path
  have hslashes : ∃ count, before = (split path).1 ++ List.replicate count slash := by
    rw [hhead]
    split
    · exact ⟨0, (List.append_nil before).symm⟩
    · exact (exists_trimSlashes before).1
  obtain ⟨count, hcount⟩ := hslashes
  refine ⟨⟨List.replicate count slash ++ (split path).2, ?_⟩, ?_, hname, fun hlast => ?_⟩
  · rw [← List.append_assoc, ← hcount]
    exact hpath
  · have hentries : entries path = entries before ++ entries (split path).2 := by
      obtain rfl | hlast := hbefore
      · rw [List.nil_append] at hpath
        nth_rewrite 1 [hpath]
        rfl
      · obtain ⟨init, rfl⟩ := List.getLast?_eq_some_iff.mp hlast
        rw [entries_append_singleton, ← entries_append_slash]
        nth_rewrite 1 [hpath]
        rw [List.append_assoc]
        rfl
    rw [hentries, hcount, entries_append_replicate]
  · rw [hhead] at hlast ⊢
    split at hlast
    · rename_i hall
      rw [if_pos hall]
      simpa using hall
    · exact absurd hlast (exists_trimSlashes before).2

/-- Without a name after it the first part is cut again. -/
theorem Cut.trans {path head tail first last : Text} (h : Cut path head tail) (htail : tail = [])
    (h' : Cut head first last) : Cut path first last := by
  obtain ⟨rest, hrest⟩ := h.begins
  obtain ⟨rest', hrest'⟩ := h'.begins
  refine ⟨⟨rest' ++ rest, by rw [hrest, hrest', List.append_assoc]⟩, ?_, h'.no_slash, h'.slashes⟩
  rw [h.entries_eq, htail, show entries [] = [] from rfl, List.append_nil, h'.entries_eq]

end Path

namespace Disk

open Amend.Path

/-! ## §2 Walks that come through -/

/-- The walks that come through, and where they end. -/
inductive Walks (d : Disk) : (current : Place) → List Text → Place × Bool → Prop
  | stop (current : Place) : Walks d current [] (current, false)
  | here {current : Place} {ns : List Text} {r : Place × Bool}
      (search : d.allows current .search = true) (rest : Walks d current ns r) :
      Walks d current (here :: ns) r
  | above {current : Place} {ns : List Text} {r : Place × Bool}
      (search : d.allows current .search = true) (rest : Walks d current.dropLast ns r) :
      Walks d current (above :: ns) r
  | last {current : Place} {n : Text} (search : d.allows current .search = true)
      (ne_here : n ≠ Path.here) (ne_above : n ≠ Path.above) (short : byteLength n ≤ nameLimit) :
      Walks d current [n] (current ++ [n], true)
  | down {current : Place} {n m : Text} {ms : List Text} {r : Place × Bool} {mode : Nat}
      (search : d.allows current .search = true) (ne_here : n ≠ Path.here)
      (ne_above : n ≠ Path.above) (short : byteLength n ≤ nameLimit)
      (node : d.node? (current ++ [n]) = some (.directory mode))
      (rest : Walks d (current ++ [n]) (m :: ms) r) : Walks d current (n :: m :: ms) r

variable {d : Disk} {current : Place} {ns : List Text} {r : Place × Bool}

theorem Walks.walk_eq (h : Walks d current ns r) : d.walk current ns = .ok r := by
  induction h with
  | stop current => rfl
  | here search rest ih => simpa [walk, search] using ih
  | above search rest ih => simpa [walk, search, show Path.above ≠ Path.here by decide] using ih
  | last search ne_here ne_above short =>
    simp [walk, search, ne_here, ne_above, Nat.not_lt.mpr short]
  | down search ne_here ne_above short node rest ih =>
    simpa [walk, search, ne_here, ne_above, Nat.not_lt.mpr short, node] using ih

theorem walks_of_walk_eq (h : d.walk current ns = .ok r) : Walks d current ns r := by
  induction ns generalizing current with
  | nil =>
    cases h
    exact .stop current
  | cons n ns ih =>
    unfold walk at h
    split at h
    · cases h
    · rename_i hsearch
      have hsearch : d.allows current .search = true := by simpa using hsearch
      split at h
      · rename_i hhere
        exact hhere ▸ .here hsearch (ih h)
      · rename_i hhere
        split at h
        · rename_i habove
          exact habove ▸ .above hsearch (ih h)
        · rename_i habove
          split at h
          · cases h
          · rename_i hshort
            have hshort := Nat.le_of_not_lt hshort
            cases ns with
            | nil =>
              cases h
              exact .last hsearch hhere habove hshort
            | cons m ms =>
              simp only [reduceCtorEq, if_false] at h
              split at h
              · cases h
              · cases h
              · rename_i hnode
                exact .down hsearch hhere habove hshort hnode (ih h)

theorem Walks.search {m : Text} (h : Walks d current (m :: ns) r) :
    d.allows current .search = true := by
  cases h <;> assumption

/-- A walk that goes on from a place has come there, and something stands
there. -/
theorem Walks.of_append {m : Text} {ms : List Text} (h : Walks d current (ns ++ m :: ms) r) :
    (∃ named, Walks d current ns (placeFrom current ns, named)) ∧
      (d.node? (placeFrom current ns)).isSome = true := by
  induction ns generalizing current with
  | nil =>
    refine ⟨⟨false, .stop current⟩, ?_⟩
    have hsearch := h.search
    rw [placeFrom]
    cases hnode : d.node? current with
    | none => simp [allows, hnode] at hsearch
    | some n => rfl
  | cons n ns ih =>
    rw [List.cons_append] at h
    -- A name is the last one only where nothing follows, and here something does.
    generalize hrest : ns ++ m :: ms = rest at h
    have hne : rest ≠ [] := hrest ▸ List.append_ne_nil_of_right_ne_nil _ (List.cons_ne_nil m ms)
    cases h with
    | here search rest =>
      subst hrest
      obtain ⟨⟨named, hwalk⟩, hnode⟩ := ih rest
      exact ⟨⟨named, .here search hwalk⟩, hnode⟩
    | above search rest =>
      subst hrest
      obtain ⟨⟨named, hwalk⟩, hnode⟩ := ih rest
      exact ⟨⟨named, .above search hwalk⟩, hnode⟩
    | last => exact absurd rfl hne
    | down search ne_here ne_above short node rest =>
      rw [← hrest] at rest
      obtain ⟨⟨named, hwalk⟩, hnode⟩ := ih rest
      rw [placeFrom, if_neg ne_here, if_neg ne_above]
      refine ⟨?_, hnode⟩
      cases ns with
      | nil => exact ⟨true, .last search ne_here ne_above short⟩
      | cons k ks => exact ⟨named, .down search ne_here ne_above short node hwalk⟩

/-- A walk comes through where no directory is missing and none is closed. -/
theorem Walks.mono {d' : Disk}
    (hsearch : ∀ {other}, d.allows other .search = true → d'.allows other .search = true)
    (hdirectory : ∀ {other mode}, d.node? other = some (.directory mode) →
      d'.node? other = some (.directory mode))
    (h : Walks d current ns r) : Walks d' current ns r := by
  induction h with
  | stop current => exact .stop current
  | here search rest ih => exact .here (hsearch search) ih
  | above search rest ih => exact .above (hsearch search) ih
  | last search ne_here ne_above short => exact .last (hsearch search) ne_here ne_above short
  | down search ne_here ne_above short node rest ih =>
    exact .down (hsearch search) ne_here ne_above short (hdirectory node) ih

/-- What is put where nothing stands stands in no walk's way. -/
theorem Walks.putNode {place : Place} (n : Node) (hfree : d.node? place = none)
    (h : Walks d current ns r) : Walks (d.putNode place n) current ns r := by
  -- A walk looks only at places where something stands, so never at this one.
  have hkeep {other : Place} (hother : (d.node? other).isSome = true) :
      (d.putNode place n).node? other = d.node? other := by
    refine node?_putNode_of_ne n ?_
    rintro rfl
    simp [hfree] at hother
  refine h.mono (fun {other} hother => ?_) fun hnode => (hkeep (by rw [hnode]; rfl)).trans hnode
  rw [allows, hkeep, ← allows, hother]
  cases hnode : d.node? other with
  | none => simp [allows, hnode] at hother
  | some n => rfl

/-! ## §3 Directories that are there -/

/-- A path that a system takes, wherever it leads. -/
structure Proper (path : Text) : Prop where
  valid : FileError.ofPath? path = none
  ne_nil : path ≠ []
  short : byteLength path ≤ pathLimit

/-- Where the walk of a path starts. -/
def startOf (d : Disk) (path : Text) : Place := if isAbsolute path then [] else d.workingDirectory

theorem find_eq_ok_iff {path : Text} {t : Destination} : d.find path = .ok t ↔
    Proper path ∧ Walks d (d.startOf path) (entries path) (t.place, t.named) ∧
      t.node = d.node? t.place ∧ t.slashed = decide (path.getLast? = some slash) := by
  have hfind (h : Proper path) : d.find path =
      (d.walk (d.startOf path) (entries path)).map fun r =>
        ⟨r.1, d.node? r.1, path.getLast? = some slash, r.2⟩ := by
    simp only [find, h.valid]
    rw [if_neg h.ne_nil, if_neg (Nat.not_lt.mpr h.short)]
    rfl
  constructor
  · intro h
    have hproper : Proper path := by
      unfold find at h
      split at h
      · cases h
      · split at h
        · cases h
        · split at h
          · cases h
          · exact ⟨‹_›, ‹_›, Nat.le_of_not_lt ‹_›⟩
    rw [hfind hproper] at h
    cases hwalk : d.walk (d.startOf path) (entries path) with
    | error o =>
      rw [hwalk] at h
      cases h
    | ok r =>
      rw [hwalk] at h
      cases h
      exact ⟨hproper, walks_of_walk_eq hwalk, rfl, rfl⟩
  · rintro ⟨hproper, hwalks, hnode, hslashed⟩
    rw [hfind hproper, hwalks.walk_eq]
    obtain ⟨place, node, slashed, named⟩ := t
    dsimp only at hnode hslashed
    rw [hnode, hslashed]
    rfl

theorem isDirectory_iff {path : Text} : d.isDirectory path = true ↔
    ∃ t m, d.find path = .ok t ∧ t.node = some (.directory m) := by
  unfold isDirectory stat
  cases hfind : d.find path with
  | error o => simp [bind, Except.bind]
  | ok t =>
    simp only [bind, Except.bind, Except.ok.injEq, exists_and_left, exists_eq_left']
    cases t.node with
    | none => simp [throw, throwThe, MonadExceptOf.throw]
    | some n =>
      cases n with
      | directory m => simp [pure, Except.pure]
      | file c m => cases t.slashed <;> simp [throw, throwThe, MonadExceptOf.throw, pure, Except.pure]

theorem Proper.of_append {path rest : Text} (h : Proper (path ++ rest)) (hne : path ≠ []) :
    Proper path := by
  have hshort := h.short
  rw [byteLength_append] at hshort
  exact ⟨ofPath?_eq_none_of_append h.valid, hne, Nat.le_of_add_right_le hshort⟩

theorem node?_root (d : Disk) : d.node? [] = some (.directory directoryMode) := rfl

/-- A path of slashes leads to the root. -/
theorem placeFrom_of_slashes {path : Text} (hne : path ≠ []) (h : ∀ s ∈ path, s = slash) (d : Disk) :
    placeFrom (d.startOf path) (entries path) = [] := by
  have hreplicate : path = List.replicate path.length slash := List.eq_replicate_iff.mpr ⟨rfl, h⟩
  obtain ⟨s, t, rfl⟩ := List.exists_cons_of_ne_nil hne
  have hentries : entries (s :: t) = [] := by
    rw [hreplicate, ← List.append_nil (List.replicate _ slash), entries_replicate_append]
    rfl
  rw [hentries, startOf, isAbsolute, h s List.mem_cons_self]
  rfl

/-- Where a path leads, something stands where its first part leads. -/
theorem has_of_cut {path head tail : Text} {t : Destination} (hcut : Cut path head tail)
    (hhead : head ≠ []) (htail : tail ≠ []) (hfind : d.find path = .ok t) : d.has head = true := by
  obtain ⟨hproper, hwalks, -, -⟩ := find_eq_ok_iff.mp hfind
  obtain ⟨rest, rfl⟩ := hcut.begins
  have hstart : d.startOf (head ++ rest) = d.startOf head := by
    rw [startOf, isAbsolute, List.head?_append_of_ne_nil _ hhead]
    rfl
  have hname : entries tail = [tail] := by simp [entries, names_of_notMem hcut.no_slash, htail]
  rw [hcut.entries_eq, hname, hstart] at hwalks
  obtain ⟨⟨named, hwalk⟩, hnode⟩ := hwalks.of_append
  have hfound : d.find head = .ok ⟨placeFrom (d.startOf head) (entries head),
      d.node? (placeFrom (d.startOf head) (entries head)), head.getLast? = some slash, named⟩ :=
    find_eq_ok_iff.mpr ⟨hproper.of_append hhead, hwalk, rfl, rfl⟩
  obtain ⟨n, hn⟩ := Option.isSome_iff_exists.mp hnode
  rw [has, stat, hfound]
  simp only [bind, Except.bind, hn]
  cases n with
  | directory m => rfl
  | file c m =>
    -- only a path to the root ends in a slash here
    have hslashed : head.getLast? ≠ some slash := by
      intro hlast
      rw [placeFrom_of_slashes hhead (hcut.slashes hlast), node?_root] at hn
      cases hn
    simp only [hslashed, decide_false, Bool.false_eq_true, if_false]
    rfl

theorem run_ensureDirectory {path : Text} (h : d.isDirectory path = true) :
    (ensureDirectory path).run.run d = (.ok (), d) := by
  obtain ⟨t, m, hfind, hnode⟩ := isDirectory_iff.mp h
  rw [ensureDirectory, Change.run_tryCatch, run_makeDirectory, hfind]
  simp only [hnode, Option.isSome_some, Bool.or_true, if_true, Change.run_bind, Change.run_get]
  rw [if_pos ⟨nofun, h⟩]
  rfl

/-- Making a directory that is there changes nothing. -/
theorem run_makeDirs {path : Text} (h : d.isDirectory path = true) :
    (makeDirs path).run.run d = (.ok (), d) := by
  have hensure := run_ensureDirectory h
  obtain ⟨t, m, hfind, -⟩ := isDirectory_iff.mp h
  rw [makeDirs]
  cases path.length with
  | zero => exact hensure
  | succ fuel =>
    unfold makeDirsFrom
    dsimp only
    generalize hparts : (if (split path).2 = [] then split (split path).1
      else ((split path).1, (split path).2)) = parts
    have hcut : Cut path parts.1 parts.2 := by
      rw [← hparts]
      split
      · rename_i htail
        exact (cut_split path).trans htail (cut_split _)
      · exact cut_split path
    rw [Change.run_bind, Change.run_get]
    dsimp only
    rw [if_neg ?_, hensure]
    rintro ⟨hhead, htail, habsent⟩
    rw [has_of_cut hcut hhead htail hfind] at habsent
    cases habsent

/-! ## §4 Room for a log -/

theorem allows_fileMode (content : Bytes) {p : Permission} (h : p ≠ .search) :
    (Node.file content fileMode).allows p = true := by
  cases p with
  | read => exact (by decide : (fileMode &&& Permission.read.bit != 0) = true)
  | write => exact (by decide : (fileMode &&& Permission.write.bit != 0) = true)
  | search => exact absurd rfl h

/-- There is room for a log: its directory is there, and the log can be made
at its place. -/
structure Room (d : Disk) (path : Text) (place : Place) : Prop where
  directory : d.isDirectory (directory path) = true
  find : ∃ named, d.find path = .ok ⟨place, none, false, named⟩
  entry : d.allowsEntry place = true

namespace Room

variable {path : Text} {place : Place}

theorem free (h : Room d path place) : d.node? place = none := by
  obtain ⟨named, hfind⟩ := h.find
  exact (find_place hfind).2.symm

theorem find_putNode (h : Room d path place) (n : Node) {other : Text} {t : Destination}
    (hfind : d.find other = .ok t) : (d.putNode place n).find other =
      .ok ⟨t.place, (d.putNode place n).node? t.place, t.slashed, t.named⟩ := by
  obtain ⟨hproper, hwalks, -, hslashed⟩ := find_eq_ok_iff.mp hfind
  exact find_eq_ok_iff.mpr ⟨hproper, hwalks.putNode n h.free, rfl, hslashed⟩

theorem node?_log (h : Room d path place) (n : Node) : (d.putNode place n).node? place = some n := by
  refine node?_putNode_self n ?_
  rintro rfl
  exact absurd h.free nofun

/-- A log that was made is found. -/
theorem find_log (h : Room d path place) (n : Node) :
    ∃ named, (d.putNode place n).find path = .ok ⟨place, some n, false, named⟩ := by
  obtain ⟨named, hfind⟩ := h.find
  exact ⟨named, by rw [h.find_putNode n hfind, h.node?_log n]⟩

theorem isDirectory_putNode (h : Room d path place) (n : Node) :
    (d.putNode place n).isDirectory (Path.directory path) = true := by
  obtain ⟨t, m, hfind, hnode⟩ := isDirectory_iff.mp h.directory
  have hne : t.place ≠ place := by
    intro heq
    rw [(find_place hfind).2, heq, h.free] at hnode
    cases hnode
  refine isDirectory_iff.mpr ⟨_, m, h.find_putNode n hfind, ?_⟩
  rw [node?_putNode_of_ne n hne, ← (find_place hfind).2, hnode]

theorem run_appendMaking (h : Room d path place) (content : Bytes) :
    (appendMaking path content).run.run d = (.ok (), d.putNode place (.file content fileMode)) := by
  obtain ⟨named, hfind⟩ := h.find
  rw [appendMaking, Change.run_bind, run_makeDirs h.directory]
  dsimp only
  rw [append, run_openFile, hfind]
  simp [h.entry]

/-- What is appended to a log comes last in it. -/
theorem run_appendMaking_again (h : Room d path place) (content more : Bytes) :
    (appendMaking path more).run.run (d.putNode place (.file content fileMode)) =
      (.ok (), d.putNode place (.file (content ++ more) fileMode)) := by
  obtain ⟨named, hfind⟩ := h.find_log (.file content fileMode)
  have hallows : (d.putNode place (.file content fileMode)).allows place .write = true := by
    rw [allows, ← (find_place hfind).2]
    exact allows_fileMode content (by decide)
  rw [appendMaking, Change.run_bind, run_makeDirs (h.isDirectory_putNode _)]
  dsimp only
  rw [append, run_openFile, hfind]
  simp only [Bool.false_eq_true, if_false, hallows, if_true, putNode_putNode]

theorem isFile_log (h : Room d path place) (content : Bytes) :
    (d.putNode place (.file content fileMode)).isFile path = true := by
  obtain ⟨named, hfind⟩ := h.find_log (.file content fileMode)
  rw [isFile, stat, hfind]
  rfl

theorem read_log (h : Room d path place) (content : Bytes) :
    (d.putNode place (.file content fileMode)).read path = .ok content := by
  obtain ⟨named, hfind⟩ := h.find_log (.file content fileMode)
  have hstat : (d.putNode place (.file content fileMode)).stat path = .ok (.file content fileMode) := by
    rw [stat, hfind]
    rfl
  rw [Disk.read, hstat]
  simp only [allows_fileMode content (show Permission.read ≠ .search by decide), Bool.not_true,
    Bool.false_eq_true, if_false]

/-- A file that can be opened in a directory and is not there yet has room. -/
theorem of_run_append {d : Disk} {path : Text} (hdirectory : d.isDirectory (Path.directory path) = true)
    (hnone : d.file? (placeOf d.workingDirectory path) = none)
    (hopens : ((append path []).run.run d).1 = .ok ()) :
    Room d path (placeOf d.workingDirectory path) := by
  rw [append, run_openFile] at hopens
  cases hfind : d.find path with
  | error o =>
    rw [hfind] at hopens
    cases hopens
  | ok t =>
    obtain ⟨place, node, slashed, named⟩ := t
    obtain ⟨hplace, hnode⟩ := find_place hfind
    dsimp only at hplace hnode
    rw [hfind] at hopens
    subst hplace
    cases slashed with
    | true => cases hopens
    | false =>
      cases node with
      | none =>
        cases hentry : d.allowsEntry (placeOf d.workingDirectory path) with
        | true => exact ⟨hdirectory, ⟨named, hfind⟩, hentry⟩
        | false => simp [hentry] at hopens
      | some n =>
        cases n with
        | file c m => simp [file?, ← hnode] at hnone
        | directory m => cases hopens

end Room

theorem isFile_eq_false {path : Text} (h : d.file? (placeOf d.workingDirectory path) = none) :
    d.isFile path = false := by
  rw [isFile, stat]
  cases hfind : d.find path with
  | error o => rfl
  | ok t =>
    obtain ⟨hplace, hnode⟩ := find_place hfind
    rw [← hplace, file?, ← hnode] at h
    simp only [bind, Except.bind]
    cases hn : t.node with
    | none => rfl
    | some n =>
      cases n with
      | file c m => simp [hn] at h
      | directory m => rfl

/-- The directory of a log is there or can be made, and the log can be opened
in it. -/
def CanLog (d : Disk) (path : Text) : Prop :=
  ∃ d', (makeDirs (directory path)).run.run d = (.ok (), d') ∧
    d'.isDirectory (directory path) = true ∧ ((append path []).run.run d').1 = .ok ()

/-- Where no log is yet, the first entry makes room for it. -/
theorem CanLog.exists_room {path : Text} (h : CanLog d path)
    (hnone : d.file? (placeOf d.workingDirectory path) = none) :
    ∃ d', Room d' path (placeOf d.workingDirectory path) ∧ ∀ content : Bytes,
      (appendMaking path content).run.run d =
        (.ok (), d'.putNode (placeOf d.workingDirectory path) (.file content fileMode)) := by
  obtain ⟨d', hmade, hdirectory, hopens⟩ := h
  have hkept : SameFiles [] d _ := (makeDirs_confined (directory path)).keeps d rfl
  rw [hmade] at hkept
  have hnofile : d'.file? (placeOf d.workingDirectory path) = none :=
    (hkept.file _ List.not_mem_nil).trans hnone
  rw [← hkept.working] at hnofile ⊢
  have hroom := Room.of_run_append hdirectory hnofile hopens
  refine ⟨d', hroom, fun content => ?_⟩
  have hrun := hroom.run_appendMaking content
  rw [appendMaking, Change.run_bind, run_makeDirs hdirectory] at hrun
  rw [appendMaking, Change.run_bind, hmade]
  exact hrun

end Disk

end Amend
