/-
Amend.Proofs.Replacing — a file is replaced as a whole or not at all.

The new content is written to a file beside the target, which is then given
the target's path. Two names of one directory lead anywhere or nowhere
together (`find_beside`), so once the file beside is open there is nothing
left that the walk of a path could refuse, and each step does what it is told
or names one obstacle. What comes of all of them is one of four disks
(`replaceFile_outcome`). If no file stands beside the target, the disk is as
before or the target alone is new (`replaceFile_all_or_nothing`); a file that
stands there is lost.

  §1 Nodes put and removed.
  §2 Two names of one directory.
  §3 The steps.
  §4 What is left.
-/
import Amend.Proofs.Encoding
import Amend.Proofs.Paths
import Amend.Proofs.Staging

namespace Amend

/-! ## §1 Nodes put and removed -/

namespace Disk

theorem removeNode_putNode (d : Disk) (place : Place) (n : Node) :
    (d.putNode place n).removeNode place = d.removeNode place :=
  congrArg (Disk.mk · d.workingDirectory) (d.nodes.remove_put_self place n)

theorem putNode_putNode (d : Disk) (place : Place) (n n' : Node) :
    (d.putNode place n).putNode place n' = d.putNode place n' :=
  congrArg (Disk.mk · d.workingDirectory) (d.nodes.put_put_self place n n')

theorem removeNode_of_node?_eq_none {d : Disk} {place : Place} (h : d.node? place = none) :
    d.removeNode place = d := by
  have hne : place ≠ [] := by
    rintro rfl
    cases h
  rw [node?, if_neg hne] at h
  exact congrArg (Disk.mk · d.workingDirectory) (Table.remove_of_get?_eq_none h)

/-! ## §2 Two names of one directory -/

open Amend.Path

/-- The disks have the same nodes above a place, as far as places of fewer
names go. -/
def SameAbove (place : Place) (d d' : Disk) : Prop :=
  ∀ other : Place, other.length < place.length → d'.node? other = d.node? other

theorem sameAbove_refl (place : Place) (d : Disk) : SameAbove place d d := fun _ _ => rfl

theorem sameAbove_putNode (d : Disk) (place : Place) (n : Node) :
    SameAbove place d (d.putNode place n) :=
  fun _ hother => node?_putNode_of_ne n fun heq => Nat.ne_of_lt hother (congrArg List.length heq)

theorem SameAbove.allows {place : Place} {d d' : Disk} (h : SameAbove place d d') (other : Place)
    (hother : other.length < place.length) (p : Permission) : d'.allows other p = d.allows other p := by
  rw [Disk.allows, h other hother, Disk.allows]

/-- A walk that reaches one name of a directory reaches another, if it is not
longer, also on a disk that differs only further down. -/
theorem walk_concat {d d' : Disk} {current : Place} {init : List Text} {x y : Text}
    {r : Place × Bool} (hinit : ∀ n ∈ init, Plain n) (hx : Plain x) (hy : Plain y)
    (hlen : byteLength y ≤ byteLength x) (habove : SameAbove (current ++ init ++ [x]) d d')
    (h : d.walk current (init ++ [x]) = .ok r) :
    d'.walk current (init ++ [y]) = .ok (current ++ init ++ [y], true) := by
  induction init generalizing current with
  | nil =>
    rw [List.append_nil] at habove ⊢
    have hsearch := habove.allows current (by simp) .search
    simp only [List.nil_append, walk, hx.ne_here, hx.ne_above, if_false] at h
    simp only [List.nil_append, walk, hy.ne_here, hy.ne_above, if_false, if_true, hsearch]
    split at h
    · cases h
    · rename_i hallowed
      split at h
      · cases h
      · rename_i hshort
        rw [if_neg hallowed, if_neg (by omega)]
  | cons n init ih =>
    have hn := hinit n List.mem_cons_self
    have hmore (z : Text) : init ++ [z] ≠ [] :=
      List.append_ne_nil_of_right_ne_nil _ (List.cons_ne_nil z [])
    have hstep (z : Text) : current ++ n :: init ++ [z] = current ++ [n] ++ init ++ [z] := by simp
    rw [hstep] at habove ⊢
    -- Both walks look at `current` and below it at `n`, which is still above the
    -- place where the disks may differ.
    have hsearch := habove.allows current (by simp) .search
    have hnext := habove (current ++ [n]) (by simp)
    simp only [List.cons_append, walk, hn.ne_here, hn.ne_above, hmore, if_false] at h
    simp only [List.cons_append, walk, hn.ne_here, hn.ne_above, hmore, if_false, hsearch, hnext]
    split at h
    · cases h
    · rename_i hallowed
      split at h
      · cases h
      · rename_i hshort
        rw [if_neg hallowed, if_neg hshort]
        split at h
        · cases h
        · cases h
        · exact ih (fun m hm => hinit m (List.mem_cons_of_mem n hm)) habove h

theorem ofPath?_eq_none_iff {path : Text} :
    FileError.ofPath? path = none ↔ Utf8.Encodable path ∧ Symbol.char '\x00' ∉ path := by
  unfold FileError.ofPath?
  rw [← Utf8.unencodable?_eq_none_iff]
  cases Utf8.unencodable? path <;> simp

/-- A beginning of a path that a system takes is one as well. -/
theorem ofPath?_eq_none_of_append {path rest : Text} (h : FileError.ofPath? (path ++ rest) = none) :
    FileError.ofPath? path = none := by
  obtain ⟨hencodable, hzero⟩ := ofPath?_eq_none_iff.mp h
  exact ofPath?_eq_none_iff.mpr ⟨(Utf8.encodable_append.mp hencodable).1,
    fun hmem => hzero (List.mem_append_left rest hmem)⟩

theorem find_normal {path : Text} {place : Place} (h : NormalPath path place)
    (hvalid : FileError.ofPath? path = none) (d : Disk) :
    d.find path =
      if pathLimit < byteLength path then .error .tooLong
      else (d.walk [] place).map fun r => ⟨r.1, d.node? r.1, decide (place = []), r.2⟩ := by
  have hne : path ≠ [] := by
    rintro rfl
    exact absurd h.isAbsolute_eq (by decide)
  simp only [find, hvalid]
  rw [if_neg hne, if_pos h.isAbsolute_eq,
    show (names path).filter (· ≠ []) = place from h.entries_eq]
  simp only [h.getLast?_eq_iff]

/-- A path that leads somewhere is one that a system takes. -/
theorem valid_of_find {path : Text} {t : Destination} {d : Disk} (h : d.find path = .ok t) :
    FileError.ofPath? path = none := by
  unfold find at h
  split at h
  · cases h
  · assumption

/-- Where a path with something added to its last name leads to a place, so
does the path itself, and both do on any disk that differs only there. -/
theorem find_beside {d d' : Disk} {target suffix : Text} {place : Place} {t : Destination}
    (h : NormalPath target place) (hsuffix : slash ∉ suffix) (hlong : above.length < suffix.length)
    (hfind : d.find (target ++ suffix) = .ok t)
    (habove : SameAbove (besidePlace place suffix) d d') :
    d'.find (target ++ suffix) =
        .ok ⟨besidePlace place suffix, d'.node? (besidePlace place suffix), false, true⟩ ∧
      d'.find target = .ok ⟨place, d'.node? place, decide (place = []), decide (place ≠ [])⟩ := by
  have hbeside := h.append hsuffix hlong
  have hvalid := valid_of_find hfind
  rw [find_normal hbeside hvalid] at hfind
  split at hfind
  · cases hfind
  · rename_i hshort
    obtain ⟨r, hwalk⟩ : ∃ r, d.walk [] (besidePlace place suffix) = .ok r := by
      cases hwalk : d.walk [] (besidePlace place suffix) with
      | ok r => exact ⟨r, rfl⟩
      | error o =>
        rw [hwalk] at hfind
        cases hfind
    have hlength := byteLength_append target suffix
    have hlast : Plain (place.getLast?.getD [] ++ suffix) :=
      hbeside.plain _ (List.mem_append_right _ List.mem_cons_self)
    rw [find_normal hbeside hvalid, find_normal h (ofPath?_eq_none_of_append hvalid),
      if_neg hshort, if_neg (by omega)]
    constructor
    · have hinit : ∀ n ∈ place.dropLast, Plain n := fun n hn => h.plain n (List.dropLast_subset _ hn)
      have hhere : d'.walk [] (besidePlace place suffix) = .ok (besidePlace place suffix, true) :=
        walk_concat hinit hlast hlast (Nat.le_refl _) habove hwalk
      rw [hhere]
      simp [Except.map, besidePlace]
    · -- The root has no last name to which anything could be added.
      obtain rfl | ⟨init, last, rfl⟩ := List.eq_nil_or_concat' place
      · rfl
      · rw [besidePlace_concat] at habove hwalk
        have hinit : ∀ n ∈ init, Plain n := fun n hn => h.plain n (List.mem_append_left _ hn)
        have hname := h.plain last (List.mem_append_right _ List.mem_cons_self)
        rw [List.getLast?_concat, Option.getD_some] at hlast
        have hbytes := byteLength_append last suffix
        have hwalk' := walk_concat hinit hlast hname (by omega) habove hwalk
        rw [hwalk']
        simp [Except.map]

/-! ## §3 The steps -/

section Steps

variable {d : Disk} {path : Text} {place : Place} {named : Bool}

theorem stat_of_find {slashed : Bool} (hfind : d.find path = .ok ⟨place, d.node? place, slashed, named⟩)
    (hfile : slashed = true → ∃ m, d.node? place = some (.directory m)) :
    d.stat path = match d.node? place with
      | none => .error .noEntry
      | some n => .ok n := by
  rw [stat, hfind]
  simp only [bind, Except.bind]
  cases hnode : d.node? place with
  | none => rfl
  | some n =>
    cases n with
    | directory m => rfl
    | file c m =>
      cases slashed with
      | false => rfl
      | true => simp [hnode] at hfile

theorem run_overwrite (hfind : d.find path = .ok ⟨place, d.node? place, false, named⟩)
    (content : Bytes) :
    (overwrite path content).run.run d = match d.node? place with
      | some (.directory _) => (.error (Obstacle.isDirectory.at path), d)
      | some (.file _ m) =>
        if d.allows place .write then (.ok (), d.putNode place (.file content m))
        else (.error (Obstacle.denied.at path), d)
      | none =>
        if d.allowsEntry place then (.ok (), d.putNode place (.file content fileMode))
        else (.error (Obstacle.denied.at path), d) := by
  rw [overwrite, run_openFile, hfind]
  rfl

theorem run_setMode (hfind : d.find path = .ok ⟨place, d.node? place, false, named⟩) {n : Node}
    (hnode : d.node? place = some n) (mode : Nat) :
    (setMode path mode).run.run d = (.ok (), d.putNode place (n.withMode mode)) := by
  have hstat : d.stat path = .ok n := by rw [stat_of_find hfind nofun, hnode]
  rw [setMode, Change.run_bind, Change.run_get]
  simp only [Change.run_bind, hfind, hstat, Change.run_reach_ok]
  rfl

theorem run_removeFile (hfind : d.find path = .ok ⟨place, d.node? place, false, named⟩) :
    (removeFile path).run.run d = match d.node? place with
      | none => (.error (Obstacle.noEntry.at path), d)
      | some n =>
        if d.allowsEntry place then
          match n with
          | .directory _ => (.error (Obstacle.isDirectory.at path), d)
          | .file .. => (.ok (), d.removeNode place)
        else (.error (Obstacle.denied.at path), d) := by
  rw [removeFile, Change.run_bind, Change.run_get]
  simp only [Change.run_bind, hfind, stat_of_find hfind nofun, Change.run_reach_ok]
  cases d.node? place with
  | none => rfl
  | some n =>
    simp only [Change.run_require]
    cases d.allowsEntry place with
    | false => rfl
    | true => cases n <;> rfl

/-- A file at one place may be given another: both directories may be changed,
and no directory stands there, as one always does at the root. -/
structure MayRename (d : Disk) (source target : Place) : Prop where
  not_root : target ≠ []
  source_entry : d.allowsEntry source = true
  target_entry : d.allowsEntry target = true
  no_directory : ∀ m, d.node? target ≠ some (.directory m)

theorem run_rename {target : Text} {place' : Place} {slashed : Bool} {n : Node}
    (hfind : d.find path = .ok ⟨place, some n, false, named⟩)
    (htarget : d.find target = .ok ⟨place', d.node? place', slashed, decide (place' ≠ [])⟩)
    (hne : place ≠ place') :
    MayRename d place place' ∧
        (rename path target).run.run d = (.ok (), (d.removeNode place).putNode place' n) ∨
      ¬ MayRename d place place' ∧ ∃ e, (rename path target).run.run d = (.error e, d) := by
  rw [rename, Change.run_bind, Change.run_get]
  simp only [hfind, htarget]
  by_cases hroot : place' = []
  · refine .inr ⟨fun h => h.not_root hroot, ?_⟩
    simp only [hroot, ne_eq, not_true_eq_false, decide_false, Bool.not_false, if_true]
    exact ⟨_, rfl⟩
  · simp only [hroot, ne_eq, not_false_eq_true, decide_true, Bool.not_true, Bool.false_eq_true,
      if_false]
    cases hentries : d.allowsEntry place && d.allowsEntry place' with
    | false =>
      refine .inr ⟨fun h => ?_, _, rfl⟩
      rw [h.source_entry, h.target_entry] at hentries
      cases hentries
    | true =>
      obtain ⟨hsource, hentry⟩ := Bool.and_eq_true_iff.mp hentries
      simp only [Bool.not_true, Bool.false_eq_true, if_false, hne, not_false_eq_true, if_true]
      split
      · rename_i m hdirectory
        exact .inr ⟨fun h => h.no_directory m hdirectory, _, rfl⟩
      · rename_i hdirectory
        exact .inl ⟨⟨hroot, hsource, hentry, fun m hm => hdirectory m hm⟩, rfl⟩

end Steps

/-! ## §4 What is left -/

/-- The two paths lead to places of one directory, the first to `source`, on
every disk that differs from this one only further down. -/
structure LeadBeside (d : Disk) (temporary target : Text) (source place : Place) : Prop where
  source_ne : source ≠ place
  same_directory : source.dropLast = place.dropLast
  deeper : place.dropLast.length < source.length
  find_temporary : ∀ d', SameAbove source d d' →
    d'.find temporary = .ok ⟨source, d'.node? source, false, true⟩
  find_target : ∀ d', SameAbove source d d' →
    d'.find target = .ok ⟨place, d'.node? place, decide (place = []), decide (place ≠ [])⟩

/-- The permission bits a file is given that replaces what stands at a place. -/
def keptMode (d : Disk) (place : Place) (fresh : Nat) : Nat :=
  ((d.node? place).map Node.mode).getD fresh

namespace LeadBeside

variable {d d' : Disk} {temporary target : Text} {source place : Place}

theorem allowsEntry_source (h : LeadBeside d temporary target source place)
    (habove : SameAbove source d d') : d'.allowsEntry source = d.allowsEntry source := by
  have hlt : source.dropLast.length < source.length := h.same_directory ▸ h.deeper
  rw [allowsEntry, habove.allows _ hlt, habove.allows _ hlt, allowsEntry]

theorem mayRename_putNode_iff (h : LeadBeside d temporary target source place) (n : Node) :
    MayRename (d.putNode source n) source place ↔ MayRename d source place := by
  have habove := sameAbove_putNode d source n
  have hnode : (d.putNode source n).node? place = d.node? place :=
    node?_putNode_of_ne n h.source_ne.symm
  have hsource := h.allowsEntry_source habove
  have htarget : (d.putNode source n).allowsEntry place = d.allowsEntry place := by
    rw [allowsEntry, allowsEntry, habove.allows _ h.deeper, habove.allows _ h.deeper]
  constructor
  · rintro ⟨hroot, hs, ht, hdir⟩
    exact ⟨hroot, hsource ▸ hs, htarget ▸ ht, fun m hm => hdir m (hnode ▸ hm)⟩
  · rintro ⟨hroot, hs, ht, hdir⟩
    exact ⟨hroot, hsource ▸ hs, htarget ▸ ht, fun m hm => hdir m (hnode ▸ hm)⟩

theorem source_ne_nil (h : LeadBeside d temporary target source place) : source ≠ [] :=
  List.ne_nil_of_length_pos (Nat.zero_lt_of_lt h.deeper)

theorem find_putNode (h : LeadBeside d temporary target source place) (n : Node) :
    (d.putNode source n).find temporary = .ok ⟨source, some n, false, true⟩ := by
  rw [h.find_temporary _ (sameAbove_putNode d source n), node?_putNode_self n h.source_ne_nil]

/-- What is written beside the target takes its place or stays. -/
theorem run_rename_beside (h : LeadBeside d temporary target source place) (n : Node) :
    MayRename d source place ∧ (rename temporary target).run.run (d.putNode source n) =
        (.ok (), (d.removeNode source).putNode place n) ∨
      ¬ MayRename d source place ∧
        ∃ e, (rename temporary target).run.run (d.putNode source n) =
          (.error e, d.putNode source n) := by
  have hrename := run_rename (h.find_putNode n)
    (h.find_target _ (sameAbove_putNode d source n)) h.source_ne
  rwa [h.mayRename_putNode_iff, removeNode_putNode] at hrename

theorem stat_target (h : LeadBeside d temporary target source place) (n : Node) :
    (d.putNode source n).stat target = match d.node? place with
      | none => .error .noEntry
      | some n => .ok n := by
  rw [stat_of_find (h.find_target _ (sameAbove_putNode d source n)),
    node?_putNode_of_ne n h.source_ne.symm]
  intro hroot
  exact ⟨directoryMode, by rw [of_decide_eq_true hroot]; rfl⟩

/-- Once the file beside is open, it takes the target's place or stays, with
the permission bits of the file that is there. -/
theorem run_writeBeside (h : LeadBeside d temporary target source place) {content : Bytes}
    {fresh : Nat} (hopen : (overwrite temporary content).run.run d =
      (.ok (), d.putNode source (.file content fresh))) :
    MayRename d source place ∧ (writeBeside target temporary content).run.run d =
        (.ok (), (d.removeNode source).putNode place (.file content (d.keptMode place fresh))) ∨
      ¬ MayRename d source place ∧ ∃ e, (writeBeside target temporary content).run.run d =
        (.error e, d.putNode source (.file content (d.keptMode place fresh))) := by
  have hrun : (writeBeside target temporary content).run.run d =
      (rename temporary target).run.run
        (d.putNode source (.file content (d.keptMode place fresh))) := by
    rw [writeBeside, Change.run_bind, hopen]
    simp only [Change.run_bind, Change.run_get, h.stat_target, keptMode]
    cases d.node? place with
    | none => rfl
    | some n =>
      have hfind := h.find_putNode (.file content fresh)
      have hnode := node?_putNode_self (d := d) (.file content fresh) h.source_ne_nil
      rw [← hnode] at hfind
      simp only [Change.run_bind, run_setMode hfind hnode, putNode_putNode]
      rfl
  rw [hrun]
  exact h.run_rename_beside _

/-- What is written beside the target is removed, if the directory may be
changed. -/
theorem run_removeFile_beside (h : LeadBeside d temporary target source place) (content : Bytes)
    (mode : Nat) :
    ((removeFile temporary).run.run (d.putNode source (.file content mode))).2 =
      if d.allowsEntry source then d.removeNode source
      else d.putNode source (.file content mode) := by
  have hfind := h.find_putNode (.file content mode)
  have hnode := node?_putNode_self (d := d) (.file content mode) h.source_ne_nil
  rw [← hnode] at hfind
  rw [run_removeFile hfind, hnode, h.allowsEntry_source (sameAbove_putNode d source _)]
  cases d.allowsEntry source with
  | false => rfl
  | true => exact removeNode_putNode d source _

end LeadBeside

theorem leadBeside_of_find {d : Disk} {target suffix : Text} {place : Place} {t : Destination}
    (h : NormalPath target place) (hsuffix : slash ∉ suffix) (hlong : above.length < suffix.length)
    (hfind : d.find (target ++ suffix) = .ok t) :
    LeadBeside d (target ++ suffix) target (besidePlace place suffix) place where
  source_ne := besidePlace_ne place (List.ne_nil_of_length_pos (Nat.zero_lt_of_lt hlong))
  same_directory := dropLast_besidePlace place suffix
  deeper := by simp [besidePlace]
  find_temporary _ habove := (find_beside h hsuffix hlong hfind habove).1
  find_target _ habove := (find_beside h hsuffix hlong hfind habove).2

/-- Where the path of a file to be replaced leads. -/
def targetPlace (d : Disk) (path : Text) : Place :=
  placeOf d.workingDirectory (d.absolute path)

/-- Where the file is that the new content is written to first. -/
def temporaryPlace (d : Disk) (path : Text) : Place :=
  placeOf d.workingDirectory (d.absolute path ++ temporarySuffix)

theorem temporaryPlace_eq (d : Disk) (path : Text) :
    d.temporaryPlace path = besidePlace (d.targetPlace path) temporarySuffix :=
  ((normalPath_absolute d path d.workingDirectory).append (by decide) (by decide)).placeOf_eq _

/-- A file can be replaced: its path leads somewhere, the file beside it can
be opened and may be given its place. -/
structure Replaceable (d : Disk) (path : Text) : Prop where
  leads : ∃ t, d.find (d.absolute path ++ temporarySuffix) = .ok t
  opens : ∀ n, d.node? (d.temporaryPlace path) = some n →
    d.allows (d.temporaryPlace path) .write = true ∧ ∃ content mode, n = .file content mode
  renames : MayRename d (d.temporaryPlace path) (d.targetPlace path)

/-- What replacing a file answers and leaves. -/
inductive Replacement (d : Disk) (path : Text) (content : Bytes) :
    Except FileError Unit × Disk → Prop
  | done (can : Replaceable d path) :
      Replacement d path content (.ok (), (d.removeNode (d.temporaryPlace path)).putNode
        (d.targetPlace path) (.file content (d.keptMode (d.targetPlace path)
          (d.keptMode (d.temporaryPlace path) fileMode))))
  | refused (cannot : ¬ Replaceable d path) (e : FileError) :
      Replacement d path content (.error e, d)
  /-- A file that stood beside the target is removed with what was written to it. -/
  | removed (cannot : ¬ Replaceable d path) (e : FileError)
      (file : d.file? (d.temporaryPlace path) ≠ none) :
      Replacement d path content (.error e, d.removeNode (d.temporaryPlace path))
  /-- A file that stood beside the target keeps what was written to it. -/
  | left (cannot : ¬ Replaceable d path) (e : FileError) (mode : Nat)
      (file : d.file? (d.temporaryPlace path) ≠ none) :
      Replacement d path content
        (.error e, d.putNode (d.temporaryPlace path) (.file content mode))

theorem run_replaceFile (d : Disk) (path : Text) (content : Bytes) :
    (replaceFile path content).run.run d =
      match (writeBeside (d.absolute path) (d.absolute path ++ temporarySuffix)
          content).run.run d with
      | (.ok _, d') => (.ok (), d')
      | (.error e, d') =>
        (.error e, ((removeFile (d.absolute path ++ temporarySuffix)).run.run d').2) := by
  rw [replaceFile, Change.run_bind, Change.run_get]
  simp only [Change.run_tryCatch]
  rcases (writeBeside (d.absolute path) (d.absolute path ++ temporarySuffix)
    content).run.run d with ⟨e | a, d'⟩
  · simp only [Change.run_bind, Change.run_tryCatch]
    rcases (removeFile (d.absolute path ++ temporarySuffix)).run.run d' with ⟨_ | _, _⟩ <;> rfl
  · rfl

/-- Nothing is written where the file beside cannot be opened, but it may be
removed all the same. -/
theorem run_replaceFile_of_refused {d : Disk} {path : Text} {content : Bytes} {e : FileError}
    (hopen : (overwrite (d.absolute path ++ temporarySuffix) content).run.run d = (.error e, d)) :
    (replaceFile path content).run.run d =
      (.error e, ((removeFile (d.absolute path ++ temporarySuffix)).run.run d).2) := by
  rw [run_replaceFile, writeBeside, Change.run_bind, hopen]

theorem run_replaceFile_of_opened {d : Disk} {path : Text} {content : Bytes} {source place : Place}
    {fresh : Nat}
    (h : LeadBeside d (d.absolute path ++ temporarySuffix) (d.absolute path) source place)
    (hopen : (overwrite (d.absolute path ++ temporarySuffix) content).run.run d =
      (.ok (), d.putNode source (.file content fresh))) :
    MayRename d source place ∧ (replaceFile path content).run.run d =
        (.ok (), (d.removeNode source).putNode place (.file content (d.keptMode place fresh))) ∨
      ¬ MayRename d source place ∧ ∃ e, (replaceFile path content).run.run d =
        (.error e, if d.allowsEntry source then d.removeNode source
          else d.putNode source (.file content (d.keptMode place fresh))) := by
  rw [run_replaceFile]
  obtain ⟨hmay, hrun⟩ | ⟨hnot, e, hrun⟩ := h.run_writeBeside hopen
  · exact .inl ⟨hmay, by rw [hrun]⟩
  · exact .inr ⟨hnot, e, by rw [hrun, ← h.run_removeFile_beside]⟩

section Outcome

variable {d : Disk} {path : Text} {t : Destination}

theorem leadBeside_temporary (hfind : d.find (d.absolute path ++ temporarySuffix) = .ok t) :
    LeadBeside d (d.absolute path ++ temporarySuffix) (d.absolute path) (d.temporaryPlace path)
      (d.targetPlace path) := by
  have h := leadBeside_of_find (normalPath_absolute d path d.workingDirectory) (by decide) (by decide)
    hfind
  rwa [← targetPlace, ← temporaryPlace_eq] at h

theorem Replacement.of_unfound {o : Obstacle} (content : Bytes)
    (hfind : d.find (d.absolute path ++ temporarySuffix) = .error o) :
    Replacement d path content ((replaceFile path content).run.run d) := by
  have hopen : (overwrite (d.absolute path ++ temporarySuffix) content).run.run d =
      (.error (o.at (d.absolute path ++ temporarySuffix)), d) := by
    rw [overwrite, run_openFile, hfind]
  have hremove : ((removeFile (d.absolute path ++ temporarySuffix)).run.run d).2 = d := by
    rw [removeFile, Change.run_bind, Change.run_get]
    simp only [Change.run_bind, hfind, Change.run_reach_error]
  rw [run_replaceFile_of_refused hopen, hremove]
  refine .refused (fun can => ?_) _
  obtain ⟨t, ht⟩ := can.leads
  rw [hfind] at ht
  cases ht

theorem Replacement.of_free (content : Bytes)
    (hfind : d.find (d.absolute path ++ temporarySuffix) = .ok t)
    (hnode : d.node? (d.temporaryPlace path) = none) :
    Replacement d path content ((replaceFile path content).run.run d) := by
  have h := leadBeside_temporary hfind
  have hhere := h.find_temporary d (sameAbove_refl _ d)
  have hopen := run_overwrite hhere content
  have hremove := run_removeFile hhere
  simp only [hnode] at hopen hremove
  cases hentry : d.allowsEntry (d.temporaryPlace path) with
  | false =>
    rw [hentry, if_neg Bool.false_ne_true] at hopen
    rw [run_replaceFile_of_refused hopen, hremove]
    refine .refused (fun can => ?_) _
    rw [can.renames.source_entry] at hentry
    cases hentry
  | true =>
    rw [hentry, if_pos rfl] at hopen
    obtain ⟨hmay, hrun⟩ | ⟨hnot, e, hrun⟩ := run_replaceFile_of_opened h hopen
    · have hfresh : d.keptMode (d.temporaryPlace path) fileMode = fileMode := by
        rw [keptMode, hnode]
        rfl
      rw [hrun, ← hfresh]
      refine .done ⟨⟨t, hfind⟩, fun n hn => ?_, hmay⟩
      rw [hnode] at hn
      cases hn
    · rw [hrun, if_pos hentry, removeNode_of_node?_eq_none hnode]
      exact .refused (fun can => hnot can.renames) e

theorem Replacement.of_directory (content : Bytes) {m : Nat}
    (hfind : d.find (d.absolute path ++ temporarySuffix) = .ok t)
    (hnode : d.node? (d.temporaryPlace path) = some (.directory m)) :
    Replacement d path content ((replaceFile path content).run.run d) := by
  have hhere := (leadBeside_temporary hfind).find_temporary d (sameAbove_refl _ d)
  have hopen := run_overwrite hhere content
  have hremove := run_removeFile hhere
  simp only [hnode] at hopen hremove
  have hkept : ((removeFile (d.absolute path ++ temporarySuffix)).run.run d).2 = d := by
    rw [hremove]
    split <;> rfl
  rw [run_replaceFile_of_refused hopen, hkept]
  refine .refused (fun can => ?_) _
  obtain ⟨-, c, m', hfile⟩ := can.opens _ hnode
  cases hfile

theorem Replacement.of_file (content : Bytes) {c : Bytes} {m : Nat}
    (hfind : d.find (d.absolute path ++ temporarySuffix) = .ok t)
    (hnode : d.node? (d.temporaryPlace path) = some (.file c m)) :
    Replacement d path content ((replaceFile path content).run.run d) := by
  have h := leadBeside_temporary hfind
  have hhere := h.find_temporary d (sameAbove_refl _ d)
  have hopen := run_overwrite hhere content
  have hremove := run_removeFile hhere
  have hfile : d.file? (d.temporaryPlace path) ≠ none := by
    rw [file?, hnode]
    exact Option.some_ne_none _
  simp only [hnode] at hopen hremove
  cases hwrite : d.allows (d.temporaryPlace path) .write with
  | false =>
    have hcannot : ¬ Replaceable d path := fun can => by
      rw [(can.opens _ hnode).1] at hwrite
      cases hwrite
    rw [hwrite, if_neg Bool.false_ne_true] at hopen
    rw [run_replaceFile_of_refused hopen, hremove]
    split
    · exact .removed hcannot _ hfile
    · exact .refused hcannot _
  | true =>
    rw [hwrite, if_pos rfl] at hopen
    obtain ⟨hmay, hrun⟩ | ⟨hnot, e, hrun⟩ := run_replaceFile_of_opened h hopen
    · have hfresh : d.keptMode (d.temporaryPlace path) fileMode = m := by
        rw [keptMode, hnode]
        rfl
      rw [hrun, ← hfresh]
      refine .done ⟨⟨t, hfind⟩, fun n hn => ?_, hmay⟩
      obtain rfl := Option.some.inj (hnode.symm.trans hn)
      exact ⟨hwrite, c, m, rfl⟩
    · rw [hrun]
      split
      · exact .removed (fun can => hnot can.renames) e hfile
      · exact .left (fun can => hnot can.renames) e _ hfile

end Outcome

/-- Replacing a file leaves one of four disks, and the file is replaced just if
it can be. -/
theorem replaceFile_outcome (d : Disk) (path : Text) (content : Bytes) :
    Replacement d path content ((replaceFile path content).run.run d) := by
  cases hfind : d.find (d.absolute path ++ temporarySuffix) with
  | error o => exact .of_unfound content hfind
  | ok t =>
    cases hnode : d.node? (d.temporaryPlace path) with
    | none => exact .of_free content hfind hnode
    | some n =>
      cases n with
      | directory m => exact .of_directory content hfind hnode
      | file c m => exact .of_file content hfind hnode

theorem keptMode_of_no_directory {d : Disk} {place : Place}
    (h : ∀ m, d.node? place ≠ some (.directory m)) (fresh : Nat) :
    d.keptMode place fresh = ((d.file? place).map Prod.snd).getD fresh := by
  unfold keptMode file?
  cases hnode : d.node? place with
  | none => rfl
  | some n =>
    cases n with
    | directory m => exact absurd hnode (h m)
    | file c m => rfl

/-- No file stands where the new content is written first. Then replacing a
file is refused and the disk is exactly as before, or the target holds the new
content, with the permission bits it had or those of a new file, and all else
stands as before; nothing is left beside the target. It is carried out just if
the file can be replaced. From a working directory of plain names the target
is where the path leads. -/
theorem replaceFile_all_or_nothing {d : Disk} {path : Text} (content : Bytes)
    (hfree : d.file? (d.temporaryPlace path) = none) :
    (¬ Replaceable d path ∧ (∃ e, (replaceFile path content).run.run d = (.error e, d)) ∨
      Replaceable d path ∧ ∃ d', (replaceFile path content).run.run d = (.ok (), d') ∧
        d'.file? (d.targetPlace path) =
          some (content, ((d.file? (d.targetPlace path)).map Prod.snd).getD fileMode) ∧
        (∀ place, place ≠ d.targetPlace path → d'.node? place = d.node? place) ∧
        d'.node? (d.temporaryPlace path) = none ∧
        d'.workingDirectory = d.workingDirectory) ∧
      ((∀ n ∈ d.workingDirectory, Plain n) →
        d.targetPlace path = placeOf d.workingDirectory path) := by
  refine ⟨?_, fun hworking => placeOf_absolute hworking path⟩
  have houtcome := replaceFile_outcome d path content
  generalize (replaceFile path content).run.run d = r at houtcome ⊢
  cases houtcome with
  | refused cannot e => exact .inl ⟨cannot, e, rfl⟩
  | removed cannot e file => exact absurd hfree file
  | left cannot e mode file => exact absurd hfree file
  | done can =>
    have hnone : d.node? (d.temporaryPlace path) = none := by
      cases hnode : d.node? (d.temporaryPlace path) with
      | none => rfl
      | some n =>
        obtain ⟨-, c, m, rfl⟩ := can.opens _ hnode
        rw [file?, hnode] at hfree
        cases hfree
    have hfresh : d.keptMode (d.temporaryPlace path) fileMode = fileMode := by
      rw [keptMode, hnone]
      rfl
    have hother (n : Node) {place : Place} (hne : place ≠ d.targetPlace path) :
        (d.putNode (d.targetPlace path) n).node? place = d.node? place :=
      node?_putNode_of_ne n hne
    have hne : d.temporaryPlace path ≠ d.targetPlace path := by
      rw [temporaryPlace_eq]
      exact besidePlace_ne _ (by decide)
    rw [removeNode_of_node?_eq_none hnone, hfresh,
      keptMode_of_no_directory can.renames.no_directory]
    refine .inr ⟨can, _, rfl, ?_, fun place hplace => hother _ hplace, ?_, rfl⟩
    · rw [file?, node?_putNode_self _ can.renames.not_root]
    · rw [hother _ hne, hnone]

/-- A program stays one that may be run. -/
theorem replaceFile_keeps_mode :
    let d : Disk := ⟨[(["w"], .directory 0o755), (["w", "run"], .file [111] 0o755)], ["w"]⟩
    d.file? (d.temporaryPlace "run") = none ∧
      ∃ d', (replaceFile "run" [110]).run.run d = (.ok (), d') ∧
        d'.file? ["w", "run"] = some ([110], 0o755) ∧
        d'.node? ["w", "run.smartpatch_tmp"] = none := by
  intro d
  have hfree : d.file? (d.temporaryPlace "run") = none := by decide +kernel
  have hplace : d.targetPlace "run" = ["w", "run"] := by decide +kernel
  have hbeside : d.temporaryPlace "run" = ["w", "run.smartpatch_tmp"] := by decide +kernel
  have hdone : ((replaceFile "run" [110]).run.run d).1 = .ok () := by decide +kernel
  obtain ⟨⟨-, e, herror⟩ | ⟨-, d', hrun, hfile, -, hnone, -⟩, -⟩ :=
    replaceFile_all_or_nothing [110] hfree
  · rw [herror] at hdone
    cases hdone
  · rw [hplace] at hfile
    rw [hbeside] at hnone
    exact ⟨hfree, d', hrun, hfile, hnone⟩

/-- A file that stands beside the target, under the name the new content is
written to first, is lost when the target is replaced. -/
theorem replaceFile_loses_file_beside : ¬ ∀ (d : Disk) (path : Text) (content : Bytes),
    (∃ e, (replaceFile path content).run.run d = (.error e, d)) ∨
      ∃ d', (replaceFile path content).run.run d = (.ok (), d') ∧
        ∀ place, place ≠ d.targetPlace path → d'.node? place = d.node? place := by
  intro h
  let d : Disk := ⟨[(["w"], .directory 0o755), (["w", "a"], .file [111] 0o644),
    (["w", "a.smartpatch_tmp"], .file [109] 0o644)], ["w"]⟩
  have hdone : ((replaceFile "a" [110]).run.run d).1 = .ok () := by decide +kernel
  have hlost : ((replaceFile "a" [110]).run.run d).2.node? ["w", "a.smartpatch_tmp"] = none := by
    decide +kernel
  obtain ⟨e, he⟩ | ⟨d', hd', hother⟩ := h d "a" [110]
  · rw [he] at hdone
    cases hdone
  · have hkept := hother ["w", "a.smartpatch_tmp"] (by decide +kernel)
    rw [hd'] at hlost
    rw [hlost] at hkept
    cases hkept

end Disk

end Amend
