/-
Amend.Proofs.Paths — the entries a path names.

A path is walked entry by entry, and an empty name is none, so slashes in a
row count as one (`entries`). The names that are left in the normal form of a
path from the root are plain: none of them is a dot or a double dot, and they
are the place the path leads to (`normalPath_normalize`). A file beside another
has its name with something added, in the same directory (`besidePlace`).

  §1 Entries.
  §2 Places of plain names.
  §3 The normal form.
  §4 Paths from a working directory.
  §5 A file beside another.
-/
import Amend.Proofs.Disks
import Mathlib.Data.List.Basic

namespace Amend

namespace Path

/-! ## §1 Entries -/

theorem names_ne_nil (path : Text) : names path ≠ [] := by
  cases path with
  | nil => simp [names]
  | cons c t =>
    unfold names
    split
    · simp
    · split <;> simp

theorem names_append_slash (a b : Text) : names (a ++ slash :: b) = names a ++ names b := by
  induction a with
  | nil => simp [names]
  | cons c a ih =>
    rw [List.cons_append, names, names, ih]
    split
    · rfl
    · cases hnames : names a with
      | nil => exact absurd hnames (names_ne_nil a)
      | cons n ns => rfl

theorem names_of_notMem {name : Text} (h : slash ∉ name) : names name = [name] := by
  induction name with
  | nil => rfl
  | cons c name ih =>
    rw [List.mem_cons, not_or] at h
    rw [names, if_neg (Ne.symm h.1), ih h.2]

theorem slash_notMem_of_mem_names {path name : Text} (h : name ∈ names path) : slash ∉ name := by
  induction path generalizing name with
  | nil => simp_all [names]
  | cons c path ih =>
    rw [names] at h
    split at h
    · obtain rfl | h := List.mem_cons.mp h
      · exact List.not_mem_nil
      · exact ih h
    · rename_i hc
      split at h
      · rename_i n ns hnames
        rw [hnames] at ih
        obtain rfl | h := List.mem_cons.mp h
        · simp [Ne.symm hc, ih List.mem_cons_self]
        · exact ih (List.mem_cons_of_mem n h)
      · rename_i hnames
        exact absurd hnames (names_ne_nil path)

/-- The names of a path that are those of entries. -/
def entries (path : Text) : List Text := (names path).filter (· ≠ [])

theorem entries_append_slash (a b : Text) : entries (a ++ slash :: b) = entries a ++ entries b := by
  rw [entries, names_append_slash, List.filter_append, entries, entries]

theorem entries_cons_slash (t : Text) : entries (slash :: t) = entries t :=
  entries_append_slash [] t

theorem entries_append_singleton (t : Text) : entries (t ++ [slash]) = entries t := by
  rw [entries_append_slash t []]
  exact List.append_nil _

theorem entries_replicate_append (count : Nat) (t : Text) :
    entries (List.replicate count slash ++ t) = entries t := by
  induction count with
  | zero => rfl
  | succ count ih => rw [List.replicate_succ, List.cons_append, entries_cons_slash, ih]

/-- A name that stands for itself: it is not empty, neither a dot nor a double
dot, and holds no slash. -/
structure Plain (name : Text) : Prop where
  ne_nil : name ≠ []
  ne_here : name ≠ here
  ne_above : name ≠ above
  no_slash : slash ∉ name

theorem Plain.entry {name : Text} (h : Plain name) : name ≠ [] ∧ slash ∉ name :=
  ⟨h.ne_nil, h.no_slash⟩

theorem entries_of_notMem {name : Text} (h : name ≠ [] ∧ slash ∉ name) : entries name = [name] := by
  simp [entries, names_of_notMem h.2, h.1]

theorem join_cons_cons (n m : Text) (ns : List Text) :
    Text.join [slash] (n :: m :: ns) = n ++ slash :: Text.join [slash] (m :: ns) := by
  simp [Text.join, List.intercalate, List.intersperse]

theorem join_singleton (n : Text) : Text.join [slash] [n] = n := by
  simp [Text.join, List.intercalate, List.intersperse]

/-- Joining names of entries and taking them apart gives them back. -/
theorem entries_join {ns : List Text} (h : ∀ n ∈ ns, n ≠ [] ∧ slash ∉ n) :
    entries (Text.join [slash] ns) = ns := by
  induction ns with
  | nil => rfl
  | cons n ns ih =>
    cases ns with
    | nil =>
      rw [join_singleton]
      exact entries_of_notMem (h n List.mem_cons_self)
    | cons m ms =>
      rw [join_cons_cons, entries_append_slash, entries_of_notMem (h n List.mem_cons_self),
        ih fun k hk => h k (List.mem_cons_of_mem n hk)]
      rfl

/-- What is added to joined names is added to the last of them. -/
theorem join_append_last (ns : List Text) (last suffix : Text) :
    Text.join [slash] (ns ++ [last]) ++ suffix = Text.join [slash] (ns ++ [last ++ suffix]) := by
  induction ns with
  | nil => rw [List.nil_append, List.nil_append, join_singleton, join_singleton]
  | cons n ns ih =>
    cases ns with
    | nil =>
      simp only [List.cons_append, List.nil_append, join_cons_cons, join_singleton,
        List.append_assoc]
    | cons m ms =>
      simp only [List.cons_append, join_cons_cons, List.append_assoc] at ih ⊢
      rw [ih]

end Path

/-! ## §2 Places of plain names -/

namespace Disk

open Amend.Path

theorem byteLength_append (a b : Text) : byteLength (a ++ b) = byteLength a + byteLength b := by
  rw [byteLength, Utf8.encode, List.flatMap_append, List.length_append]
  rfl

theorem placeOf_eq (working : Place) (path : Text) :
    placeOf working path = placeFrom (if isAbsolute path then [] else working) (entries path) := rfl

theorem placeFrom_append (current : Place) (ns ms : List Text) :
    placeFrom current (ns ++ ms) = placeFrom (placeFrom current ns) ms := by
  induction ns generalizing current with
  | nil => rfl
  | cons n ns ih =>
    rw [List.cons_append, placeFrom, placeFrom]
    split
    · exact ih _
    · split
      · exact ih _
      · exact ih _

/-- Plain names lead down, each one step. -/
theorem placeFrom_of_plain (current : Place) {ns : List Text} (h : ∀ n ∈ ns, Plain n) :
    placeFrom current ns = current ++ ns := by
  induction ns generalizing current with
  | nil => exact (List.append_nil current).symm
  | cons n ns ih =>
    have hn := h n List.mem_cons_self
    rw [placeFrom, if_neg hn.ne_here, if_neg hn.ne_above,
      ih _ fun m hm => h m (List.mem_cons_of_mem n hm), List.append_assoc]
    rfl

/-- The place entries lead to has plain names only. -/
theorem plain_of_mem_placeFrom {current : Place} {ns : List Text}
    (hcurrent : ∀ n ∈ current, Plain n) (hns : ∀ n ∈ ns, n ≠ [] ∧ slash ∉ n) :
    ∀ n ∈ placeFrom current ns, Plain n := by
  induction ns generalizing current with
  | nil => exact hcurrent
  | cons n ns ih =>
    have hrest := fun m hm => hns m (List.mem_cons_of_mem n hm)
    rw [placeFrom]
    split
    · exact ih hcurrent hrest
    · rename_i hhere
      split
      · exact ih (fun m hm => hcurrent m (List.dropLast_subset _ hm)) hrest
      · rename_i habove
        refine ih (fun m hm => ?_) hrest
        obtain hm | hm := List.mem_append.mp hm
        · exact hcurrent m hm
        · obtain rfl := List.mem_singleton.mp hm
          obtain ⟨hne, hslash⟩ := hns m List.mem_cons_self
          exact ⟨hne, hhere, habove, hslash⟩

theorem plain_of_mem_placeOf {path n : Text} (h : n ∈ placeOf [] path) : Plain n := by
  rw [placeOf_eq, ite_self] at h
  refine plain_of_mem_placeFrom (fun _ hm => absurd hm List.not_mem_nil) (fun m hm => ?_) n h
  obtain ⟨hm, hne⟩ := List.mem_filter.mp hm
  exact ⟨by simpa using hne, slash_notMem_of_mem_names hm⟩

/-! ## §3 The normal form -/

theorem pushName_skipped {name : Text} (h : name = [] ∨ name = here) (rooted : Bool)
    (kept : List Text) : pushName rooted kept name = kept := by
  cases kept <;> simp [pushName, h]

theorem pushName_above {kept : List Text} (h : above ∉ kept) :
    pushName true kept above = kept.tail := by
  have habove : ¬ (above = [] ∨ above = here) := by decide
  cases kept with
  | nil => simp [pushName]
  | cons k ks => simp [pushName, habove, Ne.symm (List.ne_of_not_mem_cons h)]

theorem pushName_kept {name : Text} (hskipped : ¬ (name = [] ∨ name = here))
    (habove : name ≠ above) (rooted : Bool) (kept : List Text) :
    pushName rooted kept name = name :: kept := by
  cases kept <;> simp [pushName, hskipped, habove]

/-- The names that are kept of a path from the root are those of the place it
leads to, last to first. -/
theorem foldl_pushName {kept : List Text} (hkept : above ∉ kept) (ns : List Text) :
    ns.foldl (pushName true) kept = (placeFrom kept.reverse (ns.filter (· ≠ []))).reverse := by
  induction ns generalizing kept with
  | nil => simp [placeFrom]
  | cons n ns ih =>
    rw [List.foldl_cons]
    by_cases hempty : n = []
    · rw [pushName_skipped (.inl hempty), List.filter_cons_of_neg (by simpa using hempty)]
      exact ih hkept
    · rw [List.filter_cons_of_pos (by simpa using hempty), placeFrom]
      by_cases hhere : n = here
      · rw [pushName_skipped (.inr hhere), if_pos hhere]
        exact ih hkept
      · rw [if_neg hhere]
        by_cases habove : n = above
        · rw [habove, pushName_above hkept, if_pos rfl, ih fun hmem => hkept (List.mem_of_mem_tail hmem),
            List.dropLast_reverse]
        · rw [pushName_kept (not_or_intro hempty hhere) habove, if_neg habove, ← List.reverse_cons]
          exact ih fun hmem => (List.mem_cons.mp hmem).elim (habove ·.symm) hkept

/-- A path from the root as the normal form has it: slashes, and after them the
names of its place. -/
structure NormalPath (path : Text) (place : Place) : Prop where
  plain : ∀ n ∈ place, Plain n
  written : ∃ count, 0 < count ∧ path = List.replicate count slash ++ Text.join [slash] place

namespace NormalPath

variable {path : Text} {place : Place}

theorem isAbsolute_eq (h : NormalPath path place) : isAbsolute path = true := by
  obtain ⟨count, hcount, rfl⟩ := h.written
  obtain ⟨n, rfl⟩ := Nat.exists_eq_succ_of_ne_zero (Nat.ne_of_gt hcount)
  simp [isAbsolute, List.replicate_succ]

theorem entries_eq (h : NormalPath path place) : entries path = place := by
  obtain ⟨count, -, rfl⟩ := h.written
  rw [entries_replicate_append, entries_join fun n hn => (h.plain n hn).entry]

theorem placeOf_eq (h : NormalPath path place) (working : Place) : placeOf working path = place := by
  rw [Disk.placeOf_eq, if_pos h.isAbsolute_eq, h.entries_eq, placeFrom_of_plain [] h.plain,
    List.nil_append]

/-- Only the path of the root ends in a slash. -/
theorem getLast?_eq_iff (h : NormalPath path place) : path.getLast? = some slash ↔ place = [] := by
  obtain ⟨count, hcount, rfl⟩ := h.written
  obtain rfl | ⟨init, last, rfl⟩ := List.eq_nil_or_concat' place
  · refine iff_of_true ?_ rfl
    rw [show Text.join [slash] [] = [] from rfl, List.append_nil, List.getLast?_replicate,
      if_neg (Nat.ne_of_gt hcount)]
  · have hlast := h.plain last (List.mem_append_right _ List.mem_cons_self)
    refine iff_of_false (fun hslash => ?_) (List.append_ne_nil_of_right_ne_nil _ (List.cons_ne_nil _ _))
    rw [← List.nil_append last, ← join_append_last, ← List.append_assoc,
      List.getLast?_append_of_ne_nil _ hlast.ne_nil] at hslash
    exact hlast.no_slash (List.mem_of_getLast? hslash)

end NormalPath

/-- The normal form of a path from the root is the one that leads to the same
place. -/
theorem normalPath_normalize {path : Text} (h : isAbsolute path = true) :
    NormalPath (Path.normalize path) (placeOf [] path) := by
  refine ⟨fun n => plain_of_mem_placeOf, ?_⟩
  have hslashes : 0 < rootSlashes path := by
    cases path with
    | nil => simp [isAbsolute] at h
    | cons c t =>
      obtain rfl : c = slash := by simpa [isAbsolute] using h
      rw [rootSlashes, List.takeWhile_cons_of_pos (by simp)]
      split
      · simp at *
      · exact Nat.succ_pos 1
      · exact Nat.one_pos
  refine ⟨rootSlashes path, hslashes, ?_⟩
  have hne : List.replicate (rootSlashes path) slash ++ Text.join [slash] (placeOf [] path) ≠ [] := by
    obtain ⟨n, hn⟩ := Nat.exists_eq_succ_of_ne_zero (Nat.ne_of_gt hslashes)
    rw [hn]
    exact List.cons_ne_nil _ _
  have hkept : ((names path).foldl (pushName true) []).reverse = placeOf [] path := by
    rw [foldl_pushName List.not_mem_nil, List.reverse_reverse, placeOf_eq, ite_self]
    rfl
  simp only [Path.normalize, hslashes, decide_true, hkept]
  exact if_neg hne

/-! ## §4 Paths from a working directory -/

theorem isAbsolute_join {base : Text} (h : isAbsolute base = true) (path : Text) :
    isAbsolute (join base path) = true := by
  rw [join]
  split
  · assumption
  · cases base with
    | nil => simp [isAbsolute] at h
    | cons c t => split <;> simpa [isAbsolute] using h

theorem normalPath_absolute_join (d : Disk) (path : Text) :
    NormalPath (d.absolute path) (placeOf [] (join d.workingPath path)) :=
  normalPath_normalize (isAbsolute_join (by simp [workingPath, isAbsolute]) path)

/-- The absolute path leads to one place from every working directory. -/
theorem normalPath_absolute (d : Disk) (path : Text) (working : Place) :
    NormalPath (d.absolute path) (placeOf working (d.absolute path)) := by
  rw [(normalPath_absolute_join d path).placeOf_eq]
  exact normalPath_absolute_join d path

/-- A path taken from another names the entries of the one and then its own. -/
theorem entries_join_path {base path : Text} (hbase : base ≠ []) (hpath : isAbsolute path = false) :
    entries (join base path) = entries base ++ entries path := by
  rw [join, if_neg (by simp [hpath])]
  split
  · rename_i hlast
    obtain ⟨init, rfl⟩ := List.getLast?_eq_some_iff.mp (hlast.resolve_left hbase)
    rw [entries_append_singleton, List.append_assoc]
    exact entries_append_slash init path
  · rw [List.append_assoc]
    exact entries_append_slash base path

/-- The absolute path leads where the path leads, if the working directory is
a place that a path can lead to. -/
theorem placeOf_absolute {d : Disk} (hworking : ∀ n ∈ d.workingDirectory, Plain n) (path : Text) :
    placeOf d.workingDirectory (d.absolute path) = placeOf d.workingDirectory path := by
  rw [(normalPath_absolute_join d path).placeOf_eq, placeOf_eq, placeOf_eq, ite_self]
  cases hpath : isAbsolute path with
  | true => rw [join, if_pos hpath, if_pos rfl]
  | false =>
    have hentries : entries d.workingPath = d.workingDirectory := by
      rw [workingPath, entries_cons_slash, entries_join fun n hn => (hworking n hn).entry]
    have hbase : d.workingPath ≠ [] := List.cons_ne_nil _ _
    rw [entries_join_path hbase hpath, hentries, placeFrom_append,
      placeFrom_of_plain [] hworking, if_neg Bool.false_ne_true, List.nil_append]

/-! ## §5 A file beside another -/

/-- The place beside another that has something added to its name. -/
def besidePlace (place : Place) (suffix : Text) : Place :=
  place.dropLast ++ [place.getLast?.getD [] ++ suffix]

theorem besidePlace_concat (init : Place) (last suffix : Text) :
    besidePlace (init ++ [last]) suffix = init ++ [last ++ suffix] := by
  rw [besidePlace, List.dropLast_concat, List.getLast?_concat, Option.getD_some]

theorem besidePlace_ne (place : Place) {suffix : Text} (h : suffix ≠ []) :
    besidePlace place suffix ≠ place := by
  obtain rfl | ⟨init, last, rfl⟩ := List.eq_nil_or_concat' place
  · exact List.cons_ne_nil _ _
  · rw [besidePlace_concat, Ne, List.append_cancel_left_eq, List.cons.injEq]
    simpa using h

theorem dropLast_besidePlace (place : Place) (suffix : Text) :
    (besidePlace place suffix).dropLast = place.dropLast :=
  List.dropLast_concat

theorem join_append_suffix (place : Place) (suffix : Text) :
    Text.join [slash] place ++ suffix = Text.join [slash] (besidePlace place suffix) := by
  obtain rfl | ⟨init, last, rfl⟩ := List.eq_nil_or_concat' place
  · exact (join_singleton suffix).symm
  · rw [join_append_last, besidePlace_concat]

/-- A long suffix makes a plain name of any other, unless there is a slash in
one of them. -/
theorem plain_append {name suffix : Text} (hname : slash ∉ name) (hsuffix : slash ∉ suffix)
    (hlong : above.length < suffix.length) : Plain (name ++ suffix) := by
  have hlength : above.length < (name ++ suffix).length := by
    rw [List.length_append]
    omega
  refine ⟨?_, ?_, ?_, fun hmem => (List.mem_append.mp hmem).elim hname hsuffix⟩
  · rintro hnil
    simp [hnil] at hlength
  · intro hhere
    rw [hhere] at hlength
    exact absurd hlength (by decide)
  · intro habove
    rw [habove] at hlength
    exact Nat.lt_irrefl _ hlength

/-- What is added to a path is added to its last name. -/
theorem NormalPath.append {path : Text} {place : Place} (h : NormalPath path place) {suffix : Text}
    (hsuffix : slash ∉ suffix) (hlong : above.length < suffix.length) :
    NormalPath (path ++ suffix) (besidePlace place suffix) := by
  constructor
  · intro n hn
    obtain hn | hn := List.mem_append.mp hn
    · exact h.plain n (List.dropLast_subset _ hn)
    · obtain rfl := List.mem_singleton.mp hn
      refine plain_append (fun hmem => ?_) hsuffix hlong
      cases hlast : place.getLast? with
      | none => simp [hlast] at hmem
      | some last =>
        rw [hlast, Option.getD_some] at hmem
        exact (h.plain last (List.mem_of_getLast? hlast)).no_slash hmem
  · obtain ⟨count, hcount, rfl⟩ := h.written
    exact ⟨count, hcount, by rw [List.append_assoc, join_append_suffix]⟩

end Disk

end Amend
