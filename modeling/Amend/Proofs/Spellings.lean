/-
Amend.Proofs.Spellings — a store in memory has one file for all spellings of
a path.

What the normal form keeps of the names of a path are plain names and, where
the path does not start at the root, double dots before them (`Kept`). Nothing
can be left out of these once more, so the normal form is its own normal form,
and the paths that are theirs are known by their shape (`normalize_eq_self_iff`).
A store keeps its files by these forms alone: each change keeps it so
(`Holds.write`, `Holds.makeDirs`), hence so does every run, and a file reads as
it was last written under any spelling of its path (`file_of_every_spelling`).

  §1 The names that are kept.
  §2 Reduced paths.
  §3 Changes of a store.
-/
import Amend.Proofs.Overlays
import Amend.Proofs.Paths

namespace Amend

namespace Path

/-! ## §1 The names that are kept -/

/-- Names of which the normal form leaves none out, the last one first: plain
names and the double dots before them, of which there are none after the root. -/
inductive Kept (rooted : Bool) : List Text → Prop
  | ups (count : Nat) (below : rooted = true → count = 0) : Kept rooted (List.replicate count above)
  | name {n : Text} {kept : List Text} (plain : Plain n) (before : Kept rooted kept) :
    Kept rooted (n :: kept)

open Disk (pushName_skipped pushName_kept)

variable {rooted : Bool} {kept : List Text}

theorem above_entry : above ≠ [] ∧ slash ∉ above := by decide

theorem Kept.entry (h : Kept rooted kept) : ∀ n ∈ kept, n ≠ [] ∧ slash ∉ n := by
  induction h with
  | ups count _ =>
    intro n hn
    rw [List.eq_of_mem_replicate hn]
    exact above_entry
  | name plain _ ih => exact List.forall_mem_cons.mpr ⟨plain.entry, ih⟩

/-- One more name leaves names that are kept. -/
theorem Kept.pushName (h : Kept rooted kept) {name : Text} (hslash : slash ∉ name) :
    Kept rooted (pushName rooted kept name) := by
  by_cases hskipped : name = [] ∨ name = here
  · rw [pushName_skipped hskipped]
    exact h
  by_cases habove : name = above
  · subst habove
    -- A double dot takes back a plain name, and after other double dots it stays.
    cases h with
    | ups count below =>
      cases count with
      | zero =>
        cases rooted with
        | true => exact .ups 0 fun _ => rfl
        | false => exact .ups 1 (absurd · Bool.false_ne_true)
      | succ count =>
        have hkept : Path.pushName rooted (List.replicate (count + 1) above) above =
            List.replicate (count + 2) above := by
          simp [Path.pushName, List.replicate_succ, hskipped]
        rw [hkept]
        exact .ups (count + 2) fun hrooted => absurd (below hrooted) (Nat.succ_ne_zero count)
    | @name n kept plain before =>
      have htaken : Path.pushName rooted (n :: kept) above = kept := by
        simp [Path.pushName, hskipped, plain.ne_above]
      rw [htaken]
      exact before
  · rw [pushName_kept hskipped habove]
    exact .name ⟨fun h => hskipped (.inl h), fun h => hskipped (.inr h), habove, hslash⟩ h

theorem Kept.foldl_pushName (h : Kept rooted kept) {ns : List Text} (hns : ∀ n ∈ ns, slash ∉ n) :
    Kept rooted (ns.foldl (Path.pushName rooted) kept) := by
  induction ns generalizing kept with
  | nil => exact h
  | cons n ns ih =>
    obtain ⟨hn, hns⟩ := List.forall_mem_cons.mp hns
    exact ih (h.pushName hn) hns

/-- Kept names are kept again. -/
theorem Kept.foldl_reverse (h : Kept rooted kept) :
    kept.reverse.foldl (Path.pushName rooted) [] = kept := by
  induction h with
  | ups count below =>
    rw [List.reverse_replicate]
    induction count with
    | zero => rfl
    | succ count ih =>
      have hrooted : rooted = false :=
        Bool.eq_false_iff.mpr fun h => absurd (below h) (Nat.succ_ne_zero count)
      have hskipped : ¬(above = [] ∨ above = here) := by decide
      rw [List.replicate_succ', List.foldl_append, ih fun h => absurd (hrooted ▸ h) Bool.false_ne_true,
        ← List.replicate_succ', hrooted]
      cases count with
      | zero => rfl
      | succ count => simp [Path.pushName, List.replicate_succ, hskipped]
  | @name n kept plain _ ih =>
    rw [List.reverse_cons, List.foldl_append, ih]
    exact pushName_kept (not_or_intro plain.ne_nil plain.ne_here) plain.ne_above rooted kept

/-- Empty names change nothing. -/
theorem foldl_pushName_entries (rooted : Bool) (kept : List Text) (path : Text) :
    (names path).foldl (Path.pushName rooted) kept =
      (entries path).foldl (Path.pushName rooted) kept := by
  rw [entries]
  induction names path generalizing kept with
  | nil => rfl
  | cons n ns ih =>
    by_cases hempty : n = []
    · rw [List.foldl_cons, pushName_skipped (.inl hempty),
        List.filter_cons_of_neg (by simpa using hempty), ih]
    · rw [List.filter_cons_of_pos (by simpa using hempty), List.foldl_cons, List.foldl_cons, ih]

/-! ## §2 Reduced paths -/

/-- A path of which nothing can be left out: the directory itself, or up to
two slashes and names that are kept after them. -/
inductive Reduced : Text → Prop
  | here : Reduced here
  | names {slashes : Nat} {kept : List Text} (few : slashes ≤ 2) (kept_names : Kept (0 < slashes) kept)
      (ne_nil : List.replicate slashes slash ++ Text.join [slash] kept.reverse ≠ []) :
    Reduced (List.replicate slashes slash ++ Text.join [slash] kept.reverse)

theorem rootSlashes_le (path : Text) : rootSlashes path ≤ 2 := by
  unfold rootSlashes
  split <;> decide

theorem join_head?_ne {ns : List Text} (h : ∀ n ∈ ns, n ≠ [] ∧ slash ∉ n) :
    (Text.join [slash] ns).head? ≠ some slash := by
  cases ns with
  | nil => exact nofun
  | cons n ns =>
    obtain ⟨hne, hslash⟩ := h n List.mem_cons_self
    obtain ⟨c, t, rfl⟩ := List.exists_cons_of_ne_nil hne
    have hc : c ≠ slash := fun hc => hslash (hc ▸ List.mem_cons_self)
    cases ns with
    | nil => simpa [join_singleton] using hc
    | cons m ms => simpa [join_cons_cons] using hc

theorem rootSlashes_replicate_append {slashes : Nat} (hfew : slashes ≤ 2) {t : Text}
    (ht : t.head? ≠ some slash) : rootSlashes (List.replicate slashes slash ++ t) = slashes := by
  have hnone : t.takeWhile (· = slash) = [] := by
    cases t with
    | nil => rfl
    | cons c t => exact List.takeWhile_cons_of_neg (by simpa using ht)
  have htake : (List.replicate slashes slash ++ t).takeWhile (· = slash) =
      List.replicate slashes slash := by
    rw [List.takeWhile_append_of_pos (by simp), hnone, List.append_nil]
  rw [rootSlashes, htake]
  obtain rfl | rfl | rfl : slashes = 0 ∨ slashes = 1 ∨ slashes = 2 := by omega
  all_goals rfl

theorem reduced_normalize (path : Text) : Reduced (normalize path) := by
  have hkept : Kept (0 < rootSlashes path)
      ((names path).foldl (Path.pushName (0 < rootSlashes path)) []) :=
    (Kept.ups 0 fun _ => rfl).foldl_pushName fun n => slash_notMem_of_mem_names
  unfold normalize
  dsimp only
  split
  · exact .here
  · rename_i hne
    exact .names (rootSlashes_le path) hkept hne

theorem Reduced.normalize_eq {path : Text} (h : Reduced path) : normalize path = path := by
  cases h with
  | here => decide
  | @names slashes kept few kept_names ne_nil =>
    have hentry : ∀ n ∈ kept.reverse, n ≠ [] ∧ slash ∉ n := fun n hn =>
      kept_names.entry n (List.mem_reverse.mp hn)
    have hnames : (Path.names (List.replicate slashes slash ++ Text.join [slash] kept.reverse)).foldl
        (Path.pushName (0 < slashes)) [] = kept := by
      rw [foldl_pushName_entries, entries_replicate_append, entries_join hentry,
        kept_names.foldl_reverse]
    simp only [normalize, rootSlashes_replicate_append few (join_head?_ne hentry), hnames]
    exact if_neg ne_nil

/-- The paths that are their own normal form. -/
theorem normalize_eq_self_iff {path : Text} : normalize path = path ↔ Reduced path :=
  ⟨fun h => h ▸ reduced_normalize path, Reduced.normalize_eq⟩

/-- The normal form is its own normal form. -/
theorem normalize_normalize (path : Text) : normalize (normalize path) = normalize path :=
  (reduced_normalize path).normalize_eq

end Path

/-! ## §3 Changes of a store -/

namespace Memory

/-- A change of a store in memory. -/
inductive Change where
  | write (path : Text) (content : Bytes)
  | makeDirs (path : Text)
  deriving Repr

namespace Change

/-- Carries the change out. -/
def run : Change → StateM Memory (Except FileError Unit)
  | write path content => FileStore.write path content
  | makeDirs path => FileStore.makeDirs path

/-- The path a change writes to, and what it writes. -/
def written? : Change → Option (Text × Bytes)
  | write path content => some (path, content)
  | makeDirs _ => none

/-- Whether the change writes to the file of a path, in any spelling. -/
def WritesTo (path : Text) (c : Change) : Prop :=
  ∃ e, c.written? = some e ∧ Path.normalize e.1 = Path.normalize path

end Change

/-- A store of files after changes, one after the other. -/
def after (files : List (Text × Bytes)) (changes : List Change) : Memory :=
  changes.foldl (fun m c => (c.run.run m).2) (.ofFiles files)

/-- What was given for a path under any of its spellings, in order. -/
def contentsOf (given : List (Text × Bytes)) (path : Text) : List Bytes :=
  (given.filter fun e => Path.normalize e.1 = Path.normalize path).map Prod.snd

/-- The store has what was last given for each path, and keeps it under the
normal form of the path. -/
structure Holds (m : Memory) (given : List (Text × Bytes)) : Prop where
  normal : ∀ key ∈ m.files.keys, Path.normalize key = key
  nodup : m.files.keys.Nodup
  dirs : ∀ key ∈ m.dirs, Path.normalize key = key
  content : ∀ path, m.files.get? (Path.normalize path) = (contentsOf given path).getLast?

namespace Holds

variable {m : Memory} {given : List (Text × Bytes)}

theorem empty : Holds {} [] := ⟨nofun, List.nodup_nil, nofun, fun _ => rfl⟩

theorem write (h : Holds m given) (path : Text) (content : Bytes) :
    Holds (m.write path content) (given ++ [(path, content)]) where
  normal key hkey := by
    obtain rfl | hkey := Table.mem_keys_put.mp hkey
    · exact Path.normalize_normalize path
    · exact h.normal key hkey
  nodup := Table.nodup_keys_put h.nodup _ content
  dirs := h.dirs
  content other := by
    rw [Memory.write, Table.get?_put, contentsOf, List.filter_append, List.map_append]
    split
    · rename_i hsame
      simp [hsame]
    · rename_i hother
      simp [hother, h.content, contentsOf]

theorem makeDirs (h : Holds m given) (path : Text) : Holds (m.makeDirs path) given := by
  unfold Memory.makeDirs
  dsimp only
  split
  · exact h
  · refine ⟨h.normal, h.nodup, fun key hkey => ?_, h.content⟩
    obtain hkey | hkey := List.mem_append.mp hkey
    · exact h.dirs key hkey
    · rw [List.mem_singleton.mp hkey]
      exact Path.normalize_normalize path

theorem ofFiles (files : List (Text × Bytes)) : Holds (.ofFiles files) files := by
  induction files using List.reverseRecOn with
  | nil => exact empty
  | append_singleton files e ih =>
    have hlast : Memory.ofFiles (files ++ [e]) = (Memory.ofFiles files).write e.1 e.2 := by
      simp [Memory.ofFiles, Memory.write, Table.ofList]
    rw [hlast]
    exact ih.write e.1 e.2

/-- One change more. -/
theorem change (h : Holds m given) (c : Change) :
    Holds (c.run.run m).2 (given ++ c.written?.toList) := by
  cases c with
  | write path content => exact h.write path content
  | makeDirs path =>
    rw [show (Change.makeDirs path).written?.toList = [] from rfl, List.append_nil]
    exact h.makeDirs path

end Holds

/-- Every run of changes leaves a store that holds what was given. -/
theorem holds_after (files : List (Text × Bytes)) (changes : List Change) :
    Holds (after files changes) (files ++ changes.filterMap Change.written?) := by
  induction changes using List.reverseRecOn with
  | nil =>
    rw [List.filterMap_nil, List.append_nil]
    exact .ofFiles files
  | append_singleton changes c ih =>
    have hstep := ih.change c
    have hgiven : changes.filterMap Change.written? ++ c.written?.toList =
        (changes ++ [c]).filterMap Change.written? := by
      rw [List.filterMap_append]
      cases hc : c.written? <;> simp [hc]
    rw [List.append_assoc, hgiven] at hstep
    rw [after, List.foldl_append]
    exact hstep

theorem Holds.read {m : Memory} {given : List (Text × Bytes)} (h : Holds m given) (path : Text) :
    m.read path =
      match (contentsOf given path).getLast? with
      | some content => .ok content
      | none => .error (.absent path) := by
  rewrite [Memory.read, h.content]
  rfl

/-- Writes to other files do not count. -/
theorem contentsOf_filter {changes : List Change} {path : Text} {counts : Change → Bool}
    (h : ∀ c ∈ changes, counts c = false → ¬ c.WritesTo path) :
    contentsOf ((changes.filter counts).filterMap Change.written?) path =
      contentsOf (changes.filterMap Change.written?) path := by
  induction changes with
  | nil => rfl
  | cons c changes ih =>
    obtain ⟨hc, hchanges⟩ := List.forall_mem_cons.mp h
    have hrest := ih hchanges
    rw [contentsOf, contentsOf] at hrest ⊢
    cases hcounts : counts c with
    | true =>
      rw [List.filter_cons_of_pos hcounts, List.filterMap_cons, List.filterMap_cons]
      cases c.written? with
      | none => exact hrest
      | some e =>
        rw [List.filter_cons, List.filter_cons]
        split
        · rw [List.map_cons, List.map_cons, hrest]
        · exact hrest
    | false =>
      rw [List.filter_cons_of_neg (by simp [hcounts]), List.filterMap_cons, hrest]
      cases hwritten : c.written? with
      | none => rfl
      | some e =>
        have hother : ¬ Path.normalize e.1 = Path.normalize path := fun hsame =>
          hc hcounts ⟨e, hwritten, hsame⟩
        rw [List.filter_cons_of_neg (by simpa using hother)]

/-- After any changes of a store of any files: every file and every directory
is kept under a path that is its own normal form, and no file twice. A file
reads as what was last given for any spelling of its path, be it by a write or
at the start, and is absent if nothing was. Leaving out changes that write to
no spelling of a path changes nothing in what the path reads as. -/
theorem file_of_every_spelling (files : List (Text × Bytes)) (changes : List Change) :
    (∀ key ∈ (after files changes).files.keys, Path.normalize key = key) ∧
    (after files changes).files.keys.Nodup ∧
    (∀ key ∈ (after files changes).dirs, Path.normalize key = key) ∧
    (∀ path, (FileStore.read path : StateM Memory (Except FileError Bytes)).run
        (after files changes) =
      (match (contentsOf (files ++ changes.filterMap Change.written?) path).getLast? with
        | some content => .ok content
        | none => .error (.absent path), after files changes)) ∧
    ∀ path (counts : Change → Bool), (∀ c ∈ changes, counts c = false → ¬ c.WritesTo path) →
      (after files (changes.filter counts)).read path = (after files changes).read path := by
  have hholds := holds_after files changes
  refine ⟨hholds.normal, hholds.nodup, hholds.dirs, fun path => ?_, fun path counts hcounts => ?_⟩
  · rw [← hholds.read path]
    rfl
  · have hcontents : contentsOf (files ++ (changes.filter counts).filterMap Change.written?) path =
        contentsOf (files ++ changes.filterMap Change.written?) path := by
      have hsame := contentsOf_filter hcounts
      rw [contentsOf, contentsOf] at hsame ⊢
      rw [List.filter_append, List.filter_append, List.map_append, List.map_append, hsame]
    rw [hholds.read, (holds_after files (changes.filter counts)).read, hcontents]

/-- Two spellings of one path, and a third path. -/
example : (after [("/w/./a", [1])] [.write "/w/b/../a" [2], .write "/w/ab" [3], .makeDirs "/w//a"]).read
    "/w//a" = .ok [2] := by
  decide +kernel

end Memory

end Amend
