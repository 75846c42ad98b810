/-
Amend.Proofs.Appending — what is read of a log after an entry was added to it.

An entry is added as a line of its own only if the log ends in a line break,
or in white space after one: nothing looks at what the log ends in. Then its
values are those read before and the new one (`append_read_iff`), so after any
number of entries all of them are read (`appendAll_read`). Otherwise the entry
continues the last line, and that line, torn or whole, is read as nothing any
more: what it held is lost with the new entry.

  §1 Lines and white space.
  §2 The line of an entry.
  §3 The lines of a longer log.
  §4 A log that is there.
  §5 The values after an entry.
-/
import Amend.Proofs.Joining
import Amend.Proofs.Recent
import Amend.Proofs.Tearing

namespace Amend

open Text

/-! ## §1 Lines and white space -/

namespace Text

/-- The last line of a text, which may not be ended. -/
def lastLine (t : Text) : Text := (lines t).getLast (lines_ne_nil t)

theorem lines_eq_append_lastLine (t : Text) : lines t = (lines t).dropLast ++ [lastLine t] :=
  (List.dropLast_append_getLast (lines_ne_nil t)).symm

/-- What is put behind a text without a line break continues its last line. -/
theorem lines_append_of_notMem {u : Text} (h : lf ∉ u) (t : Text) :
    lines (t ++ u) = (lines t).dropLast ++ [lastLine t ++ u] := by
  have hjoined : t ++ u = unlines ((lines t).dropLast ++ [lastLine t ++ u]) := by
    rw [unlines_append _ (List.cons_ne_nil _ _), unlines_singleton, ← List.append_assoc,
      ← unlines_singleton (lastLine t), ← unlines_append _ (List.cons_ne_nil _ _),
      ← lines_eq_append_lastLine, unlines_lines]
  have hlast : lastLine t ∈ lines t := List.getLast_mem (lines_ne_nil t)
  rw [hjoined, lines_unlines_of_notMem (by simp)]
  refine List.forall_mem_append.mpr ⟨fun l hl =>
    lf_notMem_of_mem_lines (List.dropLast_subset _ hl), List.forall_mem_singleton.mpr ?_⟩
  rw [List.mem_append, not_or]
  exact ⟨lf_notMem_of_mem_lines hlast, h⟩

variable {l w : Text} {s : Symbol}

theorem trimStart_append (hw : w.head? = some s) (hs : s.isSpace = false) (l : Text) :
    trimStart (l ++ w) = trimStart l ++ w := by
  obtain ⟨r, rfl⟩ := List.head?_eq_some_iff.mp hw
  rw [trimStart, List.dropWhile_append, ← trimStart]
  split
  · rename_i hblank
    rw [List.isEmpty_iff.mp hblank, List.dropWhile_cons_of_neg (by simp [hs])]
    rfl
  · rfl

theorem trimEnd_of_getLast? (hw : w.getLast? = some s) (hs : s.isSpace = false) : trimEnd w = w := by
  obtain ⟨init, rfl⟩ := List.getLast?_eq_some_iff.mp hw
  rw [trimEnd, List.reverse_append, List.reverse_singleton, List.singleton_append,
    List.dropWhile_cons_of_neg (by simp [hs]), List.reverse_cons, List.reverse_reverse]

/-- What is left of a text trimmed at its start is nothing if it is all white
space. -/
theorem trimStart_eq_nil_of_isSpace (h : ∀ s ∈ trimStart l, s.isSpace = true) : trimStart l = [] := by
  cases hstart : trimStart l with
  | nil => rfl
  | cons s r =>
    have hspace : s.isSpace = true := h s (by simp [hstart])
    have hhead := List.head?_dropWhile_not Symbol.isSpace l
    rw [show l.dropWhile Symbol.isSpace = _ from hstart] at hhead
    simp [hspace] at hhead

theorem trim_eq_nil_iff : trim l = [] ↔ trimStart l = [] := by
  refine ⟨fun h => ?_, fun h => by rw [trim, h]; rfl⟩
  rw [trim, trimEnd, List.reverse_eq_nil_iff, List.dropWhile_eq_nil_iff] at h
  exact trimStart_eq_nil_of_isSpace fun s hs => h s (List.mem_reverse.mpr hs)

end Text

namespace Metric

/-! ## §2 The line of an entry -/

variable {time : Text} {entry : List (Value × Value)}

/-- The time stays the first field, whatever else an entry has. -/
theorem exists_stamped (time : Text) (entry : List (Value × Value)) :
    ∃ v es, entry.foldl (fun es e => Value.put es e.1 e.2)
      [(Value.ofString "timestamp", .text time)] = (Value.ofString "timestamp", v) :: es := by
  suffices h : ∀ v es, ∃ v' es', entry.foldl (fun es e => Value.put es e.1 e.2)
      ((Value.ofString "timestamp", v) :: es) = (Value.ofString "timestamp", v') :: es' from h _ _
  induction entry with
  | nil => exact fun v es => ⟨v, es, rfl⟩
  | cons e entry ih =>
    intro v es
    rw [List.foldl_cons, Value.put]
    split
    · rw [List.map_cons]
      split <;> exact ih _ _
    · exact ih _ _

/-- An entry is logged as an object on a line. -/
theorem exists_line (time : Text) (entry : List (Value × Value)) :
    ∃ z, line time entry = Json.objectText z ++ [lf] ∧
      (∀ a ∈ Json.objectText z, Json.Printable a) ∧
        (Json.objectText z).getLast? = some (.char '\x7d') := by
  obtain ⟨v, es, hstamped⟩ := exists_stamped time entry
  obtain ⟨z, hz⟩ : ∃ z, Json.write (.mapping ((Value.ofString "timestamp", v) :: es)) =
      Json.objectText z := by
    rw [Json.write_mapping]
    cases es <;> exact ⟨_, rfl⟩
  refine ⟨z, by rw [line, hstamped, hz], hz ▸ Json.printable_write _, ?_⟩
  rw [← hz, Json.write_mapping, ← List.cons_append, List.getLast?_concat]

variable {z : Text}

theorem trim_append_object (hlast : (Json.objectText z).getLast? = some (.char '\x7d')) (l : Text) :
    trim (l ++ Json.objectText z) = trimStart l ++ Json.objectText z := by
  rw [trim, trimStart_append (s := .char '\x7b') rfl (by decide +kernel),
    trimEnd_of_getLast? (s := .char '\x7d') (by rw [List.getLast?_append, hlast]; rfl)
      (by decide +kernel)]

theorem lineValue?_object (hlast : (Json.objectText z).getLast? = some (.char '\x7d')) :
    lineValue? (Json.objectText z ++ [lf]) = (Json.read (Json.objectText z)).toOption := by
  have hstart : trimStart (Json.objectText z ++ [lf]) = Json.objectText z ++ [lf] :=
    List.dropWhile_cons_of_neg (by decide +kernel)
  have hend : trimEnd (Json.objectText z ++ [lf]) = trimEnd (Json.objectText z) := by
    rw [trimEnd, List.reverse_append, List.reverse_singleton, List.singleton_append,
      List.dropWhile_cons_of_pos (by decide +kernel), ← trimEnd]
  rw [lineValue?, trim, hstart, hend, trimEnd_of_getLast? hlast (by decide +kernel)]

theorem isSpace_of_json {s : Symbol} (h : Json.isSpace s = true) : s.isSpace = true := by
  simp only [Json.isSpace, Symbol.is, Bool.or_eq_true, beq_iff_eq] at h
  obtain ((rfl | rfl) | rfl) | rfl := h <;> decide

/-- Behind white space an object stands as on a line of its own. -/
theorem trim_append_of_blank {l : Text} (hlast : (Json.objectText z).getLast? = some (.char '\x7d'))
    (hblank : trim l = []) : trim (l ++ Json.objectText z) = Json.objectText z := by
  rw [trim_append_object hlast, trim_eq_nil_iff.mp hblank, List.nil_append]

/-- Behind anything else it is not read. -/
theorem lineValue?_append_eq_none {l : Text} {v : Value}
    (hlast : (Json.objectText z).getLast? = some (.char '\x7d'))
    (hobject : Json.read (Json.objectText z) = .ok v) (hblank : trim l ≠ []) :
    lineValue? (l ++ Json.objectText z) = none := by
  have hskip : Json.skip (trimStart l) ≠ [] := by
    intro hskip
    rw [Json.skip, List.dropWhile_eq_nil_iff] at hskip
    exact hblank (trim_eq_nil_iff.mpr
      (trimStart_eq_nil_of_isSpace fun s hs => isSpace_of_json (hskip s hs)))
  rw [lineValue?, trim_append_object hlast]
  cases hread : Json.read (trimStart l ++ Json.objectText z) with
  | error e => rfl
  | ok u => exact absurd hread (Json.read_append_ne_ok hobject hskip)

/-! ## §3 The lines of a longer log -/

variable {log : Bytes} {t : Text} {vs : List Value} {v : Value}

theorem decodeStrict_append_line (h : Utf8.decodeStrict log = .ok t) (time : Text)
    (entry : List (Value × Value)) :
    Utf8.decodeStrict (log ++ Utf8.encode (line time entry)) = .ok (t ++ line time entry) := by
  obtain ⟨z, hline, hprintable, -⟩ := exists_line time entry
  have hascii : ∀ a ∈ line time entry, a.Ascii := by
    rw [hline]
    exact List.forall_mem_append.mpr ⟨fun a ha => ascii_of_printable (hprintable a ha),
      List.forall_mem_singleton.mpr ⟨'\n', rfl, by decide⟩⟩
  have happend := Utf8.strict?_append log (Utf8.encode (line time entry))
  rw [h, Utf8.strict?, Utf8.strict?, Utf8.decodeStrict_encode hascii] at happend
  exact Except.toOption_eq_some_iff.mp happend

theorem lines_append_line (hprintable : ∀ a ∈ Json.objectText z, Json.Printable a) (t : Text) :
    lines (universal (t ++ (Json.objectText z ++ [lf]))) =
      (lines (universal t)).dropLast ++ [lastLine (universal t) ++ Json.objectText z, []] := by
  obtain ⟨hlf, hcr⟩ := notMem_of_printable hprintable
  have hplain : cr ∉ Json.objectText z ++ [lf] := by
    rw [List.mem_append, not_or]
    exact ⟨hcr, by decide⟩
  have hseam : ¬ (t.getLast? = some cr ∧ (Json.objectText z ++ [lf]).head? = some lf) := by
    rintro ⟨-, hhead⟩
    cases hhead
  rw [Text.universal_append hseam, Stream.universal_eq_self hplain, ← List.append_assoc,
    lines_append_lf, lines_append_of_notMem hlf, List.append_assoc]
  rfl

/-- The last line of a log is ended, or holds nothing but white space. -/
def Ended (t : Text) : Prop := trim (lastLine (universal t)) = []

instance (t : Text) : Decidable (Ended t) := inferInstanceAs (Decidable (_ = []))

theorem ended_append_line (t time : Text) (entry : List (Value × Value)) :
    Ended (t ++ line time entry) := by
  obtain ⟨z, hz, hprintable, -⟩ := exists_line time entry
  have hlast := lines_eq_append_lastLine (universal (t ++ line time entry))
  rw [hz, lines_append_line hprintable, List.append_cons] at hlast
  rw [Ended, hz, ← List.singleton_inj.mp (List.append_inj_right' hlast rfl)]
  rfl

/-- An entry added to a log that can be read comes after those read before, if
the log was ended; otherwise what the last line held is lost with it. -/
theorem values_append (hutf8 : Utf8.decodeStrict log = .ok t) (hvalues : values log = .ok vs)
    (hline : lineValue? (line time entry) = some v) :
    (Ended t → values (log ++ Utf8.encode (line time entry)) = .ok (vs ++ [v])) ∧
      (¬ Ended t → ∀ ws, values (log ++ Utf8.encode (line time entry)) = .ok ws →
        ws ++ (lineValue? (lastLine (universal t))).toList = vs) := by
  obtain ⟨z, hz, hprintable, hlast⟩ := exists_line time entry
  have hafter : values (log ++ Utf8.encode (line time entry)) = valuesOf
      ((lines (universal t)).dropLast ++ [lastLine (universal t) ++ Json.objectText z, []]) := by
    rw [values_of_strict (decodeStrict_append_line hutf8 time entry), hz,
      lines_append_line hprintable]
  rw [values_of_strict hutf8, valuesOf_eq_ok_iff, lines_eq_append_lastLine,
    List.filterMap_append] at hvalues
  obtain ⟨hbefore, hvs⟩ := hvalues
  obtain ⟨hclosed, hlastLine⟩ := List.forall_mem_append.mp hbefore
  have hsingle (l : Text) : [l].filterMap lineValue? = (lineValue? l).toList := by
    rw [List.filterMap_cons, List.filterMap_nil]
    cases lineValue? l <;> rfl
  have hempty : lineValue? [] = none := rfl
  rw [hsingle] at hvs
  rw [hz, lineValue?_object hlast] at hline
  have hread := Except.toOption_eq_some_iff.mp hline
  refine ⟨fun hended => ?_, fun hended ws hws => ?_⟩
  · have htrim := trim_append_of_blank hlast hended
    have hvalue : lineValue? (lastLine (universal t) ++ Json.objectText z) = some v := by
      rw [lineValue?, htrim, hread]
      rfl
    have hnone : lineValue? (lastLine (universal t)) = none := by
      rw [lineValue?, show trim _ = [] from hended]
      rfl
    rw [hafter, valuesOf_eq_ok_iff]
    refine ⟨List.forall_mem_append.mpr ⟨hclosed, List.forall_mem_cons.mpr
      ⟨?_, List.forall_mem_singleton.mpr ?_⟩⟩, ?_⟩
    · rintro ⟨e, he, -⟩
      rw [htrim, hread] at he
      cases he
    · rintro ⟨e, he, hne⟩
      cases he
      exact hne rfl
    · rw [hnone] at hvs
      rw [List.filterMap_append, List.filterMap_cons, hvalue]
      simpa [hempty] using hvs
  · rw [hafter, valuesOf_eq_ok_iff] at hws
    obtain ⟨-, rfl⟩ := hws
    rw [List.filterMap_append, List.filterMap_cons, lineValue?_append_eq_none hlast hread hended]
    simpa [hempty] using hvs

end Metric

/-! ## §4 A log that is there -/

namespace Disk

variable {d : Disk} {path : Text} {log : Bytes}

/-- A log that is there and may be added to: its directory is there, it holds
these bytes, and the user may write it. -/
structure OpenLog (d : Disk) (path : Text) (log : Bytes) : Prop where
  directory : d.isDirectory (Path.directory path) = true
  read : d.read path = .ok log
  write : d.allows (placeOf d.workingDirectory path) .write = true

theorem exists_file_of_read (h : d.read path = .ok log) : ∃ t m, d.find path = .ok t ∧
    t.node = some (.file log m) ∧ t.slashed = false ∧ (Node.file log m).allows .read = true := by
  unfold Disk.read stat at h
  cases hfind : d.find path with
  | error o =>
    rw [hfind] at h
    cases h
  | ok t =>
    rw [hfind] at h
    simp only [bind, Except.bind] at h
    rcases hnode : t.node with _ | ⟨c, m⟩ | m
    · rw [hnode] at h
      cases h
    · rw [hnode] at h
      cases hslashed : t.slashed with
      | true =>
        rw [hslashed] at h
        cases h
      | false =>
        simp only [hslashed, Bool.false_eq_true, if_false, pure, Except.pure] at h
        split at h
        · cases h
        · rename_i hallows
          cases h
          exact ⟨t, m, rfl, hnode, hslashed, by simpa using hallows⟩
    · rw [hnode] at h
      simp only [pure, Except.pure] at h
      split at h <;> cases h

/-- Another content leaves the ways of a disk as they were. -/
theorem find_putNode_file {place : Place} {log log' : Bytes} {m : Nat}
    (hfile : d.node? place = some (.file log m)) {other : Text} {t : Destination}
    (hfind : d.find other = .ok t) : (d.putNode place (.file log' m)).find other =
      .ok ⟨t.place, (d.putNode place (.file log' m)).node? t.place, t.slashed, t.named⟩ := by
  have hplace : place ≠ [] := by
    rintro rfl
    cases hfile
  obtain ⟨hproper, hwalks, -, hslashed⟩ := find_eq_ok_iff.mp hfind
  refine find_eq_ok_iff.mpr ⟨hproper, hwalks.mono (fun {other} hother => ?_) fun {other} _ hother => ?_,
    rfl, hslashed⟩
  · by_cases heq : other = place
    · subst heq
      rw [allows, hfile] at hother
      rw [allows, node?_putNode_self _ hplace]
      exact hother
    · rwa [allows, node?_putNode_of_ne _ heq]
  · rw [node?_putNode_of_ne, hother]
    rintro rfl
    rw [hfile] at hother
    cases hother

/-- What is added to a log comes last in it, and more can be added. -/
theorem OpenLog.run_appendMaking (h : OpenLog d path log) (more : Bytes) :
    ∃ d', (appendMaking path more).run.run d = (.ok (), d') ∧ OpenLog d' path (log ++ more) := by
  obtain ⟨t, m, hfind, hnode, hslashed, hallows⟩ := exists_file_of_read h.read
  obtain ⟨hplace, hfile⟩ := find_place hfind
  rw [hnode] at hfile
  have hne : t.place ≠ [] := by
    intro hroot
    rw [hroot] at hfile
    cases hfile
  have hwrite : d.allows t.place .write = true := by
    rw [hplace]
    exact h.write
  have hnew := node?_putNode_self (d := d) (.file (log ++ more) m) hne
  refine ⟨d.putNode t.place (.file (log ++ more) m), ?_, ?_, ?_, ?_⟩
  · rw [appendMaking, Change.run_bind, run_makeDirs h.directory]
    dsimp only
    rw [append, run_openFile, hfind]
    simp only [hslashed, Bool.false_eq_true, if_false, hnode, hwrite, if_true]
  · obtain ⟨u, k, hdirectory, hu⟩ := isDirectory_iff.mp h.directory
    refine isDirectory_iff.mpr ⟨_, k, find_putNode_file hfile.symm hdirectory, ?_⟩
    have hnode := (find_place hdirectory).2.symm.trans hu
    rw [node?_putNode_of_ne _ ?_, hnode]
    intro heq
    rw [heq, ← hfile] at hnode
    cases hnode
  · have hstat : (d.putNode t.place (.file (log ++ more) m)).stat path = .ok (.file (log ++ more) m) := by
      rw [stat, find_putNode_file hfile.symm hfind, hnew, hslashed]
      rfl
    rw [Disk.read, hstat]
    have hread : (Node.file (log ++ more) m).allows .read = true := hallows
    simp only [hread, Bool.not_true, Bool.false_eq_true, if_false]
  · rw [show (d.putNode t.place (.file (log ++ more) m)).workingDirectory = d.workingDirectory from rfl,
      ← hplace, allows, hnew]
    rw [allows, ← hfile] at hwrite
    exact hwrite

end Disk

/-! ## §5 The values after an entry -/

namespace Metric

variable {d : Disk} {path time : Text} {entry : List (Value × Value)} {log : Bytes} {t : Text}
  {vs : List Value} {v : Value}

/-- An entry can be added to a log that is there. It is read after those read
before just if the log was ended; of a log that was not, no more is read than
what its last line did not hold. -/
theorem append_read_iff (hlog : d.OpenLog path log) (hutf8 : Utf8.decodeStrict log = .ok t)
    (hvalues : values log = .ok vs) (hline : lineValue? (line time entry) = some v) :
    ∃ d' log', (Disk.appendMaking path (Utf8.encode (line time entry))).run.run d = (.ok (), d') ∧
      d'.OpenLog path log' ∧ (values log' = .ok (vs ++ [v]) ↔ Ended t) ∧
      (¬ Ended t → ∀ ws, values log' = .ok ws →
        ws ++ (lineValue? (lastLine (universal t))).toList = vs) := by
  obtain ⟨d', hrun, hlog'⟩ := hlog.run_appendMaking (Utf8.encode (line time entry))
  obtain ⟨hended, hnotEnded⟩ := values_append hutf8 hvalues hline
  refine ⟨d', _, hrun, hlog', ⟨fun hread => ?_, hended⟩, hnotEnded⟩
  by_contra hnot
  have hlength := congrArg List.length (hnotEnded hnot _ hread)
  simp only [List.length_append, List.length_singleton] at hlength
  omega

/-- Fields that are read back, under keys that differ, are read as they were
logged, after the time and with halves of pairs joined. -/
theorem lineValue?_line {fields : List (Text × Value)}
    (hkeys : (Text.ofString "timestamp" :: fields.map Prod.fst).Nodup)
    (hplain : ∀ f ∈ fields, Json.joined f.1 = f.1) (h : ∀ f ∈ fields, Json.Loggable f.2) :
    lineValue? (line time (Json.keyed fields)) = some (.mapping (Json.keyed
      (((Text.ofString "timestamp", .text time) :: fields).map Json.rereadField))) := by
  have hput := Json.foldl_put_keyed (show (([(Text.ofString "timestamp", Value.text time)] ++
    fields).map Prod.fst).Nodup from hkeys)
  have hwritten : line time (Json.keyed fields) = Json.write
      (.mapping (Json.keyed ((Text.ofString "timestamp", .text time) :: fields))) ++ [lf] :=
    congrArg (fun es => Json.write (.mapping es) ++ [lf]) hput
  obtain ⟨z, hz, -, hlast⟩ := exists_line time (Json.keyed fields)
  have hobject := List.append_cancel_right (hwritten.symm.trans hz)
  have hread := Json.read_write (List.cons_ne_nil _ _)
    (show (((Text.ofString "timestamp", Value.text time) :: fields).map Prod.fst).Nodup from hkeys)
    (List.forall_mem_cons.mpr ⟨Json.joined_ofString _, hplain⟩)
    (List.forall_mem_cons.mpr ⟨.text time, h⟩)
  rw [hz, lineValue?_object hlast, ← hobject, hread]
  rfl

/-- A log that is ended and holds these values. -/
def ReadsAs (log : Bytes) (vs : List Value) : Prop :=
  ∃ t, Utf8.decodeStrict log = .ok t ∧ Ended t ∧ values log = .ok vs

/-- Adds entries to a log, each with its time. -/
def appendAll (path : Text) : List (Text × List (Value × Value)) → Disk.Change Unit
  | [] => pure ()
  | (time, entry) :: entries => do
    Disk.appendMaking path (Utf8.encode (line time entry))
    appendAll path entries

theorem append_reads (hlog : d.OpenLog path log) (hreads : ReadsAs log vs)
    (hline : lineValue? (line time entry) = some v) : ∃ d' log',
      (Disk.appendMaking path (Utf8.encode (line time entry))).run.run d = (.ok (), d') ∧
        d'.OpenLog path log' ∧ ReadsAs log' (vs ++ [v]) := by
  obtain ⟨t, hutf8, hended, hvalues⟩ := hreads
  obtain ⟨d', hrun, hlog'⟩ := hlog.run_appendMaking (Utf8.encode (line time entry))
  exact ⟨d', _, hrun, hlog', _, decodeStrict_append_line hutf8 time entry,
    ended_append_line t time entry, (values_append hutf8 hvalues hline).1 hended⟩

/-- Of a log that was ended once every entry is read that is added to it. -/
theorem appendAll_read {entries : List (Text × List (Value × Value))} {ws : List Value}
    (hlog : d.OpenLog path log) (hreads : ReadsAs log vs)
    (hlines : List.Forall₂ (fun e v => lineValue? (line e.1 e.2) = some v) entries ws) :
    ∃ d' log', (appendAll path entries).run.run d = (.ok (), d') ∧ d'.OpenLog path log' ∧
      ReadsAs log' (vs ++ ws) := by
  -- After each entry the log is ended again, which is what the next one needs.
  induction hlines generalizing d log vs with
  | nil => exact ⟨d, log, rfl, hlog, by rwa [List.append_nil]⟩
  | @cons e v entries ws hline _ ih =>
    obtain ⟨d₁, log₁, hrun, hlog₁, hreads₁⟩ := append_reads hlog hreads hline
    obtain ⟨d₂, log₂, hrest, hlog₂, hreads₂⟩ := ih hlog₁ hreads₁
    refine ⟨d₂, log₂, ?_, hlog₂, by rwa [List.append_assoc] at hreads₂⟩
    rw [appendAll, Disk.Change.run_bind, hrun]
    exact hrest

/-- A disk with a log at its root. -/
def logDisk (log : Bytes) : Disk := { nodes := [([Text.ofString "log"], .file log fileMode)] }

/-- A success is read after another one that was logged before it. -/
theorem success_read_after_success : ∃ d' log', (Disk.appendMaking "/log" (Utf8.encode
      (line "T" (Json.keyed [(Text.ofString "success", .bool true)])))).run.run
        (logDisk (successLog [true])) = (.ok (), d') ∧ d'.OpenLog "/log" log' ∧
      values log' = .ok [.mapping (Json.keyed [(Text.ofString "success", .bool true)]),
        .mapping (Json.keyed [(Text.ofString "timestamp", .text "T"),
          (Text.ofString "success", .bool true)])] := by
  have hlog : (logDisk (successLog [true])).OpenLog "/log" (successLog [true]) :=
    ⟨by decide +kernel, rfl, by decide +kernel⟩
  have hutf8 : Utf8.decodeStrict (successLog [true]) = .ok "\x7b\"success\": true\x7d\n" := by
    decide +kernel
  have hline : lineValue? (line "T" (Json.keyed [(Text.ofString "success", .bool true)])) = _ :=
    lineValue?_line (by decide +kernel) (List.forall_mem_singleton.mpr (Json.joined_ofString _))
      (List.forall_mem_singleton.mpr (.bool true))
  obtain ⟨d', log', hrun, hlog', hread, -⟩ :=
    append_read_iff hlog hutf8 (values_successLog [true]) hline
  exact ⟨d', log', hrun, hlog', hread.mpr (by decide +kernel)⟩

/-- Neither of two successes is read if the line of the first was not ended. -/
theorem success_lost_after_unended_line :
    let log := Utf8.encode "\x7b\"success\": true\x7d"
    (values log).toOption.map List.length = some 1 ∧
      (lineValue? (line "T" (Json.keyed [(Text.ofString "success", .bool true)]))).isSome ∧
      (((Disk.appendMaking "/log" (Utf8.encode
        (line "T" (Json.keyed [(Text.ofString "success", .bool true)])))).run.run
          (logDisk log)).2.read "/log").toOption.map (fun log => (values log).toOption.map List.length) =
        some (some 0) := by
  decide +kernel

end Metric

end Amend
