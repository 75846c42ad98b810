/-
Amend.Proofs.Grammar — the requests that can be read, and what they are read
as.

A request is lines of prose and blocks, one after the other; a block is a
SEARCH line, its heading, the lines to find, a separator, the lines to put
there and a REPLACE line (`Passage`, `Part`). Reading finds just these parts
(`blocksFrom_eq_ok_iff`). They are the only ones the lines can be cut into
(`partLines_injective`), for a block is known by its lines as soon as they
are read. Where no block can be cut off at a SEARCH line the request is
refused, and the flaw of the first such block is told
(`blocksFrom_eq_error_iff`).

  §1 Lines up to a marker.
  §2 Headings          — the hint line and the divider.
  §3 Blocks            — their lines, and what can be wrong with them.
  §4 Parts of requests.
  §5 Requests.
-/
import Mathlib.Data.List.Infix
import Amend.Refusal
import Amend.Proofs.Locating

namespace Amend

open Text

/-! ## §1 Lines up to a marker -/

section Cutting

variable {m : Marker} {ls a b : List Text}

theorem cutAt_append (ha : ∀ l ∈ a, m.on l = false) {x : Text} (hx : m.on x = true) :
    cutAt m (a ++ x :: b) = some (a, b) := by
  induction a with
  | nil => simp [cutAt, hx]
  | cons l a ih =>
    obtain ⟨hl, hrest⟩ := List.forall_mem_cons.mp ha
    simp [cutAt, hl, ih hrest]

theorem cutAt_eq_none_iff : cutAt m ls = none ↔ ∀ l ∈ ls, m.on l = false := by
  induction ls with
  | nil => simp [cutAt]
  | cons l ls ih =>
    rw [cutAt, List.forall_mem_cons]
    split
    · rename_i hl
      simp [hl]
    · rename_i hl
      simp [hl, ih]

theorem cutAt_eq_some_iff : cutAt m ls = some (a, b) ↔
    ∃ x, ls = a ++ x :: b ∧ m.on x = true ∧ ∀ l ∈ a, m.on l = false := by
  constructor
  · intro h
    induction ls generalizing a with
    | nil => cases h
    | cons l ls ih =>
      rw [cutAt] at h
      split at h
      · rename_i hl
        cases h
        exact ⟨l, rfl, hl, List.forall_mem_nil _⟩
      · rename_i hl
        obtain ⟨⟨a', b'⟩, hcut, heq⟩ := Option.map_eq_some_iff.mp h
        obtain ⟨rfl, rfl⟩ := Prod.mk.inj heq
        obtain ⟨x, rfl, hx, ha⟩ := ih hcut
        exact ⟨x, rfl, hx, List.forall_mem_cons.mpr ⟨Bool.eq_false_iff.mpr hl, ha⟩⟩
  · rintro ⟨x, rfl, hx, ha⟩
    exact cutAt_append ha hx

/-- Lines are cut at their first marker in one way only. -/
theorem cut_unique {x x' : Text} {a' b' : List Text} (ha : ∀ l ∈ a, m.on l = false)
    (hx : m.on x = true) (ha' : ∀ l ∈ a', m.on l = false) (hx' : m.on x' = true)
    (h : a ++ x :: b = a' ++ x' :: b') : a = a' ∧ x = x' ∧ b = b' := by
  have hcut := cutAt_append (b := b) ha hx
  rw [h, cutAt_append ha' hx', Option.some.injEq, Prod.mk.injEq] at hcut
  obtain ⟨rfl, rfl⟩ := hcut
  exact ⟨rfl, (List.cons.inj (List.append_cancel_left h)).1, rfl⟩

end Cutting

/-! ## §2 Headings -/

/-- A line of a kind stands before the rest, or is missing there: if the rest
began with such a line, it would have been taken. -/
structure Taken (kind : Text → Bool) (line : Option Text) (rest : List Text) : Prop where
  on : ∀ l, line = some l → kind l = true
  first : line = none → ∀ l, rest.head? = some l → kind l = false

namespace Taken

variable {kind : Text → Bool} {line line' : Option Text} {rest rest' : List Text}

theorem exists_taken (kind : Text → Bool) (ls : List Text) :
    ∃ line rest, ls = line.toList ++ rest ∧ Taken kind line rest := by
  cases ls with
  | nil => exact ⟨none, [], rfl, nofun, nofun⟩
  | cons l ls =>
    cases hl : kind l with
    | false =>
      refine ⟨none, l :: ls, rfl, nofun, fun _ k hk => ?_⟩
      obtain rfl := Option.some.inj hk
      exact hl
    | true =>
      refine ⟨some l, ls, rfl, fun k hk => ?_, nofun⟩
      obtain rfl := Option.some.inj hk
      exact hl

theorem unique (h : Taken kind line rest) (h' : Taken kind line' rest')
    (heq : line.toList ++ rest = line'.toList ++ rest') : line = line' ∧ rest = rest' := by
  cases line with
  | none =>
    cases line' with
    | none => exact ⟨rfl, heq⟩
    | some l' =>
      have hfirst := h.first rfl l' (by rw [show rest = l' :: rest' from heq]; rfl)
      rw [h'.on l' rfl] at hfirst
      cases hfirst
  | some l =>
    cases line' with
    | none =>
      have hfirst := h'.first rfl l (by rw [show rest' = l :: rest from heq.symm]; rfl)
      rw [h.on l rfl] at hfirst
      cases hfirst
    | some l' =>
      obtain ⟨rfl, rfl⟩ := List.cons.inj heq
      exact ⟨rfl, rfl⟩

/-- Of the rest only its first line matters. -/
theorem congr (h : Taken kind line rest) (hhead : rest.head? = rest'.head?) :
    Taken kind line rest' :=
  ⟨h.on, fun hnone l hl => h.first hnone l (hhead.trans hl)⟩

end Taken

/-- Whether a line is a hint line. -/
def isHint (line : Text) : Bool := (hintDigits? line).isSome

/-- The hint on a line, unless its number is zero. -/
def hintOn (line : Option Text) : Option Int :=
  (line.bind hintDigits?).bind fun ds =>
    if Decimal.ofDigits 0 ds = 0 then none else some (Decimal.ofDigits 0 ds)

/-- The lines between a SEARCH line and the lines to find, before `body`: a
hint line of a number that is not too long, and a divider. Each may be
missing. -/
structure Heading (hint divider : Option Text) (body : List Text) : Prop where
  hint_taken : Taken isHint hint (divider.toList ++ body)
  short : ∀ l ds, hint = some l → hintDigits? l = some ds → ds.length ≤ digitLimit
  divider_taken : Taken Marker.divider.on divider body

/-- The lines of a heading and of what it stands before. -/
def headed (hint divider : Option Text) (body : List Text) : List Text :=
  hint.toList ++ (divider.toList ++ body)

theorem takeHint_taken {hint : Option Text} {rest : List Text} (h : Taken isHint hint rest)
    (hshort : ∀ l ds, hint = some l → hintDigits? l = some ds → ds.length ≤ digitLimit) :
    takeHint (hint.toList ++ rest) = .ok (hintOn hint, rest) := by
  cases hint with
  | none =>
    cases rest with
    | nil => rfl
    | cons l rest =>
      have hnone : hintDigits? l = none := by simpa [isHint] using h.first rfl l rfl
      simp [takeHint, hnone, hintOn]
  | some l =>
    obtain ⟨ds, hds⟩ := Option.isSome_iff_exists.mp (h.on l rfl)
    have hle : ¬ digitLimit < ds.length := Nat.not_lt.mpr (hshort l ds rfl hds)
    simp [takeHint, hds, hle, hintOn]

theorem takeHint_long {l : Text} {ds : List Nat} (hds : hintDigits? l = some ds)
    (hlong : digitLimit < ds.length) (rest : List Text) :
    takeHint (l :: rest) = .error (.longHint ds.length) := by
  simp [takeHint, hds, hlong]

theorem dropDivider_taken {divider : Option Text} {body : List Text}
    (h : Taken Marker.divider.on divider body) : dropDivider (divider.toList ++ body) = body := by
  cases divider with
  | none =>
    cases body with
    | nil => rfl
    | cons l body =>
      have hl := h.first rfl l rfl
      simp [dropDivider, hl]
  | some l =>
    have hl := h.on l rfl
    simp [dropDivider, hl]

namespace Heading

variable {hint divider hint' divider' : Option Text} {body body' : List Text}

/-- The lines after a SEARCH line have a heading, unless they begin with a
hint line whose number is too long. -/
theorem exists_heading (rest : List Text) :
    (∃ hint divider body, rest = headed hint divider body ∧ Heading hint divider body) ∨
      ∃ l ls ds, rest = l :: ls ∧ hintDigits? l = some ds ∧ digitLimit < ds.length := by
  obtain ⟨hint, rest, rfl, hhint⟩ := Taken.exists_taken isHint rest
  obtain ⟨divider, body, rfl, hdivider⟩ := Taken.exists_taken Marker.divider.on rest
  by_cases hshort : ∀ l ds, hint = some l → hintDigits? l = some ds → ds.length ≤ digitLimit
  · exact .inl ⟨hint, divider, body, rfl, hhint, hshort, hdivider⟩
  · push Not at hshort
    obtain ⟨l, ds, rfl, hds, hlong⟩ := hshort
    exact .inr ⟨l, _, ds, rfl, hds, hlong⟩

theorem unique (h : Heading hint divider body) (h' : Heading hint' divider' body')
    (heq : headed hint divider body = headed hint' divider' body') :
    hint = hint' ∧ divider = divider' ∧ body = body' := by
  obtain ⟨rfl, hrest⟩ := h.hint_taken.unique h'.hint_taken heq
  obtain ⟨rfl, rfl⟩ := h.divider_taken.unique h'.divider_taken hrest
  exact ⟨rfl, rfl, rfl⟩

/-- Of the lines after a heading only the first matters. -/
theorem congr (h : Heading hint divider body) (hhead : body.head? = body'.head?) :
    Heading hint divider body' where
  hint_taken := h.hint_taken.congr (by cases divider <;> simp [hhead])
  short := h.short
  divider_taken := h.divider_taken.congr hhead

theorem takeHint_headed (h : Heading hint divider body) :
    takeHint (headed hint divider body) = .ok (hintOn hint, divider.toList ++ body) :=
  takeHint_taken h.hint_taken h.short

end Heading

/-! ## §3 Blocks -/

/-- The lines of a block as they stand in a request. -/
structure Passage where
  opening : Text
  hint : Option Text
  divider : Option Text
  search : List Text
  separator : Text
  replacement : List Text
  closing : Text
  opening_on : Marker.search.on opening = true
  heading : Heading hint divider (search ++ [separator])
  search_plain : ∀ l ∈ search, Marker.separator.on l = false
  search_ne_nil : unlines search ≠ []
  separator_on : Marker.separator.on separator = true
  replacement_plain : ∀ l ∈ replacement, Marker.replace.on l = false
  closing_on : Marker.replace.on closing = true

namespace Passage

/-- The lines after the SEARCH line, with others after the block. -/
def linesThen (p : Passage) (after : List Text) : List Text :=
  headed p.hint p.divider (p.search ++ p.separator :: (p.replacement ++ p.closing :: after))

/-- All lines of the block. -/
def lines (p : Passage) : List Text := p.opening :: p.linesThen []

theorem lines_append (p : Passage) (after : List Text) :
    p.lines ++ after = p.opening :: p.linesThen after := by
  simp [lines, linesThen, headed]

/-- What the block is read as. -/
def block (p : Passage) : Block where
  search := unlines p.search
  replacement := unlines p.replacement
  source := unlines p.lines
  hint := hintOn p.hint

theorem heading_then (p : Passage) (after : List Text) :
    Heading p.hint p.divider (p.search ++ p.separator :: (p.replacement ++ p.closing :: after)) :=
  p.heading.congr (by cases p.search <;> rfl)

/-- A block is known by its lines as soon as they are read. -/
theorem lines_append_inj {p q : Passage} {a b : List Text} (h : p.lines ++ a = q.lines ++ b) :
    p = q ∧ a = b := by
  rw [lines_append, lines_append] at h
  obtain ⟨hopening, hrest⟩ := List.cons.inj h
  obtain ⟨hhint, hdivider, hbody⟩ := (p.heading_then a).unique (q.heading_then b) hrest
  obtain ⟨hsearch, hseparator, htail⟩ :=
    cut_unique p.search_plain p.separator_on q.search_plain q.separator_on hbody
  obtain ⟨hreplacement, hclosing, hafter⟩ :=
    cut_unique p.replacement_plain p.closing_on q.replacement_plain q.closing_on htail
  refine ⟨?_, hafter⟩
  obtain ⟨⟩ := p
  obtain ⟨⟩ := q
  simp_all

end Passage

/-- What can be wrong with a block whose SEARCH line has this number, by the
lines after it. -/
inductive Flaw (number : Nat) : List Text → BlockError → Prop
  | longHint {l : Text} {ls : List Text} {ds : List Nat} (digits : hintDigits? l = some ds)
      (long : digitLimit < ds.length) : Flaw number (l :: ls) (.longHint ds.length)
  | noSeparator {hint divider : Option Text} {body : List Text}
      (heading : Heading hint divider body)
      (missing : ∀ l ∈ body, Marker.separator.on l = false) :
      Flaw number (headed hint divider body) (.noSeparator number)
  | noReplace {hint divider : Option Text} {search tail : List Text} {separator : Text}
      (heading : Heading hint divider (search ++ separator :: tail))
      (search_plain : ∀ l ∈ search, Marker.separator.on l = false)
      (separator_on : Marker.separator.on separator = true)
      (missing : ∀ l ∈ tail, Marker.replace.on l = false) :
      Flaw number (headed hint divider (search ++ separator :: tail)) (.noReplace number)
  | emptySearch {hint divider : Option Text} {search replacement after : List Text}
      {separator closing : Text}
      (heading : Heading hint divider (search ++ separator :: (replacement ++ closing :: after)))
      (search_plain : ∀ l ∈ search, Marker.separator.on l = false)
      (search_nil : unlines search = [])
      (separator_on : Marker.separator.on separator = true)
      (replacement_plain : ∀ l ∈ replacement, Marker.replace.on l = false)
      (closing_on : Marker.replace.on closing = true) :
      Flaw number
        (headed hint divider (search ++ separator :: (replacement ++ closing :: after)))
        (.emptySearch number)

/-- After a SEARCH line a block can be cut off, or there is something wrong. -/
theorem exists_passage_or_flaw {opening : Text} (hopening : Marker.search.on opening = true)
    (rest : List Text) :
    (∃ (p : Passage) (after : List Text), opening :: rest = p.lines ++ after) ∨
      ∀ number, ∃ e, Flaw number rest e := by
  obtain ⟨hint, divider, body, rfl, hheading⟩ | ⟨l, ls, ds, rfl, hds, hlong⟩ :=
    Heading.exists_heading rest
  · cases hcut : cutAt .separator body with
    | none => exact .inr fun _ => ⟨_, .noSeparator hheading (cutAt_eq_none_iff.mp hcut)⟩
    | some parts =>
      obtain ⟨search, tail⟩ := parts
      obtain ⟨separator, rfl, hseparator, hsearch⟩ := cutAt_eq_some_iff.mp hcut
      cases hcut' : cutAt .replace tail with
      | none =>
        exact .inr fun _ =>
          ⟨_, .noReplace hheading hsearch hseparator (cutAt_eq_none_iff.mp hcut')⟩
      | some parts =>
        obtain ⟨replacement, after⟩ := parts
        obtain ⟨closing, rfl, hclosing, hreplacement⟩ := cutAt_eq_some_iff.mp hcut'
        by_cases hnil : unlines search = []
        · exact .inr fun _ =>
            ⟨_, .emptySearch hheading hsearch hnil hseparator hreplacement hclosing⟩
        · have hshort : Heading hint divider (search ++ [separator]) :=
            hheading.congr (by cases search <;> rfl)
          let p : Passage := ⟨opening, hint, divider, search, separator, replacement, closing,
            hopening, hshort, hsearch, hnil, hseparator, hreplacement, hclosing⟩
          exact .inl ⟨p, after, (p.lines_append after).symm⟩
  · exact .inr fun _ => ⟨_, .longHint hds hlong⟩

namespace Block

variable {number : Nat} {first : Text} {rest : List Text}

/-- What reading a block comes to: the block and the lines after it. -/
def readThen (number : Nat) (first : Text) (rest : List Text) :
    Except BlockError (Block × List Text) :=
  (Block.read number first rest).map fun r => (r.1, r.2.val)

theorem readThen_of_error {e : BlockError} (hhint : takeHint rest = .error e) :
    readThen number first rest = .error e := by
  unfold readThen Block.read
  split
  · rename_i hh
    cases hhint.symm.trans hh
    rfl
  · rename_i hh
    cases hhint.symm.trans hh

/-- Once the hint is read, two cuts are all that matters. -/
theorem readThen_of_hint {body : List Text} {hint : Option Int}
    (hhint : takeHint rest = .ok (hint, body)) :
    readThen number first rest =
      match cutAt .separator (dropDivider body) with
      | none => .error (.noSeparator number)
      | some (search, tail) =>
        match cutAt .replace tail with
        | none => .error (.noReplace number)
        | some (replacement, after) =>
          if unlines search = [] then .error (.emptySearch number)
          else .ok (⟨unlines search, unlines replacement,
            unlines (first :: rest.take (rest.length - after.length)), hint⟩, after) := by
  unfold readThen Block.read
  split
  · rename_i hh
    cases hhint.symm.trans hh
  · rename_i hh
    cases hhint.symm.trans hh
    split
    · rename_i hs
      simp [hs, Except.map]
    · rename_i hs
      split
      · rename_i hr
        simp [hs, hr, Except.map]
      · rename_i hr
        split
        · rename_i hnil
          simp [hs, hr, hnil, Except.map]
        · rename_i hne
          simp [hs, hr, hne, Except.map]

/-- Reading a block reads its lines and leaves those after it. -/
theorem readThen_lines (p : Passage) (after : List Text) :
    readThen number p.opening (p.linesThen after) = .ok (p.block, after) := by
  have hhint : takeHint (p.linesThen after) = _ := (p.heading_then after).takeHint_headed
  have hsource : p.opening ::
      (p.linesThen after).take ((p.linesThen after).length - after.length) = p.lines := by
    have hlines : p.linesThen after = p.linesThen [] ++ after :=
      (List.cons.inj (p.lines_append after)).2.symm
    rw [hlines, List.length_append, Nat.add_sub_cancel, List.take_left, Passage.lines]
  rw [readThen_of_hint hhint, dropDivider_taken (p.heading_then after).divider_taken,
    cutAt_append p.search_plain p.separator_on]
  dsimp only
  rw [cutAt_append p.replacement_plain p.closing_on]
  dsimp only
  rw [if_neg p.search_ne_nil, hsource]
  rfl

/-- What is wrong with a block is told. -/
theorem readThen_flaw {e : BlockError} (h : Flaw number rest e) :
    readThen number first rest = .error e := by
  cases h with
  | longHint digits long => exact readThen_of_error (takeHint_long digits long _)
  | noSeparator heading missing =>
    rw [readThen_of_hint heading.takeHint_headed, dropDivider_taken heading.divider_taken,
      cutAt_eq_none_iff.mpr missing]
  | noReplace heading search_plain separator_on missing =>
    rw [readThen_of_hint heading.takeHint_headed, dropDivider_taken heading.divider_taken,
      cutAt_append search_plain separator_on]
    dsimp only
    rw [cutAt_eq_none_iff.mpr missing]
  | emptySearch heading search_plain search_nil separator_on replacement_plain closing_on =>
    rw [readThen_of_hint heading.takeHint_headed, dropDivider_taken heading.divider_taken,
      cutAt_append search_plain separator_on]
    dsimp only
    rw [cutAt_append replacement_plain closing_on]
    dsimp only
    rw [if_pos search_nil]

end Block

/-! ## §4 Parts of requests -/

/-- A part of a request: a line of prose, or a block. -/
inductive Part where
  | prose (line : Text) (plain : Marker.search.on line = false)
  | block (p : Passage)

namespace Part

/-- The lines of a part. -/
def lines : Part → List Text
  | prose line _ => [line]
  | block p => p.lines

/-- The block a part is read as, if it is one. -/
def block? : Part → Option Block
  | prose .. => none
  | block p => some p.block

/-- A part as it is written. -/
def source (x : Part) : Text := unlines x.lines

theorem lines_ne_nil (x : Part) : x.lines ≠ [] := by
  cases x <;> simp [lines, Passage.lines]

end Part

/-- The lines of the parts, one after the other. -/
def partLines (ps : List Part) : List Text := ps.flatMap Part.lines

/-- The blocks among the parts, as they are read. -/
def partBlocks (ps : List Part) : List Block := ps.filterMap Part.block?

@[simp] theorem partLines_cons (x : Part) (ps : List Part) :
    partLines (x :: ps) = x.lines ++ partLines ps := List.flatMap_cons

theorem blocksFrom_prose {number : Nat} {l : Text} (hl : Marker.search.on l = false)
    (rest : List Text) : blocksFrom number (l :: rest) = blocksFrom (number + 1) rest := by
  rw [blocksFrom]
  simp [hl]

theorem blocksFrom_cons {number : Nat} {l : Text} (hl : Marker.search.on l = true)
    (rest : List Text) : blocksFrom number (l :: rest) =
      match Block.readThen number l rest with
      | .error e => .error e
      | .ok (b, after) =>
        (blocksFrom (number + 1 + (rest.length - after.length)) after).map (b :: ·) := by
  rw [blocksFrom]
  simp only [hl, if_true, Block.readThen]
  cases Block.read number l rest with
  | error e => rfl
  | ok r => rfl

theorem blocksFrom_lines (number : Nat) (p : Passage) (after : List Text) :
    blocksFrom number (p.lines ++ after) =
      (blocksFrom (number + p.lines.length) after).map (p.block :: ·) := by
  have hlength : number + 1 + ((p.linesThen after).length - after.length) =
      number + p.lines.length := by
    have h := congrArg List.length (p.lines_append after)
    simp only [List.length_append, List.length_cons] at h
    have hlines : p.lines.length = (p.linesThen []).length + 1 := by simp [Passage.lines]
    omega
  rw [p.lines_append, blocksFrom_cons p.opening_on, Block.readThen_lines]
  dsimp only
  rw [hlength]

theorem blocksFrom_flaw {number : Nat} {opening : Text} {rest : List Text} {e : BlockError}
    (hopening : Marker.search.on opening = true) (h : Flaw number rest e) :
    blocksFrom number (opening :: rest) = .error e := by
  rw [blocksFrom_cons hopening, Block.readThen_flaw h]

/-- The parts at the start are read, and then what comes after them. -/
theorem blocksFrom_parts (ps : List Part) (ls : List Text) : ∀ number : Nat,
    blocksFrom number (partLines ps ++ ls) =
      (blocksFrom (number + (partLines ps).length) ls).map (partBlocks ps ++ ·) := by
  induction ps with
  | nil =>
    intro number
    change blocksFrom number ls = (blocksFrom number ls).map ([] ++ ·)
    cases blocksFrom number ls <;> rfl
  | cons x ps ih =>
    intro number
    cases x with
    | prose line plain =>
      have hlength : number + 1 + (partLines ps).length =
          number + (partLines (.prose line plain :: ps)).length := by
        simp [Part.lines]
        omega
      rw [partLines_cons, Part.lines, List.append_assoc, List.singleton_append,
        blocksFrom_prose plain, ih, hlength]
      rfl
    | block p =>
      have hlength : number + p.lines.length + (partLines ps).length =
          number + (p.lines ++ partLines ps).length := by
        rw [List.length_append, Nat.add_assoc]
      rw [partLines_cons, Part.lines, List.append_assoc, blocksFrom_lines, ih, hlength]
      cases blocksFrom (number + (p.lines ++ partLines ps).length) ls <;> rfl

/-- No part can be cut off the lines: there are none, or the first of them is
a SEARCH line after which something is wrong. -/
inductive Stuck : List Text → Prop
  | nil : Stuck []
  | flaw {opening : Text} {rest : List Text} (opening_on : Marker.search.on opening = true)
      (flawed : ∀ number, ∃ e, Flaw number rest e) : Stuck (opening :: rest)

/-- Parts can be cut off lines until nothing is left or something is wrong. -/
theorem exists_parts (ls : List Text) : ∃ ps tail, ls = partLines ps ++ tail ∧ Stuck tail := by
  cases ls with
  | nil => exact ⟨[], [], rfl, .nil⟩
  | cons l rest =>
    cases hl : Marker.search.on l with
    | false =>
      obtain ⟨ps, tail, rfl, htail⟩ := exists_parts rest
      exact ⟨.prose l hl :: ps, tail, rfl, htail⟩
    | true =>
      obtain ⟨p, after, hlines⟩ | hflaw := exists_passage_or_flaw hl rest
      · have hshorter : after.length ≤ rest.length := by
          have hlength := congrArg List.length hlines
          rw [List.length_append, Passage.lines, List.length_cons, List.length_cons] at hlength
          omega
        obtain ⟨ps, tail, rfl, htail⟩ := exists_parts after
        exact ⟨.block p :: ps, tail, by rw [hlines, partLines_cons, List.append_assoc]; rfl, htail⟩
      · exact ⟨[], l :: rest, rfl, .flaw hl hflaw⟩
termination_by ls.length
decreasing_by
  · exact Nat.lt_succ_self _
  · exact Nat.lt_succ_of_le hshorter

theorem blocksFrom_partLines (number : Nat) (ps : List Part) :
    blocksFrom number (partLines ps) = .ok (partBlocks ps) := by
  have h := blocksFrom_parts ps [] number
  rwa [List.append_nil, blocksFrom, Except.map, List.append_nil] at h

theorem blocksFrom_partLines_flaw {number : Nat} {ps : List Part} {opening : Text}
    {rest : List Text} {e : BlockError} (hopening : Marker.search.on opening = true)
    (hflaw : Flaw (number + (partLines ps).length) rest e) :
    blocksFrom number (partLines ps ++ opening :: rest) = .error e := by
  rw [blocksFrom_parts, blocksFrom_flaw hopening hflaw]
  rfl

/-- Lines that are cut into parts are read as the blocks among these. -/
theorem blocksFrom_eq_ok_iff {number : Nat} {ls : List Text} {bs : List Block} :
    blocksFrom number ls = .ok bs ↔ ∃ ps, partLines ps = ls ∧ bs = partBlocks ps := by
  constructor
  · intro h
    obtain ⟨ps, tail, rfl, htail⟩ := exists_parts ls
    cases htail with
    | nil =>
      rw [List.append_nil, blocksFrom_partLines, Except.ok.injEq] at h
      exact ⟨ps, (List.append_nil _).symm, h.symm⟩
    | flaw hopening hflawed =>
      obtain ⟨e, hflaw⟩ := hflawed (number + (partLines ps).length)
      cases h.symm.trans (blocksFrom_partLines_flaw hopening hflaw)
  · rintro ⟨ps, rfl, rfl⟩
    exact blocksFrom_partLines number ps

/-- Other lines are refused, for what is wrong after the parts at their
start. -/
theorem blocksFrom_eq_error_iff {number : Nat} {ls : List Text} {e : BlockError} :
    blocksFrom number ls = .error e ↔ ∃ ps opening rest, ls = partLines ps ++ opening :: rest ∧
      Marker.search.on opening = true ∧ Flaw (number + (partLines ps).length) rest e := by
  constructor
  · intro h
    obtain ⟨ps, tail, rfl, htail⟩ := exists_parts ls
    cases htail with
    | nil =>
      rw [List.append_nil, blocksFrom_partLines] at h
      cases h
    | @flaw opening rest hopening hflawed =>
      obtain ⟨e', hflaw⟩ := hflawed (number + (partLines ps).length)
      cases h.symm.trans (blocksFrom_partLines_flaw hopening hflaw)
      exact ⟨ps, opening, rest, rfl, hopening, hflaw⟩
  · rintro ⟨ps, opening, rest, rfl, hopening, hflaw⟩
    exact blocksFrom_partLines_flaw hopening hflaw

/-- Lines are cut into parts in one way only. -/
theorem partLines_injective {ps qs : List Part} (h : partLines ps = partLines qs) : ps = qs := by
  induction ps generalizing qs with
  | nil =>
    cases qs with
    | nil => rfl
    | cons y qs => exact absurd (List.append_eq_nil_iff.mp h.symm).1 y.lines_ne_nil
  | cons x ps ih =>
    cases qs with
    | nil => exact absurd (List.append_eq_nil_iff.mp h).1 x.lines_ne_nil
    | cons y qs =>
      rw [partLines_cons, partLines_cons] at h
      cases x with
      | prose line plain =>
        cases y with
        | prose line' plain' =>
          obtain ⟨rfl, hrest⟩ := List.cons.inj h
          rw [ih hrest]
        | block q =>
          obtain ⟨rfl, -⟩ := List.cons.inj h
          cases plain.symm.trans q.opening_on
      | block p =>
        cases y with
        | prose line' plain' =>
          obtain ⟨rfl, -⟩ := List.cons.inj h
          cases plain'.symm.trans p.opening_on
        | block q =>
          obtain ⟨rfl, hrest⟩ := Passage.lines_append_inj h
          rw [ih hrest]

theorem Text.unlines_append_cons {ls : List Text} (hls : ls ≠ []) (m : Text) (ms : List Text) :
    unlines (ls ++ m :: ms) = unlines ls ++ lf :: unlines (m :: ms) := by
  induction ls with
  | nil => exact absurd rfl hls
  | cons l ls ih =>
    cases ls with
    | nil => rw [List.singleton_append, unlines_cons_cons, unlines_singleton]
    | cons k ks =>
      rw [List.cons_append, List.cons_append, unlines_cons_cons, unlines_cons_cons,
        ← List.cons_append, ih (List.cons_ne_nil k ks), List.append_assoc, List.cons_append]

/-- The parts as they are written are all the lines. -/
theorem unlines_source (ps : List Part) :
    unlines (ps.map Part.source) = unlines (partLines ps) := by
  induction ps with
  | nil => rfl
  | cons x ps ih =>
    cases ps with
    | nil => simp [partLines, Part.source, unlines_singleton]
    | cons y ps =>
      obtain ⟨l, ls, hl⟩ := List.exists_cons_of_ne_nil
        (List.append_ne_nil_of_left_ne_nil y.lines_ne_nil (partLines ps))
      rw [List.map_cons, List.map_cons, unlines_cons_cons, ← List.map_cons, ih, partLines_cons x,
        partLines_cons y, hl, unlines_append_cons x.lines_ne_nil]
      rfl

/-! ## §5 Requests -/

/-- The SEARCH line that an error names. -/
def BlockError.line? : BlockError → Option Nat
  | noSeparator line => some line
  | noReplace line => some line
  | emptySearch line => some line
  | noBlocks => none
  | longHint _ => none

namespace Flaw

variable {number : Nat} {rest : List Text} {e : BlockError}

/-- Where something is wrong no block can be cut off. -/
theorem not_lines_prefix (h : Flaw number rest e) (opening : Text) (p : Passage) :
    ¬ p.lines <+: opening :: rest := by
  rintro ⟨after, hlines⟩
  rw [p.lines_append] at hlines
  obtain ⟨rfl, rfl⟩ := List.cons.inj hlines
  cases (Block.readThen_lines p after).symm.trans (Block.readThen_flaw h)

/-- What is wrong is told with the number of the SEARCH line, unless it is
the length of the hint. -/
theorem line_or_longHint (h : Flaw number rest e) : e.line? = some number ∨
    ∃ l ds, rest.head? = some l ∧ hintDigits? l = some ds ∧ digitLimit < ds.length ∧
      e = .longHint ds.length := by
  cases h with
  | longHint digits long => exact .inr ⟨_, _, rfl, digits, long, rfl⟩
  | noSeparator _ _ => exact .inl rfl
  | noReplace _ _ _ _ => exact .inl rfl
  | emptySearch _ _ _ _ _ _ => exact .inl rfl

theorem ne_noBlocks (h : Flaw number rest e) : e ≠ .noBlocks := by
  rintro rfl
  cases h

end Flaw

theorem partBlocks_eq_nil_iff {ps : List Part} :
    partBlocks ps = [] ↔ ∀ l ∈ partLines ps, Marker.search.on l = false := by
  induction ps with
  | nil => simp [partBlocks, partLines]
  | cons x ps ih =>
    rw [partLines_cons, List.forall_mem_append, ← ih]
    cases x with
    | prose line plain => simp [Part.lines, plain, partBlocks, Part.block?]
    | block p => simp [Part.lines, Passage.lines, p.opening_on, partBlocks, Part.block?]

theorem readBlocks_eq_ok_iff {request : Text} {bs : List Block} :
    readBlocks request = .ok bs ↔
      bs ≠ [] ∧ blocksFrom 1 (lines (LineEnding.normalize request)) = .ok bs := by
  rw [readBlocks]
  cases blocksFrom 1 (lines (LineEnding.normalize request)) with
  | error e => simp
  | ok bs' => cases bs' <;> simp +contextual [eq_comm]

theorem readBlocks_eq_error_iff {request : Text} {e : BlockError} :
    readBlocks request = .error e ↔
      blocksFrom 1 (lines (LineEnding.normalize request)) = .error e ∨
        e = .noBlocks ∧ blocksFrom 1 (lines (LineEnding.normalize request)) = .ok [] := by
  rw [readBlocks]
  cases blocksFrom 1 (lines (LineEnding.normalize request)) with
  | error e => simp
  | ok bs' => cases bs' <;> simp [eq_comm]

/-- There is nothing to read exactly if no line is a SEARCH line. -/
theorem readBlocks_eq_noBlocks_iff {request : Text} :
    readBlocks request = .error .noBlocks ↔
      ∀ l ∈ lines (LineEnding.normalize request), Marker.search.on l = false := by
  rw [readBlocks_eq_error_iff]
  constructor
  · rintro (herror | ⟨-, hnone⟩)
    · obtain ⟨ps, opening, rest, -, -, hflaw⟩ := blocksFrom_eq_error_iff.mp herror
      exact absurd rfl hflaw.ne_noBlocks
    · obtain ⟨ps, hps, hnil⟩ := blocksFrom_eq_ok_iff.mp hnone
      rw [← hps]
      exact partBlocks_eq_nil_iff.mp hnil.symm
  · intro hplain
    obtain ⟨ps, tail, hlines, htail⟩ := exists_parts (lines (LineEnding.normalize request))
    cases htail with
    | nil =>
      rw [List.append_nil] at hlines
      rw [hlines] at hplain ⊢
      exact .inr ⟨rfl, by rw [blocksFrom_partLines, partBlocks_eq_nil_iff.mpr hplain]⟩
    | @flaw opening rest hopening _ =>
      have hoff := hplain opening (by simp [hlines])
      cases hopening.symm.trans hoff

/-- Any other error is what is wrong after parts that are as they should be. -/
theorem readBlocks_eq_flaw_iff {request : Text} {e : BlockError} (hne : e ≠ .noBlocks) :
    readBlocks request = .error e ↔ ∃ ps opening rest,
      lines (LineEnding.normalize request) = partLines ps ++ opening :: rest ∧
        Marker.search.on opening = true ∧ Flaw ((partLines ps).length + 1) rest e := by
  rw [readBlocks_eq_error_iff, blocksFrom_eq_error_iff]
  constructor
  · rintro (⟨ps, opening, rest, hlines, hopening, hflaw⟩ | ⟨he, -⟩)
    · rw [Nat.add_comm] at hflaw
      exact ⟨ps, opening, rest, hlines, hopening, hflaw⟩
    · exact absurd he hne
  · rintro ⟨ps, opening, rest, hlines, hopening, hflaw⟩
    rw [Nat.add_comm] at hflaw
    exact .inl ⟨ps, opening, rest, hlines, hopening, hflaw⟩

/-- A request is read exactly if its lines can be cut into parts, one of them
a block at least: it is read as these blocks, in order. The lines can be cut
in one way only, and the parts as they are written, one a line, are the
request. A request that cannot be read has no SEARCH line, or it has one that
no block begins with, after parts that are as they should be; what is wrong
there is told with the number of that line, counted from one, or the hint
after it is of too many digits. -/
theorem readBlocks_reads_parts (request : Text) :
    (∀ bs, readBlocks request = .ok bs ↔ bs ≠ [] ∧
      ∃ ps, partLines ps = lines (LineEnding.normalize request) ∧ bs = partBlocks ps) ∧
    (∀ ps qs, partLines ps = lines (LineEnding.normalize request) →
      partLines qs = lines (LineEnding.normalize request) → ps = qs) ∧
    (∀ ps, partLines ps = lines (LineEnding.normalize request) →
      unlines (ps.map Part.source) = LineEnding.normalize request) ∧
    (readBlocks request = .error .noBlocks ↔
      ∀ l ∈ lines (LineEnding.normalize request), Marker.search.on l = false) ∧
    ∀ e, e ≠ .noBlocks → (readBlocks request = .error e ↔ ∃ ps opening rest,
      lines (LineEnding.normalize request) = partLines ps ++ opening :: rest ∧
      Marker.search.on opening = true ∧ (∀ p : Passage, ¬ p.lines <+: opening :: rest) ∧
      Flaw ((partLines ps).length + 1) rest e ∧
      (e.line? = some ((partLines ps).length + 1) ∨
        ∃ l ds, rest.head? = some l ∧ hintDigits? l = some ds ∧ digitLimit < ds.length ∧
          e = .longHint ds.length)) := by
  refine ⟨fun bs => ?_, ?_, ?_, readBlocks_eq_noBlocks_iff, ?_⟩
  · rw [readBlocks_eq_ok_iff, blocksFrom_eq_ok_iff]
  · intro ps qs hps hqs
    exact partLines_injective (hps.trans hqs.symm)
  · intro ps hps
    rw [unlines_source, hps, unlines_lines]
  · intro e hne
    rw [readBlocks_eq_flaw_iff hne]
    constructor
    · rintro ⟨ps, opening, rest, hlines, hopening, hflaw⟩
      exact ⟨ps, opening, rest, hlines, hopening, hflaw.not_lines_prefix opening, hflaw,
        hflaw.line_or_longHint⟩
    · rintro ⟨ps, opening, rest, hlines, hopening, -, hflaw, -⟩
      exact ⟨ps, opening, rest, hlines, hopening, hflaw⟩

-- A second separator is text to put there, and a divider is text unless it is first.
example : readBlocks "x\n<<<<<<< SEARCH\n-------\n-------\na\n=======\n=======\n>>>>>>> REPLACE" =
    .ok [⟨"-------\na", "=======",
      "<<<<<<< SEARCH\n-------\n-------\na\n=======\n=======\n>>>>>>> REPLACE", none⟩] := by
  decide +kernel

end Amend
