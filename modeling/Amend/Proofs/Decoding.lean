/-
Amend.Proofs.Decoding — reading a stream piece by piece is reading its bytes
at once.

Bytes are decoded from the front, one sequence after the other
(`sequenceInduction`), and a sequence that is complete is read alike whatever
comes after it (`next_take_append`). So bytes in two parts are decoded as the
first part and then the rest, where a sequence cut off at the end of the first
part goes over to the second (`strict?_append`).
Line breaks are read alike in two parts unless these part a carriage return
from its line feed. One piece of a stream therefore leaves what is still to be
read of the stream as it was, less what it gave (`readFrom_spec`).

  §1 Sequences at the front of bytes.
  §2 Bytes in two parts.
  §3 Line breaks in two parts.
  §4 Streams.
-/
import Amend.Proofs.Encoding
import Amend.Text.Stream

namespace Amend

namespace Utf8

/-! ## §1 Sequences at the front -/

theorem piecesFrom_eq (skip : Nat) (bs : Bytes) : piecesFrom skip bs = pieces (bs.drop skip) := by
  induction bs generalizing skip with
  | nil => cases skip <;> rfl
  | cons b rest ih =>
    cases skip with
    | zero => rfl
    | succ skip => rw [piecesFrom, ih, List.drop_succ_cons]

theorem pieces_cons (b : UInt8) (rest : Bytes) :
    pieces (b :: rest) = (next b rest).1 :: pieces (rest.drop (next b rest).2) := by
  rw [← piecesFrom_eq]
  rfl

/-- Bytes are none, or a sequence and the bytes after it. -/
@[elab_as_elim]
theorem sequenceInduction {P : Bytes → Prop} (nil : P [])
    (cons : ∀ b rest, P (rest.drop (next b rest).2) → P (b :: rest)) (bs : Bytes) : P bs :=
  match bs with
  | [] => nil
  | b :: rest => cons b rest (sequenceInduction nil cons (rest.drop (next b rest).2))
termination_by bs.length
decreasing_by simp only [List.length_drop, List.length_cons]; omega

/-- A character is read alike whatever comes after its bytes. -/
theorem next_take_append {b : UInt8} {rest : Bytes} {c : Char} (h : (next b rest).1 = .char c)
    (more : Bytes) : next b (rest.take (next b rest).2 ++ more) = next b rest := by
  revert h
  fun_cases next b rest with
  | case1 | case4 | case9 | case16 =>
    intro _
    simp only [next, List.take_succ_cons, List.take_zero, List.cons_append, List.nil_append, *,
      reduceIte, Bool.not_true, Bool.false_eq_true]
  | _ =>
    intro h
    cases h

/-- What goes wrong in the middle of bytes goes wrong alike whatever comes
after them. -/
theorem next_append {b : UInt8} {rest : Bytes} {bs : Bytes} {d : Defect}
    (h : (next b rest).1 = .bad bs d) (hd : d ≠ .truncated) (more : Bytes) :
    next b (rest ++ more) = next b rest := by
  revert h
  fun_cases next b rest with
  | case2 | case5 | case7 | case10 | case12 | case14 | case17 | case18 =>
    intro _
    simp only [next, List.cons_append, *, reduceIte, Bool.not_false, Bool.false_eq_true]
  | case3 | case6 | case8 | case11 | case13 | case15 =>
    intro h
    cases h
    exact absurd rfl hd
  | _ =>
    intro h
    cases h

/-- The bytes of a character, and those after it. -/
theorem encodeChar_of_next {b : UInt8} {rest : Bytes} {c : Char} (h : (next b rest).1 = .char c) :
    encodeChar c = b :: rest.take (next b rest).2 ∧
      encodeChar c ++ rest.drop (next b rest).2 = b :: rest := by
  have hbytes := next_bytes b rest
  rw [h, Piece.bytes] at hbytes
  have hsplit : encodeChar c ++ rest.drop (next b rest).2 =
      (b :: rest.take (next b rest).2) ++ rest.drop (next b rest).2 := by
    rw [hbytes, List.cons_append, List.take_append_drop]
  exact ⟨List.append_cancel_right hsplit, hbytes⟩

theorem decode_encodeChar_append {b : UInt8} {rest : Bytes} {c : Char}
    (h : (next b rest).1 = .char c) (more : Bytes) :
    decode (encodeChar c ++ more) = .char c :: decode more := by
  have hlength : (rest.take (next b rest).2).length = (next b rest).2 :=
    List.length_take_of_le (next_le b rest)
  have hdrop : (rest.take (next b rest).2 ++ more).drop (next b rest).2 = more := by
    rw [List.drop_append_of_le_length (by omega), List.drop_of_length_le (by omega),
      List.nil_append]
  rw [(encodeChar_of_next h).1, List.cons_append, decode, pieces_cons, next_take_append h, h, hdrop]
  rfl

/-! ## §2 Bytes in two parts -/

theorem readPieces_add (pos k : Nat) (ps : List Piece) :
    readPieces (pos + k) ps =
      (readPieces pos ps).mapError fun m => { m with position := m.position + k } := by
  induction ps generalizing pos with
  | nil => rfl
  | cons p ps ih =>
    cases p with
    | bad bs d => rfl
    | char c =>
      rw [readPieces, readPieces, Nat.add_right_comm, ih]
      cases readPieces (pos + (encodeChar c).length) ps <;> rfl

theorem decodeStrict_char {b : UInt8} {rest : Bytes} {c : Char} (h : (next b rest).1 = .char c) :
    decodeStrict (b :: rest) =
      ((decodeStrict (rest.drop (next b rest).2)).map (.char c :: ·)).mapError
        fun m => { m with position := m.position + (encodeChar c).length } := by
  rw [decodeStrict, pieces_cons, h, readPieces, readPieces_add, decodeStrict]
  cases readPieces 0 (pieces (rest.drop (next b rest).2)) <;> rfl

theorem decodeStrict_bad {b : UInt8} {rest bs : Bytes} {d : Defect}
    (h : (next b rest).1 = .bad bs d) : decodeStrict (b :: rest) = .error ⟨0, bs, d⟩ := by
  rw [decodeStrict, pieces_cons, h, readPieces]

/-- The text of bytes that are UTF-8. -/
def strict? (bs : Bytes) : Option Text := (decodeStrict bs).toOption

theorem strict?_char {b : UInt8} {rest : Bytes} {c : Char} (h : (next b rest).1 = .char c) :
    strict? (b :: rest) = (strict? (rest.drop (next b rest).2)).map (.char c :: ·) := by
  rw [strict?, decodeStrict_char h, strict?]
  cases decodeStrict (rest.drop (next b rest).2) <;> rfl

/-- Bytes in two parts are decoded one part after the other. A sequence that is
cut off at the end of the first part goes over to the second. -/
theorem strict?_append (data more : Bytes) :
    strict? (data ++ more) =
      match decodeStrict data with
      | .ok t => (strict? more).map (t ++ ·)
      | .error m =>
        if m.defect = .truncated then
          (strict? (data.drop m.position ++ more)).map (decode (data.take m.position) ++ ·)
        else none := by
  induction data using sequenceInduction with
  | nil => simp [decodeStrict, pieces, piecesFrom, readPieces]
  | cons b rest ih =>
    cases hpiece : (next b rest).1 with
    | char c =>
      have hnext : next b (rest ++ more) = next b rest := by
        rw [← next_take_append hpiece (rest.drop (next b rest).2 ++ more), ← List.append_assoc,
          List.take_append_drop]
      obtain ⟨-, hbytes⟩ := encodeChar_of_next hpiece
      have hchar : (next b (rest ++ more)).1 = .char c := by rw [hnext, hpiece]
      rw [List.cons_append, strict?_char hchar, hnext,
        List.drop_append_of_le_length (next_le b rest), ih, decodeStrict_char hpiece]
      cases decodeStrict (rest.drop (next b rest).2) with
      | ok t => cases strict? more <;> rfl
      | error m =>
        simp only [Except.map, Except.mapError]
        split
        · rw [← hbytes, Nat.add_comm m.position, List.drop_length_add_append,
            List.take_length_add_append, decode_encodeChar_append hpiece, Option.map_map]
          rfl
        · rfl
    | bad bs d =>
      rw [decodeStrict_bad hpiece]
      dsimp only
      split
      · simp [decode, pieces, piecesFrom]
      · rename_i hd
        have hbad : (next b (rest ++ more)).1 = .bad bs d := by
          rw [next_append hpiece hd, hpiece]
        rw [List.cons_append, strict?, decodeStrict_bad hbad]
        rfl

end Utf8

/-! ## §3 Line breaks in two parts -/

theorem Text.universal_append {t u : Text} (h : ¬(t.getLast? = some cr ∧ u.head? = some lf)) :
    universal (t ++ u) = universal t ++ universal u := by
  induction t with
  | nil => rfl
  | cons c t ih =>
    cases t with
    | nil =>
      by_cases hc : c = cr
      · subst hc
        have hu : u.head? ≠ some lf := fun hu => h ⟨rfl, hu⟩
        simp [universal, hu]
      · simp [universal, hc]
    | cons d t =>
      have hrest := ih (by simpa using h)
      rw [List.cons_append, universal, universal, hrest]
      simp only [List.cons_append, List.head?_cons]
      by_cases hc : c = cr
      · by_cases hd : some d = some lf <;> simp [hc, hd]
      · simp [hc]

namespace Stream

/-- The carriage return that is held back. -/
def returned (heldReturn : Bool) : Text := if heldReturn then [cr] else []

/-- The line breaks of a piece and of what comes after it are those of both
together. -/
theorem breakLines_append (heldReturn : Bool) (t u : Text) :
    Text.universal (returned heldReturn ++ (t ++ u)) =
      (breakLines heldReturn false t).1 ++
        Text.universal (returned (breakLines heldReturn false t).2 ++ u) := by
  have hdata : (if heldReturn then cr :: t else t) = returned heldReturn ++ t := by
    cases heldReturn <;> rfl
  rw [← List.append_assoc, breakLines, hdata]
  generalize returned heldReturn ++ t = t
  split
  · rename_i hlast
    simp only [Bool.not_false, Bool.true_and, beq_iff_eq] at hlast
    obtain ⟨init, rfl⟩ := List.getLast?_eq_some_iff.mp hlast
    have hcr : cr ≠ lf := by decide
    rw [List.append_assoc, Text.universal_append fun h => hcr (by simpa using h.2),
      List.dropLast_concat]
    rfl
  · rename_i hlast
    simp only [Bool.not_false, Bool.true_and, beq_iff_eq] at hlast
    exact Text.universal_append fun h => hlast h.1

/-! ## §4 Streams -/

/-- The text still to be read of a stream, if its bytes are UTF-8. -/
def remaining (s : Stream) : Option Text :=
  (Utf8.strict? (s.held ++ s.rest)).map fun t => Text.universal (returned s.heldReturn ++ t)

/-- A piece of a stream gives the front of what is still to be read. -/
theorem next_spec {size : Nat} (hsize : 0 < size) {s : Stream} (hrest : s.rest ≠ []) :
    match s.next size with
    | .ok (t, r) => r.rest = s.rest.drop size ∧ s.remaining = r.remaining.map (t ++ ·)
    | .error _ => s.remaining = none := by
  have hpiece : (s.rest.take size).isEmpty = false := by
    rw [List.isEmpty_eq_false_iff, ne_eq, List.take_eq_nil_iff]
    simp [hrest, Nat.ne_of_gt hsize]
  have hsplit : s.held ++ s.rest = (s.held ++ s.rest.take size) ++ s.rest.drop size := by
    rw [List.append_assoc, List.take_append_drop]
  have hremaining := Utf8.strict?_append (s.held ++ s.rest.take size) (s.rest.drop size)
  unfold next
  simp only [hpiece, Bool.not_false, Bool.and_true]
  cases hdecoded : Utf8.decodeStrict (s.held ++ s.rest.take size) with
  | ok t =>
    simp only [hdecoded] at hremaining
    refine ⟨rfl, ?_⟩
    simp only [remaining, hsplit, hremaining, List.nil_append, Option.map_map, Function.comp_def,
      breakLines_append]
  | error m =>
    simp only [hdecoded] at hremaining
    by_cases hcut : m.defect = .truncated
    · simp only [hcut, if_true] at hremaining
      simp only [hcut, decide_true, if_true, true_and]
      simp only [remaining, hsplit, hremaining, Option.map_map, Function.comp_def,
        breakLines_append]
    · simp only [hcut, if_false] at hremaining
      simp only [hcut, decide_false, Bool.false_eq_true, if_false]
      simp only [remaining, hsplit, hremaining, Option.map_none]

/-- At its end a stream gives what was held back. -/
theorem next_end (size : Nat) {s : Stream} (hrest : s.rest = []) :
    match s.next size with
    | .ok (t, _) => s.remaining = some t
    | .error _ => s.remaining = none := by
  unfold next
  simp only [hrest, List.take_nil, List.append_nil, List.isEmpty_nil, Bool.not_true, Bool.and_false,
    Bool.false_eq_true, if_false]
  cases hdecoded : Utf8.decodeStrict s.held with
  | error m => simp [remaining, hrest, Utf8.strict?, hdecoded, Except.toOption]
  | ok t =>
    cases hreturn : s.heldReturn <;>
      simp [remaining, hrest, Utf8.strict?, hdecoded, Except.toOption, breakLines, returned, hreturn]

theorem readFrom_end {s : Stream} (hrest : s.rest = []) (fuel : Nat) :
    match s.remaining with
    | some t => readFrom (fuel + 1) s = (t, none)
    | none => ∃ t m, readFrom (fuel + 1) s = (t, some m) := by
  have hend := next_end pieceSize hrest
  rw [readFrom]
  cases hnext : s.next pieceSize with
  | error m =>
    rw [hnext] at hend
    rw [hend]
    exact ⟨_, _, rfl⟩
  | ok p =>
    rw [hnext] at hend
    simp [hend, hrest]

theorem readFrom_spec {fuel : Nat} {s : Stream} (hfuel : s.rest.length ≤ fuel * pieceSize) :
    match s.remaining with
    | some t => readFrom (fuel + 1) s = (t, none)
    | none => ∃ t m, readFrom (fuel + 1) s = (t, some m) := by
  induction fuel generalizing s with
  | zero => exact readFrom_end (List.eq_nil_of_length_eq_zero (by omega)) 0
  | succ fuel ih =>
    by_cases hrest : s.rest = []
    · exact readFrom_end hrest (fuel + 1)
    · have hpiece := next_spec (show 0 < pieceSize by decide) hrest
      rw [readFrom]
      cases hnext : s.next pieceSize with
      | error m =>
        rw [hnext] at hpiece
        rw [hpiece]
        exact ⟨_, _, rfl⟩
      | ok p =>
        obtain ⟨t, r⟩ := p
        rw [hnext] at hpiece
        obtain ⟨hr, hremaining⟩ := hpiece
        have hread := ih (s := r) (by
          rw [hr, List.length_drop]
          rw [Nat.succ_mul] at hfuel
          omega)
        have hsome : s.rest.isEmpty = false := by simpa using hrest
        rw [hremaining]
        cases hrem : r.remaining with
        | some u =>
          rw [hrem] at hread
          simp [hsome, hread]
        | none =>
          rw [hrem] at hread
          obtain ⟨u, m, hread⟩ := hread
          simp only [Option.map_none, hsome, Bool.false_eq_true, if_false, hread]
          exact ⟨_, _, rfl⟩

/-- Of bytes that are UTF-8 a stream gives the text, every line break a line
feed; of others it gives a defect. -/
theorem read_spec (bytes : Bytes) :
    match Utf8.strict? bytes with
    | some t => read bytes = (Text.universal t, none)
    | none => ∃ t m, read bytes = (t, some m) := by
  have hfuel : bytes.length ≤ (bytes.length / pieceSize + 1) * pieceSize := by
    have hpos : 0 < pieceSize := by decide
    have hdiv := Nat.lt_div_mul_add hpos (a := bytes.length)
    rw [Nat.succ_mul]
    exact Nat.le_of_lt hdiv
  have hspec := readFrom_spec (s := ⟨bytes, [], false⟩) hfuel
  simp only [remaining, List.nil_append] at hspec
  generalize Utf8.strict? bytes = decoded at hspec ⊢
  cases decoded <;> exact hspec

end Stream

end Amend
