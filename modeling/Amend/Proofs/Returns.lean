/-
Amend.Proofs.Returns — a file with a carriage return before each line feed.

A byte below 128 ends whatever sequence is read when it comes, so the bytes
before and after it are read each by themselves (`decode_append_ascii`). To
put a carriage return before each line feed of a file is therefore to put one
before each line feed of its text (`decode_withReturns`), and bringing the
text to line feeds takes them all away again (`normalize_expand`). A file
with line feeds alone and the same file with returns are read as the same
text.

  §1 Reading bytes in two parts.
  §2 Returns put in     — into bytes, and into the text they are read as.
  §3 Files.
-/
import Amend.Proofs.Framing

namespace Amend

namespace Utf8

/-! ## §1 Reading bytes in two parts -/

/-- The text a piece is read as. -/
def Piece.text : Piece → Text
  | .char c => [.char c]
  | .bad bs _ => bs.map Symbol.ofByte

theorem decode_eq (bs : Bytes) : decode bs = (piecesFrom 0 bs).flatMap Piece.text := rfl

section Ascii

variable {x : UInt8} (hx : x.toNat < 0x80)

include hx

theorem isContinuation_ascii : isContinuation x = false := by
  rw [Bool.eq_false_iff, Ne, isContinuation_iff]
  omega

theorem isSecond_ascii (lead : UInt8) : isSecond lead x = false := by
  rw [isSecond, isContinuation_ascii hx, Bool.false_and]

/-- A piece does not reach over such a byte, nor is it read otherwise for it;
only the reason why it goes wrong may be another. -/
theorem next_append_ascii (b : UInt8) (rest post : Bytes) :
    (next b (rest ++ x :: post)).1.text = (next b rest).1.text ∧
      (next b (rest ++ x :: post)).2 = (next b rest).2 := by
  have hcont := isContinuation_ascii hx
  have hsecond := isSecond_ascii hx b
  simp only [next]
  by_cases h₁ : b < 0x80
  · simp only [if_pos h₁, and_self]
  by_cases h₂ : b < 0xC2
  · simp only [if_neg h₁, if_pos h₂, and_self]
  by_cases h₃ : b < 0xE0
  · simp only [if_neg h₁, if_neg h₂, if_pos h₃]
    cases rest with
    | nil => simp [hsecond, Piece.text]
    | cons c rest => simp
  by_cases h₄ : b < 0xF0
  · simp only [if_neg h₁, if_neg h₂, if_neg h₃, if_pos h₄]
    rcases rest with _ | ⟨c, _ | ⟨d, rest⟩⟩
    · simp [hsecond, Piece.text]
    · cases hc : isSecond b c <;> simp [hc, hcont, Piece.text]
    · simp
  by_cases h₅ : b < 0xF5
  · simp only [if_neg h₁, if_neg h₂, if_neg h₃, if_neg h₄, if_pos h₅]
    rcases rest with _ | ⟨c, _ | ⟨d, _ | ⟨e, rest⟩⟩⟩
    · simp [hsecond, Piece.text]
    · cases hc : isSecond b c <;> simp [hc, hcont, Piece.text]
    · cases hc : isSecond b c <;> cases hd : isContinuation d <;> simp [hc, hd, hcont, Piece.text]
    · simp
  · simp only [if_neg h₁, if_neg h₂, if_neg h₃, if_neg h₄, if_neg h₅, and_self]

/-- Bytes before such a byte are read by themselves. The induction is on
these bytes, of which the piece before still takes `skip`. -/
theorem flatMap_text_piecesFrom_append (pre post : Bytes) :
    ∀ skip : Nat, skip ≤ pre.length →
      (piecesFrom skip (pre ++ x :: post)).flatMap Piece.text =
        (piecesFrom skip pre).flatMap Piece.text ++ decode (x :: post) := by
  induction pre with
  | nil =>
    intro skip hskip
    obtain rfl : skip = 0 := Nat.le_zero.mp hskip
    rfl
  | cons b rest ih =>
    intro skip hskip
    cases skip with
    | succ skip => exact ih skip (Nat.le_of_succ_le_succ hskip)
    | zero =>
      obtain ⟨htext, hmore⟩ := next_append_ascii hx b rest post
      rw [List.cons_append, piecesFrom, piecesFrom, List.flatMap_cons, List.flatMap_cons, htext,
        hmore, ih _ (next_le b rest), List.append_assoc]

theorem decode_append_ascii (pre post : Bytes) : decode (pre ++ x :: post) =
    decode pre ++ .char (Char.ofNat x.toNat) :: decode post := by
  have hfirst : decode (x :: post) = .char (Char.ofNat x.toNat) :: decode post := by
    have hnext : next x post = (.char (Char.ofNat x.toNat), 0) := by
      have hlt : x < 0x80 := UInt8.lt_iff_toNat_lt.mpr hx
      simp only [next, if_pos hlt]
    rw [decode_eq, piecesFrom, hnext]
    rfl
  rw [← hfirst]
  exact flatMap_text_piecesFrom_append hx pre post 0 (Nat.zero_le _)

end Ascii

theorem decode_append_cr (pre post : Bytes) : decode (pre ++ 13 :: post) =
    decode pre ++ cr :: decode post := decode_append_ascii (by decide) pre post

theorem decode_append_lf (pre post : Bytes) : decode (pre ++ 10 :: post) =
    decode pre ++ lf :: decode post := decode_append_ascii (by decide) pre post

end Utf8

/-! ## §2 Returns put in -/

namespace LineEnding

theorem expand_append (ending s t : Text) :
    expand ending (s ++ t) = expand ending s ++ expand ending t := List.flatMap_append

theorem expand_crlf_cons_lf (t : Text) :
    expand crlf.text (Amend.lf :: t) = Amend.cr :: Amend.lf :: expand crlf.text t := by
  simp [expand, text]

theorem expand_cons_of_ne {c : Symbol} (h : c ≠ Amend.lf) (ending t : Text) :
    expand ending (c :: t) = c :: expand ending t := by
  simp [expand, h]

theorem expand_eq_self {t : Text} (h : Amend.lf ∉ t) (ending : Text) : expand ending t = t := by
  induction t with
  | nil => rfl
  | cons c t ih =>
    simp only [List.mem_cons, not_or] at h
    rw [expand_cons_of_ne (Ne.symm h.1), ih h.2]

/-- Bringing a text to line feeds takes the returns that were put in. -/
theorem normalize_expand (t : Text) : normalize (expand crlf.text t) = t := by
  induction t with
  | nil => rfl
  | cons c t ih =>
    by_cases hc : c = Amend.lf
    · have hne : ¬ (Amend.lf = Amend.cr ∧ (expand crlf.text t).head? = some Amend.lf) :=
        fun h => absurd h.1 (by decide)
      rw [hc, expand_crlf_cons_lf, normalize, if_pos ⟨rfl, rfl⟩, normalize, if_neg hne, ih]
    · have hhead : (expand crlf.text t).head? ≠ some Amend.lf := by
        cases t with
        | nil => simp [expand]
        | cons d t =>
          by_cases hd : d = Amend.lf
          · rw [hd, expand_crlf_cons_lf]
            simp [Amend.cr, Amend.lf]
          · simp [expand_cons_of_ne hd, hd]
      rw [expand_cons_of_ne hc, normalize, if_neg (fun h => hhead h.2), ih]

theorem detect_expand {t : Text} (h : Amend.lf ∈ t) : detect (expand crlf.text t) = crlf := by
  obtain ⟨before, after, rfl⟩ := List.append_of_mem h
  exact detect_eq_crlf_iff.mpr ⟨expand crlf.text before, expand crlf.text after, by
    simp [expand_append, expand_crlf_cons_lf]⟩

end LineEnding

/-- Bytes with a carriage return put before each line feed. -/
def withReturns (bs : Bytes) : Bytes := bs.flatMap fun b => if b = 10 then [13, 10] else [b]

theorem withReturns_eq_self {bs : Bytes} (h : 10 ∉ bs) : withReturns bs = bs := by
  induction bs with
  | nil => rfl
  | cons b bs ih =>
    simp only [List.mem_cons, not_or] at h
    rw [withReturns, List.flatMap_cons, if_neg (Ne.symm h.1), ← withReturns, ih h.2]
    rfl

theorem withReturns_append (as bs : Bytes) :
    withReturns (as ++ bs) = withReturns as ++ withReturns bs := List.flatMap_append

namespace Utf8

/-- A line feed is read where one stands, and there only. -/
theorem lf_mem_decode_iff {bs : Bytes} : lf ∈ decode bs ↔ 10 ∈ bs := by
  constructor
  · intro h
    have hmem : 10 ∈ encode (decode bs) := List.mem_flatMap.mpr ⟨lf, h, by decide⟩
    rwa [encode_decode] at hmem
  · intro h
    obtain ⟨pre, post, rfl⟩ := List.append_of_mem h
    rw [decode_append_lf]
    exact List.mem_append_right _ List.mem_cons_self

/-- To put returns into bytes is to put them into the text they are read as. -/
theorem decode_withReturns (bs : Bytes) :
    decode (withReturns bs) = LineEnding.expand LineEnding.crlf.text (decode bs) := by
  by_cases h : 10 ∈ bs
  · obtain ⟨pre, post, hbs, hpre⟩ := List.eq_append_cons_of_mem h
    have hshorter : post.length < bs.length := by
      rw [hbs, List.length_append, List.length_cons]
      omega
    have hplain : lf ∉ decode pre := fun hlf => hpre (lf_mem_decode_iff.mp hlf)
    have hbytes : withReturns (pre ++ 10 :: post) =
        pre ++ 13 :: ([] ++ 10 :: withReturns post) := by
      rw [withReturns_append, withReturns_eq_self hpre]
      rfl
    rw [hbs, hbytes, decode_append_cr, decode_append_lf, decode_append_lf, decode_withReturns post,
      LineEnding.expand_append, LineEnding.expand_eq_self hplain, LineEnding.expand_crlf_cons_lf]
    rfl
  · have hplain : lf ∉ decode bs := fun hlf => h (lf_mem_decode_iff.mp hlf)
    rw [withReturns_eq_self h, LineEnding.expand_eq_self hplain]
termination_by bs.length
decreasing_by exact hshorter

/-- The same for a text that is written. -/
theorem encode_expand (t : Text) :
    encode (LineEnding.expand LineEnding.crlf.text t) = withReturns (encode t) := by
  induction t with
  | nil => rfl
  | cons s t ih =>
    by_cases hs : s = lf
    · subst hs
      rw [LineEnding.expand_crlf_cons_lf, encode_cons, encode_cons, ih, encode_cons,
        withReturns_append]
      rfl
    · have hplain : 10 ∉ encodeSymbol s := fun hmem => hs (eq_char_of_mem hmem (by decide))
      rw [LineEnding.expand_cons_of_ne hs, encode_cons, encode_cons, withReturns_append, ih,
        withReturns_eq_self hplain]

/-- The returns put in end a run of surrogates where the line feeds did. -/
theorem takeWhile_expand (t : Text) :
    (LineEnding.expand LineEnding.crlf.text t).takeWhile Symbol.isSurrogate =
      t.takeWhile Symbol.isSurrogate := by
  induction t with
  | nil => rfl
  | cons s t ih =>
    by_cases hs : s = lf
    · rw [hs, LineEnding.expand_crlf_cons_lf]
      rfl
    · rw [LineEnding.expand_cons_of_ne hs, List.takeWhile_cons, List.takeWhile_cons, ih]

/-- With returns put in, a text has no bytes where it had none before, for the
same surrogate, only further on. -/
theorem unencodableFrom_expand {t : Text} {pos : Nat} {u : Unencodable}
    (h : unencodableFrom pos t = some u) (pos' : Nat) :
    ∃ u', unencodableFrom pos' (LineEnding.expand LineEnding.crlf.text t) = some u' ∧
      u'.code = u.code ∧ u'.count = u.count := by
  induction t generalizing pos pos' with
  | nil => cases h
  | cons s t ih =>
    by_cases hs : s = lf
    · rw [hs] at h ⊢
      rw [LineEnding.expand_crlf_cons_lf]
      exact ih h (pos' + 2)
    · rw [LineEnding.expand_cons_of_ne hs]
      rw [unencodableFrom] at h ⊢
      split at h
      · rename_i hlone
        cases h
        rw [if_pos hlone, takeWhile_expand]
        exact ⟨_, rfl, rfl, rfl⟩
      · rename_i hlone
        rw [if_neg hlone]
        exact ih h (pos' + 1)

end Utf8

/-! ## §3 Files -/

section Files

variable {raw : Bytes} (hpair : ¬ [13, 10] <:+: raw)

include hpair

theorem not_pair_infix_decode : ¬ [cr, lf] <:+: Utf8.decode raw := by
  rwa [← Utf8.pair_infix_encode_iff, Utf8.encode_decode]

theorem contentOf_withReturns : contentOf (withReturns raw) = contentOf raw := by
  rw [contentOf, contentOf, Utf8.decode_withReturns, LineEnding.normalize_expand,
    LineEnding.normalize_eq_self (not_pair_infix_decode hpair)]

theorem endingOf_eq_lf : endingOf raw = .lf :=
  LineEnding.detect_eq_lf_iff.mpr (not_pair_infix_decode hpair)

end Files

theorem endingOf_withReturns {raw : Bytes} (hfeed : 10 ∈ raw) :
    endingOf (withReturns raw) = .crlf := by
  rw [endingOf, Utf8.decode_withReturns,
    LineEnding.detect_expand (Utf8.lf_mem_decode_iff.mpr hfeed)]

theorem written_crlf (t : Text) : written .crlf t = withReturns (written .lf t) := by
  rw [written, written, LineEnding.restore_lf, LineEnding.restore, Utf8.encode_expand]

end Amend
