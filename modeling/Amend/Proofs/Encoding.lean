/-
Amend.Proofs.Encoding — how the bytes of a file and its text determine each
other.

Reading bytes as a text loses nothing (`encode_decode`), since every byte
that belongs to no character stays as a symbol of its own. Bringing a text
to line feeds and back loses something in one case only: where some line
feed follows a carriage return and some does not, the latter gets one too
(`closeLines`). On bytes and on texts this is the same function
(`encode_closeLines`), so a file passes through both layers unchanged
whenever its line endings agree (`written_decode`).

  §1 Bytes        — every piece of the bytes is written as it was read.
  §2 Line endings — what becomes of a text.
  §3 Files        — what becomes of bytes.
-/
import Mathlib.Data.List.Infix
import Amend.LineEnding
import Amend.Text.Utf8

namespace Amend

/-! ## §1 Bytes -/

namespace Utf8

@[simp] theorem encode_nil : encode [] = [] := rfl

@[simp] theorem encode_cons (s : Symbol) (t : Text) : encode (s :: t) = encodeSymbol s ++ encode t :=
  List.flatMap_cons

@[simp] theorem encode_append (s t : Text) : encode (s ++ t) = encode s ++ encode t :=
  List.flatMap_append

theorem toNat_char_ofNat {n : Nat} (h : n.isValidChar) : (Char.ofNat n).toNat = n := by
  rw [Char.ofNat, dif_pos h]
  rfl

/-- A byte number is recovered from the number itself. -/
theorem ofNat_eq_iff {n : Nat} {b : UInt8} : UInt8.ofNat n = b ↔ n % 256 = b.toNat := by
  rw [← UInt8.toNat_inj, UInt8.toNat_ofNat']

section Characters

variable {n : Nat} {b c d e : UInt8}

theorem encodeChar_one (h : b.toNat < 0x80) : encodeChar (Char.ofNat b.toNat) = [b] := by
  have hvalid : b.toNat.isValidChar := .inl (by omega)
  simp only [encodeChar, toNat_char_ofNat hvalid, if_pos h, UInt8.ofNat_toNat]

theorem encodeChar_two (hb : 0xC2 ≤ b.toNat) (hb' : b.toNat < 0xE0) (hc : 0x80 ≤ c.toNat)
    (hc' : c.toNat < 0xC0) (hn : n = (b.toNat - 0xC0) * 0x40 + payload c) :
    encodeChar (Char.ofNat n) = [b, c] := by
  rw [payload] at hn
  have hvalid : n.isValidChar := .inl (by omega)
  have h₁ : ¬ n < 0x80 := by omega
  have h₂ : n < 0x800 := by omega
  simp only [encodeChar, toNat_char_ofNat hvalid, if_neg h₁, if_pos h₂, List.cons.injEq, and_true,
    ofNat_eq_iff]
  omega

theorem encodeChar_three (hb : 0xE0 ≤ b.toNat) (hb' : b.toNat < 0xF0) (hc : 0x80 ≤ c.toNat)
    (hc' : c.toNat < 0xC0) (hd : 0x80 ≤ d.toNat) (hd' : d.toNat < 0xC0)
    (hlong : b.toNat = 0xE0 → 0xA0 ≤ c.toNat) (hpair : b.toNat = 0xED → c.toNat < 0xA0)
    (hn : n = (b.toNat - 0xE0) * 0x1000 + payload c * 0x40 + payload d) :
    encodeChar (Char.ofNat n) = [b, c, d] := by
  rw [payload, payload] at hn
  have hvalid : n.isValidChar := by
    rw [Nat.isValidChar]
    omega
  have h₁ : ¬ n < 0x80 := by omega
  have h₂ : ¬ n < 0x800 := by omega
  have h₃ : n < 0x10000 := by omega
  simp only [encodeChar, toNat_char_ofNat hvalid, if_neg h₁, if_neg h₂, if_pos h₃,
    List.cons.injEq, and_true, ofNat_eq_iff]
  omega

theorem encodeChar_four (hb : 0xF0 ≤ b.toNat) (hb' : b.toNat < 0xF5) (hc : 0x80 ≤ c.toNat)
    (hc' : c.toNat < 0xC0) (hd : 0x80 ≤ d.toNat) (hd' : d.toNat < 0xC0) (he : 0x80 ≤ e.toNat)
    (he' : e.toNat < 0xC0) (hlong : b.toNat = 0xF0 → 0x90 ≤ c.toNat)
    (hlarge : b.toNat = 0xF4 → c.toNat < 0x90)
    (hn : n = (b.toNat - 0xF0) * 0x40000 + payload c * 0x1000 + payload d * 0x40 + payload e) :
    encodeChar (Char.ofNat n) = [b, c, d, e] := by
  rw [payload, payload, payload] at hn
  have hvalid : n.isValidChar := .inr (by omega)
  have h₁ : ¬ n < 0x80 := by omega
  have h₂ : ¬ n < 0x800 := by omega
  have h₃ : ¬ n < 0x10000 := by omega
  simp only [encodeChar, toNat_char_ofNat hvalid, if_neg h₁, if_neg h₂, if_neg h₃,
    List.cons.injEq, and_true, ofNat_eq_iff]
  omega

theorem isContinuation_iff : isContinuation b = true ↔ 0x80 ≤ b.toNat ∧ b.toNat < 0xC0 := by
  simp [isContinuation, UInt8.le_iff_toNat_le, UInt8.lt_iff_toNat_lt]

theorem isSecond_iff : isSecond b c = true ↔ 0x80 ≤ c.toNat ∧ c.toNat < 0xC0 ∧
    (b.toNat = 0xE0 → 0xA0 ≤ c.toNat) ∧ (b.toNat = 0xED → c.toNat < 0xA0) ∧
    (b.toNat = 0xF0 → 0x90 ≤ c.toNat) ∧ (b.toNat = 0xF4 → c.toNat < 0x90) := by
  simp only [isSecond, Bool.and_eq_true, isContinuation_iff, and_assoc, and_congr_right_iff,
    ← UInt8.toNat_inj]
  intro _ _
  split
  · simp_all [UInt8.le_iff_toNat_le]
  split
  · simp_all [UInt8.lt_iff_toNat_lt]
  split
  · simp_all [UInt8.le_iff_toNat_le]
  split
  · simp_all [UInt8.lt_iff_toNat_lt]
  · simp_all

end Characters

/-- The bytes a piece was read from. -/
def Piece.bytes : Piece → Bytes
  | .char c => encodeChar c
  | .bad bs _ => bs

/-- A piece takes up no more bytes than there are. -/
theorem next_le (b : UInt8) (rest : Bytes) : (next b rest).2 ≤ rest.length := by
  fun_cases next b rest <;> simp

/-- A piece and the bytes after it are all the bytes there were. What goes
wrong is kept as it stands; a character is written with one to four bytes,
the case of which its first byte decides. -/
theorem next_bytes (b : UInt8) (rest : Bytes) :
    (next b rest).1.bytes ++ rest.drop (next b rest).2 = b :: rest := by
  fun_cases next b rest with
  | case1 =>
    rename_i hb
    rw [Piece.bytes, encodeChar_one (UInt8.lt_iff_toNat_lt.mp hb)]
    rfl
  | case4 _ hlow hhigh c rest hc =>
    simp only [UInt8.lt_iff_toNat_lt, Nat.not_lt] at hlow hhigh
    obtain ⟨hc₁, hc₂, -⟩ := isSecond_iff.mp hc
    rw [Piece.bytes, encodeChar_two hlow hhigh hc₁ hc₂ rfl]
    rfl
  | case9 _ _ hlow hhigh c hc d rest hd =>
    simp only [UInt8.lt_iff_toNat_lt, Nat.not_lt] at hlow hhigh
    obtain ⟨hc₁, hc₂, hlong, hpair, -⟩ := isSecond_iff.mp (by simpa using hc)
    obtain ⟨hd₁, hd₂⟩ := isContinuation_iff.mp hd
    rw [Piece.bytes, encodeChar_three hlow hhigh hc₁ hc₂ hd₁ hd₂ hlong hpair rfl]
    rfl
  | case16 _ _ _ hlow hhigh c hc d hd e rest he =>
    simp only [UInt8.lt_iff_toNat_lt, Nat.not_lt] at hlow hhigh
    obtain ⟨hc₁, hc₂, -, -, hlong, hlarge⟩ := isSecond_iff.mp (by simpa using hc)
    obtain ⟨hd₁, hd₂⟩ := isContinuation_iff.mp (by simpa using hd)
    obtain ⟨he₁, he₂⟩ := isContinuation_iff.mp he
    rw [Piece.bytes, encodeChar_four hlow hhigh hc₁ hc₂ hd₁ hd₂ he₁ he₂ hlong hlarge rfl]
    rfl
  | _ => rfl

/-- The pieces are the bytes, cut. -/
theorem flatMap_bytes_piecesFrom (bs : Bytes) :
    ∀ skip : Nat, (piecesFrom skip bs).flatMap Piece.bytes = bs.drop skip := by
  induction bs with
  | nil =>
    intro skip
    simp [piecesFrom]
  | cons b rest ih =>
    intro skip
    cases skip with
    | succ skip => simpa [piecesFrom] using ih skip
    | zero =>
      rw [piecesFrom, List.flatMap_cons, ih, next_bytes]
      rfl

theorem isLone_stray_iff {s : Fin 0x800} :
    (Symbol.stray s).isLone = true ↔ s.val < 0x480 ∨ 0x500 ≤ s.val := by
  simp [Symbol.isLone]

/-- A surrogate that comes from a byte stands for one. -/
theorem isLone_ofByte (b : UInt8) : (Symbol.ofByte b).isLone = false := by
  rw [Symbol.ofByte]
  split
  · have := b.toNat_lt
    rw [Bool.eq_false_iff, Ne, isLone_stray_iff]
    dsimp only
    omega
  · rfl

@[simp] theorem encodeSymbol_ofByte (b : UInt8) : encodeSymbol (Symbol.ofByte b) = [b] := by
  have hlone := isLone_ofByte b
  rw [Symbol.ofByte] at hlone ⊢
  split
  · rename_i hhigh
    rw [if_pos hhigh] at hlone
    rw [encodeSymbol, hlone, if_neg Bool.false_ne_true, Nat.add_sub_cancel_left, UInt8.ofNat_toNat]
  · exact encodeChar_one (by omega)

theorem encode_map_ofByte (bs : Bytes) : encode (bs.map Symbol.ofByte) = bs := by
  induction bs with
  | nil => rfl
  | cons b bs ih => simp [ih]

/-- Bytes read as a text and written again are the same bytes. -/
theorem encode_decode (bs : Bytes) : encode (decode bs) = bs := by
  rw [decode, encode, List.flatMap_assoc]
  calc _ = (pieces bs).flatMap Piece.bytes := by
        congr 1
        funext p
        cases p with
        | char c => simp [Piece.bytes, encodeSymbol]
        | bad bs _ => exact encode_map_ofByte bs
    _ = bs := flatMap_bytes_piecesFrom bs 0

/-- The text can be written: a surrogate in it stands for a byte. -/
def Encodable (t : Text) : Prop := ∀ s ∈ t, s.isLone = false

instance (t : Text) : Decidable (Encodable t) :=
  inferInstanceAs (Decidable (∀ s ∈ t, s.isLone = false))

theorem encodable_append {s t : Text} : Encodable (s ++ t) ↔ Encodable s ∧ Encodable t :=
  List.forall_mem_append

/-- What is read from bytes can be written. -/
theorem encodable_decode (bs : Bytes) : Encodable (decode bs) := by
  intro s hs
  obtain ⟨p, -, hs⟩ := List.mem_flatMap.mp hs
  cases p with
  | char c =>
    rw [List.mem_singleton.mp hs]
    rfl
  | bad bs _ =>
    obtain ⟨b, -, rfl⟩ := List.mem_map.mp hs
    exact isLone_ofByte b

theorem unencodableFrom_eq_none_iff {t : Text} {pos : Nat} :
    unencodableFrom pos t = none ↔ Encodable t := by
  induction t generalizing pos with
  | nil => simp [unencodableFrom, Encodable]
  | cons s t ih =>
    rw [unencodableFrom, Encodable, List.forall_mem_cons]
    cases hs : s.isLone with
    | true => simp
    | false => simpa [Encodable] using ih

theorem unencodable?_eq_none_iff {t : Text} : unencodable? t = none ↔ Encodable t :=
  unencodableFrom_eq_none_iff

theorem tryEncode_eq_ok_iff {t : Text} {bs : Bytes} :
    tryEncode t = .ok bs ↔ Encodable t ∧ bs = encode t := by
  rw [tryEncode, ← unencodable?_eq_none_iff]
  cases unencodable? t with
  | none => simp [eq_comm]
  | some u => simp

theorem tryEncode_of_encodable {t : Text} (h : Encodable t) : tryEncode t = .ok (encode t) :=
  tryEncode_eq_ok_iff.mpr ⟨h, rfl⟩

theorem exists_error_of_not_encodable {t : Text} (h : ¬ Encodable t) :
    ∃ u, tryEncode t = .error u := by
  cases hbytes : tryEncode t with
  | error u => exact ⟨u, rfl⟩
  | ok bs => exact absurd (tryEncode_eq_ok_iff.mp hbytes).1 h

/-- The surrogate that keeps a text from being written is a lone one in it. -/
theorem exists_lone_of_unencodableFrom {t : Text} {u : Unencodable} {pos : Nat}
    (h : unencodableFrom pos t = some u) : ∃ s ∈ t, s.isLone = true ∧ s.code = u.code := by
  induction t generalizing pos with
  | nil => cases h
  | cons s t ih =>
    rw [unencodableFrom] at h
    split at h
    · rename_i hlone
      cases h
      exact ⟨s, List.mem_cons_self, hlone, rfl⟩
    · obtain ⟨a, ha, hlone⟩ := ih h
      exact ⟨a, List.mem_cons_of_mem s ha, hlone⟩

theorem exists_lone_of_tryEncode {t : Text} {u : Unencodable} (h : tryEncode t = .error u) :
    ∃ s ∈ t, s.isLone = true ∧ s.code = u.code := by
  rw [tryEncode] at h
  split at h
  · cases h
  · rename_i u' hu
    cases h
    exact exists_lone_of_unencodableFrom hu

/-- A byte below 128 is written for its own character alone. -/
theorem eq_char_of_mem {s : Symbol} {b : UInt8} (hb : b ∈ encodeSymbol s) (h : b.toNat < 0x80) :
    s = .char (Char.ofNat b.toNat) := by
  cases s with
  | stray s =>
    have hs := s.isLt
    rw [encodeSymbol] at hb
    split at hb
    · simp only [List.mem_cons, List.not_mem_nil, or_false, eq_comm (a := b), ofNat_eq_iff] at hb
      obtain rfl | hb | hb := hb
      · exact absurd h (by decide)
      · omega
      · omega
    · rename_i hlone
      rw [isLone_stray_iff] at hlone
      rw [List.mem_singleton, eq_comm, ofNat_eq_iff] at hb
      omega
  | char c =>
    have hc : c.toNat < 0x110000 := by
      rcases c.valid with h | h <;> simp only [Char.toNat] <;> omega
    rw [encodeSymbol, encodeChar] at hb
    split at hb
    · rw [List.mem_singleton, eq_comm, ofNat_eq_iff, Nat.mod_eq_of_lt (by omega)] at hb
      rw [← hb, Char.ofNat_toNat]
    -- the first of two or more bytes is 192 at least, and the others 128
    all_goals
      repeat' split at hb
      all_goals
        simp only [List.mem_cons, List.not_mem_nil, or_false, eq_comm (a := b), ofNat_eq_iff] at hb
        omega

theorem encodeSymbol_ne_nil (s : Symbol) : encodeSymbol s ≠ [] := by
  cases s with
  | stray s =>
    rw [encodeSymbol]
    split
    all_goals exact List.cons_ne_nil _ _
  | char c =>
    rw [encodeSymbol, encodeChar]
    repeat' split
    all_goals simp

/-- A byte below 128 in the bytes of a text is where its character is. -/
theorem exists_append_of_encode {t : Text} (pre : Bytes) (b : UInt8) (post : Bytes)
    (h : b.toNat < 0x80) (ht : encode t = pre ++ b :: post) :
    ∃ before after, t = before ++ .char (Char.ofNat b.toNat) :: after ∧ encode before = pre ∧
      encode after = post := by
  induction t generalizing pre with
  | nil => simp at ht
  | cons s t ih =>
    rw [encode_cons] at ht
    -- the byte stands after those of `s`, or is one of them and so the only one
    rcases List.append_eq_append_iff.mp ht with ⟨pre', rfl, ht'⟩ | ⟨part, hs, hpart⟩
    · obtain ⟨before, after, rfl, rfl, hafter⟩ := ih pre' ht'
      exact ⟨s :: before, after, rfl, encode_cons s before, hafter⟩
    · cases part with
      | nil =>
        obtain ⟨before, after, rfl, hbefore, hafter⟩ := ih [] hpart.symm
        refine ⟨s :: before, after, rfl, ?_, hafter⟩
        rw [encode_cons, hbefore, hs, List.append_nil, List.append_nil]
      | cons b' part =>
        rw [List.cons_append, List.cons.injEq] at hpart
        obtain ⟨rfl, rfl⟩ := hpart
        have hsymbol : s = .char (Char.ofNat b.toNat) := eq_char_of_mem (by simp [hs]) h
        have hone : encodeSymbol s = [b] := by
          rw [hsymbol]
          exact encodeChar_one h
        rw [hone] at hs
        have hlen := congrArg List.length hs
        simp only [List.length_append, List.length_cons, List.length_nil] at hlen
        obtain rfl : pre = [] := List.eq_nil_of_length_eq_zero (by omega)
        obtain rfl : part = [] := List.eq_nil_of_length_eq_zero (by omega)
        exact ⟨[], t, by rw [hsymbol]; rfl, rfl, rfl⟩

end Utf8

/-! ## §2 Line endings -/

section Endings

variable {α : Type} [DecidableEq α] {ret feed : α} {closed : Bool} {t : List α}

/-- The lines of a list end alike: no `ret` is followed by a `feed`, or one
stands before each `feed`. -/
def Uniform (ret feed : α) (t : List α) : Prop :=
  ¬ [ret, feed] <:+: t ∨ ∀ pre post, t = pre ++ feed :: post → pre.getLast? = some ret

/-- The list with a `ret` put before each `feed` that has none. Whether the
list itself comes after a `ret` is told. -/
def closeLines (ret feed : α) : (closed : Bool) → List α → List α
  | _, [] => []
  | closed, c :: t =>
    if c = feed ∧ closed = false then ret :: feed :: closeLines ret feed false t
    else c :: closeLines ret feed (c = ret) t

/-- The list with all its lines ending as one of them does, if one of them
ends with the pair. -/
def unified (ret feed : α) (t : List α) : List α :=
  if [ret, feed] <:+: t then closeLines ret feed false t else t

theorem closeLines_of_head?_ne (h : t.head? ≠ some feed) :
    closeLines ret feed true t = closeLines ret feed false t := by
  cases t with
  | nil => rfl
  | cons c t =>
    have hc : c ≠ feed := by simpa using h
    simp [closeLines, hc]

theorem closeLines_append {xs : List α} (hne : xs ≠ []) (h : ∀ x ∈ xs, x ≠ ret ∧ x ≠ feed) :
    closeLines ret feed closed (xs ++ t) = xs ++ closeLines ret feed false t := by
  induction xs generalizing closed with
  | nil => exact absurd rfl hne
  | cons x xs ih =>
    obtain ⟨⟨hret, hfeed⟩, hrest⟩ := List.forall_mem_cons.mp h
    rw [List.cons_append, closeLines, if_neg (fun hx => hfeed hx.1), decide_eq_false hret,
      List.cons_append]
    cases xs with
    | nil => rfl
    | cons y ys => rw [ih (List.cons_ne_nil y ys) hrest]

/-- Nothing is put in just where each `feed` has its `ret`. -/
theorem closeLines_eq_self_iff (hne : ret ≠ feed) :
    closeLines ret feed closed t = t ↔ ∀ pre post, t = pre ++ feed :: post →
      pre.getLast? = some ret ∨ (pre = [] ∧ closed = true) := by
  induction t generalizing closed with
  | nil => simp [closeLines]
  | cons c t ih =>
    rw [closeLines]
    constructor
    · intro h pre post ht
      split at h
      · exact absurd (List.cons.inj h).1 (by rw [‹c = feed ∧ _›.1]; exact hne)
      · rename_i hhead
        have hrest := ih.mp (List.cons.inj h).2
        cases pre with
        | nil =>
          obtain ⟨rfl, rfl⟩ := List.cons.inj ht
          exact .inr ⟨rfl, by simpa using hhead⟩
        | cons x pre =>
          obtain ⟨rfl, rfl⟩ := List.cons.inj ht
          rcases hrest pre post rfl with hlast | ⟨rfl, hret⟩
          · exact .inl (by simp [List.getLast?_cons, hlast])
          · exact .inl (by simpa using hret)
    · intro h
      have hhead : ¬ (c = feed ∧ closed = false) := by
        rintro ⟨rfl, rfl⟩
        simpa using h [] t rfl
      rw [if_neg hhead, ih.mpr]
      rintro pre post rfl
      have := h (c :: pre) post rfl
      cases pre with
      | nil => simpa using this
      | cons x pre => simpa using this

/-- What is left of a list whose lines end alike is the list. -/
theorem unified_eq_self_iff (hne : ret ≠ feed) : unified ret feed t = t ↔ Uniform ret feed t := by
  rw [unified, Uniform]
  split
  · rename_i hpair
    simp [closeLines_eq_self_iff hne, hpair]
  · rename_i hpair
    simp [hpair]

omit [DecidableEq α] in
theorem pair_infix_cons_iff {c : α} :
    [ret, feed] <:+: c :: t ↔ (c = ret ∧ t.head? = some feed) ∨ [ret, feed] <:+: t := by
  rw [List.infix_cons_iff, List.cons_prefix_cons, eq_comm (a := ret)]
  cases t with
  | nil => simp
  | cons d t => simp [eq_comm]

end Endings

namespace LineEnding

theorem hasPair_iff {t : Text} : hasPair t = true ↔ [Amend.cr, Amend.lf] <:+: t := by
  induction t with
  | nil => simp [hasPair]
  | cons c t ih => simp [hasPair, ih, pair_infix_cons_iff]

theorem detect_eq_crlf_iff {t : Text} : detect t = crlf ↔ [Amend.cr, Amend.lf] <:+: t := by
  rw [← hasPair_iff, detect]
  cases hasPair t <;> simp

theorem detect_eq_lf_iff {t : Text} : detect t = lf ↔ ¬ [Amend.cr, Amend.lf] <:+: t := by
  rw [← hasPair_iff, detect]
  cases hasPair t <;> simp

theorem normalize_eq_self {t : Text} (h : ¬ [Amend.cr, Amend.lf] <:+: t) : normalize t = t := by
  induction t with
  | nil => rfl
  | cons c t ih =>
    rw [pair_infix_cons_iff, not_or] at h
    rw [normalize, if_neg h.1, ih h.2]

/-- Pairs collapsed and line feeds written as pairs again: the line feeds
that had no return have one then. -/
theorem expand_normalize (t : Text) :
    expand crlf.text (normalize t) = closeLines Amend.cr Amend.lf false t := by
  induction t with
  | nil => rfl
  | cons c t ih =>
    rw [normalize]
    split
    · rename_i h
      obtain ⟨rfl, hhead⟩ := h
      obtain ⟨t, rfl⟩ : ∃ t', t = Amend.lf :: t' := by
        cases t with
        | nil => cases hhead
        | cons d t' => exact ⟨t', by rw [Option.some.inj hhead]⟩
      rw [ih]
      simp [closeLines, Amend.cr, Amend.lf]
    · rename_i h
      by_cases hc : c = Amend.lf
      · simp_all [expand, closeLines, text]
      · by_cases hret : c = Amend.cr
        -- a return alone closes no line, for no feed follows it
        · have hhead : t.head? ≠ some Amend.lf := fun ht => h ⟨hret, ht⟩
          simp_all [expand, closeLines, text, closeLines_of_head?_ne]
        · simp_all [expand, closeLines, text]

theorem restore_normalize (t : Text) :
    restore (normalize t) (detect t) = unified Amend.cr Amend.lf t := by
  rw [unified]
  by_cases h : [Amend.cr, Amend.lf] <:+: t
  · rw [detect_eq_crlf_iff.mpr h, if_pos h, restore, expand_normalize]
  · rw [detect_eq_lf_iff.mpr h, if_neg h, restore_lf, normalize_eq_self h]

/-- Collapsing pairs takes returns away and nothing else. -/
theorem mem_normalize_iff {s : Symbol} (hs : s ≠ Amend.cr) {t : Text} : s ∈ normalize t ↔ s ∈ t := by
  induction t with
  | nil => rfl
  | cons c t ih =>
    rw [normalize]
    split
    · rename_i h
      rw [ih, List.mem_cons, h.1]
      exact (or_iff_right hs).symm
    · rw [List.mem_cons, List.mem_cons, ih]

/-- Writing line feeds as an ending puts returns in and nothing else. -/
theorem mem_restore_iff {s : Symbol} (hs : s ≠ Amend.cr) {t : Text} {e : LineEnding} :
    s ∈ restore t e ↔ s ∈ t := by
  have hsymbol (c : Symbol) : s ∈ (if c = Amend.lf then e.text else [c]) ↔ s = c := by
    split
    · rename_i hc
      cases e <;> simp [text, hc, hs]
    · exact List.mem_singleton
  rw [restore, expand, List.mem_flatMap]
  simp only [hsymbol, exists_eq_right']

end LineEnding

/-! ## §3 Files -/

namespace Utf8

theorem encodable_congr {t u : Text} (h : ∀ s, s ≠ cr → (s ∈ t ↔ s ∈ u)) :
    Encodable t ↔ Encodable u := by
  have hone {t u : Text} (h : ∀ s, s ≠ cr → s ∈ u → s ∈ t) (ht : Encodable t) : Encodable u := by
    intro s hs
    by_cases hcr : s = cr
    · rw [hcr]
      rfl
    · exact ht s (h s hcr hs)
  exact ⟨hone fun s hs => (h s hs).mpr, hone fun s hs => (h s hs).mp⟩

theorem encodable_normalize {t : Text} : Encodable (LineEnding.normalize t) ↔ Encodable t :=
  encodable_congr fun _ hs => LineEnding.mem_normalize_iff hs

theorem encodable_restore {t : Text} {e : LineEnding} :
    Encodable (LineEnding.restore t e) ↔ Encodable t :=
  encodable_congr fun _ hs => LineEnding.mem_restore_iff hs

theorem encodeSymbol_cr : encodeSymbol cr = [13] := rfl

theorem encodeSymbol_lf : encodeSymbol lf = [10] := rfl

/-- The pair is in the bytes where it is in the text. -/
theorem pair_infix_encode_iff {t : Text} : [13, 10] <:+: encode t ↔ [cr, lf] <:+: t := by
  constructor
  · rintro ⟨pre, post, h⟩
    obtain ⟨before, after, rfl, -, hafter⟩ :=
      exists_append_of_encode pre 13 (10 :: post) (by decide) (by rw [← h]; simp)
    obtain ⟨between, after, rfl, hbetween, -⟩ :=
      exists_append_of_encode [] 10 post (by decide) hafter
    have hnil : between = [] := by
      cases between with
      | nil => rfl
      | cons s u => simp [encodeSymbol_ne_nil] at hbetween
    exact ⟨before, after, by simp [hnil, cr, lf]⟩
  · rintro ⟨before, after, rfl⟩
    exact ⟨encode before, encode after, by simp [encodeSymbol_cr, encodeSymbol_lf]⟩

/-- Putting returns in is the same before and after writing. -/
theorem encode_closeLines (t : Text) (closed : Bool) :
    encode (closeLines cr lf closed t) = closeLines 13 10 closed (encode t) := by
  have hne : cr ≠ lf := by decide
  induction t generalizing closed with
  | nil => rfl
  | cons s t ih =>
    by_cases hret : s = cr
    · subst hret
      simp [closeLines, encodeSymbol_cr, ih, hne]
    · by_cases hfeed : s = lf
      · subst hfeed
        cases closed <;> simp [closeLines, encodeSymbol_cr, encodeSymbol_lf, ih, hne.symm]
      · have hplain : ∀ b ∈ encodeSymbol s, b ≠ 13 ∧ b ≠ 10 := by
          intro b hb
          constructor
          · rintro rfl
            exact hret (eq_char_of_mem hb (by decide))
          · rintro rfl
            exact hfeed (eq_char_of_mem hb (by decide))
        rw [encode_cons, closeLines_append (encodeSymbol_ne_nil s) hplain, ← ih false]
        simp [closeLines, hret, hfeed]

theorem encode_unified (t : Text) :
    encode (unified cr lf t) = unified 13 10 (encode t) := by
  by_cases h : [cr, lf] <:+: t
  · rw [unified, unified, if_pos h, if_pos (pair_infix_encode_iff.mpr h), encode_closeLines]
  · rw [unified, unified, if_neg h, if_neg (fun hp => h (pair_infix_encode_iff.mp hp))]

/-- What is left of a file that is read, brought to line feeds, and written
with its own line ending. -/
theorem written_decode (raw : Bytes) :
    encode (LineEnding.restore (LineEnding.normalize (decode raw)) (LineEnding.detect (decode raw))) =
      unified 13 10 raw := by
  rw [LineEnding.restore_normalize, encode_unified, encode_decode]

end Utf8

-- Undecodable bytes, a return on its own and two lines that end differently.
example : unified 13 10 [0xFF, 10, 13, 65, 13, 10] = [0xFF, 13, 10, 13, 65, 13, 10] := by decide

end Amend
