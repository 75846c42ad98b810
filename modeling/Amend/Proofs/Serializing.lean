/-
Amend.Proofs.Serializing — a mapping written as JSON is read back.

Each symbol of a text is written in one of four forms (`Written`), and each
form is passed over whole by the scan for the closing quote and resolved to
its symbol. So a text is read back whatever it holds, stray bytes included,
but for two surrogates side by side that are the halves of a pair: they are
read as the one character (`joined`, `takeString_written`). Of values only
those are read back here that stand in the log of edits: null, truth values,
texts, and numbers that are not too long to be read (`Loggable`). A mapping of
them is read back (`read_write`). What is written of a value, of whatever
kind, is one line of printable ASCII (`printable_write`).

  §1 Hexadecimal digits.
  §2 Symbols in a string.
  §3 Strings.
  §4 Numbers.
  §5 Values.
  §6 Mappings.
  §7 One line.
-/
import Amend.Proofs.Writing
import Amend.Value.Json

namespace Amend

open Text

namespace Json

/-! ## §1 Hexadecimal digits -/

theorem hexValue?_hexDigit {d : Nat} (h : d < 16) : hexValue? (.char (hexDigit d)) = some d := by
  have hall : ∀ d < 16, hexValue? (.char (hexDigit d)) = some d := by decide
  exact hall d h

/-- A number of four hexadecimal digits is read as it was written. -/
theorem takeHex_hex {n : Nat} (h : n < 0x10000) (r : Text) :
    takeHex ((hex 4 n).map .char ++ r) = some (n, r) := by
  simp only [hex, List.nil_append, List.cons_append, List.map_cons, List.map_nil,
    takeHex, hexValue?_hexDigit (Nat.mod_lt _ (show 0 < 16 by decide)), Option.pure_def,
    Option.bind_eq_bind, Option.bind_some, Option.some.injEq, Prod.mk.injEq, and_true]
  omega

/-! ## §2 Symbols in a string -/

/-- A character that stands in a string as it is. -/
structure Printable (s : Symbol) : Prop where
  char : ∃ c, s = .char c
  low : 0x20 ≤ s.code
  high : s.code < 0x7F

/-- The four forms in which a symbol is written in a string. -/
inductive Written : Symbol → Text → Prop
  | plain {c : Char} (printable : Printable (.char c)) (ne_quote : c ≠ '"') (ne_slash : c ≠ '\\') :
      Written (.char c) [.char c]
  | short {c e : Char} (printable : Printable (.char e))
      (resolves : ∀ r, takeEscape (.char e :: r) = some (.char c, r)) :
      Written (.char c) [.char '\\', .char e]
  | long {s : Symbol} (lt : s.code < 0x10000) :
      Written s (.char '\\' :: .char 'u' :: (hex 4 s.code).map .char)
  | pair {c : Char} {m : Nat} (lt : m < 0x100000) (resolves : Char.ofNat (0x10000 + m) = c) :
      Written (.char c) (.char '\\' :: .char 'u' :: (hex 4 (0xD800 + m / 0x400)).map .char ++
        .char '\\' :: .char 'u' :: (hex 4 (0xDC00 + m % 0x400)).map .char)

/-- No character has the number of a surrogate. -/
theorem code_char (c : Char) : (Symbol.char c).code < 0xD800 ∨ 0xDFFF < (Symbol.char c).code := by
  rcases (show c.toNat.isValidChar from c.valid) with h | h
  · exact .inl h
  · exact .inr h.1

theorem symbolOfCode_code {s : Symbol} (h : s.code < 0x10000) : symbolOfCode s.code = s := by
  cases s with
  | char c =>
    have hvalid : c.toNat.isValidChar := c.valid
    have hrange := code_char c
    simp only [Symbol.code] at hrange ⊢
    rw [symbolOfCode, dif_neg (by omega), dif_pos hvalid]
    rfl
  | stray s =>
    have hlt := s.isLt
    simp only [Symbol.code]
    rw [symbolOfCode, dif_pos (by omega)]
    exact congrArg Symbol.stray (Fin.ext (Nat.add_sub_cancel_left _ _))

/-- The characters that are written as one after a backslash. -/
def shortened : List Char := ['"', '\\', '\n', '\r', '\t', '\x08', '\x0c']

theorem written_shortened {c : Char} (h : c ∈ shortened) :
    Written (.char c) (writeSymbol (.char c)) := by
  have hprintable {c : Char} (h : 0x20 ≤ c.toNat ∧ c.toNat < 0x7F) : Printable (.char c) :=
    ⟨⟨c, rfl⟩, h.1, h.2⟩
  simp only [shortened, List.mem_cons, List.not_mem_nil, or_false] at h
  obtain rfl | rfl | rfl | rfl | rfl | rfl | rfl := h
  all_goals exact .short (hprintable (by decide)) fun _ => rfl

theorem writeSymbol_of_notMem {s : Symbol} (h : ∀ c ∈ shortened, s ≠ .char c) :
    writeSymbol s =
      if 0x20 ≤ s.code ∧ s.code < 0x7F then [.char (Char.ofNat s.code)]
      else if s.code < 0x10000 then .char '\\' :: .char 'u' :: (hex 4 s.code).map .char
      else .char '\\' :: .char 'u' :: (hex 4 (0xD800 + (s.code - 0x10000) / 0x400)).map .char ++
        .char '\\' :: .char 'u' :: (hex 4 (0xDC00 + (s.code - 0x10000) % 0x400)).map .char := by
  have hne : ∀ c ∈ shortened, s.is c = false := fun c hc => beq_false_of_ne (h c hc)
  simp only [shortened, List.forall_mem_cons] at hne
  obtain ⟨hquote, hslash, hn, hr, ht, hb, hf, -⟩ := hne
  simp only [writeSymbol, hquote, hslash, hn, hr, ht, hb, hf, Bool.false_eq_true, if_false,
    Bool.and_eq_true, decide_eq_true_iff]
  split
  · rfl
  · split
    · rfl
    · exact List.map_append

theorem written_writeSymbol (s : Symbol) : Written s (writeSymbol s) := by
  by_cases h : ∃ c ∈ shortened, s = .char c
  · obtain ⟨c, hc, rfl⟩ := h
    exact written_shortened hc
  have hne : ∀ c ∈ shortened, s ≠ .char c := fun c hc hs => h ⟨c, hc, hs⟩
  rw [writeSymbol_of_notMem hne]
  split
  · next hplain =>
    cases s with
    | stray s =>
      simp only [Symbol.code] at hplain
      omega
    | char c =>
      have hc : Char.ofNat (Symbol.char c).code = c := Char.ofNat_toNat c
      have hnotMem : c ∉ shortened := fun hmem => hne c hmem rfl
      rw [hc]
      exact .plain ⟨⟨c, rfl⟩, hplain.1, hplain.2⟩ (fun heq => hnotMem (heq ▸ by decide))
        fun heq => hnotMem (heq ▸ by decide)
  · split
    · next hlong => exact .long hlong
    · next hlong =>
      cases s with
      | stray s =>
        have hlt := s.isLt
        simp only [Symbol.code] at hlong
        omega
      | char c =>
        have hvalid : c.toNat < 0x110000 := by
          rcases (show c.toNat.isValidChar from c.valid) with h | h
          · omega
          · exact h.2
        simp only [Symbol.code] at hlong ⊢
        have hm : c.toNat - 0x10000 < 0x100000 := by omega
        have hc : Char.ofNat (0x10000 + (c.toNat - 0x10000)) = c := by
          rw [Nat.add_sub_cancel' (Nat.le_of_not_lt hlong), Char.ofNat_toNat]
        exact .pair hm hc

theorem printable_hexDigit {d : Nat} (h : d < 16) : Printable (.char (hexDigit d)) ∧
    hexDigit d ≠ '"' ∧ hexDigit d ≠ '\\' := by
  have hall : ∀ d < 16, (0x20 ≤ (hexDigit d).toNat ∧ (hexDigit d).toNat < 0x7F) ∧
      hexDigit d ≠ '"' ∧ hexDigit d ≠ '\\' := by decide
  obtain ⟨⟨hlow, hhigh⟩, hne⟩ := hall d h
  exact ⟨⟨⟨_, rfl⟩, hlow, hhigh⟩, hne⟩

theorem exists_hexDigit_of_mem {width n : Nat} {c : Char} (h : c ∈ hex width n) :
    ∃ d < 16, c = hexDigit d := by
  induction width generalizing n with
  | zero => cases h
  | succ width ih =>
    obtain h | h := List.mem_append.mp h
    · exact ih h
    · exact ⟨_, Nat.mod_lt _ (by decide), List.mem_singleton.mp h⟩

/-! ## §3 Strings -/

theorem takeBody_plain {c : Char} (hc : Printable (.char c) ∧ c ≠ '"' ∧ c ≠ '\\') (r : Text) :
    takeBody (.char c :: r) = (takeBody r).map fun p => (.char c :: p.1, p.2) := by
  obtain ⟨hprintable, hquote, hslash⟩ := hc
  rw [takeBody.eq_def]
  split
  · simp_all
  · simp_all
  · simp_all
  · rename_i s r' _ _ heq
    cases heq
    rw [if_neg (Nat.not_lt.mpr hprintable.low)]

theorem takeBody_plains {cs : List Char}
    (h : ∀ c ∈ cs, Printable (.char c) ∧ c ≠ '"' ∧ c ≠ '\\') (r : Text) :
    takeBody (cs.map .char ++ r) = (takeBody r).map fun p => (cs.map .char ++ p.1, p.2) := by
  induction cs with
  | nil => simp
  | cons c cs ih =>
    obtain ⟨hc, hcs⟩ := List.forall_mem_cons.mp h
    rw [List.map_cons, List.cons_append, takeBody_plain hc, ih hcs, Option.map_map]
    rfl

theorem takeBody_escape (s : Symbol) (r : Text) :
    takeBody (.char '\\' :: s :: r) = (takeBody r).map fun p => (.char '\\' :: s :: p.1, p.2) := by
  rw [takeBody]

theorem takeBody_hex (n : Nat) (r : Text) :
    takeBody (.char '\\' :: .char 'u' :: (hex 4 n).map .char ++ r) =
      (takeBody r).map fun p => (.char '\\' :: .char 'u' :: (hex 4 n).map .char ++ p.1, p.2) := by
  rw [List.cons_append, List.cons_append, takeBody_escape, takeBody_plains ?_, Option.map_map]
  · rfl
  · intro c hc
    obtain ⟨d, hd, rfl⟩ := exists_hexDigit_of_mem hc
    exact printable_hexDigit hd

/-- No form of a symbol ends the string. -/
theorem takeBody_written {s : Symbol} {w : Text} (h : Written s w) (r : Text) :
    takeBody (w ++ r) = (takeBody r).map fun p => (w ++ p.1, p.2) := by
  cases h with
  | plain printable ne_quote ne_slash => exact takeBody_plain ⟨printable, ne_quote, ne_slash⟩ r
  | short printable resolves => exact takeBody_escape _ r
  | long lt => exact takeBody_hex _ r
  | pair lt resolves =>
    rw [List.append_assoc, takeBody_hex, takeBody_hex, Option.map_map]
    simp [Function.comp_def]

/-- The symbol is the first half of a pair. -/
def IsHigh (s : Symbol) : Prop := 0xD800 ≤ s.code ∧ s.code < 0xDC00

/-- The symbol is the second half of a pair. -/
def IsLow (s : Symbol) : Prop := 0xDC00 ≤ s.code ∧ s.code < 0xE000

instance (s : Symbol) : Decidable (IsHigh s) := inferInstanceAs (Decidable (_ ∧ _))

instance (s : Symbol) : Decidable (IsLow s) := inferInstanceAs (Decidable (_ ∧ _))

/-- The character whose halves two symbols are. -/
def pairOf (s u : Symbol) : Symbol :=
  .char (Char.ofNat (0x10000 + (s.code - 0xD800) * 0x400 + (u.code - 0xDC00)))

/-- The text as it is read back: halves side by side are one character. -/
def joined : Text → Text
  | [] => []
  | [s] => [s]
  | s :: u :: t => if IsHigh s ∧ IsLow u then pairOf s u :: joined t else s :: joined (u :: t)

theorem joined_map_char (cs : List Char) : joined (cs.map .char) = cs.map .char := by
  have hhigh (c : Char) : ¬ IsHigh (.char c) := by
    intro h
    have hlow := h.1
    have hlt := h.2
    have hrange := code_char c
    omega
  induction cs with
  | nil => rfl
  | cons c cs ih =>
    cases cs with
    | nil => rfl
    | cons d cs =>
      rw [List.map_cons, List.map_cons, joined, if_neg fun h => hhigh c h.1]
      exact congrArg _ ih

theorem joined_ofString (w : String) : joined (Text.ofString w) = Text.ofString w :=
  joined_map_char w.toList

/-- The text does not start with the second half of a pair, escaped. -/
def EndsHigh (t : Text) : Prop :=
  ∀ r, t = .char '\\' :: .char 'u' :: r → ∀ m q, takeHex r = some (m, q) → ¬ (0xDC00 ≤ m ∧ m < 0xE000)

theorem endsHigh_nil : EndsHigh [] := nofun

/-- No form of another symbol is taken for the second half of a pair. -/
theorem endsHigh_written {s : Symbol} {w : Text} (h : Written s w) (hs : ¬ IsLow s) (r : Text) :
    EndsHigh (w ++ r) := by
  intro q hq m q' hm hlow
  cases h with
  | plain printable ne_quote ne_slash => exact ne_slash (Symbol.char.inj (List.cons.inj hq).1)
  | short printable resolves =>
    obtain ⟨he, -⟩ := List.cons.inj (List.cons.inj hq).2
    rw [he] at resolves
    cases resolves []
  | long lt =>
    simp only [List.cons_append, List.cons.injEq, true_and] at hq
    rw [← hq, takeHex_hex lt] at hm
    cases hm
    exact hs hlow
  | @pair c n lt resolves =>
    simp only [List.cons_append, List.append_assoc, List.cons.injEq, true_and] at hq
    rw [← hq, takeHex_hex (by omega)] at hm
    cases hm
    omega

theorem takeEscape_long {s : Symbol} (lt : s.code < 0x10000) {r : Text} (h : IsHigh s → EndsHigh r) :
    takeEscape (.char 'u' :: (hex 4 s.code).map .char ++ r) = some (s, r) := by
  rw [List.cons_append, takeEscape, takeHex_hex lt]
  simp only [Option.bind_eq_bind, Option.bind_some, symbolOfCode_code lt]
  split
  · rename_i hhigh
    split
    · rename_i q
      cases hm : takeHex q with
      | none => rfl
      | some p =>
        obtain ⟨m, q'⟩ := p
        exact if_neg (h hhigh q rfl m q' hm)
    · rfl
  · rfl

theorem takeEscape_pair {m : Nat} (lt : m < 0x100000) (r : Text) :
    takeEscape (.char 'u' :: (hex 4 (0xD800 + m / 0x400)).map .char ++
      (.char '\\' :: .char 'u' :: (hex 4 (0xDC00 + m % 0x400)).map .char ++ r)) =
        some (.char (Char.ofNat (0x10000 + m)), r) := by
  have hhigh : 0xD800 ≤ 0xD800 + m / 0x400 ∧ 0xD800 + m / 0x400 < 0xDC00 := by omega
  have hlow : 0xDC00 ≤ 0xDC00 + m % 0x400 ∧ 0xDC00 + m % 0x400 < 0xE000 := by omega
  have hm : 0x10000 + (0xD800 + m / 0x400 - 0xD800) * 0x400 + (0xDC00 + m % 0x400 - 0xDC00) =
      0x10000 + m := by
    omega
  rw [List.cons_append, takeEscape, takeHex_hex (by omega)]
  simp only [Option.bind_eq_bind, Option.bind_some, if_pos hhigh, List.cons_append,
    takeHex_hex (show 0xDC00 + m % 0x400 < 0x10000 by omega), if_pos hlow, hm]
  rfl

theorem unescape_escape {t r : Text} {s : Symbol} (h : takeEscape t = some (s, r)) (fuel : Nat) :
    unescape (fuel + 1) (.char '\\' :: t) = (unescape fuel r).map (s :: ·) := by
  rw [unescape, h]
  exact (Option.map_eq_bind ..).symm

/-- Each form of a symbol resolves to the symbol, unless it is the first half
of a pair and the second follows. -/
theorem unescape_written {s : Symbol} {w : Text} (h : Written s w) (fuel : Nat) {r : Text}
    (hr : IsHigh s → EndsHigh r) : unescape (fuel + 1) (w ++ r) = (unescape fuel r).map (s :: ·) := by
  cases h with
  | plain printable ne_quote ne_slash =>
    rw [List.singleton_append, unescape]
    simpa using ne_slash
  | short printable resolves => exact unescape_escape (resolves r) fuel
  | long lt => exact unescape_escape (takeEscape_long lt hr) fuel
  | pair lt resolves =>
    rw [List.append_assoc]
    exact unescape_escape (resolves ▸ takeEscape_pair lt r) fuel

theorem writeSymbol_surrogate {s : Symbol} (hlow : 0xD800 ≤ s.code) (hhigh : s.code < 0xE000) :
    writeSymbol s = .char '\\' :: .char 'u' :: (hex 4 s.code).map .char := by
  have hne : ∀ c ∈ shortened, s ≠ .char c := by
    rintro c - rfl
    have hrange := code_char c
    omega
  rw [writeSymbol_of_notMem hne, if_neg (by omega), if_pos (by omega)]

/-- The halves of a pair resolve to the character. -/
theorem unescape_halves {s u : Symbol} (hs : IsHigh s) (hu : IsLow u) (fuel : Nat) (r : Text) :
    unescape (fuel + 1) (writeSymbol s ++ (writeSymbol u ++ r)) =
      (unescape fuel r).map (pairOf s u :: ·) := by
  obtain ⟨hs, hs'⟩ := hs
  obtain ⟨hu, hu'⟩ := hu
  generalize hm : (s.code - 0xD800) * 0x400 + (u.code - 0xDC00) = m
  have hfirst : 0xD800 + m / 0x400 = s.code := by omega
  have hsecond : 0xDC00 + m % 0x400 = u.code := by omega
  have hescape := takeEscape_pair (m := m) (by omega) r
  rw [hfirst, hsecond] at hescape
  have hpair : pairOf s u = .char (Char.ofNat (0x10000 + m)) := by
    rw [pairOf, Nat.add_assoc, hm]
  rw [writeSymbol_surrogate hs (by omega), writeSymbol_surrogate (by omega) hu', hpair]
  exact unescape_escape hescape fuel

theorem takeBody_flatMap (t r : Text) :
    takeBody (t.flatMap writeSymbol ++ .char '"' :: r) = some (t.flatMap writeSymbol, r) := by
  induction t with
  | nil => rfl
  | cons s t ih =>
    rw [List.flatMap_cons, List.append_assoc, takeBody_written (written_writeSymbol s), ih]
    rfl

theorem unescape_flatMap {t : Text} {fuel : Nat} (h : t.length < fuel) :
    unescape fuel (t.flatMap writeSymbol) = some (joined t) := by
  obtain ⟨n, rfl⟩ := Nat.exists_eq_succ_of_ne_zero (Nat.ne_zero_of_lt h)
  induction t using joined.induct generalizing n with
  | case1 => rfl
  | case2 s =>
    obtain ⟨k, rfl⟩ := Nat.exists_eq_succ_of_ne_zero (Nat.ne_zero_of_lt (Nat.lt_of_succ_lt_succ h))
    rw [List.flatMap_singleton, ← List.append_nil (writeSymbol s),
      unescape_written (written_writeSymbol s) _ fun _ => endsHigh_nil]
    rfl
  | case3 s u t hhalves ih =>
    rw [List.length_cons, List.length_cons] at h
    obtain ⟨k, rfl⟩ := Nat.exists_eq_succ_of_ne_zero (show n ≠ 0 by omega)
    rw [List.flatMap_cons, List.flatMap_cons, unescape_halves hhalves.1 hhalves.2, ih k (by omega),
      joined, if_pos hhalves]
    rfl
  | case4 s u t hhalves ih =>
    rw [List.length_cons] at h
    obtain ⟨k, rfl⟩ := Nat.exists_eq_succ_of_ne_zero (show n ≠ 0 by omega)
    have hends : IsHigh s → EndsHigh ((u :: t).flatMap writeSymbol) := fun hs =>
      endsHigh_written (written_writeSymbol u) (fun hu => hhalves ⟨hs, hu⟩) _
    rw [List.flatMap_cons, unescape_written (written_writeSymbol s) _ hends, ih k (by omega), joined,
      if_neg hhalves]
    rfl

theorem Written.length_pos {s : Symbol} {w : Text} (h : Written s w) : 0 < w.length := by
  cases h <;> exact Nat.succ_pos _

theorem length_le_flatMap (t : Text) : t.length ≤ (t.flatMap writeSymbol).length := by
  induction t with
  | nil => exact Nat.le_refl 0
  | cons s t ih =>
    have hpos := (written_writeSymbol s).length_pos
    rw [List.flatMap_cons, List.length_append, List.length_cons]
    omega

/-- A text is read as it was written, up to the quote after it and with its
halves joined. -/
theorem takeString_written (t r : Text) :
    takeString (t.flatMap writeSymbol ++ .char '"' :: r) = some (joined t, r) := by
  have hunescape := unescape_flatMap (Nat.lt_succ_of_le (length_le_flatMap t))
  rw [takeString, takeBody_flatMap]
  simp only [Option.bind_eq_bind, Option.bind_some, hunescape]
  rfl

/-! ## §4 Numbers -/

theorem digit?_of_isDigit {c : Char} (h : c.isDigit = true) :
    digit? (.char c) = some (c.toNat - '0'.toNat) := by
  obtain ⟨hlow, hhigh⟩ := Char.isDigit_iff_toNat.mp h
  exact if_pos ⟨hlow, hhigh⟩

/-- A comma or a closing brace stands at the start, as after every value of a
mapping. -/
def EndsValue (r : Text) : Prop := ∃ c t, r = .char c :: t ∧ (c = ',' ∨ c = '\x7d')

theorem takeDigits_append {cs : List Char} (h : ∀ c ∈ cs, c.isDigit = true) {r : Text}
    (hr : EndsValue r) :
    takeDigits (cs.map .char ++ r) = (cs.map fun c => c.toNat - '0'.toNat, r) := by
  induction cs with
  | nil =>
    obtain ⟨c, t, rfl, rfl | rfl⟩ := hr <;> rfl
  | cons c cs ih =>
    obtain ⟨hc, hcs⟩ := List.forall_mem_cons.mp h
    rw [List.map_cons, List.cons_append, takeDigits, digit?_of_isDigit hc, ih hcs]
    rfl

theorem takeDigits_ofNat (n : Nat) {r : Text} (hr : EndsValue r) :
    takeDigits (Text.ofNat n ++ r) = (digitsOf n, r) := by
  rw [ofNat_eq_map]
  exact takeDigits_append (fun c hc => Nat.isDigit_of_mem_toDigits (by decide) (by decide) hc) hr

theorem digitsOf_of_lt {n : Nat} (h : n < 10) : digitsOf n = [n] := by
  have hvalue : ∀ n < 10, n.digitChar.toNat - '0'.toNat = n := by decide
  rw [digitsOf, Nat.toDigits_of_lt_base h, List.map_singleton, hvalue n h]

theorem digitsOf_of_le {n : Nat} (h : 10 ≤ n) : digitsOf n = digitsOf (n / 10) ++ [n % 10] := by
  have hlast := digitsOf_of_lt (Nat.mod_lt n (show 0 < 10 by decide))
  rw [digitsOf, Nat.toDigits_of_lt_base (Nat.mod_lt n (by decide))] at hlast
  rw [digitsOf, Nat.toDigits_of_base_le (by decide) h, List.map_append, hlast, digitsOf]

/-- A leading zero stands alone. -/
theorem eq_nil_of_digitsOf {n : Nat} {ds : List Nat} (h : digitsOf n = 0 :: ds) : ds = [] := by
  have hpos {n : Nat} (hn : 0 < n) : (digitsOf n).head? ≠ some 0 := by
    induction n using Nat.strongRecOn with
    | ind n ih =>
      by_cases hlt : n < 10
      · rw [digitsOf_of_lt hlt]
        simpa using Nat.ne_of_gt hn
      · rw [digitsOf_of_le (Nat.le_of_not_lt hlt), List.head?_append_of_ne_nil _ (digitsOf_ne_nil _)]
        exact ih (n / 10) (by omega) (by omega)
  cases n with
  | zero =>
    rw [digitsOf_of_lt (by decide)] at h
    exact (List.cons.inj h).2.symm
  | succ n => exact absurd (congrArg List.head? h) (hpos (Nat.succ_pos n))

/-- A written number starts with a digit. -/
theorem exists_digit_ofNat (n : Nat) :
    ∃ c cs, c.isDigit = true ∧ Text.ofNat n = .char c :: cs := by
  obtain ⟨c, cs, hcs⟩ := List.exists_cons_of_ne_nil (Nat.toDigits_ne_nil (b := 10) (n := n))
  refine ⟨c, cs.map .char, ?_, by rw [ofNat_eq_map, hcs, List.map_cons]⟩
  exact Nat.isDigit_of_mem_toDigits (by decide) (by decide) (hcs ▸ List.mem_cons_self)

/-- A number that is not too long is read as it was written. -/
theorem takeNumber_ofNat {n : Nat} (h : (Text.ofNat n).length ≤ digitLimit) {r : Text}
    (hr : EndsValue r) : takeNumber (Text.ofNat n ++ r) = .ok (.int n, r) := by
  have hdigits := takeDigits_ofNat n hr
  have hfinish : takeNumber.finish false (digitsOf n) r = .ok (.int n, r) := by
    have hlength := length_digitsOf n
    have hvalue := ofDigits_digitsOf n
    obtain ⟨c, t, rfl, rfl | rfl⟩ := hr
    · simp [takeNumber.finish, takeExponent, Symbol.is, hvalue, hlength, Nat.not_lt.mpr h]
    · simp [takeNumber.finish, takeExponent, Symbol.is, hvalue, hlength, Nat.not_lt.mpr h]
  obtain ⟨c, cs, hc, hcons⟩ := exists_digit_ofNat n
  rw [hcons, List.cons_append] at hdigits ⊢
  rw [takeNumber]
  · rw [hdigits]
    split
    · rename_i heq
      exact absurd (Prod.mk.inj heq).1 (digitsOf_ne_nil n)
    · rename_i heq
      cases eq_nil_of_digitsOf (Prod.mk.inj heq).1
    · rename_i heq
      cases heq
      exact hfinish
  · -- no digit is a sign
    rintro q hq
    cases hq
    exact absurd hc (by decide)

/-! ## §5 Values -/

/-- A value that stands in the log of edits. -/
inductive Loggable : Value → Prop
  | null : Loggable .null
  | bool (b : Bool) : Loggable (.bool b)
  | int {n : Nat} (short : (Text.ofNat n).length ≤ digitLimit) : Loggable (.int n)
  | text (t : Text) : Loggable (.text t)

/-- The value as it is read back. -/
def reread : Value → Value
  | .text t => .text (joined t)
  | v => v

theorem write_int (n : Nat) : write (.int n) = Text.ofNat n := by
  rw [write]
  rfl

theorem write_text (t : Text) :
    write (.text t) = .char '"' :: (t.flatMap writeSymbol ++ [.char '"']) := by
  rw [write]
  rfl

theorem ne_of_isDigit {c a : Char} (hc : c.isDigit = true) (ha : a.isDigit = false) : c ≠ a := by
  rintro rfl
  rw [ha] at hc
  cases hc

/-- No word starts with a digit. -/
theorem takeWord_digit {c : Char} (h : c.isDigit = true) (q : Text) :
    takeWord (.char c :: q) = .error .malformed := by
  have hne {a : Char} (ha : a.isDigit = false) : a ≠ c := (ne_of_isDigit h ha).symm
  simp [takeWord, Text.ofString, hne]

/-- A value is read as it was written, up to the symbol that ends it. -/
theorem takeValue_write {v : Value} (h : Loggable v) {r : Text} (hr : EndsValue r)
    (room fuel : Nat) : takeValue room (fuel + 1) (write v ++ r) = .ok (reread v, r) := by
  cases h with
  | null => rfl
  | bool b => cases b <;> rfl
  | text t =>
    rw [write_text, List.cons_append, List.append_assoc, takeValue, List.singleton_append,
      takeString_written]
    rfl
  | @int n short =>
    obtain ⟨c, cs, hc, hcons⟩ := exists_digit_ofNat n
    have hnumber := takeNumber_ofNat short hr
    have hdigit : (digit? (.char c)).isSome = true := by
      rw [digit?_of_isDigit hc]
      rfl
    rw [write_int]
    rw [hcons, List.cons_append] at hnumber ⊢
    rw [takeValue]
    · rw [takeWord_digit hc, hdigit, Bool.or_true]
      exact hnumber
    all_goals exact fun h => ne_of_isDigit hc rfl (Symbol.char.inj h)

/-- A written value starts with no white space. -/
theorem skip_write {v : Value} (h : Loggable v) (r : Text) : skip (write v ++ r) = write v ++ r := by
  have hhead : ∃ s t, isSpace s = false ∧ write v = s :: t := by
    cases h with
    | null => exact ⟨_, _, rfl, rfl⟩
    | bool b => cases b <;> exact ⟨_, _, rfl, rfl⟩
    | text t => exact ⟨_, _, rfl, write_text t⟩
    | @int n short =>
      obtain ⟨c, cs, hc, hcons⟩ := exists_digit_ofNat n
      refine ⟨.char c, cs, ?_, (write_int n).trans hcons⟩
      simp [isSpace, Symbol.is, ne_of_isDigit hc]
  obtain ⟨s, t, hs, hcons⟩ := hhead
  rw [hcons, List.cons_append, skip, List.dropWhile_cons_of_neg (by simp [hs])]

/-! ## §6 Mappings -/

/-- Entries whose keys are texts. -/
def keyed (fields : List (Text × Value)) : List (Value × Value) :=
  fields.map fun e => (.text e.1, e.2)

theorem notMem_keys {e : Text × Value} {acc fields : List (Text × Value)}
    (h : ((acc ++ e :: fields).map Prod.fst).Nodup) : e.1 ∉ acc.map Prod.fst := by
  rw [List.map_append, List.map_cons] at h
  exact fun hmem => (List.nodup_append.mp h).2.2 _ hmem _ List.mem_cons_self rfl

/-- A value at a new key comes last. -/
theorem putEntry_keyed {fields : List (Text × Value)} {key : Text} (h : key ∉ fields.map Prod.fst)
    (v : Value) : putEntry (keyed fields) key v = keyed (fields ++ [(key, v)]) := by
  have hnone : ((keyed fields).any fun e => Value.same e.1 (.text key)) = false := by
    rw [List.any_eq_false]
    intro e he hsame
    obtain ⟨f, hf, rfl⟩ := List.mem_map.mp he
    rw [Value.same, beq_iff_eq] at hsame
    exact h (hsame ▸ List.mem_map_of_mem hf)
  rw [putEntry, Value.put, hnone, if_neg Bool.false_ne_true, keyed, keyed, List.map_append]
  rfl

theorem foldl_put_keyed {acc fields : List (Text × Value)}
    (h : ((acc ++ fields).map Prod.fst).Nodup) :
    (keyed fields).foldl (fun es e => Value.put es e.1 e.2) (keyed acc) = keyed (acc ++ fields) := by
  induction fields generalizing acc with
  | nil => rw [List.append_nil]; rfl
  | cons e fields ih =>
    have hmore : acc ++ e :: fields = acc ++ [e] ++ fields := by simp
    have hput : Value.put (keyed acc) (.text e.1) e.2 = keyed (acc ++ [e]) :=
      putEntry_keyed (notMem_keys h) e.2
    rw [hmore] at h ⊢
    rw [← ih h, ← hput]
    rfl

/-- The field as it is read back. -/
def rereadField (e : Text × Value) : Text × Value := (e.1, reread e.2)

/-- One entry as it is written. -/
def entryText (e : Text × Value) : Text := writeText e.1 ++ ": " ++ write e.2

theorem writeEntries_keyed_singleton (e : Text × Value) : writeEntries (keyed [e]) = entryText e := by
  rw [keyed, List.map_singleton, writeEntries]
  rfl

theorem writeEntries_keyed_cons_cons (e f : Text × Value) (fields : List (Text × Value)) :
    writeEntries (keyed (e :: f :: fields)) =
      entryText e ++ .char ',' :: .char ' ' :: writeEntries (keyed (f :: fields)) := by
  rw [keyed, List.map_cons, List.map_cons, writeEntries]
  · exact List.append_assoc (entryText e) _ _
  · exact nofun

theorem entryText_append (e : Text × Value) (r : Text) :
    entryText e ++ r = .char '"' :: (e.1.flatMap writeSymbol ++
      .char '"' :: .char ':' :: .char ' ' :: (write e.2 ++ r)) := by
  simp [entryText, writeText, Text.ofString]

/-- An entry is read as it was written, and what ends it decides whether more
are read. -/
theorem takeEntries_entry {e : Text × Value} (hkey : joined e.1 = e.1) (h : Loggable e.2) {r : Text}
    (hr : EndsValue r) (room fuel : Nat) (acc : List (Value × Value)) :
    takeEntries room (fuel + 2) acc (entryText e ++ r) =
      match skip r with
      | .char ',' :: r => takeEntries room (fuel + 1) (putEntry acc e.1 (reread e.2)) (skip r)
      | .char '\x7d' :: r => .ok (.mapping (putEntry acc e.1 (reread e.2)), r)
      | _ => .error .malformed := by
  have hskip : skip (.char ' ' :: (write e.2 ++ r)) = write e.2 ++ r := skip_write h r
  have hcolon (q : Text) : skip (.char ':' :: q) = .char ':' :: q := rfl
  rw [entryText_append, takeEntries, takeString_written, hkey]
  simp only [hcolon, hskip, takeValue_write h hr]
  rfl

/-- The entries of a written mapping start with a quote. -/
theorem exists_quote_writeEntries (e : Text × Value) (fields : List (Text × Value)) :
    ∃ t, writeEntries (keyed (e :: fields)) = .char '"' :: t := by
  cases fields with
  | nil => exact ⟨_, writeEntries_keyed_singleton e⟩
  | cons f fields => exact ⟨_, writeEntries_keyed_cons_cons e f fields⟩

theorem skip_writeEntries (e : Text × Value) (fields : List (Text × Value)) (r : Text) :
    skip (.char ' ' :: (writeEntries (keyed (e :: fields)) ++ r)) =
      writeEntries (keyed (e :: fields)) ++ r := by
  obtain ⟨t, ht⟩ := exists_quote_writeEntries e fields
  rw [ht]
  rfl

theorem takeEntries_write {e : Text × Value} {acc fields : List (Text × Value)}
    (hkeys : ((acc ++ e :: fields).map Prod.fst).Nodup)
    (hplain : ∀ f ∈ e :: fields, joined f.1 = f.1) (h : ∀ f ∈ e :: fields, Loggable f.2)
    {fuel : Nat} (hfuel : fields.length < fuel) (room : Nat) (r : Text) :
    takeEntries room (fuel + 1) (keyed acc) (writeEntries (keyed (e :: fields)) ++ .char '\x7d' :: r) =
      .ok (.mapping (keyed (acc ++ (e :: fields).map rereadField)), r) := by
  have hput {acc fields : List (Text × Value)} {e : Text × Value}
      (hkeys : ((acc ++ e :: fields).map Prod.fst).Nodup) :
      putEntry (keyed acc) e.1 (reread e.2) = keyed (acc ++ [rereadField e]) :=
    putEntry_keyed (notMem_keys hkeys) _
  -- What is already read is generalized. A key that is not in it is put last,
  -- which is why no key may occur twice.
  induction fields generalizing e acc fuel with
  | nil =>
    obtain ⟨fuel, rfl⟩ := Nat.exists_eq_succ_of_ne_zero (Nat.ne_zero_of_lt hfuel)
    rw [writeEntries_keyed_singleton,
      takeEntries_entry (hplain e List.mem_cons_self) (h e List.mem_cons_self) ⟨_, _, rfl, .inr rfl⟩]
    simp only [hput hkeys]
    rfl
  | cons f fields ih =>
    obtain ⟨fuel, rfl⟩ := Nat.exists_eq_succ_of_ne_zero (Nat.ne_zero_of_lt hfuel)
    have hmore : acc ++ (e :: f :: fields).map rereadField =
        acc ++ [rereadField e] ++ (f :: fields).map rereadField := by simp
    have hkeys' : ((acc ++ [rereadField e] ++ f :: fields).map Prod.fst).Nodup := by
      simpa [rereadField] using hkeys
    have hcomma (q : Text) : skip (.char ',' :: q) = .char ',' :: q := rfl
    rw [writeEntries_keyed_cons_cons, List.append_assoc, List.cons_append, List.cons_append,
      takeEntries_entry (hplain e List.mem_cons_self) (h e List.mem_cons_self) ⟨_, _, rfl, .inl rfl⟩,
      hcomma]
    simp only [hput hkeys, skip_writeEntries]
    rw [hmore]
    exact ih hkeys' (fun g hg => hplain g (List.mem_cons_of_mem e hg))
      (fun g hg => h g (List.mem_cons_of_mem e hg)) (Nat.lt_of_succ_lt_succ hfuel)

theorem length_le_writeEntries (fields : List (Text × Value)) :
    fields.length ≤ (writeEntries (keyed fields)).length := by
  have hentry (e : Text × Value) : 0 < (entryText e).length := Nat.succ_pos _
  induction fields with
  | nil => exact Nat.zero_le _
  | cons e fields ih =>
    cases fields with
    | nil =>
      rw [writeEntries_keyed_singleton]
      exact hentry e
    | cons f fields =>
      have he := hentry e
      simp only [writeEntries_keyed_cons_cons, List.length_append, List.length_cons] at ih ⊢
      omega

theorem write_mapping (es : List (Value × Value)) :
    write (.mapping es) = .char '\x7b' :: (writeEntries es ++ [.char '\x7d']) := by
  rw [write]
  rfl

/-- A mapping of different texts to values is read as it was written, with the
halves in its values joined. -/
theorem read_write {fields : List (Text × Value)} (hne : fields ≠ [])
    (hkeys : (fields.map Prod.fst).Nodup) (hplain : ∀ f ∈ fields, joined f.1 = f.1)
    (h : ∀ f ∈ fields, Loggable f.2) :
    read (write (.mapping (keyed fields))) = .ok (.mapping (keyed (fields.map rereadField))) := by
  obtain ⟨e, fields, rfl⟩ := List.exists_cons_of_ne_nil hne
  have hvalue {fuel : Nat} (hfuel : fields.length < fuel) :
      takeValue depthLimit (fuel + 2) (write (.mapping (keyed (e :: fields)))) =
        .ok (.mapping (keyed ((e :: fields).map rereadField)), []) := by
    have hentries := takeEntries_write (show (([] ++ e :: fields).map Prod.fst).Nodup from hkeys)
      hplain h hfuel (depthLimit - 1) []
    obtain ⟨t, ht⟩ := exists_quote_writeEntries e fields
    rw [write_mapping, takeValue, if_neg (by decide)]
    rw [ht] at hentries ⊢
    exact hentries
  have htext := write_mapping (keyed (e :: fields))
  have hskip : skip (write (.mapping (keyed (e :: fields)))) =
      write (.mapping (keyed (e :: fields))) := by
    rw [htext]
    rfl
  obtain ⟨fuel, hfuel, hlt⟩ : ∃ fuel,
      2 * (write (.mapping (keyed (e :: fields)))).length + 1 = fuel + 2 ∧ fields.length < fuel := by
    have hlength : fields.length < (writeEntries (keyed (e :: fields))).length :=
      length_le_writeEntries (e :: fields)
    -- The mapping and each of its entries take at least one symbol.
    refine ⟨2 * (write (.mapping (keyed (e :: fields)))).length - 1, ?_⟩
    rw [htext, List.length_cons, List.length_append]
    omega
  rw [read, hskip, hfuel, hvalue hlt, htext]
  rfl

/-! ## §7 One line -/

theorem printable_ofString {w : String}
    (h : w.toList.all (fun c => decide (0x20 ≤ c.toNat) && decide (c.toNat < 0x7F)) = true) :
    ∀ a ∈ Text.ofString w, Printable a := by
  intro a ha
  obtain ⟨c, hc, rfl⟩ := List.mem_map.mp ha
  obtain ⟨hlow, hhigh⟩ := Bool.and_eq_true_iff.mp (List.all_eq_true.mp h c hc)
  exact ⟨⟨c, rfl⟩, of_decide_eq_true hlow, of_decide_eq_true hhigh⟩

theorem Written.printable {s : Symbol} {w : Text} (h : Written s w) : ∀ a ∈ w, Printable a := by
  have hescape := printable_ofString (w := "\\u") (by decide)
  have hhex {n : Nat} : ∀ a ∈ .char '\\' :: .char 'u' :: (hex 4 n).map .char, Printable a := by
    have hdigits : ∀ a ∈ (hex 4 n).map Symbol.char, Printable a := by
      refine List.forall_mem_map.mpr fun c hc => ?_
      obtain ⟨d, hd, rfl⟩ := exists_hexDigit_of_mem hc
      exact (printable_hexDigit hd).1
    exact List.forall_mem_append.mpr ⟨hescape, hdigits⟩
  cases h with
  | plain printable ne_quote ne_slash => exact List.forall_mem_singleton.mpr printable
  | short printable resolves =>
    exact List.forall_mem_cons.mpr
      ⟨hescape _ List.mem_cons_self, List.forall_mem_singleton.mpr printable⟩
  | long lt => exact hhex
  | pair lt resolves => exact List.forall_mem_append.mpr ⟨hhex, hhex⟩

theorem printable_writeText (t : Text) : ∀ a ∈ writeText t, Printable a := by
  have hquote := printable_ofString (w := "\"") (by decide)
  have hbody : ∀ a ∈ t.flatMap writeSymbol, Printable a := by
    intro a ha
    obtain ⟨s, -, ha⟩ := List.mem_flatMap.mp ha
    exact (written_writeSymbol s).printable a ha
  exact List.forall_mem_append.mpr ⟨List.forall_mem_append.mpr ⟨hquote, hbody⟩, hquote⟩

theorem printable_ofList {cs : List Char} (h : ∀ c ∈ cs, Printable (.char c)) :
    ∀ a ∈ Text.ofString (String.ofList cs), Printable a := by
  rw [Text.ofString, String.toList_ofList]
  exact List.forall_mem_map.mpr h

theorem printable_append {u v : String} (hu : ∀ a ∈ Text.ofString u, Printable a)
    (hv : ∀ a ∈ Text.ofString v, Printable a) : ∀ a ∈ Text.ofString (u ++ v), Printable a := by
  rw [Text.ofString, String.toList_append, List.map_append]
  exact List.forall_mem_append.mpr ⟨hu, hv⟩

theorem printable_ofNat (n : Nat) : ∀ a ∈ Text.ofNat n, Printable a := by
  rw [ofNat_eq_map]
  intro a ha
  obtain ⟨c, hc, rfl⟩ := List.mem_map.mp ha
  have hdigit := Nat.isDigit_of_mem_toDigits (by decide) (by decide) hc
  obtain ⟨hlow, hhigh⟩ := Char.isDigit_iff_toNat.mp hdigit
  exact ⟨⟨c, rfl⟩, Nat.le_trans (by decide) hlow, Nat.lt_of_le_of_lt hhigh (by decide)⟩

theorem printable_ofInt (i : Int) : ∀ a ∈ Text.ofInt i, Printable a := by
  cases i with
  | ofNat n => exact printable_ofNat n
  | negSucc n =>
    exact List.forall_mem_cons.mpr ⟨⟨⟨_, rfl⟩, by decide, by decide⟩, printable_ofNat (n + 1)⟩

theorem render_negative (m : Nat) (e : Int) :
    (Binary64.finite true m e).render = "-" ++ (Binary64.finite false m e).render := by
  rw [Binary64.render, Binary64.render, if_pos rfl, if_neg Bool.false_ne_true]

/-- A double is written in digits, a point, an exponent and a sign, or in a word. -/
theorem printable_render (x : Binary64) : ∀ a ∈ Text.ofString x.render, Printable a := by
  have hdigit {n : Nat} : ∀ c ∈ (Nat.repr n).toList, Printable (.char c) := fun c hc =>
    printable_ofNat n _ (List.mem_map_of_mem hc)
  have hpoint {w : String} (h : w ∈ ["0.", ".", ".0", "e-", "e+"]) : ∀ a ∈ Text.ofString w, Printable a := by
    have hall : ∀ w ∈ ["0.", ".", ".0", "e-", "e+"], w.toList.all
        (fun c => decide (0x20 ≤ c.toNat) && decide (c.toNat < 0x7F)) = true := by decide
    exact printable_ofString (hall w h)
  have hzeros {n : Nat} : ∀ a ∈ Text.ofString (String.ofList (List.replicate n '0')), Printable a :=
    printable_ofList fun c hc => by
      rw [List.eq_of_mem_replicate hc]
      exact ⟨⟨_, rfl⟩, by decide, by decide⟩
  have hunsigned (m : Nat) (e : Int) :
      ∀ a ∈ Text.ofString (Binary64.finite false m e).render, Printable a := by
    generalize hx : Binary64.finite false m e = x
    fun_cases Binary64.render x with
    | case5 _ m e body _ =>
      unfold body
      split
      · exact printable_ofString (by decide)
      · split
        rename_i digits k _
        dsimp only
        split
        · split
          · exact printable_append (printable_append (hpoint (by decide)) hzeros) (printable_ofNat digits)
          · split
            · exact printable_append (printable_append (printable_ofNat digits) hzeros) (hpoint (by decide))
            · exact printable_append (printable_append
                (printable_ofList fun c hc => hdigit c (List.mem_of_mem_take hc)) (hpoint (by decide)))
                (printable_ofList fun c hc => hdigit c (List.mem_of_mem_drop hc))
        · refine printable_append (printable_append ?_ ?_) ?_
          · have hds : ∀ c ∈ (Nat.repr digits).toList, Printable (.char c) := hdigit
            generalize (Nat.repr digits).toList = ds at hds ⊢
            split
            · exact printable_ofList hds
            · obtain ⟨hd, hr⟩ := List.forall_mem_cons.mp hds
              exact printable_ofList (List.forall_mem_cons.mpr
                ⟨hd, List.forall_mem_cons.mpr ⟨⟨⟨_, rfl⟩, by decide, by decide⟩, hr⟩⟩)
            · exact printable_ofList hds
          · split
            · exact hpoint (by decide)
            · exact hpoint (by decide)
          · split
            · exact printable_append (printable_ofString (by decide)) (printable_ofNat _)
            · exact printable_ofNat _
    | _ => cases hx
  cases x with
  | nan => exact printable_ofString (w := "nan") (by decide)
  | infinite s =>
    cases s
    · exact printable_ofString (w := "inf") (by decide)
    · exact printable_ofString (w := "-inf") (by decide)
  | finite s m e =>
    cases s
    · exact hunsigned m e
    · rw [render_negative]
      exact printable_append (printable_ofString (by decide)) (hunsigned m e)
theorem printable_writeFloat (x : Binary64) : ∀ a ∈ writeFloat x, Printable a := by
  cases x with
  | nan => exact printable_ofString (w := "NaN") (by decide)
  | infinite s =>
    cases s
    · exact printable_ofString (w := "Infinity") (by decide)
    · exact printable_ofString (w := "-Infinity") (by decide)
  | finite s m e => exact printable_render _

theorem printable_between {u v t : Text} (hu : ∀ a ∈ u, Printable a) (ht : ∀ a ∈ t, Printable a)
    (hv : ∀ a ∈ v, Printable a) : ∀ a ∈ u ++ t ++ v, Printable a :=
  List.forall_mem_append.mpr ⟨List.forall_mem_append.mpr ⟨hu, ht⟩, hv⟩

mutual

/-- What is written of a value is printable ASCII. -/
theorem printable_write : (v : Value) → ∀ a ∈ write v, Printable a
  | .null => printable_ofString (w := "null") (by decide)
  | .bool true => printable_ofString (w := "true") (by decide)
  | .bool false => printable_ofString (w := "false") (by decide)
  | .int i => printable_ofInt i
  | .float x => printable_writeFloat x
  | .text t => printable_writeText t
  | .list xs | .tuple xs | .set xs =>
    printable_between (printable_ofString (w := "[") (by decide)) (printable_writeAll xs)
      (printable_ofString (w := "]") (by decide))
  | .mapping es =>
    printable_between (printable_ofString (w := "\x7b") (by decide)) (printable_writeEntries es)
      (printable_ofString (w := "\x7d") (by decide))
  | .bytes _ | .date _ | .moment _ | .recurrence _ => printable_writeText _

theorem printable_writeAll : (xs : List Value) → ∀ a ∈ writeAll xs, Printable a
  | [] => nofun
  | [x] => printable_write x
  | x :: y :: xs =>
    printable_between (printable_write x) (printable_ofString (w := ", ") (by decide))
      (printable_writeAll (y :: xs))

theorem printable_writeEntries : (es : List (Value × Value)) → ∀ a ∈ writeEntries es, Printable a
  | [] => nofun
  | [(k, v)] =>
    printable_between (printable_writeText (keyText k)) (printable_ofString (w := ": ") (by decide))
      (printable_write v)
  | (k, v) :: e :: es =>
    printable_between (printable_between (printable_writeText (keyText k))
      (printable_ofString (w := ": ") (by decide)) (printable_write v))
      (printable_ofString (w := ", ") (by decide)) (printable_writeEntries (e :: es))

end

/-- White space inside a text that has none at its ends is not trimmed. -/
theorem trim_write_mapping (es : List (Value × Value)) :
    trim (write (.mapping es)) = write (.mapping es) := by
  have hkeep (c : Char) (hc : (Symbol.char c).isSpace = false) (t : Text) :
      (Symbol.char c :: t).dropWhile Symbol.isSpace = .char c :: t :=
    List.dropWhile_cons_of_neg (by rw [hc]; exact Bool.false_ne_true)
  rw [write_mapping, trim, trimStart, hkeep _ (by decide +kernel), trimEnd, ← List.cons_append,
    List.reverse_append, List.reverse_singleton, List.singleton_append, hkeep _ (by decide +kernel),
    List.reverse_cons, List.reverse_reverse]

end Json

end Amend
