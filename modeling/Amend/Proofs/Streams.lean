/-
Amend.Proofs.Streams — ASCII text is read from a stream as it was written.

An ASCII symbol is one byte, which is decoded to the symbol, so the bytes of
an ASCII text are UTF-8. A stream of them gives the text (`read_spec`), and
without carriage returns the line breaks stay as they are (`read_ascii`).

  §1 Bytes of ASCII symbols.
  §2 Streams.
-/
import Amend.Proofs.Decoding

namespace Amend

/-! ## §1 Bytes of ASCII symbols -/

/-- A character of ASCII. -/
def Symbol.Ascii (s : Symbol) : Prop := ∃ c : Char, s = .char c ∧ c.toNat < 0x80

namespace Utf8

variable {s : Symbol} {t : Text}

/-- An ASCII symbol is one byte, which is read as the symbol. -/
theorem exists_byte (h : s.Ascii) :
    ∃ b, encodeSymbol s = [b] ∧ ∀ rest, ∃ c, s = .char c ∧ next b rest = (.char c, 0) := by
  obtain ⟨c, rfl, hc⟩ := h
  have hbyte : (UInt8.ofNat c.toNat).toNat = c.toNat := by
    rw [UInt8.toNat_ofNat']
    omega
  have hlow : UInt8.ofNat c.toNat < 0x80 := by
    rw [UInt8.lt_iff_toNat_lt, hbyte]
    exact hc
  refine ⟨.ofNat c.toNat, ?_, fun rest => ⟨c, rfl, ?_⟩⟩
  · rw [encodeSymbol, encodeChar, if_pos hc]
  · unfold next
    rw [if_pos hlow, hbyte, Char.ofNat_toNat]

theorem decodeStrict_encode (h : ∀ s ∈ t, s.Ascii) : decodeStrict (encode t) = .ok t := by
  have hread (pos : Nat) : readPieces pos (pieces (encode t)) = .ok t := by
    induction t generalizing pos with
    | nil => rfl
    | cons s t ih =>
      obtain ⟨hs, ht⟩ := List.forall_mem_cons.mp h
      obtain ⟨b, hb, hnext⟩ := exists_byte hs
      obtain ⟨c, rfl, hc⟩ := hnext (encode t)
      rw [encode_cons, hb, List.singleton_append, pieces, piecesFrom, hc]
      dsimp only
      rw [readPieces, ← pieces, ih ht]
      rfl
  exact hread 0

end Utf8

/-! ## §2 Streams -/

namespace Stream

theorem universal_eq_self {t : Text} (h : cr ∉ t) : Text.universal t = t := by
  induction t with
  | nil => rfl
  | cons s t ih =>
    rw [List.mem_cons, not_or] at h
    rw [Text.universal, if_neg (Ne.symm h.1), ih h.2]

/-- ASCII text without carriage returns is read as it was written. -/
theorem read_ascii {t : Text} (h : ∀ s ∈ t, s.Ascii) (hcr : cr ∉ t) :
    read (Utf8.encode t) = (t, none) := by
  have hspec := read_spec (Utf8.encode t)
  rw [Utf8.strict?, Utf8.decodeStrict_encode h] at hspec
  exact hspec.trans (by rw [universal_eq_self hcr])

end Stream

end Amend
