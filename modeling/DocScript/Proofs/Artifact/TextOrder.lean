import DocScript.Artifact.Writer

/-! # The order of texts and the order of their bytes

The bytes of a text begin with the bytes of its first character, and the bytes of a
greater character are greater. So texts are ordered by their bytes as they are ordered
by their characters.
-/

namespace DocScript.Artifact

open String (utf8EncodeChar)

theorem textBytes_eq (text : String) : textBytes text = text.toList.flatMap utf8EncodeChar := by
  rw [textBytes, String.toUTF8_eq_toByteArray, ← String.utf8Encode_toList, List.utf8Encode]
  simp

theorem ofNat_cons_lt {a b : Nat} {s t : List UInt8} (h : a < b ∨ a = b ∧ s < t)
    (hb : b < 256) : UInt8.ofNat a :: s < UInt8.ofNat b :: t := by
  have ha : a < 256 := by omega
  rw [List.cons_lt_cons_iff, UInt8.lt_iff_toNat_lt, UInt8.toNat_ofNat', UInt8.toNat_ofNat',
    Nat.mod_eq_of_lt ha, Nat.mod_eq_of_lt hb]
  exact h.imp_right fun ⟨hsame, hrest⟩ => ⟨congrArg _ hsame, hrest⟩

/-- A first digit and the digits behind it: those count only if the first digits are the same. -/
theorem ofNat_digit_lt {a b v w : Nat} {s t : List UInt8} (hb : b < 256)
    (h : a < b ∨ a = b ∧ v < w) (hrest : v < w → s < t) :
    UInt8.ofNat a :: s < UInt8.ofNat b :: t :=
  ofNat_cons_lt (h.imp_right fun ⟨hsame, hlt⟩ => ⟨hsame, hrest hlt⟩) hb

/-- The bytes of a greater character are greater, whatever comes behind the characters. -/
theorem utf8EncodeChar_append_lt {c d : Char} (h : c < d) (s t : List UInt8) :
    utf8EncodeChar c ++ s < utf8EncodeChar d ++ t := by
  have hval : c.val.toNat < d.val.toNat := h
  have hmax : d.val.toNat < 0x110000 := by
    have hvalid := d.valid
    simp only [UInt32.isValidChar, Nat.isValidChar] at hvalid
    omega
  unfold utf8EncodeChar
  generalize c.val.toNat = v at *
  generalize d.val.toNat = w at *
  dsimp only
  -- By the number of bytes of the smaller character. If the other one has more of them, then the
  -- first bytes decide; otherwise the digits to base 64 do.
  by_cases hone : v ≤ 0x7f
  · rw [if_pos hone]
    split
    · exact ofNat_cons_lt (.inl hval) (by omega)
    · split
      · exact ofNat_cons_lt (.inl (by omega)) (by omega)
      · split <;> exact ofNat_cons_lt (.inl (by omega)) (by omega)
  rw [if_neg hone, if_neg (show ¬ w ≤ 0x7f by omega)]
  by_cases htwo : v ≤ 0x7ff
  · rw [if_pos htwo]
    split
    · refine ofNat_digit_lt (v := v % 64) (w := w % 64) (by omega) (by omega) fun hlast => ?_
      exact ofNat_cons_lt (.inl (by omega)) (by omega)
    · split <;> exact ofNat_cons_lt (.inl (by omega)) (by omega)
  rw [if_neg htwo, if_neg (show ¬ w ≤ 0x7ff by omega)]
  by_cases hthree : v ≤ 0xffff
  · rw [if_pos hthree]
    split
    · refine ofNat_digit_lt (v := v % 4096) (w := w % 4096) (by omega) (by omega) fun hlow => ?_
      refine ofNat_digit_lt (v := v % 64) (w := w % 64) (by omega) (by omega) fun hlast => ?_
      exact ofNat_cons_lt (.inl (by omega)) (by omega)
    · exact ofNat_cons_lt (.inl (by omega)) (by omega)
  rw [if_neg hthree, if_neg (show ¬ w ≤ 0xffff by omega)]
  refine ofNat_digit_lt (v := v % 262144) (w := w % 262144) (by omega) (by omega) fun hlow => ?_
  refine ofNat_digit_lt (v := v % 4096) (w := w % 4096) (by omega) (by omega) fun hlow => ?_
  refine ofNat_digit_lt (v := v % 64) (w := w % 64) (by omega) (by omega) fun hlast => ?_
  exact ofNat_cons_lt (.inl (by omega)) (by omega)

theorem flatMap_utf8EncodeChar_lt {c d : List Char} (h : List.Lex (· < ·) c d) :
    c.flatMap utf8EncodeChar < d.flatMap utf8EncodeChar := by
  induction h with
  | @nil first rest =>
      obtain ⟨byte, others, hbytes⟩ :=
        List.exists_cons_of_ne_nil (String.utf8EncodeChar_ne_nil (c := first))
      rw [List.flatMap_nil, List.flatMap_cons, hbytes]
      exact List.nil_lt_cons _ _
  | rel h => exact utf8EncodeChar_append_lt h _ _
  | cons _ ih => exact List.append_left_lt ih

/-- Texts are ordered as their bytes are. -/
theorem textBytes_lt_iff {a b : String} : textBytes a < textBytes b ↔ a < b := by
  have hmono {a b : String} (h : a < b) : textBytes a < textBytes b := by
    rw [textBytes_eq, textBytes_eq]
    exact flatMap_utf8EncodeChar_lt h
  refine ⟨fun h => ?_, hmono⟩
  by_cases hlt : a < b
  · exact hlt
  · by_cases hgt : b < a
    · exact absurd h (List.lt_asymm (hmono hgt))
    · rw [String.le_antisymm (String.not_lt.1 hgt) (String.not_lt.1 hlt)] at h
      exact absurd h (List.lt_irrefl _)

end DocScript.Artifact
