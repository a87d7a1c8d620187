import TapeLab.Text.Utf8

/-!
Decoding gives back what has been encoded. The bytes of one character are taken one by one; with the
last of them the character is complete, whatever follows.
-/

namespace TapeLab.Text

variable {pos more code : Nat} {half : HalfRead} {b : UInt8} {s : List UInt8}

theorem decode_single (h : leadByte? b.toNat = some (0, code)) :
    decodeUtf8From pos none (b :: s) =
      (decodeUtf8From (pos + 1) none s).map (Char.ofNat code :: ·) := by
  simp [decodeUtf8From, h]

theorem decode_lead (h : leadByte? b.toNat = some (more, code)) (hmore : more ≠ 0) :
    decodeUtf8From pos none (b :: s) =
      decodeUtf8From (pos + 1) (some ⟨pos, b, 1, more, code⟩) s := by
  rw [decodeUtf8From, h]
  cases more with
  | zero => exact absurd rfl hmore
  | succ more => rfl

theorem decode_next (h : half.takes b = true) (hmore : half.more ≠ 1) :
    decodeUtf8From pos (some half) (b :: s) =
      decodeUtf8From (pos + 1) (some ⟨half.start, half.lead, half.got + 1, half.more - 1,
        half.code * 64 + (b.toNat - 0x80)⟩) s := by
  simp [decodeUtf8From, h, hmore]

theorem decode_last (h : half.takes b = true) (hmore : half.more = 1) :
    decodeUtf8From pos (some half) (b :: s) =
      (decodeUtf8From (pos + 1) none s).map
        (Char.ofNat (half.code * 64 + (b.toNat - 0x80)) :: ·) := by
  simp [decodeUtf8From, h, hmore]

/-- One case for each number of bytes. What a byte after the first one must not be depends on the
first one only where the form would not be a shortest one or the character a surrogate, so the
second byte is looked at with its character. -/
theorem decodeUtf8From_encodeChar (pos : Nat) (c : Char) (s : List UInt8) :
    decodeUtf8From pos none (String.utf8EncodeChar c ++ s) =
      (decodeUtf8From (pos + (String.utf8EncodeChar c).length) none s).map (c :: ·) := by
  have hvalid : c.toNat < 55296 ∨ 57343 < c.toNat ∧ c.toNat < 1114112 := c.valid
  obtain ⟨v, hv⟩ : ∃ v, v = c.toNat := ⟨_, rfl⟩
  have hc : Char.ofNat v = c := hv ▸ c.ofNat_toNat
  have byte {n : Nat} (h : n < 256) : (UInt8.ofNat n).toNat = n := UInt8.toNat_ofNat_of_lt' h
  rw [← hv] at hvalid
  simp only [String.utf8EncodeChar, show c.val.toNat = v from hv.symm]
  split
  · have hlead : leadByte? (UInt8.ofNat v).toNat = some (0, v) := by
      rw [byte (by omega), leadByte?, if_pos (by omega)]
    simp only [List.cons_append, List.nil_append, List.length_cons, List.length_nil]
    rw [decode_single hlead, hc]
  have low : (UInt8.ofNat (v % 64 + 128)).toNat = v % 64 + 128 := byte (by omega)
  split
  · have hlead : leadByte? (UInt8.ofNat (v / 64 % 32 + 192)).toNat = some (1, v / 64) := by
      rw [byte (by omega), leadByte?]
      grind
    have hcode : v / 64 * 64 + (v % 64 + 128 - 128) = v := by omega
    simp only [List.cons_append, List.nil_append, List.length_cons, List.length_nil]
    rw [decode_lead hlead (by simp), decode_last _ rfl, low, hcode, hc]
    simp [HalfRead.takes, secondByteFits]
    omega
  have mid : (UInt8.ofNat (v / 64 % 64 + 128)).toNat = v / 64 % 64 + 128 := byte (by omega)
  split
  · have hlead : leadByte? (UInt8.ofNat (v / 4096 % 16 + 224)).toNat = some (2, v / 4096) := by
      rw [byte (by omega), leadByte?]
      grind
    have hcode : (v / 4096 * 64 + (v / 64 % 64 + 128 - 128)) * 64 + (v % 64 + 128 - 128) = v := by
      omega
    simp only [List.cons_append, List.nil_append, List.length_cons, List.length_nil]
    rw [decode_lead hlead (by simp), decode_next _ (by simp), decode_last _ rfl, mid, low,
      hcode, hc]
    · simp only [HalfRead.takes, low]
      grind
    · simp [HalfRead.takes, secondByteFits]
      omega
  · have hlead : leadByte? (UInt8.ofNat (v / 262144 % 8 + 240)).toNat = some (3, v / 262144) := by
      rw [byte (by omega), leadByte?]
      grind
    have high : (UInt8.ofNat (v / 4096 % 64 + 128)).toNat = v / 4096 % 64 + 128 :=
      byte (by omega)
    have hcode : ((v / 262144 * 64 + (v / 4096 % 64 + 128 - 128)) * 64 +
        (v / 64 % 64 + 128 - 128)) * 64 + (v % 64 + 128 - 128) = v := by omega
    simp only [List.cons_append, List.nil_append, List.length_cons, List.length_nil]
    rw [decode_lead hlead (by simp), decode_next _ (by simp), decode_next _ (by simp),
      decode_last _ rfl, high, mid, low, hcode, hc]
    · simp only [HalfRead.takes, low]
      grind
    · simp only [HalfRead.takes, mid]
      grind
    · simp [HalfRead.takes, secondByteFits]
      omega

theorem decodeUtf8_encodeUtf8 (s : String) : decodeUtf8 (encodeUtf8 s) = .ok s.toList := by
  have hall (chars : List Char) (pos : Nat) :
      decodeUtf8From pos none (chars.flatMap String.utf8EncodeChar) = .ok chars := by
    induction chars generalizing pos with
    | nil => rfl
    | cons c chars ih => rw [List.flatMap_cons, decodeUtf8From_encodeChar, ih]; rfl
  exact hall s.toList 0

end TapeLab.Text
