import FlowPlan.Text.Utf8
import FlowPlan.Proofs.Outcome

namespace FlowPlan.Text

open Outcome
open String (utf8EncodeChar)

theorem toUtf8_ofList (cs : List Char) : toUtf8 (.ofList cs) = cs.flatMap utf8EncodeChar :=
  List.toList_data_toByteArray

section Characters

variable {c : Char} {b x y z : UInt8}

theorem ofNat_eq_iff {n : Nat} : UInt8.ofNat n = b ↔ n % 256 = b.toNat := by
  rw [← UInt8.toNat_inj, UInt8.toNat_ofNat']

/-- A character that is written in so many bytes is one of the first, second, third or fourth
range of code points. -/
theorem utf8EncodeChar_one : utf8EncodeChar c = [b] ↔ b.toNat < 0x80 ∧ c.toNat = b.toNat := by
  simp only [utf8EncodeChar, Char.toNat_val]
  split_ifs <;> simp [ofNat_eq_iff, -UInt8.ofNat_add] <;> omega

theorem utf8EncodeChar_two : utf8EncodeChar c = [b, x] ↔ 0xc2 ≤ b.toNat ∧ b.toNat < 0xe0 ∧
    0x80 ≤ x.toNat ∧ x.toNat ≤ 0xbf ∧ c.toNat = 64 * (b.toNat % 32) + x.toNat % 64 := by
  simp only [utf8EncodeChar, Char.toNat_val]
  split_ifs <;> simp [ofNat_eq_iff, -UInt8.ofNat_add] <;> omega

theorem utf8EncodeChar_three : utf8EncodeChar c = [b, x, y] ↔ 0xe0 ≤ b.toNat ∧ b.toNat < 0xf0 ∧
    0x80 ≤ x.toNat ∧ x.toNat ≤ 0xbf ∧ 0x80 ≤ y.toNat ∧ y.toNat ≤ 0xbf ∧
    (b.toNat = 0xe0 → 0xa0 ≤ x.toNat) ∧ (b.toNat = 0xed → x.toNat ≤ 0x9f) ∧
    c.toNat = 64 * (64 * (b.toNat % 16) + x.toNat % 64) + y.toNat % 64 := by
  have hvalid : c.toNat < 0xd800 ∨ 0xdfff < c.toNat ∧ c.toNat < 0x110000 := c.valid
  simp only [utf8EncodeChar, Char.toNat_val]
  split_ifs <;> simp [ofNat_eq_iff, -UInt8.ofNat_add] <;> omega

theorem utf8EncodeChar_four : utf8EncodeChar c = [b, x, y, z] ↔ 0xf0 ≤ b.toNat ∧ b.toNat < 0xf5 ∧
    0x80 ≤ x.toNat ∧ x.toNat ≤ 0xbf ∧ 0x80 ≤ y.toNat ∧ y.toNat ≤ 0xbf ∧
    0x80 ≤ z.toNat ∧ z.toNat ≤ 0xbf ∧
    (b.toNat = 0xf0 → 0x90 ≤ x.toNat) ∧ (b.toNat = 0xf4 → x.toNat ≤ 0x8f) ∧
    c.toNat = 64 * (64 * (64 * (b.toNat % 8) + x.toNat % 64) + y.toNat % 64) + z.toNat % 64 := by
  have hvalid : c.toNat < 0xd800 ∨ 0xdfff < c.toNat ∧ c.toNat < 0x110000 := c.valid
  simp only [utf8EncodeChar, Char.toNat_val]
  split_ifs <;> simp [ofNat_eq_iff, -UInt8.ofNat_add] <;> omega

/-- Every character is written in one to four bytes. -/
theorem utf8EncodeChar_cases (c : Char) : (∃ b, utf8EncodeChar c = [b]) ∨
    (∃ b x, utf8EncodeChar c = [b, x]) ∨ (∃ b x y, utf8EncodeChar c = [b, x, y]) ∨
    ∃ b x y z, utf8EncodeChar c = [b, x, y, z] := by
  simp only [utf8EncodeChar]
  split_ifs <;> simp

end Characters

section Sequences

variable {n count low high bits value read v : Nat} {b : UInt8} {bytes : List UInt8} {c : Char}

theorem leadByte_cases (h : leadByte n = some (count, low, high, bits)) :
    count = 1 ∧ 0xc2 ≤ n ∧ n < 0xe0 ∧ bits = n % 32 ∧ low = 0x80 ∧ high = 0xbf ∨
    count = 2 ∧ 0xe0 ≤ n ∧ n < 0xf0 ∧ bits = n % 16 ∧
      low = (if n = 0xe0 then 0xa0 else 0x80) ∧ high = (if n = 0xed then 0x9f else 0xbf) ∨
    count = 3 ∧ 0xf0 ≤ n ∧ n < 0xf5 ∧ bits = n % 8 ∧
      low = (if n = 0xf0 then 0x90 else 0x80) ∧ high = (if n = 0xf4 then 0x8f else 0xbf) := by
  unfold leadByte at h
  split_ifs at h <;>
  · simp only [Option.some.injEq, Prod.mk.injEq] at h
    split_ifs <;> omega

theorem exists_leadByte (hl : 0xc2 ≤ n) (hh : n < 0xf5) :
    ∃ count low high bits, leadByte n = some (count, low, high, bits) := by
  unfold leadByte
  split_ifs <;> first | exact ⟨_, _, _, _, rfl⟩ | omega

theorem followSequence_zero :
    followSequence 0 low high value read bytes = .point v ↔ value = v := by
  rw [followSequence, Sequence.point.injEq]

theorem followSequence_succ :
    followSequence (count + 1) low high value read bytes = .point v ↔
      ∃ b rest, bytes = b :: rest ∧ low ≤ b.toNat ∧ b.toNat ≤ high ∧
        followSequence count 0x80 0xbf (64 * value + b.toNat % 64) (read + 1) rest = .point v := by
  cases bytes with
  | nil => simp [followSequence]
  | cons b rest =>
    rw [followSequence]
    split
    · rename_i h
      exact ⟨fun hv => ⟨b, rest, rfl, h.1, h.2, hv⟩, fun ⟨_, _, he, _, _, hv⟩ => by cases he; exact hv⟩
    · rename_i h
      exact ⟨fun hv => (by cases hv), fun ⟨_, _, he, hl, hh, _⟩ => by cases he; exact absurd ⟨hl, hh⟩ h⟩

/-- Bytes that are followed to a code point are what its character is written as. -/
theorem char_of_sequence (hl : leadByte b.toNat = some (count, low, high, bits))
    (hf : followSequence count low high bits read bytes = .point v) :
    ∃ tail rest, bytes = tail ++ rest ∧ tail.length = count ∧
      utf8EncodeChar (.ofNat v) = b :: tail := by
  have hpoint (h : v < 0xd800 ∨ 0xdfff < v ∧ v < 0x110000) : (Char.ofNat v).toNat = v := by
    rw [Char.toNat_ofNat, if_pos h]
  rcases leadByte_cases hl with ⟨rfl, h⟩ | ⟨rfl, h⟩ | ⟨rfl, h⟩
  · obtain ⟨x, rest, rfl, hx⟩ := followSequence_succ.mp hf
    rw [followSequence_zero] at hx
    refine ⟨[x], rest, rfl, rfl, utf8EncodeChar_two.mpr ?_⟩
    rw [hpoint (by omega)]
    omega
  · obtain ⟨x, _, rfl, hx⟩ := followSequence_succ.mp hf
    obtain ⟨y, rest, rfl, hy⟩ := followSequence_succ.mp hx.2.2
    rw [followSequence_zero] at hy
    refine ⟨[x, y], rest, rfl, rfl, utf8EncodeChar_three.mpr ?_⟩
    split_ifs at h <;> rw [hpoint (by omega)] <;> omega
  · obtain ⟨x, _, rfl, hx⟩ := followSequence_succ.mp hf
    obtain ⟨y, _, rfl, hy⟩ := followSequence_succ.mp hx.2.2
    obtain ⟨z, rest, rfl, hz⟩ := followSequence_succ.mp hy.2.2
    rw [followSequence_zero] at hz
    refine ⟨[x, y, z], rest, rfl, rfl, utf8EncodeChar_four.mpr ?_⟩
    split_ifs at h <;> rw [hpoint (by omega)] <;> omega

/-- What a character above the first range is written as is followed to its code point. -/
theorem sequence_of_char (hc : 0x80 ≤ c.toNat) : ∃ b tail low high bits,
    utf8EncodeChar c = b :: tail ∧ 0x80 ≤ b.toNat ∧
    leadByte b.toNat = some (tail.length, low, high, bits) ∧
    ∀ rest, followSequence tail.length low high bits 1 (tail ++ rest) = .point c.toNat := by
  rcases utf8EncodeChar_cases c with ⟨b, he⟩ | ⟨b, x, he⟩ | ⟨b, x, y, he⟩ | ⟨b, x, y, z, he⟩
  · have := utf8EncodeChar_one.mp he
    omega
  · have h := utf8EncodeChar_two.mp he
    obtain ⟨count, low, high, bits, hl⟩ := exists_leadByte h.1 (by omega)
    obtain ⟨rfl, -, -, rfl, rfl, rfl⟩ := (leadByte_cases hl).resolve_right (by omega)
    refine ⟨b, [x], _, _, _, he, by omega, hl, fun rest => ?_⟩
    exact followSequence_succ.mpr ⟨x, rest, rfl, by omega, by omega,
      followSequence_zero.mpr (by omega)⟩
  · have h := utf8EncodeChar_three.mp he
    obtain ⟨count, low, high, bits, hl⟩ := exists_leadByte (by omega) (Nat.lt_trans h.2.1 (by decide))
    obtain ⟨rfl, -, -, rfl, rfl, rfl⟩ :=
      ((leadByte_cases hl).resolve_left (by omega)).resolve_right (by omega)
    refine ⟨b, [x, y], _, _, _, he, by omega, hl, fun rest => ?_⟩
    refine followSequence_succ.mpr ⟨x, y :: rest, rfl, ?_, ?_, followSequence_succ.mpr
      ⟨y, rest, rfl, by omega, by omega, followSequence_zero.mpr (by omega)⟩⟩
    · split_ifs <;> omega
    · split_ifs <;> omega
  · have h := utf8EncodeChar_four.mp he
    obtain ⟨count, low, high, bits, hl⟩ := exists_leadByte (by omega) h.2.1
    obtain ⟨rfl, -, -, rfl, rfl, rfl⟩ :=
      ((leadByte_cases hl).resolve_left (by omega)).resolve_left (by omega)
    refine ⟨b, [x, y, z], _, _, _, he, by omega, hl, fun rest => ?_⟩
    refine followSequence_succ.mpr ⟨x, y :: z :: rest, rfl, ?_, ?_, followSequence_succ.mpr
      ⟨y, z :: rest, rfl, by omega, by omega, followSequence_succ.mpr
        ⟨z, rest, rfl, by omega, by omega, followSequence_zero.mpr (by omega)⟩⟩⟩
    · split_ifs <;> omega
    · split_ifs <;> omega

end Sequences

theorem charsOfUtf8_skip (index : Nat) (tail rest : List UInt8) :
    charsOfUtf8 index tail.length (tail ++ rest) = charsOfUtf8 (index + tail.length) 0 rest := by
  induction tail generalizing index with
  | nil => rfl
  | cons b tail ih =>
    rw [List.length_cons, List.cons_append, charsOfUtf8, ih, Nat.add_right_comm, Nat.add_assoc]

theorem charsOfUtf8_sequence {b : UInt8} {tail rest : List UInt8} {low high bits v : Nat}
    (hb : 0x80 ≤ b.toNat) (hl : leadByte b.toNat = some (tail.length, low, high, bits))
    (hf : followSequence tail.length low high bits 1 (tail ++ rest) = .point v) (index : Nat) :
    charsOfUtf8 index 0 (b :: (tail ++ rest)) =
      (Char.ofNat v :: ·) <$> charsOfUtf8 (index + 1 + tail.length) 0 rest := by
  rw [charsOfUtf8, if_neg (Nat.not_lt.mpr hb), hl]
  simp only [hf, charsOfUtf8_skip]

/-- A written character is read and the reader goes on behind it. -/
theorem charsOfUtf8_char (c : Char) (rest : List UInt8) (index : Nat) : ∃ next,
    charsOfUtf8 index 0 (utf8EncodeChar c ++ rest) = (c :: ·) <$> charsOfUtf8 next 0 rest := by
  by_cases hc : c.toNat < 0x80
  · have he : utf8EncodeChar c = [.ofNat c.toNat] := by
      simp [utf8EncodeChar, Char.toNat_val, Nat.le_of_lt_succ hc]
    obtain ⟨hlow, hv⟩ := utf8EncodeChar_one.mp he
    refine ⟨index + 1, ?_⟩
    rw [he, List.singleton_append, charsOfUtf8, if_pos hlow, ← hv, Char.ofNat_toNat]
  · obtain ⟨b, tail, low, high, bits, he, hb, hl, hf⟩ := sequence_of_char (Nat.not_lt.mp hc)
    refine ⟨index + 1 + tail.length, ?_⟩
    rw [he, List.cons_append, charsOfUtf8_sequence hb hl (hf rest), Char.ofNat_toNat]

theorem charsOfUtf8_flatMap (cs : List Char) (index : Nat) :
    charsOfUtf8 index 0 (cs.flatMap utf8EncodeChar) = .ok cs := by
  induction cs generalizing index with
  | nil => rfl
  | cons c cs ih =>
    obtain ⟨next, hnext⟩ := charsOfUtf8_char c (cs.flatMap utf8EncodeChar) index
    rw [List.flatMap_cons, hnext, ih, Except.map_ok]

/-- Bytes that are read are what the characters are written as. -/
theorem flatMap_of_charsOfUtf8 : (bytes : List UInt8) → {index : Nat} → {cs : List Char} →
    charsOfUtf8 index 0 bytes = .ok cs → cs.flatMap utf8EncodeChar = bytes
  | [], _, cs, h => by
    rw [charsOfUtf8] at h
    cases h
    rfl
  | b :: bytes, index, cs, h => by
    rw [charsOfUtf8] at h
    split at h
    · rename_i hb
      obtain ⟨more, hmore, rfl⟩ := map_eq_ok.mp h
      have he : utf8EncodeChar (.ofNat b.toNat) = [b] := by
        rw [utf8EncodeChar_one, Char.toNat_ofNat, if_pos (.inl (by omega))]
        exact ⟨hb, rfl⟩
      rw [List.flatMap_cons, he, flatMap_of_charsOfUtf8 bytes hmore, List.singleton_append]
    · split at h
      · cases h
      · rename_i count low high bits hl
        split at h
        · rename_i v hf
          obtain ⟨more, hmore, rfl⟩ := map_eq_ok.mp h
          obtain ⟨tail, rest, rfl, rfl, he⟩ := char_of_sequence hl hf
          rw [charsOfUtf8_skip] at hmore
          rw [List.flatMap_cons, he, flatMap_of_charsOfUtf8 rest hmore, List.cons_append]
        · cases h
        · cases h
termination_by bytes => bytes.length

theorem ofUtf8_toUtf8 (s : String) : ofUtf8 (toUtf8 s) = .ok s := by
  obtain ⟨cs, rfl⟩ : ∃ cs, s = .ofList cs := ⟨s.toList, String.ofList_toList.symm⟩
  rw [toUtf8_ofList, ofUtf8, charsOfUtf8_flatMap, Except.map_ok]

theorem toUtf8_of_ofUtf8 {bytes : List UInt8} {s : String} (h : ofUtf8 bytes = .ok s) :
    toUtf8 s = bytes := by
  obtain ⟨cs, hcs, rfl⟩ := map_eq_ok.mp h
  rw [toUtf8_ofList, flatMap_of_charsOfUtf8 bytes hcs]

end FlowPlan.Text
