import FlowPlan.Row.Codec
import FlowPlan.Proofs.Pattern
import FlowPlan.Proofs.Utf8

namespace FlowPlan.Wire

open Outcome

variable {count n : Nat} {bytes found : List UInt8} {v : Scalar}

@[simp] theorem length_littleEndian : (littleEndian count n).length = count := by
  induction count generalizing n with
  | zero => rfl
  | succ count ih => rw [littleEndian, List.length_cons, ih]

theorem ofLittleEndian_cons (b : UInt8) (bytes : List UInt8) :
    ofLittleEndian (b :: bytes) = b.toNat + 256 * ofLittleEndian bytes := rfl

theorem ofLittleEndian_littleEndian : ofLittleEndian (littleEndian count n) = n % 256 ^ count := by
  induction count generalizing n with
  | zero => exact (Nat.mod_one n).symm
  | succ count ih =>
    have hbyte : (UInt8.ofNat n).toNat = n % 256 := UInt8.toNat_ofNat'
    rw [littleEndian, ofLittleEndian_cons, ih, hbyte, Nat.pow_succ', Nat.mod_mul]

theorem ofLittleEndian_lt (bytes : List UInt8) : ofLittleEndian bytes < 256 ^ bytes.length := by
  induction bytes with
  | nil => decide
  | cons b bytes ih =>
    have hb := b.toNat_lt
    rw [ofLittleEndian_cons, List.length_cons, Nat.pow_succ']
    omega

theorem littleEndian_ofLittleEndian (bytes : List UInt8) :
    littleEndian bytes.length (ofLittleEndian bytes) = bytes := by
  induction bytes with
  | nil => rfl
  | cons b bytes ih =>
    have hb := b.toNat_lt
    have hlow : UInt8.ofNat (b.toNat + 256 * ofLittleEndian bytes) = b := by
      rw [Text.ofNat_eq_iff]
      omega
    have hrest : (b.toNat + 256 * ofLittleEndian bytes) / 256 = ofLittleEndian bytes := by omega
    rw [ofLittleEndian_cons, List.length_cons, littleEndian, hlow, hrest, ih]

theorem exactly_eq_ok : exactly count bytes = .ok found ↔ bytes.length = count ∧ found = bytes := by
  rw [exactly]
  split
  · rename_i h
    simp [h, eq_comm]
  · rename_i h
    simp [h]

/-- So many bytes write exactly the numbers that fit them. -/
theorem fixed_eq_ok : fixed count bytes = .ok n ↔ bytes = littleEndian count n ∧ n < 256 ^ count := by
  rw [fixed, map_eq_ok]
  constructor
  · rintro ⟨_, he, rfl⟩
    obtain ⟨rfl, rfl⟩ := exactly_eq_ok.mp he
    exact ⟨(littleEndian_ofLittleEndian _).symm, ofLittleEndian_lt _⟩
  · rintro ⟨rfl, hn⟩
    exact ⟨_, exactly_eq_ok.mpr ⟨length_littleEndian, rfl⟩,
      ofLittleEndian_littleEndian.trans (Nat.mod_eq_of_lt hn)⟩

/-- Bytes after their length are read to their end, unless the length was cut. -/
theorem unsized_sized : unsized (sized bytes) =
    if bytes.length < 2 ^ 32 then .ok bytes
    else .error (.length (bytes.length % 2 ^ 32) bytes.length) := by
  have htake : (sized bytes).take 4 = littleEndian 4 bytes.length :=
    List.take_left' length_littleEndian
  have hdrop : (sized bytes).drop 4 = bytes := List.drop_left' length_littleEndian
  have hlen : ¬ (sized bytes).length < 4 := by simp [sized]
  have hfit : bytes.length = bytes.length % 2 ^ 32 ↔ bytes.length < 2 ^ 32 := by omega
  rw [unsized, if_neg hlen, htake, hdrop, ofLittleEndian_littleEndian, exactly]
  exact if_congr hfit rfl rfl

theorem unsized_eq_ok : unsized bytes = .ok found ↔ bytes = sized found ∧ found.length < 2 ^ 32 := by
  constructor
  · intro h
    rw [unsized] at h
    split at h
    · cases h
    · rename_i hlen
      obtain ⟨hcount, rfl⟩ := exactly_eq_ok.mp h
      have htake : (bytes.take 4).length = 4 := by
        rw [List.length_take]
        omega
      have hlt := ofLittleEndian_lt (bytes.take 4)
      have hprefix := littleEndian_ofLittleEndian (bytes.take 4)
      rw [htake] at hlt hprefix
      rw [← hcount] at hlt hprefix
      exact ⟨by rw [sized, hprefix, List.take_append_drop], hlt⟩
  · rintro ⟨rfl, hlt⟩
    rw [unsized_sized, if_pos hlt]

/-- The bytes whose length is written before them. -/
def payload : Scalar → List UInt8
  | .text s => Text.toUtf8 s
  | .binary b => b
  | _ => []

theorem fixed_littleEndian (h : n < 256 ^ count) : fixed count (littleEndian count n) = .ok n :=
  fixed_eq_ok.mpr ⟨rfl, h⟩

/-- Encoding is undone by decoding, unless a length was cut. -/
theorem decode_encode (v : Scalar) : decode (encode v) =
    if (payload v).length < 2 ^ 32 then .ok v
    else .error (.length ((payload v).length % 2 ^ 32) (payload v).length) := by
  cases v with
  | null => rfl
  | bool b => cases b <;> rfl
  | int32 v =>
    rw [encode, decode, decodeBody, fixed_littleEndian v.toUInt32.toNat_lt, Except.map_ok,
      UInt32.ofNat_toNat, Int32.toInt32_toUInt32]
    rfl
  | int64 v =>
    rw [encode, decode, decodeBody, fixed_littleEndian v.toUInt64.toNat_lt, Except.map_ok,
      UInt64.ofNat_toNat, Int64.toInt64_toUInt64]
    rfl
  | float32 v =>
    rw [encode, decode, decodeBody, fixed_littleEndian v.bits.isLt, Except.map_ok,
      Binary.ofPattern_pattern]
    rfl
  | float64 v =>
    rw [encode, decode, decodeBody, fixed_littleEndian v.bits.isLt, Except.map_ok,
      Binary.ofPattern_pattern]
    rfl
  | text s =>
    rw [encode, decode, decodeBody, unsized_sized, payload]
    split
    · rw [ok_bind, Text.ofUtf8_toUtf8]
      rfl
    · rfl
  | binary b =>
    rw [encode, decode, decodeBody, unsized_sized, payload]
    split
    · rfl
    · rfl

theorem encode_of_decodeBody {tag : UInt8} (h : decodeBody tag bytes = .ok v) :
    encode v = tag :: bytes := by
  unfold decodeBody at h
  split at h
  · obtain ⟨_, he, rfl⟩ := map_eq_ok.mp h
    rw [encode, List.length_eq_zero_iff.mp (exactly_eq_ok.mp he).1]
  · split at h
    · cases h
      rfl
    · cases h
      rfl
    · cases h
  · obtain ⟨n, hn, rfl⟩ := map_eq_ok.mp h
    obtain ⟨rfl, hlt⟩ := fixed_eq_ok.mp hn
    have hfit : n % 2 ^ 32 = n := Nat.mod_eq_of_lt hlt
    rw [encode, UInt32.toUInt32_toInt32, UInt32.toNat_ofNat', hfit]
  · obtain ⟨n, hn, rfl⟩ := map_eq_ok.mp h
    obtain ⟨rfl, hlt⟩ := fixed_eq_ok.mp hn
    have hfit : n % 2 ^ 64 = n := Nat.mod_eq_of_lt hlt
    rw [encode, UInt64.toUInt64_toInt64, UInt64.toNat_ofNat', hfit]
  · obtain ⟨n, hn, rfl⟩ := map_eq_ok.mp h
    obtain ⟨rfl, hlt⟩ := fixed_eq_ok.mp hn
    rw [encode, Binary.pattern_ofPattern hlt]
  · obtain ⟨n, hn, rfl⟩ := map_eq_ok.mp h
    obtain ⟨rfl, hlt⟩ := fixed_eq_ok.mp hn
    rw [encode, Binary.pattern_ofPattern hlt]
  · obtain ⟨raw, hraw, h⟩ := bind_eq_ok.mp h
    obtain ⟨s, hs, rfl⟩ := map_eq_ok.mp h
    rw [encode, Text.toUtf8_of_ofUtf8 (mapError_eq_ok.mp hs), (unsized_eq_ok.mp hraw).1]
  · obtain ⟨raw, hraw, rfl⟩ := map_eq_ok.mp h
    rw [encode, (unsized_eq_ok.mp hraw).1]
  · cases h

/-- Only what was encoded is decoded. -/
theorem encode_of_decode (h : decode bytes = .ok v) : encode v = bytes := by
  cases bytes with
  | nil => cases h
  | cons tag body => exact encode_of_decodeBody h

/-- Decoding and encoding undo each other. A value whose text or byte string has a length of four
bytes is read back, what is read is written back byte for byte, and a length that was cut is
noticed. -/
theorem decode_inverts_encode :
    (∀ v, (payload v).length < 2 ^ 32 → decode (encode v) = .ok v) ∧
    (∀ bytes v, decode bytes = .ok v → encode v = bytes) ∧
    ∀ v, 2 ^ 32 ≤ (payload v).length → decode (encode v) =
      .error (.length ((payload v).length % 2 ^ 32) (payload v).length) := by
  refine ⟨fun v h => ?_, fun bytes v h => encode_of_decode h, fun v h => ?_⟩
  · rw [decode_encode, if_pos h]
  · rw [decode_encode, if_neg (Nat.not_lt.mpr h)]

/-- A text with an accent comes back, TRUE has one wire form, and of four gibibytes the wire form
claims that there are none. -/
theorem decode_inverts_encode_samples :
    decode (encode (.text "né")) = .ok (.text "né") ∧ encode (.bool true) = [1, 1] ∧
    decode (encode (.binary (List.replicate (2 ^ 32) 0))) = .error (.length 0 (2 ^ 32)) := by
  obtain ⟨hshort, hback, hlong⟩ := decode_inverts_encode
  have hlength : (payload (.binary (List.replicate (2 ^ 32) 0))).length = 2 ^ 32 :=
    List.length_replicate
  refine ⟨hshort _ (by decide), hback [1, 1] _ rfl, ?_⟩
  rw [hlong _ hlength.ge, hlength, Nat.mod_self]

end FlowPlan.Wire
