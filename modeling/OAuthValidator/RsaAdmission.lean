import OAuthValidator.Base64urlCodec
import OAuthValidator.BigEndian
import OAuthValidator.Jwks

/-! An RSA key is admitted by the two numbers that its members encode, and by nothing
else. -/

namespace OAuthValidator

/-! The two computations on bytes. -/

set_option maxRecDepth 8000 in
/-- Shifting out the leading zeros of a byte puts its first one on top. -/
theorem leadingZeroBits_shift (b : UInt8) (h : b ≠ 0) :
    leadingZeroBits 8 b ≤ 7 ∧ 128 ≤ b.toNat <<< leadingZeroBits 8 b ∧ b.toNat <<< leadingZeroBits 8 b < 256 := by
  revert h
  induction b using forall_byte with
  | h n =>
    revert n
    decide

theorem leadingZeroBits_eq {b : UInt8} (h : b ≠ 0) : leadingZeroBits 8 b + b.toNat.size = 8 := by
  obtain ⟨hle, hlow, hhigh⟩ := leadingZeroBits_shift b h
  have hpositive : 0 < 2 ^ leadingZeroBits 8 b := Nat.two_pow_pos _
  have hsplit : 2 ^ (8 - leadingZeroBits 8 b) * 2 ^ leadingZeroBits 8 b = 256 := by
    rw [← Nat.pow_add, Nat.sub_add_cancel (by omega)]
  have hsplit' : 2 ^ (7 - leadingZeroBits 8 b) * 2 ^ leadingZeroBits 8 b = 128 := by
    rw [← Nat.pow_add, Nat.sub_add_cancel hle]
  rw [Nat.shiftLeft_eq] at hlow hhigh
  have hupper : b.toNat.size ≤ 8 - leadingZeroBits 8 b :=
    Nat.size_le.mpr (Nat.lt_of_mul_lt_mul_right (hsplit ▸ hhigh))
  have hlower : 7 - leadingZeroBits 8 b < b.toNat.size :=
    Nat.lt_size.mpr (Nat.le_of_mul_le_mul_right (hsplit' ▸ hlow) hpositive)
  omega

theorem unsignedBitLength_eq_size {data : Bytes} (h : data.length ≤ uintMax / 8) :
    unsignedBitLength data = (BigEndian.value data).size := by
  have hsuffix := (List.dropWhile_suffix (· == 0) (l := data)).length_le
  have hhead := List.head?_dropWhile_not (· == 0) data
  rw [← BigEndian.value_dropWhile, unsignedBitLength]
  cases hdropped : data.dropWhile (· == 0) with
  | nil => rfl
  | cons first rest =>
    rw [hdropped] at hsuffix hhead
    rw [List.length_cons] at hsuffix
    have hfirst : first ≠ 0 := by simpa using hhead
    have hbits := leadingZeroBits_eq hfirst
    simp only [if_neg (by omega : ¬ uintMax / 8 < rest.length + 1)]
    rw [BigEndian.size_value rest hfirst]
    omega

theorem value_lt_word {data : Bytes} (h : data.length ≤ 8) : BigEndian.value data < 2 ^ 64 :=
  Nat.lt_of_lt_of_le (BigEndian.value_lt data) (Nat.pow_le_pow_right (by decide) (by omega))

theorem exponentValue_eq {data : Bytes} (h : data.length ≤ 8) : exponentValue data = BigEndian.value data := by
  induction data using List.reverseRecOn with
  | nil => rfl
  | append_singleton data b ih =>
    rw [List.length_append, List.length_singleton] at h
    have hword : BigEndian.value (data ++ [b]) < 2 ^ 64 := value_lt_word (by simpa using h)
    have hsum : BigEndian.value data <<< 8 ||| b.toNat = BigEndian.value (data ++ [b]) := by
      rw [BigEndian.value_concat, ← Nat.shiftLeft_add_eq_or_of_lt b.toNat_lt, Nat.shiftLeft_eq]
    have hstep : exponentValue (data ++ [b]) = (exponentValue data <<< 8 ||| b.toNat) % (uint64Max + 1) := by
      simp [exponentValue]
    rw [hstep, ih (by omega), hsum]
    exact Nat.mod_eq_of_lt hword

/-! The members. -/

theorem decodeParameter_eq_some {value : Option Json} {maximum : Nat} {data : Bytes} (hmaximum : maximum ≤ sizeMax) :
    decodeParameter value maximum = some data ↔
      ∃ text, value = some (.str text) ∧ CanonicalBase64url text.bytes data ∧ data.length ≤ maximum := by
  constructor
  · intro h
    unfold decodeParameter at h
    split at h
    · simp at h
    next text htext =>
    split_ifs at h with hinvalid
    have hvalid : base64urlValid text.bytes = true := by simpa using hinvalid
    split at h
    · simp at h
    next size hsize =>
    rw [base64urlDecodedSize_exact] at hsize
    split_ifs at hsize with hfits
    rw [base64urlDecode] at h
    split_ifs at h
    obtain rfl := Option.some.inj h
    exact ⟨text, Json.str?_eq_some htext, canonical_of_valid hvalid, by rw [length_blocks]; exact hfits⟩
  · rintro ⟨text, rfl, hcanonical, hle⟩
    have hvalid := base64urlValid_iff.mpr ⟨data, hcanonical⟩
    have hlength : decodedLength text.bytes.length = data.length := by
      rw [← hcanonical.blocks_eq, length_blocks]
    have hword : data.length ≤ sizeMax := Nat.le_trans hle hmaximum
    simp [decodeParameter, Json.str?, hvalid, base64urlDecodedSize_exact, base64urlDecode, CString.length, hlength,
      hle, hword, hcanonical.blocks_eq]

/-- The member is the canonical text of the number's bytes. -/
def EncodesNumber (member : Option Json) (n : Nat) : Prop :=
  ∃ text data, member = some (.str text) ∧ CanonicalBase64url text.bytes data ∧ BigEndian.Minimal data n

/-- The modulus and the exponent that a policy admits. -/
structure AdmissibleNumbers (policy : JwksPolicy) (modulus exponent : Nat) : Prop where
  modulus_odd : modulus % 2 = 1
  le_modulus : 2 ^ (policy.minimumRsaBits - 1) ≤ modulus
  modulus_lt : modulus < 2 ^ policy.maximumRsaBits
  exponent_odd : exponent % 2 = 1
  le_exponent : 3 ≤ exponent
  exponent_lt : exponent < 2 ^ 64

structure AdmissibleRsaKey (policy : JwksPolicy) (key : Json) : Prop where
  keyType : key.get? (.lit "kty") = some (.str (.lit "RSA"))
  numbers : ∃ modulus exponent, EncodesNumber (key.get? (.lit "n")) modulus ∧
    EncodesNumber (key.get? (.lit "e")) exponent ∧ AdmissibleNumbers policy modulus exponent

/-! The checks. -/

theorem getLast_odd_iff {data : Bytes} (hne : data ≠ []) :
    (data.getLast?.map fun b => b &&& 1) = some 1 ↔ BigEndian.value data % 2 = 1 := by
  obtain ⟨init, last, rfl⟩ := List.eq_nil_or_concat' data |>.resolve_left hne
  have hbit : last &&& 1 = 1 ↔ last.toNat % 2 = 1 := by
    rw [← UInt8.toNat_inj, UInt8.toNat_and]
    exact (Nat.and_one_is_mod last.toNat) ▸ Iff.rfl
  rw [List.getLast?_concat, Option.map_some, Option.some.injEq, hbit, BigEndian.value_concat]
  omega

/-- The numeric checks, on parameters within the limits of their decoding. -/
theorem rsaChecks_iff {policy : JwksPolicy} {modulus exponent : Bytes} (hminimum : 1 ≤ policy.minimumRsaBits)
    (hne : modulus ≠ []) (hmodulus : modulus.length ≤ uintMax / 8) (hexponent : exponent.length ≤ 8) :
    ((modulus.getLast?.map fun b => b &&& 1) = some 1 ∧ policy.minimumRsaBits ≤ unsignedBitLength modulus ∧
      unsignedBitLength modulus ≤ policy.maximumRsaBits ∧ 3 ≤ exponentValue exponent ∧
      exponentValue exponent % 2 = 1) ↔
    AdmissibleNumbers policy (BigEndian.value modulus) (BigEndian.value exponent) := by
  have hlow : policy.minimumRsaBits ≤ (BigEndian.value modulus).size ↔
      2 ^ (policy.minimumRsaBits - 1) ≤ BigEndian.value modulus := by
    rw [← Nat.lt_size]
    omega
  rw [getLast_odd_iff hne, unsignedBitLength_eq_size hmodulus, exponentValue_eq hexponent, hlow, Nat.size_le]
  constructor
  · rintro ⟨hodd, hle, hlt, hthree, hoddExponent⟩
    exact ⟨hodd, hle, hlt, hoddExponent, hthree, value_lt_word hexponent⟩
  · intro h
    exact ⟨h.modulus_odd, h.le_modulus, h.modulus_lt, h.le_exponent, h.exponent_odd⟩

/-- A key is admitted exactly for the numbers that its members encode, and the code
computes the binary length of the modulus and the value of the exponent without loss. -/
theorem rsa_admission_exact (key : Json) (policy : JwksPolicy) (hminimum : 2048 ≤ policy.minimumRsaBits)
    (hle : policy.minimumRsaBits ≤ policy.maximumRsaBits) (hmaximum : policy.maximumRsaBits ≤ 16384) :
    (validRsaKey key policy = true ↔ AdmissibleRsaKey policy key) ∧
    (∀ data : Bytes, data.length ≤ policy.maximumRsaBits / 8 + 1 →
      unsignedBitLength data = (BigEndian.value data).size) ∧
    ∀ data : Bytes, data.length ≤ 8 →
      exponentValue data = BigEndian.value data ∧ BigEndian.value data < 2 ^ 64 := by
  have hlimit : policy.maximumRsaBits / 8 + 1 ≤ uintMax / 8 := by
    rw [uintMax]
    omega
  have hdecodeModulus (data : Bytes) :
      decodeParameter (key.get? (.lit "n")) (policy.maximumRsaBits / 8 + 1) = some data ↔ _ :=
    decodeParameter_eq_some (by rw [sizeMax]; omega)
  have hdecodeExponent (data : Bytes) : decodeParameter (key.get? (.lit "e")) 8 = some data ↔ _ :=
    decodeParameter_eq_some (by decide)
  refine ⟨?_, fun data hdata => unsignedBitLength_eq_size (Nat.le_trans hdata hlimit), fun data hdata =>
    ⟨exponentValue_eq hdata, value_lt_word hdata⟩⟩
  · constructor
    · intro h
      rw [validRsaKey, Bool.and_eq_true, jsonStringEquals_eq_true] at h
      obtain ⟨htype, h⟩ := h
      split at h
      · next modulus exponent hmodulus hexponent =>
        obtain ⟨n, hn, hncanonical, hnlength⟩ := (hdecodeModulus modulus).mp hmodulus
        obtain ⟨e, he, hecanonical, helength⟩ := (hdecodeExponent exponent).mp hexponent
        simp only [Bool.and_eq_true, bne_iff_ne, beq_iff_eq, decide_eq_true_eq, and_assoc] at h
        obtain ⟨hnhead, hehead, hchecks⟩ := h
        have hnumbers :=
          (rsaChecks_iff (by omega) hncanonical.nonempty (Nat.le_trans hnlength hlimit) helength).mp hchecks
        exact ⟨htype, _, _, ⟨n, modulus, hn, hncanonical, rfl, hnhead⟩, ⟨e, exponent, he, hecanonical, rfl, hehead⟩,
          hnumbers⟩
      · simp at h
    · rintro ⟨htype, _, _, ⟨n, modulus, hn, hncanonical, rfl, hnhead⟩, ⟨e, exponent, he, hecanonical, rfl, hehead⟩,
        hnumbers⟩
      have hnlength := BigEndian.Minimal.length_le ⟨rfl, hnhead⟩ hnumbers.modulus_lt
      have helength := BigEndian.Minimal.length_le ⟨rfl, hehead⟩ hnumbers.exponent_lt
      have hnlength : modulus.length ≤ policy.maximumRsaBits / 8 + 1 := by omega
      have hmodulus := (hdecodeModulus modulus).mpr ⟨n, hn, hncanonical, hnlength⟩
      have hexponent := (hdecodeExponent exponent).mpr ⟨e, he, hecanonical, by omega⟩
      have hchecks := (rsaChecks_iff (by omega) hncanonical.nonempty (Nat.le_trans hnlength hlimit)
        (by omega)).mpr hnumbers
      rw [validRsaKey, hmodulus, hexponent, jsonStringEquals_eq_true.mpr htype]
      simp only [Bool.true_and, Bool.and_eq_true, bne_iff_ne, beq_iff_eq, decide_eq_true_eq, and_assoc]
      exact ⟨hnhead, hehead, hchecks⟩

namespace Sample

/-- The bytes of an odd modulus with the top bit set. -/
def rsaModulus (zeros : Nat) : Bytes :=
  0x80 :: (List.replicate zeros 0 ++ [1])

def rsaText (zeros : Nat) : CString :=
  ⟨base64urlEncodeBlocks (rsaModulus zeros), fun h => absurd (encode_chars (rsaModulus zeros) 0 h) (by decide)⟩

theorem rsaText_encodes (zeros : Nat) :
    EncodesNumber (some (.str (rsaText zeros))) (BigEndian.value (rsaModulus zeros)) :=
  ⟨_, rsaModulus zeros, rfl, ⟨List.cons_ne_nil _ _, rfl⟩, rfl, by simp [rsaModulus]⟩

theorem rsaModulus_admissible {policy : JwksPolicy} (zeros : Nat)
    (hminimum : policy.minimumRsaBits ≤ 8 * (zeros + 2)) (hmaximum : 8 * (zeros + 2) ≤ policy.maximumRsaBits) :
    AdmissibleNumbers policy (BigEndian.value (rsaModulus zeros)) 65537 := by
  have hlength : (List.replicate zeros (0 : UInt8) ++ [1]).length = zeros + 1 := by simp
  have hlast : (1 : UInt8).toNat = 1 := rfl
  have hodd : BigEndian.value (rsaModulus zeros) % 2 = 1 := by
    rw [rsaModulus, ← List.cons_append, BigEndian.value_concat, hlast]
    omega
  have hlow : 2 ^ (7 + 8 * (zeros + 1)) ≤ BigEndian.value (rsaModulus zeros) := by
    rw [← hlength]
    exact BigEndian.le_value_of_top _ (by decide)
  have hhigh : BigEndian.value (rsaModulus zeros) < 2 ^ (8 * (zeros + 2)) := by
    have hlt := BigEndian.value_lt (rsaModulus zeros)
    rwa [rsaModulus, List.length_cons, hlength] at hlt
  exact ⟨hodd, Nat.le_trans (Nat.pow_le_pow_right (by decide) (by omega)) hlow,
    Nat.lt_of_lt_of_le hhigh (Nat.pow_le_pow_right (by decide) hmaximum), by decide, by decide, by decide⟩

/-- A key of 2048 bits. -/
def rsaKey : Json :=
  .obj [(.lit "kty", .str (.lit "RSA")), (.lit "n", .str (rsaText 254)), (.lit "e", .str (.lit "AQAB"))]

def rsaPolicy : JwksPolicy :=
  ⟨65536, 16, 1024, algorithmRs256, 2048, 8192⟩

end Sample

theorem rsa_admission_exact_smallest : validRsaKey Sample.rsaKey Sample.rsaPolicy = true := by
  have hexact := (rsa_admission_exact Sample.rsaKey Sample.rsaPolicy (by decide) (by decide) (by decide)).1
  have hexponent : EncodesNumber (Sample.rsaKey.get? (.lit "e")) 65537 :=
    ⟨.lit "AQAB", [1, 0, 1], by decide, ⟨by simp, by decide⟩, rfl, by simp⟩
  exact hexact.mpr ⟨by decide, _, _, Sample.rsaText_encodes 254, hexponent,
    Sample.rsaModulus_admissible 254 (by decide) (by decide)⟩

end OAuthValidator
