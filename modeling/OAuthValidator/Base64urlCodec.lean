import OAuthValidator.Base64url

/-! The encoder, and base64url as a bijection. Sizes are words of 64 bits, so that
their arithmetic is the one of the source. The loops are over blocks: a text and the
buffer for its bytes share one address space, so no index of theirs wraps around. -/

namespace OAuthValidator

def sizeMaxWord : UInt64 := 18446744073709551615

def base64urlEncodedSize (inputLength maximum : UInt64) : Option UInt64 :=
  let fullBlocks := inputLength / 3
  if sizeMaxWord / 4 < fullBlocks then none
  else
    let length := fullBlocks * 4
    if inputLength % 3 != 0 && sizeMaxWord - (inputLength % 3 + 1) < length then none
    else
      let length := if inputLength % 3 != 0 then length + (inputLength % 3 + 1) else length
      if maximum < length then none else some length

/-- `base64urlDecodedSize` in the arithmetic of the machine. -/
def base64urlDecodedSizeWord (encodedLength maximum : UInt64) : Option UInt64 :=
  let length := encodedLength / 4 * 3
  let length :=
    if encodedLength % 4 == 2 then length + 1 else if encodedLength % 4 == 3 then length + 2 else length
  if maximum < length then none else some length

def base64urlEncode (data : Bytes) (encodedSize : UInt64) : Option Bytes :=
  if base64urlEncodedSize (.ofNat data.length) sizeMaxWord == some encodedSize then
    some (base64urlEncodeBlocks data)
  else none

/-- Four characters for three bytes, rounded up. -/
def encodedLength (length : Nat) : Nat :=
  (4 * length + 2) / 3

/-- Three bytes for four characters, rounded down. -/
def decodedLength (length : Nat) : Nat :=
  3 * length / 4

/-- A size that stays within its bound, as a number. -/
theorem bounded_toNat {length maximum : UInt64} {n : Nat} (h : length.toNat = n) :
    (if maximum < length then none else some length).map UInt64.toNat =
      if n ≤ maximum.toNat then some n else none := by
  subst h
  by_cases hle : length.toNat ≤ maximum.toNat
  · have hnot : ¬ maximum < length := by rw [UInt64.lt_iff_toNat_lt]; omega
    simp [hle, hnot]
  · have hlt : maximum < length := by rw [UInt64.lt_iff_toNat_lt]; omega
    simp [hle, hlt]

theorem toNat_mul_eq {a b : UInt64} {m n : Nat} (ha : a.toNat = m) (hb : b.toNat = n)
    (h : m * n ≤ sizeMax) : (a * b).toNat = m * n := by
  rw [UInt64.toNat_mul, ha, hb]
  exact Nat.mod_eq_of_lt (Nat.lt_succ_of_le h)

theorem toNat_add_eq {a b : UInt64} {m n : Nat} (ha : a.toNat = m) (hb : b.toNat = n)
    (h : m + n ≤ sizeMax) : (a + b).toNat = m + n := by
  rw [UInt64.toNat_add, ha, hb]
  exact Nat.mod_eq_of_lt (Nat.lt_succ_of_le h)

theorem base64urlDecodedSizeWord_exact (length maximum : UInt64) :
    (base64urlDecodedSizeWord length maximum).map UInt64.toNat =
      if decodedLength length.toNat ≤ maximum.toNat then some (decodedLength length.toNat) else none := by
  refine bounded_toNat ?_
  have hlength : length.toNat ≤ 18446744073709551615 := Nat.le_of_lt_succ length.toNat_lt
  have hmod (n : UInt64) : length % 4 = n ↔ length.toNat % 4 = n.toNat := by
    rw [← UInt64.toNat_inj, UInt64.toNat_mod]
    rfl
  have hblocks : (length / 4 * 3).toNat = length.toNat / 4 * 3 :=
    toNat_mul_eq (UInt64.toNat_div length 4) rfl (by rw [sizeMax]; omega)
  have htwo : (2 : UInt64).toNat = 2 := rfl
  have hthree : (3 : UInt64).toNat = 3 := rfl
  simp only [beq_iff_eq, hmod, decodedLength, htwo, hthree]
  split
  · rw [toNat_add_eq hblocks (show UInt64.toNat 1 = 1 from rfl) (by rw [sizeMax]; omega)]
    omega
  split
  · rw [toNat_add_eq hblocks htwo (by rw [sizeMax]; omega)]
    omega
  · omega

theorem base64urlEncodedSize_exact (length maximum : UInt64) :
    (base64urlEncodedSize length maximum).map UInt64.toNat =
      if encodedLength length.toNat ≤ maximum.toNat then some (encodedLength length.toNat) else none := by
  have hlength : length.toNat ≤ 18446744073709551615 := Nat.le_of_lt_succ length.toNat_lt
  have hmaximum : maximum.toNat ≤ 18446744073709551615 := Nat.le_of_lt_succ maximum.toNat_lt
  have hdiv : (length / 3).toNat = length.toNat / 3 := UInt64.toNat_div length 3
  have hmod : (length % 3).toNat = length.toNat % 3 := UInt64.toNat_mod length 3
  have htail : (length % 3 + 1).toNat = length.toNat % 3 + 1 :=
    toNat_add_eq hmod rfl (by rw [sizeMax]; omega)
  have hroom : (sizeMaxWord - (length % 3 + 1)).toNat = 18446744073709551615 - (length.toNat % 3 + 1) := by
    rw [UInt64.toNat_sub_of_le, htail]
    · rfl
    · rw [UInt64.le_iff_toNat_le, htail, show sizeMaxWord.toNat = 18446744073709551615 from rfl]
      omega
  have hzero : length % 3 = 0 ↔ length.toNat % 3 = 0 := by
    rw [← UInt64.toNat_inj, hmod]
    rfl
  have hquarter : (sizeMaxWord / 4).toNat = 4611686018427387903 := rfl
  simp only [base64urlEncodedSize, UInt64.lt_iff_toNat_lt, hdiv, hroom, bne_iff_ne, Bool.and_eq_true, ne_eq,
    decide_eq_true_eq, hzero, hquarter]
  split
  · next hblocks =>
    have hlarge : ¬ encodedLength length.toNat ≤ maximum.toNat := by
      rw [encodedLength]
      omega
    simp [hlarge]
  · next hblocks =>
    have hfull : (length / 3 * 4).toNat = length.toNat / 3 * 4 :=
      toNat_mul_eq hdiv rfl (by rw [sizeMax]; omega)
    rw [hfull]
    split
    · next hwrap =>
      have hlarge : ¬ encodedLength length.toNat ≤ maximum.toNat := by
        rw [encodedLength]
        omega
      simp [hlarge]
    · next hwrap =>
      simp only [← UInt64.lt_iff_toNat_lt]
      refine bounded_toNat ?_
      split
      · next hrest =>
        rw [toNat_add_eq hfull htail (by rw [sizeMax]; omega), encodedLength]
        omega
      · rw [hfull, encodedLength]
        omega

/-! Decoding an encoding. -/

theorem and_63 (n : Nat) : n &&& 63 = n % 64 :=
  Nat.and_two_pow_sub_one_eq_mod n 6

theorem base64urlChar_value (n : Nat) : base64urlValue (base64urlChar n) = some (n % 64) := by
  have hall : ∀ m : Fin 64, base64urlValue (base64urlAlphabet.getD m 0) = some m.val := by
    decide +kernel
  rw [base64urlChar, and_63]
  exact hall ⟨n % 64, Nat.mod_lt n (by decide)⟩

@[simp] theorem base64urlDigit_char (n : Nat) : base64urlDigit (base64urlChar n) = n % 64 := by
  rw [base64urlDigit, base64urlChar_value]
  rfl

theorem blocks_three (a b c : UInt8) (rest : Bytes) :
    base64urlBlocks (base64urlEncodeBlocks (a :: b :: c :: rest)) =
      a :: b :: c :: base64urlBlocks (base64urlEncodeBlocks rest) := by
  have ha := a.toNat_lt
  have hb := b.toNat_lt
  have hc := c.toNat_lt
  simp only [base64urlEncodeBlocks, base64urlBlocks, bytes_word hb hc, base64urlDigit_char]
  rw [digits_word (Nat.mod_lt _ (by decide)) (Nat.mod_lt _ (by decide)) (Nat.mod_lt _ (by decide))]
  simp only [Nat.shiftRight_eq_div_pow, List.cons.injEq, and_true, ← UInt8.toNat_inj, Nat.toUInt8,
    UInt8.toNat_ofNat']
  refine ⟨?_, ?_, ?_⟩ <;> omega

theorem blocks_one (a : UInt8) : base64urlBlocks (base64urlEncodeBlocks [a]) = [a] := by
  have ha := a.toNat_lt
  simp only [base64urlEncodeBlocks, base64urlBlocks, base64urlDigit_char]
  rw [two_digits_word (Nat.mod_lt _ (by decide))]
  simp only [Nat.shiftRight_eq_div_pow, Nat.shiftLeft_eq, List.cons.injEq, and_true, ← UInt8.toNat_inj,
    Nat.toUInt8, UInt8.toNat_ofNat']
  omega

theorem blocks_two (a b : UInt8) : base64urlBlocks (base64urlEncodeBlocks [a, b]) = [a, b] := by
  have ha := a.toNat_lt
  have hb := b.toNat_lt
  simp only [base64urlEncodeBlocks, base64urlBlocks, two_bytes_word hb, base64urlDigit_char]
  rw [three_digits_word (Nat.mod_lt _ (by decide)) (Nat.mod_lt _ (by decide))]
  simp only [Nat.shiftRight_eq_div_pow, List.cons.injEq, and_true, ← UInt8.toNat_inj, Nat.toUInt8,
    UInt8.toNat_ofNat']
  refine ⟨?_, ?_⟩ <;> omega

theorem blocks_encode : ∀ data : Bytes, base64urlBlocks (base64urlEncodeBlocks data) = data
  | [] => rfl
  | [a] => blocks_one a
  | [a, b] => blocks_two a b
  | a :: b :: c :: rest => by rw [blocks_three, blocks_encode rest]

theorem length_encode : ∀ data : Bytes, (base64urlEncodeBlocks data).length = encodedLength data.length
  | [] => rfl
  | [_] => by simp [base64urlEncodeBlocks, encodedLength]
  | [_, _] => by simp [base64urlEncodeBlocks, encodedLength]
  | a :: b :: c :: rest => by
    simp only [base64urlEncodeBlocks, List.length_cons, length_encode rest, encodedLength]
    omega

theorem length_blocks : ∀ text : Bytes, (base64urlBlocks text).length = decodedLength text.length
  | [] => rfl
  | [_] => by simp [base64urlBlocks, decodedLength]
  | [_, _] => by simp [base64urlBlocks, decodedLength]
  | [_, _, _] => by simp [base64urlBlocks, decodedLength]
  | a :: b :: c :: d :: rest => by
    simp only [base64urlBlocks, List.length_cons, length_blocks rest, decodedLength]
    omega

theorem encode_chars : ∀ data : Bytes, ∀ b ∈ base64urlEncodeBlocks data, (base64urlValue b).isSome = true
  | [] => by simp [base64urlEncodeBlocks]
  | [a] => by simp [base64urlEncodeBlocks, base64urlChar_value]
  | [a, b] => by simp [base64urlEncodeBlocks, base64urlChar_value]
  | a :: b :: c :: rest => by
    simpa [base64urlEncodeBlocks, base64urlChar_value] using encode_chars rest

/-- The bits that the last character does not need are zero. -/
theorem lastDigit_encode : ∀ data : Bytes,
    (data.length % 3 = 1 → lastDigit (base64urlEncodeBlocks data) % 16 = 0) ∧
      (data.length % 3 = 2 → lastDigit (base64urlEncodeBlocks data) % 4 = 0)
  | [] => by simp
  | [a] => by
    simp [base64urlEncodeBlocks, lastDigit, Nat.shiftLeft_eq]
  | [a, b] => by
    simp [base64urlEncodeBlocks, lastDigit, two_bytes_word b.toNat_lt]
    omega
  | a :: b :: c :: rest => by
    have hlast (hne : rest.length % 3 ≠ 0) : lastDigit (base64urlEncodeBlocks (a :: b :: c :: rest)) =
        lastDigit (base64urlEncodeBlocks rest) := by
      refine @lastDigit_append [_, _, _, _] _ fun hnil => hne ?_
      have hlength := length_encode rest
      rw [hnil, encodedLength, List.length_nil] at hlength
      omega
    obtain ⟨ih1, ih2⟩ := lastDigit_encode rest
    simp only [List.length_cons]
    exact ⟨fun h => hlast (by omega) ▸ ih1 (by omega), fun h => hlast (by omega) ▸ ih2 (by omega)⟩

theorem base64urlValid_encode {data : Bytes} (h : data ≠ []) :
    base64urlValid (base64urlEncodeBlocks data) = true := by
  have hpositive := List.length_pos_iff.mpr h
  have hlength := length_encode data
  obtain ⟨h1, h2⟩ := lastDigit_encode data
  simp only [encodedLength] at hlength
  simp only [base64urlValid, Bool.and_eq_true, Bool.not_eq_true', bne_iff_ne, List.all_eq_true,
    List.isEmpty_eq_false_iff, Bool.and_eq_false_imp, bne_eq_false_iff_eq, beq_iff_eq]
  refine ⟨⟨⟨⟨?_, by omega⟩, encode_chars data⟩, fun h => h1 (by omega)⟩, fun h => h2 (by omega)⟩
  exact List.ne_nil_of_length_pos (by omega)

/-- A text is valid when it is an encoding. -/
theorem base64urlValid_iff {text : Bytes} :
    base64urlValid text = true ↔ ∃ data, CanonicalBase64url text data :=
  ⟨fun h => ⟨_, canonical_of_valid h⟩, fun ⟨_, hne, heq⟩ => heq ▸ base64urlValid_encode hne⟩

theorem CanonicalBase64url.blocks_eq {text data : Bytes} (h : CanonicalBase64url text data) :
    base64urlBlocks text = data := by
  rw [h.encoded, blocks_encode]

/-! The functions of the source, on strings whose lengths a word can hold. -/

theorem toNat_ofNat_length {data : Bytes} (h : data.length ≤ sizeMax) :
    (UInt64.ofNat data.length).toNat = data.length :=
  UInt64.toNat_ofNat_of_lt (Nat.lt_succ_of_le h)

theorem size_eq_some {result : Option UInt64} {length maximum : Nat} {size : UInt64}
    (h : result.map UInt64.toNat = if length ≤ maximum then some length else none) :
    result = some size ↔ size.toNat = length ∧ length ≤ maximum := by
  by_cases hle : length ≤ maximum
  · rw [if_pos hle, Option.map_eq_some_iff] at h
    obtain ⟨word, rfl, hword⟩ := h
    rw [Option.some.injEq, ← UInt64.toNat_inj, hword, and_iff_left hle, eq_comm]
  · rw [if_neg hle, Option.map_eq_none_iff] at h
    simp [h, hle]

theorem base64urlDecodedSize_exact (length maximum : Nat) :
    base64urlDecodedSize length maximum =
      if decodedLength length ≤ maximum then some (decodedLength length) else none := by
  have hlength : length / 4 * 3 + (if length % 4 == 2 then 1 else if length % 4 == 3 then 2 else 0) =
      decodedLength length := by
    simp only [decodedLength, beq_iff_eq]
    split
    · omega
    · split <;> omega
  simp only [base64urlDecodedSize, hlength, ← Nat.not_le, ite_not]

theorem base64urlDecodedSizeWord_eq_some {text : Bytes} {size : UInt64} (h : text.length ≤ sizeMax) :
    base64urlDecodedSizeWord (.ofNat text.length) sizeMaxWord = some size ↔
      size.toNat = decodedLength text.length := by
  have hsize := base64urlDecodedSizeWord_exact (.ofNat text.length) sizeMaxWord
  rw [toNat_ofNat_length h] at hsize
  have hfits : decodedLength text.length ≤ sizeMaxWord.toNat := by
    rw [decodedLength, show sizeMaxWord.toNat = sizeMax from rfl]
    omega
  rw [size_eq_some hsize, and_iff_left hfits]

theorem base64urlEncodedSize_eq_some {data : Bytes} {size : UInt64} (h : data.length ≤ sizeMax) :
    base64urlEncodedSize (.ofNat data.length) sizeMaxWord = some size ↔
      size.toNat = encodedLength data.length := by
  have hsize := base64urlEncodedSize_exact (.ofNat data.length) sizeMaxWord
  rw [toNat_ofNat_length h] at hsize
  rw [size_eq_some hsize]
  refine and_iff_left_of_imp fun heq => ?_
  rw [← heq]
  exact Nat.le_of_lt_succ size.toNat_lt

theorem base64urlEncode_eq_some {data text : Bytes} {size : UInt64} (h : data.length ≤ sizeMax) :
    base64urlEncode data size = some text ↔
      size.toNat = encodedLength data.length ∧ base64urlEncodeBlocks data = text := by
  simp [base64urlEncode, base64urlEncodedSize_eq_some h]

theorem exists_decode {text : Bytes} (hvalid : base64urlValid text = true) (h : text.length ≤ sizeMax) :
    ∃ size, base64urlDecodedSizeWord (.ofNat text.length) sizeMaxWord = some size ∧
      base64urlDecode text size.toNat = some (base64urlBlocks text) := by
  have hfits : decodedLength text.length ≤ sizeMax := by
    rw [decodedLength]
    omega
  have hsize : (UInt64.ofNat (decodedLength text.length)).toNat = decodedLength text.length :=
    UInt64.toNat_ofNat_of_lt (Nat.lt_succ_of_le hfits)
  refine ⟨_, (base64urlDecodedSizeWord_eq_some h).mpr hsize, ?_⟩
  simp [base64urlDecode, base64urlDecodedSize_exact, hvalid, hfits, hsize]

theorem exists_encode {data : Bytes} (h : data.length ≤ sizeMax)
    (hfits : encodedLength data.length ≤ sizeMax) :
    ∃ size, base64urlEncodedSize (.ofNat data.length) sizeMaxWord = some size ∧
      base64urlEncode data size = some (base64urlEncodeBlocks data) := by
  have hsize : (UInt64.ofNat (encodedLength data.length)).toNat = encodedLength data.length :=
    UInt64.toNat_ofNat_of_lt (Nat.lt_succ_of_le hfits)
  exact ⟨_, (base64urlEncodedSize_eq_some h).mpr hsize, (base64urlEncode_eq_some h).mpr ⟨hsize, rfl⟩⟩

/-- The bytes of a valid text encode to the text. -/
theorem exists_encode_of_valid {text : Bytes} (hvalid : base64urlValid text = true)
    (h : text.length ≤ sizeMax) :
    (base64urlBlocks text).length ≤ sizeMax ∧
      ∃ size, base64urlEncodedSize (.ofNat (base64urlBlocks text).length) sizeMaxWord = some size ∧
        base64urlEncode (base64urlBlocks text) size = some text := by
  have hlength : (base64urlBlocks text).length ≤ sizeMax := by
    rw [length_blocks, decodedLength]
    omega
  have hencoded := (canonical_of_valid hvalid).encoded
  have hfits : encodedLength (base64urlBlocks text).length ≤ sizeMax := by
    rw [← length_encode, ← hencoded]
    exact h
  obtain ⟨size, hsize, htext⟩ := exists_encode hlength hfits
  exact ⟨hlength, size, hsize, htext.trans (congrArg some hencoded.symm)⟩

/-- Encoding and decoding are inverse to each other between byte strings and valid
texts, and the two sizes are exact. -/
theorem base64url_bijection :
    (∀ data : Bytes, data ≠ [] → data.length ≤ sizeMax → ∀ size,
      base64urlEncodedSize (.ofNat data.length) sizeMaxWord = some size →
      ∃ text, base64urlEncode data size = some text ∧ base64urlValid text = true ∧
        ∃ decodedSize, base64urlDecodedSizeWord (.ofNat text.length) sizeMaxWord = some decodedSize ∧
          base64urlDecode text decodedSize.toNat = some data) ∧
    (∀ text : Bytes, text.length ≤ sizeMax → base64urlValid text = true →
      ∃ decodedSize data, base64urlDecodedSizeWord (.ofNat text.length) sizeMaxWord = some decodedSize ∧
        base64urlDecode text decodedSize.toNat = some data ∧
        ∃ size, base64urlEncodedSize (.ofNat data.length) sizeMaxWord = some size ∧
          base64urlEncode data size = some text) ∧
    (∀ text : Bytes, text.length ≤ sizeMax → (base64urlValid text = true ↔
      ∃ data size, data ≠ [] ∧ data.length ≤ sizeMax ∧
        base64urlEncodedSize (.ofNat data.length) sizeMaxWord = some size ∧
        base64urlEncode data size = some text)) ∧
    (∀ length maximum : UInt64, (base64urlEncodedSize length maximum).map UInt64.toNat =
      if encodedLength length.toNat ≤ maximum.toNat then some (encodedLength length.toNat) else none) ∧
    ∀ length maximum : UInt64, (base64urlDecodedSizeWord length maximum).map UInt64.toNat =
      if decodedLength length.toNat ≤ maximum.toNat then some (decodedLength length.toNat) else none := by
  refine ⟨?_, ?_, ?_, base64urlEncodedSize_exact, base64urlDecodedSizeWord_exact⟩
  · intro data hne hlength size hsize
    have hnat := (base64urlEncodedSize_eq_some hlength).mp hsize
    have htext : (base64urlEncodeBlocks data).length ≤ sizeMax := by
      rw [length_encode, ← hnat]
      exact Nat.le_of_lt_succ size.toNat_lt
    have hvalid := base64urlValid_encode hne
    obtain ⟨decodedSize, hdecoded, hdecode⟩ := exists_decode hvalid htext
    rw [blocks_encode] at hdecode
    exact ⟨_, (base64urlEncode_eq_some hlength).mpr ⟨hnat, rfl⟩, hvalid, decodedSize, hdecoded, hdecode⟩
  · intro text hlength hvalid
    obtain ⟨decodedSize, hdecoded, hdecode⟩ := exists_decode hvalid hlength
    exact ⟨decodedSize, _, hdecoded, hdecode, (exists_encode_of_valid hvalid hlength).2⟩
  · intro text hlength
    constructor
    · intro hvalid
      obtain ⟨hdata, size, hsize, hencode⟩ := exists_encode_of_valid hvalid hlength
      exact ⟨_, size, (canonical_of_valid hvalid).nonempty, hdata, hsize, hencode⟩
    · rintro ⟨data, size, hne, hdata, _, hencode⟩
      obtain ⟨_, rfl⟩ := (base64urlEncode_eq_some hdata).mp hencode
      exact base64urlValid_encode hne

end OAuthValidator
