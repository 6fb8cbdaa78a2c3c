import OAuthValidator.Text

/-! Canonical unpadded base64url. Groups of six bits occupy disjoint positions
of a word, so in proofs the shifts and ors of the source are products and sums. -/

namespace OAuthValidator

/-- The six-bit value of a character; `none` is the -1 of the source. -/
def base64urlValue (b : UInt8) : Option Nat :=
  if 0x41 ≤ b && b ≤ 0x5a then some (b.toNat - 0x41)
  else if 0x61 ≤ b && b ≤ 0x7a then some (b.toNat - 0x61 + 26)
  else if 0x30 ≤ b && b ≤ 0x39 then some (b.toNat - 0x30 + 52)
  else if b == 0x2d then some 62
  else if b == 0x5f then some 63
  else none

def base64urlDigit (b : UInt8) : Nat :=
  (base64urlValue b).getD 0

def base64urlValid (data : Bytes) : Bool :=
  let last := (data.getLast?.map base64urlDigit).getD 0
  !data.isEmpty && data.length % 4 != 1 && data.all (fun b => (base64urlValue b).isSome) &&
    !(data.length % 4 == 2 && last % 16 != 0) && !(data.length % 4 == 3 && last % 4 != 0)

def base64urlDecodedSize (encodedLength maximum : Nat) : Option Nat :=
  let length := encodedLength / 4 * 3 +
    (if encodedLength % 4 == 2 then 1 else if encodedLength % 4 == 3 then 2 else 0)
  if maximum < length then none else some length

/-- The blocks of four characters and the shorter last block. -/
def base64urlBlocks : Bytes → Bytes
  | a :: b :: c :: d :: rest =>
    let bits := base64urlDigit a <<< 18 ||| base64urlDigit b <<< 12 ||| base64urlDigit c <<< 6 |||
      base64urlDigit d
    (bits >>> 16).toUInt8 :: (bits >>> 8).toUInt8 :: bits.toUInt8 :: base64urlBlocks rest
  | [a, b] =>
    let bits := base64urlDigit a <<< 6 ||| base64urlDigit b
    [(bits >>> 4).toUInt8]
  | [a, b, c] =>
    let bits := base64urlDigit a <<< 12 ||| base64urlDigit b <<< 6 ||| base64urlDigit c
    [(bits >>> 10).toUInt8, (bits >>> 2).toUInt8]
  | _ => []

def base64urlDecode (data : Bytes) (decodedSize : Nat) : Option Bytes :=
  if base64urlValid data && base64urlDecodedSize data.length sizeMax == some decodedSize then
    some (base64urlBlocks data)
  else none

def base64urlAlphabet : Bytes :=
  ascii "ABCDEFGHIJKLMNOPQRSTUVWXYZabcdefghijklmnopqrstuvwxyz0123456789-_"

/-- `base64url_alphabet[bits & 63]`. -/
def base64urlChar (bits : Nat) : UInt8 :=
  base64urlAlphabet.getD (bits &&& 63) 0

/-- The blocks of three bytes and the shorter last block. -/
def base64urlEncodeBlocks : Bytes → Bytes
  | a :: b :: c :: rest =>
    let bits := a.toNat <<< 16 ||| b.toNat <<< 8 ||| c.toNat
    base64urlChar (bits >>> 18) :: base64urlChar (bits >>> 12) :: base64urlChar (bits >>> 6) ::
      base64urlChar bits :: base64urlEncodeBlocks rest
  | [a] =>
    let bits := a.toNat <<< 4
    [base64urlChar (bits >>> 6), base64urlChar bits]
  | [a, b] =>
    let bits := a.toNat <<< 10 ||| b.toNat <<< 2
    [base64urlChar (bits >>> 12), base64urlChar (bits >>> 6), base64urlChar bits]
  | [] => []

/-- The text is the one encoding of the data, which is not empty. -/
structure CanonicalBase64url (text data : Bytes) : Prop where
  nonempty : data ≠ []
  encoded : text = base64urlEncodeBlocks data

theorem base64urlDigit_lt (b : UInt8) : base64urlDigit b < 64 :=
  forall_byte (P := fun b => base64urlDigit b < 64) (by decide +kernel) b

theorem base64urlChar_digit {b : UInt8} (h : (base64urlValue b).isSome = true) :
    base64urlChar (base64urlDigit b) = b :=
  forall_byte (P := fun b => (base64urlValue b).isSome = true → base64urlChar (base64urlDigit b) = b)
    (by decide +kernel) b h

theorem base64urlChar_eq {bits : Nat} {b : UInt8} (hb : (base64urlValue b).isSome = true)
    (h : bits % 64 = base64urlDigit b) : base64urlChar bits = b := by
  have hand : ∀ n, n &&& 63 = n % 64 := fun n => Nat.and_two_pow_sub_one_eq_mod n 6
  have hmod : base64urlChar bits = base64urlChar (bits % 64) := by
    simp only [base64urlChar, hand, Nat.mod_mod]
  rw [hmod, h, base64urlChar_digit hb]

theorem or_eq_add {x y : Nat} (k : Nat) (hx : 1 <<< k ∣ x) (hy : y < 1 <<< k) : x ||| y = x + y := by
  rw [Nat.one_shiftLeft] at hx hy
  obtain ⟨m, rfl⟩ := hx
  rw [Nat.mul_comm, ← Nat.shiftLeft_eq, Nat.shiftLeft_add_eq_or_of_lt hy]

/-- The word of three groups, the last of width `k` and the one before of width `j`. -/
theorem or_three {x y z : Nat} (j k : Nat) (hx : 1 <<< (j + k) ∣ x) (hy : y < 1 <<< (j + k))
    (hy' : 1 <<< k ∣ y) (hz : z < 1 <<< k) : x ||| y ||| z = x + y + z := by
  have hdvd : 1 <<< k ∣ x := by
    rw [Nat.one_shiftLeft] at hx ⊢
    exact Nat.dvd_trans (Nat.pow_dvd_pow 2 (Nat.le_add_left k j)) hx
  rw [or_eq_add (j + k) hx hy, or_eq_add k (Nat.dvd_add hdvd hy') hz]

/-- The word of two, three or four digits, and of two or three bytes. -/
theorem digits_word {p q r s : Nat} (hq : q < 64) (hr : r < 64) (hs : s < 64) :
    p <<< 18 ||| q <<< 12 ||| r <<< 6 ||| s = p * 262144 + q * 4096 + r * 64 + s := by
  simp only [Nat.shiftLeft_eq, Nat.reducePow]
  have h3 : p * 262144 ||| q * 4096 ||| r * 64 = p * 262144 + q * 4096 + r * 64 :=
    or_three 6 12 (Nat.dvd_mul_left _ p) (show q * 4096 < 262144 by omega) (Nat.dvd_mul_left _ q)
      (show r * 64 < 4096 by omega)
  rw [h3, or_eq_add 6 (show 64 ∣ _ by omega) hs]

theorem three_digits_word {p q r : Nat} (hq : q < 64) (hr : r < 64) :
    p <<< 12 ||| q <<< 6 ||| r = p * 4096 + q * 64 + r := by
  simp only [Nat.shiftLeft_eq, Nat.reducePow]
  exact or_three 6 6 (Nat.dvd_mul_left _ p) (show q * 64 < 4096 by omega) (Nat.dvd_mul_left _ q) hr

theorem bytes_word {a b c : Nat} (hb : b < 256) (hc : c < 256) :
    a <<< 16 ||| b <<< 8 ||| c = a * 65536 + b * 256 + c := by
  simp only [Nat.shiftLeft_eq, Nat.reducePow]
  exact or_three 8 8 (Nat.dvd_mul_left _ a) (show b * 256 < 65536 by omega) (Nat.dvd_mul_left _ b) hc

theorem two_digits_word {p q : Nat} (hq : q < 64) : p <<< 6 ||| q = p * 64 + q := by
  simp only [Nat.shiftLeft_eq, Nat.reducePow]
  exact or_eq_add 6 (Nat.dvd_mul_left _ p) hq

theorem two_bytes_word {a b : Nat} (hb : b < 256) : a <<< 10 ||| b <<< 2 = a * 1024 + b * 4 := by
  simp only [Nat.shiftLeft_eq, Nat.reducePow]
  exact or_eq_add 10 (Nat.dvd_mul_left _ a) (show b * 4 < 1024 by omega)

theorem encode_four {a b c d : UInt8} {rest : Bytes} (ha : (base64urlValue a).isSome = true)
    (hb : (base64urlValue b).isSome = true) (hc : (base64urlValue c).isSome = true)
    (hd : (base64urlValue d).isSome = true) :
    base64urlEncodeBlocks (base64urlBlocks (a :: b :: c :: d :: rest)) =
      a :: b :: c :: d :: base64urlEncodeBlocks (base64urlBlocks rest) := by
  have hp := base64urlDigit_lt a
  have hq := base64urlDigit_lt b
  have hr := base64urlDigit_lt c
  have hs := base64urlDigit_lt d
  simp only [base64urlBlocks, base64urlEncodeBlocks, digits_word hq hr hs]
  rw [bytes_word (UInt8.toNat_lt _) (UInt8.toNat_lt _)]
  simp only [Nat.toUInt8, UInt8.toNat_ofNat', Nat.shiftRight_eq_div_pow, List.cons.injEq,
    and_true]
  refine ⟨base64urlChar_eq ha ?_, base64urlChar_eq hb ?_, base64urlChar_eq hc ?_,
    base64urlChar_eq hd ?_⟩ <;> omega

theorem encode_two {a b : UInt8} (ha : (base64urlValue a).isSome = true)
    (hb : (base64urlValue b).isSome = true) (hz : base64urlDigit b % 16 = 0) :
    base64urlEncodeBlocks (base64urlBlocks [a, b]) = [a, b] := by
  have hp := base64urlDigit_lt a
  have hq := base64urlDigit_lt b
  simp only [base64urlBlocks, base64urlEncodeBlocks, two_digits_word hq]
  simp only [Nat.toUInt8, UInt8.toNat_ofNat', Nat.shiftRight_eq_div_pow, Nat.shiftLeft_eq,
    List.cons.injEq, and_true]
  refine ⟨base64urlChar_eq ha ?_, base64urlChar_eq hb ?_⟩ <;> omega

theorem encode_three {a b c : UInt8} (ha : (base64urlValue a).isSome = true)
    (hb : (base64urlValue b).isSome = true) (hc : (base64urlValue c).isSome = true)
    (hz : base64urlDigit c % 4 = 0) :
    base64urlEncodeBlocks (base64urlBlocks [a, b, c]) = [a, b, c] := by
  have hp := base64urlDigit_lt a
  have hq := base64urlDigit_lt b
  have hr := base64urlDigit_lt c
  simp only [base64urlBlocks, base64urlEncodeBlocks, three_digits_word hq hr]
  rw [two_bytes_word (UInt8.toNat_lt _)]
  simp only [Nat.toUInt8, UInt8.toNat_ofNat', Nat.shiftRight_eq_div_pow, List.cons.injEq,
    and_true]
  refine ⟨base64urlChar_eq ha ?_, base64urlChar_eq hb ?_, base64urlChar_eq hc ?_⟩ <;> omega

def lastDigit (data : Bytes) : Nat :=
  (data.getLast?.map base64urlDigit).getD 0

theorem lastDigit_append {block rest : Bytes} (h : rest ≠ []) :
    lastDigit (block ++ rest) = lastDigit rest := by
  rw [lastDigit, lastDigit, List.getLast?_append_of_ne_nil _ h]

/-- Decoding loses nothing of a text without stray bits. -/
theorem encode_blocks (text : Bytes) (hchars : ∀ b ∈ text, (base64urlValue b).isSome = true)
    (h1 : text.length % 4 ≠ 1) (h2 : text.length % 4 = 2 → lastDigit text % 16 = 0)
    (h3 : text.length % 4 = 3 → lastDigit text % 4 = 0) :
    base64urlEncodeBlocks (base64urlBlocks text) = text := by
  match text with
  | [] => rfl
  | [a] => simp at h1
  | [a, b] => exact encode_two (hchars a (by simp)) (hchars b (by simp)) (h2 rfl)
  | [a, b, c] =>
    exact encode_three (hchars a (by simp)) (hchars b (by simp)) (hchars c (by simp)) (h3 rfl)
  | a :: b :: c :: d :: rest =>
    -- the last digit of a longer text is the one of what follows the block
    have hlast : rest ≠ [] → lastDigit (a :: b :: c :: d :: rest) = lastDigit rest :=
      @lastDigit_append [a, b, c, d] rest
    have hlength : (a :: b :: c :: d :: rest).length % 4 = rest.length % 4 := by
      simp only [List.length_cons]
      omega
    have hne : rest.length % 4 ≠ 0 → rest ≠ [] := by
      rintro h rfl
      exact h rfl
    have ih := encode_blocks rest (fun e he => hchars e (by simp [he])) (hlength ▸ h1)
      (fun h => hlast (hne (by omega)) ▸ h2 (hlength ▸ h))
      (fun h => hlast (hne (by omega)) ▸ h3 (hlength ▸ h))
    rw [encode_four (hchars a (by simp)) (hchars b (by simp)) (hchars c (by simp))
      (hchars d (by simp)), ih]

theorem base64urlBlocks_ne_nil {text : Bytes} (h : text ≠ []) (h1 : text.length % 4 ≠ 1) :
    base64urlBlocks text ≠ [] := by
  match text with
  | [] => exact absurd rfl h
  | [a] => simp at h1
  | [a, b] => simp [base64urlBlocks]
  | [a, b, c] => simp [base64urlBlocks]
  | a :: b :: c :: d :: rest => simp [base64urlBlocks]

theorem canonical_of_valid {text : Bytes} (h : base64urlValid text = true) :
    CanonicalBase64url text (base64urlBlocks text) := by
  simp only [base64urlValid, Bool.and_eq_true, Bool.not_eq_true', bne_iff_ne, List.all_eq_true,
    List.isEmpty_eq_false_iff, Bool.and_eq_false_imp, bne_eq_false_iff_eq, beq_iff_eq] at h
  obtain ⟨⟨⟨⟨hne, h1⟩, hchars⟩, h2⟩, h3⟩ := h
  exact ⟨base64urlBlocks_ne_nil hne h1, (encode_blocks text hchars h1 h2 h3).symm⟩

end OAuthValidator
