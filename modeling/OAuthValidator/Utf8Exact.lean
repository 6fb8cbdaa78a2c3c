import OAuthValidator.IdentityAgreement

/-! The UTF-8 check of identities as the code runs it, with indices into the string.
It accepts the encodings of characters without controls, and every byte it reads is
a byte of the string. -/

namespace OAuthValidator

namespace Indexed

/-- `value[index]`; the error is an index outside the string. -/
def byteAt (value : Bytes) (index : Nat) : Except Nat UInt8 :=
  given value[index]? index

/-- The bytes `i`, ..., `continuations` after the first one of a character; `none` is
a byte that continues no character. -/
def continuationLoop (value : Bytes) (index continuations i : Nat) (codepoint : UInt32) :
    Except Nat (Option UInt32) :=
  if continuations < i then .ok (some codepoint)
  else do
    let byte ← byteAt value (index + i)
    if byte &&& 0xc0 != 0x80 then return none
    else continuationLoop value index continuations (i + 1) (codepoint <<< 6 ||| (byte &&& 0x3f).toUInt32)
termination_by continuations + 1 - i

/-- The continuation bytes that a first byte announces, with its own bits. -/
def leadByte (first : UInt8) : Option (Nat × UInt8) :=
  if 0xc2 ≤ first && first ≤ 0xdf then some (1, first &&& 0x1f)
  else if 0xe0 ≤ first && first ≤ 0xef then some (2, first &&& 0x0f)
  else if 0xf0 ≤ first && first ≤ 0xf4 then some (3, first &&& 0x07)
  else none

def refusedCodepoint (continuations : Nat) (codepoint : UInt32) : Bool :=
  (continuations == 2 && codepoint < 0x800) || (continuations == 3 && codepoint < 0x10000) ||
    (0x80 ≤ codepoint && codepoint ≤ 0x9f) || (0xd800 ≤ codepoint && codepoint ≤ 0xdfff) ||
    0x10ffff < codepoint

/-- One pass of the loop, which returns the next index or `none` when the string is
refused. The index is less than the length, so that `length - index - 1` does not wrap. -/
def validUtf8Step (value : Bytes) (index : Nat) : Except Nat (Option Nat) := do
  let first ← byteAt value index
  if first ≤ 0x7f then
    return if first < 0x20 || first == 0x7f then none else some (index + 1)
  else
    match leadByte first with
    | none => return none
    | some (continuations, bits) =>
      if value.length - index - 1 < continuations then return none
      else
        match ← continuationLoop value index continuations 1 bits.toUInt32 with
        | none => return none
        | some codepoint =>
          return if refusedCodepoint continuations codepoint then none else some (index + (continuations + 1))

theorem validUtf8Step_lt {value : Bytes} {index next : Nat} (h : validUtf8Step value index = .ok (some next)) :
    index < next := by
  simp only [validUtf8Step, except_bind_eq_ok] at h
  obtain ⟨first, _, h⟩ := h
  split at h
  · simp only [except_pure_eq_ok] at h
    split at h
    · simp at h
    · have := Option.some.inj h
      omega
  · split at h
    · simp at h
    · split at h
      · simp at h
      · simp only [except_bind_eq_ok] at h
        obtain ⟨result, _, h⟩ := h
        split at h
        · simp at h
        · simp only [except_pure_eq_ok] at h
          split at h
          · simp at h
          · have := Option.some.inj h
            omega

def validUtf8Loop (value : Bytes) (index : Nat) : Except Nat Bool :=
  if index < value.length then
    match _hstep : validUtf8Step value index with
    | .error outside => .error outside
    | .ok none => .ok false
    | .ok (some next) => validUtf8Loop value next
  else .ok true
termination_by value.length - index
decreasing_by
  have hlt := validUtf8Step_lt _hstep
  omega

def validUtf8 (value : Bytes) : Except Nat Bool :=
  validUtf8Loop value 0

/-! The loop and the recursion over the bytes. -/

theorem byteAt_append (pre rest : Bytes) (b : UInt8) : byteAt (pre ++ b :: rest) pre.length = .ok b := by
  simp [byteAt, given]

def addBits (codepoint : UInt32) (b : UInt8) : UInt32 :=
  codepoint <<< 6 ||| (b &&& 0x3f).toUInt32

theorem continuationLoop_eq (pre rest : Bytes) (first : UInt8) (passed bytes : Bytes) (codepoint : UInt32) :
    continuationLoop (pre ++ first :: (passed ++ (bytes ++ rest))) pre.length (passed.length + bytes.length)
        (passed.length + 1) codepoint =
      .ok (if bytes.all (fun b => b &&& 0xc0 == 0x80) then some (bytes.foldl addBits codepoint) else none) := by
  induction bytes generalizing passed codepoint with
  | nil => rw [continuationLoop, if_pos (by simp)]; simp
  | cons b bytes ih =>
    have hread : byteAt (pre ++ first :: (passed ++ (b :: bytes ++ rest))) (pre.length + (passed.length + 1)) =
        .ok b := by
      have := byteAt_append (pre ++ first :: passed) (bytes ++ rest) b
      simpa using this
    have hnext := ih (passed ++ [b]) (addBits codepoint b)
    rw [continuationLoop, if_neg (by simp), hread, List.all_cons, List.foldl_cons]
    cases htail : b &&& 0xc0 == 0x80 with
    | false =>
      have hbad : (b &&& 0xc0 != 0x80) = true := by rw [bne, htail]; rfl
      simp [bind, Except.bind, hbad, pure, Except.pure]
    | true =>
      have hgood : (b &&& 0xc0 != 0x80) = false := by rw [bne, htail]; rfl
      simp only [List.append_assoc, List.singleton_append, List.length_append, List.length_singleton] at hnext
      simp only [bind, Except.bind, hgood, Bool.true_and, List.length_cons, List.cons_append,
        Bool.false_eq_true, if_false]
      rw [show passed.length + (bytes.length + 1) = passed.length + 1 + bytes.length by omega]
      exact hnext

-- The first byte has so few bits that none is shifted out of the word.
theorem toNat_addBits {codepoint : UInt32} (b : UInt8) (h : codepoint.toNat < 67108864) :
    (addBits codepoint b).toNat = codepoint.toNat <<< 6 ||| (b &&& 0x3f).toNat := by
  have hshift : (codepoint <<< 6).toNat = codepoint.toNat <<< 6 := by
    rw [UInt32.toNat_shiftLeft, Nat.shiftLeft_eq, Nat.shiftLeft_eq]
    exact Nat.mod_eq_of_lt (by simp; omega)
  rw [addBits, UInt32.toNat_or, hshift, UInt8.toNat_toUInt32]

theorem toNat_addBits_lt {codepoint : UInt32} (b : UInt8) (h : codepoint.toNat < 67108864) :
    (addBits codepoint b).toNat < (codepoint.toNat + 1) * 64 := by
  have hlow : (b &&& 0x3f).toNat < 64 := by
    rw [UInt8.toNat_and]
    exact Nat.lt_succ_of_le Nat.and_le_right
  rw [toNat_addBits b h, ← Nat.shiftLeft_add_eq_or_of_lt hlow, Nat.shiftLeft_eq]
  omega

theorem toNat_foldl_addBits (bytes : Bytes) (codepoint : UInt32)
    (h : (codepoint.toNat + 1) <<< (6 * bytes.length) ≤ 4294967296) :
    (bytes.foldl addBits codepoint).toNat =
      bytes.foldl (fun value b => value <<< 6 ||| (b &&& 0x3f).toNat) codepoint.toNat := by
  induction bytes generalizing codepoint with
  | nil => rfl
  | cons b bytes ih =>
    have hroom : ((codepoint.toNat + 1) * 64) <<< (6 * bytes.length) ≤ 4294967296 := by
      rw [List.length_cons, Nat.mul_succ, Nat.shiftLeft_eq, Nat.pow_add] at h
      rw [Nat.shiftLeft_eq, Nat.mul_assoc, Nat.mul_comm 64]
      exact h
    have hsmall : codepoint.toNat < 67108864 := by
      have hle : (codepoint.toNat + 1) * 64 ≤ ((codepoint.toNat + 1) * 64) <<< (6 * bytes.length) := by
        rw [Nat.shiftLeft_eq]
        exact Nat.le_mul_of_pos_right _ (Nat.two_pow_pos _)
      omega
    have hlt := toNat_addBits_lt b hsmall
    rw [List.foldl_cons, List.foldl_cons, ← toNat_addBits b hsmall]
    refine ih _ (Nat.le_trans ?_ hroom)
    rw [Nat.shiftLeft_eq, Nat.shiftLeft_eq]
    exact Nat.mul_le_mul_right _ hlt

theorem validUtf8Char_eq {bits : UInt8} {bytes : Bytes}
    (h : (bits.toNat + 1) <<< (6 * bytes.length) ≤ 4294967296) :
    validUtf8Char bits bytes = (bytes.all (fun b => b &&& 0xc0 == 0x80) &&
      !refusedCodepoint bytes.length (bytes.foldl addBits bits.toUInt32)) := by
  have hcode := toNat_foldl_addBits bytes bits.toUInt32 h
  rw [UInt8.toNat_toUInt32] at hcode
  simp only [validUtf8Char, refusedCodepoint, ← hcode, UInt32.lt_iff_toNat_lt, UInt32.le_iff_toNat_le]
  rfl

section Lead

variable {first bits : UInt8} {continuations : Nat} {pre bytes rest : Bytes}

theorem leadByte_cases (h : leadByte first = some (continuations, bits)) :
    (continuations = 1 ∧ bits = first &&& 0x1f ∧ 0xc2 ≤ first ∧ first ≤ 0xdf) ∨
    (continuations = 2 ∧ bits = first &&& 0x0f ∧ 0xe0 ≤ first ∧ first ≤ 0xef) ∨
    (continuations = 3 ∧ bits = first &&& 0x07 ∧ 0xf0 ≤ first ∧ first ≤ 0xf4) := by
  unfold leadByte at h
  split_ifs at h with hpair htriple hquad
  all_goals
    obtain ⟨rfl, rfl⟩ := Prod.mk.inj (Option.some.inj h)
    simp_all

theorem leadByte_room (h : leadByte first = some (continuations, bits)) :
    (bits.toNat + 1) <<< (6 * continuations) ≤ 4294967296 := by
  have hbits (mask : UInt8) : (first &&& mask).toNat ≤ mask.toNat := by
    rw [UInt8.toNat_and]
    exact Nat.and_le_right
  rcases leadByte_cases h with ⟨rfl, rfl, _⟩ | ⟨rfl, rfl, _⟩ | ⟨rfl, rfl, _⟩
  · have hle : (first &&& 0x1f).toNat ≤ 31 := hbits 0x1f
    simp only [Nat.shiftLeft_eq, Nat.reduceMul, Nat.reducePow]
    omega
  · have hle : (first &&& 0x0f).toNat ≤ 15 := hbits 0x0f
    simp only [Nat.shiftLeft_eq, Nat.reduceMul, Nat.reducePow]
    omega
  · have hle : (first &&& 0x07).toNat ≤ 7 := hbits 0x07
    simp only [Nat.shiftLeft_eq, Nat.reduceMul, Nat.reducePow]
    omega

theorem validUtf8_lead (h : leadByte first = some (bytes.length, bits)) :
    OAuthValidator.validUtf8 (first :: (bytes ++ rest)) =
      (validUtf8Char bits bytes && OAuthValidator.validUtf8 rest) := by
  rcases leadByte_cases h with ⟨hlength, rfl, hlow, hhigh⟩ | ⟨hlength, rfl, hlow, hhigh⟩ |
    ⟨hlength, rfl, hlow, hhigh⟩
  · obtain ⟨b, rfl⟩ := List.length_eq_one_iff.mp hlength
    exact validUtf8_pair hlow hhigh
  · obtain ⟨b, c, rfl⟩ := List.length_eq_two.mp hlength
    exact validUtf8_triple hlow hhigh
  · obtain ⟨b, c, d, rfl⟩ := List.length_eq_three.mp hlength
    exact validUtf8_quad hlow hhigh

theorem validUtf8_truncated (hascii : ¬ first ≤ 0x7f)
    (h : ∀ continuations bits, leadByte first = some (continuations, bits) → rest.length < continuations) :
    OAuthValidator.validUtf8 (first :: rest) = false := by
  rw [OAuthValidator.validUtf8.eq_def]
  simp only [if_neg hascii]
  by_cases hpair : (0xc2 ≤ first && first ≤ 0xdf) = true
  · have hshort := h 1 _ (by rw [leadByte, if_pos hpair])
    rw [if_pos hpair]
    split
    · simp only [List.length_cons] at hshort
      omega
    · rfl
  by_cases htriple : (0xe0 ≤ first && first ≤ 0xef) = true
  · have hshort := h 2 _ (by rw [leadByte, if_neg hpair, if_pos htriple])
    rw [if_neg hpair, if_pos htriple]
    split
    · simp only [List.length_cons] at hshort
      omega
    · rfl
  by_cases hquad : (0xf0 ≤ first && first ≤ 0xf4) = true
  · have hshort := h 3 _ (by rw [leadByte, if_neg hpair, if_neg htriple, if_pos hquad])
    rw [if_neg hpair, if_neg htriple, if_pos hquad]
    split
    · simp only [List.length_cons] at hshort
      omega
    · rfl
  rw [if_neg hpair, if_neg htriple, if_neg hquad]

theorem validUtf8Step_ascii (pre rest : Bytes) (hascii : first ≤ 0x7f) :
    validUtf8Step (pre ++ first :: rest) pre.length =
      .ok (if first < 0x20 || first == 0x7f then none else some (pre.length + 1)) := by
  rw [validUtf8Step, byteAt_append]
  simp only [bind, Except.bind, hascii, if_true, pure, Except.pure]

theorem validUtf8Step_truncated (hascii : ¬ first ≤ 0x7f)
    (h : ∀ continuations bits, leadByte first = some (continuations, bits) → rest.length < continuations) :
    validUtf8Step (pre ++ first :: rest) pre.length = .ok none := by
  rw [validUtf8Step, byteAt_append]
  simp only [bind, Except.bind, hascii, if_false, pure, Except.pure]
  cases hlead : leadByte first with
  | none => rfl
  | some lead =>
    have hshort := h lead.1 lead.2 hlead
    have hlength : (pre ++ first :: rest).length - pre.length - 1 < lead.1 := by simp; omega
    simp only [hlength, if_true]

theorem validUtf8Step_lead (pre rest : Bytes) (hascii : ¬ first ≤ 0x7f)
    (h : leadByte first = some (bytes.length, bits)) :
    validUtf8Step (pre ++ first :: (bytes ++ rest)) pre.length =
      .ok (if validUtf8Char bits bytes then some (pre.length + (bytes.length + 1)) else none) := by
  have hlength : ¬ (pre ++ first :: (bytes ++ rest)).length - pre.length - 1 < bytes.length := by simp
  have hloop := continuationLoop_eq pre rest first [] bytes bits.toUInt32
  simp only [List.nil_append, List.length_nil, Nat.zero_add] at hloop
  rw [validUtf8Step, byteAt_append, validUtf8Char_eq (leadByte_room h)]
  simp only [bind, Except.bind, hascii, if_false, pure, Except.pure, h, hlength, hloop]
  cases bytes.all (fun b => b &&& 0xc0 == 0x80) with
  | false => simp
  | true => cases hrefused : refusedCodepoint bytes.length (bytes.foldl addBits bits.toUInt32) <;> simp [hrefused]

/-- The bytes that a first byte announces all follow it, or some are missing. -/
theorem lead_cases (first : UInt8) (rest : Bytes) :
    (∃ bytes tail bits, rest = bytes ++ tail ∧ leadByte first = some (bytes.length, bits)) ∨
      ∀ continuations bits, leadByte first = some (continuations, bits) → rest.length < continuations := by
  cases hlead : leadByte first with
  | none => exact Or.inr fun _ _ h => by simp at h
  | some lead =>
    by_cases henough : lead.1 ≤ rest.length
    · refine Or.inl ⟨rest.take lead.1, rest.drop lead.1, lead.2, (List.take_append_drop _ _).symm, ?_⟩
      rw [List.length_take_of_le henough]
    · refine Or.inr fun continuations bits h => ?_
      obtain rfl := Option.some.inj h
      exact Nat.not_le.mp henough

end Lead

theorem validUtf8Loop_refused {value : Bytes} {index : Nat} (hlt : index < value.length)
    (hstep : validUtf8Step value index = .ok none) : validUtf8Loop value index = .ok false := by
  rw [validUtf8Loop, if_pos hlt]
  split
  · next h => simp [h] at hstep
  · rfl
  · next h => simp [h] at hstep

theorem validUtf8Loop_next {value : Bytes} {index next : Nat} (hlt : index < value.length)
    (hstep : validUtf8Step value index = .ok (some next)) :
    validUtf8Loop value index = validUtf8Loop value next := by
  rw [validUtf8Loop, if_pos hlt]
  split
  · next h => simp [h] at hstep
  · next h => simp [h] at hstep
  · next next' h =>
    rw [h] at hstep
    rw [Option.some.inj (Except.ok.inj hstep)]

theorem validUtf8Loop_eq (pre rest : Bytes) :
    validUtf8Loop (pre ++ rest) pre.length = .ok (OAuthValidator.validUtf8 rest) := by
  induction hn : rest.length using Nat.strongRecOn generalizing pre rest with
  | ind n ih =>
  cases rest with
  | nil => rw [validUtf8Loop, if_neg (by simp), OAuthValidator.validUtf8]
  | cons first rest =>
    have hlt : pre.length < (pre ++ first :: rest).length := by simp
    rw [List.length_cons] at hn
    by_cases hascii : first ≤ 0x7f
    · have hstep := validUtf8Step_ascii pre rest hascii
      rw [validUtf8_single hascii]
      cases hcontrol : (decide (first < 0x20) || first == 0x7f) with
      | true =>
        rw [hcontrol, if_pos rfl] at hstep
        rw [validUtf8Loop_refused hlt hstep]
        rfl
      | false =>
        rw [hcontrol, if_neg (by simp)] at hstep
        have hnext := ih rest.length (by omega) (pre ++ [first]) rest rfl
        simp only [List.append_assoc, List.singleton_append, List.length_append, List.length_singleton] at hnext
        rw [validUtf8Loop_next hlt hstep, hnext]
        rfl
    rcases lead_cases first rest with ⟨bytes, tail, bits, rfl, hlead⟩ | hshort
    · have hstep := validUtf8Step_lead pre tail hascii hlead
      rw [validUtf8_lead hlead]
      cases hchar : validUtf8Char bits bytes with
      | false =>
        rw [hchar, if_neg (by simp)] at hstep
        rw [validUtf8Loop_refused hlt hstep]
        rfl
      | true =>
        rw [hchar, if_pos rfl] at hstep
        rw [List.length_append] at hn
        have hnext := ih tail.length (by omega) (pre ++ first :: bytes) tail rfl
        simp only [List.append_assoc, List.cons_append, List.length_append, List.length_cons] at hnext
        rw [validUtf8Loop_next hlt hstep, hnext]
        rfl
    · rw [validUtf8Loop_refused hlt (validUtf8Step_truncated hascii hshort), validUtf8_truncated hascii hshort]

theorem validUtf8_eq (value : Bytes) : validUtf8 value = .ok (OAuthValidator.validUtf8 value) :=
  validUtf8Loop_eq [] value

end Indexed

/-! The strings that pass are the encodings of characters that are no controls. -/

set_option maxRecDepth 8000 in
theorem byte_forms (b : UInt8) :
    ((b &&& 0xc0 == 0x80) = true → b.toNat = (b &&& 0x3f).toNat + 0x80) ∧
    (0xc2 ≤ b ∧ b ≤ 0xdf → b.toNat = (b &&& 0x1f).toNat + 0xc0) ∧
    (0xe0 ≤ b ∧ b ≤ 0xef → b.toNat = (b &&& 0x0f).toNat + 0xe0) ∧
    (0xf0 ≤ b ∧ b ≤ 0xf4 → b.toNat = (b &&& 0x07).toNat + 0xf0) := by
  induction b using forall_byte with
  | h n =>
    revert n
    decide

theorem byte_eq_ofNat {b : UInt8} {n : Nat} (h : b.toNat = n) : b = UInt8.ofNat n := by
  rw [← h, UInt8.ofNat_toNat]

/-- A continuation byte carries six bits. -/
theorem exists_tailByte {b : UInt8} (h : (b &&& 0xc0 == 0x80) = true) : ∃ n < 64, b = tailByte n := by
  have hvalue := (byte_forms b).1 h
  have hlt : (b &&& 0x3f).toNat < 64 := by
    rw [UInt8.toNat_and]
    exact Nat.lt_succ_of_le Nat.and_le_right
  exact ⟨_, hlt, by rw [tailByte, Nat.mod_eq_of_lt hlt]; exact byte_eq_ofNat hvalue⟩

theorem tailByte_congr {m n : Nat} (h : m % 64 = n % 64) : tailByte m = tailByte n := by
  rw [tailByte, tailByte, h]

theorem exists_scalar {n : Nat} (h : n < 0xd800 ∨ 0xdfff < n ∧ n < 0x110000) : ∃ c : Char, c.toNat = n :=
  ⟨Char.ofNatAux n h, rfl⟩

/-- What the checks of a decoded character leave: a scalar value that needs all its bytes. -/
theorem validUtf8Char_code {bits : UInt8} {bytes : Bytes} (h : validUtf8Char bits bytes = true) {code : Nat}
    (hcode : bytes.foldl (fun value b => value <<< 6 ||| (b &&& 0x3f).toNat) bits.toNat = code) :
    (code < 0xd800 ∨ 0xdfff < code ∧ code < 0x110000) ∧ (bytes.length = 2 → 0x800 ≤ code) ∧
      (bytes.length = 3 → 0x10000 ≤ code) := by
  simp only [validUtf8Char, hcode, Bool.and_eq_true, Bool.not_eq_true', Bool.or_eq_false_iff,
    Bool.and_eq_false_iff, beq_eq_false_iff_ne, decide_eq_false_iff_not] at h
  omega

section Encoding

variable {c : Char} {n i j k : Nat}

theorem encode_pair (hc : c.toNat = n * 64 + k) (hk : k < 64) (hlow : 2 ≤ n) (hhigh : n < 32) :
    String.utf8EncodeChar c = [UInt8.ofNat (n + 0xc0), tailByte k] := by
  rcases utf8EncodeChar_cases c with ⟨hle, heq⟩ | ⟨_, _, heq⟩ | ⟨hge, _, _, heq⟩ | ⟨hge, _, heq⟩
  · omega
  · rw [heq, tailByte_congr (by omega : c.toNat % 64 = k % 64), (by omega : c.toNat / 64 = n)]
  · omega
  · omega

theorem encode_triple (hc : c.toNat = (n * 64 + j) * 64 + k) (hj : j < 64) (hk : k < 64)
    (hlow : 0x800 ≤ c.toNat) (hhigh : n < 16) :
    String.utf8EncodeChar c = [UInt8.ofNat (n + 0xe0), tailByte j, tailByte k] := by
  rcases utf8EncodeChar_cases c with ⟨hle, heq⟩ | ⟨_, hle, heq⟩ | ⟨_, _, _, heq⟩ | ⟨hge, _, heq⟩
  · omega
  · omega
  · rw [heq, tailByte_congr (by omega : c.toNat % 64 = k % 64),
      tailByte_congr (by omega : c.toNat / 64 % 64 = j % 64), (by omega : c.toNat / 4096 = n)]
  · omega

theorem encode_quad (hc : c.toNat = ((n * 64 + i) * 64 + j) * 64 + k) (hi : i < 64) (hj : j < 64) (hk : k < 64)
    (hlow : 0x10000 ≤ c.toNat) :
    String.utf8EncodeChar c = [UInt8.ofNat (n + 0xf0), tailByte i, tailByte j, tailByte k] := by
  rcases utf8EncodeChar_cases c with ⟨hle, heq⟩ | ⟨_, hle, heq⟩ | ⟨_, hle, _, heq⟩ | ⟨_, _, heq⟩
  · omega
  · omega
  · omega
  · rw [heq, tailByte_congr (by omega : c.toNat % 64 = k % 64),
      tailByte_congr (by omega : c.toNat / 64 % 64 = j % 64),
      tailByte_congr (by omega : c.toNat / 4096 % 64 = i % 64), (by omega : c.toNat / 262144 = n)]

end Encoding

/-- Bytes that the loop decodes to a character are its encoding. -/
theorem exists_char {first bits : UInt8} {bytes : Bytes} (hlead : Indexed.leadByte first = some (bytes.length, bits))
    (hvalid : validUtf8Char bits bytes = true) : ∃ c : Char, String.utf8EncodeChar c = first :: bytes := by
  have htails : ∀ b ∈ bytes, ∃ n < 64, b = tailByte n := by
    simp only [validUtf8Char, Bool.and_eq_true, List.all_eq_true] at hvalid
    exact fun b hb => exists_tailByte (hvalid.1 b hb)
  obtain ⟨hscalar, htwo, hthree⟩ := validUtf8Char_code hvalid rfl
  obtain ⟨c, hc⟩ := exists_scalar hscalar
  rw [← hc] at htwo hthree
  obtain ⟨_, hpair, htriple, hquad⟩ := byte_forms first
  refine ⟨c, ?_⟩
  rcases Indexed.leadByte_cases hlead with ⟨hlength, rfl, hlow, hhigh⟩ | ⟨hlength, rfl, hlow, hhigh⟩ |
    ⟨hlength, rfl, hlow, hhigh⟩
  · have hfirst := hpair ⟨hlow, hhigh⟩
    rw [UInt8.le_iff_toNat_le] at hlow hhigh
    obtain ⟨b, rfl⟩ := List.length_eq_one_iff.mp hlength
    obtain ⟨k, hk, rfl⟩ := htails b (by simp)
    simp only [List.foldl_cons, List.foldl_nil, shift_tailByte, Nat.mod_eq_of_lt hk] at hc
    have hlow : 0xc2 ≤ first.toNat := hlow
    have hhigh : first.toNat ≤ 0xdf := hhigh
    rw [encode_pair hc hk (by omega) (by omega), ← byte_eq_ofNat hfirst]
  · have hfirst := htriple ⟨hlow, hhigh⟩
    obtain ⟨a, b, rfl⟩ := List.length_eq_two.mp hlength
    obtain ⟨j, hj, rfl⟩ := htails a (by simp)
    obtain ⟨k, hk, rfl⟩ := htails b (by simp)
    simp only [List.foldl_cons, List.foldl_nil, shift_tailByte, Nat.mod_eq_of_lt hj, Nat.mod_eq_of_lt hk] at hc
    have hhigh : first.toNat ≤ 0xef := hhigh
    rw [encode_triple hc hj hk (htwo rfl) (by omega), ← byte_eq_ofNat hfirst]
  · have hfirst := hquad ⟨hlow, hhigh⟩
    obtain ⟨a, b, d, rfl⟩ := List.length_eq_three.mp hlength
    obtain ⟨i, hi, rfl⟩ := htails a (by simp)
    obtain ⟨j, hj, rfl⟩ := htails b (by simp)
    obtain ⟨k, hk, rfl⟩ := htails d (by simp)
    simp only [List.foldl_cons, List.foldl_nil, shift_tailByte, Nat.mod_eq_of_lt hi, Nat.mod_eq_of_lt hj,
      Nat.mod_eq_of_lt hk] at hc
    rw [encode_quad hc hi hj hk (hthree rfl), ← byte_eq_ofNat hfirst]

theorem utf8Encode_injective {text other : List Char}
    (h : text.flatMap String.utf8EncodeChar = other.flatMap String.utf8EncodeChar) : text = other := by
  have hencoded : text.utf8Encode = other.utf8Encode := by rw [List.utf8Encode, List.utf8Encode, h]
  have hdecoded := congrArg ByteArray.utf8Decode? hencoded
  simpa [List.utf8Decode?_utf8Encode] using hdecoded

theorem validUtf8_encode (text : List Char) :
    validUtf8 (text.flatMap String.utf8EncodeChar) = text.all fun c => !controlChar c := by
  induction text with
  | nil => rfl
  | cons c text ih => rw [List.flatMap_cons, validUtf8_char, ih, List.all_cons]

theorem wellFormedUtf8_of_valid {value : Bytes} (h : validUtf8 value = true) : WellFormedUtf8 value := by
  induction hn : value.length using Nat.strongRecOn generalizing value with
  | ind n ih =>
  have hcons (c : Char) {rest : Bytes} (hvalue : value = String.utf8EncodeChar c ++ rest)
      (hrest : validUtf8 rest = true) : WellFormedUtf8 value := by
    have hlength : rest.length < n := by
      have hpos := List.length_pos_iff.mpr (String.utf8EncodeChar_ne_nil (c := c))
      rw [← hn, hvalue, List.length_append]
      omega
    obtain ⟨text, rfl⟩ := ih rest.length hlength hrest rfl
    exact ⟨c :: text, hvalue⟩
  cases value with
  | nil => exact ⟨[], rfl⟩
  | cons first rest =>
    by_cases hascii : first ≤ 0x7f
    · have hle : first.toNat ≤ 0x7f := hascii
      obtain ⟨c, hc⟩ := exists_scalar (n := first.toNat) (by omega)
      rw [validUtf8_single hascii, Bool.and_eq_true] at h
      refine hcons c ?_ h.2
      rcases utf8EncodeChar_cases c with ⟨_, heq⟩ | ⟨hge, _, heq⟩ | ⟨hge, _, _, heq⟩ | ⟨hge, _, heq⟩
      · rw [heq, ← byte_eq_ofNat hc.symm]
        rfl
      all_goals omega
    rcases Indexed.lead_cases first rest with ⟨bytes, tail, bits, rfl, hlead⟩ | hshort
    · rw [Indexed.validUtf8_lead hlead, Bool.and_eq_true] at h
      obtain ⟨c, hc⟩ := exists_char hlead h.1
      exact hcons c (by rw [hc]; rfl) h.2
    · rw [Indexed.validUtf8_truncated hascii hshort] at h
      simp at h

/-- The bit patterns that carry a number, those with more bytes than it needs included. -/
inductive Utf8Form (n : Nat) : Bytes → Prop
  | one (h : n < 0x80) : Utf8Form n [UInt8.ofNat n]
  | two (h : n < 0x800) : Utf8Form n [UInt8.ofNat (n / 64 + 0xc0), tailByte n]
  | three (h : n < 0x10000) :
    Utf8Form n [UInt8.ofNat (n / 4096 + 0xe0), tailByte (n / 64), tailByte n]
  | four (h : n < 0x200000) :
    Utf8Form n [UInt8.ofNat (n / 262144 + 0xf0), tailByte (n / 4096), tailByte (n / 64), tailByte n]

theorem Utf8Form.eq_of_length {n : Nat} {form other : Bytes} (h : Utf8Form n form) (hother : Utf8Form n other)
    (hlength : form.length = other.length) : form = other := by
  cases h <;> cases hother <;> first | rfl | simp at hlength

theorem utf8EncodeChar_form (c : Char) : Utf8Form c.toNat (String.utf8EncodeChar c) := by
  rcases utf8EncodeChar_cases c with ⟨hle, heq⟩ | ⟨_, hlt, heq⟩ | ⟨_, hlt, _, heq⟩ | ⟨_, hlt, heq⟩ <;> rw [heq]
  · exact .one (by omega)
  · exact .two (by omega)
  · exact .three (by omega)
  · exact .four (by omega)

theorem utf8EncodeChar_length_le {c : Char} {form : Bytes} (h : Utf8Form c.toNat form) :
    (String.utf8EncodeChar c).length ≤ form.length := by
  rcases utf8EncodeChar_cases c with ⟨_, heq⟩ | ⟨hlow, _, heq⟩ | ⟨hlow, _, _, heq⟩ | ⟨hlow, _, heq⟩ <;>
    rw [heq] <;> cases h <;> first | omega | simp

theorem utf8EncodeChar_shortest (c : Char) :
    Utf8Form c.toNat (String.utf8EncodeChar c) ∧
      ∀ form, Utf8Form c.toNat form → form ≠ String.utf8EncodeChar c →
        (String.utf8EncodeChar c).length < form.length := by
  refine ⟨utf8EncodeChar_form c, fun form h hne => ?_⟩
  refine Nat.lt_of_le_of_ne (utf8EncodeChar_length_le h) fun hlength => hne ?_
  exact h.eq_of_length (utf8EncodeChar_form c) hlength.symm

/-- The value is UTF-8 for the text: the text is the only one it encodes, and every
character stands in its shortest form. -/
structure EncodesText (value : Bytes) (text : List Char) : Prop where
  encoded : value = text.flatMap String.utf8EncodeChar
  only : ∀ other, value = other.flatMap String.utf8EncodeChar → other = text
  shortest : ∀ c ∈ text, Utf8Form c.toNat (String.utf8EncodeChar c) ∧
    ∀ form, Utf8Form c.toNat form → form ≠ String.utf8EncodeChar c →
      (String.utf8EncodeChar c).length < form.length

/-- The check reads bytes of the string only and returns, and it accepts the encodings
of characters that are no controls. -/
theorem identity_utf8_exact (value : Bytes) :
    ∃ accepted, Indexed.validUtf8 value = .ok accepted ∧
      (accepted = true ↔ ∃ text : List Char, EncodesText value text ∧ ∀ c ∈ text, controlChar c = false) := by
  refine ⟨_, Indexed.validUtf8_eq value, ?_⟩
  constructor
  · intro h
    obtain ⟨text, rfl⟩ := wellFormedUtf8_of_valid h
    rw [validUtf8_encode, List.all_eq_true] at h
    exact ⟨text, ⟨rfl, fun other hother => (utf8Encode_injective hother).symm,
      fun c _ => utf8EncodeChar_shortest c⟩, fun c hc => by simpa using h c hc⟩
  · rintro ⟨text, hencodes, hclean⟩
    rw [hencodes.encoded, validUtf8_encode, List.all_eq_true]
    exact fun c hc => by rw [hclean c hc]; rfl

end OAuthValidator
