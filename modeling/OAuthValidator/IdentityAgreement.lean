import OAuthValidator.ClaimsExact
import OAuthValidator.PipelineStages
import OAuthValidator.Authorization
import OAuthValidator.FreshnessHeaders

/-! The claims stage scans the bytes of an identity, the identity stage decodes its
characters. On well-formed UTF-8 both accept the same strings, so an identity that
the claims stage has accepted is never refused later. -/

namespace OAuthValidator

open Program

def WellFormedUtf8 (s : Bytes) : Prop :=
  ∃ text : List Char, s = text.flatMap String.utf8EncodeChar

/-- The controls of ASCII and the C1 controls. -/
def controlChar (c : Char) : Bool :=
  c.toNat < 0x20 || (0x7f ≤ c.toNat && c.toNat ≤ 0x9f)

/-! The bytes of an encoding, by the bits they carry. -/

def tailByte (n : Nat) : UInt8 := UInt8.ofNat (n % 64 + 0x80)

theorem tailByte_bits (n : Nat) :
    (tailByte n &&& 0x3f).toNat = n % 64 ∧ (tailByte n &&& 0xc0 == 0x80) = true := by
  have hall : ∀ k < 64, (UInt8.ofNat (k + 0x80) &&& 0x3f).toNat = k ∧
      (UInt8.ofNat (k + 0x80) &&& 0xc0 == 0x80) = true := by decide
  exact hall (n % 64) (Nat.mod_lt _ (by decide))

theorem tailByte_scan (n : Nat) :
    iscntrl (tailByte n) = false ∧ tailByte n ≠ 0xc2 ∧
      (0x80 ≤ tailByte n ∧ tailByte n ≤ 0x9f ↔ n % 64 < 32) := by
  have hall : ∀ k < 64, iscntrl (UInt8.ofNat (k + 0x80)) = false ∧ UInt8.ofNat (k + 0x80) ≠ 0xc2 ∧
      (0x80 ≤ UInt8.ofNat (k + 0x80) ∧ UInt8.ofNat (k + 0x80) ≤ 0x9f ↔ k < 32) := by decide
  exact hall (n % 64) (Nat.mod_lt _ (by decide))

theorem pairLead : ∀ n < 32, 2 ≤ n →
    iscntrl (UInt8.ofNat (n + 0xc0)) = false ∧ (UInt8.ofNat (n + 0xc0) = 0xc2 ↔ n = 2) ∧
    0xc2 ≤ UInt8.ofNat (n + 0xc0) ∧ UInt8.ofNat (n + 0xc0) ≤ 0xdf ∧
    (UInt8.ofNat (n + 0xc0) &&& 0x1f).toNat = n := by
  decide

theorem tripleLead : ∀ n < 16,
    iscntrl (UInt8.ofNat (n + 0xe0)) = false ∧ UInt8.ofNat (n + 0xe0) ≠ 0xc2 ∧
    0xe0 ≤ UInt8.ofNat (n + 0xe0) ∧ UInt8.ofNat (n + 0xe0) ≤ 0xef ∧
    (UInt8.ofNat (n + 0xe0) &&& 0x0f).toNat = n := by
  decide

theorem quadLead : ∀ n < 5,
    iscntrl (UInt8.ofNat (n + 0xf0)) = false ∧ UInt8.ofNat (n + 0xf0) ≠ 0xc2 ∧
    0xf0 ≤ UInt8.ofNat (n + 0xf0) ∧ UInt8.ofNat (n + 0xf0) ≤ 0xf4 ∧
    (UInt8.ofNat (n + 0xf0) &&& 0x07).toNat = n := by
  decide

/-! One character of each length, as the identity stage decodes it. -/

section Decoding

variable {first b c d : UInt8} {rest : Bytes}

theorem validUtf8_single (hascii : first ≤ 0x7f) :
    validUtf8 (first :: rest) = (!(first < 0x20 || first == 0x7f) && validUtf8 rest) := by
  rw [validUtf8.eq_def]
  simp only [hascii, if_true]

theorem validUtf8_pair (hlow : 0xc2 ≤ first) (hhigh : first ≤ 0xdf) :
    validUtf8 (first :: b :: rest) = (validUtf8Char (first &&& 0x1f) [b] && validUtf8 rest) := by
  have hascii : ¬ first ≤ 0x7f := fun h => absurd (UInt8.le_trans hlow h) (by decide)
  rw [validUtf8, if_neg hascii, if_pos (by simp [hlow, hhigh])]

theorem validUtf8_triple (hlow : 0xe0 ≤ first) (hhigh : first ≤ 0xef) :
    validUtf8 (first :: b :: c :: rest) = (validUtf8Char (first &&& 0x0f) [b, c] && validUtf8 rest) := by
  have hascii : ¬ first ≤ 0x7f := fun h => absurd (UInt8.le_trans hlow h) (by decide)
  have hpair : ¬ first ≤ 0xdf := fun h => absurd (UInt8.le_trans hlow h) (by decide)
  rw [validUtf8, if_neg hascii, if_neg (by simp [hpair]), if_pos (by simp [hlow, hhigh])]

theorem validUtf8_quad (hlow : 0xf0 ≤ first) (hhigh : first ≤ 0xf4) :
    validUtf8 (first :: b :: c :: d :: rest) = (validUtf8Char (first &&& 0x07) [b, c, d] && validUtf8 rest) := by
  have hascii : ¬ first ≤ 0x7f := fun h => absurd (UInt8.le_trans hlow h) (by decide)
  have hpair : ¬ first ≤ 0xdf := fun h => absurd (UInt8.le_trans hlow h) (by decide)
  have htriple : ¬ first ≤ 0xef := fun h => absurd (UInt8.le_trans hlow h) (by decide)
  rw [validUtf8, if_neg hascii, if_neg (by simp [hpair]), if_neg (by simp [htriple]), if_pos (by simp [hlow, hhigh])]

end Decoding

theorem shift_tailByte (value n : Nat) :
    value <<< 6 ||| (tailByte n &&& 0x3f).toNat = value * 64 + n % 64 := by
  rw [(tailByte_bits n).1, ← Nat.shiftLeft_add_eq_or_of_lt (Nat.mod_lt n (by decide)), Nat.shiftLeft_eq]

/-- The four shapes of an encoded character. -/
theorem utf8EncodeChar_cases (c : Char) :
    (c.toNat ≤ 0x7f ∧ String.utf8EncodeChar c = [UInt8.ofNat c.toNat]) ∨
    (0x7f < c.toNat ∧ c.toNat ≤ 0x7ff ∧
      String.utf8EncodeChar c = [UInt8.ofNat (c.toNat / 64 + 0xc0), tailByte c.toNat]) ∨
    (0x7ff < c.toNat ∧ c.toNat ≤ 0xffff ∧ (c.toNat < 0xd800 ∨ 0xdfff < c.toNat) ∧
      String.utf8EncodeChar c = [UInt8.ofNat (c.toNat / 4096 + 0xe0), tailByte (c.toNat / 64), tailByte c.toNat]) ∨
    (0xffff < c.toNat ∧ c.toNat ≤ 0x10ffff ∧
      String.utf8EncodeChar c = [UInt8.ofNat (c.toNat / 262144 + 0xf0), tailByte (c.toNat / 4096),
        tailByte (c.toNat / 64), tailByte c.toNat]) := by
  have hvalid : c.toNat < 0xd800 ∨ 0xdfff < c.toNat ∧ c.toNat < 0x110000 := c.valid
  have hdef : c.val.toNat = c.toNat := rfl
  simp only [String.utf8EncodeChar, hdef, tailByte]
  by_cases h1 : c.toNat ≤ 0x7f
  · exact Or.inl ⟨h1, by rw [if_pos h1]⟩
  by_cases h2 : c.toNat ≤ 0x7ff
  · refine Or.inr (Or.inl ⟨by omega, h2, ?_⟩)
    rw [if_neg h1, if_pos h2, Nat.mod_eq_of_lt (by omega : c.toNat / 64 < 0x20)]
  by_cases h3 : c.toNat ≤ 0xffff
  · refine Or.inr (Or.inr (Or.inl ⟨by omega, h3, by omega, ?_⟩))
    rw [if_neg h1, if_neg h2, if_pos h3, Nat.mod_eq_of_lt (by omega : c.toNat / 4096 < 0x10)]
  · refine Or.inr (Or.inr (Or.inr ⟨by omega, by omega, ?_⟩))
    rw [if_neg h1, if_neg h2, if_neg h3, Nat.mod_eq_of_lt (by omega : c.toNat / 262144 < 0x08)]

theorem controlChar_eq_false {c : Char} :
    controlChar c = false ↔ 0x20 ≤ c.toNat ∧ (c.toNat < 0x7f ∨ 0x9f < c.toNat) := by
  simp only [controlChar, Bool.or_eq_false_iff, Bool.and_eq_false_iff, decide_eq_false_iff_not]
  omega

/-- A decoded character passes iff it is no control, for the code point and the number
of continuation bytes of a Unicode character. -/
theorem validUtf8Char_scalar {bits : UInt8} {continuation : Bytes} {c : Char} (hlow : 0x7f < c.toNat)
    (htails : continuation.all (fun b => b &&& 0xc0 == 0x80) = true)
    (hcode : continuation.foldl (fun value b => value <<< 6 ||| (b &&& 0x3f).toNat) bits.toNat = c.toNat)
    (htriple : continuation.length = 2 → 0x800 ≤ c.toNat) (hquad : continuation.length = 3 → 0x10000 ≤ c.toNat) :
    validUtf8Char bits continuation = !controlChar c := by
  have hvalid : c.toNat < 0xd800 ∨ 0xdfff < c.toNat ∧ c.toNat < 0x110000 := c.valid
  rw [Bool.eq_iff_iff, Bool.not_eq_true', controlChar_eq_false]
  simp only [validUtf8Char, hcode, htails, Bool.true_and, Bool.not_eq_true', Bool.or_eq_false_iff,
    Bool.and_eq_false_iff, beq_eq_false_iff_ne, decide_eq_false_iff_not]
  omega

theorem validUtf8_char (c : Char) (rest : Bytes) :
    validUtf8 (String.utf8EncodeChar c ++ rest) = (!controlChar c && validUtf8 rest) := by
  have htail := fun n => (tailByte_bits n).2
  rcases utf8EncodeChar_cases c with ⟨hle, heq⟩ | ⟨hlow, hhigh, heq⟩ | ⟨hlow, hhigh, hscalar, heq⟩ |
    ⟨hlow, hhigh, heq⟩
  · have hfirst : ∀ n ≤ 0x7f, UInt8.ofNat n ≤ 0x7f ∧
        (!(UInt8.ofNat n < 0x20 || UInt8.ofNat n == 0x7f)) = (!(decide (n < 0x20) || (decide (0x7f ≤ n)))) := by
      decide
    obtain ⟨hascii, hcontrol⟩ := hfirst c.toNat hle
    rw [heq, List.singleton_append, validUtf8_single hascii, hcontrol, controlChar]
    have hc1 : decide (c.toNat ≤ 0x9f) = true := decide_eq_true (by omega)
    rw [hc1, Bool.and_true]
  · obtain ⟨_, _, hfirst, hlast, hbits⟩ := pairLead (c.toNat / 64) (by omega) (by omega)
    rw [heq, List.cons_append, List.singleton_append, validUtf8_pair hfirst hlast]
    rw [validUtf8Char_scalar (c := c) (by omega) (by simp [htail]) ?_ (by simp) (by simp)]
    simp only [List.foldl_cons, List.foldl_nil, shift_tailByte, hbits]
    omega
  · obtain ⟨_, _, hfirst, hlast, hbits⟩ := tripleLead (c.toNat / 4096) (by omega)
    rw [heq, List.cons_append, List.cons_append, List.singleton_append, validUtf8_triple hfirst hlast]
    rw [validUtf8Char_scalar (c := c) (by omega) (by simp [htail]) ?_ (fun _ => by omega) (by simp)]
    simp only [List.foldl_cons, List.foldl_nil, shift_tailByte, hbits]
    omega
  · obtain ⟨_, _, hfirst, hlast, hbits⟩ := quadLead (c.toNat / 262144) (by omega)
    rw [heq, List.cons_append, List.cons_append, List.cons_append, List.singleton_append,
      validUtf8_quad hfirst hlast]
    rw [validUtf8Char_scalar (c := c) (by omega) (by simp [htail]) ?_ (by simp) (fun _ => by omega)]
    simp only [List.foldl_cons, List.foldl_nil, shift_tailByte, hbits]
    omega

/-! The same characters, as the claims stage scans their bytes. -/

/-- The byte scan of `valid_identity_string`. -/
def scanClean (text : Bytes) : Bool :=
  !text.any iscntrl && !containsC1Control text

theorem scanClean_cons {b : UInt8} {rest : Bytes} (hcntrl : iscntrl b = false) (hb : b ≠ 0xc2) :
    scanClean (b :: rest) = scanClean rest := by
  have hc1 : containsC1Control (b :: rest) = containsC1Control rest := by
    cases rest with
    | nil => rfl
    | cons a rest => simp [containsC1Control, hb]
  rw [scanClean, scanClean, hc1, List.any_cons, hcntrl, Bool.false_or]

-- The pair C2 80..9F never straddles two characters: no encoding ends in C2.
theorem scanClean_char (c : Char) (rest : Bytes) :
    scanClean (String.utf8EncodeChar c ++ rest) = (!controlChar c && scanClean rest) := by
  have htail (n : Nat) (rest : Bytes) : scanClean (tailByte n :: rest) = scanClean rest :=
    scanClean_cons (tailByte_scan n).1 (tailByte_scan n).2.1
  rcases utf8EncodeChar_cases c with ⟨hle, heq⟩ | ⟨hlow, hhigh, heq⟩ | ⟨hlow, hhigh, hscalar, heq⟩ |
    ⟨hlow, hhigh, heq⟩
  · have hfirst : ∀ n ≤ 0x7f, UInt8.ofNat n ≠ 0xc2 ∧
        iscntrl (UInt8.ofNat n) = (decide (n < 0x20) || decide (0x7f ≤ n)) := by decide
    obtain ⟨hne, hcntrl⟩ := hfirst c.toNat hle
    have hcontrol : controlChar c = iscntrl (UInt8.ofNat c.toNat) := by
      rw [hcntrl, controlChar, decide_eq_true (by omega : c.toNat ≤ 0x9f), Bool.and_true]
    rw [heq, List.singleton_append, hcontrol]
    cases hb : iscntrl (UInt8.ofNat c.toNat) with
    | false => simp [scanClean_cons hb hne]
    | true => simp [scanClean, hb]
  · obtain ⟨hcntrl, hfirst, _⟩ := pairLead (c.toNat / 64) (by omega) (by omega)
    obtain ⟨htailcntrl, _, hc1⟩ := tailByte_scan c.toNat
    rw [heq, List.cons_append, List.singleton_append]
    by_cases hc2 : UInt8.ofNat (c.toNat / 64 + 0xc0) = 0xc2
    · have hcontrol : (decide (0x80 ≤ tailByte c.toNat) && decide (tailByte c.toNat ≤ 0x9f)) = controlChar c := by
        have hlead := hfirst.mp hc2
        rw [Bool.eq_iff_iff, Bool.and_eq_true, decide_eq_true_eq, decide_eq_true_eq, hc1, ← Bool.not_eq_false,
          controlChar_eq_false]
        omega
      have hpair : containsC1Control (0xc2 :: tailByte c.toNat :: rest) =
          (controlChar c || containsC1Control (tailByte c.toNat :: rest)) := by
        rw [containsC1Control, ← hcontrol, beq_self_eq_true, Bool.true_and]
      have hc2cntrl : iscntrl 0xc2 = false := by decide
      rw [hc2, scanClean, hpair, List.any_cons, hc2cntrl, Bool.false_or, ← htail c.toNat rest, scanClean]
      cases controlChar c <;> simp
    · have hcontrol : controlChar c = false := controlChar_eq_false.mpr (by rw [hfirst] at hc2; omega)
      rw [hcontrol, scanClean_cons hcntrl hc2, htail]
      simp
  · obtain ⟨hcntrl, hfirst, _⟩ := tripleLead (c.toNat / 4096) (by omega)
    have hcontrol : controlChar c = false := controlChar_eq_false.mpr (by omega)
    rw [heq, hcontrol, List.cons_append, List.cons_append, List.singleton_append, scanClean_cons hcntrl hfirst,
      htail, htail]
    simp
  · obtain ⟨hcntrl, hfirst, _⟩ := quadLead (c.toNat / 262144) (by omega)
    have hcontrol : controlChar c = false := controlChar_eq_false.mpr (by omega)
    rw [heq, hcontrol, List.cons_append, List.cons_append, List.cons_append, List.singleton_append,
      scanClean_cons hcntrl hfirst, htail, htail, htail]
    simp

theorem validUtf8_eq_scanClean {s : Bytes} (h : WellFormedUtf8 s) : validUtf8 s = scanClean s := by
  obtain ⟨text, rfl⟩ := h
  induction text with
  | nil => rfl
  | cons c text ih => rw [List.flatMap_cons, validUtf8_char, scanClean_char, ih]

theorem identityBuild_eq_ok {s : CString} {maximum : Nat} (hmax : 0 < maximum) (hsize : s.length < sizeMax)
    (hutf8 : WellFormedUtf8 s.bytes) :
    identityBuild (some s.bytes) ⟨maximum, maximum⟩ = .ok s.bytes ↔ validIdentityText maximum s.bytes = true := by
  have hlimit : maximum ≠ 0 := Nat.pos_iff_ne_zero.mp hmax
  have hlength : s.bytes.length ≠ sizeMax := Nat.ne_of_lt hsize
  have hscan : validUtf8 s.bytes = true ↔
      (∀ b ∈ s.bytes, iscntrl b = false) ∧ containsC1Control s.bytes = false := by
    rw [validUtf8_eq_scanClean hutf8, scanClean]
    simp
  simp only [identityBuild, validIdentityText, except_bind_eq_ok, given_eq_ok, require_eq_ok, except_pure_eq_ok]
  simp [hlimit, hlength, s.nul_free, hscan, and_assoc]

/-- Jansson validates the text it reads, so that its strings are well-formed UTF-8. -/
def ReadsUtf8 (ext : Externals) : Prop :=
  ∀ text root name (s : CString), ext.jsonLoadb text = some root → root.get? name = some (.str s) →
    WellFormedUtf8 s.bytes

theorem claimsValidate_identity {payload : Json} {policy : ClaimsPolicy} {claims : ValidatedClaims}
    (h : claimsValidate payload policy = .ok claims) :
    ∃ name, policy.identityClaim = some name ∧ payload.get? name = some (.str claims.identity) ∧
      validIdentityText policy.maxIdentitySize claims.identity.bytes = true := by
  obtain ⟨_, _, _, haccepted⟩ := claimsValidate_accepted h
  obtain ⟨name, hname, hvalue⟩ := haccepted.identity
  exact ⟨name, hname, hvalue, validIdentityText_iff.mpr haccepted.printable⟩

/-- The claims stage and the identity stage accept the same identities, and a
validation under the limits of the callback never fails in the second after the first
has succeeded. A string and its terminator together have at most `sizeMax` bytes. -/
theorem identity_stages_agree :
    (∀ (s : CString) (maximum : Nat), WellFormedUtf8 s.bytes → s.length < sizeMax → 0 < maximum →
      ((validIdentityString (some (.str s)) maximum).isSome = true ↔
        ∃ identity, identityBuild (some s.bytes) ⟨maximum, maximum⟩ = .ok identity)) ∧
    ∀ ext, ReadsUtf8 ext → ∀ token metadataUrl p inv cachePolicy nowMs responseTimeSeconds tr r,
      Exec [] (validateAccessTokenCached ext token metadataUrl (some (validatorPolicy p inv)) cachePolicy nowMs
        responseTimeSeconds) tr r →
      r.1 ≠ .identity ∧
      (r.1 = .ok → ∃ text envelope s, token = some text ∧
        jwtEnvelopeParse ext text (validatorPolicy p inv).envelope = .ok envelope ∧
        envelope.untrustedPayload.get? p.policy.identityClaim = some (.str s) ∧
        r.2.identity = some s.bytes) := by
  constructor
  · intro s maximum hutf8 hsize hmax
    have hstring : (validIdentityString (some (.str s)) maximum).isSome = validIdentityText maximum s.bytes := by
      simp only [validIdentityString, Json.str?]
      cases h : validIdentityText maximum s.bytes <;> simp [h]
    rw [hstring, ← identityBuild_eq_ok hmax hsize hutf8]
    constructor
    · intro h
      exact ⟨_, h⟩
    · rintro ⟨identity, h⟩
      rw [h, Option.some.inj (identityBuild_ok h).1]
  · intro ext hutf8 token metadataUrl p inv cachePolicy nowMs responseTimeSeconds tr r hexec
    have hbuilt {text : Bytes} {envelope : JwtEnvelope} {claims : ValidatedClaims}
        (henvelope : jwtEnvelopeParse ext text (validatorPolicy p inv).envelope = .ok envelope)
        (hclaims : claimsValidate envelope.untrustedPayload (validatorPolicy p inv).claims = .ok claims) :
        envelope.untrustedPayload.get? p.policy.identityClaim = some (.str claims.identity) ∧
          identityBuild (some claims.identity.bytes) (validatorPolicy p inv).identity =
            .ok claims.identity.bytes := by
      obtain ⟨name, hname, hvalue, hvalid⟩ := claimsValidate_identity hclaims
      obtain rfl := Option.some.inj hname
      obtain ⟨_, payload, _, _, _, hload⟩ := (jwtEnvelopeParse_ok henvelope).compact
      have hlength : claims.identity.length ≤ maxNameSize := (validIdentityText_iff.mp hvalid).length_le
      refine ⟨hvalue, (identityBuild_eq_ok (by decide) ?_ (hutf8 _ _ _ _ hload hvalue)).mpr hvalid⟩
      exact Nat.lt_of_le_of_lt hlength (by decide)
    cases validateAccessTokenCached_cases hexec with
    | missing _ => simp
    | envelope _ _ _ _ => simp
    | verified text envelope fetched _ htoken henvelope _ hverified =>
      cases hverified with
      | issuerKey _ => simp
      | signature _ _ => simp
      | claims _ _ => simp
      | identity claims e hclaims hidentity =>
        rw [(hbuilt henvelope hclaims).2] at hidentity
        simp at hidentity
      | ok claims identity _ _ hclaims hidentity =>
        obtain ⟨hvalue, hbuild⟩ := hbuilt henvelope hclaims
        rw [hbuild] at hidentity
        obtain rfl := Except.ok.inj hidentity
        exact ⟨by simp, fun _ => ⟨text, envelope, claims.identity, htoken, henvelope, hvalue, rfl⟩⟩

theorem Json.mem_of_get? {members : List (CString × Json)} {name : CString} {value : Json}
    (h : (Json.obj members).get? name = some value) : ∃ m ∈ members, m.2 = value := by
  obtain ⟨m, hm, rfl⟩ := Option.map_eq_some_iff.mp h
  exact ⟨m, List.mem_of_find?_eq_some hm, rfl⟩

namespace Sample

theorem tokenExternals_readsUtf8 : ReadsUtf8 tokenExternals := by
  intro text root name s hload hget
  have hascii {t : String} (h : (CString.lit t).bytes = t.toList.flatMap String.utf8EncodeChar) :
      WellFormedUtf8 (CString.lit t).bytes := ⟨_, h⟩
  simp only [tokenExternals, externals] at hload
  split_ifs at hload
  all_goals
    obtain rfl := Option.some.inj hload
    obtain ⟨m, hm, hvalue⟩ := Json.mem_of_get? hget
    simp only [List.mem_cons, List.not_mem_nil, or_false] at hm
  · rcases hm with rfl | rfl | rfl <;> obtain rfl := Json.str.inj hvalue <;> exact hascii (by decide)
  · rcases hm with rfl | rfl | rfl | rfl | rfl | rfl
    any_goals simp at hvalue
    all_goals
      obtain rfl := hvalue
      exact hascii (by decide)
  · rcases hm with rfl | rfl <;> obtain rfl := Json.str.inj hvalue <;> exact hascii (by decide)
  · simp [hm] at hvalue
  · simp [hm] at hvalue

/-- A validation without the cache, under the policies of the callback. -/
def uncachedValidation (p : Prepared) : CallProg ValidatorReturn :=
  validateAccessTokenCached tokenExternals (some token.bytes) (some p.metadataUrl)
    (some (validatorPolicy p invocation)) none 0 0

end Sample

theorem identity_stages_agree_accepted :
    (∃ identity, identityBuild (some [0xc3, 0xbc]) ⟨63, 63⟩ = .ok identity) ∧
    ∃ p tr r s, Exec [] (Sample.uncachedValidation p) tr r ∧ r.1 = .ok ∧ r.2.identity = some s := by
  refine ⟨(identity_stages_agree.1 ⟨[0xc3, 0xbc], by decide⟩ 63 ⟨['ü'], by decide⟩ (by decide) (by decide)).mp
    (by decide), ?_⟩
  have hrun : ((prepare Sample.tokenExternals Sample.invocation).toOption.bind fun p =>
      (serve (Sample.uncachedValidation p) (Sample.script "Age: 1") Sample.emptyShared).map fun r =>
        (p, r)).any (fun r => decide (r.2.1.1 = .ok)) = true := by
    simp only [Sample.uncachedValidation, Sample.invocation, Sample.tokenExternals, Sample.token,
      Sample.keyObjectText, CString.lit_append]
    decide +kernel
  obtain ⟨⟨p, r, s⟩, hsome, hok⟩ := exists_of_any hrun
  obtain ⟨p', _, hserve⟩ := Option.bind_eq_some_iff.mp hsome
  obtain ⟨r', hserve, heq⟩ := Option.map_eq_some_iff.mp hserve
  obtain ⟨rfl, rfl⟩ := Prod.mk.inj heq
  obtain ⟨tr, hexec⟩ := serve_exec hserve
  have hok : r.1 = .ok := of_decide_eq_true hok
  obtain ⟨_, _, s, _, _, _, hidentity⟩ :=
    (identity_stages_agree.2 _ Sample.tokenExternals_readsUtf8 _ _ p' Sample.invocation _ _ _ tr r hexec).2 hok
  exact ⟨p', tr, r, s.bytes, hexec, hok, hidentity⟩

end OAuthValidator
