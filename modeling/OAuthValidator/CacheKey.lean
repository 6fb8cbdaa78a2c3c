import OAuthValidator.CacheState
import OAuthValidator.SelfDelimiting

/-! The byte key of a cached document. It encodes every policy field that the
document was accepted under, so documents are never shared between policies. -/

namespace OAuthValidator

inductive CacheResource
  | metadata | jwks
deriving DecidableEq, Repr

def CacheResource.code : CacheResource → UInt8
  | .metadata => 1
  | .jwks => 2

inductive CacheKeyError
  | invalidArgument | tooLarge
deriving DecidableEq, Repr

structure CacheKeyPolicy where
  resource : CacheResource
  issuer : Option CString
  metadataUrl : Option CString
  jwksUrl : Option CString
  policyName : Option CString
  requiredScopes : Option CString
  audiences : Option CString
  allowedTokenTypes : UInt8
  allowMissingTokenType : Bool
  identityClaim : Option CString
  roleClaim : Option CString
  allowedJwksHosts : Option CString
  caFile : Option CString
  allowedAlgorithms : UInt32
  clockSkewMs : UInt32
  maxTokenSize : UInt32
  maxMetadataSize : UInt32
  maxJwksSize : UInt32
  maxJwksKeys : UInt32
  minimumRsaBits : UInt32
  maximumRsaBits : UInt32
  jwksStaleGraceMs : UInt64
  metadataDefaultTtlMs : UInt64
  jwksDefaultTtlMs : UInt64
  cacheMaxTtlMs : UInt64
  unknownKidRefreshCooldownMs : UInt64
  allowInsecureHttp : Bool
deriving DecidableEq

def tokenTypesAll : UInt8 := 3

def cacheKeyVersion : UInt8 := 5

/-- One value appended to a key. -/
inductive KeyField
  | u8 (value : UInt8)
  | u32 (value : UInt32)
  | u64 (value : UInt64)
  | text (value : Option CString)
deriving DecidableEq

def u32Bytes (value : Nat) : Bytes :=
  [(value / 0x1000000).toUInt8, (value / 0x10000).toUInt8, (value / 0x100).toUInt8, value.toUInt8]

def u64Bytes (value : Nat) : Bytes :=
  [(value / 0x100000000000000).toUInt8, (value / 0x1000000000000).toUInt8,
    (value / 0x10000000000).toUInt8, (value / 0x100000000).toUInt8, (value / 0x1000000).toUInt8,
    (value / 0x10000).toUInt8, (value / 0x100).toUInt8, value.toUInt8]

def appendBytes (key value : Bytes) : Option Bytes :=
  if cacheMaxKeySize - key.length < value.length then none else some (key ++ value)

/-- `append_u8`, `append_u32`, `append_u64` and `append_string`. -/
def appendField (key : Bytes) : KeyField → Option Bytes
  | .u8 value => appendBytes key [value]
  | .u32 value => appendBytes key (u32Bytes value.toNat)
  | .u64 value => appendBytes key (u64Bytes value.toNat)
  | .text none => none
  | .text (some value) =>
    if cacheMaxKeySize ≤ value.length then none
    else (appendBytes key (u32Bytes value.length)).bind fun key => appendBytes key value.bytes

def boolField (value : Bool) : KeyField :=
  .u8 (if value then 1 else 0)

/-- The fields in the order in which they are appended. -/
def keyFields (policy : CacheKeyPolicy) : List KeyField :=
  [.u8 0x50, .u8 0x47, .u8 0x4f, .u8 0x43, .u8 cacheKeyVersion, .u8 policy.resource.code,
    .text policy.issuer, .text policy.metadataUrl, .text (some (policy.jwksUrl.getD (.lit ""))),
    .text policy.policyName, .text policy.requiredScopes, .text policy.audiences,
    .u8 policy.allowedTokenTypes, boolField policy.allowMissingTokenType,
    .text policy.identityClaim, .text policy.roleClaim, .text policy.allowedJwksHosts,
    .text policy.caFile, .u32 policy.allowedAlgorithms, .u32 policy.clockSkewMs,
    .u32 policy.maxTokenSize, .u32 policy.maxMetadataSize, .u32 policy.maxJwksSize,
    .u32 policy.maxJwksKeys, .u32 policy.minimumRsaBits, .u32 policy.maximumRsaBits,
    .u64 policy.jwksStaleGraceMs, .u64 policy.metadataDefaultTtlMs, .u64 policy.jwksDefaultTtlMs,
    .u64 policy.cacheMaxTtlMs, .u64 policy.unknownKidRefreshCooldownMs,
    boolField policy.allowInsecureHttp]

/-- A string pointer that is NULL or points to an empty string. -/
def missing (value : Option CString) : Bool :=
  match value with
  | none => true
  | some text => text.isEmpty

def cacheKeyArgumentsValid (policy : CacheKeyPolicy) : Bool :=
  !missing policy.issuer && !missing policy.metadataUrl &&
    !(policy.resource == .jwks && missing policy.jwksUrl) && policy.policyName.isSome &&
    policy.requiredScopes.isSome && policy.audiences.isSome && policy.allowedTokenTypes != 0 &&
    policy.allowedTokenTypes &&& ~~~tokenTypesAll == 0 && policy.identityClaim.isSome &&
    policy.roleClaim.isSome && policy.allowedJwksHosts.isSome && policy.caFile.isSome &&
    policy.allowedAlgorithms != 0 && policy.maxTokenSize != 0 && policy.maxMetadataSize != 0 &&
    policy.maxJwksSize != 0 && policy.maxJwksKeys != 0 && policy.minimumRsaBits != 0 &&
    policy.minimumRsaBits ≤ policy.maximumRsaBits

def cacheKeyBuild (policy : CacheKeyPolicy) : Except CacheKeyError Bytes :=
  if !cacheKeyArgumentsValid policy then .error .invalidArgument
  else
    match (keyFields policy).foldlM appendField [] with
    | none => .error .tooLarge
    | some key => .ok key

/-- The word a field contributes to a key. -/
def fieldCode : KeyField → Bytes
  | .u8 value => [value]
  | .u32 value => u32Bytes value.toNat
  | .u64 value => u64Bytes value.toNat
  | .text none => []
  | .text (some value) => u32Bytes value.length ++ value.bytes

inductive FieldKind
  | u8 | u32 | u64 | text
deriving DecidableEq

def KeyField.kind : KeyField → FieldKind
  | .u8 _ => .u8
  | .u32 _ => .u32
  | .u64 _ => .u64
  | .text _ => .text

/-- A field that can be part of a key. -/
def KeyField.Fits : KeyField → Prop
  | .text none => False
  | .text (some value) => value.length < cacheMaxKeySize
  | _ => True

theorem toUInt8_inj {m n : Nat} : m.toUInt8 = n.toUInt8 ↔ m % 256 = n % 256 := by
  rw [← UInt8.toNat_inj]
  simp

theorem u32Bytes_cancels {m n : Nat} {r t : Bytes} (hm : m < UInt32.size) (hn : n < UInt32.size)
    (h : u32Bytes m ++ r = u32Bytes n ++ t) : m = n ∧ r = t := by
  simp only [u32Bytes, List.cons_append, List.nil_append, List.cons.injEq, toUInt8_inj,
    UInt32.size] at h hm hn
  obtain ⟨h3, h2, h1, h0, hrest⟩ := h
  exact ⟨by omega, hrest⟩

theorem u64Bytes_cancels {m n : Nat} {r t : Bytes} (hm : m < UInt64.size) (hn : n < UInt64.size)
    (h : u64Bytes m ++ r = u64Bytes n ++ t) : m = n ∧ r = t := by
  simp only [u64Bytes, List.cons_append, List.nil_append, List.cons.injEq, toUInt8_inj,
    UInt64.size] at h hm hn
  obtain ⟨h7, h6, h5, h4, h3, h2, h1, h0, hrest⟩ := h
  exact ⟨by omega, hrest⟩

theorem fieldCode_cancels : SelfDelimiting.Cancels KeyField.kind KeyField.Fits fieldCode := by
  intro a b r t hkind ha hb h
  cases a with
  | u8 v =>
    cases b <;> simp only [KeyField.kind, reduceCtorEq] at hkind
    simpa [fieldCode] using h
  | u32 v =>
    cases b <;> simp only [KeyField.kind, reduceCtorEq] at hkind
    obtain ⟨hv, hr⟩ := u32Bytes_cancels (UInt32.toNat_lt _) (UInt32.toNat_lt _) h
    exact ⟨congrArg KeyField.u32 (UInt32.toNat_inj.mp hv), hr⟩
  | u64 v =>
    cases b <;> simp only [KeyField.kind, reduceCtorEq] at hkind
    obtain ⟨hv, hr⟩ := u64Bytes_cancels (UInt64.toNat_lt _) (UInt64.toNat_lt _) h
    exact ⟨congrArg KeyField.u64 (UInt64.toNat_inj.mp hv), hr⟩
  | text v =>
    cases b <;> simp only [KeyField.kind, reduceCtorEq] at hkind
    next w =>
      cases v with
      | none => exact ha.elim
      | some v =>
        cases w with
        | none => exact hb.elim
        | some w =>
          have bound : ∀ ⦃m n : Nat⦄ ⦃r t : Bytes⦄, m < cacheMaxKeySize → n < cacheMaxKeySize →
              u32Bytes m ++ r = u32Bytes n ++ t → m = n ∧ r = t := fun m n r t hm hn =>
            u32Bytes_cancels (hm.trans (by decide)) (hn.trans (by decide))
          obtain ⟨hv, hr⟩ := SelfDelimiting.append_cancels_of_lengthPrefix bound ha hb h
          exact ⟨by rw [CString.ext_bytes hv], hr⟩

theorem appendBytes_eq_some {key value key' : Bytes} (h : appendBytes key value = some key') :
    key' = key ++ value ∧ (key.length ≤ cacheMaxKeySize → key'.length ≤ cacheMaxKeySize) := by
  unfold appendBytes at h
  split at h
  · simp at h
  · obtain rfl := Option.some.inj h
    exact ⟨rfl, fun hk => by simp only [List.length_append]; omega⟩

theorem appendField_eq_some {key key' : Bytes} {field : KeyField}
    (h : appendField key field = some key') :
    key' = key ++ fieldCode field ∧ field.Fits ∧
      (key.length ≤ cacheMaxKeySize → key'.length ≤ cacheMaxKeySize) := by
  match field, h with
  | .u8 _, h => exact ⟨(appendBytes_eq_some h).1, trivial, (appendBytes_eq_some h).2⟩
  | .u32 _, h => exact ⟨(appendBytes_eq_some h).1, trivial, (appendBytes_eq_some h).2⟩
  | .u64 _, h => exact ⟨(appendBytes_eq_some h).1, trivial, (appendBytes_eq_some h).2⟩
  | .text none, h => simp [appendField] at h
  | .text (some value), h =>
    simp only [appendField] at h
    split at h
    · simp at h
    · next hlt =>
      obtain ⟨mid, hmid, hkey⟩ := Option.bind_eq_some_iff.mp h
      obtain ⟨rfl, hm⟩ := appendBytes_eq_some hmid
      obtain ⟨rfl, hk⟩ := appendBytes_eq_some hkey
      exact ⟨by simp [fieldCode], Nat.lt_of_not_le hlt, fun h => hk (hm h)⟩

theorem foldlM_appendField_eq_some {fields : List KeyField} {key key' : Bytes}
    (h : fields.foldlM appendField key = some key') :
    key' = key ++ fields.flatMap fieldCode ∧ (∀ f ∈ fields, f.Fits) ∧
      (key.length ≤ cacheMaxKeySize → key'.length ≤ cacheMaxKeySize) := by
  induction fields generalizing key with
  | nil =>
    obtain rfl : key = key' := by simpa using h
    simp
  | cons field fields ih =>
    rw [List.foldlM_cons] at h
    obtain ⟨mid, hmid, hrest⟩ := Option.bind_eq_some_iff.mp h
    obtain ⟨rfl, hf, hm⟩ := appendField_eq_some hmid
    obtain ⟨rfl, hfs, hk⟩ := ih hrest
    exact ⟨by simp, fun f hmem => by
      rcases List.mem_cons.mp hmem with rfl | hmem
      · exact hf
      · exact hfs f hmem, fun h => hk (hm h)⟩

/-- What a key that was built is made of. -/
structure BuiltKey (policy : CacheKeyPolicy) (key : Bytes) : Prop where
  arguments : cacheKeyArgumentsValid policy = true
  code : key = (keyFields policy).flatMap fieldCode
  fits : ∀ f ∈ keyFields policy, f.Fits
  length : key.length ≤ cacheMaxKeySize

theorem cacheKeyBuild_eq_ok {policy : CacheKeyPolicy} {key : Bytes}
    (h : cacheKeyBuild policy = .ok key) : BuiltKey policy key := by
  unfold cacheKeyBuild at h
  split at h
  · simp at h
  · next hv =>
    split at h
    · simp at h
    · next built hb =>
      obtain rfl : built = key := by simpa using h
      obtain ⟨hcode, hfits, hlen⟩ := foldlM_appendField_eq_some hb
      exact ⟨by simpa using hv, by simpa using hcode, hfits, hlen (Nat.zero_le _)⟩

theorem BuiltKey.validKey {policy : CacheKeyPolicy} {key : Bytes} (h : BuiltKey policy key) :
    validKey key = true := by
  have hne : 0 < key.length := by simp [h.code, keyFields, fieldCode]
  have hle := h.length
  simp only [OAuthValidator.validKey, Bool.and_eq_true, decide_eq_true_eq]
  omega

theorem keyFields_kind (p q : CacheKeyPolicy) :
    (keyFields p).map KeyField.kind = (keyFields q).map KeyField.kind := rfl

/-- A policy whose missing JWKS URL is written as the empty string. -/
def CacheKeyPolicy.canonical (policy : CacheKeyPolicy) : CacheKeyPolicy :=
  { policy with jwksUrl := some (policy.jwksUrl.getD (.lit "")) }

theorem boolField_inj {a b : Bool} : boolField a = boolField b ↔ a = b := by
  cases a <;> cases b <;> simp [boolField]

theorem CacheResource.code_inj {a b : CacheResource} : a.code = b.code ↔ a = b := by
  cases a <;> cases b <;> decide

theorem canonical_eq_of_keyFields_eq {p q : CacheKeyPolicy} (h : keyFields p = keyFields q) :
    p.canonical = q.canonical := by
  cases p
  cases q
  simpa [keyFields, CacheKeyPolicy.canonical, boolField_inj, CacheResource.code_inj] using h

/-- Policies with the same key agree on every field. -/
theorem cacheKeyBuild_injective {p q : CacheKeyPolicy} {key : Bytes}
    (hp : cacheKeyBuild p = .ok key) (hq : cacheKeyBuild q = .ok key) :
    p.canonical = q.canonical := by
  have hp' := cacheKeyBuild_eq_ok hp
  have hq' := cacheKeyBuild_eq_ok hq
  exact canonical_eq_of_keyFields_eq (fieldCode_cancels.flatMap_injective (keyFields_kind p q)
    hp'.fits hq'.fits (hp'.code.symm.trans hq'.code))

end OAuthValidator
