import OAuthValidator.CacheKey

/-! The buffer that a cache key is built in. Every append is a copy into an array
of fixed size, and a copy past its end would have no result. The buffer of a key
that was built holds the encoding of its policy, and any other is all zero. -/

namespace OAuthValidator

/-- `memcpy` to an offset of an array. -/
def writeAt (data : Bytes) (offset : Nat) (value : Bytes) : Option Bytes :=
  if offset + value.length ≤ data.length then
    some (data.take offset ++ value ++ data.drop (offset + value.length))
  else none

/-- `PgOAuthCacheKey`. -/
structure CacheKey where
  data : Bytes
  length : Nat
deriving DecidableEq

namespace CacheKey

def zero : CacheKey :=
  ⟨List.replicate cacheMaxKeySize 0, 0⟩

/-- The bytes of a key, which are what two keys are compared by. -/
def bytes (key : CacheKey) : Bytes :=
  key.data.take key.length

def appendBytes (key : CacheKey) (value : Bytes) : Option (Bool × CacheKey) :=
  if sizeSub cacheMaxKeySize key.length < value.length then some (false, key)
  else
    (writeAt key.data key.length value).map fun data =>
      (true, ⟨data, (key.length + value.length) % (sizeMax + 1)⟩)

/-- The next append of a condition, which is made only if the last one succeeded. -/
def andThen (appended : Option (Bool × CacheKey)) (next : CacheKey → Option (Bool × CacheKey)) :
    Option (Bool × CacheKey) :=
  match appended with
  | none => none
  | some (false, key) => some (false, key)
  | some (true, key) => next key

/-- The length is counted up to the size of the buffer. -/
def appendString (key : CacheKey) (value : Option CString) : Option (Bool × CacheKey) :=
  match value with
  | none => some (false, key)
  | some value =>
    let length := min value.length cacheMaxKeySize
    if length == cacheMaxKeySize || 0xffffffff < length then some (false, key)
    else andThen (key.appendBytes (u32Bytes length)) fun key => key.appendBytes (value.bytes.take length)

def appendField (key : CacheKey) : KeyField → Option (Bool × CacheKey)
  | .u8 value => key.appendBytes [value]
  | .u32 value => key.appendBytes (u32Bytes value.toNat)
  | .u64 value => key.appendBytes (u64Bytes value.toNat)
  | .text value => key.appendString value

def appendFields (key : CacheKey) : List KeyField → Option (Bool × CacheKey)
  | [] => some (true, key)
  | field :: fields => andThen (key.appendField field) fun key => key.appendFields fields

end CacheKey

def cacheKeyMagic : Bytes :=
  [0x50, 0x47, 0x4f, 0x43]

/-- `pg_oauth_cache_key_build` with the buffer it leaves; no error is OK. The magic
number is one append, the fields after it are one each. -/
def cacheKeyBuildInto (policy : CacheKeyPolicy) : Option (Option CacheKeyError × CacheKey) :=
  if !cacheKeyArgumentsValid policy then some (some .invalidArgument, .zero)
  else
    match CacheKey.andThen (CacheKey.zero.appendBytes cacheKeyMagic) fun key =>
        key.appendFields ((keyFields policy).drop 4) with
    | none => none
    | some (false, _) => some (some .tooLarge, .zero)
    | some (true, key) => some (none, key)

/-- The buffer that holds the given bytes, and zeros after them. -/
def CacheKey.ofBytes (bytes : Bytes) : CacheKey :=
  ⟨bytes ++ List.replicate (cacheMaxKeySize - bytes.length) 0, bytes.length⟩

section Simulation

variable {bytes value : Bytes}

theorem CacheKey.bytes_ofBytes : (CacheKey.ofBytes bytes).bytes = bytes := by
  simp [CacheKey.ofBytes, CacheKey.bytes]

theorem writeAt_zeros {n : Nat} (h : value.length ≤ n) :
    writeAt (bytes ++ List.replicate n 0) bytes.length value =
      some (bytes ++ value ++ List.replicate (n - value.length) 0) := by
  have hroom : bytes.length + value.length ≤ (bytes ++ List.replicate n (0 : UInt8)).length := by
    simpa using h
  unfold writeAt
  rw [if_pos hroom, List.take_left, List.drop_append, List.drop_replicate,
    List.drop_of_length_le (Nat.le_add_right _ _), List.nil_append, Nat.add_sub_cancel_left]

/-- An append to the buffer is the append to the bytes in it, and never a write
past the end. -/
theorem CacheKey.appendBytes_ofBytes (h : bytes.length ≤ cacheMaxKeySize) (value : Bytes) :
    (CacheKey.ofBytes bytes).appendBytes value = some (match OAuthValidator.appendBytes bytes value with
      | none => (false, .ofBytes bytes)
      | some bytes' => (true, .ofBytes bytes')) := by
  have hroom : sizeSub cacheMaxKeySize (CacheKey.ofBytes bytes).length = cacheMaxKeySize - bytes.length :=
    sizeSub_of_le h (by decide)
  unfold CacheKey.appendBytes OAuthValidator.appendBytes
  rw [hroom]
  split
  · rfl
  · next hfits =>
    have hsmall : bytes.length + value.length < sizeMax + 1 := by
      simp only [cacheMaxKeySize, sizeMax] at h hfits ⊢
      omega
    have hwrite : writeAt (CacheKey.ofBytes bytes).data (CacheKey.ofBytes bytes).length value =
        some (CacheKey.ofBytes (bytes ++ value)).data := by
      refine (writeAt_zeros (Nat.not_lt.mp hfits)).trans ?_
      simp only [CacheKey.ofBytes, List.length_append, Nat.sub_sub]
    rw [hwrite]
    simp only [CacheKey.ofBytes, Option.map_some, Nat.mod_eq_of_lt hsmall, List.length_append]

/-- The outcome of an append, against the append to the bytes alone. -/
def Simulates (outcome : Option (Bool × CacheKey)) (appended : Option Bytes) : Prop :=
  match appended with
  | some bytes => outcome = some (true, .ofBytes bytes) ∧ bytes.length ≤ cacheMaxKeySize
  | none => ∃ key, outcome = some (false, key)

theorem simulates_appendBytes (h : bytes.length ≤ cacheMaxKeySize) (value : Bytes) :
    Simulates ((CacheKey.ofBytes bytes).appendBytes value) (appendBytes bytes value) := by
  have happend := CacheKey.appendBytes_ofBytes h value
  cases hb : appendBytes bytes value with
  | none => exact ⟨_, by rw [happend, hb]⟩
  | some bytes' => exact ⟨by rw [happend, hb], (appendBytes_eq_some hb).2 h⟩

theorem Simulates.andThen {outcome : Option (Bool × CacheKey)} {appended : Option Bytes}
    {next : CacheKey → Option (Bool × CacheKey)} {next' : Bytes → Option Bytes}
    (h : Simulates outcome appended)
    (hnext : ∀ bytes, bytes.length ≤ cacheMaxKeySize → Simulates (next (.ofBytes bytes)) (next' bytes)) :
    Simulates (CacheKey.andThen outcome next) (appended.bind next') := by
  cases appended with
  | none =>
    obtain ⟨key, rfl⟩ := h
    exact ⟨key, rfl⟩
  | some bytes =>
    obtain ⟨rfl, hlen⟩ := h
    exact hnext bytes hlen

theorem simulates_appendString (h : bytes.length ≤ cacheMaxKeySize) (value : Option CString) :
    Simulates ((CacheKey.ofBytes bytes).appendString value) (appendField bytes (.text value)) := by
  cases value with
  | none => exact ⟨_, rfl⟩
  | some value =>
    simp only [CacheKey.appendString, appendField]
    by_cases hlong : cacheMaxKeySize ≤ value.length
    · rw [if_pos hlong, Nat.min_eq_right hlong]
      exact ⟨_, rfl⟩
    · have hmin : min value.length cacheMaxKeySize = value.length := by omega
      have hshort : (value.length == cacheMaxKeySize || decide (0xffffffff < value.length)) = false := by
        simp only [cacheMaxKeySize] at hlong ⊢
        simp
        omega
      have htake : value.bytes.take value.length = value.bytes := List.take_length
      rw [if_neg hlong, hmin, hshort, htake]
      exact (simulates_appendBytes h _).andThen fun bytes hlen => simulates_appendBytes hlen _

theorem simulates_appendField (h : bytes.length ≤ cacheMaxKeySize) (field : KeyField) :
    Simulates ((CacheKey.ofBytes bytes).appendField field) (appendField bytes field) := by
  cases field with
  | text value => exact simulates_appendString h value
  | _ => exact simulates_appendBytes h _

theorem simulates_appendFields (h : bytes.length ≤ cacheMaxKeySize) (fields : List KeyField) :
    Simulates ((CacheKey.ofBytes bytes).appendFields fields) (fields.foldlM appendField bytes) := by
  induction fields generalizing bytes with
  | nil => exact ⟨rfl, h⟩
  | cons field fields ih =>
    rw [List.foldlM_cons]
    exact (simulates_appendField h field).andThen fun bytes hlen => ih hlen

/-- Building a key in a buffer is building it, and leaves zeros if it fails. -/
theorem cacheKeyBuildInto_eq (policy : CacheKeyPolicy) :
    cacheKeyBuildInto policy = some (match cacheKeyBuild policy with
      | .ok bytes => (none, .ofBytes bytes)
      | .error e => (some e, .zero)) := by
  have hzero : CacheKey.zero = .ofBytes [] := by
    simp [CacheKey.zero, CacheKey.ofBytes]
  have hfields : keyFields policy = cacheKeyMagic.map .u8 ++ (keyFields policy).drop 4 := rfl
  have hmagic : (keyFields policy).foldlM appendField [] = (appendBytes [] cacheKeyMagic).bind fun bytes =>
      ((keyFields policy).drop 4).foldlM appendField bytes := by
    conv_lhs => rw [hfields, List.foldlM_append]
    have hone : (cacheKeyMagic.map KeyField.u8).foldlM appendField [] = appendBytes [] cacheKeyMagic := by
      decide
    rw [hone]
    rfl
  have hsim : Simulates (CacheKey.andThen (CacheKey.zero.appendBytes cacheKeyMagic) fun key =>
      key.appendFields ((keyFields policy).drop 4)) ((keyFields policy).foldlM appendField []) := by
    rw [hzero, hmagic]
    exact (simulates_appendBytes (Nat.zero_le _) _).andThen fun bytes hlen => simulates_appendFields hlen _
  unfold cacheKeyBuildInto cacheKeyBuild
  split
  · rfl
  · cases hb : (keyFields policy).foldlM appendField [] with
    | none =>
      rw [hb] at hsim
      obtain ⟨key, hkey⟩ := hsim
      rw [hkey]
    | some bytes =>
      rw [hb] at hsim
      rw [hsim.1]

theorem cacheKeyBuildInto_eq_ok {policy : CacheKeyPolicy} {key : CacheKey}
    (h : cacheKeyBuildInto policy = some (none, key)) :
    ∃ bytes, cacheKeyBuild policy = .ok bytes ∧ key = .ofBytes bytes := by
  rw [cacheKeyBuildInto_eq] at h
  cases hb : cacheKeyBuild policy with
  | error e => simp [hb] at h
  | ok bytes =>
    rw [hb] at h
    exact ⟨bytes, rfl, (Prod.mk.inj (Option.some.inj h)).2.symm⟩

end Simulation

section Size

variable {policy : CacheKeyPolicy}

def textLength (value : Option CString) : Nat :=
  (value.map CString.length).getD 0

/-- The exact size of the encoding of a policy. Its numbers take 81 bytes and the
lengths of its ten strings take 40. -/
def encodedSize (policy : CacheKeyPolicy) : Nat :=
  121 + textLength policy.issuer + textLength policy.metadataUrl + textLength policy.jwksUrl +
    textLength policy.policyName + textLength policy.requiredScopes + textLength policy.audiences +
    textLength policy.identityClaim + textLength policy.roleClaim + textLength policy.allowedJwksHosts +
    textLength policy.caFile

def fieldSize : KeyField → Nat
  | .u8 _ => 1
  | .u32 _ => 4
  | .u64 _ => 8
  | .text value => 4 + textLength value

def fieldsSize : List KeyField → Nat
  | [] => 0
  | field :: fields => fieldSize field + fieldsSize fields

/-- A field other than a NULL string. -/
def KeyField.Given : KeyField → Prop
  | .text value => value.isSome = true
  | _ => True

theorem fieldSize_eq {field : KeyField} (h : field.Given) : fieldSize field = (fieldCode field).length := by
  cases field with
  | text value =>
    obtain ⟨value, rfl⟩ := Option.isSome_iff_exists.mp h
    simp [fieldSize, fieldCode, textLength, u32Bytes, CString.length]
    omega
  | _ => rfl

theorem keyFields_size (policy : CacheKeyPolicy) : fieldsSize (keyFields policy) = encodedSize policy := by
  have hjwks : textLength (some (policy.jwksUrl.getD (.lit ""))) = textLength policy.jwksUrl := by
    cases policy.jwksUrl <;> rfl
  simp only [keyFields, fieldsSize, fieldSize, boolField, hjwks, encodedSize]
  simp +arith only

theorem keyFields_given (h : cacheKeyArgumentsValid policy = true) : ∀ field ∈ keyFields policy, field.Given := by
  have hmissing : ∀ value, (!missing value) = true → value.isSome = true := by
    intro value hv
    cases value <;> simp_all [missing]
  simp only [cacheKeyArgumentsValid, Bool.and_eq_true, and_assoc] at h
  obtain ⟨hissuer, hurl, _, hname, hscopes, haudiences, _, _, hidentity, hrole, hhosts, hca, _⟩ := h
  simp only [keyFields, List.forall_mem_cons, KeyField.Given, boolField, hmissing _ hissuer, hmissing _ hurl,
    hname, hscopes, haudiences, hidentity, hrole, hhosts, hca, Option.isSome_some, List.not_mem_nil,
    false_imp_iff, implies_true, and_self]

theorem appendBytes_of_room {key value : Bytes} (h : key.length + value.length ≤ cacheMaxKeySize) :
    appendBytes key value = some (key ++ value) :=
  if_neg (by omega)

theorem appendField_of_room {key : Bytes} {field : KeyField} (hg : field.Given)
    (h : key.length + fieldSize field ≤ cacheMaxKeySize) :
    appendField key field = some (key ++ fieldCode field) := by
  rw [fieldSize_eq hg] at h
  cases field with
  | text value =>
    obtain ⟨value, rfl⟩ := Option.isSome_iff_exists.mp hg
    have hlen : (fieldCode (.text (some value))).length = 4 + value.length := by
      simp [fieldCode, u32Bytes, CString.length]
      omega
    have hcount : (u32Bytes value.length).length = 4 := rfl
    have hshort : ¬ cacheMaxKeySize ≤ value.length := by omega
    have hroom : (key ++ u32Bytes value.length).length + value.bytes.length ≤ cacheMaxKeySize := by
      rw [List.length_append, hcount, show value.bytes.length = value.length from rfl]
      omega
    simp only [appendField, if_neg hshort]
    rw [appendBytes_of_room (by omega), Option.bind_some, appendBytes_of_room hroom, fieldCode,
      List.append_assoc]
  | _ => exact appendBytes_of_room h

theorem appendFields_of_room {fields : List KeyField} {key : Bytes} (hg : ∀ field ∈ fields, field.Given)
    (h : key.length + fieldsSize fields ≤ cacheMaxKeySize) :
    fields.foldlM appendField key = some (key ++ fields.flatMap fieldCode) := by
  induction fields generalizing key with
  | nil => simp
  | cons field fields ih =>
    have hfield := hg field List.mem_cons_self
    rw [fieldsSize] at h
    rw [List.foldlM_cons, appendField_of_room hfield (by omega)]
    have hrest : (key ++ fieldCode field).length + fieldsSize fields ≤ cacheMaxKeySize := by
      rw [List.length_append, ← fieldSize_eq hfield]
      omega
    show fields.foldlM appendField (key ++ fieldCode field) = _
    rw [ih (fun f hf => hg f (List.mem_cons_of_mem _ hf)) hrest, List.flatMap_cons, List.append_assoc]

theorem fieldCodes_length {fields : List KeyField} (hg : ∀ field ∈ fields, field.Given) :
    (fields.flatMap fieldCode).length = fieldsSize fields := by
  induction fields with
  | nil => rfl
  | cons field fields ih =>
    obtain ⟨hfield, hfields⟩ := List.forall_mem_cons.mp hg
    rw [List.flatMap_cons, List.length_append, ih hfields, fieldsSize, fieldSize_eq hfield]

/-- A key is built exactly if its encoding fits. -/
theorem cacheKeyBuild_cases (h : cacheKeyArgumentsValid policy = true) :
    (encodedSize policy ≤ cacheMaxKeySize ∧
        ∃ key, cacheKeyBuild policy = .ok key ∧ key.length = encodedSize policy) ∨
      (cacheMaxKeySize < encodedSize policy ∧ cacheKeyBuild policy = .error .tooLarge) := by
  have hgiven := keyFields_given h
  have hsize := fieldCodes_length hgiven
  rw [keyFields_size] at hsize
  rcases Nat.lt_or_ge cacheMaxKeySize (encodedSize policy) with hlarge | hfits
  · refine Or.inr ⟨hlarge, ?_⟩
    cases hb : cacheKeyBuild policy with
    | ok key =>
      have hkey := cacheKeyBuild_eq_ok hb
      have hle := hkey.length
      rw [hkey.code, hsize] at hle
      omega
    | error e =>
      simp only [cacheKeyBuild, h, Bool.not_true, Bool.false_eq_true, if_false] at hb
      split at hb <;> simp_all
  · refine Or.inl ⟨hfits, _, ?_, hsize⟩
    have hfields : ([] : Bytes).length + fieldsSize (keyFields policy) ≤ cacheMaxKeySize := by
      rw [keyFields_size, List.length_nil, Nat.zero_add]
      exact hfits
    simp only [cacheKeyBuild, h, appendFields_of_room hgiven hfields]
    rfl

end Size

theorem keyFields_canonical (policy : CacheKeyPolicy) : keyFields policy.canonical = keyFields policy :=
  rfl

/-- Canonical keys. No append writes past the buffer. Two keys that were built are
equal exactly if their policies agree on every field. A policy that passes the
checks has a key exactly if its encoding fits, and otherwise the buffer is left
all zero. -/
theorem cache_key_canonical (p q : CacheKeyPolicy) :
    (∃ result, cacheKeyBuildInto p = some result) ∧
    (∀ keyP keyQ, cacheKeyBuildInto p = some (none, keyP) → cacheKeyBuildInto q = some (none, keyQ) →
      (keyP.length = keyQ.length ∧ keyP.bytes = keyQ.bytes ↔ p.canonical = q.canonical)) ∧
    (cacheKeyArgumentsValid p = true →
      ((∃ key, cacheKeyBuildInto p = some (none, key)) ↔ encodedSize p ≤ cacheMaxKeySize) ∧
      (∀ key, cacheKeyBuildInto p = some (none, key) → key.length = encodedSize p) ∧
      (cacheMaxKeySize < encodedSize p → cacheKeyBuildInto p = some (some .tooLarge, .zero))) := by
  refine ⟨⟨_, cacheKeyBuildInto_eq p⟩, fun keyP keyQ hp hq => ?_, fun hvalid => ?_⟩
  · obtain ⟨bytesP, hbp, rfl⟩ := cacheKeyBuildInto_eq_ok hp
    obtain ⟨bytesQ, hbq, rfl⟩ := cacheKeyBuildInto_eq_ok hq
    rw [CacheKey.bytes_ofBytes, CacheKey.bytes_ofBytes]
    constructor
    · rintro ⟨-, rfl⟩
      exact cacheKeyBuild_injective hbp hbq
    · intro he
      have hfields : keyFields p = keyFields q := by
        rw [← keyFields_canonical p, he, keyFields_canonical]
      have hbytes : bytesP = bytesQ := by
        rw [(cacheKeyBuild_eq_ok hbp).code, (cacheKeyBuild_eq_ok hbq).code, hfields]
      exact ⟨congrArg List.length hbytes, hbytes⟩
  · rcases cacheKeyBuild_cases hvalid with ⟨hfits, bytes, hb, hlen⟩ | ⟨hlarge, hb⟩
    · have hinto : cacheKeyBuildInto p = some (none, .ofBytes bytes) := by
        rw [cacheKeyBuildInto_eq, hb]
      refine ⟨⟨fun _ => hfits, fun _ => ⟨_, hinto⟩⟩, fun key hkey => ?_, fun hlarge => by omega⟩
      obtain ⟨bytes', hb', rfl⟩ := cacheKeyBuildInto_eq_ok hkey
      obtain rfl := Except.ok.inj (hb.symm.trans hb')
      exact hlen
    · have hinto : cacheKeyBuildInto p = some (some .tooLarge, .zero) := by
        rw [cacheKeyBuildInto_eq, hb]
      refine ⟨⟨fun ⟨key, hkey⟩ => ?_, fun hfits => by omega⟩, fun key hkey => ?_, fun _ => hinto⟩
      · simp [hinto] at hkey
      · simp [hinto] at hkey

/-- The metadata of an issuer under a policy with empty lists. -/
def Sample.metadataKeyPolicy : CacheKeyPolicy where
  resource := .metadata
  issuer := some (.lit "https://i")
  metadataUrl := some (.lit "https://i/m")
  jwksUrl := none
  policyName := some (.lit "")
  requiredScopes := some (.lit "read")
  audiences := some (.lit "db")
  allowedTokenTypes := 3
  allowMissingTokenType := true
  identityClaim := some (.lit "sub")
  roleClaim := some (.lit "")
  allowedJwksHosts := some (.lit "")
  caFile := some (.lit "")
  allowedAlgorithms := 7
  clockSkewMs := 0
  maxTokenSize := 1
  maxMetadataSize := 1
  maxJwksSize := 1
  maxJwksKeys := 1
  minimumRsaBits := 2048
  maximumRsaBits := 2048
  jwksStaleGraceMs := 0
  metadataDefaultTtlMs := 0
  jwksDefaultTtlMs := 0
  cacheMaxTtlMs := 0
  unknownKidRefreshCooldownMs := 0
  allowInsecureHttp := true

/-- A NULL JWKS URL and an empty one give the same key of 150 bytes. -/
theorem cache_key_canonical_null_url :
    ∃ keyP keyQ, cacheKeyBuildInto Sample.metadataKeyPolicy = some (none, keyP) ∧
      cacheKeyBuildInto Sample.metadataKeyPolicy.canonical = some (none, keyQ) ∧
      keyP.length = 150 ∧ keyP.bytes = keyQ.bytes := by
  obtain ⟨_, hinjective, hp⟩ := cache_key_canonical Sample.metadataKeyPolicy Sample.metadataKeyPolicy.canonical
  obtain ⟨_, _, hq⟩ := cache_key_canonical Sample.metadataKeyPolicy.canonical Sample.metadataKeyPolicy
  obtain ⟨hiff, hlen, _⟩ := hp (by decide)
  obtain ⟨keyP, hkeyP⟩ := hiff.mpr (by decide)
  obtain ⟨keyQ, hkeyQ⟩ := (hq (by decide)).1.mpr (by decide)
  exact ⟨keyP, keyQ, hkeyP, hkeyQ, (hlen keyP hkeyP).trans (by decide),
    ((hinjective keyP keyQ hkeyP hkeyQ).mpr rfl).2⟩

end OAuthValidator
