import OAuthValidator.Base64url
import OAuthValidator.Externals

/-! Selection of the one verification key that a key id names in a JWKS
document. -/

namespace OAuthValidator

def algorithmRs256 : UInt32 := 1
def algorithmEs256 : UInt32 := 2
def algorithmEddsa : UInt32 := 4

inductive JwksError
  | ok | invalidArgument | empty | tooLarge | invalidJson | invalidKeys | tooManyKeys | invalidKeyId
  | duplicateKeyId | keyNotFound | algorithmMismatch | keyNotForSignature | invalidKey
deriving DecidableEq, Repr

structure JwksPolicy where
  maxJwksSize : Nat
  maxKeys : Nat
  maxKeyIdSize : Nat
  allowedAlgorithms : UInt32
  minimumRsaBits : Nat
  maximumRsaBits : Nat
deriving DecidableEq

/-- The key selected, with the document that owns it. -/
structure SelectedJwk where
  jwks : Json
  jwk : Json
  algorithm : UInt32
deriving DecidableEq

def validKeyIdText (text : Bytes) (maximum : Nat) : Bool :=
  !text.isEmpty && text.length ≤ maximum && !text.any iscntrl

def validKeyId (value : Option Json) (maximum : Nat) : Bool :=
  match Json.str? value with
  | none => false
  | some id => validKeyIdText id.bytes maximum

def keyAllowsVerification (key : Json) : Bool :=
  let use := key.get? (.lit "use")
  let operations := key.get? (.lit "key_ops")
  let useFits := use.isNone || jsonStringEquals use (.lit "sig")
  let operationsFit :=
    operations.isNone ||
      match Json.arr? operations with
      | some [operation] => jsonStringEquals (some operation) (.lit "verify")
      | _ => false
  useFits && operationsFit && (use.isSome || operations.isSome)

def privateMembers : List CString :=
  [.lit "d", .lit "p", .lit "q", .lit "dp", .lit "dq", .lit "qi", .lit "oth", .lit "k"]

def containsPrivateKeyMaterial (key : Json) : Bool :=
  privateMembers.any fun name => (key.get? name).isSome

/-- The algorithm a JSON value names exactly, or 0. -/
def algorithmNamed (value : Option Json) : UInt32 :=
  if jsonStringEquals value (.lit "RS256") then algorithmRs256
  else if jsonStringEquals value (.lit "ES256") then algorithmEs256
  else if jsonStringEquals value (.lit "EdDSA") then algorithmEddsa
  else 0

def keyAlgorithm (key : Json) : UInt32 :=
  algorithmNamed (key.get? (.lit "alg"))

def decodeParameter (value : Option Json) (maximum : Nat) : Option Bytes :=
  match Json.str? value with
  | none => none
  | some encoded =>
    if !base64urlValid encoded.bytes then none
    else
      match base64urlDecodedSize encoded.length maximum with
      | none => none
      | some size => base64urlDecode encoded.bytes size

def uintMax : Nat := 4294967295

/-- The shifts until the top bit is set, at most `n`. -/
def leadingZeroBits : Nat → UInt8 → Nat
  | 0, _ => 0
  | n + 1, b => if b &&& 0x80 == 0 then leadingZeroBits n (b <<< 1) + 1 else 0

def unsignedBitLength (value : Bytes) : Nat :=
  match value.dropWhile (· == 0) with
  | [] => 0
  | first :: rest =>
    let length := rest.length + 1
    if uintMax / 8 < length then 0 else length * 8 - leadingZeroBits 8 first

def exponentValue (exponent : Bytes) : Nat :=
  exponent.foldl (fun value b => (value <<< 8 ||| b.toNat) % (uint64Max + 1)) 0

def validRsaKey (key : Json) (policy : JwksPolicy) : Bool :=
  jsonStringEquals (key.get? (.lit "kty")) (.lit "RSA") &&
    match decodeParameter (key.get? (.lit "n")) (policy.maximumRsaBits / 8 + 1),
        decodeParameter (key.get? (.lit "e")) 8 with
    | some modulus, some exponent =>
      let bits := unsignedBitLength modulus
      modulus.head? != some 0 && exponent.head? != some 0 &&
        (modulus.getLast?.map fun b => b &&& 1) == some 1 &&
        policy.minimumRsaBits ≤ bits && bits ≤ policy.maximumRsaBits &&
        3 ≤ exponentValue exponent && exponentValue exponent % 2 == 1
    | _, _ => false

def validEcKey (ext : Externals) (key : Json) : Bool :=
  jsonStringEquals (key.get? (.lit "kty")) (.lit "EC") &&
    jsonStringEquals (key.get? (.lit "crv")) (.lit "P-256") &&
    match decodeParameter (key.get? (.lit "x")) 32, decodeParameter (key.get? (.lit "y")) 32 with
    | some x, some y => x.length == 32 && y.length == 32 && ext.ecPointOnCurve x y
    | _, _ => false

def validEd25519Key (ext : Externals) (key : Json) : Bool :=
  jsonStringEquals (key.get? (.lit "kty")) (.lit "OKP") &&
    jsonStringEquals (key.get? (.lit "crv")) (.lit "Ed25519") &&
    match decodeParameter (key.get? (.lit "x")) 32 with
    | some x => x.length == 32 && ext.ed25519PublicKey x
    | none => false

/-- The scan for the key id over all keys, which refuses a second match. -/
def findCandidate (keyId : CString) (maxKeyIdSize : Nat) :
    Option Json → List Json → Except JwksError (Option Json)
  | candidate, [] => .ok candidate
  | candidate, key :: rest =>
    if !key.isObject then .error .invalidKeys
    else
      match key.get? (.lit "kid") with
      | none => findCandidate keyId maxKeyIdSize candidate rest
      | some id =>
        if !validKeyId (some id) maxKeyIdSize then .error .invalidKeyId
        else if jsonStringEquals (some id) keyId then
          if candidate.isSome then .error .duplicateKeyId
          else findCandidate keyId maxKeyIdSize (some key) rest
        else findCandidate keyId maxKeyIdSize candidate rest

/-- The arguments `pg_oauth_jwks_select` refuses before it reads the document. -/
def jwksArgumentsValid (keyId : CString) (tokenAlgorithm : UInt32) (policy : JwksPolicy) : Bool :=
  policy.maxJwksSize != 0 && policy.maxKeys != 0 && policy.maxKeyIdSize != 0 &&
    policy.allowedAlgorithms != 0 && 2048 ≤ policy.minimumRsaBits &&
    policy.minimumRsaBits ≤ policy.maximumRsaBits && policy.maximumRsaBits ≤ 16384 &&
    tokenAlgorithm != 0 && tokenAlgorithm &&& (tokenAlgorithm - 1) == 0 &&
    tokenAlgorithm &&& policy.allowedAlgorithms != 0 && validKeyIdText keyId.bytes policy.maxKeyIdSize

/-- The keys of a document that is within its bounds. -/
def jwksKeys (ext : Externals) (document : Bytes) (policy : JwksPolicy) :
    Except JwksError (Json × List Json) :=
  if document.isEmpty then .error .empty
  else if policy.maxJwksSize < document.length then .error .tooLarge
  else if document.contains 0 then .error .invalidJson
  else
    match ext.jsonLoadb document with
    | none => .error .invalidJson
    | some root =>
      if !root.isObject then .error .invalidJson
      else
        match Json.arr? (root.get? (.lit "keys")) with
        | none => .error .invalidKeys
        | some keys =>
          if keys.isEmpty then .error .invalidKeys
          else if policy.maxKeys < keys.length then .error .tooManyKeys
          else .ok (root, keys)

/-- The checks on the one key that carries the id. -/
def candidateError (ext : Externals) (key : Json) (tokenAlgorithm : UInt32) (policy : JwksPolicy) :
    Option JwksError :=
  let algorithm := keyAlgorithm key
  if algorithm == 0 || algorithm != tokenAlgorithm || algorithm &&& policy.allowedAlgorithms == 0 then
    some .algorithmMismatch
  else if !keyAllowsVerification key then some .keyNotForSignature
  else if containsPrivateKeyMaterial key then some .invalidKey
  else if (algorithm == algorithmRs256 && !validRsaKey key policy) ||
      (algorithm == algorithmEs256 && !validEcKey ext key) ||
      (algorithm == algorithmEddsa && !validEd25519Key ext key) then some .invalidKey
  else none

def jwksSelect (ext : Externals) (document : Bytes) (keyId : CString) (tokenAlgorithm : UInt32)
    (policy : JwksPolicy) : Except JwksError SelectedJwk :=
  if !jwksArgumentsValid keyId tokenAlgorithm policy then .error .invalidArgument
  else
    match jwksKeys ext document policy with
    | .error e => .error e
    | .ok (root, keys) =>
      match findCandidate keyId policy.maxKeyIdSize none keys with
      | .error e => .error e
      | .ok none => .error .keyNotFound
      | .ok (some key) =>
        match candidateError ext key tokenAlgorithm policy with
        | some e => .error e
        | none => .ok ⟨root, key, keyAlgorithm key⟩

def carriesId (keyId : CString) (key : Json) : Bool :=
  key.get? (.lit "kid") == some (.str keyId)

/-- Of the keys in a document, exactly one carries the id. -/
def OnlyKey (ext : Externals) (document : Bytes) (keyId : CString) (key : Json) : Prop :=
  ∃ root keys, ext.jsonLoadb document = some root ∧ root.get? (.lit "keys") = some (.arr keys) ∧
    keys.filter (carriesId keyId) = [key]

/-- Every key is an object whose id, if it has one, is valid. -/
def KeysWellFormed (maxKeyIdSize : Nat) (keys : List Json) : Prop :=
  ∀ key ∈ keys, key.isObject = true ∧
    ∀ id, key.get? (.lit "kid") = some id → validKeyId (some id) maxKeyIdSize = true

theorem keysWellFormed_cons {maxKeyIdSize : Nat} {key : Json} {rest : List Json} :
    KeysWellFormed maxKeyIdSize (key :: rest) ↔
      (key.isObject = true ∧
        ∀ id, key.get? (.lit "kid") = some id → validKeyId (some id) maxKeyIdSize = true) ∧
      KeysWellFormed maxKeyIdSize rest :=
  List.forall_mem_cons

theorem carriesId_iff {keyId : CString} {key : Json} :
    carriesId keyId key = true ↔ key.get? (.lit "kid") = some (.str keyId) := by
  rw [carriesId, beq_iff_eq]

theorem toList_injective {a b : Option α} (h : a.toList = b.toList) : a = b := by
  cases a <;> cases b <;> simp_all

/-- The scan succeeds on well-formed keys, and keeps those with the id. So it finds
at most one. -/
theorem findCandidate_eq_ok {keyId : CString} {maximum : Nat} {candidate found : Option Json}
    {keys : List Json} :
    findCandidate keyId maximum candidate keys = .ok found ↔
      KeysWellFormed maximum keys ∧
        candidate.toList ++ keys.filter (carriesId keyId) = found.toList := by
  induction keys generalizing candidate with
  | nil =>
    simp only [findCandidate, KeysWellFormed, Except.ok.injEq, List.filter_nil, List.append_nil,
      List.not_mem_nil, false_implies, implies_true, true_and]
    exact ⟨congrArg Option.toList, toList_injective⟩
  | cons key rest ih =>
    rw [findCandidate, keysWellFormed_cons, and_assoc]
    by_cases hobject : key.isObject = true
    · simp only [hobject, Bool.not_true, Bool.false_eq_true, if_false, true_and]
      cases hkid : key.get? (.lit "kid") with
      | none =>
        have hnot : ¬ carriesId keyId key = true := by simp [carriesId_iff, hkid]
        simp [ih, List.filter_cons_of_neg hnot]
      | some id =>
        by_cases hvalid : validKeyId (some id) maximum = true
        · simp only [hvalid, Bool.not_true, Bool.false_eq_true, if_false, Option.some.injEq, forall_eq',
            true_and]
          by_cases heq : jsonStringEquals (some id) keyId = true
          · have hcarries : carriesId keyId key = true :=
              carriesId_iff.mpr (hkid.trans (jsonStringEquals_eq_true.mp heq))
            simp only [heq, if_true, List.filter_cons_of_pos hcarries]
            cases candidate with
            | none => simp [ih]
            | some first => cases found <;> simp
          · have hnot : ¬ carriesId keyId key = true := fun h =>
              heq (jsonStringEquals_eq_true.mpr (hkid.symm.trans (carriesId_iff.mp h)))
            simp only [heq, Bool.false_eq_true, if_false, ih, List.filter_cons_of_neg hnot]
        · simp [hvalid]
    · simp [hobject]

theorem jwksKeys_ok {ext : Externals} {document : Bytes} {policy : JwksPolicy} {root : Json}
    {keys : List Json} (h : jwksKeys ext document policy = .ok (root, keys)) :
    ext.jsonLoadb document = some root ∧ root.get? (.lit "keys") = some (.arr keys) := by
  simp only [jwksKeys] at h
  split at h
  · simp at h
  split at h
  · simp at h
  split at h
  · simp at h
  split at h
  · simp at h
  next hload =>
    split at h
    · simp at h
    split at h
    · simp at h
    next harr =>
      split at h
      · simp at h
      split at h
      · simp at h
      obtain ⟨rfl, rfl⟩ := Prod.mk.inj (Except.ok.inj h)
      exact ⟨hload, Json.arr?_eq_some harr⟩

theorem candidateError_algorithm {ext : Externals} {key : Json} {tokenAlgorithm : UInt32}
    {policy : JwksPolicy} (h : candidateError ext key tokenAlgorithm policy = none) :
    keyAlgorithm key = tokenAlgorithm := by
  unfold candidateError at h
  simp only at h
  split at h
  · simp at h
  · next hok =>
    simp only [Bool.or_eq_true, bne_iff_ne, not_or, ne_eq, Decidable.not_not] at hok
    exact hok.1.2

/-- The key selected is the only one with the id, and has the token's algorithm. -/
theorem jwksSelect_ok {ext : Externals} {document : Bytes} {keyId : CString} {tokenAlgorithm : UInt32}
    {policy : JwksPolicy} {selected : SelectedJwk}
    (h : jwksSelect ext document keyId tokenAlgorithm policy = .ok selected) :
    OnlyKey ext document keyId selected.jwk ∧ selected.algorithm = tokenAlgorithm ∧
      keyAlgorithm selected.jwk = tokenAlgorithm := by
  unfold jwksSelect at h
  split at h
  · simp at h
  · split at h
    · simp at h
    · next root keys hkeys =>
      split at h
      · simp at h
      · simp at h
      · next key hfind =>
        split at h
        · simp at h
        · next hcandidate =>
          obtain rfl := Except.ok.inj h
          obtain ⟨hload, hmember⟩ := jwksKeys_ok hkeys
          have halgorithm := candidateError_algorithm hcandidate
          exact ⟨⟨root, keys, hload, hmember, (findCandidate_eq_ok.mp hfind).2⟩, halgorithm, halgorithm⟩

theorem jwksSelect_ne_nil {ext : Externals} {document : Bytes} {keyId : CString}
    {tokenAlgorithm : UInt32} {policy : JwksPolicy} {selected : SelectedJwk}
    (h : jwksSelect ext document keyId tokenAlgorithm policy = .ok selected) : document ≠ [] := by
  rintro rfl
  unfold jwksSelect at h
  split at h <;> simp [jwksKeys] at h

end OAuthValidator
