import OAuthValidator.BigEndian
import OAuthValidator.Jwks

/-! Key selection is exact and does not depend on the order of the keys, nor on keys
with other ids. The selection is shown with the record that it fills. -/

namespace OAuthValidator

/-! What a key and its document must be. -/

def algorithmTable : List (CString × UInt32) :=
  [(.lit "RS256", algorithmRs256), (.lit "ES256", algorithmEs256), (.lit "EdDSA", algorithmEddsa)]

theorem algorithmNamed_eq {value : Option Json} {bit : UInt32} (hbit : bit ≠ 0) :
    algorithmNamed value = bit ↔ ∃ name, (name, bit) ∈ algorithmTable ∧ value = some (.str name) := by
  constructor
  · rintro rfl
    unfold algorithmNamed at hbit ⊢
    split_ifs at hbit ⊢ with h1 h2 h3
    · exact ⟨.lit "RS256", by simp [algorithmTable], jsonStringEquals_eq_true.mp h1⟩
    · exact ⟨.lit "ES256", by simp [algorithmTable], jsonStringEquals_eq_true.mp h2⟩
    · exact ⟨.lit "EdDSA", by simp [algorithmTable], jsonStringEquals_eq_true.mp h3⟩
    · exact absurd rfl hbit
  · rintro ⟨name, hmem, rfl⟩
    have hall : ∀ entry ∈ algorithmTable, algorithmNamed (some (.str entry.1)) = entry.2 := by
      decide
    exact hall (name, bit) hmem

theorem validKeyIdText_iff {text : Bytes} {maximum : Nat} :
    validKeyIdText text maximum = true ↔
      (1 ≤ text.length ∧ text.length ≤ maximum) ∧ ∀ b ∈ text, iscntrl b = false := by
  simp [validKeyIdText, Nat.one_le_iff_ne_zero]

/-- A value that is a key id: a string of bounded length without controls. -/
def KeyIdValue (maximum : Nat) (value : Json) : Prop :=
  ∃ id : CString, value = .str id ∧ (1 ≤ id.bytes.length ∧ id.bytes.length ≤ maximum) ∧
    ∀ b ∈ id.bytes, iscntrl b = false

theorem validKeyId_iff {value : Json} {maximum : Nat} :
    validKeyId (some value) maximum = true ↔ KeyIdValue maximum value := by
  cases value <;> simp [validKeyId, KeyIdValue, Json.str?, validKeyIdText_iff]

/-- An object whose id, if it has one, is valid. -/
structure WellFormedKey (maximum : Nat) (key : Json) : Prop where
  object : key.isObject = true
  id : ∀ value, key.get? (.lit "kid") = some value → KeyIdValue maximum value

/-- The key is marked for the verification of signatures and for nothing else. -/
structure VerificationOnly (key : Json) : Prop where
  use : key.get? (.lit "use") = none ∨ key.get? (.lit "use") = some (.str (.lit "sig"))
  operations : key.get? (.lit "key_ops") = none ∨
    key.get? (.lit "key_ops") = some (.arr [.str (.lit "verify")])
  marked : key.get? (.lit "use") ≠ none ∨ key.get? (.lit "key_ops") ≠ none

/-- The key check of each algorithm. -/
def KeyParameters (ext : Externals) (policy : JwksPolicy) (algorithm : UInt32) (key : Json) : Prop :=
  (algorithm = algorithmRs256 → validRsaKey key policy = true) ∧
    (algorithm = algorithmEs256 → validEcKey ext key = true) ∧
    (algorithm = algorithmEddsa → validEd25519Key ext key = true)

/-- A document within its bounds, with the keys that it lists. -/
structure JwksDocument (ext : Externals) (policy : JwksPolicy) (document : Bytes) (root : Json)
    (keys : List Json) : Prop where
  nonempty : document ≠ []
  length_le : document.length ≤ policy.maxJwksSize
  nul_free : 0 ∉ document
  load : ext.jsonLoadb document = some root
  object : root.isObject = true
  keys : root.get? (.lit "keys") = some (.arr keys)

/-- The one key among those listed that the id and the algorithm select. -/
structure KeySelected (ext : Externals) (policy : JwksPolicy) (keyId : CString) (tokenAlgorithm : UInt32)
    (keys : List Json) (key : Json) : Prop where
  bounds : 1 ≤ keys.length ∧ keys.length ≤ policy.maxKeys
  wellFormed : ∀ listed ∈ keys, WellFormedKey policy.maxKeyIdSize listed
  only : keys.filter (carriesId keyId) = [key]
  algorithm : ∃ name, (name, tokenAlgorithm) ∈ algorithmTable ∧
    key.get? (.lit "alg") = some (.str name) ∧ tokenAlgorithm &&& policy.allowedAlgorithms ≠ 0
  marker : VerificationOnly key
  isPublic : ∀ name ∈ privateMembers, key.get? name = none
  parameters : KeyParameters ext policy tokenAlgorithm key

/-! The checks. -/

theorem singleton_verify_iff {operations : Option Json} :
    (match Json.arr? operations with
      | some [operation] => jsonStringEquals (some operation) (.lit "verify")
      | _ => false) = true ↔ operations = some (.arr [.str (.lit "verify")]) := by
  constructor
  · intro h
    split at h
    · next operation harr =>
      rw [Json.arr?_eq_some harr, Option.some.inj (jsonStringEquals_eq_true.mp h)]
    · simp at h
  · rintro rfl
    exact jsonStringEquals_eq_true.mpr rfl

theorem keyAllowsVerification_iff {key : Json} :
    keyAllowsVerification key = true ↔ VerificationOnly key := by
  simp only [keyAllowsVerification, Bool.and_eq_true, Bool.or_eq_true, Option.isNone_iff_eq_none,
    jsonStringEquals_eq_true, Option.isSome_iff_ne_none]
  constructor
  · rintro ⟨⟨huse, hoperations⟩, hmarked⟩
    exact ⟨huse, hoperations.imp_right singleton_verify_iff.mp, hmarked⟩
  · rintro ⟨huse, hoperations, hmarked⟩
    exact ⟨⟨huse, hoperations.imp_right singleton_verify_iff.mpr⟩, hmarked⟩

theorem containsPrivateKeyMaterial_eq_false {key : Json} :
    containsPrivateKeyMaterial key = false ↔ ∀ name ∈ privateMembers, key.get? name = none := by
  simp [containsPrivateKeyMaterial]

theorem candidateError_eq_none {ext : Externals} {key : Json} {tokenAlgorithm : UInt32}
    {policy : JwksPolicy} :
    candidateError ext key tokenAlgorithm policy = none ↔
      (∃ name, (name, tokenAlgorithm) ∈ algorithmTable ∧ key.get? (.lit "alg") = some (.str name) ∧
        tokenAlgorithm &&& policy.allowedAlgorithms ≠ 0) ∧
      VerificationOnly key ∧ (∀ name ∈ privateMembers, key.get? name = none) ∧
      KeyParameters ext policy tokenAlgorithm key := by
  have halgorithm : ¬ (keyAlgorithm key == 0 || keyAlgorithm key != tokenAlgorithm ||
      keyAlgorithm key &&& policy.allowedAlgorithms == 0) = true ↔
      ∃ name, (name, tokenAlgorithm) ∈ algorithmTable ∧ key.get? (.lit "alg") = some (.str name) ∧
        tokenAlgorithm &&& policy.allowedAlgorithms ≠ 0 := by
    simp only [Bool.or_eq_true, beq_iff_eq, bne_iff_ne, not_or, ne_eq, Decidable.not_not]
    constructor
    · rintro ⟨⟨hne, rfl⟩, hallowed⟩
      obtain ⟨name, hname, hvalue⟩ := (algorithmNamed_eq hne).mp rfl
      exact ⟨name, hname, hvalue, hallowed⟩
    · rintro ⟨name, hname, hvalue, hallowed⟩
      have hne : tokenAlgorithm ≠ 0 := fun hzero => hallowed (by simp [hzero])
      have hkey : keyAlgorithm key = tokenAlgorithm := (algorithmNamed_eq hne).mpr ⟨name, hname, hvalue⟩
      exact ⟨⟨hkey ▸ hne, hkey⟩, hkey ▸ hallowed⟩
  have hparameters (algorithm : UInt32) : ¬ ((algorithm == algorithmRs256 && !validRsaKey key policy) ||
      (algorithm == algorithmEs256 && !validEcKey ext key) ||
      (algorithm == algorithmEddsa && !validEd25519Key ext key)) = true ↔
      KeyParameters ext policy algorithm key := by
    simp [KeyParameters, and_assoc]
  rw [← halgorithm, ← keyAllowsVerification_iff, ← containsPrivateKeyMaterial_eq_false, ← hparameters]
  simp only [candidateError]
  split
  · next h => simp [h]
  next h =>
    have hkey : keyAlgorithm key = tokenAlgorithm := by
      simp only [Bool.or_eq_true, bne_iff_ne, not_or, ne_eq, Decidable.not_not] at h
      exact h.1.2
    rw [and_iff_right h, hkey]
    cases keyAllowsVerification key <;> cases containsPrivateKeyMaterial key <;> simp

theorem keysWellFormed_iff {maximum : Nat} {keys : List Json} :
    KeysWellFormed maximum keys ↔ ∀ key ∈ keys, WellFormedKey maximum key := by
  refine forall₂_congr fun key _ => ⟨fun h => ⟨h.1, fun id hid => ?_⟩, fun h => ⟨h.object, fun id hid => ?_⟩⟩
  · exact validKeyId_iff.mp (h.2 id hid)
  · exact validKeyId_iff.mpr (h.id id hid)

theorem jwksKeys_eq_ok {ext : Externals} {document : Bytes} {policy : JwksPolicy} {root : Json}
    {keys : List Json} :
    jwksKeys ext document policy = .ok (root, keys) ↔
      JwksDocument ext policy document root keys ∧ 1 ≤ keys.length ∧ keys.length ≤ policy.maxKeys := by
  constructor
  · intro h
    obtain ⟨hload, hkeys⟩ := jwksKeys_ok h
    simp only [jwksKeys, hload, hkeys, Json.arr?] at h
    split_ifs at h with hempty hlarge hnul hobject hnone hmany
    exact ⟨⟨by simpa using hempty, by omega, by simpa using hnul, hload, by simpa using hobject, hkeys⟩,
      List.length_pos_iff.mpr (by simpa using hnone), by omega⟩
  · rintro ⟨h, hpos, hle⟩
    simp [jwksKeys, h.nonempty, Nat.not_lt.mpr h.length_le, h.nul_free, h.load, h.object, h.keys, Json.arr?,
      List.length_pos_iff.mp hpos, Nat.not_lt.mpr hle]

/-! The arguments. -/

/-- The part of the arguments that is the policy. -/
def jwksPolicyValid (policy : JwksPolicy) : Bool :=
  policy.maxJwksSize != 0 && policy.maxKeys != 0 && policy.maxKeyIdSize != 0 &&
    policy.allowedAlgorithms != 0 && 2048 ≤ policy.minimumRsaBits &&
    policy.minimumRsaBits ≤ policy.maximumRsaBits && policy.maximumRsaBits ≤ 16384

theorem jwksArgumentsValid_eq (keyId : CString) (tokenAlgorithm : UInt32) (policy : JwksPolicy) :
    jwksArgumentsValid keyId tokenAlgorithm policy =
      (jwksPolicyValid policy && (tokenAlgorithm != 0 && tokenAlgorithm &&& (tokenAlgorithm - 1) == 0 &&
        tokenAlgorithm &&& policy.allowedAlgorithms != 0 && validKeyIdText keyId.bytes policy.maxKeyIdSize)) := by
  simp only [jwksArgumentsValid, jwksPolicyValid, Bool.and_assoc]

/-- The other arguments of a selection that succeeds are valid. -/
theorem KeySelected.arguments {ext : Externals} {policy : JwksPolicy} {keyId : CString}
    {tokenAlgorithm : UInt32} {keys : List Json} {key : Json}
    (h : KeySelected ext policy keyId tokenAlgorithm keys key) (hpolicy : jwksPolicyValid policy = true) :
    jwksArgumentsValid keyId tokenAlgorithm policy = true := by
  obtain ⟨name, hname, _, hallowed⟩ := h.algorithm
  have hmem : key ∈ keys.filter (carriesId keyId) := h.only ▸ List.mem_singleton_self key
  obtain ⟨hlisted, hcarries⟩ := List.mem_filter.mp hmem
  obtain ⟨id, hid, hbounds⟩ := (h.wellFormed key hlisted).id _ (carriesId_iff.mp hcarries)
  obtain rfl := Json.str.inj hid
  have hsingle : ∀ entry ∈ algorithmTable, (entry.2 != 0 && entry.2 &&& (entry.2 - 1) == 0) = true := by
    decide
  rw [jwksArgumentsValid_eq, hpolicy, hsingle (name, tokenAlgorithm) hname, validKeyIdText_iff.mpr hbounds]
  simpa using hallowed

theorem jwksSelect_eq_ok {ext : Externals} {document : Bytes} {keyId : CString} {tokenAlgorithm : UInt32}
    {policy : JwksPolicy} {selected : SelectedJwk} (hpolicy : jwksPolicyValid policy = true) :
    jwksSelect ext document keyId tokenAlgorithm policy = .ok selected ↔
      ∃ keys, JwksDocument ext policy document selected.jwks keys ∧
        KeySelected ext policy keyId tokenAlgorithm keys selected.jwk ∧
        selected.algorithm = tokenAlgorithm := by
  constructor
  · intro h
    obtain ⟨_, halgorithm, _⟩ := jwksSelect_ok h
    unfold jwksSelect at h
    split_ifs at h with harguments
    split at h
    · simp at h
    next root keys hkeys =>
    split at h
    · simp at h
    · simp at h
    next key hfind =>
    split at h
    · simp at h
    next hcandidate =>
      obtain rfl := Except.ok.inj h
      obtain ⟨hdocument, hbounds⟩ := jwksKeys_eq_ok.mp hkeys
      obtain ⟨hwell, honly⟩ := findCandidate_eq_ok.mp hfind
      obtain ⟨hname, hmarker, hpublic, hparameters⟩ := candidateError_eq_none.mp hcandidate
      exact ⟨keys, hdocument,
        ⟨hbounds, keysWellFormed_iff.mp hwell, honly, hname, hmarker, hpublic, hparameters⟩, halgorithm⟩
  · rintro ⟨keys, hdocument, h, halgorithm⟩
    have hfind : findCandidate keyId policy.maxKeyIdSize none keys = .ok (some selected.jwk) :=
      findCandidate_eq_ok.mpr ⟨keysWellFormed_iff.mpr h.wellFormed, h.only⟩
    have hcandidate : candidateError ext selected.jwk tokenAlgorithm policy = none :=
      candidateError_eq_none.mpr ⟨h.algorithm, h.marker, h.isPublic, h.parameters⟩
    simp only [jwksSelect, h.arguments hpolicy, jwksKeys_eq_ok.mpr ⟨hdocument, h.bounds⟩, hfind, hcandidate,
      candidateError_algorithm hcandidate, Bool.not_true, Bool.false_eq_true, if_false]
    rw [← halgorithm]

/-! Other orders and other keys. -/

/-- An object that the id does not concern: it has no id, or another valid one. -/
structure UnrelatedKey (maximum : Nat) (keyId : CString) (key : Json) : Prop where
  wellFormed : WellFormedKey maximum key
  other : key.get? (.lit "kid") ≠ some (.str keyId)

section
variable {ext : Externals} {policy : JwksPolicy} {keyId : CString} {tokenAlgorithm : UInt32} {key : Json}

theorem KeySelected.perm {keys keys' : List Json} (hperm : keys.Perm keys')
    (h : KeySelected ext policy keyId tokenAlgorithm keys key) :
    KeySelected ext policy keyId tokenAlgorithm keys' key :=
  { h with
    bounds := hperm.length_eq ▸ h.bounds
    wellFormed := fun listed hm => h.wellFormed listed (hperm.mem_iff.mpr hm)
    only := List.perm_singleton.mp ((hperm.filter (carriesId keyId)).symm.trans (h.only ▸ .refl _)) }

theorem keySelected_cons {other : Json} {keys : List Json}
    (hother : UnrelatedKey policy.maxKeyIdSize keyId other) (hne : keys ≠ [])
    (hmax : keys.length + 1 ≤ policy.maxKeys) :
    KeySelected ext policy keyId tokenAlgorithm (other :: keys) key ↔
      KeySelected ext policy keyId tokenAlgorithm keys key := by
  have hfilter : (other :: keys).filter (carriesId keyId) = keys.filter (carriesId keyId) :=
    List.filter_cons_of_neg fun h => hother.other (carriesId_iff.mp h)
  constructor
  · intro h
    exact { h with
      bounds := ⟨List.length_pos_iff.mpr hne, by omega⟩
      wellFormed := fun listed hm => h.wellFormed listed (List.mem_cons_of_mem other hm)
      only := hfilter ▸ h.only }
  · intro h
    exact { h with
      bounds := ⟨by simp, by simpa using hmax⟩
      wellFormed := List.forall_mem_cons.mpr ⟨hother.wellFormed, h.wellFormed⟩
      only := hfilter ▸ h.only }

end

/-! The record that the selection fills. -/

/-- `PgOAuthSelectedJwk`, whose pointers may be NULL. -/
structure SelectionRecord where
  jwks : Option Json
  jwk : Option Json
  algorithm : UInt32
deriving DecidableEq

/-- The record after `memset`. -/
def SelectionRecord.zero : SelectionRecord := ⟨none, none, 0⟩

/-- `pg_oauth_selected_jwk_clear`. -/
def selectedJwkClear (_ : SelectionRecord) : SelectionRecord := .zero

/-- The selection among the keys of a loaded document. -/
def selectInto (ext : Externals) (root : Json) (keyId : CString) (tokenAlgorithm : UInt32)
    (policy : JwksPolicy) (selected : SelectionRecord) : JwksError × SelectionRecord :=
  if !root.isObject then (.invalidJson, selectedJwkClear selected)
  else
    match Json.arr? (root.get? (.lit "keys")) with
    | none => (.invalidKeys, selectedJwkClear selected)
    | some keys =>
      if keys.isEmpty then (.invalidKeys, selectedJwkClear selected)
      else if policy.maxKeys < keys.length then (.tooManyKeys, selectedJwkClear selected)
      else
        match findCandidate keyId policy.maxKeyIdSize none keys with
        | .error error => (error, selectedJwkClear selected)
        | .ok none => (.keyNotFound, selectedJwkClear selected)
        | .ok (some key) =>
          match candidateError ext key tokenAlgorithm policy with
          | some error => (error, selectedJwkClear selected)
          | none => (.ok, { selected with jwk := some key, algorithm := keyAlgorithm key })

/-- `pg_oauth_jwks_select` with the record that the caller passes. -/
def jwksSelectInto (ext : Externals) (document : Option Bytes) (keyId : Option CString)
    (tokenAlgorithm : UInt32) (policy : Option JwksPolicy) (_ : SelectionRecord) :
    JwksError × SelectionRecord :=
  let selected := SelectionRecord.zero
  match document, keyId, policy with
  | some document, some keyId, some policy =>
    if !jwksArgumentsValid keyId tokenAlgorithm policy then (.invalidArgument, selected)
    else if document.isEmpty then (.empty, selected)
    else if policy.maxJwksSize < document.length then (.tooLarge, selected)
    else if document.contains 0 then (.invalidJson, selected)
    else
      match ext.jsonLoadb document with
      | none => (.invalidJson, selectedJwkClear selected)
      | some root => selectInto ext root keyId tokenAlgorithm policy { selected with jwks := some root }
  | _, _, _ => (.invalidArgument, selected)

def SelectedJwk.record (selected : SelectedJwk) : SelectionRecord :=
  ⟨some selected.jwks, some selected.jwk, selected.algorithm⟩

/-- The result code and the record, for what the selection returns. -/
def selectOutcome : Except JwksError SelectedJwk → JwksError × SelectionRecord :=
  outcome .ok .zero SelectedJwk.record

theorem jwksSelectInto_eq (ext : Externals) (document : Bytes) (keyId : CString) (tokenAlgorithm : UInt32)
    (policy : JwksPolicy) (record : SelectionRecord) :
    jwksSelectInto ext (some document) (some keyId) tokenAlgorithm (some policy) record =
      selectOutcome (jwksSelect ext document keyId tokenAlgorithm policy) := by
  simp only [jwksSelectInto, jwksSelect, jwksKeys, selectInto, selectedJwkClear]
  -- the checks come in the same order, and each failure leaves the record empty
  split_ifs <;> try rfl
  cases ext.jsonLoadb document with
  | none => rfl
  | some root =>
    cases hobject : root.isObject with
    | false => simp [selectOutcome, outcome, hobject]
    | true =>
      cases hkeys : Json.arr? (root.get? (.lit "keys")) with
      | none => simp [selectOutcome, outcome, hobject, hkeys]
      | some keys =>
        simp only [hobject, hkeys, Bool.not_true, Bool.false_eq_true, if_false]
        split_ifs <;> try rfl
        dsimp only
        cases findCandidate keyId policy.maxKeyIdSize none keys with
        | error error => rfl
        | ok found =>
          cases found with
          | none => rfl
          | some key => cases hcandidate : candidateError ext key tokenAlgorithm policy <;> simp [hcandidate] <;> rfl

/-! No failure has the code of success. -/

theorem findCandidate_ne_ok {keyId : CString} {maximum : Nat} {candidate : Option Json} {keys : List Json} :
    findCandidate keyId maximum candidate keys ≠ .error .ok := by
  induction keys generalizing candidate with
  | nil => simp [findCandidate]
  | cons key rest ih =>
    rw [findCandidate]
    split
    · simp
    split
    · exact ih
    split
    · simp
    split
    · split
      · simp
      · exact ih
    · exact ih

theorem jwksKeys_ne_ok {ext : Externals} {document : Bytes} {policy : JwksPolicy} :
    jwksKeys ext document policy ≠ .error .ok := by
  simp only [jwksKeys]
  split_ifs <;> try simp
  split <;> try simp
  split_ifs <;> try simp
  split <;> try simp
  split_ifs <;> simp

theorem candidateError_ne_ok {ext : Externals} {key : Json} {tokenAlgorithm : UInt32} {policy : JwksPolicy} :
    candidateError ext key tokenAlgorithm policy ≠ some .ok := by
  simp only [candidateError]
  split_ifs <;> simp

theorem jwksSelect_ne_ok {ext : Externals} {document : Bytes} {keyId : CString} {tokenAlgorithm : UInt32}
    {policy : JwksPolicy} : jwksSelect ext document keyId tokenAlgorithm policy ≠ .error .ok := by
  unfold jwksSelect
  split_ifs
  · simp
  split
  · next e hkeys => exact fun h => jwksKeys_ne_ok (hkeys.trans (congrArg _ (Except.error.inj h)))
  split
  · next e hfind => exact fun h => findCandidate_ne_ok (hfind.trans (congrArg _ (Except.error.inj h)))
  · simp
  split
  · next e hcandidate =>
    exact fun h => candidateError_ne_ok (hcandidate.trans (congrArg some (Except.error.inj h)))
  · simp

/-- The call returns success with the key. -/
def SelectsKey (ext : Externals) (policy : JwksPolicy) (record : SelectionRecord) (document : Bytes)
    (keyId : CString) (tokenAlgorithm : UInt32) (key : Json) : Prop :=
  (jwksSelectInto ext (some document) (some keyId) tokenAlgorithm (some policy) record).1 = .ok ∧
    (jwksSelectInto ext (some document) (some keyId) tokenAlgorithm (some policy) record).2.jwk = some key

theorem selectsKey_iff {ext : Externals} {policy : JwksPolicy} {record : SelectionRecord} {document : Bytes}
    {keyId : CString} {tokenAlgorithm : UInt32} {key : Json} (hpolicy : jwksPolicyValid policy = true) :
    SelectsKey ext policy record document keyId tokenAlgorithm key ↔
      ∃ root keys, JwksDocument ext policy document root keys ∧
        KeySelected ext policy keyId tokenAlgorithm keys key := by
  rw [SelectsKey, jwksSelectInto_eq, selectOutcome, outcome_success jwksSelect_ne_ok]
  constructor
  · rintro ⟨⟨selected, hok, hrecord⟩, hkey⟩
    obtain ⟨keys, hdocument, hselected, _⟩ := (jwksSelect_eq_ok hpolicy).mp hok
    obtain rfl := Option.some.inj ((congrArg SelectionRecord.jwk hrecord).symm.trans hkey)
    exact ⟨selected.jwks, keys, hdocument, hselected⟩
  · rintro ⟨root, keys, hdocument, hselected⟩
    have hok : jwksSelect ext document keyId tokenAlgorithm policy = .ok ⟨root, key, tokenAlgorithm⟩ :=
      (jwksSelect_eq_ok hpolicy).mpr ⟨keys, hdocument, hselected, rfl⟩
    rw [hok]
    exact ⟨⟨_, rfl, rfl⟩, rfl⟩

theorem JwksDocument.selectsKey_iff {ext : Externals} {policy : JwksPolicy} {record : SelectionRecord}
    {document : Bytes} {root : Json} {keys : List Json} (h : JwksDocument ext policy document root keys)
    (hpolicy : jwksPolicyValid policy = true) {keyId : CString} {tokenAlgorithm : UInt32} {key : Json} :
    SelectsKey ext policy record document keyId tokenAlgorithm key ↔
      KeySelected ext policy keyId tokenAlgorithm keys key := by
  rw [OAuthValidator.selectsKey_iff hpolicy]
  constructor
  · rintro ⟨root', keys', h', hselected⟩
    obtain rfl := Option.some.inj (h.load.symm.trans h'.load)
    obtain rfl := Json.arr.inj (Option.some.inj (h.keys.symm.trans h'.keys))
    exact hselected
  · exact fun hselected => ⟨root, keys, h, hselected⟩

/-- A key is selected exactly when the document lists it as the one key for the id
and the algorithm. Neither the order of the keys nor the keys with other ids matter,
and a failure selects nothing. -/
theorem key_selection_exact (ext : Externals) {policy : JwksPolicy} (hpolicy : jwksPolicyValid policy = true)
    (record : SelectionRecord) (keyId : CString) (tokenAlgorithm : UInt32) :
    (∀ document key, SelectsKey ext policy record document keyId tokenAlgorithm key ↔
      ∃ root keys, JwksDocument ext policy document root keys ∧
        KeySelected ext policy keyId tokenAlgorithm keys key) ∧
    (∀ document document' root root' keys keys',
      JwksDocument ext policy document root keys → JwksDocument ext policy document' root' keys' →
      keys.Perm keys' → ∀ key, SelectsKey ext policy record document keyId tokenAlgorithm key ↔
        SelectsKey ext policy record document' keyId tokenAlgorithm key) ∧
    (∀ document document' root root' front back other,
      JwksDocument ext policy document root (front ++ back) →
      JwksDocument ext policy document' root' (front ++ other :: back) →
      UnrelatedKey policy.maxKeyIdSize keyId other → front ++ back ≠ [] →
      (front ++ other :: back).length ≤ policy.maxKeys →
      ∀ key, SelectsKey ext policy record document keyId tokenAlgorithm key ↔
        SelectsKey ext policy record document' keyId tokenAlgorithm key) ∧
    ∀ document, (jwksSelectInto ext document (some keyId) tokenAlgorithm (some policy) record).1 ≠ .ok →
      (jwksSelectInto ext document (some keyId) tokenAlgorithm (some policy) record).2 = .zero := by
  refine ⟨fun document key => selectsKey_iff hpolicy, ?_, ?_, ?_⟩
  · intro document document' root root' keys keys' h h' hperm key
    rw [h.selectsKey_iff hpolicy, h'.selectsKey_iff hpolicy]
    exact ⟨.perm hperm, .perm hperm.symm⟩
  · intro document document' root root' front back other h h' hother hne hmax key
    have hperm : (front ++ other :: back).Perm (other :: (front ++ back)) := List.perm_middle
    rw [h.selectsKey_iff hpolicy, h'.selectsKey_iff hpolicy,
      ← keySelected_cons hother hne (hperm.length_eq.ge.trans hmax)]
    exact ⟨.perm hperm.symm, .perm hperm⟩
  · intro document hcode
    cases document with
    | none => rfl
    | some document =>
      rw [jwksSelectInto_eq] at hcode ⊢
      exact outcome_failed hcode

namespace Sample

def selectionPolicy : JwksPolicy where
  maxJwksSize := 1048576
  maxKeys := 100
  maxKeyIdSize := 1024
  allowedAlgorithms := algorithmEs256
  minimumRsaBits := 2048
  maximumRsaBits := 8192

/-- The points of P-256. -/
def p256Point (x y : Bytes) : Bool :=
  let p := 2 ^ 256 - 2 ^ 224 + 2 ^ 192 + 2 ^ 96 - 1
  let b := 0x5ac635d8aa3a93e7b3ebbd55769886bc651d06b0cc53b0f63bce3c3e27d2604b
  let u := BigEndian.value x
  let v := BigEndian.value y
  decide (u < p) && decide (v < p) && v ^ 2 % p == (u ^ 3 + (p - 3) * u + b) % p

def ecKey : Json :=
  .obj [(.lit "kid", .str (.lit "a")), (.lit "alg", .str (.lit "ES256")), (.lit "use", .str (.lit "sig")),
    (.lit "kty", .str (.lit "EC")), (.lit "crv", .str (.lit "P-256")),
    (.lit "x", .str (.lit "f83OJ3D2xF1Bg8vub9tLe1gHMzV76e8Tus9uPHvRVEU")),
    (.lit "y", .str (.lit "x_FEzRu9m36HLN_tue659LNpXW6pCyStikYjKIWI5a0"))]

/-- The key between one without an algorithm and one without anything. -/
def ecDocument : Bytes :=
  ascii "\x7b\"keys\":[\x7b\"kid\":\"b\"\x7d," ++
    ascii "\x7b\"kid\":\"a\",\"alg\":\"ES256\",\"use\":\"sig\",\"kty\":\"EC\",\"crv\":\"P-256\"," ++
    ascii "\"x\":\"f83OJ3D2xF1Bg8vub9tLe1gHMzV76e8Tus9uPHvRVEU\"," ++
    ascii "\"y\":\"x_FEzRu9m36HLN_tue659LNpXW6pCyStikYjKIWI5a0\"\x7d,\x7b\x7d]\x7d"

/-- What the libraries answer on this document. -/
def selectionExternals : Externals where
  jsonLoadb text :=
    if text == ecDocument then
      some (.obj [(.lit "keys", .arr [.obj [(.lit "kid", .str (.lit "b"))], ecKey, .obj []])])
    else none
  jsonDumps _ := none
  curlUrlSet _ := none
  curlGetdate _ := -1
  ecPointOnCurve := p256Point
  ed25519PublicKey _ := false
  jwksCreate _ := false
  jwtChecker _ _ := false
  jwtVerify _ _ _ := false

end Sample

theorem key_selection_exact_middle : ∃ root keys,
    JwksDocument Sample.selectionExternals Sample.selectionPolicy Sample.ecDocument root keys ∧
      KeySelected Sample.selectionExternals Sample.selectionPolicy (.lit "a") algorithmEs256 keys
        Sample.ecKey :=
  ((key_selection_exact Sample.selectionExternals (by decide) .zero (.lit "a") algorithmEs256).1 Sample.ecDocument
    Sample.ecKey).mp ⟨by decide +kernel, by decide +kernel⟩

end OAuthValidator
