import OAuthValidator.Base64urlCodec
import OAuthValidator.JwtEnvelope
import OAuthValidator.KeySelection

/-! The envelope parser accepts exactly its grammar, and one token for the bytes that
it carries. The split is shown in the form of its loop, and the parse with the record
that it fills. -/

namespace OAuthValidator

/-! The split. -/

def closeSegment (segments : List Bytes) (segment : Bytes) : Option (List Bytes) :=
  if 3 ≤ segments.length || segment.isEmpty then none else some (segments ++ [segment])

/-- The loop of `split_compact_jws`. A dot closes a segment, and so does the end. -/
def splitLoop (segments : List Bytes) (segment : Bytes) : Bytes → Option (List Bytes)
  | [] => closeSegment segments segment
  | b :: rest =>
    if b != dot then splitLoop segments (segment ++ [b]) rest
    else
      match closeSegment segments segment with
      | none => none
      | some segments => splitLoop segments [] rest

theorem closeSegment_eq_some {segments result : List Bytes} {segment : Bytes} :
    closeSegment segments segment = some result ↔
      segments.length < 3 ∧ segment ≠ [] ∧ segments ++ [segment] = result := by
  simp [closeSegment, and_assoc]

theorem splitOn_dot_cons (b : UInt8) (rest : Bytes) :
    (b :: rest).splitOn dot =
      if b = dot then [] :: rest.splitOn dot else (rest.splitOn dot).modifyHead (b :: ·) := by
  simp [List.splitOn, List.splitOnP_cons_eq_if_modifyHead]

/-- The loop closes the pieces between the dots, the first of which completes the
open segment. -/
theorem splitLoop_eq_some {segments result tail : List Bytes} {segment rest head : Bytes}
    (hsplit : rest.splitOn dot = head :: tail) :
    splitLoop segments segment rest = some result ↔
      segments ++ (segment ++ head) :: tail = result ∧
        (∀ piece ∈ (segment ++ head) :: tail, piece ≠ []) ∧ result.length ≤ 3 := by
  induction rest generalizing segments segment head tail with
  | nil =>
    obtain ⟨rfl, rfl⟩ : head = [] ∧ tail = [] := by simpa [eq_comm] using hsplit
    rw [splitLoop, closeSegment_eq_some, List.append_nil]
    constructor
    · rintro ⟨hlt, hne, rfl⟩
      exact ⟨rfl, by simpa using hne, List.length_append ▸ hlt⟩
    · rintro ⟨rfl, hne, hle⟩
      rw [List.length_append] at hle
      exact ⟨hle, hne segment (by simp), rfl⟩
  | cons b rest ih =>
    obtain ⟨first, others, hrest⟩ := List.exists_cons_of_ne_nil (List.splitOn_ne_nil dot rest)
    rw [splitOn_dot_cons, hrest] at hsplit
    by_cases hb : b = dot
    · obtain ⟨rfl, rfl⟩ : [] = head ∧ first :: others = tail := by simpa [hb] using hsplit
      simp only [splitLoop, hb, bne_self_eq_false, Bool.false_eq_true, if_false, List.append_nil]
      cases hclose : closeSegment segments segment with
      | none =>
        have hfull : segments.length < 3 → segment = [] := by simpa [closeSegment] using hclose
        refine iff_of_false (by simp) ?_
        rintro ⟨rfl, hne, hle⟩
        refine hne segment List.mem_cons_self (hfull ?_)
        simp only [List.length_append, List.length_cons] at hle
        omega
      | some closed =>
        obtain ⟨hlt, hne, rfl⟩ := closeSegment_eq_some.mp hclose
        simp [ih hrest, hne]
    · obtain ⟨rfl, rfl⟩ : b :: first = head ∧ others = tail := by simpa [hb] using hsplit
      simp [splitLoop, hb, ih hrest]

theorem splitCompactJws_eq_some {token header payload signature : Bytes} :
    splitCompactJws token = some (header, payload, signature) ↔
      token.splitOn dot = [header, payload, signature] ∧ header ≠ [] ∧ payload ≠ [] ∧ signature ≠ [] := by
  unfold splitCompactJws
  constructor
  · intro h
    split at h
    · next hsplit =>
      rw [hsplit]
      split at h
      · simp at h
      · next hne =>
        obtain ⟨rfl, rfl, rfl⟩ : _ = header ∧ _ = payload ∧ _ = signature := by simpa using h
        simpa [and_assoc] using hne
    · simp at h
  · rintro ⟨hsplit, hheader, hpayload, hsignature⟩
    simp [hsplit, hheader, hpayload, hsignature]

/-- The loop finds the three segments that the model finds. -/
theorem splitLoop_eq_compactJws {token header payload signature : Bytes} :
    splitLoop [] [] token = some [header, payload, signature] ↔
      splitCompactJws token = some (header, payload, signature) := by
  obtain ⟨head, tail, hsplit⟩ := List.exists_cons_of_ne_nil (List.splitOn_ne_nil dot token)
  rw [splitLoop_eq_some hsplit, splitCompactJws_eq_some, hsplit]
  simp only [List.nil_append]
  constructor
  · rintro ⟨heq, hne, _⟩
    rw [heq] at hne
    exact ⟨heq, by simpa using hne⟩
  · rintro ⟨heq, hne⟩
    rw [heq]
    exact ⟨rfl, by simpa using hne, le_rfl⟩

/-! The record that the parse fills. -/

/-- `PgOAuthJwtEnvelope`, whose pointers may be NULL. -/
structure EnvelopeRecord where
  untrustedHeader : Option Json
  untrustedPayload : Option Json
  algorithm : UInt32
  keyId : Option CString
deriving DecidableEq

/-- The record after `memset`. -/
def EnvelopeRecord.zero : EnvelopeRecord := ⟨none, none, 0, none⟩

/-- `pg_oauth_jwt_envelope_clear`. -/
def jwtEnvelopeClear (_ : EnvelopeRecord) : EnvelopeRecord := .zero

def JwtEnvelope.record (envelope : JwtEnvelope) : EnvelopeRecord :=
  ⟨some envelope.untrustedHeader, some envelope.untrustedPayload, envelope.algorithm, some envelope.keyId⟩

/-- The checks of a header whose record has its two objects. -/
def fillHeader (header : Json) (policy : JwtEnvelopePolicy) (record : EnvelopeRecord) :
    JwtEnvelopeError × EnvelopeRecord :=
  let algorithm := parseAlgorithm header
  if hasUnsupportedHeader header then (.unsupportedHeader, jwtEnvelopeClear record)
  else if algorithm == 0 || algorithm &&& policy.allowedAlgorithms == 0 then
    (.invalidAlgorithm, jwtEnvelopeClear record)
  else if !tokenTypeAllowed header policy then (.invalidTokenType, jwtEnvelopeClear record)
  else
    match Json.str? (header.get? (.lit "kid")) with
    | none => (.invalidKeyId, jwtEnvelopeClear record)
    | some keyId =>
      if !validKeyIdText keyId.bytes jwtMaxKeyIdSize then (.invalidKeyId, jwtEnvelopeClear record)
      else (.ok, { record with algorithm := algorithm, keyId := some keyId })

/-- `pg_oauth_jwt_envelope_parse` with the record that the caller passes. -/
def jwtEnvelopeParseInto (ext : Externals) (token : Option Bytes) (policy : Option JwtEnvelopePolicy)
    (_ : EnvelopeRecord) : JwtEnvelopeError × EnvelopeRecord :=
  let record := EnvelopeRecord.zero
  match token, policy with
  | some token, some policy =>
    if !jwtEnvelopePolicyValid policy then (.invalidArgument, record)
    else if token.isEmpty then (.empty, record)
    else if policy.maxTokenSize < token.length then (.tooLarge, record)
    else if token.contains 0 then (.invalidCompactJws, record)
    else
      match splitLoop [] [] token with
      | some [headerText, payloadText, signatureText] =>
        if !base64urlValid headerText || !base64urlValid payloadText || !base64urlValid signatureText then
          (.invalidBase64url, record)
        else
          match decodeJsonObject ext headerText policy.maxHeaderSize .headerTooLarge .invalidHeaderJson with
          | .error error => (error, jwtEnvelopeClear record)
          | .ok header =>
            let record := { record with untrustedHeader := some header }
            match decodeJsonObject ext payloadText policy.maxPayloadSize .payloadTooLarge
              .invalidPayloadJson with
            | .error error => (error, jwtEnvelopeClear record)
            | .ok payload => fillHeader header policy { record with untrustedPayload := some payload }
      | _ => (.invalidCompactJws, record)
  | _, _ => (.invalidArgument, record)

/-- The result code and the record, for what the parse returns. -/
def parseOutcome : Except JwtEnvelopeError JwtEnvelope → JwtEnvelopeError × EnvelopeRecord :=
  outcome .ok .zero JwtEnvelope.record

/-- A check that fails leaves the record empty. -/
theorem parseOutcome_require (check : Bool) (error : JwtEnvelopeError)
    (rest : Unit → Except JwtEnvelopeError JwtEnvelope) :
    parseOutcome (require check error >>= rest) =
      if !check then (error, .zero) else parseOutcome (rest ()) := by
  cases check <;> rfl

theorem fillHeader_eq (header payload : Json) (policy : JwtEnvelopePolicy) :
    fillHeader header policy ⟨some header, some payload, 0, none⟩ = parseOutcome (do
      require (!hasUnsupportedHeader header) .unsupportedHeader
      require (parseAlgorithm header != 0 && parseAlgorithm header &&& policy.allowedAlgorithms != 0)
        .invalidAlgorithm
      require (tokenTypeAllowed header policy) .invalidTokenType
      let keyId ← given (Json.str? (header.get? (.lit "kid"))) .invalidKeyId
      require (validKeyIdText keyId.bytes jwtMaxKeyIdSize) .invalidKeyId
      return ⟨header, payload, parseAlgorithm header, keyId⟩) := by
  have halgorithm : (parseAlgorithm header == 0 || parseAlgorithm header &&& policy.allowedAlgorithms == 0) =
      !(parseAlgorithm header != 0 && parseAlgorithm header &&& policy.allowedAlgorithms != 0) := by
    simp [bne]
  simp only [fillHeader, parseOutcome_require, jwtEnvelopeClear, halgorithm, Bool.not_not]
  cases Json.str? (header.get? (.lit "kid")) with
  | none => rfl
  | some keyId =>
    simp only [given_some_bind, parseOutcome_require]
    rfl

theorem jwtEnvelopeParseInto_eq (ext : Externals) (token : Bytes) (policy : JwtEnvelopePolicy)
    (record : EnvelopeRecord) :
    jwtEnvelopeParseInto ext (some token) (some policy) record =
      parseOutcome (jwtEnvelopeParse ext token policy) := by
  have hsize : policy.maxTokenSize < token.length ↔ (!decide (token.length ≤ policy.maxTokenSize)) = true := by
    simp
  simp only [jwtEnvelopeParseInto, jwtEnvelopeParse, parseOutcome_require, Bool.not_not, hsize]
  -- up to the split the two make the same checks
  refine congrArg (ite _ _) (congrArg (ite _ _) (congrArg (ite _ _) (congrArg (ite _ _) ?_)))
  cases hcompact : splitCompactJws token with
  | none =>
    have hloop : ∀ h p s, splitLoop [] [] token ≠ some [h, p, s] := fun h p s heq => by
      simp [splitLoop_eq_compactJws.mp heq] at hcompact
    split
    · next heq => exact absurd heq (hloop _ _ _)
    · rfl
  | some segments =>
    obtain ⟨headerText, payloadText, signatureText⟩ := segments
    have hvalid : (!base64urlValid headerText || !base64urlValid payloadText ||
        !base64urlValid signatureText) =
        !([headerText, payloadText, signatureText].all base64urlValid) := by
      simp [Bool.or_assoc]
    simp only [splitLoop_eq_compactJws.mpr hcompact, given_some_bind, parseOutcome_require, hvalid]
    congr 1
    cases decodeJsonObject ext headerText policy.maxHeaderSize .headerTooLarge .invalidHeaderJson with
    | error error => rfl
    | ok header =>
      cases decodeJsonObject ext payloadText policy.maxPayloadSize .payloadTooLarge .invalidPayloadJson with
      | error error => rfl
      | ok payload => exact fillHeader_eq header payload policy

/-! The grammar. -/

def tokenTypeTable : List (CString × UInt8) :=
  [(.lit "at+jwt", tokenTypeAtJwt), (.lit "application/at+jwt", tokenTypeApplicationAtJwt)]

/-- A token that is accepted, and what is read from it. -/
structure EnvelopeGrammar (ext : Externals) (policy : JwtEnvelopePolicy) (token : Bytes)
    (envelope : JwtEnvelope) : Prop where
  nonempty : 1 ≤ token.length
  length_le : token.length ≤ policy.maxTokenSize
  nul_free : 0 ∉ token
  segments : ∃ headerText payloadText signatureText header payload signature,
    token.splitOn dot = [headerText, payloadText, signatureText] ∧
      CanonicalBase64url headerText header ∧ CanonicalBase64url payloadText payload ∧
      CanonicalBase64url signatureText signature ∧
      header.length ≤ policy.maxHeaderSize ∧ payload.length ≤ policy.maxPayloadSize ∧
      ext.jsonLoadb header = some envelope.untrustedHeader ∧
      ext.jsonLoadb payload = some envelope.untrustedPayload
  header : envelope.untrustedHeader.isObject = true
  payload : envelope.untrustedPayload.isObject = true
  supported : ∀ name ∈ forbiddenHeaders, envelope.untrustedHeader.get? name = none
  algorithm : ∃ name, (name, envelope.algorithm) ∈ algorithmTable ∧
    envelope.untrustedHeader.get? (.lit "alg") = some (.str name) ∧
    envelope.algorithm &&& policy.allowedAlgorithms ≠ 0
  tokenType : (envelope.untrustedHeader.get? (.lit "typ") = none ∧ policy.allowMissingTokenType = true) ∨
    ∃ name bit, (name, bit) ∈ tokenTypeTable ∧
      envelope.untrustedHeader.get? (.lit "typ") = some (.str name) ∧ policy.allowedTokenTypes &&& bit ≠ 0
  keyId : envelope.untrustedHeader.get? (.lit "kid") = some (.str envelope.keyId)
  keyId_length : 1 ≤ envelope.keyId.length ∧ envelope.keyId.length ≤ 1024
  keyId_printable : ∀ b ∈ envelope.keyId.bytes, iscntrl b = false

theorem decodeBase64url_eq_some {segment data : Bytes} {maximum : Nat}
    (hvalid : base64urlValid segment = true) (hlength : segment.length ≤ sizeMax) :
    decodeBase64url segment maximum = some data ↔
      decodedLength segment.length ≤ maximum ∧ base64urlBlocks segment = data := by
  have hfits : decodedLength segment.length ≤ sizeMax := by
    rw [decodedLength]
    omega
  by_cases hle : decodedLength segment.length ≤ maximum <;>
    simp [decodeBase64url, base64urlDecode, base64urlDecodedSize_exact, hvalid, hfits, hle]

theorem decodeJsonObject_eq_ok {ext : Externals} {segment : Bytes} {maximum : Nat}
    (sizeError jsonError : JwtEnvelopeError) {object : Json} (hvalid : base64urlValid segment = true)
    (hlength : segment.length ≤ sizeMax) :
    decodeJsonObject ext segment maximum sizeError jsonError = .ok object ↔
      (base64urlBlocks segment).length ≤ maximum ∧
        ext.jsonLoadb (base64urlBlocks segment) = some object ∧ object.isObject = true := by
  simp only [decodeJsonObject, except_bind_eq_ok, given_eq_ok, require_eq_ok, except_pure_eq_ok,
    decodeBase64url_eq_some hvalid hlength, length_blocks]
  constructor
  · rintro ⟨_, ⟨hle, rfl⟩, _, hload, _, hobject, rfl⟩
    exact ⟨hle, hload, hobject⟩
  · rintro ⟨hle, hload, hobject⟩
    exact ⟨_, ⟨hle, rfl⟩, object, hload, (), hobject, rfl⟩

theorem tokenTypeAllowed_iff {header : Json} {policy : JwtEnvelopePolicy} :
    tokenTypeAllowed header policy = true ↔
      (header.get? (.lit "typ") = none ∧ policy.allowMissingTokenType = true) ∨
        ∃ name bit, (name, bit) ∈ tokenTypeTable ∧ header.get? (.lit "typ") = some (.str name) ∧
          policy.allowedTokenTypes &&& bit ≠ 0 := by
  unfold tokenTypeAllowed
  cases header.get? (.lit "typ") with
  | none => simp
  | some value =>
    simp [jsonStringEquals_eq_true, tokenTypeTable, or_and_right, exists_or, and_assoc]

theorem hasUnsupportedHeader_eq_false {header : Json} :
    hasUnsupportedHeader header = false ↔ ∀ name ∈ forbiddenHeaders, header.get? name = none := by
  simp [hasUnsupportedHeader]

theorem ne_nil_of_valid {text : Bytes} (h : base64urlValid text = true) : text ≠ [] := by
  rintro rfl
  simp [base64urlValid] at h

theorem segments_length_le {token header payload signature : Bytes}
    (h : splitCompactJws token = some (header, payload, signature)) :
    header.length ≤ token.length ∧ payload.length ≤ token.length ∧ signature.length ≤ token.length := by
  rw [splitCompactJws_eq h]
  simp only [List.length_append, List.length_cons]
  omega

theorem jwtEnvelopeParse_eq_ok {ext : Externals} {token : Bytes} {policy : JwtEnvelopePolicy}
    {envelope : JwtEnvelope} (hpolicy : jwtEnvelopePolicyValid policy = true)
    (hsize : policy.maxTokenSize ≤ sizeMax) :
    jwtEnvelopeParse ext token policy = .ok envelope ↔ EnvelopeGrammar ext policy token envelope := by
  simp only [jwtEnvelopeParse, except_bind_eq_ok, given_eq_ok, require_eq_ok, except_pure_eq_ok,
    Bool.and_eq_true, bne_iff_ne, List.all_cons, List.all_nil, and_true, hpolicy, Bool.not_eq_true',
    decide_eq_true_eq, hasUnsupportedHeader_eq_false, tokenTypeAllowed_iff, validKeyIdText_iff]
  constructor
  · rintro ⟨_, -, _, hne, _, hle, _, hnul, ⟨headerText, payloadText, signatureText⟩, hsplit, _, ⟨hh, hp, hs⟩,
      header, hheader, payload, hpayload, _, hsupported, _, ⟨halg, hallowed⟩, _, htype, keyId, hkid, _,
      ⟨hlength, hprintable⟩, rfl⟩
    obtain ⟨hheaderLe, hpayloadLe, _⟩ := segments_length_le hsplit
    obtain ⟨hheaderSize, hheaderLoad, hheaderObject⟩ :=
      (decodeJsonObject_eq_ok _ _ hh (hheaderLe.trans (hle.trans hsize))).mp hheader
    obtain ⟨hpayloadSize, hpayloadLoad, hpayloadObject⟩ :=
      (decodeJsonObject_eq_ok _ _ hp (hpayloadLe.trans (hle.trans hsize))).mp hpayload
    obtain ⟨name, hname, hvalue⟩ := (algorithmNamed_eq halg).mp rfl
    exact {
      nonempty := List.length_pos_iff.mpr (by simpa using hne)
      length_le := hle
      nul_free := by simpa using hnul
      segments := ⟨headerText, payloadText, signatureText, _, _, _, (splitCompactJws_eq_some.mp hsplit).1,
        canonical_of_valid hh, canonical_of_valid hp, canonical_of_valid hs, hheaderSize, hpayloadSize,
        hheaderLoad, hpayloadLoad⟩
      header := hheaderObject
      payload := hpayloadObject
      supported := hsupported
      algorithm := ⟨name, hname, hvalue, hallowed⟩
      tokenType := htype
      keyId := Json.str?_eq_some hkid
      keyId_length := hlength
      keyId_printable := hprintable }
  · intro h
    obtain ⟨headerText, payloadText, signatureText, header, payload, signature, hsplit, hh, hp, hs, hheaderSize,
      hpayloadSize, hheaderLoad, hpayloadLoad⟩ := h.segments
    obtain ⟨name, hname, hvalue, hallowed⟩ := h.algorithm
    have hhv := base64urlValid_iff.mpr ⟨_, hh⟩
    have hpv := base64urlValid_iff.mpr ⟨_, hp⟩
    have hsv := base64urlValid_iff.mpr ⟨_, hs⟩
    have hcompact := splitCompactJws_eq_some.mpr
      ⟨hsplit, ne_nil_of_valid hhv, ne_nil_of_valid hpv, ne_nil_of_valid hsv⟩
    obtain ⟨hheaderLe, hpayloadLe, _⟩ := segments_length_le hcompact
    have hle := h.length_le.trans hsize
    have hheader := (decodeJsonObject_eq_ok .headerTooLarge .invalidHeaderJson hhv
      (hheaderLe.trans hle)).mpr ⟨hh.blocks_eq ▸ hheaderSize, hh.blocks_eq ▸ hheaderLoad, h.header⟩
    have hpayload := (decodeJsonObject_eq_ok .payloadTooLarge .invalidPayloadJson hpv
      (hpayloadLe.trans hle)).mpr ⟨hp.blocks_eq ▸ hpayloadSize, hp.blocks_eq ▸ hpayloadLoad, h.payload⟩
    have hbit : envelope.algorithm ≠ 0 := fun hzero => hallowed (by simp [hzero])
    have halg : parseAlgorithm envelope.untrustedHeader = envelope.algorithm :=
      (algorithmNamed_eq hbit).mpr ⟨name, hname, hvalue⟩
    have hne : token.isEmpty = false :=
      List.isEmpty_eq_false_iff.mpr (List.length_pos_iff.mp h.nonempty)
    refine ⟨(), trivial, (), hne, (), h.length_le, (), by simpa using h.nul_free, _, hcompact, (),
      ⟨hhv, hpv, hsv⟩, _, hheader, _, hpayload, (), h.supported, (), ?_, (), h.tokenType, _, ?_, (),
      ⟨h.keyId_length, h.keyId_printable⟩, ?_⟩
    · rw [halg]
      exact ⟨hbit, hallowed⟩
    · rw [h.keyId]
      rfl
    · rw [halg]

/-! One token for the bytes it carries. -/

/-- The bytes that the segments of a token decode to. -/
def Carries (token header payload signature : Bytes) : Prop :=
  ∃ headerText payloadText signatureText,
    splitCompactJws token = some (headerText, payloadText, signatureText) ∧
      decodeBase64url headerText sizeMax = some header ∧
      decodeBase64url payloadText sizeMax = some payload ∧
      decodeBase64url signatureText sizeMax = some signature

theorem decodeBase64url_canonical {segment data : Bytes} {maximum : Nat}
    (h : decodeBase64url segment maximum = some data) : CanonicalBase64url segment data := by
  unfold decodeBase64url base64urlDecode at h
  split at h
  · simp at h
  · split at h
    · next hvalid =>
      rw [← Option.some.inj h]
      exact canonical_of_valid (Bool.and_eq_true_iff.mp hvalid).1
    · simp at h

theorem Carries.unique {token token' header payload signature : Bytes}
    (h : Carries token header payload signature) (h' : Carries token' header payload signature) :
    token = token' := by
  obtain ⟨ht, pt, st, hsplit, hh, hp, hs⟩ := h
  obtain ⟨ht', pt', st', hsplit', hh', hp', hs'⟩ := h'
  have hencoded {text text' data : Bytes} (h : decodeBase64url text sizeMax = some data)
      (h' : decodeBase64url text' sizeMax = some data) : text = text' :=
    (decodeBase64url_canonical h).encoded.trans (decodeBase64url_canonical h').encoded.symm
  rw [splitCompactJws_eq hsplit, splitCompactJws_eq hsplit', hencoded hh hh', hencoded hp hp',
    hencoded hs hs']

/-! The whole parse. -/

theorem decodeJsonObject_ne_error {ext : Externals} {segment : Bytes} {maximum : Nat}
    {sizeError jsonError error : JwtEnvelopeError} (hsize : sizeError ≠ error) (hjson : jsonError ≠ error) :
    decodeJsonObject ext segment maximum sizeError jsonError ≠ .error error :=
  bind_ne_error (given_ne_error hsize) fun _ => bind_ne_error (given_ne_error hjson) fun _ =>
    bind_ne_error (require_ne_error hjson) fun _ => by simp [pure, Except.pure]

/-- No failure has the code of success, and only a policy that is not valid makes an
argument error. -/
theorem jwtEnvelopeParse_ne_error (ext : Externals) (token : Bytes) {policy : JwtEnvelopePolicy}
    {error : JwtEnvelopeError}
    (herror : error = .ok ∨ error = .invalidArgument ∧ jwtEnvelopePolicyValid policy = true) :
    jwtEnvelopeParse ext token policy ≠ .error error := by
  have hpolicy : require (jwtEnvelopePolicyValid policy) JwtEnvelopeError.invalidArgument ≠
      .error error := by
    rcases herror with rfl | ⟨-, hvalid⟩
    · exact require_ne_error (by decide)
    · simp [hvalid, require]
  have hother {e : JwtEnvelopeError} (he : e ≠ .ok ∧ e ≠ .invalidArgument) : e ≠ error := by
    rcases herror with rfl | ⟨rfl, -⟩
    · exact he.1
    · exact he.2
  refine bind_ne_error hpolicy fun _ => ?_
  refine bind_ne_error (require_ne_error (hother (by decide))) fun _ => ?_
  refine bind_ne_error (require_ne_error (hother (by decide))) fun _ => ?_
  refine bind_ne_error (require_ne_error (hother (by decide))) fun _ => ?_
  refine bind_ne_error (given_ne_error (hother (by decide))) fun _ => ?_
  refine bind_ne_error (require_ne_error (hother (by decide))) fun _ => ?_
  refine bind_ne_error (decodeJsonObject_ne_error (hother (by decide)) (hother (by decide))) fun _ => ?_
  refine bind_ne_error (decodeJsonObject_ne_error (hother (by decide)) (hother (by decide))) fun _ => ?_
  refine bind_ne_error (require_ne_error (hother (by decide))) fun _ => ?_
  refine bind_ne_error (require_ne_error (hother (by decide))) fun _ => ?_
  refine bind_ne_error (require_ne_error (hother (by decide))) fun _ => ?_
  refine bind_ne_error (given_ne_error (hother (by decide))) fun _ => ?_
  refine bind_ne_error (require_ne_error (hother (by decide))) fun _ => ?_
  simp [pure, Except.pure]

/-- An accepted token decodes in every segment. -/
theorem EnvelopeGrammar.carries {ext : Externals} {policy : JwtEnvelopePolicy} {token : Bytes}
    {envelope : JwtEnvelope} (h : EnvelopeGrammar ext policy token envelope)
    (hsize : policy.maxTokenSize ≤ sizeMax) :
    ∃ header payload signature, Carries token header payload signature := by
  obtain ⟨headerText, payloadText, signatureText, _, _, _, hsplit, hh, hp, hs, _⟩ := h.segments
  have hhv := base64urlValid_iff.mpr ⟨_, hh⟩
  have hpv := base64urlValid_iff.mpr ⟨_, hp⟩
  have hsv := base64urlValid_iff.mpr ⟨_, hs⟩
  have hcompact := splitCompactJws_eq_some.mpr
    ⟨hsplit, ne_nil_of_valid hhv, ne_nil_of_valid hpv, ne_nil_of_valid hsv⟩
  have hdecode {text : Bytes} (hvalid : base64urlValid text = true) (hle : text.length ≤ token.length) :
      decodeBase64url text sizeMax = some (base64urlBlocks text) := by
    have hlength : text.length ≤ sizeMax := hle.trans (h.length_le.trans hsize)
    refine (decodeBase64url_eq_some hvalid hlength).mpr ⟨?_, rfl⟩
    rw [decodedLength]
    omega
  obtain ⟨hheader, hpayload, hsignature⟩ := segments_length_le hcompact
  exact ⟨_, _, _, _, _, _, hcompact, hdecode hhv hheader, hdecode hpv hpayload, hdecode hsv hsignature⟩

/-- The parser accepts exactly the grammar and fills the record with what it reads. An
accepted token carries bytes that no other one carries, and a rejected token leaves
the record empty. -/
theorem envelope_exact (ext : Externals) {policy : JwtEnvelopePolicy}
    (hpolicy : jwtEnvelopePolicyValid policy = true) (hsize : policy.maxTokenSize ≤ sizeMax)
    (record : EnvelopeRecord) :
    (∀ token, (jwtEnvelopeParseInto ext (some token) (some policy) record).1 = .ok ↔
      ∃ envelope, EnvelopeGrammar ext policy token envelope ∧
        (jwtEnvelopeParseInto ext (some token) (some policy) record).2 = envelope.record) ∧
    (∀ token, (jwtEnvelopeParseInto ext (some token) (some policy) record).1 = .ok →
      ∃ header payload signature, Carries token header payload signature ∧
        ∀ token', (jwtEnvelopeParseInto ext (some token') (some policy) record).1 = .ok →
          Carries token' header payload signature → token' = token) ∧
    ∀ token, (jwtEnvelopeParseInto ext token (some policy) record).1 ≠ .ok →
      (jwtEnvelopeParseInto ext token (some policy) record).2 = .zero := by
  have hiff (token : Bytes) : (jwtEnvelopeParseInto ext (some token) (some policy) record).1 = .ok ↔
      ∃ envelope, EnvelopeGrammar ext policy token envelope ∧
        (jwtEnvelopeParseInto ext (some token) (some policy) record).2 = envelope.record := by
    rw [jwtEnvelopeParseInto_eq, parseOutcome, outcome_success (jwtEnvelopeParse_ne_error ext token (Or.inl rfl))]
    simp only [jwtEnvelopeParse_eq_ok hpolicy hsize]
  refine ⟨hiff, fun token hok => ?_, fun token hcode => ?_⟩
  · obtain ⟨envelope, hgrammar, _⟩ := (hiff token).mp hok
    obtain ⟨header, payload, signature, hcarries⟩ := hgrammar.carries hsize
    exact ⟨header, payload, signature, hcarries, fun token' _ hother => hother.unique hcarries⟩
  · cases token with
    | none => rfl
    | some token =>
      rw [jwtEnvelopeParseInto_eq] at hcode ⊢
      exact outcome_failed hcode

namespace Sample

def envelopePolicy : JwtEnvelopePolicy where
  maxTokenSize := 8192
  maxHeaderSize := 4096
  maxPayloadSize := 8192
  allowedAlgorithms := algorithmEs256
  allowedTokenTypes := tokenTypeAtJwt
  allowMissingTokenType := false

def envelopeHeader : Bytes :=
  ascii "\x7b\"alg\":\"ES256\",\"typ\":\"at+jwt\",\"kid\":\"a\"\x7d"

def envelopePayload : Bytes :=
  ascii "\x7b\"sub\":\"u\"\x7d"

/-- A token signed with the private key of `ecKey`. -/
def envelopeToken : Bytes :=
  ascii "eyJhbGciOiJFUzI1NiIsInR5cCI6ImF0K2p3dCIsImtpZCI6ImEifQ." ++ ascii "eyJzdWIiOiJ1In0." ++
    ascii "7IuJPD00FHZx6eBWwdXtQ_B24hlfK9iRFoW6pv8Pb5TbU5GBdre2MHciBwNpT1Vgso-ChxPFL1pFrAPlMpTxHA"

/-- What the libraries answer on the parts of this token. -/
def envelopeExternals : Externals :=
  { selectionExternals with
    jsonLoadb := fun text =>
      if text == envelopeHeader then
        some (.obj [(.lit "alg", .str (.lit "ES256")), (.lit "typ", .str (.lit "at+jwt")),
          (.lit "kid", .str (.lit "a"))])
      else if text == envelopePayload then some (.obj [(.lit "sub", .str (.lit "u"))])
      else selectionExternals.jsonLoadb text }

end Sample

theorem envelope_exact_short : ∃ envelope,
    EnvelopeGrammar Sample.envelopeExternals Sample.envelopePolicy Sample.envelopeToken envelope ∧
      (jwtEnvelopeParseInto Sample.envelopeExternals (some Sample.envelopeToken) (some Sample.envelopePolicy)
        .zero).2 = envelope.record :=
  ((envelope_exact Sample.envelopeExternals (by decide) (by decide) .zero).1 Sample.envelopeToken).mp
    (by decide +kernel)

end OAuthValidator
