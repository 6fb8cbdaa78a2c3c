import OAuthValidator.Jwks

/-! Signature verification with the one key that was selected. The checker is
fixed to the single algorithm of that key. -/

namespace OAuthValidator

inductive SignatureError
  | ok | invalidArgument | keySerializationFailed | keyImportFailed | verifierFailed | invalid
deriving DecidableEq, Repr

def libjwtAlgorithm (algorithm : UInt32) : JwtAlg :=
  if algorithm == algorithmRs256 then .rs256
  else if algorithm == algorithmEs256 then .es256
  else if algorithm == algorithmEddsa then .eddsa
  else .inval

def signatureVerify (ext : Externals) (token : Bytes) (selectedKey : Option SelectedJwk) :
    Except SignatureError Unit := do
  let key ← given selectedKey .invalidArgument
  let algorithm := libjwtAlgorithm key.algorithm
  require (!token.isEmpty && algorithm != .inval && !token.contains 0 && token.length != sizeMax)
    .invalidArgument
  let jwk ← given (ext.jsonDumps key.jwk) .keySerializationFailed
  require (ext.jwksCreate jwk) .keyImportFailed
  require (ext.jwtChecker algorithm jwk) .verifierFailed
  require (ext.jwtVerify algorithm jwk token) .invalid

/-- libjwt accepted the token under the key, serialized and imported, with the
checker fixed to the algorithm. -/
def SignatureAccepted (ext : Externals) (algorithm : JwtAlg) (key : Json) (token : Bytes) : Prop :=
  ∃ text, ext.jsonDumps key = some text ∧ ext.jwksCreate text = true ∧
    ext.jwtChecker algorithm text = true ∧ ext.jwtVerify algorithm text token = true

theorem signatureVerify_ok {ext : Externals} {token : Bytes} {key : SelectedJwk} {u : Unit}
    (h : signatureVerify ext token (some key) = .ok u) :
    SignatureAccepted ext (libjwtAlgorithm key.algorithm) key.jwk token := by
  simp only [signatureVerify, except_bind_eq_ok, given_eq_ok, require_eq_ok, Option.some.injEq,
    exists_eq_left'] at h
  obtain ⟨_, _, text, htext, _, hcreate, _, hchecker, hverify⟩ := h
  exact ⟨text, htext, hcreate, hchecker, hverify⟩

end OAuthValidator
