import OAuthValidator.HttpTransport

/-! Parsing of the issuer's discovery document. Its issuer must be the expected
one byte for byte, and its `jwks_uri` a URL that the local policy permits. -/

namespace OAuthValidator

inductive MetadataError
  | ok | invalidArgument | empty | tooLarge | invalidJson | invalidIssuer | issuerMismatch
  | invalidJwksUri | insecureUri
deriving DecidableEq, Repr

structure MetadataPolicy where
  maxDocumentSize : Nat
  maxUrlSize : Nat
  allowInsecureHttp : Bool
deriving DecidableEq

def validateUrl (ext : Externals) (value : CString) (maximum : Nat) (allowHttp issuer : Bool) :
    MetadataError :=
  let text := value.bytes
  if text.isEmpty || maximum < text.length || !validUrlOctets text || text.contains 0x23 then
    .invalidJwksUri
  else
    let https := hasScheme text httpsScheme
    if !https && !hasScheme text httpScheme then .invalidJwksUri
    else if !https && !allowHttp then .insecureUri
    else
      let authority := urlAuthority text (if https then httpsScheme else httpScheme).length
      if authority.isEmpty || authority.contains 0x40 then .invalidJwksUri
      else if issuer && text.contains 0x3f then .invalidJwksUri
      else if (curlHost ext value).isNone then .invalidJwksUri
      else .ok

/-- The `jwks_uri` of a document that is accepted for the expected issuer. -/
def metadataParse (ext : Externals) (document : Bytes) (expectedIssuer : CString)
    (policy : MetadataPolicy) : Except MetadataError CString :=
  if policy.maxDocumentSize == 0 || policy.maxUrlSize == 0 then .error .invalidArgument
  else if document.isEmpty then .error .empty
  else if policy.maxDocumentSize < document.length then .error .tooLarge
  else if validateUrl ext expectedIssuer policy.maxUrlSize policy.allowInsecureHttp true != .ok then
    .error .invalidIssuer
  else
    match ext.jsonLoadb document with
    | none => .error .invalidJson
    | some root =>
      if !root.isObject then .error .invalidJson
      else
        match Json.str? (root.get? (.lit "issuer")) with
        | none => .error .invalidIssuer
        | some issuer =>
          if issuer ≠ expectedIssuer then .error .issuerMismatch
          else
            match Json.str? (root.get? (.lit "jwks_uri")) with
            | none => .error .invalidJwksUri
            | some uri =>
              match validateUrl ext uri policy.maxUrlSize policy.allowInsecureHttp false with
              | .ok => .ok uri
              | e => .error e

theorem metadataParse_ne_nil {ext : Externals} {document : Bytes} {expectedIssuer uri : CString}
    {policy : MetadataPolicy} (h : metadataParse ext document expectedIssuer policy = .ok uri) :
    document ≠ [] := by
  rintro rfl
  unfold metadataParse at h
  split at h <;> simp at h

end OAuthValidator
