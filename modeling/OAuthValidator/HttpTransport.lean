import OAuthValidator.Externals

/-! The HTTP transport: which URLs may be requested, how the bytes of a
response are collected, and what a finished transfer is turned into. The
network itself is a `Transfer`, an arbitrary record of what libcurl delivered. -/

namespace OAuthValidator

inductive HttpError
  | ok | invalidArgument | invalidUrl | insecureUrl | hostNotAllowed | timeout | interrupted
  | tlsFailure | responseTooLarge | status | contentType | networkFailure | outOfMemory
deriving DecidableEq, Repr

structure HttpPolicy where
  maxUrlSize : Nat
  maxResponseSize : Nat
  connectTimeoutMs : Int
  totalTimeoutMs : Int
  allowedHost : Option CString
  additionalAllowedHosts : Option CString
  caFile : Option CString
  allowInsecureHttp : Bool
  /-- `cancel_requested` is set. -/
  cancellable : Bool
deriving DecidableEq

/-- A response whose body is not NULL, as every successful request returns. -/
structure HttpResponse where
  body : Bytes
  status : Int
  cacheControl : Option CString
  date : Option CString
  expires : Option CString
  age : Option CString
deriving DecidableEq

def validUrlOctets (value : Bytes) : Bool :=
  value.all fun b => !(b ≤ 0x20 || 0x7f ≤ b || b == 0x5c)

/-- `length > strlen(scheme) && memcmp(value, scheme, strlen(scheme)) == 0`. -/
def hasScheme (value scheme : Bytes) : Bool :=
  scheme.length < value.length && value.take scheme.length == scheme

def httpsScheme : Bytes := ascii "https://"
def httpScheme : Bytes := ascii "http://"

/-- The part of a URL that `strcspn(value + scheme_length, "/?#")` spans. -/
def urlAuthority (value : Bytes) (schemeLength : Nat) : Bytes :=
  (value.drop schemeLength).takeWhile fun b => !(b == 0x2f || b == 0x3f || b == 0x23)

/-- The host of a URL that libcurl reads without credentials or fragment. -/
def curlHost (ext : Externals) (value : CString) : Option CString :=
  match ext.curlUrlSet value with
  | none => none
  | some url =>
    match url.host with
    | none => none
    | some host =>
      if host.isEmpty || url.hasUser || url.hasPassword || url.hasFragment then none else some host

def parseUrl (ext : Externals) (value : CString) (maxUrlSize : Nat) (allowInsecureHttp : Bool) :
    Except HttpError CString :=
  let text := value.bytes
  if text.isEmpty || maxUrlSize < text.length then .error .invalidUrl
  else if !validUrlOctets text then .error .invalidUrl
  else
    let https := hasScheme text httpsScheme
    if !https && !hasScheme text httpScheme then .error .invalidUrl
    else if !https && !allowInsecureHttp then .error .insecureUrl
    else
      let authority := urlAuthority text (if https then httpsScheme else httpScheme).length
      if authority.isEmpty || text.contains 0x23 || authority.contains 0x40 then .error .invalidUrl
      else
        match curlHost ext value with
        | none => .error .invalidUrl
        | some host => .ok host

def hostInList (host : CString) (list : Option CString) : Bool :=
  match list with
  | none => false
  | some list =>
    let visit (_ : Unit) (entry : Bytes) : Except Bool Unit :=
      let entry := trimBy isblank entry
      if entry.length == host.length && equalsIgnoreCase entry host.bytes then .error true
      else .ok ()
    match scanList visit none () list.bytes with
    | .error found => found
    | .ok () => false

def httpUrlHost (ext : Externals) (url : CString) (maxUrlSize : Nat) (allowInsecureHttp : Bool) :
    Except HttpError CString :=
  parseUrl ext url maxUrlSize allowInsecureHttp

/-- The host is the policy's own host or one of its additional hosts. -/
def hostAllowed (host allowedHost : CString) (additional : Option CString) : Bool :=
  equalsIgnoreCase host.bytes allowedHost.bytes || hostInList host additional

def validateRequestUrl (ext : Externals) (value : CString) (policy : HttpPolicy)
    (allowedHost : CString) : Except HttpError CString :=
  match parseUrl ext value policy.maxUrlSize policy.allowInsecureHttp with
  | .error e => .error e
  | .ok host =>
    if hostAllowed host allowedHost policy.additionalAllowedHosts then .ok host
    else .error .hostNotAllowed

/-- The checks of `pg_oauth_http_get_json` that precede any network access. -/
def requestError (ext : Externals) (url : CString) (policy : HttpPolicy) : Option HttpError :=
  match policy.allowedHost with
  | none => some .invalidArgument
  | some allowedHost =>
    if policy.maxUrlSize == 0 || policy.maxResponseSize == 0 || allowedHost.isEmpty ||
        policy.connectTimeoutMs ≤ 0 || policy.totalTimeoutMs ≤ 0 ||
        policy.totalTimeoutMs < policy.connectTimeoutMs then some .invalidArgument
    else
      match validateRequestUrl ext url policy allowedHost with
      | .error e => some e
      | .ok _ => none

structure ResponseBuffer where
  data : Bytes
  maximum : Nat
  tooLarge : Bool
deriving DecidableEq

/-- The write callback; false is the short count that stops the transfer. -/
def appendResponse (buffer : ResponseBuffer) (contents : Bytes) : Bool × ResponseBuffer :=
  if buffer.maximum - buffer.data.length < contents.length then
    (false, { buffer with tooLarge := true })
  else (true, { buffer with data := buffer.data ++ contents })

def maxFreshnessHeaderSize : Nat := 4096

/-- The C string that a buffer holds once it is terminated. -/
def CString.ofBuffer (bytes : Bytes) : CString :=
  ⟨bytes.takeWhile (· != 0), fun h => by simpa using List.mem_takeWhile_imp h⟩

theorem CString.bytes_ofBuffer {bytes : Bytes} (h : 0 ∉ bytes) : (CString.ofBuffer bytes).bytes = bytes :=
  List.takeWhile_eq_self_iff.mpr fun _ hb => bne_iff_ne.mpr fun hzero => h (hzero ▸ hb)

def appendHeaderValue (target : Option CString) (value : Bytes) : Option CString :=
  let current := (target.map CString.bytes).getD []
  let separator := if 0 < current.length then [comma] else []
  if sizeSub (sizeSub maxFreshnessHeaderSize current.length) separator.length < value.length then none
  else some (CString.ofBuffer (current ++ separator ++ value))

inductive FreshnessHeader
  | cacheControl | date | expires | age
deriving DecidableEq, Repr

structure HeaderBuffer where
  cacheControl : Option CString
  date : Option CString
  expires : Option CString
  age : Option CString
  tooLarge : Bool
  outOfMemory : Bool
deriving DecidableEq

def HeaderBuffer.empty : HeaderBuffer :=
  ⟨none, none, none, none, false, false⟩

def HeaderBuffer.get (headers : HeaderBuffer) : FreshnessHeader → Option CString
  | .cacheControl => headers.cacheControl
  | .date => headers.date
  | .expires => headers.expires
  | .age => headers.age

def HttpResponse.header (response : HttpResponse) : FreshnessHeader → Option CString
  | .cacheControl => response.cacheControl
  | .date => response.date
  | .expires => response.expires
  | .age => response.age

def HeaderBuffer.set (headers : HeaderBuffer) (value : Option CString) :
    FreshnessHeader → HeaderBuffer
  | .cacheControl => { headers with cacheControl := value }
  | .date => { headers with date := value }
  | .expires => { headers with expires := value }
  | .age => { headers with age := value }

def headerTarget (name : Bytes) : Option FreshnessHeader :=
  if equalsIgnoreCase name (ascii "Cache-Control") then some .cacheControl
  else if equalsIgnoreCase name (ascii "Date") then some .date
  else if equalsIgnoreCase name (ascii "Expires") then some .expires
  else if equalsIgnoreCase name (ascii "Age") then some .age
  else none

/-- The header callback on one line; false stops the transfer. -/
def captureHeader (headers : HeaderBuffer) (contents : Bytes) : Bool × HeaderBuffer :=
  if !contents.contains 0x3a then (true, headers)
  else
    match headerTarget (contents.takeWhile (· != 0x3a)) with
    | none => (true, headers)
    | some target =>
      let value := (contents.dropWhile (· != 0x3a)).drop 1
      let value := (value.dropWhile isblank).rdropWhile fun b => b == 0x0d || b == 0x0a || isblank b
      match appendHeaderValue (headers.get target) value with
      | some text => (true, headers.set (some text) target)
      | none =>
        if (headers.get target).isSome || maxFreshnessHeaderSize < value.length then
          (false, { headers with tooLarge := true })
        else (false, { headers with outOfMemory := true })

def jsonContentType (contentType : Option CString) : Bool :=
  match contentType with
  | none => false
  | some text =>
    let kind := ((text.bytes.dropWhile isblank).takeWhile (· != 0x3b)).rdropWhile isblank
    equalsIgnoreCase kind (ascii "application/json") ||
      equalsIgnoreCase kind (ascii "application/jwk-set+json")

inductive CurlResult
  | ok | filesizeExceeded | operationTimedout | tls | other
deriving DecidableEq, Repr

/-- What libcurl delivered for one request. -/
structure Transfer where
  /-- A failure to set the handle up, or a cancelled wait. -/
  aborted : Option HttpError
  headerLines : List Bytes
  chunks : List Bytes
  result : CurlResult
  status : Option Int
  contentType : Option CString

/-- Feeding a callback until it refuses; the flag says whether it did. -/
def feed {σ : Type} (callback : σ → Bytes → Bool × σ) : σ → List Bytes → Bool × σ
  | s, [] => (true, s)
  | s, piece :: rest =>
    match callback s piece with
    | (true, s') => feed callback s' rest
    | (false, s') => (false, s')

/-- `pg_oauth_http_get_json` from `curl_easy_init` on. -/
def finishTransfer (policy : HttpPolicy) (transfer : Transfer) : Except HttpError HttpResponse :=
  match transfer.aborted with
  | some e => .error (if e == .ok then .networkFailure else e)
  | none =>
    let (headersTaken, headers) := feed captureHeader HeaderBuffer.empty transfer.headerLines
    let (bodyTaken, buffer) := feed appendResponse ⟨[], policy.maxResponseSize, false⟩ transfer.chunks
    if !headersTaken || !bodyTaken || transfer.result != .ok then
      .error (if buffer.tooLarge || headers.tooLarge || transfer.result == .filesizeExceeded then
          .responseTooLarge
        else if headers.outOfMemory then .outOfMemory
        else if transfer.result == .operationTimedout then .timeout
        else if transfer.result == .tls then .tlsFailure
        else .networkFailure)
    else
      match transfer.status with
      | none => .error .status
      | some status =>
        if status < 200 || 300 ≤ status then .error .status
        else if !jsonContentType transfer.contentType then .error .contentType
        else .ok ⟨buffer.data, status, headers.cacheControl, headers.date, headers.expires, headers.age⟩

theorem appendResponse_length {buffer : ResponseBuffer} (contents : Bytes)
    (h : buffer.data.length ≤ buffer.maximum) :
    (appendResponse buffer contents).2.maximum = buffer.maximum ∧
      (appendResponse buffer contents).2.data.length ≤ buffer.maximum := by
  unfold appendResponse
  split
  · exact ⟨rfl, h⟩
  · next hle =>
    refine ⟨rfl, ?_⟩
    simp only [List.length_append]
    omega

theorem feed_appendResponse_length {buffer : ResponseBuffer} (chunks : List Bytes)
    (h : buffer.data.length ≤ buffer.maximum) :
    (feed appendResponse buffer chunks).2.data.length ≤ buffer.maximum := by
  induction chunks generalizing buffer with
  | nil => exact h
  | cons piece rest ih =>
    obtain ⟨hmax, hlen⟩ := appendResponse_length piece h
    unfold feed
    split
    · next s' hs =>
      rw [hs] at hmax hlen
      have hrest := ih (hmax ▸ hlen)
      rwa [hmax] at hrest
    · next s' hs =>
      rw [hs] at hlen
      exact hlen

/-- An accepted response is what the two callbacks have collected, every piece of it. -/
theorem finishTransfer_ok {policy : HttpPolicy} {transfer : Transfer} {response : HttpResponse}
    (h : finishTransfer policy transfer = .ok response) :
    ∃ headers buffer status, feed captureHeader .empty transfer.headerLines = (true, headers) ∧
      feed appendResponse ⟨[], policy.maxResponseSize, false⟩ transfer.chunks = (true, buffer) ∧
      response = ⟨buffer.data, status, headers.cacheControl, headers.date, headers.expires, headers.age⟩ := by
  unfold finishTransfer at h
  split at h
  · simp at h
  · simp only at h
    split at h
    · simp at h
    · next hgood =>
      simp only [Bool.or_eq_true, not_or, Bool.not_eq_eq_eq_not, Bool.not_true, Bool.not_eq_false] at hgood
      split at h
      · simp at h
      · next status _ =>
        split at h
        · simp at h
        · split at h
          · simp at h
          · exact ⟨_, _, status, Prod.ext hgood.1.1 rfl, Prod.ext hgood.1.2 rfl, (Except.ok.inj h).symm⟩

/-- A response that is accepted is within the size limit. -/
theorem finishTransfer_length {policy : HttpPolicy} {transfer : Transfer} {response : HttpResponse}
    (h : finishTransfer policy transfer = .ok response) :
    response.body.length ≤ policy.maxResponseSize := by
  obtain ⟨headers, buffer, status, _, hbody, rfl⟩ := finishTransfer_ok h
  have hlength : (feed appendResponse ⟨[], policy.maxResponseSize, false⟩ transfer.chunks).2.data.length ≤
      policy.maxResponseSize := feed_appendResponse_length transfer.chunks (Nat.zero_le _)
  rw [hbody] at hlength
  exact hlength

end OAuthValidator
