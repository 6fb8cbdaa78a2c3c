import OAuthValidator.Externals

/-! The bounded freshness lifetime of a response, computed from its caching
headers and the local limits. -/

namespace OAuthValidator

structure CacheControlValues where
  maxAgeSeconds : Int
  hasMaxAge : Bool
  noStore : Bool
  noCache : Bool
  mustRevalidate : Bool
deriving DecidableEq, Repr

/-- One digit of `decimal`, refused when the value would pass INT64_MAX. -/
def decimalDigit (parsed : Int) (b : UInt8) : Option Int :=
  if b < 0x30 || 0x39 < b then none
  else
    let digit : Int := b.toNat - 0x30
    if (int64Max - digit) / 10 < parsed then none else some (parsed * 10 + digit)

def decimal (text : Bytes) : Option Int :=
  if text.isEmpty then none else text.foldlM decimalDigit 0

/-- The argument of max-age, without the optional quotes. -/
def unquote (text : Bytes) : Bytes :=
  if 2 ≤ text.length && text.head? == some 0x22 && text.getLast? == some 0x22 then
    (text.drop 1).dropLast
  else text

/-- One directive; an error is a malformed header. -/
def cacheControlDirective (parsed : CacheControlValues) (entry : Bytes) :
    Except Unit CacheControlValues :=
  let item := trimBy isblank entry
  if item.isEmpty then .error ()
  else if item.any fun b => b < 0x20 || 0x7f ≤ b then .error ()
  else
    let equals := item.contains 0x3d
    let name := (item.takeWhile (· != 0x3d)).rdropWhile isblank
    if name.isEmpty then .error ()
    else if equalsIgnoreCase name (ascii "no-store") then
      if equals then .error () else .ok { parsed with noStore := true }
    else if equalsIgnoreCase name (ascii "no-cache") then .ok { parsed with noCache := true }
    else if equalsIgnoreCase name (ascii "must-revalidate") then
      if equals then .error () else .ok { parsed with mustRevalidate := true }
    else if equalsIgnoreCase name (ascii "max-age") then
      if parsed.hasMaxAge || !equals then .error ()
      else
        match decimal (unquote (trimBy isblank ((item.dropWhile (· != 0x3d)).drop 1))) with
        | none => .error ()
        | some seconds => .ok { parsed with maxAgeSeconds := seconds, hasMaxAge := true }
    else .ok parsed

def parseCacheControl (value : Option CString) : Option CacheControlValues :=
  match value with
  | none => some ⟨0, false, false, false, false⟩
  | some text =>
    match scanList cacheControlDirective none ⟨0, false, false, false, false⟩ text.bytes with
    | .error () => none
    | .ok parsed => some parsed

def parseAge (value : Option CString) : Option Int :=
  match value with
  | none => some 0
  | some text => if text.isEmpty then some 0 else decimal (trimBy isblank text.bytes)

def secondsToMilliseconds (seconds : Int) : Int :=
  if int64Max / 1000 < seconds then int64Max else seconds * 1000

structure HttpFreshnessPolicy where
  defaultTtlMs : Int
  maximumTtlMs : Int
deriving DecidableEq

structure HttpFreshness where
  ttlMs : Int
  cacheable : Bool
  revalidationRequired : Bool
  explicitFreshness : Bool
deriving DecidableEq

inductive HttpFreshnessError
  | invalidArgument | invalidHeader
deriving DecidableEq, Repr

/-- A header that is present and not empty. -/
def givenHeader (value : Option CString) : Option CString :=
  value.filter fun text => !text.isEmpty

/-- The lifetime the provider states, if any. -/
def explicitLifetime (ext : Externals) (control : CacheControlValues) (date expires : Option CString)
    (responseTimeSeconds : Int) : Except HttpFreshnessError (Option Int) :=
  if control.hasMaxAge then .ok (some control.maxAgeSeconds)
  else
    match givenHeader expires with
    | none => .ok none
    | some expires =>
      let expiresAt := ext.curlGetdate expires
      let dateAt := ((givenHeader date).map ext.curlGetdate).getD responseTimeSeconds
      if expiresAt == -1 || dateAt == -1 then .error .invalidHeader
      else .ok (some (if dateAt < expiresAt then expiresAt - dateAt else 0))

/-- The age of the response: the Age header, or the age its date implies if
that is greater. -/
def apparentAge (ext : Externals) (ageSeconds : Int) (date : Option CString)
    (responseTimeSeconds : Int) : Except HttpFreshnessError Int :=
  match givenHeader date with
  | none => .ok ageSeconds
  | some date =>
    let dateAt := ext.curlGetdate date
    if dateAt == -1 then .error .invalidHeader
    else if dateAt < responseTimeSeconds && ageSeconds < responseTimeSeconds - dateAt then
      .ok (responseTimeSeconds - dateAt)
    else .ok ageSeconds

/-- The ttl before the local bounds: what remains of an explicit lifetime, or
the default. -/
def unboundedTtl (ext : Externals) (lifetime : Option Int) (ageSeconds : Int)
    (date : Option CString) (responseTimeSeconds defaultTtlMs : Int) :
    Except HttpFreshnessError Int :=
  match lifetime with
  | none => .ok defaultTtlMs
  | some seconds =>
    match apparentAge ext ageSeconds date responseTimeSeconds with
    | .error e => .error e
    | .ok age => .ok (if seconds ≤ age then 0 else secondsToMilliseconds (seconds - age))

def httpFreshnessCalculate (ext : Externals) (cacheControl date expires age : Option CString)
    (responseTimeSeconds : Int) (policy : HttpFreshnessPolicy) :
    Except HttpFreshnessError HttpFreshness :=
  if responseTimeSeconds < 0 || policy.defaultTtlMs < 0 || policy.maximumTtlMs < 0 ||
      policy.maximumTtlMs < policy.defaultTtlMs then .error .invalidArgument
  else
    match parseCacheControl cacheControl, parseAge age with
    | some control, some ageSeconds =>
      match explicitLifetime ext control date expires responseTimeSeconds with
      | .error e => .error e
      | .ok lifetime =>
        match unboundedTtl ext lifetime ageSeconds date responseTimeSeconds policy.defaultTtlMs with
        | .error e => .error e
        | .ok ttl =>
          let ttl := if policy.maximumTtlMs < ttl then policy.maximumTtlMs else ttl
          .ok ⟨if control.noCache then 0 else ttl, !control.noStore,
            control.noCache || control.mustRevalidate, lifetime.isSome⟩
    | _, _ => .error .invalidHeader

theorem unboundedTtl_nonneg {ext : Externals} {lifetime : Option Int} {ageSeconds : Int}
    {date : Option CString} {responseTimeSeconds defaultTtlMs ttl : Int} (hd : 0 ≤ defaultTtlMs)
    (h : unboundedTtl ext lifetime ageSeconds date responseTimeSeconds defaultTtlMs = .ok ttl) :
    0 ≤ ttl := by
  unfold unboundedTtl at h
  split at h
  · obtain rfl := Except.ok.inj h
    exact hd
  · split at h
    · simp at h
    · next seconds age _ =>
      obtain rfl := Except.ok.inj h
      unfold secondsToMilliseconds int64Max
      split
      · exact Int.le_refl 0
      · split <;> omega

/-- The calculation succeeds exactly if each of its parts does. -/
theorem httpFreshnessCalculate_eq_ok_iff {ext : Externals} {cacheControl date expires age : Option CString}
    {responseTimeSeconds : Int} {policy : HttpFreshnessPolicy} {f : HttpFreshness} :
    httpFreshnessCalculate ext cacheControl date expires age responseTimeSeconds policy = .ok f ↔
      (0 ≤ responseTimeSeconds ∧ 0 ≤ policy.defaultTtlMs ∧ policy.defaultTtlMs ≤ policy.maximumTtlMs) ∧
      ∃ control ageSeconds lifetime ttl, parseCacheControl cacheControl = some control ∧
        parseAge age = some ageSeconds ∧
        explicitLifetime ext control date expires responseTimeSeconds = .ok lifetime ∧
        unboundedTtl ext lifetime ageSeconds date responseTimeSeconds policy.defaultTtlMs = .ok ttl ∧
        f = ⟨if control.noCache then 0 else min policy.maximumTtlMs ttl, !control.noStore,
          control.noCache || control.mustRevalidate, lifetime.isSome⟩ := by
  have hmin (m n : Int) : (if m < n then m else n) = min m n := by
    split <;> omega
  have hvalid : (responseTimeSeconds < 0 || policy.defaultTtlMs < 0 || policy.maximumTtlMs < 0 ||
      policy.maximumTtlMs < policy.defaultTtlMs) = false ↔
      0 ≤ responseTimeSeconds ∧ 0 ≤ policy.defaultTtlMs ∧ policy.defaultTtlMs ≤ policy.maximumTtlMs := by
    simp only [Bool.or_eq_false_iff, decide_eq_false_iff_not, Int.not_lt]
    omega
  rw [← hvalid, httpFreshnessCalculate]
  cases (responseTimeSeconds < 0 || policy.defaultTtlMs < 0 || policy.maximumTtlMs < 0 ||
    policy.maximumTtlMs < policy.defaultTtlMs : Bool) with
  | true => simp
  | false =>
  cases parseCacheControl cacheControl with
  | none => simp
  | some control =>
  cases parseAge age with
  | none => simp
  | some ageSeconds =>
  cases hlifetime : explicitLifetime ext control date expires responseTimeSeconds with
  | error e => simp [hlifetime]
  | ok lifetime =>
  cases httl : unboundedTtl ext lifetime ageSeconds date responseTimeSeconds policy.defaultTtlMs with
  | error e => simp [hlifetime, httl]
  | ok ttl =>
    simp only [hlifetime, httl, hmin, Bool.false_eq_true, if_false, Except.ok.injEq, true_and]
    constructor
    · rintro rfl
      exact ⟨control, ageSeconds, lifetime, ttl, rfl, rfl, hlifetime, httl, rfl⟩
    · rintro ⟨_, _, _, _, ⟨⟩, ⟨⟩, hlifetime', httl', rfl⟩
      obtain rfl := Except.ok.inj (hlifetime.symm.trans hlifetime')
      rw [Except.ok.inj (httl.symm.trans httl')]

/-- A lifetime is never negative and never above the local maximum. -/
theorem httpFreshnessCalculate_ttl {ext : Externals} {cacheControl date expires age : Option CString}
    {responseTimeSeconds : Int} {policy : HttpFreshnessPolicy} {f : HttpFreshness}
    (h : httpFreshnessCalculate ext cacheControl date expires age responseTimeSeconds policy = .ok f) :
    0 ≤ f.ttlMs ∧ f.ttlMs ≤ policy.maximumTtlMs := by
  obtain ⟨⟨_, hdefault, hmaximum⟩, control, ageSeconds, lifetime, ttl, _, _, _, httl, rfl⟩ :=
    httpFreshnessCalculate_eq_ok_iff.mp h
  have hnonneg := unboundedTtl_nonneg hdefault httl
  simp only
  split <;> omega

end OAuthValidator
