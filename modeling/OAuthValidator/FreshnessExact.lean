import OAuthValidator.CacheControl

/-! The freshness lifetime as a formula over the headers. The headers are read here as
lists of directives and unbounded numbers, and the arithmetic of the source is repeated
with a result for overflow, which never comes. -/

namespace OAuthValidator

def CacheControlValues.maxAge? (control : CacheControlValues) : Option Int :=
  if control.hasMaxAge then some control.maxAgeSeconds else none

/-- What a list of directives adds to the values before it. -/
structure DirectivesRead (parsed : CacheControlValues) (entries : List Bytes) (control : CacheControlValues) :
    Prop where
  noStore : control.noStore = (parsed.noStore || entries.any (isDirective "no-store"))
  noCache : control.noCache = (parsed.noCache || entries.any (isDirective "no-cache"))
  mustRevalidate : control.mustRevalidate =
    (parsed.mustRevalidate || entries.any (isDirective "must-revalidate"))
  maxAge : control.maxAge?.toList = parsed.maxAge?.toList ++ entries.filterMap maxAgeOf
  maxAge_range : 0 ≤ parsed.maxAgeSeconds ∧ parsed.maxAgeSeconds ≤ int64Max →
    0 ≤ control.maxAgeSeconds ∧ control.maxAgeSeconds ≤ int64Max

theorem DirectivesRead.refl (parsed : CacheControlValues) : DirectivesRead parsed [] parsed where
  noStore := by simp
  noCache := by simp
  mustRevalidate := by simp
  maxAge := by simp
  maxAge_range := id

theorem DirectivesRead.trans {a b c : CacheControlValues} {entries entries' : List Bytes}
    (h : DirectivesRead a entries b) (h' : DirectivesRead b entries' c) :
    DirectivesRead a (entries ++ entries') c where
  noStore := by rw [h'.noStore, h.noStore, List.any_append, Bool.or_assoc]
  noCache := by rw [h'.noCache, h.noCache, List.any_append, Bool.or_assoc]
  mustRevalidate := by rw [h'.mustRevalidate, h.mustRevalidate, List.any_append, Bool.or_assoc]
  maxAge := by rw [h'.maxAge, h.maxAge, List.filterMap_append, List.append_assoc]
  maxAge_range hrange := h'.maxAge_range (h.maxAge_range hrange)

/-- A directive that is none of the four changes nothing, as does a blank entry. -/
theorem DirectivesRead.skip {parsed : CacheControlValues} {entry : Bytes}
    (h : ∀ name ∈ directiveNames, isDirective name entry = false) :
    DirectivesRead parsed [entry] parsed := by
  simp only [directiveNames, List.forall_mem_cons] at h
  obtain ⟨hstore, hcache, hrevalidate, hage, _⟩ := h
  exact {
    noStore := by simp [hstore]
    noCache := by simp [hcache]
    mustRevalidate := by simp [hrevalidate]
    maxAge := by simp [maxAgeOf, hage]
    maxAge_range := id }

theorem cacheControlDirective_read {parsed control : CacheControlValues} {entry : Bytes}
    (h : cacheControlDirective parsed entry = .ok control) : DirectivesRead parsed [entry] control := by
  obtain ⟨hitem, hfirst, rfl⟩ := cacheControlDirective_eq_ok.mp h
  by_cases hage : isDirective "max-age" entry = true
  · obtain ⟨_, seconds, hseconds⟩ := hitem.seconds hage
    obtain ⟨_, hdigits, hvalue, hle⟩ := decimal_eq_some.mp (decimal_unquote.mpr hseconds)
    have hnonneg : 0 ≤ seconds := hvalue ▸ le_foldl_appendDigit hdigits (Int.le_refl 0)
    rw [addItems_singleton, maxAgeOf, if_pos hage, hseconds.value_eq]
    exact {
      noStore := by simp
      noCache := by simp
      mustRevalidate := by simp
      maxAge := by simp [maxAgeOf, hage, hfirst hage, hseconds.value_eq, CacheControlValues.maxAge?]
      maxAge_range := fun _ => ⟨hnonneg, hle⟩ }
  · rw [addItems_singleton, maxAgeOf, if_neg hage]
    exact {
      noStore := by simp
      noCache := by simp
      mustRevalidate := by simp
      maxAge := by simp [maxAgeOf, hage, CacheControlValues.maxAge?]
      maxAge_range := id }

theorem eachEntry_read {parsed control : CacheControlValues} {entries : List Bytes}
    (h : eachEntry cacheControlDirective none parsed entries = .ok control) :
    DirectivesRead parsed entries control := by
  induction entries generalizing parsed with
  | nil =>
    obtain rfl := Except.ok.inj h
    exact .refl parsed
  | cons entry rest ih =>
    rw [eachEntry] at h
    split at h
    · next hlast =>
      obtain rfl := Except.ok.inj h
      simp only [Bool.and_eq_true, List.isEmpty_iff] at hlast
      obtain ⟨rfl, rfl⟩ := hlast
      exact .skip (by decide)
    · split at h
      · simp at h
      · next next hnext => exact (cacheControlDirective_read hnext).trans (ih h)

/-! The formula. -/

def cacheDirectives (cacheControl : Option CString) : List Bytes :=
  match cacheControl with
  | none => []
  | some text => text.bytes.splitOn comma

def hasDirective (cacheControl : Option CString) (name : String) : Bool :=
  (cacheDirectives cacheControl).any (isDirective name)

def statedMaxAge (cacheControl : Option CString) : Option Int :=
  (cacheDirectives cacheControl).findSome? maxAgeOf

/-- The lifetime that the provider states, from max-age or else from Expires. -/
def statedLifetime (ext : Externals) (cacheControl date expires : Option CString)
    (responseTimeSeconds : Int) : Option Int :=
  match statedMaxAge cacheControl with
  | some seconds => some seconds
  | none => (givenHeader expires).map fun expires =>
    max 0 (ext.curlGetdate expires - ((givenHeader date).map ext.curlGetdate).getD responseTimeSeconds)

def ageHeader (age : Option CString) : Int :=
  match givenHeader age with
  | none => 0
  | some text => digitsValue (trimBy isblank text.bytes)

/-- The age of the response, from Age and Date, and never negative. -/
def statedAge (ext : Externals) (date age : Option CString) (responseTimeSeconds : Int) : Int :=
  match givenHeader date with
  | none => max (ageHeader age) 0
  | some date => max (max (ageHeader age) (responseTimeSeconds - ext.curlGetdate date)) 0

/-- What remains of a lifetime, in milliseconds and bounded, or else the default. -/
def remainingTtl (policy : HttpFreshnessPolicy) (lifetime : Option Int) (age : Int) : Int :=
  match lifetime with
  | none => policy.defaultTtlMs
  | some seconds => min policy.maximumTtlMs (1000 * max 0 (seconds - age))

def statedTtl (ext : Externals) (cacheControl date expires age : Option CString)
    (responseTimeSeconds : Int) (policy : HttpFreshnessPolicy) : Int :=
  if hasDirective cacheControl "no-cache" then 0
  else remainingTtl policy (statedLifetime ext cacheControl date expires responseTimeSeconds)
    (statedAge ext date age responseTimeSeconds)

theorem parseCacheControl_read {cacheControl : Option CString} {control : CacheControlValues}
    (h : parseCacheControl cacheControl = some control) :
    DirectivesRead ⟨0, false, false, false, false⟩ (cacheDirectives cacheControl) control := by
  cases cacheControl with
  | none =>
    obtain rfl := Option.some.inj h
    exact .refl _
  | some text =>
    simp only [parseCacheControl, scanList] at h
    split at h
    · simp at h
    · next parsed hscan =>
      obtain rfl := Option.some.inj h
      exact eachEntry_read hscan

theorem DirectivesRead.maxAge_eq {cacheControl : Option CString} {control : CacheControlValues}
    (h : DirectivesRead ⟨0, false, false, false, false⟩ (cacheDirectives cacheControl) control) :
    control.maxAge? = statedMaxAge cacheControl := by
  have hlist : control.maxAge?.toList = (cacheDirectives cacheControl).filterMap maxAgeOf := h.maxAge
  rw [statedMaxAge, ← List.head?_filterMap, ← hlist]
  cases control.maxAge? <;> rfl

theorem parseAge_eq_some {age : Option CString} {seconds : Int} (h : parseAge age = some seconds) :
    ageHeader age = seconds ∧ 0 ≤ seconds ∧ seconds ≤ int64Max := by
  cases age with
  | none =>
    obtain rfl := Option.some.inj h
    exact ⟨rfl, by decide, by decide⟩
  | some text =>
    cases hempty : text.isEmpty with
    | true =>
      obtain rfl : 0 = seconds := by simpa [parseAge, hempty] using h
      have hgiven : givenHeader (some text) = none := by simp [givenHeader, Option.filter, hempty]
      exact ⟨by rw [ageHeader, hgiven], by decide, by decide⟩
    | false =>
      have hdecimal : decimal (trimBy isblank text.bytes) = some seconds := by
        simpa [parseAge, hempty] using h
      obtain ⟨_, hdigits, hvalue, hle⟩ := decimal_eq_some.mp hdecimal
      have hgiven : givenHeader (some text) = some text := by simp [givenHeader, Option.filter, hempty]
      refine ⟨by rw [ageHeader, hgiven, ← hvalue], ?_, hle⟩
      exact hvalue ▸ le_foldl_appendDigit hdigits (Int.le_refl 0)

theorem explicitLifetime_eq_ok {ext : Externals} {cacheControl date expires : Option CString}
    {control : CacheControlValues} {responseTimeSeconds : Int} {lifetime : Option Int}
    (hcontrol : control.maxAge? = statedMaxAge cacheControl)
    (h : explicitLifetime ext control date expires responseTimeSeconds = .ok lifetime) :
    lifetime = statedLifetime ext cacheControl date expires responseTimeSeconds := by
  rw [statedLifetime, ← hcontrol, CacheControlValues.maxAge?]
  unfold explicitLifetime at h
  cases hmax : control.hasMaxAge with
  | true =>
    simp only [hmax, if_true] at h ⊢
    exact (Except.ok.inj h).symm
  | false =>
    simp only [hmax, Bool.false_eq_true, if_false] at h ⊢
    cases hexpires : givenHeader expires with
    | none =>
      simp only [hexpires] at h
      exact (Except.ok.inj h).symm
    | some expires =>
      simp only [hexpires] at h
      split at h
      · simp at h
      · rw [← Except.ok.inj h, Option.map_some]
        congr 1
        split <;> omega

theorem apparentAge_eq_ok {ext : Externals} {date age : Option CString} {ageSeconds responseTimeSeconds : Int}
    {result : Int} (hage : ageHeader age = ageSeconds) (hnonneg : 0 ≤ ageSeconds)
    (h : apparentAge ext ageSeconds date responseTimeSeconds = .ok result) :
    result = statedAge ext date age responseTimeSeconds := by
  subst hage
  unfold apparentAge at h
  unfold statedAge
  cases hdate : givenHeader date with
  | none =>
    simp only [hdate] at h
    obtain rfl := Except.ok.inj h
    exact (Int.max_eq_left hnonneg).symm
  | some date =>
    simp only [hdate] at h ⊢
    split at h
    · simp at h
    split at h
    · next hlate =>
      simp only [Bool.and_eq_true, decide_eq_true_eq] at hlate
      obtain rfl := Except.ok.inj h
      omega
    · next hearly =>
      simp only [Bool.and_eq_true, decide_eq_true_eq, not_and] at hearly
      obtain rfl := Except.ok.inj h
      omega

/-- Saturation is lost in the bound. -/
theorem min_secondsToMilliseconds {seconds maximum : Int} (hmax : maximum ≤ int64Max) :
    min maximum (secondsToMilliseconds seconds) = min maximum (1000 * seconds) := by
  unfold secondsToMilliseconds
  split
  · next hlarge =>
    rw [int64Max] at *
    omega
  · rw [Int.mul_comm]

theorem unboundedTtl_eq_ok {ext : Externals} {lifetime : Option Int} {date age : Option CString}
    {ageSeconds responseTimeSeconds ttl : Int} {policy : HttpFreshnessPolicy}
    (hage : ageHeader age = ageSeconds) (hnonneg : 0 ≤ ageSeconds) (hmax : policy.maximumTtlMs ≤ int64Max)
    (hdefault : policy.defaultTtlMs ≤ policy.maximumTtlMs)
    (h : unboundedTtl ext lifetime ageSeconds date responseTimeSeconds policy.defaultTtlMs = .ok ttl) :
    min policy.maximumTtlMs ttl = remainingTtl policy lifetime (statedAge ext date age responseTimeSeconds) := by
  cases lifetime with
  | none =>
    obtain rfl := Except.ok.inj h
    exact Int.min_eq_right hdefault
  | some seconds =>
    simp only [unboundedTtl] at h
    split at h
    · simp at h
    next result hresult =>
    obtain rfl := apparentAge_eq_ok hage hnonneg hresult
    rw [← Except.ok.inj h, remainingTtl]
    split
    · next hold => rw [Int.max_eq_left (by omega), Int.mul_zero]
    · next hfresh => rw [min_secondsToMilliseconds hmax, Int.max_eq_right (by omega)]

/-! Arithmetic with a result for overflow. -/

/-- A value of 64 bits; `none` is an overflow. -/
def int64? (value : Int) : Option Int :=
  if -int64Max - 1 ≤ value && value ≤ int64Max then some value else none

/-- `decimalDigit`, where the outer `none` is an overflow. -/
def decimalDigitChecked (parsed : Int) (b : UInt8) : Option (Option Int) :=
  if b < 0x30 || 0x39 < b then some none
  else do
    let digit : Int := b.toNat - 0x30
    let room ← int64? (int64Max - digit)
    if room / 10 < parsed then some none
    else
      let tens ← int64? (parsed * 10)
      let next ← int64? (tens + digit)
      some (some next)

def decimalChecked (text : Bytes) : Option (Option Int) :=
  if text.isEmpty then some none else digits 0 text
where
  digits (parsed : Int) : Bytes → Option (Option Int)
    | [] => some (some parsed)
    | b :: rest => do
      match ← decimalDigitChecked parsed b with
      | none => some none
      | some next => digits next rest

def secondsToMillisecondsChecked (seconds : Int) : Option Int :=
  if int64Max / 1000 < seconds then some int64Max else int64? (seconds * 1000)

def explicitLifetimeChecked (ext : Externals) (control : CacheControlValues) (date expires : Option CString)
    (responseTimeSeconds : Int) : Option (Except HttpFreshnessError (Option Int)) :=
  if control.hasMaxAge then some (.ok (some control.maxAgeSeconds))
  else
    match givenHeader expires with
    | none => some (.ok none)
    | some expires =>
      let expiresAt := ext.curlGetdate expires
      let dateAt := ((givenHeader date).map ext.curlGetdate).getD responseTimeSeconds
      if expiresAt == -1 || dateAt == -1 then some (.error .invalidHeader)
      else if dateAt < expiresAt then (int64? (expiresAt - dateAt)).map fun seconds => .ok (some seconds)
      else some (.ok (some 0))

def apparentAgeChecked (ext : Externals) (ageSeconds : Int) (date : Option CString)
    (responseTimeSeconds : Int) : Option (Except HttpFreshnessError Int) :=
  match givenHeader date with
  | none => some (.ok ageSeconds)
  | some date =>
    let dateAt := ext.curlGetdate date
    if dateAt == -1 then some (.error .invalidHeader)
    else if dateAt < responseTimeSeconds then do
      let apparent ← int64? (responseTimeSeconds - dateAt)
      some (.ok (if ageSeconds < apparent then apparent else ageSeconds))
    else some (.ok ageSeconds)

def unboundedTtlChecked (ext : Externals) (lifetime : Option Int) (ageSeconds : Int)
    (date : Option CString) (responseTimeSeconds defaultTtlMs : Int) :
    Option (Except HttpFreshnessError Int) :=
  match lifetime with
  | none => some (.ok defaultTtlMs)
  | some seconds => do
    match ← apparentAgeChecked ext ageSeconds date responseTimeSeconds with
    | .error e => some (.error e)
    | .ok age =>
      if seconds ≤ age then some (.ok 0)
      else
        let remaining ← int64? (seconds - age)
        (secondsToMillisecondsChecked remaining).map .ok

/-- `httpFreshnessCalculate` after the headers are parsed, in which `decimal` is the
only arithmetic. -/
def httpFreshnessCalculateChecked (ext : Externals) (cacheControl date expires age : Option CString)
    (responseTimeSeconds : Int) (policy : HttpFreshnessPolicy) :
    Option (Except HttpFreshnessError HttpFreshness) :=
  if responseTimeSeconds < 0 || policy.defaultTtlMs < 0 || policy.maximumTtlMs < 0 ||
      policy.maximumTtlMs < policy.defaultTtlMs then some (.error .invalidArgument)
  else
    match parseCacheControl cacheControl, parseAge age with
    | some control, some ageSeconds => do
      match ← explicitLifetimeChecked ext control date expires responseTimeSeconds with
      | .error e => some (.error e)
      | .ok lifetime =>
        match ← unboundedTtlChecked ext lifetime ageSeconds date responseTimeSeconds policy.defaultTtlMs with
        | .error e => some (.error e)
        | .ok ttl =>
          let ttl := if policy.maximumTtlMs < ttl then policy.maximumTtlMs else ttl
          some (.ok ⟨if control.noCache then 0 else ttl, !control.noStore,
            control.noCache || control.mustRevalidate, lifetime.isSome⟩)
    | _, _ => some (.error .invalidHeader)

theorem int64?_eq {value : Int} (hlow : -int64Max - 1 ≤ value) (hhigh : value ≤ int64Max) :
    int64? value = some value := by
  simp [int64?, hlow, hhigh]

theorem decimalDigitChecked_eq {parsed : Int} {b : UInt8} (hnonneg : 0 ≤ parsed) :
    decimalDigitChecked parsed b = some (decimalDigit parsed b) := by
  have hdigit : (b < 0x30 || 0x39 < b) = !isdigit b := by
    simp [isdigit, ← UInt8.not_le]
  have hmax : int64Max = 9223372036854775807 := rfl
  rw [decimalDigitChecked, decimalDigit, hdigit]
  cases hb : isdigit b with
  | false => rfl
  | true =>
    obtain ⟨hlow, hhigh⟩ := digit_bounds hb
    simp only [Bool.not_true, Bool.false_eq_true, if_false]
    rw [int64?_eq (by omega) (by omega), Option.bind_eq_bind, Option.bind_some]
    split
    · rfl
    · next hsmall =>
      rw [int64?_eq (by omega) (by omega), Option.bind_some, int64?_eq (by omega) (by omega)]
      rfl

theorem digits_eq {text : Bytes} {parsed : Int} (hnonneg : 0 ≤ parsed) :
    decimalChecked.digits parsed text = some (text.foldlM decimalDigit parsed) := by
  induction text generalizing parsed with
  | nil => rfl
  | cons b rest ih =>
    rw [decimalChecked.digits, decimalDigitChecked_eq hnonneg, List.foldlM_cons]
    cases hnext : decimalDigit parsed b with
    | none => rfl
    | some next =>
      obtain ⟨hb, rfl, _⟩ := decimalDigit_eq_some.mp hnext
      have hdigit := digit_bounds hb
      exact ih (by rw [appendDigit]; omega)

/-- The digit loop does not overflow on any text. -/
theorem decimalChecked_eq (text : Bytes) : decimalChecked text = some (decimal text) := by
  unfold decimalChecked decimal
  split
  · rfl
  · exact digits_eq (Int.le_refl 0)

/-- The dates that curl reads, and its mark of failure. -/
def DatesBounded (ext : Externals) : Prop :=
  ∀ text, ext.curlGetdate text = -1 ∨
    (-2305843009213693952 < ext.curlGetdate text ∧ ext.curlGetdate text < 2305843009213693952)

section
variable {ext : Externals} {responseTimeSeconds : Int}

theorem DatesBounded.range (h : DatesBounded ext) (text : CString) :
    -2305843009213693952 < ext.curlGetdate text ∧ ext.curlGetdate text < 2305843009213693952 := by
  rcases h text with hfailed | hrange
  · rw [hfailed]
    decide
  · exact hrange

theorem DatesBounded.dateAt_gt (hdates : DatesBounded ext) (hlow : 0 ≤ responseTimeSeconds)
    (date : Option CString) :
    -2305843009213693952 < ((givenHeader date).map ext.curlGetdate).getD responseTimeSeconds := by
  cases givenHeader date with
  | none => exact Int.lt_of_lt_of_le (by decide) hlow
  | some date => exact (hdates.range date).1

theorem explicitLifetimeChecked_eq (hdates : DatesBounded ext) (hlow : 0 ≤ responseTimeSeconds)
    {control : CacheControlValues} {date expires : Option CString} :
    explicitLifetimeChecked ext control date expires responseTimeSeconds =
      some (explicitLifetime ext control date expires responseTimeSeconds) := by
  have hmax : int64Max = 9223372036854775807 := rfl
  have hdateAt := hdates.dateAt_gt hlow date
  unfold explicitLifetimeChecked explicitLifetime
  split
  · rfl
  cases givenHeader expires with
  | none => rfl
  | some expires =>
    have hexpires := hdates.range expires
    simp only
    split
    · rfl
    split
    · rw [int64?_eq (by omega) (by omega)]
      rfl
    · rfl

theorem apparentAgeChecked_eq (hdates : DatesBounded ext) (hlow : 0 ≤ responseTimeSeconds)
    (hhigh : responseTimeSeconds < 4611686018427387904) {ageSeconds : Int} {date : Option CString} :
    apparentAgeChecked ext ageSeconds date responseTimeSeconds =
      some (apparentAge ext ageSeconds date responseTimeSeconds) := by
  have hmax : int64Max = 9223372036854775807 := rfl
  unfold apparentAgeChecked apparentAge
  cases givenHeader date with
  | none => rfl
  | some date =>
    have hdate := hdates.range date
    simp only
    split
    · rfl
    by_cases hlate : ext.curlGetdate date < responseTimeSeconds
    · rw [if_pos hlate, int64?_eq (by omega) (by omega), Option.bind_eq_bind, Option.bind_some]
      simp only [hlate, decide_true, Bool.true_and, decide_eq_true_eq]
      split <;> rfl
    · simp [hlate]

theorem secondsToMillisecondsChecked_eq {seconds : Int} (hnonneg : 0 ≤ seconds) :
    secondsToMillisecondsChecked seconds = some (secondsToMilliseconds seconds) := by
  have hmax : int64Max = 9223372036854775807 := rfl
  unfold secondsToMillisecondsChecked secondsToMilliseconds
  split
  · rfl
  · rw [int64?_eq (by omega) (by omega)]

theorem apparentAge_nonneg {ageSeconds result : Int} {date : Option CString} (hnonneg : 0 ≤ ageSeconds)
    (h : apparentAge ext ageSeconds date responseTimeSeconds = .ok result) : 0 ≤ result := by
  unfold apparentAge at h
  split at h
  · exact Except.ok.inj h ▸ hnonneg
  simp only at h
  split at h
  · simp at h
  split at h
  · next hlate =>
    simp only [Bool.and_eq_true, decide_eq_true_eq] at hlate
    rw [← Except.ok.inj h]
    omega
  · exact Except.ok.inj h ▸ hnonneg

theorem unboundedTtlChecked_eq (hdates : DatesBounded ext) (hlow : 0 ≤ responseTimeSeconds)
    (hhigh : responseTimeSeconds < 4611686018427387904) {ageSeconds defaultTtlMs : Int}
    {date : Option CString} {lifetime : Option Int} (hnonneg : 0 ≤ ageSeconds)
    (hlifetime : ∀ seconds, lifetime = some seconds → seconds ≤ int64Max) :
    unboundedTtlChecked ext lifetime ageSeconds date responseTimeSeconds defaultTtlMs =
      some (unboundedTtl ext lifetime ageSeconds date responseTimeSeconds defaultTtlMs) := by
  have hmax : int64Max = 9223372036854775807 := rfl
  cases lifetime with
  | none => rfl
  | some seconds =>
    have hseconds := hlifetime seconds rfl
    simp only [unboundedTtlChecked, unboundedTtl]
    rw [apparentAgeChecked_eq hdates hlow hhigh, Option.bind_eq_bind, Option.bind_some]
    cases hage : apparentAge ext ageSeconds date responseTimeSeconds with
    | error e => rfl
    | ok age =>
      have hpositive := apparentAge_nonneg hnonneg hage
      simp only
      split
      · rfl
      · rw [int64?_eq (by omega) (by omega), Option.bind_eq_bind, Option.bind_some,
          secondsToMillisecondsChecked_eq (by omega)]
        rfl

/-- A lifetime is a number of 64 bits. -/
theorem explicitLifetime_le (hdates : DatesBounded ext) (hlow : 0 ≤ responseTimeSeconds)
    {control : CacheControlValues} {date expires : Option CString} {seconds : Int}
    (hcontrol : control.maxAgeSeconds ≤ int64Max)
    (h : explicitLifetime ext control date expires responseTimeSeconds = .ok (some seconds)) :
    seconds ≤ int64Max := by
  have hmax : int64Max = 9223372036854775807 := rfl
  have hdateAt := hdates.dateAt_gt hlow date
  unfold explicitLifetime at h
  split at h
  · obtain rfl := Option.some.inj (Except.ok.inj h)
    exact hcontrol
  split at h
  · simp at h
  next expires _ =>
  have hexpires := hdates.range expires
  simp only at h
  split at h
  · simp at h
  obtain rfl := Option.some.inj (Except.ok.inj h)
  split <;> omega

end

/-- No 64-bit operation of the calculation overflows. -/
theorem httpFreshnessCalculateChecked_eq {ext : Externals} {responseTimeSeconds : Int}
    (hdates : DatesBounded ext) (hhigh : responseTimeSeconds < 4611686018427387904)
    (cacheControl date expires age : Option CString) (policy : HttpFreshnessPolicy) :
    httpFreshnessCalculateChecked ext cacheControl date expires age responseTimeSeconds policy =
      some (httpFreshnessCalculate ext cacheControl date expires age responseTimeSeconds policy) := by
  unfold httpFreshnessCalculateChecked httpFreshnessCalculate
  split
  · rfl
  next hvalid =>
  have hlow : 0 ≤ responseTimeSeconds := by
    simp only [Bool.or_eq_true, decide_eq_true_eq, not_or, Int.not_lt] at hvalid
    exact hvalid.1.1.1
  cases hcontrol : parseCacheControl cacheControl with
  | none => rfl
  | some control =>
    cases hage : parseAge age with
    | none => rfl
    | some ageSeconds =>
      obtain ⟨_, hnonneg, _⟩ := parseAge_eq_some hage
      have hrange := ((parseCacheControl_read hcontrol).maxAge_range ⟨by decide, by decide⟩).2
      simp only
      rw [explicitLifetimeChecked_eq hdates hlow, Option.bind_eq_bind, Option.bind_some]
      cases hlifetime : explicitLifetime ext control date expires responseTimeSeconds with
      | error e => rfl
      | ok lifetime =>
        have hle (seconds : Int) (hsome : lifetime = some seconds) : seconds ≤ int64Max :=
          explicitLifetime_le hdates hlow hrange (hsome ▸ hlifetime)
        simp only
        rw [unboundedTtlChecked_eq hdates hlow hhigh hnonneg hle, Option.bind_eq_bind, Option.bind_some]
        cases unboundedTtl ext lifetime ageSeconds date responseTimeSeconds policy.defaultTtlMs <;> rfl

theorem remainingTtl_le {policy : HttpFreshnessPolicy} {lifetime : Option Int} {age : Int}
    (hpositive : 0 ≤ policy.defaultTtlMs) (hdefault : policy.defaultTtlMs ≤ policy.maximumTtlMs) :
    0 ≤ remainingTtl policy lifetime age ∧ remainingTtl policy lifetime age ≤ policy.maximumTtlMs ∧
      ∀ seconds, lifetime = some seconds → remainingTtl policy lifetime age ≤ 1000 * max 0 (seconds - age) := by
  cases lifetime with
  | none => exact ⟨hpositive, hdefault, by simp⟩
  | some stated =>
    rw [remainingTtl]
    refine ⟨by omega, by omega, ?_⟩
    rintro seconds ⟨⟩
    omega

/-- What a calculation that succeeds returns, from the headers. -/
theorem httpFreshnessCalculate_eq_ok {ext : Externals} {responseTimeSeconds : Int}
    {policy : HttpFreshnessPolicy} (hword : policy.maximumTtlMs ≤ int64Max)
    {cacheControl date expires age : Option CString} {f : HttpFreshness}
    (h : httpFreshnessCalculate ext cacheControl date expires age responseTimeSeconds policy = .ok f) :
    f.ttlMs = statedTtl ext cacheControl date expires age responseTimeSeconds policy ∧
      f.cacheable = !hasDirective cacheControl "no-store" ∧
      f.revalidationRequired =
        (hasDirective cacheControl "no-cache" || hasDirective cacheControl "must-revalidate") := by
  obtain ⟨⟨_, _, hmaximum⟩, control, ageSeconds, lifetime, ttl, hcontrol, hage, hlifetime, httl, rfl⟩ :=
    httpFreshnessCalculate_eq_ok_iff.mp h
  have hread := parseCacheControl_read hcontrol
  obtain ⟨hageHeader, hnonneg, _⟩ := parseAge_eq_some hage
  have hstore : control.noStore = hasDirective cacheControl "no-store" := hread.noStore
  have hcache : control.noCache = hasDirective cacheControl "no-cache" := hread.noCache
  have hrevalidate : control.mustRevalidate = hasDirective cacheControl "must-revalidate" :=
    hread.mustRevalidate
  refine ⟨?_, by rw [hstore], by rw [hcache, hrevalidate]⟩
  rw [statedTtl, ← hcache, ← explicitLifetime_eq_ok hread.maxAge_eq hlifetime,
    ← unboundedTtl_eq_ok hageHeader hnonneg hword hmaximum httl]

/-- A calculation that succeeds follows the formula, and neither it nor the reading of
numbers overflows. -/
theorem freshness_exact {ext : Externals} (hdates : DatesBounded ext) {responseTimeSeconds : Int}
    (hresponse : 0 ≤ responseTimeSeconds ∧ responseTimeSeconds < 4611686018427387904)
    {policy : HttpFreshnessPolicy} (hdefault : 0 ≤ policy.defaultTtlMs)
    (hmaximum : policy.defaultTtlMs ≤ policy.maximumTtlMs) (hword : policy.maximumTtlMs ≤ int64Max)
    (cacheControl date expires age : Option CString) :
    (∀ text, decimalChecked text = some (decimal text)) ∧
    httpFreshnessCalculateChecked ext cacheControl date expires age responseTimeSeconds policy =
      some (httpFreshnessCalculate ext cacheControl date expires age responseTimeSeconds policy) ∧
    ∀ f, httpFreshnessCalculate ext cacheControl date expires age responseTimeSeconds policy = .ok f →
      f.ttlMs = statedTtl ext cacheControl date expires age responseTimeSeconds policy ∧
      (f.cacheable = true ↔ hasDirective cacheControl "no-store" = false) ∧
      (f.revalidationRequired = true ↔
        hasDirective cacheControl "no-cache" = true ∨ hasDirective cacheControl "must-revalidate" = true) ∧
      0 ≤ f.ttlMs ∧ f.ttlMs ≤ policy.maximumTtlMs ∧
      ∀ lifetime, statedLifetime ext cacheControl date expires responseTimeSeconds = some lifetime →
        f.ttlMs ≤ 1000 * max 0 (lifetime - statedAge ext date age responseTimeSeconds) := by
  refine ⟨decimalChecked_eq, httpFreshnessCalculateChecked_eq hdates hresponse.2 _ _ _ _ _, ?_⟩
  intro f h
  obtain ⟨httl, hcacheable, hrevalidation⟩ := httpFreshnessCalculate_eq_ok hword h
  obtain ⟨hlow, hhigh, hstated⟩ := @remainingTtl_le policy
    (statedLifetime ext cacheControl date expires responseTimeSeconds)
    (statedAge ext date age responseTimeSeconds) hdefault hmaximum
  refine ⟨httl, by simp [hcacheable], by simp [hrevalidation], ?_, ?_, ?_⟩ <;> rw [httl, statedTtl] <;> split
  · exact Int.le_refl 0
  · exact hlow
  · omega
  · exact hhigh
  · intro lifetime _
    omega
  · exact hstated

namespace Sample

def freshnessPolicy : HttpFreshnessPolicy := ⟨60000, 3600000⟩

/-- A curl that reads every date as one second after the start of 2026. -/
def newYearExternals : Externals where
  jsonLoadb _ := none
  jsonDumps _ := none
  curlUrlSet _ := none
  curlGetdate _ := 1767225601
  ecPointOnCurve _ _ := false
  ed25519PublicKey _ := false
  jwksCreate _ := false
  jwtChecker _ _ := false
  jwtVerify _ _ _ := false

theorem newYear_bounded : DatesBounded newYearExternals := by
  intro text
  right
  change -2305843009213693952 < 1767225601 ∧ 1767225601 < 2305843009213693952
  decide

def tenMinutes : Option CString := some (.lit "max-age=\"600\", must-revalidate")

def newYear : Option CString := some (.lit "Thu, 01 Jan 2026 00:00:01 GMT")

end Sample

/-- Ten minutes of lifetime, of which two have passed. -/
theorem freshness_exact_eight_minutes :
    ∃ f, httpFreshnessCalculate Sample.newYearExternals Sample.tenMinutes Sample.newYear none
        (some (.lit "30")) 1767225721 Sample.freshnessPolicy = .ok f ∧
      f.ttlMs = statedTtl Sample.newYearExternals Sample.tenMinutes Sample.newYear none (some (.lit "30"))
        1767225721 Sample.freshnessPolicy ∧ f.ttlMs = 480000 := by
  have hok : httpFreshnessCalculate Sample.newYearExternals Sample.tenMinutes Sample.newYear none
      (some (.lit "30")) 1767225721 Sample.freshnessPolicy = .ok ⟨480000, true, true, true⟩ := by
    decide
  exact ⟨_, hok, ((freshness_exact Sample.newYear_bounded (by decide) (by decide) (by decide) (by decide)
    Sample.tenMinutes Sample.newYear none (some (.lit "30"))).2.2 _ hok).1, rfl⟩

end OAuthValidator
