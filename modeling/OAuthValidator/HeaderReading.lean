import OAuthValidator.CacheControlGrammar
import OAuthValidator.FreshnessExact
import OAuthValidator.IssuerKey

/-! The freshness headers of a response, as values of their own. Some are malformed and
some contradict each other. The calculation does not read all of them: it fails on
less, and it takes lifetimes from headers that are not in order. -/

namespace OAuthValidator

def headerItems (cacheControl : Option CString) : List Bytes :=
  match cacheControl with
  | none => []
  | some text => cacheItems text.bytes

/-- A decimal number of 64 bits. -/
structure DecimalText (text : Bytes) : Prop where
  nonempty : text ≠ []
  digits : ∀ b ∈ text, isdigit b = true
  range : digitsValue text ≤ int64Max

/-- A date that is given can be read. -/
def ReadableDate (ext : Externals) (date : Option CString) : Prop :=
  ∀ text, givenHeader date = some text → ext.curlGetdate text ≠ -1

section Definitions

variable (ext : Externals) (response : HttpResponse) (responseTimeSeconds : Int)

/-- Every freshness header that is there has a value of its form. -/
structure WellFormedHeaders : Prop where
  cacheControl : ∀ item ∈ headerItems response.cacheControl, WellFormedItem item
  date : ∀ text, response.date = some text → ext.curlGetdate text ≠ -1
  expires : ∀ text, response.expires = some text → ext.curlGetdate text ≠ -1
  age : ∀ text, response.age = some text → DecimalText (trimBy isblank text.bytes)

/-- A lifetime that the headers state, in seconds: by max-age, by Expires, or none at
all by no-store and no-cache. -/
inductive StatesLifetime : Int → Prop
  | maxAge {item : Bytes} (listed : item ∈ headerItems response.cacheControl)
      (named : isDirective "max-age" item = true) : StatesLifetime (digitsValue (directiveArgument item))
  | expires {text : CString} (given : response.expires = some text) :
      StatesLifetime (max 0 (ext.curlGetdate text -
        ((givenHeader response.date).map ext.curlGetdate).getD responseTimeSeconds))
  | unusable {item : Bytes} (listed : item ∈ headerItems response.cacheControl)
      (named : isDirective "no-store" item = true ∨ isDirective "no-cache" item = true) : StatesLifetime 0

/-- The headers state two lifetimes. -/
def ConflictingHeaders : Prop :=
  ∃ seconds seconds', StatesLifetime ext response responseTimeSeconds seconds ∧
    StatesLifetime ext response responseTimeSeconds seconds' ∧ seconds ≠ seconds'

/-- The headers are malformed or conflicting. -/
def IrregularHeaders : Prop :=
  ¬ WellFormedHeaders ext response ∨ ConflictingHeaders ext response responseTimeSeconds

def StatesMaxAge : Prop :=
  ∃ item ∈ headerItems response.cacheControl, isDirective "max-age" item = true

/-- The headers that the calculation reads can be read. Expires is read only where there
is no max-age, and Date only beside one of the two. -/
structure ReadableHeaders : Prop where
  cacheControl : CacheControlText (headerItems response.cacheControl)
  age : ∀ text, givenHeader response.age = some text → DecimalText (trimBy isblank text.bytes)
  expires : ¬ StatesMaxAge response → ReadableDate ext response.expires
  date : StatesMaxAge response ∨ givenHeader response.expires ≠ none → ReadableDate ext response.date

/-- Some of the stated lifetime is left, or of the default where none is stated. -/
def LifetimeLeft (policy : HttpFreshnessPolicy) : Prop :=
  match statedLifetime ext response.cacheControl response.date response.expires responseTimeSeconds with
  | none => 0 < policy.defaultTtlMs
  | some seconds => statedAge ext response.date response.age responseTimeSeconds < seconds

/-- The response may be kept, and used again without asking. -/
structure ReusableHeaders (policy : HttpFreshnessPolicy) : Prop where
  stored : hasDirective response.cacheControl "no-store" = false
  unasked : hasDirective response.cacheControl "no-cache" = false
  left : LifetimeLeft ext response responseTimeSeconds policy

end Definitions

section Parts

variable {ext : Externals} {cacheControl date expires age : Option CString} {control : CacheControlValues}
  {responseTimeSeconds : Int}

theorem parseCacheControl_of_text (h : CacheControlText (headerItems cacheControl)) :
    ∃ control, parseCacheControl cacheControl = some control := by
  cases cacheControl with
  | none => exact ⟨_, rfl⟩
  | some text =>
    have hparse := parseCacheControl_eq_some.mpr ⟨h, h.read⟩
    rw [Pointer.parseCacheControl_eq] at hparse
    exact ⟨_, hparse⟩

theorem parseCacheControl_text (h : parseCacheControl cacheControl = some control) :
    CacheControlText (headerItems cacheControl) ∧
      (control.hasMaxAge = true ↔ ∃ item ∈ headerItems cacheControl, isDirective "max-age" item = true) := by
  cases cacheControl with
  | none =>
    obtain rfl := Option.some.inj h
    exact ⟨⟨by simp [headerItems], by simp [headerItems]⟩, by simp [headerItems]⟩
  | some text =>
    rw [← Pointer.parseCacheControl_eq] at h
    obtain ⟨htext, hread⟩ := parseCacheControl_eq_some.mp h
    exact ⟨htext, hread.hasMaxAge⟩

theorem decimal_isSome_iff {text : Bytes} : (∃ value, decimal text = some value) ↔ DecimalText text := by
  simp only [decimal_eq_some]
  constructor
  · rintro ⟨_, hne, hdigits, rfl, hle⟩
    exact ⟨hne, hdigits, hle⟩
  · rintro ⟨hne, hdigits, hle⟩
    exact ⟨_, hne, hdigits, rfl, hle⟩

theorem parseAge_isSome_iff : (∃ seconds, parseAge age = some seconds) ↔
    ∀ text, givenHeader age = some text → DecimalText (trimBy isblank text.bytes) := by
  cases age with
  | none => simp [parseAge, givenHeader]
  | some text =>
    cases hempty : text.isEmpty with
    | true => simp [parseAge, givenHeader, hempty]
    | false => simp [parseAge, givenHeader, hempty, ← decimal_isSome_iff]

theorem explicitLifetime_isOk_iff (hresponse : 0 ≤ responseTimeSeconds) :
    (∃ lifetime, explicitLifetime ext control date expires responseTimeSeconds = .ok lifetime) ↔
      (control.hasMaxAge = false → ReadableDate ext expires ∧
        (givenHeader expires ≠ none → ReadableDate ext date)) := by
  unfold explicitLifetime ReadableDate
  cases control.hasMaxAge with
  | true => simp
  | false =>
  cases givenHeader expires with
  | none => simp
  | some expires =>
  cases givenHeader date with
  | none =>
    have hnow : responseTimeSeconds ≠ -1 := by omega
    by_cases hexpires : ext.curlGetdate expires = -1 <;> simp [hexpires, hnow]
  | some date =>
    by_cases hexpires : ext.curlGetdate expires = -1 <;> by_cases hdate : ext.curlGetdate date = -1 <;>
      simp [hexpires, hdate]

theorem explicitLifetime_ne_none {lifetime : Option Int}
    (h : explicitLifetime ext control date expires responseTimeSeconds = .ok lifetime) :
    lifetime ≠ none ↔ control.hasMaxAge = true ∨ givenHeader expires ≠ none := by
  unfold explicitLifetime at h
  cases hmax : control.hasMaxAge with
  | true =>
    rw [hmax, if_pos rfl] at h
    simp [← Except.ok.inj h]
  | false =>
    rw [hmax, if_neg (by simp)] at h
    cases hexpires : givenHeader expires with
    | none =>
      rw [hexpires] at h
      simp [← Except.ok.inj h]
    | some expires =>
      simp only [hexpires] at h
      split at h
      · simp at h
      · simp [← Except.ok.inj h]

theorem apparentAge_isOk_iff {ageSeconds : Int} :
    (∃ age, apparentAge ext ageSeconds date responseTimeSeconds = .ok age) ↔ ReadableDate ext date := by
  unfold apparentAge ReadableDate
  cases givenHeader date with
  | none => simp
  | some date =>
    by_cases hdate : ext.curlGetdate date = -1
    · simp [hdate]
    · simp only [beq_iff_eq, hdate, if_false]
      refine iff_of_true ?_ (by simpa using hdate)
      split <;> exact ⟨_, rfl⟩

theorem unboundedTtl_isOk_iff {lifetime : Option Int} {ageSeconds defaultTtlMs : Int} :
    (∃ ttl, unboundedTtl ext lifetime ageSeconds date responseTimeSeconds defaultTtlMs = .ok ttl) ↔
      (lifetime ≠ none → ReadableDate ext date) := by
  cases lifetime with
  | none => simp [unboundedTtl]
  | some seconds =>
    have hage : (∃ age, apparentAge ext ageSeconds date responseTimeSeconds = .ok age) ↔ ReadableDate ext date :=
      apparentAge_isOk_iff
    rw [← hage]
    simp only [unboundedTtl]
    cases apparentAge ext ageSeconds date responseTimeSeconds <;> simp

end Parts

section Response

variable {ext : Externals} {response : HttpResponse} {responseTimeSeconds : Int} {policy : HttpFreshnessPolicy}

/-- The freshness of a response can be calculated exactly if the headers that are read
for it can be read and the local values are in range. -/
theorem freshness_isOk_iff :
    (∃ f, response.freshness ext responseTimeSeconds policy = .ok f) ↔
      (0 ≤ responseTimeSeconds ∧ 0 ≤ policy.defaultTtlMs ∧ policy.defaultTtlMs ≤ policy.maximumTtlMs) ∧
        ReadableHeaders ext response := by
  constructor
  · rintro ⟨f, h⟩
    obtain ⟨hlocal, control, ageSeconds, lifetime, ttl, hcontrol, hage, hlifetime, httl, _⟩ :=
      httpFreshnessCalculate_eq_ok_iff.mp h
    obtain ⟨htext, hmax⟩ := parseCacheControl_text hcontrol
    have hexplicit := (explicitLifetime_isOk_iff hlocal.1).mp ⟨lifetime, hlifetime⟩
    have hbounded := unboundedTtl_isOk_iff.mp ⟨ttl, httl⟩
    rw [explicitLifetime_ne_none hlifetime, hmax] at hbounded
    refine ⟨hlocal, htext, parseAge_isSome_iff.mp ⟨ageSeconds, hage⟩, fun hnone => ?_, hbounded⟩
    exact (hexplicit (by simpa using fun hhas => hnone (hmax.mp hhas))).1
  · rintro ⟨hlocal, hreadable⟩
    obtain ⟨control, hcontrol⟩ := parseCacheControl_of_text hreadable.cacheControl
    obtain ⟨_, hmax⟩ := parseCacheControl_text hcontrol
    obtain ⟨ageSeconds, hage⟩ := parseAge_isSome_iff.mpr hreadable.age
    obtain ⟨lifetime, hlifetime⟩ : ∃ lifetime, explicitLifetime ext control response.date response.expires
        responseTimeSeconds = .ok lifetime := by
      refine (explicitLifetime_isOk_iff hlocal.1).mpr fun hhas => ⟨hreadable.expires fun hstates => ?_,
        fun hgiven => hreadable.date (Or.inr hgiven)⟩
      simp [hmax.mpr hstates] at hhas
    obtain ⟨ttl, httl⟩ : ∃ ttl, unboundedTtl ext lifetime ageSeconds response.date responseTimeSeconds
        policy.defaultTtlMs = .ok ttl := by
      refine unboundedTtl_isOk_iff.mpr fun hne => hreadable.date ?_
      exact ((explicitLifetime_ne_none hlifetime).mp hne).imp_left hmax.mp
    exact ⟨_, httpFreshnessCalculate_eq_ok_iff.mpr
      ⟨hlocal, control, ageSeconds, lifetime, ttl, hcontrol, hage, hlifetime, httl, rfl⟩⟩

theorem secondsToMilliseconds_pos {seconds : Int} (h : 0 < seconds) : 0 < secondsToMilliseconds seconds := by
  have hmax : int64Max = 9223372036854775807 := rfl
  unfold secondsToMilliseconds
  split <;> omega

/-- Where the freshness is calculated, the response is stored with a time to live exactly
if it is reusable. -/
theorem reusable_iff {f : HttpFreshness} (hmaximum : 0 < policy.maximumTtlMs)
    (h : response.freshness ext responseTimeSeconds policy = .ok f) :
    f.cacheable = true ∧ 0 < f.ttlMs ↔ ReusableHeaders ext response responseTimeSeconds policy := by
  obtain ⟨hlocal, control, ageSeconds, lifetime, ttl, hcontrol, hage, hlifetime, httl, rfl⟩ :=
    httpFreshnessCalculate_eq_ok_iff.mp h
  have hread := parseCacheControl_read hcontrol
  obtain ⟨hageHeader, hnonneg, _⟩ := parseAge_eq_some hage
  have hstore : control.noStore = hasDirective response.cacheControl "no-store" := hread.noStore
  have hcache : control.noCache = hasDirective response.cacheControl "no-cache" := hread.noCache
  have hleft : 0 < ttl ↔ LifetimeLeft ext response responseTimeSeconds policy := by
    unfold LifetimeLeft
    rw [← explicitLifetime_eq_ok hread.maxAge_eq hlifetime]
    cases lifetime with
    | none =>
      obtain rfl := Except.ok.inj httl
      exact Iff.rfl
    | some seconds =>
      simp only [unboundedTtl] at httl
      split at httl
      · simp at httl
      · next age hresult =>
        obtain rfl := apparentAge_eq_ok hageHeader hnonneg hresult
        rw [← Except.ok.inj httl]
        split
        · next hold => exact iff_of_false (by simp) (by omega)
        · next hyoung =>
          exact iff_of_true (secondsToMilliseconds_pos (by omega)) (by omega)
  have httlPos : 0 < (if control.noCache then 0 else min policy.maximumTtlMs ttl) ↔
      control.noCache = false ∧ 0 < ttl := by
    cases control.noCache with
    | true => simp
    | false =>
      simp only [Bool.false_eq_true, if_false, true_and]
      omega
  simp only
  rw [httlPos, hleft, hstore, hcache, Bool.not_eq_true']
  exact ⟨fun h => ⟨h.1, h.2.1, h.2.2⟩, fun h => ⟨h.stored, h.unasked, h.left⟩⟩

end Response

end OAuthValidator
