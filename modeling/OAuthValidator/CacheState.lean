import OAuthValidator.Text

/-! The fixed-slot cache of issuer documents. Slots are found by scanning,
refreshed under a ticket, and expired against a caller-supplied clock. A byte
buffer and its length are one list, so a NULL buffer is the empty list. -/

namespace OAuthValidator

def cacheMaxKeySize : Nat := 4096
def cacheMaxPayloadSize : Nat := 65536

inductive CacheLookup
  | miss | fresh | stale
deriving DecidableEq, Repr

inductive CacheRefreshResult
  | started | inProgress | suppressed | capacity | invalidArgument
deriving DecidableEq, Repr

inductive CacheCopyResult
  | ok | notFound | tooSmall | invalidArgument
deriving DecidableEq, Repr

/-- One slot. The default value is the slot cleared by `memset`. -/
structure CacheEntry where
  key : Bytes := []
  payload : Bytes := []
  refreshSerial : Nat := 0
  freshUntilMs : Int := 0
  staleUntilMs : Int := 0
  lastUsedMs : Int := 0
  lastUnknownKidRefreshMs : Int := 0
  occupied : Bool := false
  hasValue : Bool := false
  refreshing : Bool := false
  hasUnknownKidRefresh : Bool := false
deriving DecidableEq, Repr

def CacheEntry.zero : CacheEntry := {}

structure CacheStats where
  freshHits : Nat := 0
  staleHits : Nat := 0
  misses : Nat := 0
  refreshes : Nat := 0
  refreshSuppressions : Nat := 0
  evictions : Nat := 0
  failures : Nat := 0
deriving DecidableEq, Repr

structure CacheControl where
  nextRefreshSerial : Nat
  stats : CacheStats
deriving DecidableEq, Repr

structure Cache where
  entries : List CacheEntry
  control : CacheControl
deriving DecidableEq, Repr

/-- The ticket handed to the owner of a refresh. -/
structure CacheRefresh where
  entryIndex : Nat
  serial : Nat
deriving DecidableEq, Repr

/-- The arguments of a completion other than its ticket. -/
structure Completion where
  nowMs : Int
  success : Bool
  cacheable : Bool
  revalidationRequired : Bool
  ttlMs : Int
  staleGraceMs : Int
  payload : Bytes
deriving DecidableEq, Repr

def validKey (key : Bytes) : Bool :=
  decide (0 < key.length) && decide (key.length ≤ cacheMaxKeySize)

def sameKey (entry : CacheEntry) (key : Bytes) : Bool :=
  entry.occupied && entry.key == key

def boundedAdd (value duration : Int) : Int :=
  if duration > int64Max - value then int64Max else value + duration

def increment (counter : Nat) : Nat :=
  if counter ≠ uint64Max then counter + 1 else counter

def cacheInit (capacity : Nat) : Option Cache :=
  if capacity = 0 then none
  else some ⟨List.replicate capacity .zero, ⟨1, {}⟩⟩

/-- The scan of a lookup from slot `i` on: the first slot holding a value
under the key decides. -/
def lookupFrom (key : Bytes) (nowMs : Int) (allowStale : Bool) :
    List CacheEntry → Nat → CacheLookup × Option Nat
  | [], _ => (.miss, none)
  | entry :: rest, i =>
    if !sameKey entry key || !entry.hasValue then lookupFrom key nowMs allowStale rest (i + 1)
    else if nowMs < entry.freshUntilMs then (.fresh, some i)
    else if allowStale && decide (nowMs < entry.staleUntilMs) then (.stale, some i)
    else (.miss, none)

def CacheStats.countLookup (stats : CacheStats) : CacheLookup → CacheStats
  | .fresh => { stats with freshHits := increment stats.freshHits }
  | .stale => { stats with staleHits := increment stats.staleHits }
  | .miss => { stats with misses := increment stats.misses }

def Cache.withEntry (cache : Cache) (i : Nat) (entry : CacheEntry) : Cache :=
  { cache with entries := cache.entries.set i entry }

def Cache.withStats (cache : Cache) (stats : CacheStats) : Cache :=
  { cache with control := { cache.control with stats := stats } }

def Cache.touch (cache : Cache) (nowMs : Int) (i : Nat) : Cache :=
  match cache.entries[i]? with
  | some entry => cache.withEntry i { entry with lastUsedMs := nowMs }
  | none => cache

def cacheLookup (cache : Cache) (key : Bytes) (nowMs : Int) (allowStale : Bool) :
    CacheLookup × Option Nat × Cache :=
  if !validKey key || decide (nowMs < 0) then (.miss, none, cache)
  else
    let found := lookupFrom key nowMs allowStale cache.entries 0
    let used := match found.2 with
      | some i => cache.touch nowMs i
      | none => cache
    (found.1, found.2, used.withStats (cache.control.stats.countLookup found.1))

/-- The scan for the slot of a refresh from slot `i` on. It returns the slot
and whether it already holds the key. -/
def findRefreshSlotFrom (key : Bytes) (nowMs : Int) :
    List CacheEntry → Nat → Option Nat → Option Nat → Int → Option Nat × Bool
  | [], _, empty, victim, _ => (if empty.isSome then empty else victim, false)
  | entry :: rest, i, empty, victim, victimLastUsed =>
    if sameKey entry key then (some i, true)
    else if !entry.occupied && empty.isNone then
      findRefreshSlotFrom key nowMs rest (i + 1) (some i) victim victimLastUsed
    else if entry.occupied && !entry.refreshing && decide (nowMs ≥ entry.staleUntilMs) &&
        (victim.isNone || decide (entry.lastUsedMs < victimLastUsed)) then
      findRefreshSlotFrom key nowMs rest (i + 1) empty (some i) entry.lastUsedMs
    else findRefreshSlotFrom key nowMs rest (i + 1) empty victim victimLastUsed

def findRefreshSlot (cache : Cache) (key : Bytes) (nowMs : Int) : Option Nat × Bool :=
  findRefreshSlotFrom key nowMs cache.entries 0 none none int64Max

/-- The serial after `serial`: a 64-bit counter that skips zero. -/
def advanceSerial (serial : Nat) : Nat :=
  if (serial + 1) % (uint64Max + 1) = 0 then 1 else (serial + 1) % (uint64Max + 1)

def noRefresh : CacheRefresh := ⟨sizeMax, 0⟩

/-- The slot claimed for a new key, or the existing one, before it is marked
as refreshing. -/
def claimEntry (entry : CacheEntry) (existing : Bool) (key : Bytes) (nowMs : Int) : CacheEntry :=
  if existing then entry
  else { CacheEntry.zero with key := key, occupied := true, lastUsedMs := nowMs }

def noteUnknownKid (entry : CacheEntry) (unknownKid : Bool) (nowMs : Int) : CacheEntry :=
  if unknownKid then
    { entry with hasUnknownKidRefresh := true, lastUnknownKidRefreshMs := nowMs }
  else entry

def cacheBeginRefresh (cache : Cache) (key : Bytes) (nowMs : Int) (unknownKid : Bool)
    (unknownKidCooldownMs : Int) : CacheRefreshResult × CacheRefresh × Cache :=
  let stats := cache.control.stats
  if !validKey key || decide (nowMs < 0) || decide (unknownKidCooldownMs < 0) then
    (.invalidArgument, noRefresh, cache)
  else
    match findRefreshSlot cache key nowMs with
    | (none, _) =>
      (.capacity, noRefresh, cache.withStats { stats with failures := increment stats.failures })
    | (some index, existing) =>
      let entry := cache.entries.getD index .zero
      let suppressed :=
        cache.withStats { stats with refreshSuppressions := increment stats.refreshSuppressions }
      if existing && entry.refreshing then (.inProgress, noRefresh, suppressed)
      else if existing && unknownKid && entry.hasUnknownKidRefresh &&
          decide (nowMs - entry.lastUnknownKidRefreshMs < unknownKidCooldownMs) then
        (.suppressed, noRefresh, suppressed)
      else
        let serial := cache.control.nextRefreshSerial
        let claimed := noteUnknownKid (claimEntry entry existing key nowMs) unknownKid nowMs
        (.started, ⟨index, serial⟩,
          { entries := cache.entries.set index
              { claimed with refreshing := true, refreshSerial := serial }
            control :=
              { nextRefreshSerial := advanceSerial serial
                stats :=
                  { stats with
                    evictions :=
                      if !existing && entry.occupied then increment stats.evictions
                      else stats.evictions
                    refreshes := increment stats.refreshes } } })

def cacheIsRefreshing (cache : Cache) (key : Bytes) : Bool :=
  if !validKey key then false
  else match cache.entries.find? (sameKey · key) with
    | some entry => entry.refreshing
    | none => false

/-- Releasing a refresh without publishing: a slot that has no value yet is
cleared. -/
def releaseEntry (entry : CacheEntry) : CacheEntry :=
  if entry.hasValue then { entry with refreshing := false } else .zero

def publishEntry (entry : CacheEntry) (c : Completion) : CacheEntry :=
  let freshUntil := boundedAdd c.nowMs c.ttlMs
  { entry with
    refreshing := false
    hasValue := true
    payload := c.payload
    lastUsedMs := c.nowMs
    freshUntilMs := freshUntil
    staleUntilMs :=
      if c.revalidationRequired then freshUntil else boundedAdd freshUntil c.staleGraceMs }

/-- The completions that are refused after the ticket has been recognised. -/
def Completion.rejected (c : Completion) : Bool :=
  decide (c.nowMs < 0) || decide (c.ttlMs < 0) || decide (c.staleGraceMs < 0) ||
    (c.success && c.cacheable &&
      (decide (c.payload.length = 0) || decide (c.payload.length > cacheMaxPayloadSize)))

def cacheCompleteRefresh (cache : Cache) (refresh : CacheRefresh) (c : Completion) :
    Bool × Cache :=
  if decide (refresh.entryIndex ≥ cache.entries.length) || decide (refresh.serial = 0) then
    (false, cache)
  else
    let entry := cache.entries.getD refresh.entryIndex .zero
    let stats := cache.control.stats
    let failed := { stats with failures := increment stats.failures }
    if !entry.occupied || !entry.refreshing || decide (entry.refreshSerial ≠ refresh.serial) then
      (false, cache)
    else if c.rejected then
      (false, (cache.withEntry refresh.entryIndex (releaseEntry entry)).withStats failed)
    else if !c.success then
      (true, (cache.withEntry refresh.entryIndex (releaseEntry entry)).withStats failed)
    else if !c.cacheable then (true, cache.withEntry refresh.entryIndex .zero)
    else (true, cache.withEntry refresh.entryIndex (publishEntry entry c))

/-- Copying the payload of a slot into a buffer of `outputSize` bytes. The
length is reported even when the buffer is too small. -/
def cacheCopyPayload (cache : Cache) (entryIndex : Nat) (outputSize : Nat) :
    CacheCopyResult × Nat × Bytes :=
  match cache.entries[entryIndex]? with
  | none => (.invalidArgument, 0, [])
  | some entry =>
    if !entry.occupied || !entry.hasValue then (.notFound, 0, [])
    else if outputSize < entry.payload.length then (.tooSmall, entry.payload.length, [])
    else (.ok, entry.payload.length, entry.payload)

end OAuthValidator
