import OAuthValidator.CacheRuns
import OAuthValidator.MachineMemory

/-! The cache as it lies in memory. A slot has buffers of a fixed size beside their
lengths, times are 64-bit integers, and `SIZE_MAX` stands for no slot. Operations
have no result where the C code would leave a buffer or overflow a signed integer.
They always have one, and it is that of the lists and integers of the model above:
in particular no byte of an earlier, longer document is ever copied out. -/

namespace OAuthValidator.Memory

open MachineMemory

/-- `PgOAuthCacheEntry`. The default value is the slot cleared by `memset`. -/
structure Slot where
  key : Buffer cacheMaxKeySize := .zero
  payload : Buffer cacheMaxPayloadSize := .zero
  keyLength : Nat := 0
  payloadLength : Nat := 0
  refreshSerial : UInt64 := 0
  freshUntilMs : Int64 := 0
  staleUntilMs : Int64 := 0
  lastUsedMs : Int64 := 0
  lastUnknownKidRefreshMs : Int64 := 0
  occupied : Bool := false
  hasValue : Bool := false
  refreshing : Bool := false
  hasUnknownKidRefresh : Bool := false

def Slot.zero : Slot := {}

structure Stats where
  freshHits : UInt64 := 0
  staleHits : UInt64 := 0
  misses : UInt64 := 0
  refreshes : UInt64 := 0
  refreshSuppressions : UInt64 := 0
  evictions : UInt64 := 0
  failures : UInt64 := 0

structure Control where
  nextRefreshSerial : UInt64
  stats : Stats

structure Store where
  entries : List Slot
  control : Control

structure Ticket where
  entryIndex : Nat
  serial : UInt64

/-- A NULL payload is `none`. -/
structure Publication where
  nowMs : Int64
  success : Bool
  cacheable : Bool
  revalidationRequired : Bool
  ttlMs : Int64
  staleGraceMs : Int64
  payload : Option Bytes

/-- A key that is passed to the cache; a NULL pointer is `none`. -/
def validKey (key : Option Bytes) : Bool :=
  key.any fun text => decide (0 < text.length) && decide (text.length ≤ cacheMaxKeySize)

def sameKey (slot : Slot) (key : Bytes) : Option Bool :=
  if slot.occupied && slot.keyLength == key.length then
    (slot.key.read key.length).map (· == key)
  else some false

def boundedAdd (value duration : Int64) : Option Int64 := do
  let room ← checkedSub Int64.maxValue value
  if room < duration then return Int64.maxValue
  checkedAdd value duration

def increment (counter : UInt64) : UInt64 :=
  if counter != 18446744073709551615 then counter + 1 else counter

def Stats.countLookup (stats : Stats) : CacheLookup → Stats
  | .fresh => { stats with freshHits := increment stats.freshHits }
  | .stale => { stats with staleHits := increment stats.staleHits }
  | .miss => { stats with misses := increment stats.misses }

def Store.withStats (store : Store) (stats : Stats) : Store :=
  { store with control := { store.control with stats := stats } }

def Store.withSlot (store : Store) (i : Nat) (slot : Slot) : Store :=
  { store with entries := store.entries.set i slot }

def cacheInit (capacity : Nat) : Option Store :=
  if capacity = 0 then none else some ⟨List.replicate capacity .zero, ⟨1, {}⟩⟩

/-- The loop of a lookup, with the slots it leaves. -/
def lookupLoop (key : Bytes) (nowMs : Int64) (allowStale : Bool) :
    List Slot → Nat → Option (CacheLookup × Nat × List Slot)
  | [], _ => some (.miss, sizeMax, [])
  | slot :: rest, i => do
    let same ← sameKey slot key
    if !same || !slot.hasValue then
      let (result, index, left) ← lookupLoop key nowMs allowStale rest (i + 1)
      return (result, index, slot :: left)
    else if nowMs < slot.freshUntilMs then
      return (.fresh, i, { slot with lastUsedMs := nowMs } :: rest)
    else if allowStale && decide (nowMs < slot.staleUntilMs) then
      return (.stale, i, { slot with lastUsedMs := nowMs } :: rest)
    else return (.miss, sizeMax, slot :: rest)

def cacheLookup (store : Store) (key : Option Bytes) (nowMs : Int64) (allowStale : Bool) :
    Option (CacheLookup × Nat × Store) :=
  if !validKey key || decide (nowMs < 0) then some (.miss, sizeMax, store)
  else do
    let key ← key
    let (result, index, entries) ← lookupLoop key nowMs allowStale store.entries 0
    return (result, index, ⟨entries, { store.control with stats := store.control.stats.countLookup result }⟩)

/-- The loop of `find_refresh_slot`. -/
def findRefreshSlotLoop (key : Bytes) (nowMs : Int64) :
    List Slot → Nat → Nat → Nat → Int64 → Option (Nat × Bool)
  | [], _, empty, victim, _ => some (if empty != sizeMax then empty else victim, false)
  | slot :: rest, i, empty, victim, victimLastUsed => do
    let same ← sameKey slot key
    if same then return (i, true)
    else if !slot.occupied && empty == sizeMax then
      findRefreshSlotLoop key nowMs rest (i + 1) i victim victimLastUsed
    else if slot.occupied && !slot.refreshing && decide (nowMs ≥ slot.staleUntilMs) &&
        (victim == sizeMax || decide (slot.lastUsedMs < victimLastUsed)) then
      findRefreshSlotLoop key nowMs rest (i + 1) empty i slot.lastUsedMs
    else findRefreshSlotLoop key nowMs rest (i + 1) empty victim victimLastUsed

def noTicket : Ticket := ⟨sizeMax, 0⟩

/-- The slot claimed for a new key, or the existing one. -/
def claimSlot (slot : Slot) (existing : Bool) (key : Bytes) (nowMs : Int64) : Option Slot :=
  if existing then some slot
  else do
    let buffer ← Slot.zero.key.write key
    return { Slot.zero with key := buffer, keyLength := key.length, occupied := true, lastUsedMs := nowMs }

def noteUnknownKid (slot : Slot) (unknownKid : Bool) (nowMs : Int64) : Slot :=
  if unknownKid then
    { slot with hasUnknownKidRefresh := true, lastUnknownKidRefreshMs := nowMs }
  else slot

/-- A refresh for an unknown key is too soon after the last one. -/
def coolingDown (slot : Slot) (existing : Bool) (nowMs : Int64) (unknownKid : Bool)
    (unknownKidCooldownMs : Int64) : Option Bool :=
  if existing && unknownKid && slot.hasUnknownKidRefresh then do
    let elapsed ← checkedSub nowMs slot.lastUnknownKidRefreshMs
    return decide (elapsed < unknownKidCooldownMs)
  else some false

def advanceSerial (serial : UInt64) : UInt64 :=
  if serial + 1 == 0 then 1 else serial + 1

def beginRefresh (store : Store) (key : Option Bytes) (nowMs : Int64) (unknownKid : Bool)
    (unknownKidCooldownMs : Int64) : Option (CacheRefreshResult × Ticket × Store) :=
  let stats := store.control.stats
  if !validKey key || decide (nowMs < 0) || decide (unknownKidCooldownMs < 0) then
    some (.invalidArgument, noTicket, store)
  else do
    let key ← key
    let (index, existing) ← findRefreshSlotLoop key nowMs store.entries 0 sizeMax sizeMax Int64.maxValue
    if index == sizeMax then
      return (.capacity, noTicket, store.withStats { stats with failures := increment stats.failures })
    let slot ← store.entries[index]?
    let suppressed :=
      store.withStats { stats with refreshSuppressions := increment stats.refreshSuppressions }
    if existing && slot.refreshing then return (.inProgress, noTicket, suppressed)
    let cooling ← coolingDown slot existing nowMs unknownKid unknownKidCooldownMs
    if cooling then return (.suppressed, noTicket, suppressed)
    let claimed ← claimSlot slot existing key nowMs
    let serial := store.control.nextRefreshSerial
    return (.started, ⟨index, serial⟩,
      { entries := store.entries.set index
          { noteUnknownKid claimed unknownKid nowMs with refreshing := true, refreshSerial := serial }
        control :=
          { nextRefreshSerial := advanceSerial serial
            stats :=
              { stats with
                evictions :=
                  if !existing && slot.occupied then increment stats.evictions else stats.evictions
                refreshes := increment stats.refreshes } } })

def isRefreshingLoop (key : Bytes) : List Slot → Option Bool
  | [] => some false
  | slot :: rest => do
    let same ← sameKey slot key
    if same then return slot.refreshing
    isRefreshingLoop key rest

def isRefreshing (store : Store) (key : Option Bytes) : Option Bool :=
  if !validKey key then some false
  else key.bind fun key => isRefreshingLoop key store.entries

def releaseSlot (slot : Slot) : Slot :=
  if slot.hasValue then { slot with refreshing := false } else .zero

/-- The payload replaces the first bytes of the old one. -/
def publishSlot (slot : Slot) (c : Publication) : Option Slot := do
  let payload ← c.payload
  let buffer ← slot.payload.write payload
  let freshUntil ← boundedAdd c.nowMs c.ttlMs
  let staleUntil ← if c.revalidationRequired then some freshUntil else boundedAdd freshUntil c.staleGraceMs
  return { slot with
    refreshing := false
    hasValue := true
    payload := buffer
    payloadLength := payload.length
    lastUsedMs := c.nowMs
    freshUntilMs := freshUntil
    staleUntilMs := staleUntil }

def Publication.rejected (c : Publication) : Bool :=
  decide (c.nowMs < 0) || decide (c.ttlMs < 0) || decide (c.staleGraceMs < 0) ||
    (c.success && c.cacheable && c.payload.all fun payload =>
      decide (payload.length = 0) || decide (cacheMaxPayloadSize < payload.length))

def completeRefresh (store : Store) (ticket : Ticket) (c : Publication) : Option (Bool × Store) :=
  if decide (store.entries.length ≤ ticket.entryIndex) || ticket.serial == 0 then some (false, store)
  else do
    let slot ← store.entries[ticket.entryIndex]?
    let stats := store.control.stats
    let failed := { stats with failures := increment stats.failures }
    if !slot.occupied || !slot.refreshing || slot.refreshSerial != ticket.serial then return (false, store)
    else if c.rejected then
      return (false, (store.withSlot ticket.entryIndex (releaseSlot slot)).withStats failed)
    else if !c.success then
      return (true, (store.withSlot ticket.entryIndex (releaseSlot slot)).withStats failed)
    else if !c.cacheable then return (true, store.withSlot ticket.entryIndex .zero)
    else
      let published ← publishSlot slot c
      return (true, store.withSlot ticket.entryIndex published)

def copyPayload (store : Store) (entryIndex : Nat) (outputSize : Nat) :
    Option (CacheCopyResult × Nat × Bytes) :=
  if store.entries.length ≤ entryIndex then some (.invalidArgument, 0, [])
  else do
    let slot ← store.entries[entryIndex]?
    if !slot.occupied || !slot.hasValue then return (.notFound, 0, [])
    else if outputSize < slot.payloadLength then return (.tooSmall, slot.payloadLength, [])
    else
      let bytes ← slot.payload.read slot.payloadLength
      return (.ok, slot.payloadLength, bytes)

/-! What the memory stands for. -/

def Slot.entry (s : Slot) : CacheEntry where
  key := s.key.contents s.keyLength
  payload := s.payload.contents s.payloadLength
  refreshSerial := s.refreshSerial.toNat
  freshUntilMs := s.freshUntilMs.toInt
  staleUntilMs := s.staleUntilMs.toInt
  lastUsedMs := s.lastUsedMs.toInt
  lastUnknownKidRefreshMs := s.lastUnknownKidRefreshMs.toInt
  occupied := s.occupied
  hasValue := s.hasValue
  refreshing := s.refreshing
  hasUnknownKidRefresh := s.hasUnknownKidRefresh

def Stats.counts (s : Stats) : CacheStats where
  freshHits := s.freshHits.toNat
  staleHits := s.staleHits.toNat
  misses := s.misses.toNat
  refreshes := s.refreshes.toNat
  refreshSuppressions := s.refreshSuppressions.toNat
  evictions := s.evictions.toNat
  failures := s.failures.toNat

def Store.cache (store : Store) : Cache where
  entries := store.entries.map Slot.entry
  control := ⟨store.control.nextRefreshSerial.toNat, store.control.stats.counts⟩

def Ticket.refresh (t : Ticket) : CacheRefresh :=
  ⟨t.entryIndex, t.serial.toNat⟩

def Publication.completion (c : Publication) : Completion where
  nowMs := c.nowMs.toInt
  success := c.success
  cacheable := c.cacheable
  revalidationRequired := c.revalidationRequired
  ttlMs := c.ttlMs.toInt
  staleGraceMs := c.staleGraceMs.toInt
  payload := c.payload.getD []

/-- An index, or none at all. -/
def slotAt (index : Nat) : Option Nat :=
  if index = sizeMax then none else some index

/-- The lengths lie within the buffers, and the clock of unknown keys is not
negative. -/
structure Slot.Valid (s : Slot) : Prop where
  keyLength_le : s.keyLength ≤ cacheMaxKeySize
  payloadLength_le : s.payloadLength ≤ cacheMaxPayloadSize
  unknownKid_nonneg : 0 ≤ s.lastUnknownKidRefreshMs.toInt

structure ValidSlots (slots : List Slot) : Prop where
  valid : ∀ s ∈ slots, s.Valid
  size : slots.length ≤ sizeMax

theorem Slot.Valid.zero : Slot.zero.Valid :=
  ⟨Nat.zero_le _, Nat.zero_le _, by decide⟩

@[simp] theorem Slot.zero_entry : Slot.zero.entry = CacheEntry.zero := rfl

section Values

variable {a b : Int64}

theorem decide_lt : decide (a < b) = decide (a.toInt < b.toInt) :=
  decide_eq_decide.mpr Int64.lt_iff_toInt_lt

theorem decide_le : decide (a ≤ b) = decide (a.toInt ≤ b.toInt) :=
  decide_eq_decide.mpr Int64.le_iff_toInt_le

theorem increment_toNat (counter : UInt64) :
    (increment counter).toNat = OAuthValidator.increment counter.toNat := by
  have hlt := counter.toNat_lt
  unfold increment OAuthValidator.increment uint64Max
  by_cases h : counter = 18446744073709551615
  · subst h
    rfl
  · have hne : counter.toNat ≠ 18446744073709551615 := fun heq => h (UInt64.toNat_inj.mp heq)
    have hne' : (counter != 18446744073709551615) = true := by simpa using h
    rw [if_pos hne', if_pos hne, UInt64.toNat_add]
    have hone : (1 : UInt64).toNat = 1 := rfl
    omega

theorem advanceSerial_toNat (serial : UInt64) :
    (advanceSerial serial).toNat = OAuthValidator.advanceSerial serial.toNat := by
  have hnext : (serial + 1).toNat = (serial.toNat + 1) % (uint64Max + 1) := by
    rw [UInt64.toNat_add]
    rfl
  unfold advanceSerial OAuthValidator.advanceSerial
  rw [← hnext]
  by_cases h : serial + 1 = 0
  · simp [h]
  · have hne : ¬ (serial + 1).toNat = 0 := fun heq => h (UInt64.toNat_inj.mp heq)
    rw [if_neg (by simpa using h), if_neg hne]

/-- The sum saturates, and no step on the way overflows. -/
theorem boundedAdd_refines (ha : 0 ≤ a.toInt) (hb : 0 ≤ b.toInt) :
    ∃ c, boundedAdd a b = some c ∧ c.toInt = OAuthValidator.boundedAdd a.toInt b.toInt ∧ 0 ≤ c.toInt := by
  have hmax : Int64.maxValue.toInt = int64Max := Int64.toInt_maxValue
  obtain ⟨room, hroom, hvalue⟩ := checkedSub_of_nonneg (a := Int64.maxValue) (by decide) ha
  rw [hmax] at hvalue
  simp only [boundedAdd, hroom, Option.bind_eq_bind, Option.bind_some, Int64.lt_iff_toInt_lt, hvalue,
    OAuthValidator.boundedAdd, gt_iff_lt]
  by_cases hover : int64Max - a.toInt < b.toInt
  · rw [if_pos hover, if_pos hover]
    exact ⟨_, rfl, hmax, by decide⟩
  · rw [if_neg hover, if_neg hover]
    have hbound : int64Max = 2 ^ 63 - 1 := rfl
    obtain ⟨c, hc, hsum⟩ := checkedAdd_of_range (a := a) (b := b) (by omega) (by omega)
    exact ⟨c, hc, hsum, by omega⟩

theorem validKey_eq (key : Option Bytes) : validKey key = OAuthValidator.validKey (key.getD []) := by
  cases key <;> rfl

/-- A key that passes the check is given and fits the buffer. -/
theorem exists_of_validKey {key : Option Bytes} (h : OAuthValidator.validKey (key.getD []) = true) :
    ∃ text, key = some text ∧ text.length ≤ cacheMaxKeySize := by
  simp only [OAuthValidator.validKey, Bool.and_eq_true, decide_eq_true_eq] at h
  cases key with
  | none => exact absurd h.1 (Nat.lt_irrefl 0)
  | some text => exact ⟨text, rfl, h.2⟩

theorem sameKey_eq {slot : Slot} (h : slot.Valid) {key : Bytes} (hkey : key.length ≤ cacheMaxKeySize) :
    sameKey slot key = some (OAuthValidator.sameKey slot.entry key) := by
  unfold sameKey OAuthValidator.sameKey
  show _ = some (slot.occupied && slot.key.contents slot.keyLength == key)
  cases slot.occupied with
  | false => rfl
  | true =>
    by_cases hlength : slot.keyLength = key.length
    · simp [hlength, Buffer.read_of_le _ hkey]
    · have hne : slot.key.contents slot.keyLength ≠ key := by
        rintro rfl
        exact hlength (slot.key.contents_length h.keyLength_le).symm
      simp [hlength, hne]

end Values

section Operations

variable {store : Store} {slots : List Slot} {key : Bytes} {nowMs : Int64}

theorem ValidSlots.set (h : ValidSlots slots) {slot : Slot} (hslot : slot.Valid) (i : Nat) :
    ValidSlots (slots.set i slot) := by
  refine ⟨fun s hs => ?_, by simpa using h.size⟩
  rcases List.mem_or_eq_of_mem_set hs with hs | rfl
  · exact h.valid s hs
  · exact hslot

theorem ValidSlots.get (h : ValidSlots slots) {i : Nat} {slot : Slot} (hslot : slots[i]? = some slot) :
    slot.Valid ∧ i < sizeMax :=
  ⟨h.valid slot (List.mem_of_getElem? hslot),
    Nat.lt_of_lt_of_le (List.getElem?_eq_some_iff.mp hslot).1 h.size⟩

theorem Store.withSlot_cache (i : Nat) (slot : Slot) :
    (store.withSlot i slot).cache = store.cache.withEntry i slot.entry := by
  simp [Store.withSlot, Store.cache, Cache.withEntry, List.map_set]

theorem Store.withStats_cache (stats : Stats) :
    (store.withStats stats).cache = store.cache.withStats stats.counts := rfl

/-- What the loop of a lookup finds and leaves. -/
theorem lookupLoop_refines (hkey : key.length ≤ cacheMaxKeySize) (nowMs : Int64) (allowStale : Bool)
    (hslots : ∀ s ∈ slots, s.Valid) (i : Nat) :
    ∃ left found, lookupLoop key nowMs allowStale slots i =
        some (found.1, found.2.getD sizeMax, left) ∧
      lookupFrom key nowMs.toInt allowStale (slots.map Slot.entry) i = found ∧
      ((found.2 = none ∧ left = slots) ∨ ∃ k slot, found.2 = some (i + k) ∧ slots[k]? = some slot ∧
        left = slots.set k { slot with lastUsedMs := nowMs }) := by
  induction slots generalizing i with
  | nil => exact ⟨[], (.miss, none), rfl, rfl, Or.inl ⟨rfl, rfl⟩⟩
  | cons slot rest ih =>
    obtain ⟨left, found, hloop, hfrom, hleft⟩ := ih (fun s hs => hslots s (List.mem_cons_of_mem _ hs)) (i + 1)
    have hsame := sameKey_eq (hslots slot List.mem_cons_self) hkey
    have hfresh : (nowMs < slot.freshUntilMs) = (nowMs.toInt < slot.entry.freshUntilMs) :=
      propext Int64.lt_iff_toInt_lt
    have hstale : decide (nowMs < slot.staleUntilMs) = decide (nowMs.toInt < slot.entry.staleUntilMs) := decide_lt
    simp only [lookupLoop, hsame, hloop, Option.bind_eq_bind, Option.bind_some, List.map_cons, lookupFrom, hfrom,
      hfresh, hstale, show slot.entry.hasValue = slot.hasValue from rfl]
    by_cases hskip : (!OAuthValidator.sameKey slot.entry key || !slot.hasValue) = true
    · rw [if_pos hskip, if_pos hskip]
      refine ⟨slot :: left, found, rfl, rfl, ?_⟩
      rcases hleft with ⟨hnone, rfl⟩ | ⟨k, s, hk, hs, rfl⟩
      · exact Or.inl ⟨hnone, rfl⟩
      · exact Or.inr ⟨k + 1, s, by rw [hk]; congr 1; omega, hs, rfl⟩
    · rw [if_neg hskip, if_neg hskip]
      have htouched {result : CacheLookup} : ∃ left found, some (result, i, { slot with lastUsedMs := nowMs } :: rest) =
            some (found.1, found.2.getD sizeMax, left) ∧ (result, some i) = found ∧
          ((found.2 = none ∧ left = slot :: rest) ∨ ∃ k s, found.2 = some (i + k) ∧
            (slot :: rest)[k]? = some s ∧ left = (slot :: rest).set k { s with lastUsedMs := nowMs }) :=
        ⟨_, (result, some i), rfl, rfl, Or.inr ⟨0, slot, rfl, rfl, rfl⟩⟩
      split_ifs
      · exact htouched
      · exact htouched
      · exact ⟨slot :: rest, (.miss, none), rfl, rfl, Or.inl ⟨rfl, rfl⟩⟩

theorem failed_counts (stats : Stats) :
    Stats.counts { stats with failures := increment stats.failures } =
      { stats.counts with failures := OAuthValidator.increment stats.counts.failures } := by
  simp [Stats.counts, increment_toNat]

theorem suppressed_counts (stats : Stats) :
    Stats.counts { stats with refreshSuppressions := increment stats.refreshSuppressions } =
      { stats.counts with
        refreshSuppressions := OAuthValidator.increment stats.counts.refreshSuppressions } := by
  simp [Stats.counts, increment_toNat]

theorem countLookup_counts (stats : Stats) (result : CacheLookup) :
    (stats.countLookup result).counts = stats.counts.countLookup result := by
  cases result <;> simp [Stats.countLookup, Stats.counts, CacheStats.countLookup, increment_toNat]

/-- A lookup in memory. -/
theorem cacheLookup_refines (h : ValidSlots store.entries) (key : Option Bytes) (nowMs : Int64)
    (allowStale : Bool) :
    ∃ result index store', cacheLookup store key nowMs allowStale = some (result, index, store') ∧
      ValidSlots store'.entries ∧ OAuthValidator.cacheLookup store.cache (key.getD []) nowMs.toInt allowStale =
        (result, slotAt index, store'.cache) := by
  have hnow : decide (nowMs < 0) = decide (nowMs.toInt < 0) := decide_lt
  unfold cacheLookup OAuthValidator.cacheLookup
  rw [validKey_eq, hnow]
  by_cases hbad : (!OAuthValidator.validKey (key.getD []) || decide (nowMs.toInt < 0)) = true
  · rw [if_pos hbad, if_pos hbad]
    exact ⟨_, _, _, rfl, h, rfl⟩
  · rw [if_neg hbad, if_neg hbad]
    simp only [Bool.or_eq_true, Bool.not_eq_true', not_or, Bool.not_eq_false] at hbad
    obtain ⟨key, rfl, hkey⟩ := exists_of_validKey hbad.1
    obtain ⟨left, found, hloop, hfrom, hleft⟩ :=
      lookupLoop_refines hkey nowMs allowStale h.valid 0
    simp only [Option.bind_eq_bind, Option.bind_some, hloop, Option.getD_some,
      show store.cache.entries = store.entries.map Slot.entry from rfl, hfrom]
    refine ⟨_, _, _, rfl, ?_, ?_⟩
    · rcases hleft with ⟨_, rfl⟩ | ⟨k, slot, _, hslot, rfl⟩
      · exact h
      · obtain ⟨hvalid, _⟩ := h.get hslot
        refine h.set ?_ k
        exact ⟨hvalid.keyLength_le, hvalid.payloadLength_le, hvalid.unknownKid_nonneg⟩
    · rcases hleft with ⟨hnone, rfl⟩ | ⟨k, slot, hk, hslot, rfl⟩
      · simp [hnone, slotAt, Cache.withStats, Store.cache, countLookup_counts]
      · obtain ⟨_, hlt⟩ := h.get hslot
        have hentry : (store.entries.map Slot.entry)[k]? = some slot.entry := by simp [hslot]
        rw [Nat.zero_add] at hk
        simp only [hk, slotAt, Option.getD_some, Cache.touch, Store.cache, hentry, Cache.withEntry,
          Cache.withStats, countLookup_counts, List.map_set, if_neg (Nat.ne_of_lt hlt)]
        rfl

/-- The two sentinels stand for what has not been found. -/
theorem findRefreshSlotLoop_refines (hkey : key.length ≤ cacheMaxKeySize) (nowMs : Int64)
    (hslots : ∀ s ∈ slots, s.Valid) {capacity : Nat} (hsize : capacity ≤ sizeMax) (i : Nat)
    (empty victim : Option Nat) (victimLastUsed : Int64) (hroom : i + slots.length ≤ capacity)
    (hempty : ∀ e, empty = some e → e < capacity) (hvictim : ∀ v, victim = some v → v < capacity) :
    ∃ found existing, findRefreshSlotLoop key nowMs slots i (empty.getD sizeMax) (victim.getD sizeMax)
        victimLastUsed = some (found.getD sizeMax, existing) ∧
      findRefreshSlotFrom key nowMs.toInt (slots.map Slot.entry) i empty victim victimLastUsed.toInt =
        (found, existing) ∧ ∀ f, found = some f → f < capacity := by
  have hnone {o : Option Nat} (ho : ∀ e, o = some e → e < capacity) :
      (o.getD sizeMax == sizeMax) = o.isNone := by
    cases o with
    | none => rfl
    | some e => simpa using Nat.ne_of_lt (Nat.lt_of_lt_of_le (ho e rfl) hsize)
  induction slots generalizing i empty victim victimLastUsed with
  | nil =>
    refine ⟨if empty.isSome then empty else victim, false, ?_, rfl, ?_⟩
    · cases empty with
      | none => simp [findRefreshSlotLoop]
      | some e => simp [findRefreshSlotLoop, Nat.ne_of_lt (Nat.lt_of_lt_of_le (hempty e rfl) hsize)]
    · split
      · exact hempty
      · exact hvictim
  | cons slot rest ih =>
    have hrest := fun s hs => hslots s (List.mem_cons_of_mem slot hs)
    have hi : i < capacity := by
      simp only [List.length_cons] at hroom
      omega
    have hroom' : i + 1 + rest.length ≤ capacity := by
      simp only [List.length_cons] at hroom
      omega
    have hself : ∀ e, some i = some e → e < capacity := fun e he => Option.some.inj he ▸ hi
    have hsame := sameKey_eq (hslots slot List.mem_cons_self) hkey
    have hstale : decide (nowMs ≥ slot.staleUntilMs) = decide (nowMs.toInt ≥ slot.entry.staleUntilMs) := decide_le
    have hused : decide (slot.lastUsedMs < victimLastUsed) =
        decide (slot.entry.lastUsedMs < victimLastUsed.toInt) := decide_lt
    simp only [findRefreshSlotLoop, hsame, Option.bind_eq_bind, Option.bind_some, List.map_cons,
      findRefreshSlotFrom, hnone hempty, hnone hvictim, hstale, hused,
      show slot.entry.occupied = slot.occupied from rfl, show slot.entry.refreshing = slot.refreshing from rfl]
    split_ifs
    · exact ⟨some i, true, rfl, rfl, hself⟩
    · exact ih hrest (i + 1) (some i) victim victimLastUsed hroom' hself hvictim
    · exact ih hrest (i + 1) empty (some i) slot.lastUsedMs hroom' hempty hself
    · exact ih hrest (i + 1) empty victim victimLastUsed hroom' hempty hvictim

theorem coolingDown_refines {slot : Slot} (hslot : slot.Valid) (hnow : 0 ≤ nowMs.toInt)
    (existing unknownKid : Bool) (cooldownMs : Int64) :
    coolingDown slot existing nowMs unknownKid cooldownMs =
      some (existing && unknownKid && slot.entry.hasUnknownKidRefresh &&
        decide (nowMs.toInt - slot.entry.lastUnknownKidRefreshMs < cooldownMs.toInt)) := by
  obtain ⟨elapsed, helapsed, hvalue⟩ := checkedSub_of_nonneg hnow hslot.unknownKid_nonneg
  unfold coolingDown
  show _ = some (existing && unknownKid && slot.hasUnknownKidRefresh &&
    decide (nowMs.toInt - slot.lastUnknownKidRefreshMs.toInt < cooldownMs.toInt))
  cases existing && unknownKid && slot.hasUnknownKidRefresh with
  | false => rfl
  | true => simp [helapsed, Int64.lt_iff_toInt_lt, hvalue]

theorem claimSlot_refines {slot : Slot} (hslot : slot.Valid) (hkey : key.length ≤ cacheMaxKeySize)
    (existing : Bool) (nowMs : Int64) :
    ∃ claimed, claimSlot slot existing key nowMs = some claimed ∧ claimed.Valid ∧
      claimed.entry = claimEntry slot.entry existing key nowMs.toInt := by
  cases existing with
  | true => exact ⟨slot, rfl, hslot, rfl⟩
  | false =>
    obtain ⟨buffer, hwrite, hcontents⟩ := Slot.zero.key.write_of_le hkey
    refine ⟨{ Slot.zero with key := buffer, keyLength := key.length, occupied := true, lastUsedMs := nowMs },
      ?_, ⟨hkey, Nat.zero_le _, Slot.Valid.zero.unknownKid_nonneg⟩, ?_⟩
    · simp [claimSlot, hwrite]
    · simp only [claimEntry, Slot.entry, hcontents]
      rfl

theorem noteUnknownKid_refines {slot : Slot} (hslot : slot.Valid) (hnow : 0 ≤ nowMs.toInt) (unknownKid : Bool) :
    (noteUnknownKid slot unknownKid nowMs).Valid ∧
      (noteUnknownKid slot unknownKid nowMs).entry =
        OAuthValidator.noteUnknownKid slot.entry unknownKid nowMs.toInt := by
  cases unknownKid with
  | true => exact ⟨⟨hslot.keyLength_le, hslot.payloadLength_le, hnow⟩, rfl⟩
  | false => exact ⟨hslot, rfl⟩

theorem started_cache (index : Nat) (slot : Slot) (evicted : Bool) :
    Store.cache
      { entries := store.entries.set index
          { slot with refreshing := true, refreshSerial := store.control.nextRefreshSerial }
        control :=
          { nextRefreshSerial := advanceSerial store.control.nextRefreshSerial
            stats :=
              { store.control.stats with
                evictions := if evicted then increment store.control.stats.evictions
                  else store.control.stats.evictions
                refreshes := increment store.control.stats.refreshes } } } =
      { entries := store.cache.entries.set index
          { slot.entry with refreshing := true, refreshSerial := store.cache.control.nextRefreshSerial }
        control :=
          { nextRefreshSerial := OAuthValidator.advanceSerial store.cache.control.nextRefreshSerial
            stats :=
              { store.cache.control.stats with
                evictions := if evicted then OAuthValidator.increment store.cache.control.stats.evictions
                  else store.cache.control.stats.evictions
                refreshes := OAuthValidator.increment store.cache.control.stats.refreshes } } } := by
  cases evicted <;>
    simp [Store.cache, List.map_set, Slot.entry, Stats.counts, increment_toNat, advanceSerial_toNat]

/-- The beginning of a refresh in memory. -/
theorem beginRefresh_refines (h : ValidSlots store.entries) (key : Option Bytes) (nowMs : Int64)
    (unknownKid : Bool) (cooldownMs : Int64) :
    ∃ result ticket store', beginRefresh store key nowMs unknownKid cooldownMs = some (result, ticket, store') ∧
      ValidSlots store'.entries ∧
      cacheBeginRefresh store.cache (key.getD []) nowMs.toInt unknownKid cooldownMs.toInt =
        (result, ticket.refresh, store'.cache) := by
  have hnow : decide (nowMs < 0) = decide (nowMs.toInt < 0) := decide_lt
  have hcooldown : decide (cooldownMs < 0) = decide (cooldownMs.toInt < 0) := decide_lt
  unfold beginRefresh cacheBeginRefresh
  rw [validKey_eq, hnow, hcooldown]
  by_cases hbad : (!OAuthValidator.validKey (key.getD []) || decide (nowMs.toInt < 0) ||
      decide (cooldownMs.toInt < 0)) = true
  · rw [if_pos hbad, if_pos hbad]
    exact ⟨_, _, _, rfl, h, rfl⟩
  · rw [if_neg hbad, if_neg hbad]
    simp only [Bool.or_eq_true, Bool.not_eq_true', not_or, Bool.not_eq_false, decide_eq_true_eq,
      Int.not_lt] at hbad
    obtain ⟨⟨hvalid, hnonneg⟩, _⟩ := hbad
    obtain ⟨key, rfl, hkey⟩ := exists_of_validKey hvalid
    obtain ⟨found, existing, hloop, hfind, hbound⟩ := findRefreshSlotLoop_refines hkey nowMs h.valid h.size 0
      none none Int64.maxValue (by simp) (by simp) (by simp)
    have hfind : findRefreshSlot store.cache key nowMs.toInt = (found, existing) := hfind
    simp only [Option.getD_none] at hloop
    simp only [Option.getD_some, hfind, Option.bind_eq_bind, Option.bind_some, hloop]
    cases found with
    | none =>
      refine ⟨.capacity, noTicket, _, rfl, h, ?_⟩
      rw [Store.withStats_cache, failed_counts]
      rfl
    | some index =>
      have hlt := hbound index rfl
      have hne : (index == sizeMax) = false := by
        simpa using Nat.ne_of_lt (Nat.lt_of_lt_of_le hlt h.size)
      obtain ⟨slot, hget⟩ : ∃ slot, store.entries[index]? = some slot := ⟨_, List.getElem?_eq_getElem hlt⟩
      obtain ⟨hslot, _⟩ := h.get hget
      have hentry : store.cache.entries.getD index .zero = slot.entry := by
        simp [Store.cache, hget]
      have hcooling := coolingDown_refines hslot hnonneg existing unknownKid cooldownMs
      obtain ⟨claimed, hclaim, hclaimed, hclaimedEntry⟩ := claimSlot_refines hslot hkey existing nowMs
      obtain ⟨hnoted, hnotedEntry⟩ := noteUnknownKid_refines hclaimed hnonneg unknownKid
      simp only [Option.getD_some, hne, Bool.false_eq_true, if_false, hget, Option.bind_some, hentry, hcooling,
        hclaim, show slot.entry.refreshing = slot.refreshing from rfl]
      by_cases hbusy : (existing && slot.refreshing) = true
      · rw [if_pos hbusy, if_pos hbusy]
        exact ⟨_, _, _, rfl, h, by rw [Store.withStats_cache, suppressed_counts]; rfl⟩
      rw [if_neg hbusy, if_neg hbusy]
      by_cases hsoon : (existing && unknownKid && slot.entry.hasUnknownKidRefresh &&
          decide (nowMs.toInt - slot.entry.lastUnknownKidRefreshMs < cooldownMs.toInt)) = true
      · rw [if_pos hsoon, if_pos hsoon]
        exact ⟨_, _, _, rfl, h, by rw [Store.withStats_cache, suppressed_counts]; rfl⟩
      rw [if_neg hsoon, if_neg hsoon, ← hclaimedEntry, ← hnotedEntry]
      refine ⟨_, _, _, rfl, ?_, ?_⟩
      · refine h.set ?_ index
        exact ⟨hnoted.keyLength_le, hnoted.payloadLength_le, hnoted.unknownKid_nonneg⟩
      · rw [started_cache]
        rfl

theorem isRefreshingLoop_refines (hkey : key.length ≤ cacheMaxKeySize) (hslots : ∀ s ∈ slots, s.Valid) :
    isRefreshingLoop key slots =
      some (((slots.map Slot.entry).find? (OAuthValidator.sameKey · key)).any CacheEntry.refreshing) := by
  induction slots with
  | nil => rfl
  | cons slot rest ih =>
    have hsame := sameKey_eq (hslots slot List.mem_cons_self) hkey
    have hrest := ih fun s hs => hslots s (List.mem_cons_of_mem slot hs)
    simp only [isRefreshingLoop, hsame, hrest, Option.bind_eq_bind, Option.bind_some, List.map_cons, List.find?_cons]
    cases OAuthValidator.sameKey slot.entry key <;> rfl

theorem isRefreshing_refines (h : ValidSlots store.entries) (key : Option Bytes) :
    isRefreshing store key = some (cacheIsRefreshing store.cache (key.getD [])) := by
  unfold isRefreshing cacheIsRefreshing
  rw [validKey_eq]
  by_cases hbad : (!OAuthValidator.validKey (key.getD [])) = true
  · rw [if_pos hbad, if_pos hbad]
  · rw [if_neg hbad, if_neg hbad]
    simp only [Bool.not_eq_true', Bool.not_eq_false] at hbad
    obtain ⟨key, rfl, hkey⟩ := exists_of_validKey hbad
    rw [Option.bind_some, isRefreshingLoop_refines hkey h.valid, Option.getD_some]
    show some (Option.any _ (List.find? _ store.cache.entries)) = _
    cases store.cache.entries.find? (OAuthValidator.sameKey · key) <;> rfl

theorem releaseSlot_refines {slot : Slot} (hslot : slot.Valid) :
    (releaseSlot slot).Valid ∧ (releaseSlot slot).entry = releaseEntry slot.entry := by
  have hvalue : slot.entry.hasValue = slot.hasValue := rfl
  unfold releaseSlot releaseEntry
  rw [hvalue]
  by_cases hv : slot.hasValue = true
  · rw [if_pos hv, if_pos hv]
    exact ⟨⟨hslot.keyLength_le, hslot.payloadLength_le, hslot.unknownKid_nonneg⟩, rfl⟩
  · rw [if_neg hv, if_neg hv]
    exact ⟨.zero, rfl⟩

theorem Publication.rejected_eq (c : Publication) : c.rejected = c.completion.rejected := by
  unfold Publication.rejected Completion.rejected
  have hnow : decide (c.nowMs < 0) = decide (c.completion.nowMs < 0) := decide_lt
  have httl : decide (c.ttlMs < 0) = decide (c.completion.ttlMs < 0) := decide_lt
  have hgrace : decide (c.staleGraceMs < 0) = decide (c.completion.staleGraceMs < 0) := decide_lt
  rw [hnow, httl, hgrace]
  show _ = (_ || (c.success && c.cacheable && (decide ((c.payload.getD []).length = 0) ||
    decide ((c.payload.getD []).length > cacheMaxPayloadSize))))
  cases c.payload <;> rfl

/-- The new payload hides what is left of the old one. -/
theorem publishSlot_refines {slot : Slot} (hslot : slot.Valid) {c : Publication} (haccepted : c.rejected = false)
    (hsuccess : c.success = true) (hcacheable : c.cacheable = true) :
    ∃ published, publishSlot slot c = some published ∧ published.Valid ∧
      published.entry = publishEntry slot.entry c.completion := by
  have htimes : (0 ≤ c.nowMs.toInt ∧ 0 ≤ c.ttlMs.toInt) ∧ 0 ≤ c.staleGraceMs.toInt := by
    have hnot := haccepted
    rw [Publication.rejected_eq, Completion.rejected] at hnot
    simp only [Bool.or_eq_false_iff] at hnot
    obtain ⟨⟨⟨hnow, httl⟩, hgrace⟩, _⟩ := hnot
    exact ⟨⟨Int.not_lt.mp (of_decide_eq_false hnow), Int.not_lt.mp (of_decide_eq_false httl)⟩,
      Int.not_lt.mp (of_decide_eq_false hgrace)⟩
  obtain ⟨⟨hnow, httl⟩, hgrace⟩ := htimes
  cases hp : c.payload with
  | none => simp [Publication.rejected, hp, hsuccess, hcacheable] at haccepted
  | some payload =>
    have hlength : payload.length ≤ cacheMaxPayloadSize := by
      simp only [Publication.rejected, hp, hsuccess, hcacheable, Bool.and_self, Option.all_some, Bool.true_and,
        Bool.or_eq_false_iff, decide_eq_false_iff_not, Nat.not_lt] at haccepted
      exact haccepted.2.2
    obtain ⟨buffer, hwrite, hcontents⟩ := slot.payload.write_of_le hlength
    obtain ⟨freshUntil, hfresh, hfreshValue, hfreshNonneg⟩ := boundedAdd_refines hnow httl
    obtain ⟨staleUntil, hstale, hstaleValue, _⟩ := boundedAdd_refines hfreshNonneg hgrace
    simp only [publishSlot, hp, Option.bind_eq_bind, Option.bind_some, hwrite, hfresh]
    cases hrevalidation : c.revalidationRequired with
    | true =>
      simp only [if_true]
      refine ⟨_, rfl, ⟨hslot.keyLength_le, hlength, hslot.unknownKid_nonneg⟩, ?_⟩
      simp [Slot.entry, publishEntry, Publication.completion, hp, hcontents, hfreshValue, hrevalidation]
    | false =>
      simp only [Bool.false_eq_true, if_false, hstale, Option.bind_some]
      refine ⟨_, rfl, ⟨hslot.keyLength_le, hlength, hslot.unknownKid_nonneg⟩, ?_⟩
      simp [Slot.entry, publishEntry, Publication.completion, hp, hcontents, hfreshValue, hstaleValue,
        hrevalidation]

/-- The completion of a refresh in memory. -/
theorem completeRefresh_refines (h : ValidSlots store.entries) (ticket : Ticket) (c : Publication) :
    ∃ accepted store', completeRefresh store ticket c = some (accepted, store') ∧ ValidSlots store'.entries ∧
      cacheCompleteRefresh store.cache ticket.refresh c.completion = (accepted, store'.cache) := by
  have hlength : store.cache.entries.length = store.entries.length := List.length_map _
  have hserial : (ticket.serial == 0) = decide (ticket.refresh.serial = 0) := by
    rw [Bool.eq_iff_iff, beq_iff_eq, decide_eq_true_eq]
    exact UInt64.toNat_inj.symm
  have hindex : decide (ticket.refresh.entryIndex ≥ store.entries.length) =
      decide (store.entries.length ≤ ticket.entryIndex) := rfl
  unfold completeRefresh cacheCompleteRefresh
  rw [hlength, hindex, hserial]
  by_cases hbad : (decide (store.entries.length ≤ ticket.entryIndex) || decide (ticket.refresh.serial = 0)) = true
  · rw [if_pos hbad, if_pos hbad]
    exact ⟨_, _, rfl, h, rfl⟩
  · rw [if_neg hbad, if_neg hbad]
    simp only [Bool.or_eq_true, decide_eq_true_eq, not_or, Nat.not_le] at hbad
    obtain ⟨slot, hget⟩ : ∃ slot, store.entries[ticket.entryIndex]? = some slot :=
      ⟨_, List.getElem?_eq_getElem hbad.1⟩
    obtain ⟨hslot, _⟩ := h.get hget
    have hentry : store.cache.entries.getD ticket.refresh.entryIndex .zero = slot.entry := by
      simp [Store.cache, Ticket.refresh, hget]
    have howner : (slot.refreshSerial != ticket.serial) =
        decide (slot.entry.refreshSerial ≠ ticket.refresh.serial) := by
      rw [Bool.eq_iff_iff, bne_iff_ne, decide_eq_true_eq]
      exact not_congr UInt64.toNat_inj.symm
    obtain ⟨hreleased, hreleasedEntry⟩ := releaseSlot_refines hslot
    simp only [hget, Option.bind_eq_bind, Option.bind_some, hentry, howner, Publication.rejected_eq,
      show slot.entry.occupied = slot.occupied from rfl, show slot.entry.refreshing = slot.refreshing from rfl,
      show c.completion.success = c.success from rfl, show c.completion.cacheable = c.cacheable from rfl]
    by_cases hstranger : (!slot.occupied || !slot.refreshing ||
        decide (slot.entry.refreshSerial ≠ ticket.refresh.serial)) = true
    · rw [if_pos hstranger, if_pos hstranger]
      exact ⟨_, _, rfl, h, rfl⟩
    rw [if_neg hstranger, if_neg hstranger]
    cases hrejected : c.completion.rejected with
    | true =>
      refine ⟨_, _, rfl, h.set hreleased _, ?_⟩
      rw [Store.withStats_cache, failed_counts, Store.withSlot_cache, hreleasedEntry]
      rfl
    | false =>
      cases hsuccess : c.success with
      | false =>
        refine ⟨_, _, rfl, h.set hreleased _, ?_⟩
        rw [Store.withStats_cache, failed_counts, Store.withSlot_cache, hreleasedEntry]
        rfl
      | true =>
        cases hcacheable : c.cacheable with
        | false => exact ⟨_, _, rfl, h.set .zero _, by rw [Store.withSlot_cache]; rfl⟩
        | true =>
          obtain ⟨published, hpublish, hpublished, hpublishedEntry⟩ :=
            publishSlot_refines hslot ((Publication.rejected_eq c).trans hrejected) hsuccess hcacheable
          simp only [Bool.false_eq_true, if_false, Bool.not_true, hpublish, Option.bind_some]
          exact ⟨_, _, rfl, h.set hpublished _, by rw [Store.withSlot_cache, hpublishedEntry]; rfl⟩

theorem copyPayload_refines (h : ValidSlots store.entries) (entryIndex outputSize : Nat) :
    copyPayload store entryIndex outputSize = some (cacheCopyPayload store.cache entryIndex outputSize) := by
  unfold copyPayload cacheCopyPayload
  by_cases hout : store.entries.length ≤ entryIndex
  · have hnone : store.cache.entries[entryIndex]? = none := by simpa [Store.cache] using hout
    rw [if_pos hout, hnone]
  · obtain ⟨slot, hget⟩ : ∃ slot, store.entries[entryIndex]? = some slot :=
      ⟨_, List.getElem?_eq_getElem (Nat.not_le.mp hout)⟩
    have hentry : store.cache.entries[entryIndex]? = some slot.entry := by simp [Store.cache, hget]
    obtain ⟨hslot, _⟩ := h.get hget
    have hlength : slot.entry.payload.length = slot.payloadLength :=
      slot.payload.contents_length hslot.payloadLength_le
    rw [if_neg hout, hentry]
    simp only [hget, Option.bind_eq_bind, Option.bind_some, hlength, Buffer.read_of_le _ hslot.payloadLength_le,
      show slot.entry.occupied = slot.occupied from rfl, show slot.entry.hasValue = slot.hasValue from rfl]
    split_ifs <;> rfl

end Operations

/-! Runs of operations on the memory. -/

inductive Op
  | lookup (key : Option Bytes) (nowMs : Int64) (allowStale : Bool)
  | begin (key : Option Bytes) (nowMs : Int64) (unknownKid : Bool) (cooldownMs : Int64)
  | complete (ticket : Ticket) (c : Publication)

inductive Answer
  | lookup (result : CacheLookup) (index : Nat)
  | begin (result : CacheRefreshResult) (ticket : Ticket)
  | complete (accepted : Bool)

def Op.apply (op : Op) (store : Store) : Option (Answer × Store) :=
  match op with
  | .lookup key nowMs allowStale => do
    let (result, index, next) ← cacheLookup store key nowMs allowStale
    return (.lookup result index, next)
  | .begin key nowMs unknownKid cooldownMs => do
    let (result, ticket, next) ← beginRefresh store key nowMs unknownKid cooldownMs
    return (.begin result ticket, next)
  | .complete ticket c => do
    let (accepted, next) ← completeRefresh store ticket c
    return (.complete accepted, next)

def run : List Op → Store → Option (List Answer × Store)
  | [], store => some ([], store)
  | op :: rest, store => do
    let (answer, next) ← op.apply store
    let (answers, last) ← run rest next
    return (answer :: answers, last)

def Op.cacheOp : Op → CacheOp
  | .lookup key nowMs allowStale => .lookup (key.getD []) nowMs.toInt allowStale
  | .begin key nowMs unknownKid cooldownMs => .begin (key.getD []) nowMs.toInt unknownKid cooldownMs.toInt
  | .complete ticket c => .complete ticket.refresh c.completion

def Answer.cacheAnswer : Answer → CacheAnswer
  | .lookup result index => .lookup result (slotAt index)
  | .begin result ticket => .begin result ticket.refresh
  | .complete accepted => .complete accepted

/-- One operation on the memory is one operation of the model. -/
theorem Op.apply_refines {store : Store} (h : ValidSlots store.entries) (op : Op) :
    ∃ answer next, op.apply store = some (answer, next) ∧ ValidSlots next.entries ∧
      op.cacheOp.apply store.cache = (answer.cacheAnswer, next.cache) := by
  cases op with
  | lookup key nowMs allowStale =>
    obtain ⟨result, index, next, heq, hnext, hmodel⟩ := cacheLookup_refines h key nowMs allowStale
    exact ⟨.lookup result index, next, by simp [Op.apply, heq], hnext,
      by simp [Op.cacheOp, CacheOp.apply, hmodel, Answer.cacheAnswer]⟩
  | begin key nowMs unknownKid cooldownMs =>
    obtain ⟨result, ticket, next, heq, hnext, hmodel⟩ :=
      beginRefresh_refines h key nowMs unknownKid cooldownMs
    exact ⟨.begin result ticket, next, by simp [Op.apply, heq], hnext,
      by simp [Op.cacheOp, CacheOp.apply, hmodel, Answer.cacheAnswer]⟩
  | complete ticket c =>
    obtain ⟨accepted, next, heq, hnext, hmodel⟩ := completeRefresh_refines h ticket c
    exact ⟨.complete accepted, next, by simp [Op.apply, heq], hnext,
      by simp [Op.cacheOp, CacheOp.apply, hmodel, Answer.cacheAnswer]⟩

theorem stateAt_cons (cache : Cache) (op : CacheOp) (ops : List CacheOp) (n : Nat) :
    stateAt cache (op :: ops) (n + 1) = stateAt (op.apply cache).2 ops n := by
  simp [stateAt]

theorem answerAt_cons (cache : Cache) (op : CacheOp) (ops : List CacheOp) (n : Nat) :
    answerAt cache (op :: ops) (n + 1) = answerAt (op.apply cache).2 ops n := by
  simp [answerAt, stateAt_cons]

theorem run_refines {store : Store} (h : ValidSlots store.entries) (ops : List Op) :
    ∃ answers last, run ops store = some (answers, last) ∧ ValidSlots last.entries ∧
      last.cache = stateAt store.cache (ops.map Op.cacheOp) ops.length ∧
      ∀ n, answerAt store.cache (ops.map Op.cacheOp) n = answers[n]?.map Answer.cacheAnswer := by
  induction ops generalizing store with
  | nil => exact ⟨[], store, rfl, h, rfl, fun n => by simp [answerAt]⟩
  | cons op rest ih =>
    obtain ⟨answer, next, heq, hnext, hmodel⟩ := op.apply_refines h
    obtain ⟨answers, last, hrun, hlast, hstate, hanswers⟩ := ih hnext
    refine ⟨answer :: answers, last, by simp [run, heq, hrun], hlast, ?_, fun n => ?_⟩
    · rw [List.map_cons, List.length_cons, stateAt_cons, hmodel]
      exact hstate
    · cases n with
      | zero => simp [answerAt, stateAt, hmodel]
      | succ n =>
        rw [List.map_cons, answerAt_cons, hmodel]
        exact hanswers n

theorem cacheInit_refines {capacity : Nat} (hpos : 0 < capacity) (hsize : capacity ≤ sizeMax) :
    ∃ store, cacheInit capacity = some store ∧ ValidSlots store.entries ∧
      OAuthValidator.cacheInit capacity = some store.cache := by
  refine ⟨⟨List.replicate capacity .zero, ⟨1, {}⟩⟩, if_neg (Nat.ne_of_gt hpos),
    ⟨?_, by simpa using hsize⟩, ?_⟩
  · intro s hs
    rw [List.eq_of_mem_replicate hs]
    exact .zero
  · rw [OAuthValidator.cacheInit, if_neg (Nat.ne_of_gt hpos)]
    simp only [Store.cache, List.map_replicate, Slot.zero_entry]
    rfl

/-- Every run of operations on the memory is defined: no integer overflows and no
buffer is left. It answers and leaves what the model does, and a copy is the bytes
of the last document alone. -/
theorem memory_refines_cache {capacity : Nat} (hpos : 0 < capacity) (hsize : capacity ≤ sizeMax)
    (ops : List Op) :
    ∃ store cache answers last, cacheInit capacity = some store ∧
      OAuthValidator.cacheInit capacity = some cache ∧ run ops store = some (answers, last) ∧
      last.cache = stateAt cache (ops.map Op.cacheOp) ops.length ∧
      (∀ n, answerAt cache (ops.map Op.cacheOp) n = answers[n]?.map Answer.cacheAnswer) ∧
      (∀ key, isRefreshing last key =
        some (cacheIsRefreshing (stateAt cache (ops.map Op.cacheOp) ops.length) (key.getD []))) ∧
      ∀ entryIndex outputSize, copyPayload last entryIndex outputSize =
        some (cacheCopyPayload (stateAt cache (ops.map Op.cacheOp) ops.length) entryIndex outputSize) := by
  obtain ⟨store, hinit, hvalid, hmodel⟩ := cacheInit_refines hpos hsize
  obtain ⟨answers, last, hrun, hlast, hstate, hanswers⟩ := run_refines hvalid ops
  refine ⟨store, store.cache, answers, last, hinit, hmodel, hrun, hstate, hanswers, fun key => ?_,
    fun i size => ?_⟩
  · rw [isRefreshing_refines hlast, hstate]
  · rw [copyPayload_refines hlast, hstate]

namespace Sample

/-- A document of three bytes, replaced by one of one byte. -/
def shrinking : List Op :=
  let publish (nowMs : Int64) (payload : Bytes) : Publication := ⟨nowMs, true, true, false, 10, 0, some payload⟩
  [.begin (some [1]) 0 false 0, .complete ⟨0, 1⟩ (publish 0 [7, 8, 9]),
    .begin (some [1]) 20 false 0, .complete ⟨0, 2⟩ (publish 20 [5])]

end Sample

theorem memory_refines_cache_shrinking :
    ∃ store answers last, cacheInit 1 = some store ∧ run Sample.shrinking store = some (answers, last) ∧
      copyPayload last 0 16 = some (.ok, 1, [5]) := by
  obtain ⟨store, cache, answers, last, hinit, hmodel, hrun, _, _, _, hcopy⟩ :=
    @memory_refines_cache 1 (by decide) (by decide) Sample.shrinking
  refine ⟨store, answers, last, hinit, hrun, ?_⟩
  rw [hcopy]
  obtain rfl : ⟨[CacheEntry.zero], ⟨1, {}⟩⟩ = cache := Option.some.inj hmodel
  decide

end OAuthValidator.Memory
