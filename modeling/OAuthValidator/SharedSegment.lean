import OAuthValidator.Authorization

/-! The shared segment and the backends that attach it. Each backend has its own
static variables, the segment is created by the first one that attaches, and every
entry point attaches again before it takes the lock. Seen from outside this is one
cache, whose capacity the first backend has fixed. It refuses the backends that are
configured for another capacity, and those that the registry of the server has never
given the segment. -/

namespace OAuthValidator

/-- The sizes of the C structures. The largest segment can be addressed. -/
structure SegmentLayout where
  header : Nat
  entry : Nat
  entry_pos : 0 < entry
  fits : header + 256 * entry ≤ sizeMax

def sharedCacheSize (layout : SegmentLayout) (capacity : Int) : Option Nat :=
  if capacity < 8 || 256 < capacity || (sizeMax - layout.header) / layout.entry < capacity.toNat then none
  else some (layout.header + capacity.toNat * layout.entry)

def sharedCacheMagic : UInt32 := 0x50474f43
def sharedCacheVersion : UInt32 := 3

/-- A named segment, with the size it was created with. -/
structure Segment where
  size : Nat
  magic : UInt32
  version : UInt32
  capacity : UInt32
  cache : Cache

/-- `initialize_shared_cache`, for the capacity that the backend has configured. -/
def initializeSharedCache (layout : SegmentLayout) (capacity : Int) (memory : Segment) : Segment :=
  match sharedCacheSize layout capacity with
  | none => memory
  | some _ =>
    { memory with
      magic := sharedCacheMagic
      version := sharedCacheVersion
      capacity := capacity.toNat.toUInt32
      cache := ⟨List.replicate capacity.toNat .zero, ⟨1, {}⟩⟩ }

/-- What a request to the registry ends in: an error, NULL, or an address. -/
inductive DsmAnswer
  | raised
  | null
  | address (segment : Segment)

/-- The registry of the server. `GetNamedDSMSegment` is called at a moment, with the
segment that is registered under the name, a size and the function that initialises new
memory, and leaves a segment registered or none. -/
structure DsmRegistry where
  getNamedDsmSegment : Nat → Option Segment → Nat → (Segment → Segment) → DsmAnswer × Option Segment

/-- What is known of the registry. It may fail at any moment. -/
structure DsmRegistry.Documented (registry : DsmRegistry) : Prop where
  /-- A segment is attached only with the size it has. -/
  attaches : ∀ {moment segment size setUp address after},
    registry.getNamedDsmSegment moment (some segment) size setUp = (.address address, after) →
      segment.size = size ∧ address = segment ∧ after = some segment
  /-- A new segment is memory of the requested size, initialised. -/
  creates : ∀ {moment size setUp address after},
    registry.getNamedDsmSegment moment none size setUp = (.address address, after) →
      ∃ memory : Segment, memory.size = size ∧ address = setUp memory ∧ after = some address
  /-- A request that fails leaves what is registered. -/
  fails : ∀ {moment registered size setUp answer after},
    registry.getNamedDsmSegment moment registered size setUp = (answer, after) →
      (∀ address, answer ≠ .address address) → after = registered

/-- The static variables of a backend. -/
structure Backend where
  /-- `shared_state` is not NULL. -/
  attached : Bool
  configuredCapacity : Int

def Backend.start : Backend :=
  ⟨false, 32⟩

/-- The registered segment and the backends of the server. -/
structure SharedMemory where
  segment : Option Segment
  backend : Nat → Backend
  /-- How many events there were. -/
  moment : Nat

namespace SharedMemory

def start : SharedMemory :=
  ⟨none, fun _ => .start, 0⟩

def withBackend (w : SharedMemory) (b : Nat) (statics : Backend) : SharedMemory :=
  { w with backend := Function.update w.backend b statics }

/-- The segment a backend has attached has the capacity it is configured for. -/
def sameCapacity (w : SharedMemory) (capacity : Int) : Bool :=
  w.segment.any fun segment => segment.capacity == capacity.toNat.toUInt32

/-- `pg_oauth_shared_cache_configure_capacity`. The capacity is kept even when the
segment that is attached has another one. -/
def configureCapacity (layout : SegmentLayout) (w : SharedMemory) (b : Nat) (capacity : Int) :
    Bool × SharedMemory :=
  if (sharedCacheSize layout capacity).isNone then (false, w)
  else
    (!(w.backend b).attached || w.sameCapacity capacity,
      w.withBackend b { w.backend b with configuredCapacity := capacity })

/-- The request of a backend to the registry, for the capacity it is configured for. -/
def request (registry : DsmRegistry) (layout : SegmentLayout) (w : SharedMemory) (b : Nat) :
    Option (DsmAnswer × Option Segment) :=
  (sharedCacheSize layout (w.backend b).configuredCapacity).map fun size =>
    registry.getNamedDsmSegment w.moment w.segment size
      (initializeSharedCache layout (w.backend b).configuredCapacity)

/-- `pg_oauth_shared_cache_attach`; no answer means that the registry raised an error. -/
def attach (registry : DsmRegistry) (layout : SegmentLayout) (w : SharedMemory) (b : Nat) :
    Option Bool × SharedMemory :=
  let capacity := (w.backend b).configuredCapacity
  if (w.backend b).attached then (some (w.sameCapacity capacity), w)
  else
    match w.request registry layout b with
    | none => (some false, w)
    | some (.raised, after) => (none, { w with segment := after })
    | some (.null, after) => (some false, { w with segment := after })
    | some (.address segment, after) =>
      let w := { w with segment := after }
      if segment.magic != sharedCacheMagic || segment.version != sharedCacheVersion ||
          segment.capacity != capacity.toNat.toUInt32 || segment.capacity == 0 ||
          segment.cache.control.nextRefreshSerial == 0 then (some false, w)
      else (some true, w.withBackend b { w.backend b with attached := true })

end SharedMemory

/-- The entry points that attach first and then work on the cache under its lock. -/
inductive CacheCall
  | attach
  | io
  | stats
  | lookup (key : Bytes) (nowMs : Int) (allowStale : Bool) (outputSize : Nat)
  | beginRefresh (key : Bytes) (nowMs : Int) (unknownKid : Bool) (cooldownMs : Int)
  | completeRefresh (ticket : CacheRefresh) (c : Completion)
  /-- A wait up to its first check. -/
  | isRefreshing (key : Bytes)

namespace CacheCall

def Ans : CacheCall → Type
  | .attach => Bool
  | .io => Bool
  | .stats => Option CacheStats
  | .lookup _ _ _ _ => IoLookup
  | .beginRefresh _ _ _ _ => CacheRefreshResult × CacheRefresh
  | .completeRefresh _ _ => Bool
  | .isRefreshing _ => Option Bool

/-- What is returned when the cache is not attached. -/
def failure : (call : CacheCall) → call.Ans
  | .attach => false
  | .io => false
  | .stats => none
  | .lookup _ _ _ _ => missed
  | .beginRefresh _ _ _ _ => (.invalidArgument, noRefresh)
  | .completeRefresh _ _ => false
  | .isRefreshing _ => none

/-- What is done under the lock. -/
def act : (call : CacheCall) → Cache → call.Ans × Cache
  | .attach, cache => (true, cache)
  | .io, cache => (true, cache)
  | .stats, cache => (some cache.control.stats, cache)
  | .lookup key nowMs allowStale outputSize, cache => sharedLookup cache key nowMs allowStale outputSize
  | .beginRefresh key nowMs unknownKid cooldownMs, cache =>
    let r := cacheBeginRefresh cache key nowMs unknownKid cooldownMs
    ((r.1, r.2.1), r.2.2)
  | .completeRefresh ticket c, cache => cacheCompleteRefresh cache ticket c
  | .isRefreshing key, cache => (some (cacheIsRefreshing cache key), cache)

end CacheCall

namespace SharedMemory

/-- An entry point; no answer means that attaching raised an error. -/
def call (registry : DsmRegistry) (layout : SegmentLayout) (w : SharedMemory) (b : Nat) (call : CacheCall) :
    Option call.Ans × SharedMemory :=
  let attached := w.attach registry layout b
  match attached.1 with
  | none => (none, attached.2)
  | some false => (some call.failure, attached.2)
  | some true =>
    match attached.2.segment with
    | none => (some call.failure, attached.2)
    | some segment =>
      let done := call.act segment.cache
      (some done.1, { attached.2 with segment := some { segment with cache := done.2 } })

/-- The check that ends a wait, which goes to the segment without attaching again. -/
def recheck (w : SharedMemory) (b : Nat) (key : Bytes) : Option Bool :=
  if (w.backend b).attached then w.segment.map fun segment => cacheIsRefreshing segment.cache key
  else none

end SharedMemory

inductive SharedEvent
  | configure (b : Nat) (capacity : Int)
  | call (b : Nat) (call : CacheCall)

namespace SharedMemory

def step (registry : DsmRegistry) (layout : SegmentLayout) (w : SharedMemory) (event : SharedEvent) :
    SharedMemory :=
  let after := match event with
    | .configure b capacity => (w.configureCapacity layout b capacity).2
    | .call b call => (w.call registry layout b call).2
  { after with moment := w.moment + 1 }

def run (registry : DsmRegistry) (layout : SegmentLayout) (events : List SharedEvent) : SharedMemory :=
  events.foldl (step registry layout) .start

/-- The segment that the registry would give a backend. -/
def offered (registry : DsmRegistry) (layout : SegmentLayout) (w : SharedMemory) (b : Nat) : Option Segment :=
  match w.request registry layout b with
  | some (.address segment, _) => some segment
  | _ => none

/-- The registry supplies the segment to the backend of an event. -/
def supplied (registry : DsmRegistry) (layout : SegmentLayout) (w : SharedMemory) : SharedEvent → Bool
  | .configure _ _ => false
  | .call b _ => (w.offered registry layout b).isSome

/-- The events from a state on, with what the registry does at each. -/
def log (registry : DsmRegistry) (layout : SegmentLayout) :
    SharedMemory → List SharedEvent → List (SharedEvent × Bool)
  | _, [] => []
  | w, event :: events =>
    (event, w.supplied registry layout event) :: log registry layout (w.step registry layout event) events

end SharedMemory

/-! What the segment is for. -/

/-- One cache with its capacity, once a backend has got it, the capacity that each
backend wants, and the backends that have got it. -/
structure Service where
  cache : Option (Int × Cache)
  wanted : Nat → Int
  joined : Nat → Bool

namespace Service

def start : Service :=
  ⟨none, fun _ => 32, fun _ => false⟩

/-- The cache as a backend wants it, which it may be the first to ask for. -/
def cacheFor (s : Service) (b : Nat) : Option Cache :=
  match s.cache with
  | none => some ⟨List.replicate (s.wanted b).toNat .zero, ⟨1, {}⟩⟩
  | some (capacity, cache) => if capacity = s.wanted b then some cache else none

/-- The cache that a backend is served from. Only a backend that has not joined depends
on being supplied. -/
def servedFrom (s : Service) (supplied : Bool) (b : Nat) : Option Cache :=
  if s.joined b || supplied then s.cacheFor b else none

def step (s : Service) (supplied : Bool) : SharedEvent → Service
  | .configure b capacity =>
    if 8 ≤ capacity ∧ capacity ≤ 256 then { s with wanted := Function.update s.wanted b capacity } else s
  | .call b call =>
    match s.servedFrom supplied b with
    | none => s
    | some cache => ⟨some (s.wanted b, (call.act cache).2), s.wanted, Function.update s.joined b true⟩

def run (log : List (SharedEvent × Bool)) : Service :=
  log.foldl (fun s entry => s.step entry.2 entry.1) .start

/-- A backend that is served gets the answer of the cache, any other one an error or
the answer that stands for failure. -/
structure Answers (s : Service) (supplied : Bool) (b : Nat) (call : CacheCall) (answer : Option call.Ans) :
    Prop where
  served : ∀ cache, s.servedFrom supplied b = some cache → answer = some (call.act cache).1
  refused : s.servedFrom supplied b = none → answer = none ∨ answer = some call.failure

end Service

def SharedMemory.service (w : SharedMemory) : Service :=
  ⟨w.segment.map fun segment => (segment.capacity.toNat, segment.cache),
    fun b => (w.backend b).configuredCapacity, fun b => (w.backend b).attached⟩

section Attach

variable {registry : DsmRegistry} {layout : SegmentLayout} {w : SharedMemory} {b : Nat}

theorem sharedCacheSize_eq (layout : SegmentLayout) {capacity : Int} (h : 8 ≤ capacity ∧ capacity ≤ 256) :
    sharedCacheSize layout capacity = some (layout.header + capacity.toNat * layout.entry) := by
  have hle : capacity.toNat ≤ (sizeMax - layout.header) / layout.entry := by
    rw [Nat.le_div_iff_mul_le layout.entry_pos]
    have hfits := layout.fits
    have hmul := Nat.mul_le_mul_right layout.entry (show capacity.toNat ≤ 256 by omega)
    omega
  unfold sharedCacheSize
  rw [if_neg]
  simp only [Bool.or_eq_true, decide_eq_true_eq]
  omega

theorem sharedCacheSize_eq_none {capacity : Int} (h : ¬ (8 ≤ capacity ∧ capacity ≤ 256)) :
    sharedCacheSize layout capacity = none := by
  unfold sharedCacheSize
  rw [if_pos]
  simp only [Bool.or_eq_true, decide_eq_true_eq]
  omega

/-- What is known of a segment that this code has created. -/
structure Segment.Valid (layout : SegmentLayout) (segment : Segment) : Prop where
  magic : segment.magic = sharedCacheMagic
  version : segment.version = sharedCacheVersion
  range : 8 ≤ segment.capacity.toNat ∧ segment.capacity.toNat ≤ 256
  size : segment.size = layout.header + segment.capacity.toNat * layout.entry
  slots : segment.cache.entries.length = segment.capacity.toNat
  inv : segment.cache.Inv

structure SharedMemory.Valid (layout : SegmentLayout) (w : SharedMemory) : Prop where
  segment : ∀ segment, w.segment = some segment → segment.Valid layout
  attached : ∀ b, (w.backend b).attached = true → w.segment.isSome = true
  configured : ∀ b, 8 ≤ (w.backend b).configuredCapacity ∧ (w.backend b).configuredCapacity ≤ 256

theorem toUInt32_toNat {capacity : Int} (h : 8 ≤ capacity ∧ capacity ≤ 256) :
    (capacity.toNat.toUInt32.toNat : Int) = capacity := by
  simp only [Nat.toUInt32, UInt32.toNat_ofNat']
  omega

/-- Capacities are compared as 32-bit words, which in their range is the same. -/
theorem capacity_eq_iff {segment : Segment} {capacity : Int} (h : 8 ≤ capacity ∧ capacity ≤ 256) :
    segment.capacity = capacity.toNat.toUInt32 ↔ (segment.capacity.toNat : Int) = capacity := by
  constructor
  · intro heq
    rw [heq, toUInt32_toNat h]
  · intro heq
    apply UInt32.toNat_inj.mp
    have hback := toUInt32_toNat h
    omega

theorem initializeSharedCache_valid {memory : Segment} {capacity : Int} (h : 8 ≤ capacity ∧ capacity ≤ 256)
    (hmemory : memory.size = layout.header + capacity.toNat * layout.entry) :
    (initializeSharedCache layout capacity memory).Valid layout := by
  have hnat := toUInt32_toNat h
  have hsize : capacity.toNat = capacity.toNat.toUInt32.toNat := by omega
  simp only [initializeSharedCache, sharedCacheSize_eq layout h]
  have hinit : cacheInit capacity.toNat = some ⟨List.replicate capacity.toNat .zero, ⟨1, {}⟩⟩ := by
    simp [cacheInit, show capacity.toNat ≠ 0 by omega]
  refine ⟨rfl, rfl, by dsimp only; omega, ?_, by simpa using hsize, .init hinit⟩
  show memory.size = layout.header + capacity.toNat.toUInt32.toNat * layout.entry
  rw [hmemory, ← hsize]

theorem Segment.Valid.recognised {segment : Segment} {capacity : Int} (h : segment.Valid layout)
    (hcapacity : segment.capacity = capacity.toNat.toUInt32) :
    (segment.magic != sharedCacheMagic || segment.version != sharedCacheVersion ||
      segment.capacity != capacity.toNat.toUInt32 || segment.capacity == 0 ||
      segment.cache.control.nextRefreshSerial == 0) = false := by
  have hzero : segment.capacity ≠ 0 := by
    intro hzero
    have hrange := h.range
    simp [hzero] at hrange
  rw [← hcapacity, h.magic, h.version]
  simp [hzero, h.inv.serial]

/-- A segment has the size that a capacity stands for only if it has that capacity. -/
theorem Segment.Valid.size_eq_iff {segment : Segment} {capacity : Int} (h : segment.Valid layout)
    (hrange : 8 ≤ capacity ∧ capacity ≤ 256) :
    segment.size = layout.header + capacity.toNat * layout.entry ↔
      (segment.capacity.toNat : Int) = capacity := by
  rw [h.size, Nat.add_left_cancel_iff, Nat.mul_left_inj (Nat.ne_of_gt layout.entry_pos)]
  omega

/-- The segment that a backend is given has the capacity it is configured for. -/
structure SharedMemory.Offers (registry : DsmRegistry) (layout : SegmentLayout) (w : SharedMemory) (b : Nat)
    (segment : Segment) : Prop where
  request : w.request registry layout b = some (.address segment, some segment)
  valid : segment.Valid layout
  capacity : (segment.capacity.toNat : Int) = (w.backend b).configuredCapacity
  cache : w.service.cacheFor b = some segment.cache

/-- A request that is answered creates the segment or finds it, and one that fails
changes nothing. -/
theorem SharedMemory.Valid.request_cases (documented : registry.Documented) (hv : w.Valid layout) :
    (∃ segment, w.Offers registry layout b segment) ∨ ∃ answer,
      w.request registry layout b = some (answer, w.segment) ∧ ∀ address, answer ≠ .address address := by
  have hrange := hv.configured b
  have hsize := sharedCacheSize_eq layout hrange
  cases hresult : registry.getNamedDsmSegment w.moment w.segment
    (layout.header + (w.backend b).configuredCapacity.toNat * layout.entry)
    (initializeSharedCache layout (w.backend b).configuredCapacity) with
  | mk answer after =>
  have hrequest : w.request registry layout b = some (answer, after) := by
    rw [SharedMemory.request, hsize, Option.map_some, hresult]
  by_cases hfails : ∀ address, answer ≠ .address address
  · exact Or.inr ⟨answer, documented.fails hresult hfails ▸ hrequest, hfails⟩
  push Not at hfails
  obtain ⟨address, rfl⟩ := hfails
  left
  cases hs : w.segment with
  | none =>
    obtain ⟨memory, hmemory, rfl, rfl⟩ := documented.creates (hs ▸ hresult)
    have hcapacity : (initializeSharedCache layout (w.backend b).configuredCapacity memory).capacity =
        (w.backend b).configuredCapacity.toNat.toUInt32 := by
      simp only [initializeSharedCache, hsize]
    refine ⟨_, hrequest, initializeSharedCache_valid hrange hmemory, (capacity_eq_iff hrange).mp hcapacity, ?_⟩
    simp [service, Service.cacheFor, hs, initializeSharedCache, hsize]
  | some segment =>
    obtain ⟨hsegment, rfl, rfl⟩ := documented.attaches (hs ▸ hresult)
    have hvalid := hv.segment address hs
    have hcapacity := (hvalid.size_eq_iff hrange).mp hsegment
    exact ⟨address, hrequest, hvalid, hcapacity, by simp [service, Service.cacheFor, hs, hcapacity]⟩

/-- Attaching succeeds exactly for the backends that are served, and changes nothing
for any other one. -/
theorem SharedMemory.Valid.attach (documented : registry.Documented) (hv : w.Valid layout) :
    (∃ segment, w.service.servedFrom (w.offered registry layout b).isSome b = some segment.cache ∧
      segment.Valid layout ∧ (segment.capacity.toNat : Int) = (w.backend b).configuredCapacity ∧
      w.attach registry layout b = (some true, ⟨some segment,
        Function.update w.backend b { w.backend b with attached := true }, w.moment⟩)) ∨
    (w.service.servedFrom (w.offered registry layout b).isSome b = none ∧
      (w.attach registry layout b).1 ≠ some true ∧ (w.attach registry layout b).2 = w) := by
  have hrange := hv.configured b
  cases ha : (w.backend b).attached with
  | true =>
    obtain ⟨segment, hs⟩ := Option.isSome_iff_exists.mp (hv.attached b ha)
    have hword := @capacity_eq_iff segment _ hrange
    by_cases hcapacity : (segment.capacity.toNat : Int) = (w.backend b).configuredCapacity
    · refine Or.inl ⟨segment, by simp [Service.servedFrom, service, Service.cacheFor, ha, hs, hcapacity],
        hv.segment segment hs, hcapacity, ?_⟩
      have hsame : { w.backend b with attached := true } = w.backend b := by rw [← ha]
      simp only [SharedMemory.attach, ha, if_true, sameCapacity, hs, hword.mpr hcapacity, Option.any_some, BEq.rfl]
      rw [hsame, Function.update_eq_self, ← hs]
    · refine Or.inr ⟨by simp [Service.servedFrom, service, Service.cacheFor, ha, hs, hcapacity], ?_⟩
      simp [SharedMemory.attach, ha, sameCapacity, hs, mt hword.mp hcapacity]
  | false =>
    rcases hv.request_cases documented (b := b) with ⟨segment, ho⟩ | ⟨answer, hrequest, hfails⟩
    · have hword := (capacity_eq_iff hrange).mpr ho.capacity
      refine Or.inl ⟨segment, ?_, ho.valid, ho.capacity, ?_⟩
      · simp [Service.servedFrom, offered, ho.request, ho.cache]
      · simp [SharedMemory.attach, ha, ho.request, ho.valid.recognised hword, withBackend]
    · cases answer with
      | raised => exact Or.inr (by simp [Service.servedFrom, service, SharedMemory.attach, offered, ha, hrequest])
      | null => exact Or.inr (by simp [Service.servedFrom, service, SharedMemory.attach, offered, ha, hrequest])
      | address segment => exact absurd rfl (hfails segment)

end Attach

section Calls

variable {registry : DsmRegistry} {layout : SegmentLayout} {w : SharedMemory}

theorem CacheCall.act_inv {cache : Cache} (h : cache.Inv) (call : CacheCall) : (call.act cache).2.Inv := by
  cases call with
  | lookup key nowMs allowStale outputSize =>
    have hp : perform ⟨cache, 0⟩ (.lookup key nowMs allowStale outputSize) _
      ⟨(sharedLookup cache key nowMs allowStale outputSize).2, 0⟩ := ⟨rfl, rfl⟩
    exact perform_inv h hp
  | beginRefresh key nowMs unknownKid cooldownMs => exact h.begin key nowMs unknownKid cooldownMs
  | completeRefresh ticket c => exact h.complete ticket c
  | _ => exact h

theorem CacheCall.act_length (cache : Cache) (call : CacheCall) :
    (call.act cache).2.entries.length = cache.entries.length := by
  have hperform (op : CallOp) {answer : op.Ans} {cache' : Cache}
      (hp : perform ⟨cache, 0⟩ op answer ⟨cache', 0⟩) : cache'.entries.length = cache.entries.length :=
    perform_length hp
  cases call with
  | lookup key nowMs allowStale outputSize =>
    exact hperform (.lookup key nowMs allowStale outputSize) ⟨rfl, rfl⟩
  | beginRefresh key nowMs unknownKid cooldownMs =>
    exact hperform (.begin key nowMs unknownKid cooldownMs) ⟨rfl, rfl⟩
  | completeRefresh ticket c => exact hperform (.complete ticket c) ⟨rfl, rfl⟩
  | _ => rfl

/-- One static variable of every backend, when those of one backend have changed. -/
theorem static_update {β : Type} (static : Backend → β) (backend : Nat → Backend) (b : Nat) (statics : Backend) :
    (fun b' => static (Function.update backend b statics b')) =
      Function.update (fun b' => static (backend b')) b (static statics) :=
  funext (Function.apply_update (fun _ => static) backend b statics)

/-- One backend changes its static variables, and the segment changes. -/
theorem SharedMemory.Valid.update (hv : w.Valid layout) {segment : Option Segment} {b : Nat} {statics : Backend}
    {moment : Nat} (hsegment : ∀ found, segment = some found → found.Valid layout)
    (hkept : w.segment.isSome = true → segment.isSome = true)
    (hattached : statics.attached = true → segment.isSome = true)
    (hrange : 8 ≤ statics.configuredCapacity ∧ statics.configuredCapacity ≤ 256) :
    SharedMemory.Valid layout ⟨segment, Function.update w.backend b statics, moment⟩ := by
  refine ⟨hsegment, fun b' => ?_, fun b' => ?_⟩
  · by_cases hb : b' = b
    · subst hb
      simpa only [Function.update_self] using hattached
    · simpa only [Function.update_of_ne hb] using fun h => hkept (hv.attached b' h)
  · by_cases hb : b' = b
    · subst hb
      simpa only [Function.update_self] using hrange
    · simpa only [Function.update_of_ne hb] using hv.configured b'

theorem SharedMemory.Valid.at_moment (hv : w.Valid layout) (moment : Nat) :
    SharedMemory.Valid layout { w with moment := moment } :=
  ⟨hv.segment, hv.attached, hv.configured⟩

/-- A backend that is served performs its operation on the segment. -/
theorem SharedMemory.Valid.call_served (documented : registry.Documented) (hv : w.Valid layout) {b : Nat}
    {cache : Cache} (call : CacheCall)
    (h : w.service.servedFrom (w.supplied registry layout (.call b call)) b = some cache) :
    ∃ segment, segment.Valid layout ∧ segment.cache = (call.act cache).2 ∧
      (segment.capacity.toNat : Int) = (w.backend b).configuredCapacity ∧
      w.call registry layout b call = (some (call.act cache).1,
        ⟨some segment, Function.update w.backend b { w.backend b with attached := true }, w.moment⟩) := by
  rcases hv.attach documented (b := b) with ⟨segment, hcache, hvalid, hcapacity, ha⟩ | ⟨hnone, _⟩
  · obtain rfl : segment.cache = cache := Option.some.inj (hcache.symm.trans h)
    refine ⟨{ segment with cache := (call.act segment.cache).2 },
      ⟨hvalid.magic, hvalid.version, hvalid.range, hvalid.size, ?_, call.act_inv hvalid.inv⟩, rfl,
      hcapacity, by simp only [SharedMemory.call, ha]⟩
    show (call.act segment.cache).2.entries.length = _
    rw [call.act_length, hvalid.slots]
  · exact absurd (hnone.symm.trans h) (by simp)

/-- A backend that is refused is told so, and nothing happens. -/
theorem SharedMemory.Valid.call_refused (documented : registry.Documented) (hv : w.Valid layout) {b : Nat}
    (call : CacheCall) (h : w.service.servedFrom (w.supplied registry layout (.call b call)) b = none) :
    ((w.call registry layout b call).1 = none ∨ (w.call registry layout b call).1 = some call.failure) ∧
      (w.call registry layout b call).2 = w := by
  rcases hv.attach documented (b := b) with ⟨segment, hcache, _⟩ | ⟨_, hanswer, hsame⟩
  · exact absurd (h.symm.trans hcache) (by simp)
  · cases ha : (w.attach registry layout b).1 with
    | none =>
      simp only [SharedMemory.call, ha]
      exact ⟨Or.inl trivial, hsame⟩
    | some answer =>
      cases answer with
      | false =>
        simp only [SharedMemory.call, ha]
        exact ⟨Or.inr trivial, hsame⟩
      | true => exact absurd ha hanswer

theorem SharedMemory.Valid.call (documented : registry.Documented) (hv : w.Valid layout) (b : Nat)
    (call : CacheCall) : (w.call registry layout b call).2.Valid layout := by
  cases h : w.service.servedFrom (w.supplied registry layout (.call b call)) b with
  | none =>
    rw [(hv.call_refused documented call h).2]
    exact hv
  | some cache =>
    obtain ⟨segment, hvalid, _, _, hcall⟩ := hv.call_served documented call h
    rw [hcall]
    exact hv.update (fun found hfound => Option.some.inj hfound ▸ hvalid) (fun _ => rfl) (fun _ => rfl)
      (hv.configured b)

theorem SharedMemory.Valid.configure (hv : w.Valid layout) (b : Nat) (capacity : Int) :
    (w.configureCapacity layout b capacity).2.Valid layout := by
  unfold configureCapacity
  split
  · exact hv
  · next hsome =>
    have hrange : 8 ≤ capacity ∧ capacity ≤ 256 := by
      by_contra hne
      simp [sharedCacheSize_eq_none hne] at hsome
    exact hv.update hv.segment id (hv.attached b) hrange

theorem SharedMemory.Valid.start : SharedMemory.start.Valid layout :=
  ⟨by simp [SharedMemory.start], by simp [SharedMemory.start, Backend.start],
    by simp [SharedMemory.start, Backend.start]⟩

theorem SharedMemory.Valid.step (documented : registry.Documented) (hv : w.Valid layout)
    (event : SharedEvent) : (w.step registry layout event).Valid layout := by
  cases event with
  | configure b capacity => exact (hv.configure b capacity).at_moment _
  | call b call => exact (hv.call documented b call).at_moment _

/-- One event is one step of the service. -/
theorem SharedMemory.Valid.service_step (documented : registry.Documented) (hv : w.Valid layout)
    (event : SharedEvent) :
    (w.step registry layout event).service = w.service.step (w.supplied registry layout event) event := by
  cases event with
  | configure b capacity =>
    by_cases hrange : 8 ≤ capacity ∧ capacity ≤ 256
    · simp only [SharedMemory.step, configureCapacity, sharedCacheSize_eq layout hrange, Option.isNone_some,
        Bool.false_eq_true, if_false, Service.step, hrange, and_self, if_true, withBackend, service, static_update,
        Function.update_eq_self]
    · simp [SharedMemory.step, configureCapacity, sharedCacheSize_eq_none hrange, Service.step, hrange, service]
  | call b call =>
    cases h : w.service.servedFrom (w.supplied registry layout (.call b call)) b with
    | none =>
      simp only [SharedMemory.step, Service.step, h]
      rw [(hv.call_refused documented call h).2]
      rfl
    | some cache =>
      obtain ⟨segment, _, hcache, hcapacity, hcall⟩ := hv.call_served documented call h
      simp only [SharedMemory.step, Service.step, h]
      rw [hcall]
      simp only [service, Option.map_some, hcache, hcapacity, static_update, Function.update_eq_self]

theorem SharedMemory.Valid.steps (documented : registry.Documented) (hv : w.Valid layout)
    (events : List SharedEvent) : (events.foldl (SharedMemory.step registry layout) w).Valid layout := by
  induction events generalizing w with
  | nil => exact hv
  | cons event events ih => exact ih (hv.step documented event)

theorem SharedMemory.run_valid (documented : registry.Documented) (layout : SegmentLayout)
    (events : List SharedEvent) : (run registry layout events).Valid layout :=
  SharedMemory.Valid.start.steps documented events

theorem SharedMemory.run_service (documented : registry.Documented) (layout : SegmentLayout)
    (events : List SharedEvent) :
    (run registry layout events).service = Service.run (log registry layout .start events) := by
  have hsteps (events : List SharedEvent) (w : SharedMemory) (hw : w.Valid layout) :
      (events.foldl (SharedMemory.step registry layout) w).service =
        (log registry layout w events).foldl (fun s entry => s.step entry.2 entry.1) w.service := by
    induction events generalizing w with
    | nil => rfl
    | cons event events ih =>
      rw [List.foldl_cons, log, List.foldl_cons, ih _ (hw.step documented event),
        hw.service_step documented event]
  exact hsteps events _ .start

end Calls

/-- Whatever the backends do in whatever order, and whenever the registry fails, the
segment behaves as one cache of one capacity. -/
theorem shared_segment_refines_service {registry : DsmRegistry} (documented : registry.Documented)
    (layout : SegmentLayout) (events : List SharedEvent) :
    (SharedMemory.run registry layout events).service =
        Service.run (SharedMemory.log registry layout .start events) ∧
      ∀ b call, (SharedMemory.run registry layout events).service.Answers
        ((SharedMemory.run registry layout events).supplied registry layout (.call b call)) b call
        ((SharedMemory.run registry layout events).call registry layout b call).1 := by
  have hv := SharedMemory.run_valid documented layout events
  refine ⟨SharedMemory.run_service documented layout events,
    fun b call => ⟨fun cache hcache => ?_, fun hnone => ?_⟩⟩
  · obtain ⟨segment, _, _, _, hcall⟩ := hv.call_served documented call hcache
    rw [hcall]
  · exact (hv.call_refused documented call hnone).1

namespace Sample

/-- A registry that has no memory at first, and none again from the fourth event on. -/
def registry : DsmRegistry where
  getNamedDsmSegment moment registered size setUp :=
    if moment == 0 || 4 ≤ moment then (.raised, registered)
    else
      match registered with
      | none =>
        let segment := setUp ⟨size, 0, 0, 0, ⟨[], ⟨0, {}⟩⟩⟩
        (.address segment, some segment)
      | some segment => if segment.size == size then (.address segment, registered) else (.raised, registered)

theorem registry_documented : registry.Documented := by
  constructor
  · intro moment segment size setUp address after h
    simp only [registry] at h
    grind
  · intro moment size setUp address after h
    simp only [registry] at h
    split at h
    · simp at h
    · obtain ⟨⟨⟩, rfl⟩ := Prod.mk.inj h
      exact ⟨_, rfl, rfl, rfl⟩
  · intro moment registered size setUp answer after h hfails
    simp only [registry] at h
    grind

def segmentLayout : SegmentLayout :=
  ⟨128, 69744, by decide, by decide⟩

/-- A backend that has to ask twice, one that wants another capacity, one that comes
too late, and the first one again. -/
def segmentEvents : List SharedEvent :=
  [.call 0 .attach, .call 0 .attach, .configure 1 64, .call 1 .stats, .call 2 .attach, .call 0 .stats]

end Sample

/-- Only the second request to the registry succeeds. -/
theorem shared_segment_refines_service_scarce :
    Sample.registry.Documented ∧
      (SharedMemory.run Sample.registry Sample.segmentLayout Sample.segmentEvents).service =
        Service.run (Sample.segmentEvents.zip [false, true, false, false, false, false]) ∧
      (Service.run (Sample.segmentEvents.zip [false, true, false, false, false, false])).cache.isSome = true := by
  obtain ⟨hservice, _⟩ := shared_segment_refines_service Sample.registry_documented Sample.segmentLayout
    Sample.segmentEvents
  exact ⟨Sample.registry_documented, hservice, by decide +kernel⟩

/-! A backend that has attached the segment keeps it. -/

section Keeping

variable {registry : DsmRegistry} {layout : SegmentLayout} {w : SharedMemory} {s : Service} {b : Nat}
  {capacity : Int}

/-- A backend has got the cache, in the capacity that it wants. -/
structure Service.Grants (s : Service) (b : Nat) (capacity : Int) : Prop where
  wanted : s.wanted b = capacity
  joined : s.joined b = true
  cache : ∃ cache, s.cache = some (capacity, cache)

/-- Such a backend is served, whether or not the registry would supply it. -/
theorem Service.Grants.servedFrom (h : s.Grants b capacity) :
    ∃ cache, s.cache = some (capacity, cache) ∧ ∀ supplied, s.servedFrom supplied b = some cache := by
  obtain ⟨cache, hcache⟩ := h.cache
  exact ⟨cache, hcache, fun supplied => by
    simp [Service.servedFrom, Service.cacheFor, h.joined, hcache, h.wanted]⟩

theorem Service.Grants.step (h : s.Grants b capacity) {supplied : Bool} {event : SharedEvent}
    (hkeeps : ∀ other, event = .configure b other → other = capacity) :
    (s.step supplied event).Grants b capacity := by
  obtain ⟨cache, hcache⟩ := h.cache
  cases event with
  | configure b' other =>
    simp only [Service.step]
    split
    · refine ⟨?_, h.joined, cache, hcache⟩
      by_cases hb : b = b'
      · subst hb
        simp [hkeeps other rfl]
      · simp [Function.update_of_ne hb, h.wanted]
    · exact h
  | call b' call =>
    simp only [Service.step]
    split
    · exact h
    · next served hserved =>
      have hjoined : Function.update s.joined b' true b = true := by
        by_cases hb : b = b'
        · simp [hb]
        · simp [Function.update_of_ne hb, h.joined]
      -- whoever is served wants the capacity that the cache has
      have hwanted : capacity = s.wanted b' := by
        simp only [Service.servedFrom, Service.cacheFor, hcache] at hserved
        grind
      exact ⟨h.wanted, hjoined, _, by rw [hwanted]⟩

theorem SharedMemory.Valid.keeps (documented : registry.Documented) (hv : w.Valid layout)
    (hg : w.service.Grants b capacity) {events : List SharedEvent}
    (hkeeps : ∀ other, .configure b other ∈ events → other = capacity) :
    (events.foldl (SharedMemory.step registry layout) w).service.Grants b capacity := by
  induction events generalizing w with
  | nil => exact hg
  | cons event events ih =>
    have hstep : (w.step registry layout event).service.Grants b capacity := by
      rw [hv.service_step documented event]
      exact hg.step fun other heq => hkeeps other (heq ▸ List.mem_cons_self)
    exact ih (hv.step documented event) hstep fun other hmem => hkeeps other (List.mem_cons_of_mem _ hmem)

/-- Every operation of such a backend is performed on the cache. -/
theorem SharedMemory.Valid.granted (documented : registry.Documented) (hv : w.Valid layout)
    (hg : w.service.Grants b capacity) :
    ∃ cache, w.service.cache = some (capacity, cache) ∧
      (∀ call, (w.call registry layout b call).1 = some (call.act cache).1) ∧
      ∀ key, w.recheck b key = some (cacheIsRefreshing cache key) := by
  obtain ⟨cache, hcache, hserved⟩ := hg.servedFrom
  have hattached : (w.backend b).attached = true := hg.joined
  refine ⟨cache, hcache, fun call => ?_, fun key => ?_⟩
  · obtain ⟨_, _, _, _, hcall⟩ := hv.call_served documented call (hserved _)
    rw [hcall]
  · obtain ⟨found, hfound, hpair⟩ := Option.map_eq_some_iff.mp hcache
    simp [SharedMemory.recheck, hattached, hfound, (Prod.mk.inj hpair).2]

end Keeping

/-! The checks of the callback, on the memory that they are about. -/

namespace SharedMemory

/-- The capacity of the segment that a backend has attached. -/
def attachedCapacity (w : SharedMemory) (b : Nat) : Option Int :=
  if (w.backend b).attached then w.segment.map fun segment => (segment.capacity.toNat : Int) else none

/-- The capacity of the segment that the registry would give a backend. -/
def offeredCapacity (registry : DsmRegistry) (layout : SegmentLayout) (w : SharedMemory) (b : Nat) :
    Option Int :=
  (w.offered registry layout b).map fun segment => (segment.capacity.toNat : Int)

end SharedMemory

section Checks

variable {registry : DsmRegistry} {layout : SegmentLayout} {w : SharedMemory} {b : Nat} {capacity : Int}

theorem SharedMemory.Valid.configureCapacity_answer (hv : w.Valid layout) :
    (w.configureCapacity layout b capacity).1 = OAuthValidator.configureCapacity capacity (w.attachedCapacity b) := by
  unfold SharedMemory.configureCapacity OAuthValidator.configureCapacity
  by_cases hrange : 8 ≤ capacity ∧ capacity ≤ 256
  · simp only [sharedCacheSize_eq layout hrange, Option.isNone_some, Bool.false_eq_true, if_false, hrange, decide_true,
      Bool.and_self, Bool.true_and]
    cases ha : (w.backend b).attached with
    | false => simp [attachedCapacity, ha]
    | true =>
      cases hs : w.segment with
      | none => simpa [hs] using hv.attached b ha
      | some segment =>
        have hiff := @capacity_eq_iff segment _ hrange
        simp only [attachedCapacity, ha, hs, sameCapacity, if_true, Option.map_some, Option.any_some, Bool.not_true,
          Bool.false_or, Option.isNone_some]
        rw [Bool.eq_iff_iff, beq_iff_eq, beq_iff_eq, hiff, Option.some.injEq]
  · simp only [sharedCacheSize_eq_none hrange, Option.isNone_none, if_true]
    symm
    rw [Bool.and_eq_false_iff, Bool.and_eq_false_iff]
    left
    simp only [decide_eq_false_iff_not]
    omega

/-- Configuring an accepted capacity changes nothing else. -/
theorem SharedMemory.step_configure (hrange : 8 ≤ capacity ∧ capacity ≤ 256) :
    w.step registry layout (.configure b capacity) = ⟨w.segment,
      Function.update w.backend b { w.backend b with configuredCapacity := capacity }, w.moment + 1⟩ := by
  simp [SharedMemory.step, SharedMemory.configureCapacity, sharedCacheSize_eq layout hrange, withBackend]

/-- The check that attaches passes only for the backends that are served. -/
theorem SharedMemory.Valid.servedFrom_of_attach (documented : registry.Documented) (hv : w.Valid layout)
    (h : sharedCacheAttach (w.backend b).configuredCapacity (w.attachedCapacity b)
      (w.offeredCapacity registry layout b) = true) (call : CacheCall) :
    ∃ cache, w.service.servedFrom (w.supplied registry layout (.call b call)) b = some cache := by
  cases ha : (w.backend b).attached with
  | true =>
    obtain ⟨segment, hs⟩ := Option.isSome_iff_exists.mp (hv.attached b ha)
    have hcapacity : (segment.capacity.toNat : Int) = (w.backend b).configuredCapacity := by
      simpa [sharedCacheAttach, attachedCapacity, ha, hs] using h
    exact ⟨segment.cache, by simp [Service.servedFrom, service, Service.cacheFor, ha, hs, hcapacity]⟩
  | false =>
    rcases hv.request_cases documented (b := b) with ⟨segment, ho⟩ | ⟨answer, hrequest, hfails⟩
    · exact ⟨segment.cache, by simp [Service.servedFrom, supplied, offered, ho.request, ho.cache]⟩
    · have hnone : w.offered registry layout b = none := by
        cases answer <;> simp_all [offered]
      simp [sharedCacheAttach, attachedCapacity, offeredCapacity, ha, hnone] at h

/-- A backend that attaches the segment has got the cache. -/
theorem SharedMemory.Valid.grants_of_attach (documented : registry.Documented) (hv : w.Valid layout)
    {cache : Cache} (h : w.service.servedFrom (w.supplied registry layout (.call b .attach)) b = some cache) :
    (w.step registry layout (.call b .attach)).service.Grants b (w.backend b).configuredCapacity := by
  rw [hv.service_step documented]
  simp only [Service.step, h]
  exact ⟨rfl, by simp, _, rfl⟩

end Checks

/-- Once the two checks of the callback have passed, every operation of its backend is
performed on the shared cache, whatever the other backends do and want and even if the
registry fails from then on. -/
theorem prepared_backend_stays_served {registry : DsmRegistry} (documented : registry.Documented)
    (layout : SegmentLayout) (before after : List SharedEvent) {b : Nat} {ext : Externals} {inv : Invocation}
    {p : Prepared} (hprepared : prepare ext inv = .ok p)
    (hattached : inv.attachedCapacity = (SharedMemory.run registry layout before).attachedCapacity b)
    (hsegment : inv.segmentCapacity = (SharedMemory.run registry layout
      (before ++ [.configure b inv.cacheMaxEntries])).offeredCapacity registry layout b)
    (hkeeps : ∀ other, .configure b other ∈ after → other = inv.cacheMaxEntries) {w : SharedMemory}
    (hw : w = SharedMemory.run registry layout
      (before ++ [.configure b inv.cacheMaxEntries, .call b .attach] ++ after)) :
    ((SharedMemory.run registry layout before).configureCapacity layout b inv.cacheMaxEntries).1 = true ∧
      ∃ cache, w.service.cache = some (inv.cacheMaxEntries, cache) ∧
        (∀ call, (w.call registry layout b call).1 = some (call.act cache).1) ∧
        ∀ key, w.recheck b key = some (cacheIsRefreshing cache key) := by
  have hv := SharedMemory.run_valid documented layout before
  obtain ⟨_, haccepted⟩ := prepare_ok hprepared
  have hconfigure := haccepted.configured
  have hattach := haccepted.attached
  rw [hattached] at hconfigure
  refine ⟨hv.configureCapacity_answer.trans hconfigure, ?_⟩
  have hrange : 8 ≤ inv.cacheMaxEntries ∧ inv.cacheMaxEntries ≤ 256 := by
    simp only [configureCapacity, Bool.and_eq_true, decide_eq_true_eq] at hconfigure
    exact hconfigure.1
  have hv' := hv.step documented (.configure b inv.cacheMaxEntries)
  have hrun : SharedMemory.run registry layout (before ++ [.configure b inv.cacheMaxEntries]) =
      (SharedMemory.run registry layout before).step registry layout (.configure b inv.cacheMaxEntries) := by
    simp [SharedMemory.run, List.foldl_append]
  rw [hrun] at hsegment
  rw [SharedMemory.step_configure hrange] at hv' hrun hsegment
  generalize hconfigured : SharedMemory.mk _ _ _ = w' at hv' hrun hsegment
  have hcapacity : (w'.backend b).configuredCapacity = inv.cacheMaxEntries := by simp [← hconfigured]
  have hkept : inv.attachedCapacity = w'.attachedCapacity b := by
    simp [hattached, ← hconfigured, SharedMemory.attachedCapacity]
  rw [hkept, hsegment, ← hcapacity] at hattach
  obtain ⟨cache, hserved⟩ := hv'.servedFrom_of_attach documented hattach .attach
  have hg := hv'.grants_of_attach documented hserved
  rw [hcapacity] at hg
  have hw : w = after.foldl (SharedMemory.step registry layout) (w'.step registry layout (.call b .attach)) := by
    rw [hw, ← hrun]
    simp [SharedMemory.run, List.foldl_append]
  rw [hw]
  have hv'' := hv'.step documented (.call b .attach)
  exact (hv''.steps documented after).granted documented (hv''.keeps documented hg hkeeps)

/-- Another backend finds no memory before, and asks for a different capacity while this
one is served. -/
theorem prepared_backend_stays_served_contended :
    ∃ p w, prepare Sample.tokenExternals Sample.invocation = .ok p ∧
      w = SharedMemory.run Sample.registry Sample.segmentLayout ([.call 1 .attach] ++
        [.configure 0 8, .call 0 .attach] ++ [.configure 1 64, .call 1 .attach, .call 2 .stats]) ∧
      ∃ cache, w.service.cache = some (8, cache) ∧
        (∀ call, (w.call Sample.registry Sample.segmentLayout 0 call).1 = some (call.act cache).1) ∧
        ∀ key, w.recheck 0 key = some (cacheIsRefreshing cache key) := by
  have hok : (prepare Sample.tokenExternals Sample.invocation).isOk = true := by decide +kernel
  obtain ⟨p, hp⟩ := isOk_eq_true_iff.mp hok
  have hsegment : (some 8 : Option Int) = (SharedMemory.run Sample.registry Sample.segmentLayout
      ([.call 1 .attach] ++ [.configure 0 8])).offeredCapacity Sample.registry Sample.segmentLayout 0 := by
    decide +kernel
  exact ⟨p, _, hp, rfl, (prepared_backend_stays_served Sample.registry_documented Sample.segmentLayout
    [.call 1 .attach] _ hp rfl hsegment (by simp) rfl).2⟩

end OAuthValidator
