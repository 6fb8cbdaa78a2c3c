import OAuthValidator.Publication
import OAuthValidator.Replay

/-! What waiting does to freshness. A call that has slept adds the whole timeout
to its clock, however soon it woke up, and a document it then publishes is
dated by that clock. It is dated correctly as long as the clock has not run
ahead of the real time at which the response arrived. -/

namespace OAuthValidator

open Interleaving

/-- The time a call has slept by its own account: the timeouts of its sleeps. -/
def timeSlept : CallTrace → Int
  | [] => 0
  | ⟨.sleepEnd _ timeoutMs, _⟩ :: tr => timeoutMs + timeSlept tr
  | _ :: tr => timeSlept tr

section Slept

variable {s : Stage} {tr : CallTrace} {l : IoLookup}

@[simp] theorem timeSlept_lookedUp : timeSlept (s.lookedUp l) = timeSlept s.base := rfl

@[simp] theorem timeSlept_begun {unknownKid : Bool} {r : CacheRefreshResult} {ticket : CacheRefresh} :
    timeSlept (s.begun l unknownKid r ticket) = timeSlept s.base := rfl

@[simp] theorem timeSlept_relookedUp {elapsedMs : Int} : timeSlept (s.relookedUp tr elapsedMs l) = timeSlept tr :=
  rfl

theorem Waited.timeSlept_eq {key : Bytes} {timeoutMs : Int} {tr' : CallTrace} {w : Bool × Int}
    (h : Waited key timeoutMs tr tr' w) : timeSlept tr' = w.2 + timeSlept tr := by
  cases h with
  | refused => simp
  | idle => simp [timeSlept]
  | slept since refreshing _ => rfl

theorem MetadataRead.clock {ext : Externals} {x : CachedCall} {key body : Bytes} {nowMs : Int}
    (h : MetadataRead ext x key tr nowMs body) : nowMs = x.call.nowMs + timeSlept tr := by
  cases h with
  | hit l _ => simp [timeSlept, metadataStage]
  | waited l ticket tr' elapsedMs l' _ wait _ _ =>
    simp [wait.timeSlept_eq, metadataStage, timeSlept]
  | fetched l ticket response f _ _ => simp [timeSlept, Stage.transferred, metadataStage]

/-- The clock of a stage is the time the call started with and its sleeps. -/
theorem StageOpen.clock {ext : Externals} {x : CachedCall} (o : StageOpen ext x s) :
    s.nowMs = x.call.nowMs + timeSlept s.base := by
  cases o with
  | metadata _ => simp [metadataStage, timeSlept]
  | jwks h =>
    obtain ⟨_, _, _, hread, _⟩ := h.metadata
    exact hread.clock

end Slept

section Runs

variable {ext : Externals} {admits : Shared → FetchArgs → Prop} {h : CallHistory} {c : CallConfig}

/-- In the history `h` a call that was started at the time `nowMs` and had slept
`sleptMs` by its own account received a response at the real time `receivedMs`,
which may be kept for `ttlMs`, and published it as `stored`. -/
inductive Dated (ext : Externals) (admits : Shared → FetchArgs → Prop) (h : CallHistory)
    (nowMs sleptMs receivedMs ttlMs : Int) (stored : ExpiringMap.Stored Bytes Int) : Prop
  | intro {i : Nat} {args : FetchArgs} {y : CachedCall} {s : Stage} {l : IoLookup} {unknownKid : Bool}
      {ticket : CacheRefresh} {response : HttpResponse} {f : HttpFreshness}
      {past past' : CallHistory} {c' c'' : CallConfig} {after after' : Shared}
      (published : ExchangeAt (callSystem ext admits) initialShared h i args
        (s.transferred l unknownKid ticket (.ok response))
        (.complete ticket (s.published f response)) true past c' after)
      (outcome : (s.published f response).outcome = .put stored)
      (received : ExchangeAt (callSystem ext admits) initialShared past i args
        (s.begun l unknownKid .started ticket) (.transfer s.url s.http) (.ok response) past' c'' after')
      (receipt : c''.shared.clockMs = receivedMs)
      (fresh : response.freshness ext s.responseTimeSeconds s.freshness = .ok f)
      (ttl : f.ttlMs = ttlMs) (cached : args.cached = some y) (stage : StageOpen ext y s)
      (start : args.nowMs = nowMs) (sleeps : timeSlept (s.begun l unknownKid .started ticket) = sleptMs)

/-- Every publication of a run is of a response that was received in it. -/
theorem CallRun.dated {past : CallHistory} (hr : CallRun ext admits h c) {i : Nat} {ticket : CacheRefresh}
    {comp : Completion} {s : Shared} {stored : ExpiringMap.Stored Bytes Int}
    (he : (.act i (.complete ticket comp) true, s) :: past <:+ h) (hput : comp.outcome = .put stored) :
    ∃ nowMs sleptMs receivedMs, (∃ e ∈ h, e.2.clockMs = receivedMs) ∧
      Dated ext admits h nowMs sleptMs receivedMs comp.ttlMs stored := by
  obtain ⟨later, rfl⟩ := he
  obtain ⟨args, tr, c', after, -, x⟩ := Run.performed hr
  obtain ⟨y, st, l, unknownKid, response, f, hy, ho, rfl, rfl, _, hf⟩ :=
    (x.permitted (issuerKeyFetchCached_sat ext)).complete_put hput
  obtain ⟨next, hcall⟩ := x.call
  obtain ⟨past', c'', after', x'⟩ := Run.exchange x.run hcall (List.nil_append _).symm
  exact ⟨_, _, _, ⟨_, x.past_subset x'.mem, rfl⟩, x, hput, x', rfl, hf, rfl, hy, ho, rfl, rfl⟩

/-- The real clock is never behind a call's own time, if no call starts with a
time the clock has not reached. -/
theorem CallRun.started (hclock : ∀ s args, admits s args → args.nowMs ≤ s.clockMs)
    (hr : CallRun ext admits h c) {i : Nat} {call : Call CallOp CallOp.Ans FetchArgs FetchReturn}
    (hc : c.calls i = some call) : call.arg.nowMs ≤ c.shared.clockMs := by
  induction hr generalizing i call with
  | init _ => simp at hc
  | start j args _ _ hadmit ih =>
    rcases updated_call hc with ⟨rfl, rfl⟩ | ⟨_, hc⟩
    · exact hclock _ _ hadmit
    · exact ih hc
  | act j answer _ hcall hp ih =>
    show call.arg.nowMs ≤ Shared.clockMs _
    rw [perform_clock hp]
    rcases updated_call hc with ⟨rfl, rfl⟩ | ⟨_, hc⟩
    · have hle := ih hcall
      exact hle
    · exact ih hc
  | drift _ hd ih => exact Int.le_trans (ih hc) hd.2

section Publication

variable {nowMs sleptMs receivedMs ttlMs : Int} {stored : ExpiringMap.Stored Bytes Int}

theorem Dated.admitted (hd : Dated ext admits h nowMs sleptMs receivedMs ttlMs stored) :
    ∃ s args, admits s args ∧ args.nowMs = nowMs := by
  obtain ⟨_, _, x, _, _, _, _, _, rfl, _⟩ := hd
  obtain ⟨next, hcall⟩ := x.call
  obtain ⟨s, hadmitted⟩ := Run.admitted x.run hcall
  exact ⟨s, _, hadmitted, rfl⟩

/-- A publication is dated by the clock of its call, sleeps included. -/
theorem Dated.freshUntil (hd : Dated ext admits h nowMs sleptMs receivedMs ttlMs stored) :
    stored.freshUntil = min (nowMs + sleptMs + ttlMs) int64Max := by
  obtain ⟨_, hput, _, _, _, rfl, hcached, hstage, rfl, rfl⟩ := hd
  have hnow := hstage.clock
  rw [FetchArgs.cached_nowMs hcached] at hnow
  obtain ⟨_, _, _, _, _, hfresh, _⟩ := Stage.outcome_published hput
  rw [hfresh, hnow, timeSlept_begun]

theorem waiting_dates_publication (hclock : ∀ s args, admits s args → args.nowMs ≤ s.clockMs)
    (hd : Dated ext admits h nowMs sleptMs receivedMs ttlMs stored) :
    (stored.freshUntil ≤ receivedMs + ttlMs ↔
      nowMs + sleptMs ≤ receivedMs ∨ int64Max ≤ receivedMs + ttlMs) ∧
    (sleptMs = 0 → stored.freshUntil ≤ receivedMs + ttlMs) := by
  have hfresh := hd.freshUntil
  obtain ⟨_, _, x, rfl, _, _, _, _, rfl, _⟩ := hd
  obtain ⟨next, hcall⟩ := x.call
  have hstart := CallRun.started hclock x.run hcall
  simp only at hstart
  omega

end Publication

end Runs

namespace Sample

/-- Calls start with a time that the real clock has reached. -/
def byTheClock (s : Shared) (a : FetchArgs) : Bool :=
  a.nowMs ≤ s.clockMs

/-- The second call waits some milliseconds for the metadata that the first one
fetches, and then fetches the JWKS. -/
def waiting (durationMs : Nat) : List (Choice FetchArgs) :=
  [.start 0 (args "a" 0), .start 1 (args "a" 0)] ++ steps 0 2 ++ steps 1 4 ++
    [.step 0 (respond metadata)] ++ steps 0 1 ++ [.tick durationMs] ++ steps 1 5 ++
    [.step 1 (respond (keyText "a" pointA))] ++ steps 1 1

/-- Calls start with the time 0. -/
def fromZero (s : Shared) (a : FetchArgs) : Bool :=
  a.nowMs == 0 && decide (0 ≤ s.clockMs)

/-- How a call publishes the JWKS at a time of its own clock. -/
def publishedAt (nowMs : Int) : Completion :=
  publishCompletion nowMs ⟨60000, true, false, true⟩ 3600000 (keyText "a" pointA)

theorem publishedAt_outcome :
    (publishedAt 5000).outcome = .put ⟨keyText "a" pointA, 65000, 3665000⟩ := by
  decide +kernel

end Sample

/-- A wait of one millisecond makes a document fresh for five seconds more. -/
theorem waiting_extends_freshness :
    ¬ ∀ h c, CallRun Sample.externals (fun s a => Sample.byTheClock s a = true) h c →
      ∀ nowMs sleptMs receivedMs ttlMs stored,
        Dated Sample.externals (fun s a => Sample.byTheClock s a = true) h nowMs sleptMs receivedMs ttlMs
          stored → stored.freshUntil ≤ receivedMs + ttlMs := by
  intro hall
  have hrun : (replay (issuerKeyFetchCached Sample.externals) Sample.byTheClock 2 0
    (Sample.waiting 1)).any (fun p => decide
      (p.1[0]?.bind (fun e => completionOf e.1) = some (1, Sample.publishedAt 5000, true) ∧
        ∀ e ∈ p.1, e.2.clockMs ≤ 1)) = true := by
    decide +kernel
  obtain ⟨h, c, hr, htest⟩ := replay_any hrun
  obtain ⟨hcompleted, hclock⟩ := of_decide_eq_true htest
  obtain ⟨e, s, he, hevent⟩ := event_of_getElem? hcompleted
  obtain ⟨ticket, rfl⟩ := completionOf_eq_some he
  obtain ⟨nowMs, sleptMs, _, ⟨e', hmem, rfl⟩, hd⟩ :=
    CallRun.dated hr (hevent 0 (by decide)) Sample.publishedAt_outcome
  have hlate := hall h c hr _ _ _ _ _ hd
  have hreal := hclock e' hmem
  have httl : (Sample.publishedAt 5000).ttlMs = 60000 := rfl
  simp only at hlate
  omega

/-- A call that waits for as long as it takes itself to have waited. -/
theorem waiting_dates_publication_waited :
    ∃ h c receivedMs stored,
      CallRun Sample.externals (fun s a => Sample.fromZero s a = true) h c ∧
      Dated Sample.externals (fun s a => Sample.fromZero s a = true) h 0 5000 receivedMs 60000 stored ∧
      (stored.freshUntil ≤ receivedMs + 60000 ↔
        0 + 5000 ≤ receivedMs ∨ int64Max ≤ receivedMs + 60000) ∧
      ((5000 : Int) = 0 → stored.freshUntil ≤ receivedMs + 60000) := by
  have hrun : (replay (issuerKeyFetchCached Sample.externals) Sample.fromZero 2 0
    (Sample.waiting 5000)).any (fun p => decide
      (p.1[0]?.bind (fun e => completionOf e.1) = some (1, Sample.publishedAt 5000, true))) = true := by
    decide +kernel
  obtain ⟨h, c, hr, htest⟩ := replay_any hrun
  obtain ⟨e, s, he, hevent⟩ := event_of_getElem? (of_decide_eq_true htest)
  obtain ⟨ticket, rfl⟩ := completionOf_eq_some he
  obtain ⟨nowMs, sleptMs, receivedMs, _, hd⟩ :=
    CallRun.dated hr (hevent 0 (by decide)) Sample.publishedAt_outcome
  have hzero {s : Shared} {args : FetchArgs} (ha : Sample.fromZero s args = true) :
      args.nowMs = 0 ∧ 0 ≤ s.clockMs := by
    simpa [Sample.fromZero] using ha
  obtain ⟨s', args, hadmitted, rfl⟩ := hd.admitted
  have hfresh : (65000 : Int) = min (args.nowMs + sleptMs + 60000) int64Max := hd.freshUntil
  obtain rfl : sleptMs = 5000 := by
    have hnow := (hzero hadmitted).1
    unfold int64Max at hfresh
    omega
  rw [(hzero hadmitted).1] at hd
  have hclock : ∀ s args, Sample.fromZero s args = true → args.nowMs ≤ s.clockMs := by
    intro s args ha
    have hboth := hzero ha
    omega
  exact ⟨h, c, receivedMs, _, hr, hd, waiting_dates_publication hclock hd⟩

end OAuthValidator
