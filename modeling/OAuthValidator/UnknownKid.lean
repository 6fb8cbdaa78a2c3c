import OAuthValidator.Cooldown
import OAuthValidator.WaitingClock

/-! How often an unknown key id can make the validator fetch the JWKS. The
cooldown is kept in the slot of the JWKS entry and only for calls that found a
document there, so it binds requests that are made with the entry in place. A
call that finds nothing is not held back, and leaves nothing behind. -/

namespace OAuthValidator

open ExpiringMap Interleaving

/-- A call holds the refresh of an entry for an unknown key id, begun at `nowMs`
of its own clock, and has not sent its request yet. -/
def Flagged (call : Call CallOp CallOp.Ans FetchArgs FetchReturn) (key : Bytes) (nowMs : Int) : Prop :=
  ∃ (s : Stage) (l : IoLookup) (ticket : CacheRefresh),
    call.trace = s.begun l true .started ticket ∧ s.key = key ∧ s.nowMs = nowMs

theorem Flagged.owned {call : Call CallOp CallOp.Ans FetchArgs FetchReturn} {key : Bytes} {nowMs : Int}
    (h : Flagged call key nowMs) : ∃ ticket, OAuthValidator.owned call.trace = some (key, ticket) := by
  obtain ⟨s, l, ticket, htr, rfl, _⟩ := h
  exact ⟨ticket, by rw [htr]; rfl⟩

theorem CallIssues.begin_cooldown {ext : Externals} {args : FetchArgs} {tr : CallTrace} {key : Bytes}
    {nowMs cooldownMs : Int} (h : CallIssues ext args tr (.begin key nowMs true cooldownMs)) :
    ∃ x, args.cached = some x ∧ cooldownMs = x.cache.unknownKidRefreshCooldownMs := by
  rcases h with ⟨x, hx, h⟩ | ⟨call, _, _, h⟩
  · cases h with
    | begin o refresh =>
      cases o with
      | metadata _ =>
        simp only [metadataStage] at refresh
        split at refresh <;> simp at refresh
      | jwks _ => exact ⟨x, hx, rfl⟩
    | wait _ _ w => cases w
  · cases h

section Runs

variable {ext : Externals} {admits : Shared → FetchArgs → Prop} {h past : CallHistory} {c : CallConfig}

/-- The operation that makes a call hold a refresh for an unknown key id. -/
theorem flagged_cons {args : FetchArgs} {tr : CallTrace} {op : CallOp} {answer : op.Ans}
    {rest : CallProg FetchReturn} {key : Bytes} {nowMs : Int} {s s' : Shared} (hinv : s.cache.Inv)
    (hop : CallIssues ext args tr op) (hp : perform s op answer s')
    (hf : Flagged ⟨args, ⟨op, answer⟩ :: tr, rest⟩ key nowMs) :
    ∃ x, args.cached = some x ∧ cooldownOf s'.cache key = some (some nowMs) ∧
      ∀ last, cooldownOf s.cache key = some (some last) →
        last + x.cache.unknownKidRefreshCooldownMs ≤ nowMs := by
  obtain ⟨st, l, ticket, htr, rfl, rfl⟩ := hf
  cases htr
  obtain ⟨x, hx, hcooldown⟩ := hop.begin_cooldown
  obtain ⟨hnew, hgate⟩ := perform_cooldown_begin hinv hp
  exact ⟨x, hx, hnew, hcooldown ▸ hgate⟩

/-- A refresh that a call holds is not completed by another call. -/
theorem CallRun.complete_other (hr : CallRun ext admits h c) {i j : Nat} (hij : i ≠ j) {key : Bytes}
    {ticket : CacheRefresh} (hi : holder c i = some (key, ticket))
    {args : FetchArgs} {tr : CallTrace} {op : CallOp} {rest : CallProg FetchReturn}
    (hj : c.calls j = some ⟨args, tr, rest⟩) (hop : CallIssues ext args tr op) (t : CacheRefresh)
    (comp : Completion) (he : op = .complete t comp) : pendingKey c.shared.cache t ≠ some key := by
  subst he
  intro hp
  obtain ⟨key', hown⟩ := hop.complete_owned
  obtain ⟨hheld, hexcl⟩ := CallRun.held hr
  have hj' : holder c j = some (key', t) := holder_eq_some_iff.mpr ⟨_, hj, hown⟩
  have hp' := (hheld.pending t key').mpr ⟨j, hj'⟩
  obtain rfl := Option.some.inj (hp'.symm.trans hp)
  exact hij (hheld.key_unique hexcl hi hj')

/-- The slot of a refresh for an unknown key id remembers when it was begun. -/
theorem CallRun.noted (hr : CallRun ext admits h c) {i : Nat}
    {call : Call CallOp CallOp.Ans FetchArgs FetchReturn} (hc : c.calls i = some call) {key : Bytes}
    {nowMs : Int} (hf : Flagged call key nowMs) : cooldownOf c.shared.cache key = some (some nowMs) := by
  refine Run.induct (issuerKeyFetchCached_sat ext) (P := fun _ c => ∀ i call key nowMs,
    c.calls i = some call → Flagged call key nowMs →
      cooldownOf c.shared.cache key = some (some nowMs)) ?_ ?_ ?_ ?_ hr i call key nowMs hc hf
  · intro s _ i call key nowMs hc
    simp at hc
  · intro h c j args _ ih _ _ i call key nowMs hc hf
    rcases updated_call hc with ⟨rfl, rfl⟩ | ⟨_, hc⟩
    · obtain ⟨s, l, ticket, htr, _⟩ := hf
      simp [Stage.begun] at htr
    · exact ih i call key nowMs hc hf
  · intro h c j args tr op next answer s hr ih hcall hop hp i call key nowMs hc hf
    rcases updated_call hc with ⟨rfl, rfl⟩ | ⟨hij, hc⟩
    · obtain ⟨_, _, hnew, _⟩ := flagged_cons (CallRun.inv hr) hop hp hf
      exact hnew
    · -- the slot is being refreshed by the call `i`, and `j` does not complete that refresh
      obtain ⟨ticket, hown⟩ := hf.owned
      have hi : holder c i = some (key, ticket) := holder_eq_some_iff.mpr ⟨call, hc, hown⟩
      have hpending := ((CallRun.held hr).1.pending ticket key).mpr ⟨i, hi⟩
      have hsame := perform_cooldown_held (CallRun.inv hr) hp hpending
        (CallRun.complete_other hr hij hi hcall hop)
      exact hsame.trans (ih i call key nowMs hc hf)
  · intro h c s _ ih hd i call key nowMs hc hf
    show cooldownOf s.cache key = _
    rw [hd.1]
    exact ih i call key nowMs hc hf

/-- The entry under a key has been in its slot since the point `past`. -/
def KeptSince (h past : CallHistory) (key : Bytes) : Prop :=
  ∀ e s point, (e, s) :: point <:+ h → past <:+ point → Occupied s.cache key

theorem KeptSince.of_cons {e : Event CallOp CallOp.Ans FetchArgs} {s : Shared} {key : Bytes}
    (hk : KeptSince ((e, s) :: h) past key) (hle : past <:+ h) :
    KeptSince h past key ∧ Occupied s.cache key :=
  ⟨fun e' s' point hs hp => hk e' s' point (hs.trans (List.suffix_cons _ _)) hp,
    hk e s h List.suffix_rfl hle⟩

/-- After a request for an unknown key id whose entry has stayed in place, the
slot remembers the time of the request or a later one, and whoever holds a
refresh for an unknown key id began it a cooldown later. -/
def Cooled (ext : Externals) (admits : Shared → FetchArgs → Prop) (cooldownMs : Int) (h : CallHistory)
    (c : CallConfig) : Prop :=
  ∀ past c' y base key nowMs l response,
    JwksResponse ext admits h past c' y base key nowMs l true response → KeptSince h past key →
    Occupied c.shared.cache key →
    (∃ last, nowMs ≤ last ∧ cooldownOf c.shared.cache key = some (some last)) ∧
      ∀ i call nowMs', c.calls i = some call → Flagged call key nowMs' → nowMs + cooldownMs ≤ nowMs'

/-- The request of a call, as the last event or an earlier one. -/
theorem JwksResponse.of_cons {e : Event CallOp CallOp.Ans FetchArgs × Shared} {c' : CallConfig}
    {y : CachedCall} {base : CallTrace} {key : Bytes} {nowMs : Int} {l : IoLookup} {unknownKid : Bool}
    {response : HttpResponse}
    (x : JwksResponse ext admits (e :: h) past c' y base key nowMs l unknownKid response) :
    (∃ i url policy call, e = (.act i (.transfer url policy) (.ok response), c'.shared) ∧ h = past ∧
      c'.calls i = some call ∧ (unknownKid = true → Flagged call key nowMs) ∧ CallRun ext admits h c') ∨
    (JwksResponse ext admits h past c' y base key nowMs l unknownKid response ∧ past <:+ h) := by
  obtain ⟨x, hy, ready, refresh⟩ := x
  rcases x.of_cons with ⟨he, rfl⟩ | x
  · obtain ⟨next, hcall⟩ := x.call
    refine Or.inl ⟨_, _, _, _, he, rfl, hcall, ?_, x.run⟩
    rintro rfl
    exact ⟨_, _, _, rfl, rfl, rfl⟩
  · exact Or.inr ⟨⟨x, hy, ready, refresh⟩, x.past_suffix⟩

theorem CallRun.cooled {cooldownMs : Int} (hpolicy : ∀ s args x, admits s args → args.cached = some x →
      x.cache.unknownKidRefreshCooldownMs = cooldownMs) (hr : CallRun ext admits h c) :
    Cooled ext admits cooldownMs h c := by
  refine Run.induct (issuerKeyFetchCached_sat ext) (P := Cooled ext admits cooldownMs) ?_ ?_ ?_ ?_ hr
  · intro s _ past c' y base key nowMs l response hx
    obtain ⟨x, _⟩ := hx
    obtain ⟨later, hl⟩ := x.history
    simp at hl
  · intro h c j args _ ih _ _ past c' y base key nowMs l response hx hkept hslot
    rcases hx.of_cons with ⟨_, _, _, _, he, _⟩ | ⟨hx, hle⟩
    · simp at he
    · obtain ⟨hkept, _⟩ := hkept.of_cons hle
      obtain ⟨hlast, hcalls⟩ := ih past c' y base key nowMs l response hx hkept hslot
      refine ⟨hlast, fun i call nowMs' hc hf => ?_⟩
      rcases updated_call hc with ⟨rfl, rfl⟩ | ⟨_, hc⟩
      · obtain ⟨s, l, ticket, htr, _⟩ := hf
        simp [Stage.begun] at htr
      · exact hcalls i call nowMs' hc hf
  · intro h c j args tr op next answer s hr ih hcall hop hp past c' y base key nowMs l response hx hkept
      hslot
    rcases hx.of_cons with ⟨i, url, policy, call, he, rfl, hc', hflag, hr'⟩ | ⟨hx, hle⟩
    · -- the request itself: it is remembered, and nobody else holds the entry
      have hcalls := Run.calls_eq hr hr'
      have hflag := hflag rfl
      obtain ⟨hact, hshared⟩ := Prod.mk.inj he
      cases hact
      obtain ⟨-, rfl⟩ := hp
      refine ⟨⟨nowMs, Int.le_refl _, ?_⟩, fun i' call' nowMs' hc hf => ?_⟩
      · show cooldownOf c.shared.cache key = _
        rw [hshared]
        exact CallRun.noted hr' hc' hflag
      · rcases updated_call hc with ⟨rfl, rfl⟩ | ⟨hne, hc⟩
        · obtain ⟨s, l, ticket, htr, _⟩ := hf
          cases htr
        · obtain ⟨ticket, hown⟩ := hflag.owned
          obtain ⟨ticket', hown'⟩ := hf.owned
          obtain ⟨hheld, hexcl⟩ := CallRun.held hr
          exact absurd (hheld.key_unique hexcl (holder_eq_some_iff.mpr ⟨_, hc, hown'⟩)
            (holder_eq_some_iff.mpr ⟨_, hcalls ▸ hc', hown⟩)) hne
    · obtain ⟨hkept, hbefore⟩ := hkept.of_cons hle
      obtain ⟨⟨last, hle, hlast⟩, hcalls⟩ := ih past c' y base key nowMs l response hx hkept hbefore
      refine ⟨?_, fun i call nowMs' hc hf => ?_⟩
      · obtain ⟨last', hle', hlast'⟩ := perform_cooldown_later (CallRun.inv hr) hp hlast hslot
        exact ⟨last', Int.le_trans hle hle', hlast'⟩
      · rcases updated_call hc with ⟨rfl, rfl⟩ | ⟨_, hc⟩
        · obtain ⟨x, hx, _, hgate⟩ := flagged_cons (CallRun.inv hr) hop hp hf
          obtain ⟨s₀, hadmit⟩ := Run.admitted hr hcall
          have hwait := hgate last hlast
          rw [hpolicy s₀ args x hadmit hx] at hwait
          omega
        · exact hcalls i call nowMs' hc hf
  · intro h c s _ ih hd past c' y base key nowMs l response hx hkept hslot
    rcases hx.of_cons with ⟨_, _, _, _, he, _⟩ | ⟨hx, hle⟩
    · simp at he
    · obtain ⟨hkept, hbefore⟩ := hkept.of_cons hle
      show (∃ last, nowMs ≤ last ∧ cooldownOf s.cache key = some (some last)) ∧ _
      rw [hd.1]
      exact ih past c' y base key nowMs l response hx hkept hbefore

/-- At the point `past` a call was answered with a document that does not
contain its key id. It had looked the entry up before, with the answer `l`. -/
def UnknownKidRequest (ext : Externals) (admits : Shared → FetchArgs → Prop) (h past : CallHistory)
    (y : CachedCall) (base : CallTrace) (key : Bytes) (l : IoLookup) : Prop :=
  ∃ c' nowMs unknownKid response,
    JwksResponse ext admits h past c' y base key nowMs l unknownKid response ∧
    selectKey ext y.call response.body = .error .keyNotFound

/-- Requests for unknown key ids are made a cooldown apart. -/
def RateLimited (ext : Externals) (admits : Shared → FetchArgs → Prop) (cooldownMs : Int)
    (h : CallHistory) : Prop :=
  ∀ past past' y y' base base' key key' l l', UnknownKidRequest ext admits h past' y' base' key' l' →
    UnknownKidRequest ext admits past' past y base key l →
    y.call.nowMs + cooldownMs ≤ y'.call.nowMs

/-- The request was made by a call that had not slept and had found a document
without its key id under the key, and the entry stays in place after it. -/
structure Restrained (ext : Externals) (h past : CallHistory) (y : CachedCall) (base : CallTrace)
    (key : Bytes) (l : IoLookup) : Prop where
  usable : l.usable = true
  unknown : selectKey ext y.call l.payload = .error .keyNotFound
  awake : timeSlept base = 0
  kept : KeptSince h past key

theorem UnknownKidRequest.mono {point : CallHistory} {y : CachedCall} {base : CallTrace} {key : Bytes}
    {l : IoLookup} (hx : UnknownKidRequest ext admits point past y base key l) (hle : point <:+ h) :
    UnknownKidRequest ext admits h past y base key l := by
  obtain ⟨c', nowMs, unknownKid, response, ⟨x, hy, ready, refresh⟩, hselect⟩ := hx
  exact ⟨c', nowMs, unknownKid, response, ⟨x.mono hle, hy, ready, refresh⟩, hselect⟩

theorem UnknownKidRequest.within {point : CallHistory} {y : CachedCall} {base : CallTrace} {key : Bytes}
    {l : IoLookup} (hx : UnknownKidRequest ext admits h past y base key l) (hle : point <:+ h)
    (hlt : past.length < point.length) : UnknownKidRequest ext admits point past y base key l := by
  obtain ⟨c', nowMs, unknownKid, response, ⟨x, hy, ready, refresh⟩, hselect⟩ := hx
  exact ⟨c', nowMs, unknownKid, response, ⟨x.within hle hlt, hy, ready, refresh⟩, hselect⟩

/-- A call that had found a document without its key id refreshes for it, at
the time it was started with. -/
theorem Restrained.flagged {c' : CallConfig} {y : CachedCall} {base : CallTrace} {key : Bytes}
    {nowMs : Int} {l : IoLookup} {unknownKid : Bool} {response : HttpResponse} {point : CallHistory}
    (hr : Restrained ext h past y base key l)
    (hx : JwksResponse ext admits point past c' y base key nowMs l unknownKid response) :
    unknownKid = true ∧ nowMs = y.call.nowMs := by
  obtain ⟨_, _, ready, refresh⟩ := hx
  constructor
  · simpa [jwksStage, hr.usable, hr.unknown] using refresh.symm
  · have hclock : nowMs = y.call.nowMs + timeSlept base := (StageOpen.jwks ready).clock
    rw [hr.awake] at hclock
    omega

theorem unknown_kid_rate_limited {cooldownMs : Int} (key : Bytes)
    (hpolicy : ∀ s args x, admits s args → args.cached = some x →
      x.cache.unknownKidRefreshCooldownMs = cooldownMs)
    (hsteps : ∀ past y base k l, UnknownKidRequest ext admits h past y base k l →
      k = key ∧ Restrained ext h past y base key l) :
    RateLimited ext admits cooldownMs h := by
  intro past past' y y' base base' k k' l l' hlater hearlier
  obtain ⟨c₂, nowMs₂, flag₂, response₂, hx₂, hunknown₂⟩ := hlater
  obtain ⟨x₂, _, _, _⟩ := id hx₂
  obtain ⟨rfl, hr₁⟩ := hsteps _ _ _ _ _ (hearlier.mono x₂.past_suffix)
  obtain ⟨rfl, hr₂⟩ := hsteps _ _ _ _ _ ⟨c₂, nowMs₂, flag₂, response₂, hx₂, hunknown₂⟩
  obtain ⟨c₁, nowMs₁, flag₁, response₁, hx₁, _⟩ := hearlier
  obtain ⟨rfl, rfl⟩ := hr₁.flagged hx₁
  obtain ⟨rfl, rfl⟩ := hr₂.flagged hx₂
  obtain ⟨x₁, _, _, _⟩ := id hx₁
  obtain ⟨next, hcall⟩ := x₂.call
  obtain ⟨later, hh⟩ := x₂.history
  -- the entry is still there when the second call sends its request
  have hslot : Occupied c₂.shared.cache k' := hr₁.kept _ _ _ ⟨later, hh.symm⟩ x₁.past_suffix
  have hkept : KeptSince past' past k' := fun e s point hs hp =>
    hr₁.kept e s point (hs.trans x₂.past_suffix) hp
  have hcooled := CallRun.cooled hpolicy x₂.run _ _ _ _ _ _ _ _ hx₁ hkept hslot
  exact hcooled.2 _ _ _ hcall ⟨_, _, _, rfl, rfl, rfl⟩

/-- Calls start in the order of their times, and every request is answered. -/
structure Orderly (h : CallHistory) : Prop where
  ordered : (h.filterMap fun e => startOf e.1).Pairwise fun later earlier =>
    earlier.2.nowMs ≤ later.2.nowMs
  answered : ∀ e ∈ h, failedRequest e.1 = false

instance (h : CallHistory) : Decidable (Orderly h) :=
  decidable_of_iff (_ ∧ _) ⟨fun ⟨ho, ha⟩ => ⟨ho, ha⟩, fun ⟨ho, ha⟩ => ⟨ho, ha⟩⟩

end Runs

namespace Sample

/-- Calls for two key ids under one policy. -/
def eitherKid (_ : Shared) (a : FetchArgs) : Bool :=
  a == args "a" a.nowMs || a == args "b" a.nowMs

/-- Two calls for a key id that the issuer does not have find no JWKS. -/
def coldTwice : List (Choice FetchArgs) :=
  [.start 0 (args "b" 0)] ++ refreshBoth 0 (respond (keyText "a" pointA)) ++
    [.start 1 (args "b" 1)] ++ steps 1 3 ++ [.step 1 (respond (keyText "a" pointA))] ++ steps 1 1

def responseA : HttpResponse :=
  ⟨keyText "a" pointA, 200, some (.lit "max-age=60"), none, none, none⟩

/-- Both calls are answered with the document that lacks the key. -/
def ColdTwiceEvents (h : CallHistory) (c : CallConfig) : Prop :=
  h[1]?.bind (fun e => responseOf e.1) = some (1, .lit "https://i/k", responseA) ∧
    h[7]?.bind (fun e => responseOf e.1) = some (0, .lit "https://i/k", responseA) ∧
    (c.calls 0).map (fun call => call.arg) = some (args "b" 0) ∧
    (c.calls 1).map (fun call => call.arg) = some (args "b" 1) ∧
    h.length = 15 ∧ Orderly h

instance (h : CallHistory) (c : CallConfig) : Decidable (ColdTwiceEvents h c) :=
  inferInstanceAs (Decidable (_ ∧ _))

end Sample

/-- A response to a call for the key `b` that has only the key `a`. -/
theorem Sample.unknownKidRequest {h : CallHistory} {c : CallConfig}
    (hr : CallRun externals (fun s a => eitherKid s a = true) h c) {n i : Nat} {nowMs : Int}
    (he : h[n]?.bind (fun e => responseOf e.1) = some (i, .lit "https://i/k", responseA))
    (hc : (c.calls i).map (fun call => call.arg) = some (args "b" nowMs)) :
    ∃ base key l, UnknownKidRequest externals (fun s a => eitherKid s a = true) h (h.drop (n + 1))
      (call "b" nowMs) base key l := by
  obtain ⟨e, s, he, hevent⟩ := event_of_getElem? he
  obtain ⟨http, rfl⟩ := responseOf_eq_some he
  obtain ⟨caller, hc, harg⟩ := Option.map_eq_some_iff.mp hc
  obtain ⟨c', base, key, t, l, unknownKid, _, _, hx⟩ := CallRun.jwksResponse (y := call "b" nowMs) hr
    (hevent 0 (Nat.zero_le n)) hc (harg ▸ args_cached "b" nowMs)
    (show CString.lit "https://i/k" ≠ .lit "https://i/m" by decide)
  have hselect : jwksSelect externals (keyText "a" pointA) (.lit "b") algorithmEddsa policy.jwks =
      .error .keyNotFound := by
    decide +kernel
  exact ⟨base, key, l, c', t, unknownKid, responseA, hx, hselect⟩

/-- Nothing holds back a call that finds no JWKS. -/
theorem unknown_kid_unlimited :
    ¬ ∀ h c, CallRun Sample.externals (fun s a => Sample.eitherKid s a = true) h c → Orderly h →
      RateLimited Sample.externals (fun s a => Sample.eitherKid s a = true) 30000 h := by
  intro hall
  have hrun : (replay (issuerKeyFetchCached Sample.externals) Sample.eitherKid 2 0 Sample.coldTwice).any
      (fun p => decide (Sample.ColdTwiceEvents p.1 p.2)) = true := by
    decide +kernel
  obtain ⟨h, c, hr, htest⟩ := replay_any hrun
  obtain ⟨hlater, hearlier, hfirst, hsecond, hlength, horderly⟩ := of_decide_eq_true htest
  obtain ⟨base', key', l', hx'⟩ := Sample.unknownKidRequest hr hlater hsecond
  obtain ⟨base, key, l, hx⟩ := Sample.unknownKidRequest hr hearlier hfirst
  have hbefore := hx.within (List.drop_suffix 2 h) (by simp [hlength])
  have hapart := hall h c hr horderly _ _ _ _ _ _ _ _ _ _ hx' hbefore
  simp [Sample.call] at hapart

/-- What a history records of a request for an unknown key id. -/
theorem UnknownKidRequest.events {ext : Externals} {admits : Shared → FetchArgs → Prop}
    {h past : CallHistory} {y : CachedCall} {base : CallTrace} {key : Bytes} {l : IoLookup}
    (hx : UnknownKidRequest ext admits h past y base key l) :
    ∃ i args url response nowMs, (∃ e ∈ h, startOf e.1 = some (i, args)) ∧ args.cached = some y ∧
      (∃ e, e :: past <:+ h ∧ responseOf e.1 = some (i, url, response)) ∧
      cacheKeyBuild (y.jwksKeyPolicy url) = .ok key ∧
      (∃ e ∈ h, lookupOf e.1 = some (i, key, nowMs, l)) ∧ nowMs = y.call.nowMs + timeSlept base ∧
      selectKey ext y.call response.body = .error .keyNotFound := by
  obtain ⟨c', nowMs, unknownKid, response, ⟨x, hy, ready, refresh⟩, hselect⟩ := hx
  obtain ⟨next, hcall⟩ := x.call
  obtain ⟨later, hh⟩ := x.history
  obtain ⟨s, hstart⟩ := Run.start_mem x.run hcall
  obtain ⟨h', c'', s', lookup⟩ := Run.exchange x.run hcall
    (show _ = [_] ++ ⟨.lookup key nowMs _ _, l⟩ :: base from rfl)
  exact ⟨_, _, _, response, nowMs, ⟨_, x.past_subset hstart, rfl⟩, hy, ⟨_, ⟨later, hh.symm⟩, rfl⟩, ready.key,
    ⟨_, x.past_subset lookup.mem, rfl⟩, (StageOpen.jwks ready).clock, hselect⟩

namespace Sample

/-- The key `a` is cached and `b` is asked for twice, forty seconds apart. -/
def warmTwice : List (Choice FetchArgs) :=
  [.start 0 (args "a" 0)] ++ refreshBoth 0 (respond (keyText "a" pointA)) ++
    [.start 1 (args "b" 10)] ++ steps 1 3 ++ [.step 1 (respond (keyText "a" pointA))] ++ steps 1 1 ++
    [.start 2 (args "b" 40010)] ++ steps 2 3 ++ [.step 2 (respond (keyText "a" pointA))] ++ steps 2 1

def freshA : IoLookup :=
  ⟨.fresh, .ok, keyText "a" pointA⟩

/-- Who is started and answered, what the calls for `b` find, and that the JWKS
entry is in place from the first answer to such a call on. -/
structure WarmTwiceEvents (h : CallHistory) : Prop where
  starts : h.filterMap (fun e => startOf e.1) = [(2, args "b" 40010), (1, args "b" 10), (0, args "a" 0)]
  answers : ∀ r ∈ h.filterMap (fun e => responseOf e.1), r.1 = 0 ∨ r.2 = (.lit "https://i/k", responseA)
  known : ∀ r ∈ h.filterMap (fun e => responseOf e.1), r.1 = 0 →
    selectKey externals (call "a" 0).call r.2.2.body ≠ .error .keyNotFound
  lookups : ∀ q ∈ h.filterMap (fun e => lookupOf e.1), q.2.1 = jwksKey → q.1 ≠ 0 →
    q.2.2.2 = freshA ∧ q.2.2.1 = if q.1 = 1 then 10 else 40010
  first : ∀ r ∈ (h.drop 8).filterMap (fun e => responseOf e.1), r.1 = 0
  kept : ∀ e ∈ h.take 8, ∃ entry ∈ e.2.cache.entries, ownerKey entry = some jwksKey

instance (h : CallHistory) : Decidable (WarmTwiceEvents h) :=
  decidable_of_iff (_ ∧ _ ∧ _ ∧ _ ∧ _ ∧ _)
    ⟨fun ⟨h₁, h₂, h₃, h₄, h₅, h₆⟩ => ⟨h₁, h₂, h₃, h₄, h₅, h₆⟩,
      fun ⟨h₁, h₂, h₃, h₄, h₅, h₆⟩ => ⟨h₁, h₂, h₃, h₄, h₅, h₆⟩⟩

end Sample

theorem Sample.eitherKid_cooldown (s : Shared) (a : FetchArgs) (x : CachedCall)
    (ha : eitherKid s a = true) (hx : a.cached = some x) :
    x.cache.unknownKidRefreshCooldownMs = 30000 := by
  simp only [eitherKid, Bool.or_eq_true, beq_iff_eq] at ha
  obtain ⟨kid, hkid⟩ : ∃ kid, a = args kid a.nowMs := ha.elim (⟨"a", ·⟩) (⟨"b", ·⟩)
  rw [hkid, args_cached] at hx
  obtain rfl := Option.some.inj hx
  rfl

theorem Sample.restrained {h past : CallHistory} {y : CachedCall} {base : CallTrace} {k : Bytes}
    {l : IoLookup} (hevents : WarmTwiceEvents h)
    (hx : UnknownKidRequest externals (fun s a => eitherKid s a = true) h past y base k l) :
    k = jwksKey ∧ Restrained externals h past y base jwksKey l := by
  obtain ⟨i, a, url, response, nowMs, ⟨e₁, hm₁, hstart⟩, hy, ⟨e₂, hsuffix, hanswer⟩, hkey,
    ⟨e₃, hm₃, hlookup⟩, hclock, hselect⟩ := hx.events
  have hstarts : (i, a) ∈ h.filterMap fun e => startOf e.1 :=
    List.mem_filterMap.mpr ⟨e₁, hm₁, hstart⟩
  have hanswers : (i, url, response) ∈ h.filterMap fun e => responseOf e.1 :=
    List.mem_filterMap.mpr ⟨e₂, hsuffix.subset List.mem_cons_self, hanswer⟩
  have hlookups : (i, k, nowMs, l) ∈ h.filterMap fun e => lookupOf e.1 :=
    List.mem_filterMap.mpr ⟨e₃, hm₃, hlookup⟩
  rw [hevents.starts] at hstarts
  -- the call for `a` is not answered with an unknown key id
  obtain ⟨hne, rfl⟩ : i ≠ 0 ∧ a = args "b" (if i = 1 then 10 else 40010) := by
    simp only [List.mem_cons, Prod.mk.injEq, List.not_mem_nil, or_false] at hstarts
    rcases hstarts with ⟨rfl, rfl⟩ | ⟨rfl, rfl⟩ | ⟨rfl, rfl⟩
    · exact ⟨by decide, rfl⟩
    · exact ⟨by decide, rfl⟩
    · obtain rfl := Option.some.inj ((args_cached "a" 0).symm.trans hy)
      exact absurd hselect (hevents.known _ hanswers rfl)
  obtain rfl := Option.some.inj ((args_cached "b" _).symm.trans hy)
  obtain ⟨rfl, rfl⟩ := Prod.mk.inj ((hevents.answers _ hanswers).resolve_left hne)
  have hk : k = jwksKey := Except.ok.inj (hkey.symm.trans (jwksKey_eq "b" _))
  obtain ⟨hl, htime⟩ := hevents.lookups _ hlookups hk hne
  simp only at hl htime
  refine ⟨hk, by rw [hl]; rfl, by rw [hl]; exact hselect, ?_, fun e s point hs hp => ?_⟩
  · have hnow : nowMs = (if i = 1 then 10 else 40010) + timeSlept base := hclock
    omega
  · have hlength : h.length - past.length ≤ 8 := by
      by_contra hlong
      have hlate := List.suffix_of_suffix_length_le hsuffix (List.drop_suffix 8 h)
        (by rw [List.length_drop, List.length_cons]; omega)
      exact hne (hevents.first _ (List.mem_filterMap.mpr
        ⟨e₂, hlate.subset List.mem_cons_self, hanswer⟩))
    exact hevents.kept _ ((List.take_prefix_take_left hlength).subset (mem_take_of_suffix hs hp))

/-- Two requests for the key `b` with the document of `a` in the cache. -/
theorem unknown_kid_rate_limited_warm :
    ∃ h c, CallRun Sample.externals (fun s a => Sample.eitherKid s a = true) h c ∧
      Sample.WarmTwiceEvents h ∧
      RateLimited Sample.externals (fun s a => Sample.eitherKid s a = true) 30000 h := by
  have hrun : (replay (issuerKeyFetchCached Sample.externals) Sample.eitherKid 2 0 Sample.warmTwice).any
      (fun p => decide (Sample.WarmTwiceEvents p.1)) = true := by
    decide +kernel
  obtain ⟨h, c, hr, htest⟩ := replay_any hrun
  have hevents := of_decide_eq_true htest
  refine ⟨h, c, hr, hevents, unknown_kid_rate_limited Sample.jwksKey Sample.eitherKid_cooldown ?_⟩
  intro past y base k l hx
  exact Sample.restrained hevents hx

end OAuthValidator
