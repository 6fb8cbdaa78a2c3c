import OAuthValidator.Publication
import OAuthValidator.Replay

/-! Whether a newer JWKS document overrules a stale one. A response without the
key is completed as a failed refresh, which leaves the older document in its
slot, so a later outage can bring the withdrawn key back. It cannot when the
cache holds nothing to fall back on as the response arrives. -/

namespace OAuthValidator

open ExpiringMap Interleaving

section Runs

variable {ext : Externals} {admits : Shared → FetchArgs → Prop} {h : CallHistory} {c : CallConfig}

/-- At the point `past` a call received, for the entry under `key`, a document
that does not contain the key id. -/
def Withdrawn (ext : Externals) (admits : Shared → FetchArgs → Prop) (policy : JwksPolicy)
    (h past : CallHistory) (key : Bytes) (keyId : CString) (algorithm : UInt32) (s : Shared) : Prop :=
  ∃ c' y base nowMs l unknownKid response, c'.shared = s ∧
    JwksResponse ext admits h past c' y base key nowMs l unknownKid response ∧
    jwksSelect ext response.body keyId algorithm policy = .error .keyNotFound

/-- A call returned the key of a stale document that it had copied at the point
`past` from the entry under `key`. -/
inductive TakenStale (ext : Externals) (h past : CallHistory) (c : CallConfig) (key : Bytes)
    (keyId : CString) (algorithm : UInt32) (stored : Stored Bytes Int) : Prop
  | intro {j : Nat} {call : Call CallOp CallOp.Ans FetchArgs FetchReturn} {x : CachedCall}
      {r : FetchReturn} {selected : SelectedJwk} {nowMs : Int} {allowStale : Bool} {outputSize : Nat}
      {l : IoLookup} {s : Shared}
      (event : (.act j (.lookup key nowMs allowStale outputSize) l, s) :: past <:+ h)
      (caller : c.calls j = some call) (cached : call.arg.cached = some x)
      (sameId : x.call.keyId = keyId) (sameAlgorithm : x.call.tokenAlgorithm = algorithm)
      (returned : call.rest = .ret r) (ok : r.1 = .ok) (result : r.2.selected = some selected)
      (usable : l.usable = true) (stale : l.freshness = .stale)
      (found : cacheMap s.cache key = some stored)
      (select : selectKey ext x.call l.payload = .ok selected)

/-- A value was published under the key at the point `past` or later. -/
def PublishedSince (h past : CallHistory) (key : Bytes) (stored : Stored Bytes Int) : Prop :=
  ∃ i ticket comp s point, (.act i (.complete ticket comp) true, s) :: point <:+ h ∧
    past <:+ point ∧ pendingKey s.cache ticket = some key ∧ comp.outcome = .put stored

/-- Whoever takes a stale document after a newer one without the key has arrived
takes one that was published after that. -/
def NewerAuthoritative (ext : Externals) (admits : Shared → FetchArgs → Prop) (policy : JwksPolicy)
    (h : CallHistory) (c : CallConfig) : Prop :=
  ∀ key keyId algorithm s past stored later, Withdrawn ext admits policy h past key keyId algorithm s →
    TakenStale ext h later c key keyId algorithm stored → (∃ e, (e, s) :: past <:+ later) →
    PublishedSince later past key stored

/-- The cache holds no stale source of the key. -/
def NoFallback (ext : Externals) (policy : JwksPolicy) (cache : Cache) (key : Bytes) (keyId : CString)
    (algorithm : UInt32) : Prop :=
  ∀ stored, cacheMap cache key = some stored → stored.staleUntil ≤ stored.freshUntil ∨
    ∀ selected, jwksSelect ext stored.value keyId algorithm policy ≠ .ok selected

theorem Published.since {point past : CallHistory} {key : Bytes} {stored : Stored Bytes Int}
    (p : Published ext admits h point key stored) (hle : past <:+ point) :
    PublishedSince h past key stored := by
  obtain @⟨j, args, y, s, l, unknownKid, ticket, response, f, c', after, e, _, _, _, _, rfl, hput⟩ := p
  obtain ⟨later, hh⟩ := e.history
  obtain ⟨next, hc⟩ := e.call
  have hheld : pendingKey c'.shared.cache ticket = some s.key :=
    ((CallRun.held e.run).1.pending ticket s.key).mpr ⟨j, by simp [holder, hc]⟩
  exact ⟨j, ticket, _, c'.shared, point, ⟨later, hh.symm⟩, hle, hheld, hput⟩

theorem newer_jwks_authoritative {policy : IssuerKeyPolicy}
    (hpolicy : ∀ s args, admits s args → args.policy = some policy) (hr : CallRun ext admits h c)
    (hsteps : ∀ key keyId algorithm s past, Withdrawn ext admits policy.jwks h past key keyId algorithm s →
      NoFallback ext policy.jwks s.cache key keyId algorithm) :
    NewerAuthoritative ext admits policy.jwks h c := by
  intro key keyId algorithm s past stored later hw htaken ⟨e, hbefore⟩
  obtain @⟨j, call, x, r, selected, nowMs, allowStale, outputSize, l, s', hevent, hc, hx, rfl, rfl, _, _,
    _, hu, hstale, hstored, hselect⟩ := htaken
  obtain ⟨tr, c', after, rfl, lookup⟩ := Run.exchange_of_event hr hevent hc
  rcases CallRun.keptOrPublished lookup.run e s past hbefore key stored hstored with hold | ⟨point, hle, hp⟩
  · -- the document was there when the newer one arrived
    obtain ⟨found, hm, hpay, hfresh⟩ := sharedLookup_usable lookup.perform.1 hu
    obtain rfl := Option.some.inj (hm.symm.trans hstored)
    obtain ⟨_, hexpired, hwindow⟩ := freshnessAt_eq_stale_iff.mp (hfresh.symm.trans hstale)
    obtain ⟨s₀, hadmitted⟩ := Run.admitted hr hc
    have hsame : x.call.policy = policy :=
      FetchArgs.call_policy (FetchArgs.cached_call hx) (hpolicy s₀ call.arg hadmitted)
    rcases hsteps key _ _ s past hw found hold with hnone | hunknown
    · omega
    · unfold selectKey at hselect
      rw [hpay, hsame] at hselect
      exact absurd hselect (hunknown selected)
  · exact hp.since hle

end Runs

namespace Sample

/-- Calls for the key `a` under one policy. -/
def onlyA (_ : Shared) (a : FetchArgs) : Bool :=
  a == args "a" a.nowMs

/-- The key `a` is cached, a second call learns that it is gone, and a third
call finds the issuer down. -/
def outage : List (Choice FetchArgs) :=
  [.start 0 (args "a" 0)] ++ refreshBoth 0 (respond (keyText "a" pointA)) ++
    [.start 1 (args "a" 61000)] ++ refreshBoth 1 (respond (keyText "b" pointB)) ++
    [.start 2 (args "a" 61001)] ++ steps 2 5

def responseB : HttpResponse :=
  ⟨keyText "b" pointB, 200, some (.lit "max-age=60"), none, none, none⟩

def staleA : IoLookup :=
  ⟨.stale, .ok, keyText "a" pointA⟩

def selectedA : Option SelectedJwk :=
  (jwksSelect externals (keyText "a" pointA) (.lit "a") algorithmEddsa policy.jwks).toOption

/-- Call `i` receives a document without the key, `n` events before the last, and call
`j` copies and returns a stale one with the key, `m` events before the last. -/
def StaleAfter (i : Nat) (receivedMs : Int) (n : Nat) (j : Nat) (copiedMs : Int) (m : Nat) (h : CallHistory)
    (c : CallConfig) : Prop :=
  h[n]?.bind (fun e => responseOf e.1) = some (i, .lit "https://i/k", responseB) ∧
    (c.calls i).map (fun call => call.arg) = some (args "a" receivedMs) ∧
    h[m]?.bind (fun e => lookupOf e.1) = some (j, jwksKey, copiedMs, staleA) ∧
    (c.calls j).map (fun call => call.arg) = some (args "a" copiedMs) ∧
    (returned c j).map (fun r => (r.1, r.2.selected)) = some (.ok, selectedA)

instance (i : Nat) (receivedMs : Int) (n : Nat) (j : Nat) (copiedMs : Int) (m : Nat) (h : CallHistory)
    (c : CallConfig) : Decidable (StaleAfter i receivedMs n j copiedMs m h c) :=
  inferInstanceAs (Decidable (_ ∧ _))

theorem StaleAfter.taken {i j n m : Nat} {receivedMs copiedMs : Int} {h : CallHistory} {c : CallConfig}
    (hs : StaleAfter i receivedMs n j copiedMs m h c)
    (hr : CallRun externals (fun s a => onlyA s a = true) h c) (hlater : m < n) :
    ∃ s stored, Withdrawn externals (fun s a => onlyA s a = true) policy.jwks h (h.drop (n + 1)) jwksKey
        (.lit "a") algorithmEddsa s ∧
      TakenStale externals h (h.drop (m + 1)) c jwksKey (.lit "a") algorithmEddsa stored ∧
      ∃ e, (e, s) :: h.drop (n + 1) <:+ h.drop (m + 1) := by
  obtain ⟨hresponse, hfirst, hlookup, hsecond, hreturned⟩ := hs
  obtain ⟨e, s, he, hreceived⟩ := event_of_getElem? hresponse
  obtain ⟨http, rfl⟩ := responseOf_eq_some he
  obtain ⟨call, hc, harg⟩ := Option.map_eq_some_iff.mp hfirst
  have hcached : call.arg.cached = some (Sample.call "a" receivedMs) := harg ▸ args_cached "a" receivedMs
  have hurl : CString.lit "https://i/k" ≠ .lit "https://i/m" := by decide
  obtain ⟨c', base, key, nowMs, l, unknownKid, hs, hkey, hjwks⟩ :=
    CallRun.jwksResponse hr (hreceived 0 (Nat.zero_le n)) hc hcached hurl
  rw [Except.ok.inj (hkey.symm.trans (jwksKey_eq "a" receivedMs))] at hjwks
  obtain ⟨e', s', he', hcopied⟩ := event_of_getElem? hlookup
  obtain ⟨allowStale, outputSize, rfl⟩ := lookupOf_eq_some he'
  obtain ⟨call', hc', harg'⟩ := Option.map_eq_some_iff.mp hsecond
  have hcached' : call'.arg.cached = some (Sample.call "a" copiedMs) := harg' ▸ args_cached "a" copiedMs
  obtain ⟨tr, c'', after, rfl, x⟩ := Run.exchange_of_event hr (hcopied 0 (Nat.zero_le m)) hc'
  obtain ⟨stored, hm, _, _⟩ := sharedLookup_usable x.perform.1 rfl
  obtain ⟨r, hr', hresult⟩ := Option.map_eq_some_iff.mp hreturned
  obtain ⟨hok, hselected⟩ := Prod.mk.inj hresult
  obtain ⟨selected, hselect⟩ : ∃ selected, jwksSelect externals (keyText "a" pointA) (.lit "a")
      algorithmEddsa policy.jwks = .ok selected := isOk_eq_true_iff.mp (by decide +kernel)
  refine ⟨s, stored, ⟨c', _, base, nowMs, l, unknownKid, _, hs, hjwks, by decide +kernel⟩, ?_, _,
    hreceived (m + 1) hlater⟩
  exact .intro (hcopied 0 (Nat.zero_le m)) hc' hcached' rfl rfl (rest_of_returned hr' hc') hok
    (by rw [hselected, selectedA, hselect]; rfl) rfl rfl hm hselect

end Sample

/-- The outage brings back a key that a newer document no longer contains. -/
theorem newer_jwks_forgotten :
    ¬ ∀ h c, CallRun Sample.externals (fun s a => Sample.onlyA s a = true) h c →
      NewerAuthoritative Sample.externals (fun s a => Sample.onlyA s a = true) Sample.policy.jwks h c := by
  intro hall
  -- no refresh succeeds between the two
  have hrun : (replay (issuerKeyFetchCached Sample.externals) Sample.onlyA 2 0 Sample.outage).any
      (fun p => decide (Sample.StaleAfter 1 61000 7 2 61001 3 p.1 p.2 ∧ p.1.length = 24 ∧
        ∀ e ∈ (p.1.drop 4).take 4, (completionOf e.1).all (fun p => !p.2.1.success) = true)) = true := by
    decide +kernel
  obtain ⟨h, c, hr, htest⟩ := replay_any hrun
  obtain ⟨hstale, hlength, hquiet⟩ := of_decide_eq_true htest
  obtain ⟨s, stored, hwithdrawn, htaken, hbefore⟩ := hstale.taken hr (by decide)
  obtain ⟨i, ticket, comp, s'', point, hmem, hle, _, hput⟩ :=
    hall _ _ hr _ _ _ s _ stored _ hwithdrawn htaken hbefore
  have hbetween := mem_take_of_suffix hmem hle
  rw [List.length_drop, List.length_drop, hlength] at hbetween
  have hfailed : comp.success = false := by simpa [completionOf] using hquiet _ hbetween
  simp [Completion.outcome, hfailed] at hput

/-- Metadata is no source of keys. -/
theorem Sample.noFallback {cache : Cache} (key : Bytes) (keyId : CString) (algorithm : UInt32)
    (h : ∀ entry ∈ cache.entries, entry.hasValue = true → entry.payload = metadata) :
    NoFallback externals policy.jwks cache key keyId algorithm := by
  intro stored hm
  obtain ⟨entry, hf, rfl⟩ := Option.map_eq_some_iff.mp hm
  have hvalue := (valueKey_eq_some_iff.mp (by simpa using List.find?_some hf : valueKey entry = some key)).2
  have hkeys : jwksKeys externals metadata policy.jwks = .error .invalidKeys := by decide +kernel
  refine Or.inr fun selected hselect => ?_
  rw [show (storedOf entry).value = metadata from h entry (List.mem_of_find?_eq_some hf) hvalue,
    jwksSelect, hkeys] at hselect
  split at hselect <;> simp at hselect

/-- The key is missing when only metadata is cached, a second call receives it for one
second, and a third call finds the issuer down. -/
def Sample.restored : List (Choice FetchArgs) :=
  [.start 0 (args "a" 0)] ++ refreshBoth 0 (respond (keyText "b" pointB)) ++ [.start 1 (args "a" 1000)] ++
    steps 1 3 ++ [.step 1 { respond (keyText "a" pointA) with headerLines := [ascii "Cache-Control: max-age=1"] }] ++
    steps 1 1 ++ [.start 2 (args "a" 3000)] ++ steps 2 5

/-- The third call returns a stale key that was published after its withdrawal. -/
theorem newer_jwks_authoritative_restored :
    ∃ h c s stored past later, CallRun Sample.externals (fun s a => Sample.onlyA s a = true) h c ∧
      Withdrawn Sample.externals (fun s a => Sample.onlyA s a = true) Sample.policy.jwks h past Sample.jwksKey
        (.lit "a") algorithmEddsa s ∧
      TakenStale Sample.externals h later c Sample.jwksKey (.lit "a") algorithmEddsa stored ∧
      PublishedSince later past Sample.jwksKey stored := by
  have hrun : (replay (issuerKeyFetchCached Sample.externals) Sample.onlyA 2 0 Sample.restored).any (fun p => decide
        (Sample.StaleAfter 0 0 13 2 3000 3 p.1 p.2 ∧ ∀ e ∈ p.1, (responseOf e.1).isSome = true →
          ∀ entry ∈ e.2.cache.entries, entry.hasValue = true → entry.payload = Sample.metadata)) = true := by
    decide +kernel
  obtain ⟨h, c, hr, htest⟩ := replay_any hrun
  obtain ⟨hstale, hcached⟩ := of_decide_eq_true htest
  obtain ⟨s, stored, hwithdrawn, htaken, hbefore⟩ := hstale.taken hr (by decide)
  have hpolicy : ∀ s args, Sample.onlyA s args = true → args.policy = some Sample.policy := by
    intro s args hadmit
    rw [beq_iff_eq.mp hadmit]
    rfl
  have hauthoritative := newer_jwks_authoritative hpolicy hr (by
    rintro key keyId algorithm s past ⟨c', y, base, nowMs, l, unknownKid, response, rfl, ⟨x, _, _, _⟩, _⟩
    exact Sample.noFallback key keyId algorithm (hcached _ x.mem rfl))
  exact ⟨h, c, s, stored, _, _, hr, hwithdrawn, htaken,
    hauthoritative _ _ _ _ _ _ _ hwithdrawn htaken hbefore⟩

end OAuthValidator
