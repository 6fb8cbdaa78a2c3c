import OAuthValidator.KeyProvenance

/-! Only validated documents are stored. The byte key pins down every policy
field that the parsers read, so a document that was accepted when it was stored
is accepted by every later call that finds it under its own key. -/

namespace OAuthValidator

open ExpiringMap Interleaving

/-- The errors of a JWKS document as a whole, whichever key is asked for. -/
def JwksError.ofDocument : JwksError → Bool
  | .empty | .tooLarge | .invalidJson | .invalidKeys | .tooManyKeys | .invalidKeyId => true
  | _ => false

theorem findCandidate_error {keyId : CString} {maxKeyIdSize : Nat} {candidate : Option Json}
    {keys : List Json} {e : JwksError} (hw : KeysWellFormed maxKeyIdSize keys)
    (h : findCandidate keyId maxKeyIdSize candidate keys = .error e) : e = .duplicateKeyId := by
  induction keys generalizing candidate with
  | nil => simp [findCandidate] at h
  | cons key rest ih =>
    have hrest : KeysWellFormed maxKeyIdSize rest := fun k hk => hw k (List.mem_cons_of_mem _ hk)
    obtain ⟨hobj, hids⟩ := hw key List.mem_cons_self
    simp only [findCandidate, hobj, Bool.not_true, Bool.false_eq_true, if_false] at h
    cases hid : key.get? (.lit "kid") with
    | none =>
      simp only [hid] at h
      exact ih hrest h
    | some id =>
      simp only [hid, hids id hid, Bool.not_true, Bool.false_eq_true, if_false] at h
      split at h
      · split at h
        · exact (Except.error.inj h).symm
        · exact ih hrest h
      · exact ih hrest h

theorem candidateError_not_ofDocument {ext : Externals} {key : Json} {algorithm : UInt32}
    {policy : JwksPolicy} {e : JwksError} (h : candidateError ext key algorithm policy = some e) :
    e.ofDocument = false := by
  unfold candidateError at h
  grind [JwksError.ofDocument]

/-- A document from which some key was selected is refused for no other key
because of the document itself. -/
theorem jwksSelect_error {ext : Externals} {document : Bytes} {keyId keyId' : CString}
    {algorithm algorithm' : UInt32} {policy : JwksPolicy} {selected : SelectedJwk} {e : JwksError}
    (hok : jwksSelect ext document keyId algorithm policy = .ok selected)
    (h : jwksSelect ext document keyId' algorithm' policy = .error e) : e.ofDocument = false := by
  obtain ⟨root, keys, hkeys, hw⟩ : ∃ root keys, jwksKeys ext document policy = .ok (root, keys) ∧
      KeysWellFormed policy.maxKeyIdSize keys := by
    unfold jwksSelect at hok
    split at hok
    · simp at hok
    · split at hok
      · simp at hok
      · next root keys hkeys =>
        split at hok
        · simp at hok
        · simp at hok
        · next key hfind => exact ⟨root, keys, hkeys, (findCandidate_eq_ok.mp hfind).1⟩
  unfold jwksSelect at h
  split at h
  · rw [← Except.error.inj h]
    rfl
  · simp only [hkeys] at h
    split at h
    · next e' hfind =>
      rw [← Except.error.inj h, findCandidate_error hw hfind]
      rfl
    · rw [← Except.error.inj h]
      rfl
    · split at h
      · next e' hcand =>
        rw [← Except.error.inj h]
        exact candidateError_not_ofDocument hcand
      · simp at h

section Runs

variable {ext : Externals} {admits : Shared → FetchArgs → Prop} {h : CallHistory} {c : CallConfig}
  {metadataPolicy : CacheKeyPolicy → MetadataPolicy} {jwksPolicy : CacheKeyPolicy → JwksPolicy}

/-- The parsers of a call run under policies that its cache keys determine. -/
structure PoliciesOfKey (metadataPolicy : CacheKeyPolicy → MetadataPolicy)
    (jwksPolicy : CacheKeyPolicy → JwksPolicy) (x : CachedCall) : Prop where
  metadata : x.call.policy.metadata = metadataPolicy x.metadataKeyPolicy.canonical
  jwks : ∀ uri, x.call.policy.jwks = jwksPolicy (x.jwksKeyPolicy uri).canonical

/-- A document that is acceptable for the resource a key policy stands for. -/
structure Validated (ext : Externals) (metadataPolicy : CacheKeyPolicy → MetadataPolicy)
    (jwksPolicy : CacheKeyPolicy → JwksPolicy) (policy : CacheKeyPolicy) (document : Bytes) : Prop where
  metadata : policy.resource = .metadata → ∃ issuer uri, policy.issuer = some issuer ∧
    metadataParse ext document issuer (metadataPolicy policy.canonical) = .ok uri
  jwks : policy.resource = .jwks → ∃ keyId algorithm selected,
    jwksSelect ext document keyId algorithm (jwksPolicy policy.canonical) = .ok selected

theorem Published.validated {point : CallHistory} {key : Bytes} {stored : Stored Bytes Int}
    (hadmits : ∀ s args x, admits s args → args.cached = some x →
      PoliciesOfKey metadataPolicy jwksPolicy x)
    (p : Published ext admits h point key stored) {policy : CacheKeyPolicy}
    (hk : cacheKeyBuild policy = .ok key) :
    Validated ext metadataPolicy jwksPolicy policy stored.value := by
  obtain @⟨j, args, y, s, l, unknownKid, ticket, response, f, c', after, e, hy, o, ha, _, rfl,
    hput⟩ := p
  obtain ⟨_, _, _, _, hvalue, _⟩ := Stage.outcome_published hput
  obtain ⟨next, hc⟩ := e.call
  obtain ⟨s', hadmitted⟩ := Run.admitted e.run hc
  have hpolicies := hadmits s' args y hadmitted hy
  rw [hvalue]
  rcases o.of_key hk with ⟨hr, hs, he⟩ | ⟨hr, tr, nowMs, uri, host, _, hs, he⟩
  · rw [hs] at ha
    obtain ⟨uri, hparse⟩ := isOk_eq_true_iff.mp ha
    rw [hpolicies.metadata, he] at hparse
    have hissuer : policy.issuer = some y.call.expectedIssuer :=
      (congrArg CacheKeyPolicy.issuer he).symm
    exact ⟨fun _ => ⟨_, uri, hissuer, hparse⟩, fun hj => by simp [hr] at hj⟩
  · rw [hs] at ha
    obtain ⟨selected, hselect⟩ := isOk_eq_true_iff.mp ha
    have hselect : jwksSelect ext response.body y.call.keyId y.call.tokenAlgorithm
        y.call.policy.jwks = .ok selected := hselect
    rw [hpolicies.jwks uri, he] at hselect
    exact ⟨fun hm => by simp [hr] at hm, fun _ => ⟨_, _, selected, hselect⟩⟩

/-- A document that a call copies is acceptable for the policy of its key. -/
theorem CallRun.copied_validated
    (hadmits : ∀ s args x, admits s args → args.cached = some x →
      PoliciesOfKey metadataPolicy jwksPolicy x)
    (hr : CallRun ext admits h c) {i : Nat} {call : Call CallOp CallOp.Ans FetchArgs FetchReturn}
    (hc : c.calls i = some call) {key : Bytes} {nowMs : Int} {allowStale : Bool} {outputSize : Nat}
    {l : IoLookup} (htr : ⟨.lookup key nowMs allowStale outputSize, l⟩ ∈ call.trace)
    (hu : l.usable = true) {policy : CacheKeyPolicy} (hk : cacheKeyBuild policy = .ok key) :
    Validated ext metadataPolicy jwksPolicy policy l.payload := by
  obtain ⟨recent, tr, htr⟩ := List.append_of_mem htr
  obtain ⟨stored, past, hpay, _, _, point, hp⟩ := CallRun.copied hr hc ⟨recent, htr.symm⟩ hu
  exact hpay ▸ hp.validated hadmits hk

/-- The metadata document of a hit parses for the call that found it. -/
theorem CallRun.hit_parses
    (hadmits : ∀ s args x, admits s args → args.cached = some x →
      PoliciesOfKey metadataPolicy jwksPolicy x)
    (hr : CallRun ext admits h c) {i : Nat} {call : Call CallOp CallOp.Ans FetchArgs FetchReturn}
    (hc : c.calls i = some call) {x : CachedCall} (hx : call.arg.cached = some x) {key : Bytes}
    (hk : cacheKeyBuild x.metadataKeyPolicy = .ok key) {nowMs : Int} {outputSize : Nat} {l : IoLookup}
    (htr : ⟨.lookup key nowMs false outputSize, l⟩ ∈ call.trace) (hhit : l.hit = true) :
    ∃ uri, metadataParse ext l.payload x.call.expectedIssuer x.call.policy.metadata = .ok uri := by
  obtain ⟨hfr, hok⟩ : l.freshness = .fresh ∧ l.copyResult = .ok := by
    simpa [IoLookup.hit] using hhit
  have hv := CallRun.copied_validated hadmits hr hc htr (by simp [IoLookup.usable, hfr, hok]) hk
  obtain ⟨issuer, uri, hissuer, hparse⟩ := hv.metadata rfl
  obtain rfl : x.call.expectedIssuer = issuer := Option.some.inj hissuer
  obtain ⟨s, hadmitted⟩ := Run.admitted hr hc
  rw [← (hadmits s call.arg x hadmitted hx).metadata] at hparse
  exact ⟨uri, hparse⟩

theorem lookup_of_transferred {x : CachedCall} {key key' : Bytes} {nowMs : Int} {allowStale : Bool}
    {outputSize : Nat} {l l' : IoLookup} {ticket : CacheRefresh}
    {answer : Except HttpError HttpResponse} {done : Program.Exchange CallOp CallOp.Ans}
    (hdone : ∀ key nowMs allowStale outputSize, done.1 ≠ .lookup key nowMs allowStale outputSize)
    (h : ⟨.lookup key' nowMs allowStale outputSize, l'⟩ ∈
      done :: (metadataStage ext x key).transferred l false ticket answer) : l' = l := by
  rcases List.mem_cons.mp h with heq | h
  · exact absurd (congrArg Sigma.fst heq).symm (hdone _ _ _ _)
  · simp only [Stage.transferred, Stage.begun, Stage.lookedUp, List.mem_cons, metadataStage,
      List.not_mem_nil, or_false] at h
    rcases h with h | h | h <;> cases h
    rfl

/-- A call that refuses a metadata document has fetched it itself. -/
theorem CallRun.rejected_not_hit
    (hadmits : ∀ s args x, admits s args → args.cached = some x →
      PoliciesOfKey metadataPolicy jwksPolicy x)
    (hr : CallRun ext admits h c) {i : Nat} {args : FetchArgs} {tr : CallTrace}
    {rest : CallProg FetchReturn} (hc : c.calls i = some ⟨args, tr, rest⟩) {x : CachedCall}
    (hx : args.cached = some x) (hrej : MetadataRejected ext x tr) {key : Bytes}
    {nowMs : Int} {outputSize : Nat} {l : IoLookup}
    (htr : ⟨.lookup key nowMs false outputSize, l⟩ ∈ tr) : l.hit = false := by
  cases hrej with
  | cached keyed read parse =>
    cases read with
    | hit l' hhit =>
      obtain ⟨uri, hok⟩ := CallRun.hit_parses hadmits hr hc hx keyed List.mem_cons_self hhit
      rw [parse] at hok
      simp at hok
    | waited l' ticket tr' elapsedMs l'' _ _ _ hhit =>
      obtain ⟨uri, hok⟩ := CallRun.hit_parses hadmits hr hc hx keyed List.mem_cons_self hhit
      rw [parse] at hok
      simp at hok
    | fetched l' ticket response f missed _ => exact lookup_of_transferred (by simp) htr ▸ missed
  | fetched missed => exact lookup_of_transferred (by simp) htr ▸ missed

/-- The cache holds only documents that are acceptable for the policy of their
key, and so a call refuses none that it takes from there. -/
structure OnlyValidated (ext : Externals) (metadataPolicy : CacheKeyPolicy → MetadataPolicy)
    (jwksPolicy : CacheKeyPolicy → JwksPolicy) (c : CallConfig) : Prop where
  stored : ∀ entry ∈ c.shared.cache.entries, entry.hasValue = true → ∀ policy,
    cacheKeyBuild policy = .ok entry.key →
      Validated ext metadataPolicy jwksPolicy policy entry.payload
  metadata : ∀ i call x key nowMs outputSize l r, c.calls i = some call →
    call.arg.cached = some x → cacheKeyBuild x.metadataKeyPolicy = .ok key →
    ⟨.lookup key nowMs false outputSize, l⟩ ∈ call.trace → IoLookup.hit l = true →
    call.rest = .ret r → r.1 ≠ .metadataInvalid
  jwks : ∀ i call x uri key nowMs allowStale outputSize l e, c.calls i = some call →
    call.arg.cached = some x → cacheKeyBuild (x.jwksKeyPolicy uri) = .ok key →
    ⟨.lookup key nowMs allowStale outputSize, l⟩ ∈ call.trace → IoLookup.usable l = true →
    selectKey ext x.call (IoLookup.payload l) = .error e →
    e ∉ [.empty, .tooLarge, .invalidJson, .invalidKeys, .tooManyKeys, .invalidKeyId]

theorem only_validated_documents_stored
    (hadmits : ∀ s args x, admits s args → args.cached = some x →
      PoliciesOfKey metadataPolicy jwksPolicy x)
    (hr : CallRun ext admits h c) : OnlyValidated ext metadataPolicy jwksPolicy c where
  stored := by
    intro entry hmem hvalue policy hk
    have hinv := CallRun.inv hr
    have ho := (hinv.entries entry hmem).occupied_of_hasValue hvalue
    obtain ⟨n, hn⟩ := List.getElem?_of_mem hmem
    have hkey : valueKey entry = some entry.key := by simp [valueKey, ho, hvalue]
    have hm : cacheMap c.shared.cache entry.key = some (storedOf entry) :=
      (cacheMap_eq_some_iff hinv).mpr ⟨n, entry, hn, hkey, rfl⟩
    obtain ⟨point, hp⟩ := CallRun.published hr hm
    exact hp.validated hadmits hk
  metadata := by
    intro i call x key nowMs outputSize l r hc hx hk htr hhit hret hinvalid
    have hsat := Run.sat (issuerKeyFetchCached_sat ext) hr hc
    rw [hret] at hsat
    have hmiss := CallRun.rejected_not_hit hadmits hr hc hx (hsat.rejected hinvalid x hx) htr
    rw [hhit] at hmiss
    simp at hmiss
  jwks := by
    intro i call x uri key nowMs allowStale outputSize l e hc hx hk htr hu herr
    have hv := CallRun.copied_validated hadmits hr hc htr hu hk
    obtain ⟨keyId, algorithm, selected, hok⟩ := hv.jwks rfl
    obtain ⟨s, hadmitted⟩ := Run.admitted hr hc
    rw [← (hadmits s call.arg x hadmitted hx).jwks uri] at hok
    have hnot := jwksSelect_error hok herr
    revert hnot
    cases e <;> simp [JwksError.ofDocument]

end Runs

/-- The policies of the callback: what the key policy does not fix is constant. -/
def Sample.metadataPolicy (policy : CacheKeyPolicy) : MetadataPolicy :=
  ⟨policy.maxMetadataSize.toNat, 2048, policy.allowInsecureHttp⟩

def Sample.jwksPolicy (policy : CacheKeyPolicy) : JwksPolicy :=
  ⟨policy.maxJwksSize.toNat, policy.maxJwksKeys.toNat, 1024, policy.allowedAlgorithms,
    policy.minimumRsaBits.toNat, policy.maximumRsaBits.toNat⟩

theorem Sample.policiesOfKey {nowMs : Int} {x : CachedCall} (hx : (args "a" nowMs).cached = some x) :
    PoliciesOfKey metadataPolicy jwksPolicy x := by
  obtain rfl := Option.some.inj hx
  exact ⟨rfl, fun _ => rfl⟩

/-- A cache that holds both documents of the issuer. -/
theorem only_validated_documents_stored_both :
    ∃ h c, CallRun Sample.externals (fun _ a => (a == Sample.args "a" a.nowMs) = true) h c ∧
      (c.shared.cache.entries.all fun entry => entry.hasValue) = true ∧
      OnlyValidated Sample.externals Sample.metadataPolicy Sample.jwksPolicy c := by
  have hrun : (replay (issuerKeyFetchCached Sample.externals) (fun _ a => a == Sample.args "a" a.nowMs) 2 0
      ([.start 0 (Sample.args "a" 0)] ++
        Sample.refreshBoth 0 (Sample.respond (Sample.keyText "a" Sample.pointA)))).any
      (fun p => p.2.shared.cache.entries.all fun entry => entry.hasValue) = true := by
    decide +kernel
  obtain ⟨h, c, hr, ht⟩ := replay_any hrun
  refine ⟨h, c, hr, ht, only_validated_documents_stored (fun s args x hadmit hx => ?_) hr⟩
  rw [beq_iff_eq.mp hadmit] at hx
  exact Sample.policiesOfKey hx

end OAuthValidator
