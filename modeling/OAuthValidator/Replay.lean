import OAuthValidator.SharedCache

/-! An executable scheduler. A list of choices says which call moves next and
what the network delivers, and every schedule that succeeds is a run. -/

namespace OAuthValidator

open Interleaving

inductive Choice (Arg : Type)
  | start (i : Nat) (arg : Arg)
  /-- The next operation of a call; a request gets the given transfer. -/
  | step (i : Nat) (transfer : Transfer)
  | tick (durationMs : Nat)

/-- The one answer an operation has once the network's part is chosen. -/
def answer (s : Shared) (transfer : Transfer) : (op : CallOp) → Option (op.Ans × Shared)
  | .lookup key nowMs allowStale outputSize =>
    let r := sharedLookup s.cache key nowMs allowStale outputSize
    some (r.1, { s with cache := r.2 })
  | .begin key nowMs unknownKid cooldownMs =>
    let r := cacheBeginRefresh s.cache key nowMs unknownKid cooldownMs
    some ((r.1, r.2.1), { s with cache := r.2.2 })
  | .complete ticket c =>
    let r := cacheCompleteRefresh s.cache ticket c
    some (r.1, { s with cache := r.2 })
  | .isRefreshing key => some (cacheIsRefreshing s.cache key, s)
  | .sleepBegin => some (s.clockMs, s)
  | .sleepEnd since timeoutMs => if s.clockMs ≤ since + timeoutMs then some ((), s) else none
  | .transfer _ policy => some (finishTransfer policy transfer, s)

theorem answer_perform {s s' : Shared} {transfer : Transfer} {op : CallOp} {a : op.Ans}
    (h : answer s transfer op = some (a, s')) : perform s op a s' := by
  cases op with
  | sleepEnd since timeoutMs =>
    simp only [answer] at h
    split at h
    · next hle =>
      obtain ⟨-, rfl⟩ := Prod.mk.inj (Option.some.inj h)
      exact ⟨hle, rfl⟩
    · simp at h
  | transfer url policy =>
    obtain ⟨rfl, rfl⟩ := Prod.mk.inj (Option.some.inj h)
    exact ⟨⟨transfer, rfl⟩, rfl⟩
  | _ =>
    obtain ⟨rfl, rfl⟩ := Prod.mk.inj (Option.some.inj h)
    exact ⟨rfl, rfl⟩

section

variable {Arg α : Type} (body : Arg → CallProg α) (admits : Shared → Arg → Bool)

/-- The history so far and where it has led. -/
abbrev Position (Arg α : Type) :=
  History CallOp CallOp.Ans Arg Shared × Config CallOp CallOp.Ans Arg α Shared

/-- One choice, if it can be taken. -/
def replayStep (p : Position Arg α) : Choice Arg → Option (Position Arg α)
  | .start i arg =>
    if (p.2.calls i).isNone && admits p.2.shared arg then
      some ((.start i arg, p.2.shared) :: p.1, ⟨p.2.shared, Function.update p.2.calls i
        (some ⟨arg, [], body arg⟩)⟩)
    else none
  | .step i transfer =>
    match p.2.calls i with
    | some ⟨arg, tr, .ask op next⟩ =>
      match answer p.2.shared transfer op with
      | some (a, s) =>
        some ((.act i op a, p.2.shared) :: p.1,
          ⟨s, Function.update p.2.calls i (some ⟨arg, ⟨op, a⟩ :: tr, next a⟩)⟩)
      | none => none
    | _ => none
  | .tick durationMs =>
    some ((.drift, p.2.shared) :: p.1,
      ⟨{ p.2.shared with clockMs := p.2.shared.clockMs + durationMs }, p.2.calls⟩)

def replay (capacity : Nat) (clockMs : Int) (choices : List (Choice Arg)) : Option (Position Arg α) :=
  match cacheInit capacity with
  | none => none
  | some cache => choices.foldlM (replayStep body admits) ([], ⟨⟨cache, clockMs⟩, fun _ => none⟩)

variable {body admits}

theorem replayStep_run {p q : Position Arg α} {choice : Choice Arg}
    (hr : Run (cacheSystem body fun s a => admits s a = true) initialShared p.1 p.2)
    (h : replayStep body admits p choice = some q) :
    Run (cacheSystem body fun s a => admits s a = true) initialShared q.1 q.2 := by
  cases choice with
  | start i args =>
    simp only [replayStep] at h
    split at h
    · next hc =>
      rw [Bool.and_eq_true, Option.isNone_iff_eq_none] at hc
      obtain rfl := Option.some.inj h
      exact .start i args hr hc.1 hc.2
    · simp at h
  | step i transfer =>
    simp only [replayStep] at h
    split at h
    · next args tr op next hcall =>
      split at h
      · next a s ha =>
        obtain rfl := Option.some.inj h
        exact .act i a hr hcall (answer_perform ha)
      · simp at h
    · simp at h
  | tick durationMs =>
    obtain rfl := Option.some.inj h
    exact .drift hr ⟨rfl, Int.le_add_of_nonneg_right (Int.natCast_nonneg _)⟩

theorem replay_run {capacity : Nat} {clockMs : Int} {choices : List (Choice Arg)} {p : Position Arg α}
    (hp : replay body admits capacity clockMs choices = some p) :
    Run (cacheSystem body fun s a => admits s a = true) initialShared p.1 p.2 := by
  unfold replay at hp
  split at hp
  · simp at hp
  · next cache hinit =>
    have steps (choices : List (Choice Arg)) (q : Position Arg α)
        (hr : Run (cacheSystem body fun s a => admits s a = true) initialShared q.1 q.2)
        (hq : choices.foldlM (replayStep body admits) q = some p) :
        Run (cacheSystem body fun s a => admits s a = true) initialShared p.1 p.2 := by
      induction choices generalizing q with
      | nil =>
        obtain rfl : q = p := by simpa using hq
        exact hr
      | cons choice choices ih =>
        rw [List.foldlM_cons] at hq
        obtain ⟨q', hq', hrest⟩ := Option.bind_eq_some_iff.mp hq
        exact ih q' (replayStep_run hr hq') hrest
    exact steps choices _ (.init ⟨capacity, hinit⟩) hp

theorem exists_of_any {α : Type} {o : Option α} {test : α → Bool} (h : o.any test = true) :
    ∃ a, o = some a ∧ test a = true := by
  cases o with
  | none => simp at h
  | some a => exact ⟨a, rfl, h⟩

/-- A test that holds at the end of a schedule holds at the end of a run. -/
theorem replay_any {capacity : Nat} {clockMs : Int} {choices : List (Choice Arg)}
    {test : Position Arg α → Bool}
    (h : (replay body admits capacity clockMs choices).any test = true) :
    ∃ h c, Run (cacheSystem body fun s a => admits s a = true) initialShared h c ∧
      test (h, c) = true := by
  obtain ⟨⟨h', c'⟩, hp, ht⟩ := exists_of_any h
  exact ⟨h', c', replay_run hp, ht⟩

end

/-! Reading off what happened at a position of a history. -/

def responseOf : Event CallOp CallOp.Ans FetchArgs → Option (Nat × CString × HttpResponse)
  | .act i (.transfer url _) answer =>
    match (answer : Except HttpError HttpResponse) with
    | .ok response => some (i, url, response)
    | .error _ => none
  | _ => none

theorem responseOf_eq_some {e : Event CallOp CallOp.Ans FetchArgs} {i : Nat} {url : CString}
    {response : HttpResponse} (h : responseOf e = some (i, url, response)) :
    ∃ policy, e = .act i (.transfer url policy) (.ok response) := by
  unfold responseOf at h
  grind

def startOf : Event CallOp CallOp.Ans FetchArgs → Option (Nat × FetchArgs)
  | .start i args => some (i, args)
  | _ => none

/-- A request that got no response. -/
def failedRequest : Event CallOp CallOp.Ans FetchArgs → Bool
  | .act _ (.transfer _ _) answer =>
    match (answer : Except HttpError HttpResponse) with
    | .ok _ => false
    | .error _ => true
  | _ => false

def lookupOf : Event CallOp CallOp.Ans FetchArgs → Option (Nat × Bytes × Int × IoLookup)
  | .act i (.lookup key nowMs _ _) l => some (i, key, nowMs, l)
  | _ => none

theorem lookupOf_eq_some {e : Event CallOp CallOp.Ans FetchArgs} {i : Nat} {key : Bytes}
    {nowMs : Int} {l : IoLookup} (h : lookupOf e = some (i, key, nowMs, l)) :
    ∃ allowStale outputSize, e = .act i (.lookup key nowMs allowStale outputSize) l := by
  unfold lookupOf at h
  grind

def completionOf : Event CallOp CallOp.Ans FetchArgs → Option (Nat × Completion × Bool)
  | .act i (.complete _ comp) accepted => some (i, comp, accepted)
  | _ => none

theorem completionOf_eq_some {e : Event CallOp CallOp.Ans FetchArgs} {i : Nat} {comp : Completion}
    {accepted : Bool} (h : completionOf e = some (i, comp, accepted)) :
    ∃ ticket, e = .act i (.complete ticket comp) accepted := by
  unfold completionOf at h
  grind

/-- What is read at a position of a list, as the head of a suffix. -/
theorem event_of_getElem? {α β γ : Type} {l : List (α × β)} {n : Nat} {read : α → Option γ} {v : γ}
    (h : l[n]?.bind (fun e => read e.1) = some v) :
    ∃ e s, read e = some v ∧ ∀ m ≤ n, (e, s) :: l.drop (n + 1) <:+ l.drop m := by
  obtain ⟨⟨e, s⟩, hn, hread⟩ := Option.bind_eq_some_iff.mp h
  obtain ⟨hlt, he⟩ := List.getElem?_eq_some_iff.mp hn
  refine ⟨e, s, hread, fun m hm => ?_⟩
  rw [← he, List.getElem_cons_drop]
  exact List.drop_suffix_drop_left l hm

theorem mem_take_of_suffix {α : Type} {a : α} {point past l : List α} (h : a :: point <:+ l)
    (hle : past <:+ point) : a ∈ l.take (l.length - past.length) := by
  obtain ⟨newer, rfl⟩ := h
  have hlen := hle.length_le
  exact List.mem_take_iff_getElem.mpr ⟨newer.length, by simp; omega, by simp⟩

/-- What a call has returned. -/
def returned (c : CallConfig) (i : Nat) : Option FetchReturn :=
  match c.calls i with
  | some ⟨_, _, .ret r⟩ => some r
  | _ => none

theorem rest_of_returned {c : CallConfig} {i : Nat} {r : FetchReturn} (h : returned c i = some r)
    {call : Call CallOp CallOp.Ans FetchArgs FetchReturn} (hc : c.calls i = some call) :
    call.rest = .ret r := by
  obtain ⟨args, tr, rest⟩ := call
  cases rest with
  | ret r' => simpa [returned, hc] using h
  | ask op next => simp [returned, hc] at h

theorem returned_any {c : CallConfig} {i : Nat} {test : FetchReturn → Bool}
    (h : (returned c i).any test = true) :
    ∃ call r, c.calls i = some call ∧ call.rest = .ret r ∧ test r = true := by
  unfold returned at h
  split at h
  · next args tr r hc => exact ⟨_, r, hc, rfl, h⟩
  · simp at h

/-! A small issuer on which runs are evaluated. It publishes one Ed25519 key at
a time, first `a` and later `b`, and its documents are fresh for a minute. -/

namespace Sample

def metadata : Bytes :=
  ascii "\x7b\"issuer\":\"https://i\",\"jwks_uri\":\"https://i/k\"\x7d"

def keyText (kid x : String) : Bytes :=
  ascii "\x7b\"keys\":[\x7b\"kid\":\"" ++ ascii kid ++
    ascii "\",\"alg\":\"EdDSA\",\"use\":\"sig\",\"kty\":\"OKP\",\"crv\":\"Ed25519\",\"x\":\"" ++
    ascii x ++ ascii "\"\x7d]\x7d"

def keyJson (kid x : String) : Json :=
  .obj [(.lit "keys", .arr [.obj [(.lit "kid", .str (.lit kid)), (.lit "alg", .str (.lit "EdDSA")),
    (.lit "use", .str (.lit "sig")), (.lit "kty", .str (.lit "OKP")),
    (.lit "crv", .str (.lit "Ed25519")), (.lit "x", .str (.lit x))]])]

def pointA : String := "11qYAYKxCrfVS_7TyWQHOg7hcvPapiMlrwIaaPcHURo"
def pointB : String := "PUAXw-hDiVqStwqnTRt-vJyYLM8uxJaMwM1V8Sr0Zgw"

/-- What the libraries answer on these documents and URLs. -/
def externals : Externals where
  jsonLoadb text :=
    if text == metadata then
      some (.obj [(.lit "issuer", .str (.lit "https://i")), (.lit "jwks_uri", .str (.lit "https://i/k"))])
    else if text == keyText "a" pointA then some (keyJson "a" pointA)
    else if text == keyText "b" pointB then some (keyJson "b" pointB)
    else none
  jsonDumps _ := none
  curlUrlSet _ := some ⟨some (.lit "i"), false, false, false⟩
  curlGetdate _ := -1
  ecPointOnCurve _ _ := false
  ed25519PublicKey _ := true
  jwksCreate _ := false
  jwtChecker _ _ := false
  jwtVerify _ _ _ := false

def http : HttpPolicy :=
  ⟨2048, 65536, 2000, 5000, some (.lit "i"), some (.lit ""), none, false, true⟩

def keyPolicy : CacheKeyPolicy where
  resource := .metadata
  issuer := none
  metadataUrl := none
  jwksUrl := none
  policyName := some (.lit "default")
  requiredScopes := some (.lit "read")
  audiences := some (.lit "db")
  allowedTokenTypes := 3
  allowMissingTokenType := false
  identityClaim := some (.lit "sub")
  roleClaim := some (.lit "")
  allowedJwksHosts := some (.lit "")
  caFile := some (.lit "")
  allowedAlgorithms := algorithmEddsa
  clockSkewMs := 60000
  maxTokenSize := 16384
  maxMetadataSize := 65536
  maxJwksSize := 65536
  maxJwksKeys := 16
  minimumRsaBits := 2048
  maximumRsaBits := 8192
  jwksStaleGraceMs := 3600000
  metadataDefaultTtlMs := 300000
  jwksDefaultTtlMs := 300000
  cacheMaxTtlMs := 3600000
  unknownKidRefreshCooldownMs := 30000
  allowInsecureHttp := false

def policy : IssuerKeyPolicy where
  metadataHttp := http
  metadata := ⟨65536, 2048, false⟩
  jwksHttp := http
  jwks := ⟨65536, 16, 1024, algorithmEddsa, 2048, 8192⟩

def cachePolicy : IssuerKeyCachePolicy where
  io := some ⟨true, true, true, true⟩
  keyPolicy := keyPolicy
  metadataFreshness := ⟨300000, 3600000⟩
  jwksFreshness := ⟨300000, 3600000⟩
  jwksStaleGraceMs := 3600000
  unknownKidRefreshCooldownMs := 30000
  refreshWaitTimeoutMs := 5000

/-- A call for the key `kid`, which may fall back to documents an hour old. -/
def args (kid : String) (nowMs : Int) : FetchArgs where
  metadataUrl := some (.lit "https://i/m")
  expectedIssuer := some (.lit "https://i")
  keyId := some (.lit kid)
  tokenAlgorithm := algorithmEddsa
  policy := some policy
  cachePolicy := some cachePolicy
  nowMs := nowMs
  responseTimeSeconds := 1700000000

/-- The cached call that these arguments stand for. -/
def call (kid : String) (nowMs : Int) : CachedCall :=
  ⟨⟨.lit "https://i/m", .lit "https://i", .lit kid, algorithmEddsa, policy, nowMs, 1700000000⟩,
    cachePolicy⟩

theorem args_cached (kid : String) (nowMs : Int) : (args kid nowMs).cached = some (call kid nowMs) :=
  rfl

/-- The cache key of the issuer's JWKS. -/
def jwksKey : Bytes :=
  ((cacheKeyBuild ((call "a" 0).jwksKeyPolicy (.lit "https://i/k"))).toOption).getD []

theorem jwksKey_eq (kid : String) (nowMs : Int) :
    cacheKeyBuild ((call kid nowMs).jwksKeyPolicy (.lit "https://i/k")) = .ok jwksKey := by
  show cacheKeyBuild ((call "a" 0).jwksKeyPolicy (.lit "https://i/k")) = _
  decide +kernel

def respond (body : Bytes) : Transfer :=
  ⟨none, [ascii "Cache-Control: max-age=60"], [body], .ok, some 200, some (.lit "application/json")⟩

def unreachable : Transfer :=
  ⟨none, [], [], .other, none, none⟩

/-- The next operations of a call, none of which is a request. -/
def steps (i n : Nat) : List (Choice FetchArgs) :=
  List.replicate n (.step i unreachable)

/-- All steps of a call that refreshes both documents, up to the given answer to
its JWKS request. -/
def refreshBoth (i : Nat) (jwks : Transfer) : List (Choice FetchArgs) :=
  steps i 2 ++ [.step i (respond metadata)] ++ steps i 3 ++ [.step i jwks] ++ steps i 1

end Sample

end OAuthValidator
