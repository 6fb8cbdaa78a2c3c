import OAuthValidator.Deployed
import OAuthValidator.UrlAgreement

/-! What the callback can make a backend do. Its requests go where the settings and
the issuer's own metadata send them, and it keeps the backend for a bounded time. -/

namespace OAuthValidator

open Interleaving Program

theorem acceptableUrl_of_requestError {ext : Externals} {url : CString} {policy : HttpPolicy}
    (h : requestError ext url policy = none) :
    AcceptableUrl ext url policy.maxUrlSize policy.allowInsecureHttp := by
  unfold requestError at h
  split at h
  · simp at h
  · split at h
    · simp at h
    · next allowedHost _ _ =>
      cases hv : validateRequestUrl ext url policy allowedHost with
      | error e => simp [hv] at h
      | ok host =>
        unfold validateRequestUrl at hv
        cases hu : parseUrl ext url policy.maxUrlSize policy.allowInsecureHttp with
        | error e => simp [hu] at hv
        | ok host' => exact parseUrl_eq_ok.mp ⟨host', hu⟩

/-- A request that a connection may make, after the responses in `past`: to the
metadata URL of its issuer, or to the URL that this issuer's metadata names. -/
inductive Target (ext : Externals) (past : CallbackHistory) (d : Demand) : CString → HttpPolicy → Prop
  | metadata : Target ext past d d.prepared.metadataUrl (requestPolicy d.prepared none)
  | jwks {uri : CString} {metadata : HttpResponse} {ms : Int}
      (discovered : ReceivedAt past d.prepared.metadataUrl (requestPolicy d.prepared none) metadata ms)
      (named : metadataParse ext metadata.body d.prepared.policy.issuer
        ⟨maxDocumentSize, maxUrlSize, d.prepared.policy.allowInsecureHttp⟩ = .ok uri) :
      Target ext past d uri (requestPolicy d.prepared d.prepared.policy.allowedJwksHosts)

section Requests

variable {ext : Externals} {admits : Shared → Invocation → Prop}

/-- The request of a retrieval, and what permits it. -/
theorem CallRun.target {h : CallbackHistory} {c : CallConfig}
    (hr : CallRun ext (Requested ext admits) (requests (retrieval ext) h) c) {inv : Invocation} {d : Demand}
    (hd : Demanded ext inv d) {i : Nat} {tr : CallTrace} {url : CString} {policy : HttpPolicy}
    {next : Except HttpError HttpResponse → CallProg FetchReturn}
    (hc : c.calls i = some ⟨d.prepared.fetchArgs inv d.envelope, tr, .ask (.transfer url policy) next⟩) :
    Target ext h d url policy ∧ requestError ext url policy = none := by
  have hissues : CallIssues ext (d.prepared.fetchArgs inv d.envelope) tr (.transfer url policy) :=
    (Run.sat (issuerKeyFetchCached_sat ext) hr hc).1
  refine ⟨?_, hissues.transfer_allowed⟩
  rcases hissues with ⟨x, hx, hop⟩ | ⟨_, _, hnone, _⟩
  · obtain rfl := Option.some.inj (hd.cached.symm.trans hx)
    cases hop with
    | wait _ _ w => cases w
    | transfer o _ _ =>
      cases o with
      | metadata _ => exact .metadata
      | @jwks base nowMs uri host key hready =>
        obtain rfl : host = d.prepared.metadataHost := Except.ok.inj (hready.host.symm.trans hd.host)
        obtain ⟨metadataKey, metadata, hkey, hread, hparse⟩ := hready.metadata
        obtain ⟨response, ms, hreceived, rfl⟩ :=
          CallRun.metadataReceived hr hd hc hkey hread (List.suffix_append [_, _] base)
        exact .jwks hreceived.receivedAt hparse
  · simp [Prepared.fetchArgs] at hnone

/-- Every request of every callback goes to an acceptable URL of a permitted host,
which is the issuer's metadata or was named by it before. -/
theorem requests_confined {h past : CallbackHistory} {c : CallbackConfig} (hr : CallbackRun ext admits h c)
    {i : Nat} {url : CString} {policy : HttpPolicy} {answer : Except HttpError HttpResponse} {s : Shared}
    (he : (.act i (.transfer url policy) answer, s) :: past <:+ h) :
    ∃ call d, c.calls i = some call ∧ demand ext call.arg = some d ∧ Target ext past d url policy ∧
      AcceptableUrl ext url maxUrlSize d.prepared.policy.allowInsecureHttp ∧
      ∃ host, httpUrlHost ext url maxUrlSize d.prepared.policy.allowInsecureHttp = .ok host ∧
        hostAllowed host d.prepared.metadataHost policy.additionalAllowedHosts = true := by
  obtain ⟨later, rfl⟩ := he
  obtain ⟨inv, tr, c₁, s₁, -, x⟩ := hr.performed
  obtain ⟨next, hcall⟩ := x.call
  obtain ⟨_, hstart⟩ := x.run.start_mem hcall
  obtain ⟨call, hc, rfl⟩ := hr.arg_of_start (x.past_subset hstart)
  obtain ⟨c₂, hr₂, hagrees⟩ := CallbackRun.retrievals x.run
  obtain ⟨args, next', hargs, hmade, -⟩ := (hagrees.made i _ hcall).acting
  obtain ⟨d, hd, rfl⟩ := retrieval_eq_some hargs
  obtain ⟨htarget, hallowed⟩ := CallRun.target hr₂ hd hmade
  refine ⟨call, d, hc, hd.demanded, htarget, ?_⟩
  cases htarget with
  | metadata => exact ⟨acceptableUrl_of_requestError hallowed, hostPermitted_of_requestError rfl hallowed⟩
  | jwks _ _ => exact ⟨acceptableUrl_of_requestError hallowed, hostPermitted_of_requestError rfl hallowed⟩

end Requests

theorem requests_confined_discovery :
    ∃ h past c i url policy answer s,
      CallbackRun Sample.tokenExternals (fun _ _ => true = true) h c ∧
      (.act i (.transfer url policy) answer, s) :: past <:+ h ∧
      ∃ call d, c.calls i = some call ∧ demand Sample.tokenExternals call.arg = some d ∧
        Target Sample.tokenExternals past d url policy ∧
        AcceptableUrl Sample.tokenExternals url maxUrlSize d.prepared.policy.allowInsecureHttp ∧
        ∃ host, httpUrlHost Sample.tokenExternals url maxUrlSize d.prepared.policy.allowInsecureHttp = .ok host ∧
          hostAllowed host d.prepared.metadataHost policy.additionalAllowedHosts = true := by
  obtain ⟨h, c, hr, _, ⟨event, s⟩, hmem, hanswered⟩ := Sample.warmConnection_run
  obtain ⟨later, past, rfl⟩ := List.append_of_mem hmem
  unfold Sample.unanswered at hanswered
  split at hanswered
  · next i url policy answer hevent =>
    obtain rfl : event = .act i (.transfer url policy) answer := hevent
    have hsuffix := List.suffix_append later ((Event.act i (.transfer url policy) answer, s) :: past)
    exact ⟨_, past, c, i, url, policy, answer, s, hr, hsuffix, requests_confined hr hsuffix⟩
  · simp at hanswered

/-! The time for which a callback may keep its backend waiting. -/

/-- The time that the operations of a trace were allowed to block for. -/
def allowanceMs : CallTrace → Int
  | [] => 0
  | ⟨.transfer _ policy, _⟩ :: tr => policy.totalTimeoutMs + allowanceMs tr
  | ⟨.sleepEnd _ timeoutMs, _⟩ :: tr => timeoutMs + allowanceMs tr
  | _ :: tr => allowanceMs tr

section Allowance

variable {ext : Externals} {inv : Invocation} {d : Demand} {s : Stage} {tr : CallTrace} {op : CallOp}

/-- The operations of the callback's retrieval are each within five seconds. -/
structure Limited (x : CachedCall) : Prop where
  metadata : x.call.policy.metadataHttp.totalTimeoutMs = 5000
  jwks : x.call.policy.jwksHttp.totalTimeoutMs = 5000
  wait : 0 ≤ x.cache.refreshWaitTimeoutMs ∧ x.cache.refreshWaitTimeoutMs ≤ 5000

theorem Demanded.limited (hd : Demanded ext inv d) : Limited (d.prepared.cachedCall inv d.envelope) :=
  ⟨rfl, rfl, hd.lifetimes.2.2⟩

theorem Waited.allowance {key : Bytes} {timeoutMs : Int} {tr' : CallTrace} {w : Bool × Int}
    (h : Waited key timeoutMs tr tr' w) (hwait : 0 ≤ timeoutMs ∧ timeoutMs ≤ 5000) :
    allowanceMs tr' ≤ 5000 + allowanceMs tr ∧ tr'.length ≤ 4 + tr.length := by
  cases h with
  | refused => omega
  | idle =>
    simp only [allowanceMs, List.length_cons]
    omega
  | slept since refreshing positive =>
    simp only [allowanceMs, List.length_cons]
    omega

variable {x : CachedCall}

/-- A stage leaves the other one its share. -/
theorem StageOpen.allowance (hx : Limited x) (o : StageOpen ext x s) :
    allowanceMs s.base ≤ 5000 ∧ s.base.length ≤ 7 ∧ s.http.totalTimeoutMs = 5000 ∧
      0 ≤ s.waitMs ∧ s.waitMs ≤ 5000 := by
  cases o with
  | metadata _ => exact ⟨by simp [metadataStage, allowanceMs], Nat.zero_le _, hx.metadata, hx.wait⟩
  | @jwks base nowMs uri host key hready =>
    refine ⟨?_, ?_, hx.jwks, hx.wait⟩ <;> obtain ⟨_, _, _, hread, _⟩ := hready.metadata
    all_goals
      cases hread with
      | hit l _ => simp [jwksStage, metadataStage, Stage.lookedUp, allowanceMs]
      | waited l ticket tr' elapsedMs l' _ wait _ _ =>
        have hw := wait.allowance hx.wait
        simp only [jwksStage, metadataStage, Stage.relookedUp, Stage.begun, Stage.lookedUp, allowanceMs,
          List.length_cons, List.length_nil] at hw ⊢
        omega
      | fetched l ticket response f _ _ =>
        simp [jwksStage, metadataStage, Stage.transferred, Stage.begun, Stage.lookedUp, allowanceMs,
          hx.metadata]

theorem Issues.allowance (hx : Limited x) (h : Issues ext x tr op) (ans : op.Ans) :
    allowanceMs (⟨op, ans⟩ :: tr) ≤ 10000 ∧ (⟨op, ans⟩ :: tr : CallTrace).length ≤ 14 := by
  cases h with
  | wait o _ wait =>
    have hs := o.allowance hx
    cases wait <;>
      simp only [Stage.begun, Stage.lookedUp, allowanceMs, List.length_cons] <;> omega
  | relookup o _ wait _ =>
    have hs := o.allowance hx
    have hw := wait.allowance hs.2.2.2
    simp only [Stage.begun, Stage.lookedUp, allowanceMs, List.length_cons] at hw ⊢
    omega
  | lookup o =>
    have hs := o.allowance hx
    simp only [allowanceMs, List.length_cons]
    omega
  | begin o _ =>
    have hs := o.allowance hx
    simp only [Stage.lookedUp, allowanceMs, List.length_cons]
    omega
  | transfer o _ _ =>
    have hs := o.allowance hx
    simp only [Stage.begun, Stage.lookedUp, allowanceMs, List.length_cons]
    omega
  | refused o _ _ =>
    have hs := o.allowance hx
    simp only [Stage.begun, Stage.lookedUp, allowanceMs, List.length_cons]
    omega
  | failed o _ _ =>
    have hs := o.allowance hx
    simp only [Stage.transferred, Stage.begun, Stage.lookedUp, allowanceMs, List.length_cons]
    omega
  | publish o _ _ _ =>
    have hs := o.allowance hx
    simp only [Stage.transferred, Stage.begun, Stage.lookedUp, allowanceMs, List.length_cons]
    omega

/-- Whatever the other backends do, an invocation takes at most fourteen steps, and
what it may spend on requests and waits is ten seconds in all. -/
theorem callback_bounded {admits : Shared → Invocation → Prop} {h : CallbackHistory} {c : CallbackConfig}
    (hr : CallbackRun ext admits h c) {i : Nat}
    {call : Call CallOp CallOp.Ans Invocation ValidateReturn} (hc : c.calls i = some call) :
    allowanceMs call.trace ≤ 10000 ∧ call.trace.length ≤ 14 := by
  obtain ⟨c', hr', hagrees⟩ := CallbackRun.retrievals hr
  have hmade := hagrees.made i call hc
  generalize hcall : c'.calls i = made at hmade
  cases hmade with
  | decided _ _ => simp [allowanceMs]
  | @called inv args tr rest hargs =>
    obtain ⟨d, hd, rfl⟩ := retrieval_eq_some hargs
    cases tr with
    | nil => simp [allowanceMs]
    | cons e tr =>
      obtain ⟨op, ans⟩ := e
      obtain ⟨_, _, _, x⟩ := Run.exchange hr' hcall (List.nil_append _).symm
      rcases x.permitted (issuerKeyFetchCached_sat ext) with ⟨y, hy, hop⟩ | ⟨_, _, hnone, _⟩
      · obtain rfl := Option.some.inj (hd.cached.symm.trans hy)
        exact hop.allowance hd.limited ans
      · simp [Prepared.fetchArgs] at hnone

end Allowance

/-- The second connection waits for the metadata that the first one fetches, and then
fetches the key set. -/
def Sample.contended : List (Choice Invocation) :=
  let quiet (i n : Nat) : List (Choice Invocation) := List.replicate n (.step i unreachable)
  [.start 0 invocation, .start 1 invocation] ++ quiet 0 2 ++ quiet 1 4 ++ [.step 0 (respond metadata)] ++
    quiet 0 1 ++ [.tick 5000] ++ quiet 1 5 ++ [.step 1 (respond (keyText "a" pointA))] ++ quiet 1 1

/-- A wait and a request take the ten seconds. -/
theorem callback_bounded_shared :
    ∃ h c call, CallbackRun Sample.tokenExternals (fun _ _ => true = true) h c ∧ c.calls 1 = some call ∧
      allowanceMs call.trace = 10000 ∧ allowanceMs call.trace ≤ 10000 ∧ call.trace.length ≤ 14 := by
  have hrun : (replay (validatorValidate Sample.tokenExternals) (fun _ _ => true) 8 0 Sample.contended).any
      (fun p => (p.2.calls 1).any fun call => decide (allowanceMs call.trace = 10000)) = true := by
    simp only [Sample.contended, Sample.invocation, Sample.tokenExternals, Sample.token, Sample.keyObjectText,
      CString.lit_append]
    decide +kernel
  obtain ⟨h, c, hr, htest⟩ := replay_any hrun
  obtain ⟨call, hc, hcall⟩ := exists_of_any htest
  exact ⟨h, c, call, hr, hc, of_decide_eq_true hcall, callback_bounded hr hc⟩

end OAuthValidator
