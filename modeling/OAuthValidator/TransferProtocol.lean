import OAuthValidator.Replay
import OAuthValidator.TransferLoop

/-! What a request does with libcurl. Every call is made in a state that permits
it, everything is given back at the end, and a response is made of what was
delivered. -/

namespace OAuthValidator

open Program

section Protocol

def gained (resource : CurlResource) (ok : Bool) : Option CurlResource :=
  if ok then some resource else none

def acquired : (op : CurlOp) → op.Ans → Option CurlResource
  | .easyInit, ok => gained .handle ok
  | .slistAppend, ok => gained .headers ok
  | .multiInit, ok => gained .multi ok
  | .addHandle, ok => gained .attachment ok
  | _, _ => none

def released : CurlOp → Option CurlResource
  | .release resource => some resource
  | _ => none

/-- What is held after a trace that starts with the parsed URL. -/
def holds : CurlTrace → CurlResource → Bool
  | [], resource => resource == .url
  | ⟨op, ans⟩ :: older, resource =>
    if released op = some resource then false
    else if acquired op ans = some resource then true
    else holds older resource

def CancelSeen (tr : CurlTrace) : Prop :=
  ⟨.cancelRequested, true⟩ ∈ tr

def Configured (tr : CurlTrace) (options : List CurlOption) : Prop :=
  ∀ option ∈ options, ⟨.setOption option, true⟩ ∈ tr

/-- What an operation works on. A handle that is set up or driven refers to the
parsed URL and the request headers, and to the URL until it is cleaned up. -/
def CurlOp.uses : CurlOp → List CurlResource
  | .setOption _ => [.url, .handle, .headers]
  | .addHandle => [.url, .handle, .headers, .multi]
  | .perform | .poll _ | .infoRead => [.url, .handle, .headers, .multi, .attachment]
  | .responseCode | .contentType => [.url, .handle]
  | .release .attachment => [.url, .handle, .multi, .attachment]
  | .release .handle => [.url, .handle]
  | .release resource => [resource]
  | _ => []

/-- When an operation may be asked for. Everything that it uses is held. Nothing is
acquired twice, and the network is touched only by a handle with every option set,
before a cancellation is seen. A handle leaves the multi handle before either of
them goes. -/
structure Permitted (url : CString) (policy : HttpPolicy) (tr : CurlTrace) (op : CurlOp) : Prop where
  held : ∀ resource ∈ op.uses, holds tr resource = true
  ready : match op with
    | .easyInit => holds tr .handle = false
    | .slistAppend => holds tr .headers = false
    | .multiInit => holds tr .multi = false
    | .setOption option => option ∈ requestOptions url policy ∧ holds tr .attachment = false
    | .addHandle => holds tr .attachment = false ∧ Configured tr (requestOptions url policy)
    | .perform => Configured tr (requestOptions url policy) ∧ ¬ CancelSeen tr
    | .poll timeoutMs => timeoutMs ≤ 50 ∧ ¬ CancelSeen tr
    | .infoRead => ¬ CancelSeen tr
    | .release resource => resource = .handle ∨ resource = .multi → holds tr .attachment = false
    | _ => True

def delivered : (op : CurlOp) → op.Ans → List Delivery
  | .perform, performed => Performed.deliveries performed
  | _, _ => []

/-- The calls of the two callbacks, the earliest first. -/
def deliveriesOf : CurlTrace → List Delivery
  | [] => []
  | ⟨op, ans⟩ :: older => deliveriesOf older ++ delivered op ans

def CurlOp.succeeded : (op : CurlOp) → op.Ans → Prop
  | .perform, performed => Performed.ok performed = true ∧
      ∀ d ∈ Performed.deliveries performed, d.plain = true
  | .infoRead, message => message ≠ none
  | .cancelRequested, cancelled => cancelled = false
  | .responseCode, _ => True
  | .contentType, _ => True
  | .release _, _ => True
  | .easyInit, ok => ok = true
  | .versionInfo, ok => ok = true
  | .slistAppend, ok => ok = true
  | .setOption _, ok => ok = true
  | .multiInit, ok => ok = true
  | .addHandle, ok => ok = true
  | .poll _, ok => ok = true
  | .mallocEmpty, ok => ok = true

/-- No call failed, no memory was lacking and nothing was cancelled. -/
def Undisturbed (tr : CurlTrace) : Prop :=
  ∀ e ∈ tr, e.1.succeeded e.2

def stillRunning : (op : CurlOp) → op.Ans → Bool
  | .perform, performed => Performed.running performed
  | _, _ => false

/-- The performs after which the transfer was still running. -/
def roundsOf (tr : CurlTrace) : Nat :=
  tr.countP fun e => stillRunning e.1 e.2

/-- libcurl ends a transfer, and not with success, once a callback does not take
what it is given. -/
structure Obeys (policy : HttpPolicy) (tr : CurlTrace) : Prop where
  heeds : heeds (.start policy) (deliveriesOf tr) = true
  reports : allTaken (.start policy) (deliveriesOf tr) = false → ⟨.infoRead, some .ok⟩ ∉ tr

/-- The transfer is the one that the trace shows. -/
structure Describes (tr : CurlTrace) (transfer : Transfer) : Prop where
  reached : transfer.aborted = none
  headerLines : transfer.headerLines = headerLines (deliveriesOf tr)
  chunks : transfer.chunks = chunks (deliveriesOf tr)
  result : ⟨.infoRead, some transfer.result⟩ ∈ tr
  status : transfer.result = .ok → ⟨.responseCode, transfer.status⟩ ∈ tr
  contentType : transfer.result = .ok → ∀ status, transfer.status = some status →
    200 ≤ status → status < 300 →
      ∃ answer : Option (Option CString), ⟨.contentType, answer⟩ ∈ tr ∧ answer.join = transfer.contentType

/-- What is returned for a transfer, and what stands behind it. -/
structure Verdict (policy : HttpPolicy) (tr : CurlTrace) (result : TransferResult) : Prop where
  cancelled : CancelSeen tr → result = .error .interrupted
  finished : Obeys policy tr → ∃ transfer, result = finishTransfer policy transfer ∧
    ((∃ response, result = .ok response) ∨ Undisturbed tr → Describes tr transfer)

/-- How a request may end: everything is given back, or it has used up its
rounds while the transfer was running. -/
def Ended (policy : HttpPolicy) (rounds : Nat) (tr : CurlTrace) : Option TransferResult → Prop
  | none => roundsOf tr = rounds
  | some result => (∀ resource, holds tr resource = false) ∧ Verdict policy tr result

variable {url : CString} {policy : HttpPolicy} {tr : CurlTrace} {held : Held}
  {options : List CurlOption} {deliveries : List Delivery} {rounds : Nat}

def HoldsOnly (tr : CurlTrace) (held : Held) : Prop :=
  ∀ resource, holds tr resource = true ↔ resource ∈ held.list

/-- Where a request stands while nothing has gone wrong. -/
structure Standing (tr : CurlTrace) (held : Held) (options : List CurlOption)
    (deliveries : List Delivery) (rounds : Nat) : Prop where
  holding : HoldsOnly tr held
  uncancelled : ¬ CancelSeen tr
  configured : Configured tr options
  delivered : deliveriesOf tr = deliveries
  rounds : roundsOf tr = rounds

theorem HoldsOnly.uses (h : HoldsOnly tr held) {op : CurlOp} (hop : ∀ resource ∈ op.uses, resource ∈ held.list) :
    ∀ resource ∈ op.uses, holds tr resource = true :=
  fun resource hused => (h resource).mpr (hop resource hused)

theorem Standing.lacks (h : Standing tr held options deliveries rounds) {resource : CurlResource}
    (hnot : resource ∉ held.list) : holds tr resource = false := by
  by_contra hheld
  exact hnot ((h.holding resource).mp (by simpa using hheld))

/-- The operations that neither acquire nor deliver anything. -/
def CurlOp.inert : CurlOp → Bool
  | .versionInfo | .setOption _ | .poll _ | .infoRead | .responseCode | .contentType
  | .mallocEmpty => true
  | _ => false

theorem Configured.cons {e : Exchange CurlOp CurlOp.Ans} (h : Configured tr options) :
    Configured (e :: tr) options :=
  fun option ho => List.mem_cons_of_mem _ (h option ho)

theorem cancelSeen_cons {op : CurlOp} {ans : op.Ans} (h : op ≠ .cancelRequested) :
    CancelSeen (⟨op, ans⟩ :: tr) ↔ CancelSeen tr := by
  refine ⟨fun hseen => ?_, List.mem_cons_of_mem _⟩
  rcases List.mem_cons.mp hseen with heq | hmem
  · exact absurd (congrArg Sigma.fst heq).symm h
  · exact hmem

theorem Standing.inert (h : Standing tr held options deliveries rounds) {op : CurlOp} {ans : op.Ans}
    (hop : op.inert = true) : Standing (⟨op, ans⟩ :: tr) held options deliveries rounds := by
  obtain ⟨hheld, hopen, hset, hdelivered, hrounds⟩ := h
  refine ⟨fun resource => ?_, ?_, hset.cons, ?_, ?_⟩
  · rw [← hheld resource]
    cases op <;> simp [CurlOp.inert] at hop <;> simp [holds, released, acquired]
  · rwa [cancelSeen_cons (by rintro rfl; simp [CurlOp.inert] at hop)]
  · cases op <;> simp [CurlOp.inert] at hop <;> simpa [deliveriesOf, OAuthValidator.delivered] using hdelivered
  · cases op <;> simp [CurlOp.inert] at hop <;> simpa [roundsOf, stillRunning] using hrounds

theorem Verdict.failed {e : HttpError} (he : e ≠ .ok) (hc : CancelSeen tr → e = .interrupted)
    (hd : ¬ Undisturbed tr) : Verdict policy tr (.error e) := by
  refine ⟨fun h => by rw [hc h], fun _ => ⟨⟨some e, [], [], .other, none, none⟩, ?_, ?_⟩⟩
  · simp [finishTransfer, he]
  · rintro (⟨response, hr⟩ | h)
    · simp at hr
    · exact absurd h hd

theorem Verdict.release {result : TransferResult} (h : Verdict policy tr result)
    (resource : CurlResource) : Verdict policy (⟨.release resource, ()⟩ :: tr) result := by
  have hdeliveries : deliveriesOf (⟨.release resource, ()⟩ :: tr) = deliveriesOf tr := by
    simp [deliveriesOf, delivered]
  refine ⟨fun hc => h.cancelled ((cancelSeen_cons (by simp)).mp hc), fun hobeys => ?_⟩
  have hobeys' : Obeys policy tr :=
    ⟨hdeliveries ▸ hobeys.heeds, fun hall hok =>
      hobeys.reports (hdeliveries ▸ hall) (List.mem_cons_of_mem _ hok)⟩
  obtain ⟨transfer, hresult, hdescribes⟩ := h.finished hobeys'
  refine ⟨transfer, hresult, fun hcase => ?_⟩
  have hd := hdescribes (hcase.imp_right fun hu e he => hu e (List.mem_cons_of_mem _ he))
  refine ⟨hd.reached, hdeliveries ▸ hd.headerLines, hdeliveries ▸ hd.chunks,
    List.mem_cons_of_mem _ hd.result, fun hok => List.mem_cons_of_mem _ (hd.status hok),
    fun hok status hs hlow hhigh => ?_⟩
  obtain ⟨answer, hmem, hjoin⟩ := hd.contentType hok status hs hlow hhigh
  exact ⟨answer, List.mem_cons_of_mem _ hmem, hjoin⟩

/-- An order in which resources may be released: each once, while what it refers to
is still there, and the place in the multi handle before the handles. -/
def ReleaseOrder : List CurlResource → Prop
  | [] => True
  | resource :: rest => resource ∉ rest ∧
      (∀ used ∈ (CurlOp.release resource).uses, used ∈ resource :: rest) ∧
      (resource = .handle ∨ resource = .multi → .attachment ∉ rest) ∧ ReleaseOrder rest

instance ReleaseOrder.decidable : (l : List CurlResource) → Decidable (ReleaseOrder l)
  | [] => .isTrue trivial
  | _ :: rest =>
    have := ReleaseOrder.decidable rest
    inferInstanceAs (Decidable (_ ∧ _ ∧ _ ∧ _))

theorem releaseAll_sat {l : List CurlResource} {result : TransferResult} (horder : ReleaseOrder l)
    (hheld : ∀ resource, holds tr resource = true ↔ resource ∈ l) (hv : Verdict policy tr result) :
    Sat (Permitted url policy) (Ended policy rounds) tr (releaseAll result l) := by
  induction l generalizing tr with
  | nil => exact ⟨fun resource => by simpa using hheld resource, hv⟩
  | cons resource rest ih =>
    obtain ⟨hnot, huses, hdetached, hrest⟩ := horder
    have hpermitted : Permitted url policy tr (.release resource) := by
      refine ⟨fun used hused => (hheld used).mpr (huses used hused), fun hkind => ?_⟩
      by_contra hattached
      have hmem := (hheld .attachment).mp (by simpa using hattached)
      rcases List.mem_cons.mp hmem with heq | hmem
      · rcases hkind with rfl | rfl <;> simp at heq
      · exact hdetached hkind hmem
    refine ⟨hpermitted, fun _ => ih hrest (fun other => ?_) (hv.release resource)⟩
    have hother := hheld other
    by_cases heq : resource = other
    · subst heq
      simp [holds, released, hnot]
    · simp only [List.mem_cons, Ne.symm heq, false_or] at hother
      simp [holds, released, acquired, heq, hother]

theorem done_sat {result : TransferResult} (horder : ReleaseOrder held.list) (hheld : HoldsOnly tr held)
    (hv : Verdict policy tr result) :
    Sat (Permitted url policy) (Ended policy rounds) tr (done held result) :=
  releaseAll_sat horder hheld hv

theorem not_undisturbed {op : CurlOp} {ans : op.Ans} (h : ¬ op.succeeded ans) :
    ¬ Undisturbed (⟨op, ans⟩ :: tr) :=
  fun hu => h (hu _ List.mem_cons_self)

/-- A step that fails is followed by the cleanup. -/
theorem Standing.failed (h : Standing tr held options deliveries rounds) {n : Nat} {e : HttpError}
    (horder : ReleaseOrder held.list) (he : e ≠ .ok) (hd : ¬ Undisturbed tr) :
    Sat (Permitted url policy) (Ended policy n) tr (done held (.error e)) :=
  done_sat horder h.holding (.failed he (fun hc => absurd hc h.uncancelled) hd)

theorem setOptions_sat (h : Standing tr ⟨true, true, false, false⟩ options deliveries rounds)
    {l : List CurlOption} (hl : ∀ option ∈ l, option ∈ requestOptions url policy) :
    Sat (Permitted url policy) (fun tr' ok =>
      (ok = true → Standing tr' ⟨true, true, false, false⟩ (options ++ l) deliveries rounds) ∧
      (ok = false → Standing tr' ⟨true, true, false, false⟩ [] deliveries rounds ∧ ¬ Undisturbed tr'))
      tr (setOptions l) := by
  induction l generalizing tr options with
  | nil => exact ⟨fun _ => by simpa using h, by simp⟩
  | cons option rest ih =>
    refine ⟨⟨h.holding.uses (by simp [CurlOp.uses, Held.list]), hl option List.mem_cons_self, h.lacks (by decide)⟩, fun ok => ?_⟩
    have hnext : Standing (⟨.setOption option, ok⟩ :: tr) _ _ _ _ := h.inert rfl
    cases ok with
    | false =>
      refine ⟨by simp, fun _ => ⟨⟨hnext.holding, hnext.uncancelled, by simp [Configured],
        hnext.delivered, hnext.rounds⟩, not_undisturbed (by simp [CurlOp.succeeded])⟩⟩
    | true =>
      have hset : Standing (⟨.setOption option, true⟩ :: tr) ⟨true, true, false, false⟩
          (options ++ [option]) deliveries rounds := by
        refine ⟨hnext.holding, hnext.uncancelled, fun other hother => ?_, hnext.delivered, hnext.rounds⟩
        rcases List.mem_append.mp hother with hother | hother
        · exact hnext.configured other hother
        · rw [List.mem_singleton.mp hother]
          exact List.mem_cons_self
      have hrest := ih hset fun other hother => hl other (List.mem_cons_of_mem _ hother)
      rw [List.append_assoc, List.singleton_append] at hrest
      exact hrest

theorem checkCancel_sat (h : Standing tr held options deliveries rounds) :
    Sat (Permitted url policy) (fun tr' cancelled =>
      (cancelled = true → HoldsOnly tr' held ∧ ¬ Undisturbed tr') ∧
      (cancelled = false → Standing tr' held options deliveries rounds)) tr (checkCancel policy) := by
  unfold checkCancel
  split
  · refine ⟨⟨by simp [CurlOp.uses], trivial⟩, fun cancelled => ?_⟩
    have hholding : HoldsOnly (⟨.cancelRequested, cancelled⟩ :: tr) held := fun resource => by
      rw [← h.holding resource]
      simp [holds, released, acquired]
    refine ⟨fun hc => ⟨hholding, not_undisturbed fun hs => ?_⟩, fun hc => ?_⟩
    · rw [hc] at hs
      simp [CurlOp.succeeded] at hs
    · subst hc
      refine ⟨hholding, fun hseen => ?_, h.configured.cons, ?_, ?_⟩
      · rcases List.mem_cons.mp hseen with heq | hmem
        · have hflag : true = false := eq_of_heq (Sigma.mk.inj heq).2
          simp at hflag
        · exact h.uncancelled hmem
      · simpa [deliveriesOf, delivered] using h.delivered
      · simpa [roundsOf, stillRunning] using h.rounds
  · exact ⟨by simp, fun _ => h⟩

/-- How the loop may end, after it has been entered with `rounds` behind it. -/
def LoopEnded (url : CString) (policy : HttpPolicy) (limit : Nat) (tr : CurlTrace) :
    Option (Except HttpError Received) → Prop
  | none => roundsOf tr = limit
  | some (.error e) => HoldsOnly tr .all ∧ ¬ Undisturbed tr ∧ e ≠ .ok ∧ (CancelSeen tr → e = .interrupted)
  | some (.ok r) => ∃ deliveries rounds,
      Standing tr .all (requestOptions url policy) deliveries rounds ∧
        r = (Received.start policy).receive deliveries

theorem transferLoop_sat {limit left : Nat} {r : Received}
    (h : Standing tr .all (requestOptions url policy) deliveries rounds)
    (hr : r = (Received.start policy).receive deliveries) (hleft : rounds + left = limit) :
    Sat (Permitted url policy) (LoopEnded url policy limit) tr (transferLoop policy left r) := by
  induction left generalizing tr deliveries rounds r with
  | zero => exact h.rounds.trans hleft
  | succ left ih =>
    refine (checkCancel_sat h).bind fun tr' cancelled hcancel => ?_
    cases cancelled with
    | true =>
      obtain ⟨hholding, hdisturbed⟩ := hcancel.1 rfl
      exact ⟨hholding, hdisturbed, by simp, fun _ => rfl⟩
    | false =>
      have h' := hcancel.2 rfl
      refine ⟨⟨h'.holding.uses (by decide), h'.configured, h'.uncancelled⟩, fun performed : Performed => ?_⟩
      have hholding : HoldsOnly (⟨.perform, performed⟩ :: tr') .all := fun resource => by
        rw [← h'.holding resource]
        simp [holds, released, acquired]
      have hopen : ¬ CancelSeen (⟨.perform, performed⟩ :: tr') := fun hc =>
        h'.uncancelled ((cancelSeen_cons (by simp)).mp hc)
      have hstanding : Standing (⟨.perform, performed⟩ :: tr') .all (requestOptions url policy)
          (deliveries ++ performed.deliveries) (rounds + if performed.running then 1 else 0) := by
        refine ⟨hholding, hopen, h'.configured.cons, ?_, ?_⟩
        · simp [deliveriesOf, delivered, h'.delivered]
        · rw [← h'.rounds]
          simp [roundsOf, stillRunning, List.countP_cons]
      have hreceived : r.receive performed.deliveries =
          (Received.start policy).receive (deliveries ++ performed.deliveries) := by
        rw [hr]
        simp [Received.receive]
      simp only [Bool.not_eq_eq_eq_not, Bool.not_true]
      cases hok : performed.ok with
      | false =>
        refine ⟨hholding, not_undisturbed fun hs => ?_, by simp, fun hc => absurd hc hopen⟩
        simp [CurlOp.succeeded, hok] at hs
      | true =>
        cases hrunning : performed.running with
        | false => exact ⟨_, _, hstanding, hreceived⟩
        | true =>
          refine ⟨⟨hholding.uses (by decide), by simp, hopen⟩, fun polled : Bool => ?_⟩
          have hpolled : Standing (⟨.poll 50, polled⟩ :: ⟨.perform, performed⟩ :: tr') _ _ _ _ :=
            hstanding.inert rfl
          cases polled with
          | false =>
            exact ⟨hpolled.holding, not_undisturbed (by simp [CurlOp.succeeded]), by simp,
              fun hc => absurd hc hpolled.uncancelled⟩
          | true =>
            refine ih hpolled hreceived ?_
            simp only [hrunning, if_true]
            omega

theorem Undisturbed.plain (h : Undisturbed tr) : ∀ d ∈ deliveriesOf tr, d.plain = true := by
  induction tr with
  | nil => simp [deliveriesOf]
  | cons e older ih =>
    obtain ⟨op, ans⟩ := e
    intro d hd
    rcases List.mem_append.mp hd with hold | hnew
    · exact ih (fun e he => h e (List.mem_cons_of_mem _ he)) d hold
    · have hs := h _ List.mem_cons_self
      cases op with
      | perform => exact hs.2 d hnew
      | _ => simp [delivered] at hnew

theorem transferError_ne_ok (r : Received) (result : CurlResult) : transferError r result ≠ .ok := by
  unfold transferError
  split_ifs <;> simp

/-- The verdict on a transfer that failed. -/
theorem Verdict.reported (h : Standing tr held options deliveries rounds) {result : CurlResult}
    (hread : ⟨.infoRead, some result⟩ ∈ tr) (hresult : result ≠ .ok) :
    Verdict policy tr (.error (transferError ((Received.start policy).receive deliveries) result)) := by
  obtain ⟨_, hopen, _, hdelivered, _⟩ := h
  subst hdelivered
  refine ⟨fun hc => absurd hc hopen, fun hobeys => ?_⟩
  by_cases hplain : ∀ d ∈ deliveriesOf tr, d.plain = true
  · refine ⟨_, (finishTransfer_failed hobeys.heeds hplain hresult).symm, fun _ => ?_⟩
    exact ⟨rfl, rfl, rfl, hread, fun hok => absurd hok hresult, fun hok => absurd hok hresult⟩
  · refine ⟨⟨some (transferError ((Received.start policy).receive (deliveriesOf tr)) result), [], [],
      .other, none, none⟩, by simp [finishTransfer, transferError_ne_ok], ?_⟩
    rintro (⟨response, hr⟩ | hu)
    · simp at hr
    · exact absurd hu.plain hplain

/-- The verdict on a transfer that libcurl reported as successful. -/
theorem Verdict.judged (h : Standing tr held options deliveries rounds) {status : Option Int}
    (contentType : Option CString) (hread : ⟨.infoRead, some .ok⟩ ∈ tr)
    (hstatus : ⟨.responseCode, status⟩ ∈ tr)
    (htype : ∀ code, status = some code → 200 ≤ code → code < 300 →
      ∃ answer : Option (Option CString), ⟨.contentType, answer⟩ ∈ tr ∧ answer.join = contentType) :
    Verdict policy tr (judge ((Received.start policy).receive deliveries) status contentType) := by
  obtain ⟨_, hopen, _, hdelivered, _⟩ := h
  subst hdelivered
  refine ⟨fun hc => absurd hc hopen, fun hobeys => ?_⟩
  have hall : allTaken (.start policy) (deliveriesOf tr) = true := by
    by_contra hall
    exact hobeys.reports (by simpa using hall) hread
  exact ⟨_, (finishTransfer_taken hobeys.heeds hall status contentType).symm, fun _ =>
    ⟨rfl, rfl, rfl, hread, fun _ => hstatus, fun _ => htype⟩⟩

theorem readContent_sat (h : Standing tr .all options deliveries rounds) {status : Int}
    (hread : ⟨.infoRead, some .ok⟩ ∈ tr) (hcode : ⟨.responseCode, some status⟩ ∈ tr) :
    Sat (Permitted url policy) (fun tr' result => HoldsOnly tr' .all ∧ Verdict policy tr' result) tr
      (readContent ((Received.start policy).receive deliveries) status) := by
  by_cases hstatus : status < 200 ∨ 300 ≤ status
  · have hcond : (decide (status < 200) || decide (300 ≤ status)) = true := by simpa using hstatus
    have hjudge (r : Received) : judge r (some status) none = .error .status := by
      simp only [judge, hcond, if_true]
    unfold readContent
    simp only [hcond, if_true]
    rw [← hjudge ((Received.start policy).receive deliveries)]
    refine ⟨h.holding, Verdict.judged h none hread hcode ?_⟩
    rintro code ⟨⟩ hlow hhigh
    omega
  · have hcond : (decide (status < 200) || decide (300 ≤ status)) = false := by simpa using hstatus
    unfold readContent
    simp only [hcond, Bool.false_eq_true, if_false]
    refine ⟨⟨h.holding.uses (by decide), trivial⟩, fun answer : Option (Option CString) => ?_⟩
    have hjudge (r : Received) : judge r (some status) answer.join =
        if !jsonContentType answer.join then .error .contentType else .ok (r.response status) := by
      simp only [judge, hcond, Bool.false_eq_true, if_false]
    have htyped : Standing (⟨.contentType, answer⟩ :: tr) _ _ _ _ := h.inert rfl
    have hverdict {tr' : CurlTrace} (h' : Standing tr' .all options deliveries rounds)
        (hsub : ∀ e ∈ (⟨.contentType, answer⟩ :: tr : CurlTrace), e ∈ tr') :
        Verdict policy tr' (judge ((Received.start policy).receive deliveries) (some status) answer.join) :=
      Verdict.judged h' answer.join (hsub _ (List.mem_cons_of_mem _ hread))
        (hsub _ (List.mem_cons_of_mem _ hcode))
        fun _ _ _ _ => ⟨answer, hsub _ List.mem_cons_self, rfl⟩
    cases htype : jsonContentType answer.join with
    | false =>
      simp only [htype, Bool.not_false, if_true] at hjudge ⊢
      rw [← hjudge ((Received.start policy).receive deliveries)]
      exact ⟨htyped.holding, hverdict htyped fun e he => he⟩
    | true =>
      simp only [htype, Bool.not_true, Bool.false_eq_true, if_false] at hjudge ⊢
      rw [← hjudge ((Received.start policy).receive deliveries)]
      split
      · exact ⟨htyped.holding, hverdict htyped fun e he => he⟩
      · refine ⟨⟨by simp [CurlOp.uses], trivial⟩, fun allocated : Bool => ?_⟩
        have hlast : Standing (⟨.mallocEmpty, allocated⟩ :: ⟨.contentType, answer⟩ :: tr) _ _ _ _ :=
          htyped.inert rfl
        cases allocated with
        | true => exact ⟨hlast.holding, hverdict hlast fun e he => List.mem_cons_of_mem _ he⟩
        | false =>
          exact ⟨hlast.holding, .failed (by simp) (fun hc => absurd hc hlast.uncancelled)
            (not_undisturbed (by simp [CurlOp.succeeded]))⟩

theorem readResponse_sat {r : Received}
    (h : Standing tr .all options deliveries rounds)
    (hr : r = (Received.start policy).receive deliveries) :
    Sat (Permitted url policy) (fun tr' result => HoldsOnly tr' .all ∧ Verdict policy tr' result) tr
      (readResponse policy r) := by
  subst hr
  refine (checkCancel_sat h).bind fun tr cancelled hcancel => ?_
  cases cancelled with
  | true =>
    obtain ⟨hholding, hdisturbed⟩ := hcancel.1 rfl
    exact ⟨hholding, .failed (by simp) (fun _ => rfl) hdisturbed⟩
  | false =>
    have h := hcancel.2 rfl
    refine ⟨⟨h.holding.uses (by decide), h.uncancelled⟩, fun message => ?_⟩
    have hmessage : Standing (⟨.infoRead, message⟩ :: tr) _ _ _ _ := h.inert rfl
    cases message with
    | none =>
      exact ⟨hmessage.holding, .failed (by simp) (fun hc => absurd hc hmessage.uncancelled)
        (not_undisturbed fun hs => hs rfl)⟩
    | some result =>
      by_cases hresult : result = .ok
      · subst hresult
        refine ⟨⟨hmessage.holding.uses (by decide), trivial⟩, fun status => ?_⟩
        have hcode : Standing (⟨.responseCode, status⟩ :: ⟨.infoRead, some .ok⟩ :: tr) _ _ _ _ :=
          hmessage.inert rfl
        cases status with
        | none =>
          exact ⟨hcode.holding, Verdict.judged hcode none (by simp) List.mem_cons_self (by simp)⟩
        | some status => exact readContent_sat hcode (by simp) List.mem_cons_self
      · have hne : (result != .ok) = true := by simpa using hresult
        simp only [hne, if_true]
        exact ⟨hmessage.holding, Verdict.reported hmessage List.mem_cons_self hresult⟩

def CurlOp.acquiring : CurlOp → Bool
  | .easyInit | .slistAppend | .multiInit | .addHandle => true
  | _ => false

/-- Trying to acquire something changes at most what is held. -/
theorem Standing.tried (h : Standing tr held options deliveries rounds) {op : CurlOp} {ans : op.Ans}
    (hop : op.acquiring = true) {held' : Held}
    (hheld : ∀ resource, resource ∈ held'.list ↔ acquired op ans = some resource ∨ resource ∈ held.list) :
    Standing (⟨op, ans⟩ :: tr) held' options deliveries rounds := by
  obtain ⟨hholds, hopen, hset, hdelivered, hrounds⟩ := h
  refine ⟨fun resource => ?_, ?_, hset.cons, ?_, ?_⟩
  · have hreleased : released op = none := by
      cases op <;> simp [CurlOp.acquiring] at hop <;> rfl
    rw [hheld, ← hholds resource]
    simp [holds, hreleased]
  · rwa [cancelSeen_cons (by rintro rfl; simp [CurlOp.acquiring] at hop)]
  · cases op <;> simp [CurlOp.acquiring] at hop <;>
      simpa [deliveriesOf, OAuthValidator.delivered] using hdelivered
  · cases op <;> simp [CurlOp.acquiring] at hop <;> simpa [roundsOf, stillRunning] using hrounds

theorem checkVersion_sat (h : Standing tr held options deliveries rounds) :
    Sat (Permitted url policy) (fun tr' supported =>
      Standing tr' held options deliveries rounds ∧ (supported = false → ¬ Undisturbed tr')) tr
      (checkVersion policy) := by
  unfold checkVersion
  split
  · refine ⟨⟨by simp [CurlOp.uses], trivial⟩, fun supported => ⟨h.inert rfl, fun hs => not_undisturbed fun hok => ?_⟩⟩
    have hflag : supported = true := hok
    rw [hflag] at hs
    simp at hs
  · exact ⟨h, by simp⟩

/-- Everything a request does is permitted, and it ends as it should. -/
theorem httpTransfer_sat :
    Sat (Permitted url policy) (Ended policy rounds) [] (httpTransfer url policy rounds) := by
  have hstart : Standing [] {} [] [] 0 := by
    refine ⟨fun resource => ?_, by simp [CancelSeen], by simp [Configured], rfl, rfl⟩
    cases resource <;> decide
  refine ⟨⟨by simp [CurlOp.uses], rfl⟩, fun handle : Bool => ?_⟩
  cases handle with
  | false =>
    have h : Standing [⟨.easyInit, false⟩] {} [] [] 0 :=
      hstart.tried rfl fun resource => by simp [acquired, gained]
    exact h.failed (by decide) (by simp) (not_undisturbed (by simp [CurlOp.succeeded]))
  | true =>
  have hhandle : Standing [⟨.easyInit, true⟩] ⟨true, false, false, false⟩ [] [] 0 :=
    hstart.tried rfl fun resource => by cases resource <;> decide
  refine (checkVersion_sat hhandle).bind fun tr supported ⟨hversion, hunsupported⟩ => ?_
  cases supported with
  | false => exact hversion.failed (by decide) (by simp) (hunsupported rfl)
  | true =>
  refine ⟨⟨by simp [CurlOp.uses], hversion.lacks (by decide)⟩, fun headers : Bool => ?_⟩
  cases headers with
  | false =>
    have h : Standing (⟨.slistAppend, false⟩ :: tr) ⟨true, false, false, false⟩ [] [] 0 :=
      hversion.tried rfl fun resource => by simp [acquired, gained]
    exact h.failed (by decide) (by simp) (not_undisturbed (by simp [CurlOp.succeeded]))
  | true =>
  have hheaders : Standing (⟨.slistAppend, true⟩ :: tr) ⟨true, true, false, false⟩ [] [] 0 :=
    hversion.tried rfl fun resource => by cases resource <;> decide
  refine (setOptions_sat hheaders fun option ho => ho).bind fun tr configured ⟨hset, hunset⟩ => ?_
  cases configured with
  | false => exact (hunset rfl).1.failed (by decide) (by simp) (hunset rfl).2
  | true =>
  have hset := hset rfl
  refine ⟨⟨by simp [CurlOp.uses], hset.lacks (by decide)⟩, fun multi : Bool => ?_⟩
  cases multi with
  | false =>
    have h : Standing (⟨.multiInit, false⟩ :: tr) ⟨true, true, false, false⟩ _ [] 0 :=
      hset.tried rfl fun resource => by simp [acquired, gained]
    exact h.failed (by decide) (by simp) (not_undisturbed (by simp [CurlOp.succeeded]))
  | true =>
  have hmulti : Standing (⟨.multiInit, true⟩ :: tr) ⟨true, true, true, false⟩ _ [] 0 :=
    hset.tried rfl fun resource => by cases resource <;> decide
  refine ⟨⟨hmulti.holding.uses (by decide), hmulti.lacks (by decide), hmulti.configured⟩, fun added : Bool => ?_⟩
  cases added with
  | false =>
    have h : Standing (⟨.addHandle, false⟩ :: ⟨.multiInit, true⟩ :: tr) ⟨true, true, true, false⟩ _ [] 0 :=
      hmulti.tried rfl fun resource => by simp [acquired, gained]
    exact h.failed (by decide) (by simp) (not_undisturbed (by simp [CurlOp.succeeded]))
  | true =>
  have hadded : Standing (⟨.addHandle, true⟩ :: ⟨.multiInit, true⟩ :: tr) .all _ [] 0 :=
    hmulti.tried rfl fun resource => by cases resource <;> decide
  refine (transferLoop_sat hadded rfl (Nat.zero_add rounds)).bind fun tr ended hended => ?_
  cases ended with
  | none => exact hended
  | some ended =>
    cases ended with
    | error e =>
      obtain ⟨hholds, hdisturbed, he, hcancelled⟩ := hended
      exact done_sat (by decide) hholds (.failed he hcancelled hdisturbed)
    | ok r =>
      obtain ⟨deliveries, rounds', hstanding, hr⟩ := hended
      exact (readResponse_sat hstanding hr).bind fun tr result ⟨hholds, hv⟩ => done_sat (by decide) hholds hv

theorem feed_appendResponse_data {buffer : ResponseBuffer} {pieces : List Bytes}
    (h : (feed appendResponse buffer pieces).1 = true) :
    (feed appendResponse buffer pieces).2.data = buffer.data ++ pieces.flatten := by
  induction pieces generalizing buffer with
  | nil => simp [feed]
  | cons piece rest ih =>
    by_cases hlarge : buffer.maximum - buffer.data.length < piece.length
    · simp [feed, appendResponse, hlarge] at h
    · simp only [feed, appendResponse, hlarge, if_false] at h ⊢
      rw [ih h]
      simp

theorem finishTransfer_body {policy : HttpPolicy} {transfer : Transfer} {response : HttpResponse}
    (h : finishTransfer policy transfer = .ok response) :
    response.body = transfer.chunks.flatten := by
  obtain ⟨headers, buffer, status, _, hbody, rfl⟩ := finishTransfer_ok h
  have hdata := feed_appendResponse_data (congrArg Prod.fst hbody)
  rw [hbody] at hdata
  exact hdata

end Protocol

namespace Sample

def transferPolicy : HttpPolicy :=
  ⟨2048, 64, 1000, 2000, some (.lit "i"), none, none, false, true⟩

def piece (text : String) : HeaderLine :=
  ⟨1, (ascii text).length, ascii text, fun _ => (Nat.one_mul _).symm⟩

/-- A transfer in two rounds: an interim response, the headers of the final one and a
part of the body, then the rest. -/
def libcurl (tr : CurlTrace) : (op : CurlOp) → op.Ans
  | .perform =>
    if roundsOf tr = 0 then
      (⟨[⟨true, piece "HTTP/1.1 103 Early Hints", true⟩, ⟨true, piece "Cache-Control: no-store", true⟩,
        ⟨true, piece "HTTP/1.1 200 OK", true⟩, ⟨true, piece "Cache-Control: max-age=60", true⟩,
        ⟨true, piece "Age: 7", true⟩, ⟨false, piece "[1", true⟩], true, true⟩ : Performed)
    else (⟨[⟨false, piece ",2]", true⟩], true, false⟩ : Performed)
  | .infoRead => some CurlResult.ok
  | .responseCode => some (200 : Int)
  | .contentType => some (some (CString.lit "application/json"))
  | .cancelRequested => false
  | .release _ => ()
  | .easyInit | .versionInfo | .slistAppend | .setOption _ | .multiInit | .addHandle | .poll _
  | .mallocEmpty => true

def request : CurlProg (Option TransferResult) :=
  httpGetJson externals (.lit "https://i/k") transferPolicy 5

def response : HttpResponse :=
  ⟨ascii "[1,2]", 200, some (.lit "no-store,max-age=60"), none, none, some (.lit "7")⟩

theorem request_answered : (request.play libcurl []).2 = some (.ok response) := by
  decide +kernel

theorem request_allowed : requestError externals (.lit "https://i/k") transferPolicy = none := by
  decide +kernel

end Sample

/-- What a request returns is what the rest of the model takes a transfer to
be. A cancellation that was seen is reported. The body of a response is the bytes
that were delivered for it, as libcurl delivered them, and its freshness headers are
those of all the header lines that were delivered, of whichever header block. -/
theorem request_refines_transfer (ext : Externals) (url : CString) (policy : HttpPolicy) (rounds : Nat)
    (tr : CurlTrace) (result : TransferResult)
    (h : Exec [] (httpGetJson ext url policy rounds) tr (some result))
    (hallowed : requestError ext url policy = none) (hobeys : Obeys policy tr) :
    (CancelSeen tr → result = .error .interrupted) ∧
    (∀ s, perform s (.transfer url policy) result s) ∧
    ∃ transfer, result = finishTransfer policy transfer ∧
      ((∃ response, result = .ok response) ∨ Undisturbed tr → Describes tr transfer) ∧
      ∀ response, result = .ok response →
        response.body = (chunks (deliveriesOf tr)).flatten ∧
        ∀ name, response.header name = joinedHeader name (headerLines (deliveriesOf tr)) := by
  unfold httpGetJson at h
  rw [hallowed] at h
  obtain ⟨_, hcancelled, hfinished⟩ := httpTransfer_sat.of_exec h
  obtain ⟨transfer, hresult, hdescribes⟩ := hfinished hobeys
  refine ⟨hcancelled, fun s => ⟨⟨transfer, hresult⟩, rfl⟩, transfer, hresult, hdescribes,
    fun response hok => ?_⟩
  have hd := hdescribes (Or.inl ⟨response, hok⟩)
  have hfinished := hresult.symm.trans hok
  rw [← hd.chunks, ← hd.headerLines]
  exact ⟨finishTransfer_body hfinished, finishTransfer_header hfinished⟩

/-- A body that comes in two rounds, after two header blocks. -/
theorem request_refines_transfer_chunked :
    (Sample.request.play Sample.libcurl []).2 = some (.ok Sample.response) ∧
      Sample.response.body =
        (chunks (deliveriesOf (Sample.request.play Sample.libcurl []).1)).flatten ∧
      ∀ name, Sample.response.header name =
        joinedHeader name (headerLines (deliveriesOf (Sample.request.play Sample.libcurl []).1)) := by
  have hexec := Prog.play_exec Sample.libcurl Sample.request []
  rw [Sample.request_answered] at hexec
  have hobeys : Obeys Sample.transferPolicy (Sample.request.play Sample.libcurl []).1 :=
    ⟨by decide +kernel, fun hall => absurd hall (by decide +kernel)⟩
  obtain ⟨_, _, _, _, _, hresponse⟩ :=
    request_refines_transfer Sample.externals _ _ 5 _ _ hexec Sample.request_allowed hobeys
  exact ⟨Sample.request_answered, hresponse Sample.response rfl⟩

end OAuthValidator
