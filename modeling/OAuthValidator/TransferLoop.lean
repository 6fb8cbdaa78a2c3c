import OAuthValidator.HeaderCapture
import OAuthValidator.Program

/-! The network part of `pg_oauth_http_get_json` as a program over libcurl. The
request is configured option by option, driven by a loop that polls for
cancellation, fed by two callbacks, and cleaned up on every way out. The loop is
followed for a given number of rounds. -/

namespace OAuthValidator

open Program

/-- An option of the request with its value. A list of protocols is https, with
http beside it if the flag is set. -/
inductive CurlOption
  | curlu (url : CString)
  | httpHeader
  | httpGet (value : Int)
  | followLocation (value : Int)
  | maxRedirs (value : Int)
  | protocols (http : Bool)
  | redirProtocols (http : Bool)
  | sslVerifyPeer (value : Int)
  | sslVerifyHost (value : Int)
  | sslVersionTls12
  | noSignal (value : Int)
  | quickExit (value : Int)
  | netrcIgnored
  | proxy (value : CString)
  | connectTimeoutMs (value : Int)
  | timeoutMs (value : Int)
  | maxFileSize (value : Nat)
  | writeFunction
  | writeData
  | headerFunction
  | headerData
  | caInfo (file : CString)
deriving DecidableEq

/-- The options in the order of their SETOPT lines. -/
def requestOptions (url : CString) (policy : HttpPolicy) : List CurlOption :=
  [.curlu url, .httpHeader, .httpGet 1, .followLocation 0, .maxRedirs 0,
    .protocols policy.allowInsecureHttp, .redirProtocols policy.allowInsecureHttp,
    .sslVerifyPeer 1, .sslVerifyHost 2, .sslVersionTls12, .noSignal 1] ++
  (if policy.cancellable then [.quickExit 1] else []) ++
  [.netrcIgnored, .proxy (.lit ""), .connectTimeoutMs policy.connectTimeoutMs,
    .timeoutMs policy.totalTimeoutMs, .maxFileSize policy.maxResponseSize, .writeFunction,
    .writeData, .headerFunction, .headerData] ++
  (policy.caFile.map CurlOption.caInfo).toList

/-- What has to be given back: the parsed URL, the easy handle, the list of
request headers, the multi handle, and the place of the one in the other. -/
inductive CurlResource
  | url | handle | headers | multi | attachment
deriving DecidableEq, Repr

/-- One call of a callback during a perform, and whether memory can be had. -/
structure Delivery where
  toHeader : Bool
  piece : HeaderLine
  allocated : Bool

/-- What `curl_multi_perform` did: the callbacks it ran, whether it returned
`CURLM_OK`, and whether the transfer is still running. -/
structure Performed where
  deliveries : List Delivery
  ok : Bool
  running : Bool

inductive CurlOp
  | easyInit
  /-- `curl_version_info`; the answer says whether waits can be interrupted. -/
  | versionInfo
  | slistAppend
  | setOption (option : CurlOption)
  | multiInit
  | addHandle
  | cancelRequested
  | perform
  | poll (timeoutMs : Int)
  /-- `curl_multi_info_read`; the answer is the result of a `CURLMSG_DONE`. -/
  | infoRead
  | responseCode
  | contentType
  | mallocEmpty
  | release (resource : CurlResource)

def CurlOp.Ans : CurlOp → Type
  | .perform => Performed
  | .infoRead => Option CurlResult
  | .responseCode => Option Int
  | .contentType => Option (Option CString)
  | .release _ => Unit
  | _ => Bool

abbrev CurlProg := Prog CurlOp CurlOp.Ans

abbrev CurlTrace := Trace CurlOp CurlOp.Ans

/-- The buffers of the callbacks. -/
structure Received where
  buffer : ResponseBuffer
  outOfMemory : Bool
  hasData : Bool
  headers : HeaderBuffer
deriving DecidableEq

def Received.start (policy : HttpPolicy) : Received :=
  ⟨⟨[], policy.maxResponseSize, false⟩, false, false, .empty⟩

def HeaderLine.bytes (line : HeaderLine) : Nat :=
  line.size * line.count

/-- `append_response`. -/
def Received.append (r : Received) (piece : HeaderLine) (allocated : Bool) : Nat × Received :=
  if piece.overflows then (0, { r with buffer := { r.buffer with tooLarge := true } })
  else if r.buffer.maximum - r.buffer.data.length < piece.bytes then
    (0, { r with buffer := { r.buffer with tooLarge := true } })
  else if !allocated then (0, { r with outOfMemory := true })
  else
    (piece.bytes,
      { r with buffer := { r.buffer with data := r.buffer.data ++ piece.contents }, hasData := true })

/-- What the header callback makes of the appended value; none is a failed append. -/
def Received.keep (r : Received) (line : HeaderLine) (target : FreshnessHeader) (value : Bytes) :
    Option CString → Nat × Received
  | some text => (line.bytes, { r with headers := r.headers.set (some text) target })
  | none =>
    if (r.headers.get target).isSome || decide (maxFreshnessHeaderSize < value.length) then
      (0, { r with headers := { r.headers with tooLarge := true } })
    else (0, { r with headers := { r.headers with outOfMemory := true } })

/-- `capture_header`. -/
def Received.capture (r : Received) (line : HeaderLine) (allocated : Bool) : Nat × Received :=
  if line.overflows then (0, { r with headers := { r.headers with tooLarge := true } })
  else
    match line.field with
    | none => (line.bytes, r)
    | some (target, value) =>
      r.keep line target value
        (if allocated then appendHeaderValue (r.headers.get target) value else none)

def Received.take (r : Received) (d : Delivery) : Nat × Received :=
  if d.toHeader then r.capture d.piece d.allocated else r.append d.piece d.allocated

/-- The callback took what it was given; libcurl ends the transfer otherwise. -/
def Received.takes (r : Received) (d : Delivery) : Bool :=
  (r.take d).1 == d.piece.bytes

def Received.receive (r : Received) (deliveries : List Delivery) : Received :=
  deliveries.foldl (fun r d => (r.take d).2) r

/-- The C variables that the cleanup looks at. -/
structure Held where
  handle : Bool := false
  headers : Bool := false
  multi : Bool := false
  added : Bool := false
deriving DecidableEq

def Held.all : Held :=
  ⟨true, true, true, true⟩

/-- What is released at `done`, in the order of the source. Releasing NULL does
nothing. -/
def Held.list (held : Held) : List CurlResource :=
  (if held.headers then [.headers] else []) ++ (if held.added then [.attachment] else []) ++
    (if held.multi then [.multi] else []) ++ (if held.handle then [.handle] else []) ++ [.url]

abbrev TransferResult := Except HttpError HttpResponse

def releaseAll (result : TransferResult) : List CurlResource → CurlProg (Option TransferResult)
  | [] => .ret (some result)
  | resource :: rest => .ask (.release resource) fun _ => releaseAll result rest

def done (held : Held) (result : TransferResult) : CurlProg (Option TransferResult) :=
  releaseAll result held.list

def setOptions : List CurlOption → CurlProg Bool
  | [] => .ret true
  | option :: rest =>
    .ask (.setOption option) fun ok : Bool => if ok then setOptions rest else .ret false

def checkVersion (policy : HttpPolicy) : CurlProg Bool :=
  if policy.cancellable then .ask .versionInfo fun supported : Bool => .ret supported else .ret true

def checkCancel (policy : HttpPolicy) : CurlProg Bool :=
  if policy.cancellable then .ask .cancelRequested fun cancelled : Bool => .ret cancelled
  else .ret false

/-- The loop around `curl_multi_perform`; none while it is still running. -/
def transferLoop (policy : HttpPolicy) : Nat → Received → CurlProg (Option (Except HttpError Received))
  | 0, _ => .ret none
  | rounds + 1, r =>
    (checkCancel policy).bind fun cancelled =>
      if cancelled then .ret (some (.error .interrupted))
      else
        .ask .perform fun performed : Performed =>
          let r := r.receive performed.deliveries
          if !performed.ok then .ret (some (.error .networkFailure))
          else if !performed.running then .ret (some (.ok r))
          else
            .ask (.poll 50) fun ok : Bool =>
              if ok then transferLoop policy rounds r else .ret (some (.error .networkFailure))

def transferError (r : Received) (result : CurlResult) : HttpError :=
  if r.buffer.tooLarge || r.headers.tooLarge || result == .filesizeExceeded then .responseTooLarge
  else if r.outOfMemory || r.headers.outOfMemory then .outOfMemory
  else if result == .operationTimedout then .timeout
  else if result == .tls then .tlsFailure
  else .networkFailure

def Received.response (r : Received) (status : Int) : HttpResponse :=
  ⟨r.buffer.data, status, r.headers.cacheControl, r.headers.date, r.headers.expires, r.headers.age⟩

/-- Reading the response once its code is known. -/
def readContent (r : Received) (status : Int) : CurlProg TransferResult :=
  if status < 200 || 300 ≤ status then .ret (.error .status)
  else
    .ask .contentType fun type : Option (Option CString) =>
      if !jsonContentType type.join then .ret (.error .contentType)
      else if r.hasData then .ret (.ok (r.response status))
      else
        .ask .mallocEmpty fun ok : Bool =>
          .ret (if ok then .ok (r.response status) else .error .outOfMemory)

/-- From the end of the loop to the response. -/
def readResponse (policy : HttpPolicy) (r : Received) : CurlProg TransferResult :=
  (checkCancel policy).bind fun cancelled =>
    if cancelled then .ret (.error .interrupted)
    else
      .ask .infoRead fun message : Option CurlResult =>
        match message with
        | none => .ret (.error .networkFailure)
        | some result =>
          if result != .ok then .ret (.error (transferError r result))
          else
            .ask .responseCode fun code : Option Int =>
              match code with
              | none => .ret (.error .status)
              | some status => readContent r status

/-- `pg_oauth_http_get_json` once the URL has been validated. -/
def httpTransfer (url : CString) (policy : HttpPolicy) (rounds : Nat) :
    CurlProg (Option TransferResult) :=
  .ask .easyInit fun handle : Bool =>
    if !handle then done {} (.error .outOfMemory)
    else
      (checkVersion policy).bind fun supported =>
        if !supported then done ⟨true, false, false, false⟩ (.error .networkFailure)
        else
          .ask .slistAppend fun headers : Bool =>
            if !headers then done ⟨true, false, false, false⟩ (.error .outOfMemory)
            else
              (setOptions (requestOptions url policy)).bind fun configured =>
                if !configured then done ⟨true, true, false, false⟩ (.error .networkFailure)
                else
                  .ask .multiInit fun multi : Bool =>
                    if !multi then done ⟨true, true, false, false⟩ (.error .outOfMemory)
                    else
                      .ask .addHandle fun added : Bool =>
                        if !added then done ⟨true, true, true, false⟩ (.error .networkFailure)
                        else
                          (transferLoop policy rounds (.start policy)).bind fun ended =>
                            match ended with
                            | none => .ret none
                            | some (.error e) => done .all (.error e)
                            | some (.ok r) => (readResponse policy r).bind (done .all)

def httpGetJson (ext : Externals) (url : CString) (policy : HttpPolicy) (rounds : Nat) :
    CurlProg (Option TransferResult) :=
  match requestError ext url policy with
  | some e => .ret (some (.error e))
  | none => httpTransfer url policy rounds

section Callbacks

variable {r : Received} {d : Delivery} {line : HeaderLine}

theorem HeaderLine.bytes_eq (h : line.overflows = false) : line.bytes = line.contents.length := by
  have hproduct : line.size * line.count ≤ sizeMax := by
    rw [HeaderLine.overflows, Bool.and_eq_false_iff] at h
    rcases h with hzero | hcount
    · have hsize : line.size = 0 := by simpa using hzero
      simp [hsize]
    · have hle : line.count ≤ sizeMax / line.size := by simpa using hcount
      exact (Nat.mul_le_mul_left _ hle).trans (Nat.mul_div_le _ _)
  exact (line.length_eq hproduct).symm

theorem HeaderLine.bytes_ne_zero (h : line.overflows = true) : line.bytes ≠ 0 := by
  simp only [HeaderLine.overflows, Bool.and_eq_true, bne_iff_ne, decide_eq_true_eq] at h
  exact Nat.mul_ne_zero h.1 (Nat.ne_zero_of_lt h.2)

theorem HeaderLine.bytes_ne_zero_of_field {target : FreshnessHeader} {value : Bytes}
    (h : line.field = some (target, value)) : line.bytes ≠ 0 := by
  unfold HeaderLine.field at h
  split at h
  · simp at h
  · next hfits =>
    rw [HeaderLine.bytes_eq (by simpa using hfits)]
    intro hzero
    rw [List.length_eq_zero_iff.mp hzero] at h
    simp [headerField] at h

/-- With memory the header callback is `captureLine`. -/
theorem Received.capture_allocated (r : Received) (line : HeaderLine) :
    r.capture line true =
      (if (captureLine r.headers line).1 then line.bytes else 0,
        { r with headers := (captureLine r.headers line).2 }) := by
  have hcase := captureLine_cases r.headers line
  have hfits {target : FreshnessHeader} {value : Bytes} (h : line.field = some (target, value)) :
      line.overflows = false := by
    by_contra hover
    rw [HeaderLine.field, if_pos (by simpa using hover)] at h
    simp at h
  unfold Received.capture
  generalize captureLine r.headers line = taken at hcase ⊢
  cases hcase with
  | overflow hover => simp [hover]
  | other hover hfield => simp [hover, hfield]
  | taken target value text hfield happend =>
    simp only [hfits hfield, hfield, happend, Bool.false_eq_true, if_false, if_true]
    rfl
  | refused target value hfield happend hlong =>
    simp only [hfits hfield, hfield, happend, Bool.false_eq_true, if_false, if_true]
    rw [Received.keep, if_pos (by simpa using hlong)]
  | outOfMemory target value hfield happend hshort =>
    simp only [hfits hfield, hfield, happend, Bool.false_eq_true, if_false, if_true]
    rw [Received.keep, if_neg (by simpa using hshort)]

theorem captureLine_eq (headers : HeaderBuffer) (h : line.overflows = false) :
    captureLine headers line = captureHeader headers line.contents := by
  simp [captureLine, h]

theorem captureLine_bytes_ne_zero {headers : HeaderBuffer}
    (h : (captureLine headers line).1 = false) : line.bytes ≠ 0 := by
  have hcase := captureLine_cases headers line
  generalize captureLine headers line = taken at hcase h
  cases hcase with
  | overflow hover => exact HeaderLine.bytes_ne_zero hover
  | other => simp at h
  | taken => simp at h
  | refused target value hfield => exact HeaderLine.bytes_ne_zero_of_field hfield
  | outOfMemory target value hfield => exact HeaderLine.bytes_ne_zero_of_field hfield

/-- A line is taken as `captureHeader` takes it, with or without memory. -/
theorem Received.capture_taken {allocated : Bool} (h : (r.capture line allocated).1 = line.bytes) :
    captureHeader r.headers line.contents = (true, (r.capture line allocated).2.headers) ∧
      (r.capture line allocated).2.buffer = r.buffer := by
  have hfits : line.overflows = false := by
    by_contra hover
    have hover : line.overflows = true := by simpa using hover
    rw [Received.capture, if_pos hover] at h
    exact HeaderLine.bytes_ne_zero hover h.symm
  rw [← captureLine_eq r.headers hfits]
  cases allocated with
  | true =>
    rw [Received.capture_allocated] at h ⊢
    cases htaken : (captureLine r.headers line).1 with
    | true => exact ⟨Prod.ext htaken rfl, rfl⟩
    | false =>
      rw [htaken] at h
      exact absurd h.symm (captureLine_bytes_ne_zero htaken)
  | false =>
    cases hfield : line.field with
    | none =>
      have hcapture : r.capture line false = (line.bytes, r) := by
        simp [Received.capture, hfits, hfield]
      have hcase := captureLine_cases r.headers line
      rw [hcapture]
      generalize captureLine r.headers line = taken at hcase ⊢
      cases hcase with
      | overflow hover => simp [hfits] at hover
      | other => exact ⟨rfl, rfl⟩
      | taken _ _ _ hsome => simp [hfield] at hsome
      | refused _ _ hsome => simp [hfield] at hsome
      | outOfMemory _ _ hsome => simp [hfield] at hsome
    | some field =>
      -- without memory the value is not kept
      have hzero : (r.capture line false).1 = 0 := by
        simp only [Received.capture, hfits, hfield, Bool.false_eq_true, if_false, Received.keep]
        split <;> rfl
      exact absurd (hzero.symm.trans h).symm (HeaderLine.bytes_ne_zero_of_field hfield)

theorem Received.append_taken {piece : HeaderLine} {allocated : Bool}
    (h : (r.append piece allocated).1 = piece.bytes) :
    appendResponse r.buffer piece.contents = (true, (r.append piece allocated).2.buffer) ∧
      (r.append piece allocated).2.headers = r.headers := by
  unfold Received.append at h ⊢
  by_cases hover : piece.overflows = true
  · rw [if_pos hover] at h
    exact absurd h.symm (HeaderLine.bytes_ne_zero hover)
  · have hbytes := HeaderLine.bytes_eq (by simpa using hover : piece.overflows = false)
    rw [if_neg hover] at h ⊢
    by_cases hlarge : r.buffer.maximum - r.buffer.data.length < piece.bytes
    · rw [if_pos hlarge] at h
      have hzero : 0 = piece.bytes := h
      omega
    · rw [if_neg hlarge] at h ⊢
      rw [hbytes] at hlarge
      rw [appendResponse, if_neg hlarge]
      cases allocated with
      | true => exact ⟨rfl, rfl⟩
      | false =>
        -- an empty piece is taken although there was no memory
        have hempty : piece.contents = [] := List.length_eq_zero_iff.mp (hbytes.symm.trans h.symm)
        simp [hempty]

/-- A delivery that memory can be had for and that fits in it. -/
def Delivery.plain (d : Delivery) : Bool :=
  d.allocated && !d.piece.overflows

theorem Received.capture_refused (hfits : line.overflows = false)
    (h : (r.capture line true).1 ≠ line.bytes) :
    captureHeader r.headers line.contents = (false, (r.capture line true).2.headers) ∧
      (r.capture line true).2.buffer = r.buffer := by
  rw [Received.capture_allocated] at h ⊢
  rw [← captureLine_eq r.headers hfits]
  cases htaken : (captureLine r.headers line).1 with
  | true => simp [htaken] at h
  | false => exact ⟨Prod.ext htaken rfl, rfl⟩

theorem Received.append_refused {piece : HeaderLine} (hfits : piece.overflows = false)
    (h : (r.append piece true).1 ≠ piece.bytes) :
    appendResponse r.buffer piece.contents = (false, (r.append piece true).2.buffer) ∧
      (r.append piece true).2.headers = r.headers := by
  have hbytes := HeaderLine.bytes_eq hfits
  unfold Received.append at h ⊢
  rw [if_neg (by simp [hfits])] at h ⊢
  by_cases hlarge : r.buffer.maximum - r.buffer.data.length < piece.bytes
  · rw [if_pos hlarge]
    rw [hbytes] at hlarge
    rw [appendResponse, if_pos hlarge]
    exact ⟨rfl, rfl⟩
  · rw [if_neg hlarge] at h
    exact absurd rfl h

theorem Received.outOfMemory_take (h : d.plain = true) : (r.take d).2.outOfMemory = r.outOfMemory := by
  simp only [Delivery.plain, Bool.and_eq_true] at h
  unfold Received.take
  split
  · rw [h.1, Received.capture_allocated]
  · simp only [Received.append, h.1, Bool.not_true, Bool.false_eq_true, if_false]
    split
    · rfl
    · split <;> rfl

end Callbacks

section Deliveries

/-- Nothing is delivered after a piece that was not taken. -/
def heeds : Received → List Delivery → Bool
  | _, [] => true
  | r, d :: rest => if r.takes d then heeds (r.take d).2 rest else rest.isEmpty

def allTaken : Received → List Delivery → Bool
  | _, [] => true
  | r, d :: rest => r.takes d && allTaken (r.take d).2 rest

def headerLines (deliveries : List Delivery) : List Bytes :=
  (deliveries.filter (·.toHeader)).map (·.piece.contents)

def chunks (deliveries : List Delivery) : List Bytes :=
  (deliveries.filter (!·.toHeader)).map (·.piece.contents)

variable {r : Received} {deliveries : List Delivery}

/-- The buffers hold what the two callbacks were given, as long as nothing is
refused for want of memory. -/
theorem feed_deliveries (hheeds : heeds r deliveries = true)
    (h : allTaken r deliveries = true ∨ ∀ d ∈ deliveries, d.plain = true) :
    (feed captureHeader r.headers (headerLines deliveries)).2 = (r.receive deliveries).headers ∧
      (feed appendResponse r.buffer (chunks deliveries)).2 = (r.receive deliveries).buffer ∧
      ((feed captureHeader r.headers (headerLines deliveries)).1 &&
        (feed appendResponse r.buffer (chunks deliveries)).1) = allTaken r deliveries := by
  induction deliveries generalizing r with
  | nil => exact ⟨rfl, rfl, rfl⟩
  | cons d rest ih =>
    have hreceive : r.receive (d :: rest) = (r.take d).2.receive rest := rfl
    by_cases htaken : r.takes d = true
    · have hrest : heeds (r.take d).2 rest = true := by simpa only [heeds, htaken, if_true] using hheeds
      have hcase : allTaken (r.take d).2 rest = true ∨ ∀ d' ∈ rest, d'.plain = true := by
        rcases h with h | h
        · simp only [allTaken, htaken, Bool.true_and] at h
          exact Or.inl h
        · exact Or.inr fun d' hd => h d' (List.mem_cons_of_mem _ hd)
      have hlater := ih hrest hcase
      have hall : allTaken r (d :: rest) = allTaken (r.take d).2 rest := by
        simp only [allTaken, htaken, Bool.true_and]
      have hbytes : (r.take d).1 = d.piece.bytes := by simpa [Received.takes] using htaken
      rw [hall, hreceive]
      cases hto : d.toHeader with
      | true =>
        simp only [Received.take, hto, if_true] at hbytes hlater ⊢
        obtain ⟨hcaptured, hsame⟩ := Received.capture_taken hbytes
        simp only [headerLines, chunks, hto, List.filter_cons, List.map_cons, feed, hcaptured, if_true,
          Bool.not_true, Bool.false_eq_true, if_false]
        rw [hsame] at hlater
        exact hlater
      | false =>
        simp only [Received.take, hto, Bool.false_eq_true, if_false] at hbytes hlater ⊢
        obtain ⟨happended, hsame⟩ := Received.append_taken hbytes
        simp only [headerLines, chunks, hto, List.filter_cons, List.map_cons, feed, happended, if_true,
          Bool.not_false, Bool.false_eq_true, if_false]
        rw [hsame] at hlater
        exact hlater
    · -- the piece that is not taken is the last one
      have hlast : rest = [] := by simpa [heeds, htaken] using hheeds
      have hplain : d.plain = true := by
        rcases h with h | h
        · simp [allTaken, htaken] at h
        · exact h d List.mem_cons_self
      have hbytes : (r.take d).1 ≠ d.piece.bytes := by simpa [Received.takes] using htaken
      simp only [Delivery.plain, Bool.and_eq_true, Bool.not_eq_eq_eq_not, Bool.not_true] at hplain
      subst hlast
      have hall : allTaken r [d] = false := by simp [allTaken, htaken]
      rw [hall, hreceive]
      cases hto : d.toHeader with
      | true =>
        simp only [Received.take, hto, hplain.1, if_true] at hbytes ⊢
        obtain ⟨hcaptured, hsame⟩ := Received.capture_refused hplain.2 hbytes
        simp only [headerLines, chunks, hto, List.filter_cons, List.filter_nil, List.map_cons, List.map_nil,
          feed, hcaptured, if_true, Bool.not_true, Bool.false_eq_true, if_false, Bool.false_and]
        exact ⟨rfl, hsame.symm, trivial⟩
      | false =>
        simp only [Received.take, hto, hplain.1, Bool.false_eq_true, if_false] at hbytes ⊢
        obtain ⟨happended, hsame⟩ := Received.append_refused hplain.2 hbytes
        simp only [headerLines, chunks, hto, List.filter_cons, List.filter_nil, List.map_cons, List.map_nil,
          feed, happended, if_true, Bool.not_false, Bool.false_eq_true, if_false, Bool.and_false]
        exact ⟨hsame.symm, rfl, trivial⟩

theorem outOfMemory_receive (h : ∀ d ∈ deliveries, d.plain = true) :
    (r.receive deliveries).outOfMemory = r.outOfMemory := by
  induction deliveries generalizing r with
  | nil => rfl
  | cons d rest ih =>
    have hd := Received.outOfMemory_take (r := r) (h d List.mem_cons_self)
    exact (ih fun d' hd' => h d' (List.mem_cons_of_mem _ hd')).trans hd

/-- The judgement on a transfer that libcurl reported as successful. -/
def judge (r : Received) (status : Option Int) (contentType : Option CString) : TransferResult :=
  match status with
  | none => .error .status
  | some status =>
    if status < 200 || 300 ≤ status then .error .status
    else if !jsonContentType contentType then .error .contentType
    else .ok (r.response status)

theorem finishTransfer_taken {policy : HttpPolicy}
    (hheeds : heeds (.start policy) deliveries = true)
    (hall : allTaken (.start policy) deliveries = true) (status : Option Int)
    (contentType : Option CString) :
    finishTransfer policy
      ⟨none, headerLines deliveries, chunks deliveries, .ok, status, contentType⟩ =
        judge ((Received.start policy).receive deliveries) status contentType := by
  obtain ⟨hheaders, hbuffer, htaken⟩ := feed_deliveries hheeds (Or.inl hall)
  rw [hall, Bool.and_eq_true] at htaken
  simp only [Received.start] at hheaders hbuffer htaken
  simp only [finishTransfer, Received.start, htaken.1, htaken.2, hheaders, hbuffer]
  rfl

theorem finishTransfer_failed {policy : HttpPolicy} {result : CurlResult}
    (hheeds : heeds (.start policy) deliveries = true)
    (hplain : ∀ d ∈ deliveries, d.plain = true) (hresult : result ≠ .ok) :
    finishTransfer policy ⟨none, headerLines deliveries, chunks deliveries, result, none, none⟩ =
      .error (transferError ((Received.start policy).receive deliveries) result) := by
  obtain ⟨hheaders, hbuffer, _⟩ := feed_deliveries hheeds (Or.inr hplain)
  have hmemory : ((Received.start policy).receive deliveries).outOfMemory = false :=
    outOfMemory_receive hplain
  simp only [Received.start] at hheaders hbuffer hmemory
  simp only [finishTransfer, transferError, hmemory, bne_iff_ne, ne_eq, hresult, not_false_eq_true,
    Bool.or_eq_true, or_true, if_true, Bool.false_eq_true, false_or, Received.start, hheaders, hbuffer]

end Deliveries

end OAuthValidator
