import Mathlib.Data.List.Chain
import TusRs.Interaction.Discipline
import TusRs.Protocol.Hooks
import TusRs.Text

/-!
# Webhooks

`tus-hook-http/src/lib.rs`: the delivery of a pre-hook to a web server and the decision read
from its last response. The webhook may answer anything; the clock is ideal and a sleep takes
its time exactly. Times are in nanoseconds, and the clock shows none beyond its latest one.

Results:

* `readBodyCapped_complete_iff`: which bodies are read whole.
* `send_spec`: the law of the deliveries and the outcome they end with.
* `executePre_law`: the law of deliveries and the decision, over every run.
-/

namespace TusRs

open Interaction

namespace Protocol

namespace Webhook

open Text (Chars)

/-! ## Configuration and messages -/

/-- `u32::MAX`. -/
def u32Max : Nat := 2 ^ 32 - 1

/-- `u32::saturating_add`. -/
def satAdd32 (a b : Nat) : Nat := min (a + b) u32Max

/-- `MAX_RETRY_DELAY_MILLIS`. -/
def maxRetryDelayMillis : Nat := 10000

/-- `MAX_ERROR_BODY_BYTES`. -/
def maxErrorBodyBytes : Nat := 8 * 1024

/-- `MAX_PRE_HOOK_BODY_BYTES`. -/
def maxPreHookBodyBytes : Nat := 64 * 1024

/-- `HttpHookConfig`: what says how often to deliver and what a failure means. -/
structure HttpHookConfig where
  retryEnabled : Bool
  maxRetries : Nat
  retryDeadline : Nat
  retryPostHooks : Bool
  failOpen : Bool

/-- `HookEvent::as_str`. -/
def eventName : HookEvent → String
  | .preCreate => "pre-create"
  | .postCreate => "post-create"
  | .preReceive => "pre-receive"
  | .postReceive => "post-receive"
  | .preFinish => "pre-finish"
  | .postFinish => "post-finish"
  | .preTerminate => "pre-terminate"
  | .postTerminate => "post-terminate"

/-- What `send_webhook` sends beside what the configuration fixes. -/
structure Delivery where
  event : String
  deliveryId : String
  timestamp : Nat
  payload : Bytes
deriving DecidableEq

/-- A response: its body comes in chunks and ends or breaks off. -/
structure WebhookResponse where
  status : Nat
  retryAfter : Option Chars
  chunks : List Bytes
  ended : Except String Unit

/-- `PreHookResponse`. -/
structure PreHookResponse where
  proceed : Bool
  metadata : Option UploadMetadata
  rejectStatus : Option Nat
  rejectMessage : Option String
  responseHeaders : Option (List (String × String))

/-- `From<PreHookResponse> for PreHookResult`. -/
def PreHookResponse.toResult (response : PreHookResponse) : PreHookResult :=
  let result := if response.proceed then PreHookResult.proceeds
    else PreHookResult.reject (response.rejectStatus.getD 403) (response.rejectMessage.getD "")
  let result := match response.metadata with
    | some metadata => result.withMetadata metadata
    | none => result
  (response.responseHeaders.getD []).foldl (fun result h => result.withHeader h.1 h.2) result

/-- The codecs of other crates: `serde_json::to_vec`, `serde_json::from_slice`,
`String::from_utf8_lossy` and the text of a status. -/
structure Codec where
  payload : HookContext → Except String Bytes
  parse : Bytes → Except String PreHookResponse
  lossy : Bytes → String
  statusText : Nat → String

/-! ## Operations -/

/-- A jitter is `backoff.mul_f64(fastrand::f64() * 0.5)`. -/
inductive WebhookOp where
  | newDeliveryId
  | currentTimestamp
  | now
  | send (delivery : Delivery)
  | jitter (backoff : Nat)
  | sleep (delay : Nat)

def WebhookSig : Sig where
  Op := WebhookOp
  Ans
    | .newDeliveryId => String
    | .currentTimestamp => Nat
    | .now => Nat
    | .send _ => Except String WebhookResponse
    | .jitter _ => Nat
    | .sleep _ => Unit

/-! ## Retries -/

/-- `is_retryable_status`. -/
def isRetryableStatus (status : Nat) : Bool :=
  status == 429 || (decide (500 ≤ status) && decide (status < 600))

/-- `HeaderValue::to_str`. -/
def toStr (value : Chars) : Option Chars :=
  if value.all fun c => c = '\t' || (32 ≤ c.toNat && c.toNat < 127) then some value else none

/-- `retry_after`, in nanoseconds. -/
def retryAfter (response : WebhookResponse) : Option Nat :=
  if response.status ≠ 429 ∧ response.status ≠ 503 then none
  else do
    let value ← response.retryAfter
    let text ← toStr value
    let seconds ← parseU64Chars (Text.trim text)
    pure (seconds * 1000000000)

/-- The capped exponential backoff, in nanoseconds. -/
def backoff (attempt : Nat) : Nat :=
  min (100 <<< min attempt 8) maxRetryDelayMillis * 1000000

/-- `retry_delay`. -/
def retryDelay (config : HttpHookConfig) (attempt : Nat) (retryAfter : Option Nat) :
    Prog WebhookSig Nat :=
  match retryAfter with
  | some retryAfter => .done (min retryAfter config.retryDeadline)
  | none => .step (.jitter (backoff attempt)) fun (jitter : Nat) => .done (backoff attempt + jitter)

/-- `Instant::checked_add`, on a clock that ends at `latest`. -/
def checkedAdd (latest now delay : Nat) : Option Nat :=
  if now + delay ≤ latest then some (now + delay) else none

/-- `exceeds_deadline`. -/
def exceedsDeadline (latest delay : Nat) (deadline : Option Nat) : Prog WebhookSig Bool :=
  match deadline with
  | none => .done false
  | some deadline => .step .now fun (now : Nat) =>
    .done ((checkedAdd latest now delay).all fun nextAttempt => decide (deadline < nextAttempt))

/-- `max_attempts`. -/
def maxAttempts (config : HttpHookConfig) (retryEnabled : Bool) : Nat :=
  if retryEnabled then satAdd32 config.maxRetries 1 else 1

theorem maxAttempts_le (config : HttpHookConfig) (retryEnabled : Bool) :
    maxAttempts config retryEnabled ≤ u32Max := by
  unfold maxAttempts
  split
  · exact Nat.min_le_right _ _
  · decide

/-- An attempt that is not the last is counted. -/
theorem satAdd32_lt {config : HttpHookConfig} {retryEnabled : Bool} {attempt : Nat}
    (h : ¬maxAttempts config retryEnabled ≤ satAdd32 attempt 1) :
    satAdd32 attempt 1 = attempt + 1 ∧ attempt + 1 < maxAttempts config retryEnabled := by
  have hmax := maxAttempts_le config retryEnabled
  unfold satAdd32 at h ⊢
  omega

/-- The loop of `send_webhook_with_retry`. -/
def sendLoop (config : HttpHookConfig) (latest : Nat) (retryEnabled : Bool) (delivery : Delivery)
    (deadline : Option Nat) (attempt : Nat) : Prog WebhookSig (Except Error WebhookResponse) :=
  .step (.send delivery) fun (r : Except String WebhookResponse) =>
    match r with
    | .ok response =>
      if _hlast : maxAttempts config retryEnabled ≤ satAdd32 attempt 1 then .done (.ok response)
      else if !isRetryableStatus response.status then .done (.ok response)
      else
        (retryDelay config attempt (retryAfter response)).bind fun delay =>
        (exceedsDeadline latest delay deadline).bind fun exceeded =>
        if exceeded then .done (.ok response)
        else .step (.sleep delay) fun _ =>
          sendLoop config latest retryEnabled delivery deadline (satAdd32 attempt 1)
    | .error error =>
      if _hlast : maxAttempts config retryEnabled ≤ satAdd32 attempt 1 then
        .done (.error (.hook error))
      else
        (retryDelay config attempt none).bind fun delay =>
        (exceedsDeadline latest delay deadline).bind fun exceeded =>
        if exceeded then .done (.error (.hook error))
        else .step (.sleep delay) fun _ =>
          sendLoop config latest retryEnabled delivery deadline (satAdd32 attempt 1)
termination_by maxAttempts config retryEnabled - attempt
decreasing_by all_goals have := satAdd32_lt _hlast; omega

/-- `send_webhook_with_retry`. -/
def sendWebhookWithRetry (config : HttpHookConfig) (codec : Codec) (latest : Nat)
    (ctx : HookContext) (retryEnabled : Bool) : Prog WebhookSig (Except Error WebhookResponse) :=
  match codec.payload ctx with
  | .error e => .done (.error (.hook e))
  | .ok payload =>
    .step .newDeliveryId fun (deliveryId : String) =>
    .step .currentTimestamp fun (timestamp : Nat) =>
    .step .now fun (now : Nat) =>
    sendLoop config latest retryEnabled ⟨eventName ctx.event, deliveryId, timestamp, payload⟩
      (checkedAdd latest now config.retryDeadline) 0

/-! ## The decision -/

/-- `StatusCode::is_success`. -/
def isSuccess (status : Nat) : Bool := decide (200 ≤ status) && decide (status < 300)

/-- `read_body_capped`, from what was read. -/
def readBodyCapped (cap : Nat) (ended : Except String Unit) :
    Bytes → List Bytes → Except String (Bytes × Bool)
  | body, [] => ended.map fun _ => (body, false)
  | body, chunk :: chunks =>
    if cap < body.length + chunk.length then .ok (body ++ chunk.take (cap - body.length), true)
    else readBodyCapped cap ended (body ++ chunk) chunks

/-- `read_error_body`. -/
def readErrorBody (codec : Codec) (response : WebhookResponse) : String :=
  match readBodyCapped maxErrorBodyBytes response.ended [] response.chunks with
  | .ok (bytes, truncated) =>
    codec.lossy bytes ++ (if truncated then " [truncated]" else "")
  | .error _ => "Webhook error"

/-- What `deliver_pre_hook` makes of the last response. -/
def readDecision (codec : Codec) (response : WebhookResponse) : Except Error PreHookResult :=
  if !isSuccess response.status then
    .error (.hook ("unexpected response code from hook endpoint (" ++
      codec.statusText response.status ++ "): " ++ readErrorBody codec response))
  else
    match readBodyCapped maxPreHookBodyBytes response.ended [] response.chunks with
    | .error e => .error (.hook e)
    | .ok (body, truncated) =>
      if truncated then .error (.hook "pre-hook response body exceeded 65536 bytes")
      else match codec.parse body with
        | .error e => .error (.hook e)
        | .ok hookResponse => .ok hookResponse.toResult

/-- `deliver_pre_hook`. -/
def deliverPreHook (config : HttpHookConfig) (codec : Codec) (latest : Nat) (ctx : HookContext) :
    Prog WebhookSig (Except Error PreHookResult) :=
  (sendWebhookWithRetry config codec latest ctx config.retryEnabled).bind fun r =>
    match r with
    | .error e => .done (.error e)
    | .ok response => .done (readDecision codec response)

/-- `execute_pre`. -/
def executePre (config : HttpHookConfig) (codec : Codec) (latest : Nat) (ctx : HookContext) :
    Prog WebhookSig (Except Error PreHookResult) :=
  (deliverPreHook config codec latest ctx).bind fun r =>
    match r with
    | .ok result => .done (.ok result)
    | .error e => if config.failOpen then .done (.ok .proceeds) else .done (.error e)

/-- `execute_post`. -/
def executePost (config : HttpHookConfig) (codec : Codec) (latest : Nat) (ctx : HookContext) :
    Prog WebhookSig Unit :=
  (sendWebhookWithRetry config codec latest ctx (config.retryEnabled && config.retryPostHooks)).bind
    fun _ => .done ()

/-! ## Bodies -/

/-- The whole body, where it was read to its end. -/
def WebhookResponse.fullBody (response : WebhookResponse) : Option Bytes :=
  match response.ended with
  | .ok () => some response.chunks.flatten
  | .error _ => none

theorem readBodyCapped_complete_iff {cap : Nat} {ended : Except String Unit} {body : Bytes}
    {chunks : List Bytes} {read : Bytes} (hbody : body.length ≤ cap) :
    readBodyCapped cap ended body chunks = .ok (read, false) ↔
      ended = .ok () ∧ read = body ++ chunks.flatten ∧ read.length ≤ cap := by
  induction chunks generalizing body with
  | nil =>
    cases ended with
    | error e => simp [readBodyCapped, Except.map]
    | ok u =>
      simp only [readBodyCapped, Except.map, Except.ok.injEq, Prod.mk.injEq, and_true,
        List.flatten_nil, List.append_nil, true_and]
      refine ⟨fun h => ⟨h.symm, h ▸ hbody⟩, fun h => h.1.symm⟩
  | cons chunk chunks ih =>
    rw [readBodyCapped]
    split
    case isTrue hlong =>
      simp only [Except.ok.injEq, Prod.mk.injEq, Bool.true_eq_false, and_false, false_iff]
      intro h
      obtain ⟨-, rfl, hle⟩ := h
      simp only [List.flatten_cons, List.length_append] at hle
      omega
    case isFalse hshort =>
      rw [ih (by rw [List.length_append]; omega), List.flatten_cons, List.append_assoc]

/-- The body of a decision: read to its end and not too long. -/
def WebhookResponse.decisionBody (response : WebhookResponse) : Option Bytes :=
  response.fullBody.filter fun body => body.length ≤ maxPreHookBodyBytes

theorem decisionBody_iff (response : WebhookResponse) (body : Bytes) :
    response.decisionBody = some body ↔
      readBodyCapped maxPreHookBodyBytes response.ended [] response.chunks = .ok (body, false) := by
  rw [readBodyCapped_complete_iff (Nat.zero_le _)]
  unfold WebhookResponse.decisionBody WebhookResponse.fullBody
  cases response.ended with
  | error e => simp
  | ok u =>
    simp only [Option.filter_eq_some_iff, Option.some.injEq, decide_eq_true_eq, true_and,
      List.nil_append]
    exact and_congr_left fun _ => eq_comm

/-- The decision that a response states, if it states one. -/
def decision (codec : Codec) (response : WebhookResponse) : Option PreHookResponse :=
  if isSuccess response.status then
    response.decisionBody.bind fun body => (codec.parse body).toOption
  else none

theorem readDecision_some {codec : Codec} {response : WebhookResponse} {d : PreHookResponse}
    (h : decision codec response = some d) : readDecision codec response = .ok d.toResult := by
  unfold decision at h
  split at h
  · next hstatus =>
    obtain ⟨body, hbody, hparse⟩ := Option.bind_eq_some_iff.1 h
    have hread := (decisionBody_iff response body).1 hbody
    cases hp : codec.parse body with
    | error e => simp [hp, Except.toOption] at hparse
    | ok d' =>
      obtain rfl : d' = d := by simpa [hp, Except.toOption] using hparse
      simp [readDecision, hstatus, hread, hp]
  · cases h

theorem readDecision_none {codec : Codec} {response : WebhookResponse}
    (h : decision codec response = none) : ∃ e, readDecision codec response = .error e := by
  unfold readDecision
  cases hstatus : isSuccess response.status with
  | false => exact ⟨_, rfl⟩
  | true =>
    cases hread : readBodyCapped maxPreHookBodyBytes response.ended [] response.chunks with
    | error e => exact ⟨_, rfl⟩
    | ok p =>
      obtain ⟨body, truncated⟩ := p
      cases truncated with
      | true => exact ⟨_, rfl⟩
      | false =>
        have hbody := (decisionBody_iff response body).2 hread
        cases hparse : codec.parse body with
        | error e => exact ⟨.hook e, by simp [hparse]⟩
        | ok d => simp [decision, hstatus, hbody, hparse, Except.toOption] at h

theorem foldl_withHeader_proceed (result : PreHookResult) (headers : List (String × String)) :
    (headers.foldl (fun result h => result.withHeader h.1 h.2) result).proceed = result.proceed ∧
    (headers.foldl (fun result h => result.withHeader h.1 h.2) result).rejectStatus =
      result.rejectStatus ∧
    (headers.foldl (fun result h => result.withHeader h.1 h.2) result).rejectMessage =
      result.rejectMessage := by
  induction headers generalizing result with
  | nil => exact ⟨rfl, rfl, rfl⟩
  | cons h headers ih => exact ih (result.withHeader h.1 h.2)

theorem toResult_proceed (d : PreHookResponse) : d.toResult.proceed = d.proceed := by
  unfold PreHookResponse.toResult
  rw [(foldl_withHeader_proceed _ _).1]
  cases d.metadata <;> cases h : d.proceed <;> simp <;> rfl

/-- A rejection keeps its status and its message. -/
theorem toResult_rejection {d : PreHookResponse} (h : d.proceed = false) :
    d.toResult.rejectStatus = some (d.rejectStatus.getD 403) ∧
    d.toResult.rejectMessage = some (d.rejectMessage.getD "") := by
  unfold PreHookResponse.toResult
  rw [(foldl_withHeader_proceed _ _).2.1, (foldl_withHeader_proceed _ _).2.2]
  cases d.metadata <;> simp [h, PreHookResult.reject, PreHookResult.withMetadata]

/-! ## The law of the deliveries -/

/-- A delivery that was made: when it began and what came of it. -/
structure Sent where
  delivery : Delivery
  start : Nat
  outcome : Except String WebhookResponse

/-- The outcome may be retried. -/
def Sent.Retryable (s : Sent) : Prop :=
  match s.outcome with
  | .ok response => isRetryableStatus response.status = true
  | .error _ => True

/-- The clock and the deliveries so far, newest first. -/
structure Log where
  time : Nat
  sent : List Sent

/-- A delivery takes as long as it takes and may have any outcome; a sleep is exact; the clock
ends at `latest`. -/
inductive WebhookExec (latest : Nat) : (o : WebhookOp) → Log → WebhookSig.Ans o → Log → Prop
  | newDeliveryId {w : Log} {id : String} : WebhookExec latest .newDeliveryId w id w
  | currentTimestamp {w : Log} {n : Nat} : WebhookExec latest .currentTimestamp w n w
  | now {w : Log} : WebhookExec latest .now w w.time w
  | send {w : Log} {delivery : Delivery} {time : Nat} {r : Except String WebhookResponse} :
      w.time ≤ time → time ≤ latest →
      WebhookExec latest (.send delivery) w r ⟨time, ⟨delivery, w.time, r⟩ :: w.sent⟩
  | jitter {w : Log} {backoff n : Nat} : 2 * n ≤ backoff →
      WebhookExec latest (.jitter backoff) w n w
  | sleep {w : Log} {delay : Nat} : w.time + delay ≤ latest →
      WebhookExec latest (.sleep delay) w () ⟨w.time + delay, w.sent⟩

def webhookMachine (latest : Nat) : Machine WebhookSig Log where
  exec _ := WebhookExec latest
  env _ _ := False
  halt _ _ _ := False

/-- The law of the deliveries of one event: no more than the attempts, all alike, and each after
the first follows a retryable outcome and begins by the deadline. -/
structure Lawful (attempts deadline : Nat) (sent : List Sent) : Prop where
  count : sent.length ≤ attempts
  alike : ∀ s ∈ sent, ∀ s' ∈ sent, s.delivery = s'.delivery
  follows : sent.IsChain fun later earlier => earlier.Retryable ∧ later.start ≤ deadline

/-- Before another attempt. -/
structure Ready (deadline attempt : Nat) (delivery : Delivery) (w : Log) : Prop where
  count : w.sent.length = attempt
  alike : ∀ s ∈ w.sent, s.delivery = delivery
  due : ∀ s ∈ w.sent.head?, s.Retryable ∧ w.time ≤ deadline

theorem Lawful.send {attempts deadline attempt : Nat} {delivery : Delivery} {w : Log}
    {r : Except String WebhookResponse} (h : Lawful attempts deadline w.sent)
    (hready : Ready deadline attempt delivery w) (hlt : attempt < attempts) :
    Lawful attempts deadline (⟨delivery, w.time, r⟩ :: w.sent) where
  count := by
    rw [List.length_cons, hready.count]
    exact hlt
  alike := by
    have hall : ∀ s ∈ (⟨delivery, w.time, r⟩ :: w.sent : List Sent), s.delivery = delivery :=
      List.forall_mem_cons.2 ⟨rfl, hready.alike⟩
    exact fun s hs s' hs' => (hall s hs).trans (hall s' hs').symm
  follows := List.isChain_cons.2 ⟨hready.due, h.follows⟩

/-- After an attempt. -/
structure Answered (attempt : Nat) (delivery : Delivery) (r : Except String WebhookResponse)
    (w : Log) : Prop where
  count : w.sent.length = attempt + 1
  alike : ∀ s ∈ w.sent, s.delivery = delivery
  last : ∃ s, w.sent.head? = some s ∧ s.outcome = r

/-- The result of a delivery. -/
def Sent.result (s : Sent) : Except Error WebhookResponse :=
  match s.outcome with
  | .ok response => .ok response
  | .error e => .error (.hook e)

/-- The last delivery decides the result. -/
def Ended (r : Except Error WebhookResponse) (w : Log) : Prop :=
  ∃ s, w.sent.head? = some s ∧ r = s.result

section Deliveries

variable {config : HttpHookConfig} {latest start attempt : Nat} {retryEnabled : Bool}
  {delivery : Delivery}

/-- The deliveries are lawful so far. -/
abbrev Kept (config : HttpHookConfig) (retryEnabled : Bool) (start : Nat) (w : Log) : Prop :=
  Lawful (maxAttempts config retryEnabled) (start + config.retryDeadline) w.sent

/-- Computing the delay takes no time. -/
theorem retryDelay_spec {P : Log → Prop} (attempt : Nat) (hint : Option Nat) :
    Triple (webhookMachine latest) (Kept config retryEnabled start) Alone 0 P
      (retryDelay config attempt hint) fun _ => P := by
  unfold retryDelay
  split
  · exact Triple.done fun _ h => h
  · refine Triple.alone_keep (fun _ => P) (fun w a w' hi hp he => ?_) fun _ => Triple.done fun _ h => h
    cases he
    exact ⟨hi, hp⟩

/-- Where the deadline is not exceeded, the next attempt begins by it. -/
theorem exceedsDeadline_spec {P : Log → Prop} (delay : Nat) :
    Triple (webhookMachine latest) (Kept config retryEnabled start) Alone 0 P
      (exceedsDeadline latest delay (checkedAdd latest start config.retryDeadline))
      fun exceeded w => P w ∧ (exceeded = false → w.time + delay ≤ latest →
        w.time + delay ≤ start + config.retryDeadline) := by
  unfold exceedsDeadline
  split
  case h_1 hnone =>
    refine Triple.done fun w hp => ⟨hp, fun _ hle => ?_⟩
    unfold checkedAdd at hnone
    split at hnone
    · cases hnone
    · omega
  case h_2 deadline hsome =>
    obtain rfl : start + config.retryDeadline = deadline := by
      unfold checkedAdd at hsome
      split at hsome
      · exact Option.some.inj hsome
      · cases hsome
    refine Triple.alone_keep (fun (now : Nat) w => P w ∧ w.time = now) (fun w a w' hi hp he => ?_)
      fun now => Triple.done fun w hw => ⟨hw.1, fun hexceeded hle => ?_⟩
    · cases he
      exact ⟨hi, hp, rfl⟩
    · have hadd : checkedAdd latest now delay = some (w.time + delay) := by
        rw [← hw.2, checkedAdd, if_pos hle]
      simpa [hadd] using hexceeded

/-- The pause between two attempts. -/
theorem pause_spec {r : Except String WebhookResponse} {result : Except Error WebhookResponse}
    {next : Prog WebhookSig (Except Error WebhookResponse)} (hint : Option Nat)
    (hresult : ∀ s : Sent, s.outcome = r → s.Retryable ∧ result = s.result)
    (hnext : Triple (webhookMachine latest) (Kept config retryEnabled start) Alone 0
      (Ready (start + config.retryDeadline) (attempt + 1) delivery) next Ended) :
    Triple (webhookMachine latest) (Kept config retryEnabled start) Alone 0
      (Answered attempt delivery r)
      ((retryDelay config attempt hint).bind fun delay =>
        (exceedsDeadline latest delay (checkedAdd latest start config.retryDeadline)).bind
          fun exceeded => if exceeded then .done result else .step (.sleep delay) fun _ => next)
      Ended := by
  refine Triple.bind _ (retryDelay_spec attempt hint) fun delay =>
    Triple.bind _ (exceedsDeadline_spec delay) fun exceeded => Triple.ite (fun _ => ?_) fun hgo => ?_
  · refine Triple.done fun w hw => ?_
    obtain ⟨s, hs, hr⟩ := hw.1.last
    exact ⟨s, hs, (hresult s hr).2⟩
  · refine Triple.alone_keep (fun _ => Ready (start + config.retryDeadline) (attempt + 1) delivery)
      (fun w a w' hi hw he => ?_) fun _ => hnext
    cases he with
    | sleep hle =>
      refine ⟨hi, hw.1.count, hw.1.alike, fun s hs => ?_⟩
      obtain ⟨s', hs', hr⟩ := hw.1.last
      obtain rfl : s' = s := Option.some.inj (hs'.symm.trans hs)
      exact ⟨(hresult s' hr).1, hw.2 (by simpa using hgo) hle⟩

/-- The loop keeps the law and ends with the result of the last delivery. -/
theorem sendLoop_spec (hlt : attempt < maxAttempts config retryEnabled) :
    Triple (webhookMachine latest) (Kept config retryEnabled start) Alone 0
      (Ready (start + config.retryDeadline) attempt delivery)
      (sendLoop config latest retryEnabled delivery
        (checkedAdd latest start config.retryDeadline) attempt) Ended := by
  induction hn : maxAttempts config retryEnabled - attempt using Nat.strong_induction_on
    generalizing attempt with
  | _ n ih =>
    have hnext : ¬maxAttempts config retryEnabled ≤ satAdd32 attempt 1 →
        Triple (webhookMachine latest) (Kept config retryEnabled start) Alone 0
          (Ready (start + config.retryDeadline) (attempt + 1) delivery)
          (sendLoop config latest retryEnabled delivery
            (checkedAdd latest start config.retryDeadline) (satAdd32 attempt 1)) Ended := by
      intro hlast
      obtain ⟨heq, hlt'⟩ := satAdd32_lt hlast
      rw [heq]
      exact ih _ (by omega) hlt' rfl
    rw [sendLoop]
    refine Triple.alone_keep (Answered attempt delivery) (fun w a w' hi hw he => ?_) fun r => ?_
    · cases he with
      | send _ _ =>
        exact ⟨hi.send hw hlt, ⟨by rw [List.length_cons, hw.count],
          List.forall_mem_cons.2 ⟨rfl, hw.alike⟩, _, rfl, rfl⟩⟩
    · have hdone : ∀ result, (∀ s : Sent, s.outcome = r → result = s.result) →
          Triple (webhookMachine latest) (Kept config retryEnabled start) Alone 0
            (Answered attempt delivery r) (.done result) Ended := by
        intro result hresult
        refine Triple.done fun w hw => ?_
        obtain ⟨s, hs, hr⟩ := hw.last
        exact ⟨s, hs, hresult s hr⟩
      cases r with
      | ok response =>
        dsimp only
        split
        · exact hdone _ fun s hs => by simp [Sent.result, hs]
        · split
          · exact hdone _ fun s hs => by simp [Sent.result, hs]
          · next hlast hretry =>
            refine pause_spec _ (fun s hs => ?_) (hnext hlast)
            simpa [Sent.Retryable, Sent.result, hs] using hretry
      | error e =>
        dsimp only
        split
        · exact hdone _ fun s hs => by simp [Sent.result, hs]
        · next hlast =>
          refine pause_spec _ (fun s hs => ?_) (hnext hlast)
          simp [Sent.Retryable, Sent.result, hs]

end Deliveries

/-- Before the first attempt. -/
def Fresh (start : Nat) (w : Log) : Prop := w.time = start ∧ w.sent = []

/-- What becomes of a delivery: the result of its last attempt, or the payload's error. -/
def Concluded (codec : Codec) (ctx : HookContext) (r : Except Error WebhookResponse) (w : Log) :
    Prop :=
  Ended r w ∨ w.sent = [] ∧ ∃ e, codec.payload ctx = .error e ∧ r = .error (.hook e)

theorem send_spec {config : HttpHookConfig} {codec : Codec} {latest start : Nat}
    {ctx : HookContext} {retryEnabled : Bool} :
    Triple (webhookMachine latest) (Kept config retryEnabled start) Alone 0 (Fresh start)
      (sendWebhookWithRetry config codec latest ctx retryEnabled) (Concluded codec ctx) := by
  have hpos : 0 < maxAttempts config retryEnabled := by
    unfold maxAttempts satAdd32 u32Max
    split <;> omega
  unfold sendWebhookWithRetry
  cases hpayload : codec.payload ctx with
  | error e => exact Triple.done fun w hw => .inr ⟨hw.2, e, hpayload, rfl⟩
  | ok payload =>
    refine Triple.alone_keep (fun _ => Fresh start) (fun w a w' hi hw he => ?_) fun deliveryId => ?_
    · cases he
      exact ⟨hi, hw⟩
    refine Triple.alone_keep (fun _ => Fresh start) (fun w a w' hi hw he => ?_) fun timestamp => ?_
    · cases he
      exact ⟨hi, hw⟩
    refine Triple.alone_keep (fun (now : Nat) w => Fresh start w ∧ now = start)
      (fun w a w' hi hw he => ?_) fun now => ?_
    · cases he
      exact ⟨hi, hw, hw.1⟩
    · refine Triple.weaken (P := fun w => Fresh start w ∧ now = start) ?_ (fun _ h => h)
        fun r w h => .inl h
      intro s hs
      obtain rfl : start = now := hs.2.symm
      have hready : Ready (start + config.retryDeadline) 0
          ⟨eventName ctx.event, deliveryId, timestamp, payload⟩ s.world := by
        constructor <;> simp [hs.1.2]
      exact sendLoop_spec hpos s hready

/-- The decision that the last delivery states, if it states one. -/
def lastDecision (codec : Codec) (sent : List Sent) : Option PreHookResponse :=
  match sent.head?.map Sent.outcome with
  | some (.ok response) => decision codec response
  | _ => none

/-- How the deliveries decide the hook. -/
structure Decided (config : HttpHookConfig) (codec : Codec) (sent : List Sent)
    (result : Except Error PreHookResult) : Prop where
  proceeds_iff : (∃ p, result = .ok p ∧ p.proceed = true) ↔
    (∃ d, lastDecision codec sent = some d ∧ d.proceed = true) ∨
    (config.failOpen = true ∧ lastDecision codec sent = none)
  rejection : ∀ d, lastDecision codec sent = some d → d.proceed = false →
    ∃ p, result = .ok p ∧ p.proceed = false ∧
      p.rejectStatus = some (d.rejectStatus.getD 403) ∧
      p.rejectMessage = some (d.rejectMessage.getD "")

/-- What `deliver_pre_hook` returns: the decision, or an error where there is none. -/
def Delivered (codec : Codec) (r : Except Error PreHookResult) (w : Log) : Prop :=
  match lastDecision codec w.sent with
  | some d => r = .ok d.toResult
  | none => ∃ e, r = .error e

theorem deliverPreHook_spec {config : HttpHookConfig} {codec : Codec} {latest start : Nat}
    {ctx : HookContext} :
    Triple (webhookMachine latest) (Kept config config.retryEnabled start) Alone 0 (Fresh start)
      (deliverPreHook config codec latest ctx) (Delivered codec) := by
  refine Triple.bind _ send_spec fun r => ?_
  cases r with
  | error e =>
    refine Triple.done fun w hw => ?_
    have hnone : lastDecision codec w.sent = none := by
      unfold lastDecision
      obtain ⟨s, hs, hr⟩ | ⟨hnil, -⟩ := hw
      · cases houtcome : s.outcome with
        | ok response => simp [Sent.result, houtcome] at hr
        | error e => simp [hs, houtcome]
      · simp [hnil]
    simp [Delivered, hnone]
  | ok response =>
    refine Triple.done fun w hw => ?_
    obtain ⟨s, hs, hr⟩ | ⟨-, e, -, he⟩ := hw
    · have houtcome : s.outcome = .ok response := by
        cases houtcome : s.outcome with
        | ok response' =>
          rw [Sent.result, houtcome] at hr
          exact congrArg Except.ok (Except.ok.inj hr).symm
        | error e => simp [Sent.result, houtcome] at hr
      have hlast : lastDecision codec w.sent = decision codec response := by
        simp [lastDecision, hs, houtcome]
      unfold Delivered
      rw [hlast]
      cases hd : decision codec response with
      | some d => exact readDecision_some hd
      | none => exact readDecision_none hd
    · cases he

theorem executePre_spec {config : HttpHookConfig} {codec : Codec} {latest start : Nat}
    {ctx : HookContext} :
    Triple (webhookMachine latest) (Kept config config.retryEnabled start) Alone 0 (Fresh start)
      (executePre config codec latest ctx)
      fun result w => Decided config codec w.sent result := by
  refine Triple.bind _ deliverPreHook_spec fun r => ?_
  cases r with
  | ok p =>
    refine Triple.done fun w hw => ?_
    cases hlast : lastDecision codec w.sent with
    | none => simp [Delivered, hlast] at hw
    | some d =>
      obtain rfl : p = d.toResult := by simpa [Delivered, hlast] using hw
      constructor
      · simp [hlast, toResult_proceed]
      · intro d' hd' hreject
        obtain rfl : d = d' := Option.some.inj (hlast.symm.trans hd')
        exact ⟨_, rfl, (toResult_proceed d).trans hreject, toResult_rejection hreject⟩
  | error e =>
    have hnone : ∀ w, Delivered codec (.error e) w → lastDecision codec w.sent = none := by
      intro w hw
      cases hlast : lastDecision codec w.sent with
      | none => rfl
      | some d => simp [Delivered, hlast] at hw
    refine Triple.ite (fun hopen => Triple.done fun w hw => ?_)
      fun hclosed => Triple.done fun w hw => ?_
    · constructor
      · simp [hnone w hw, hopen, PreHookResult.proceeds]
      · simp [hnone w hw]
    · constructor
      · simp [hnone w hw, hclosed]
      · simp [hnone w hw]

/-- Every run of a pre-hook, also one that is broken off, makes at most `max_retries + 1`
deliveries, or one without retries, all alike, each after the first following a retryable outcome
and beginning by the deadline; and its result is the decision of the last. -/
theorem executePre_law (config : HttpHookConfig) (codec : Codec) (latest start : Nat)
    (ctx : HookContext) {r : Option (Except Error PreHookResult)} {s : Snap WebhookSig Log}
    (h : Exec (webhookMachine latest) 0 (executePre config codec latest ctx)
      ⟨⟨start, []⟩, []⟩ r s) :
    Lawful (if config.retryEnabled then config.maxRetries + 1 else 1)
      (start + config.retryDeadline) s.world.sent ∧
    ∀ result, r = some result → Decided config codec s.world.sent result := by
  have hinit : Kept config config.retryEnabled start ⟨start, []⟩ :=
    ⟨Nat.zero_le _, by simp, .nil⟩
  obtain ⟨hlaw, hresult⟩ := executePre_spec.exec hinit ⟨rfl, rfl⟩ h
  refine ⟨⟨hlaw.count.trans ?_, hlaw.alike, hlaw.follows⟩, hresult⟩
  unfold maxAttempts
  split
  · exact Nat.min_le_left _ _
  · exact Nat.le_refl _

/-- The deliveries of a post-hook: one, unless retries are enabled for these too. -/
theorem executePost_law (config : HttpHookConfig) (codec : Codec) (latest start : Nat)
    (ctx : HookContext) {r : Option Unit} {s : Snap WebhookSig Log}
    (h : Exec (webhookMachine latest) 0 (executePost config codec latest ctx)
      ⟨⟨start, []⟩, []⟩ r s) :
    Lawful (maxAttempts config (config.retryEnabled && config.retryPostHooks))
      (start + config.retryDeadline) s.world.sent := by
  have hspec : Triple (webhookMachine latest)
      (Kept config (config.retryEnabled && config.retryPostHooks) start) Alone 0 (Fresh start)
      (executePost config codec latest ctx) fun _ _ => True :=
    Triple.bind _ send_spec fun _ => Triple.done fun _ _ => trivial
  exact (hspec.exec ⟨Nat.zero_le _, by simp, .nil⟩ ⟨rfl, rfl⟩ h).1

/-- One retry within a second, failing open. -/
def oneRetry : HttpHookConfig where
  retryEnabled := true
  maxRetries := 1
  retryDeadline := 1000000000
  retryPostHooks := false
  failOpen := true

/-- A codec for which every body is a rejection. -/
def rejecting : Codec where
  payload _ := .ok []
  parse _ := .ok ⟨false, none, some 409, none, none⟩
  lossy _ := ""
  statusText _ := ""

/-- A response with two chunks. -/
def answer : WebhookResponse := ⟨200, none, [[1], [2]], .ok ()⟩

/-- The delivery of the sample. -/
def sampleDelivery : Delivery := ⟨"pre-create", "d", 0, []⟩

/-- The log of the sample: a lost delivery and, a tenth of a second later, an answered one. -/
def sampleLog : Log := ⟨100000000, [⟨sampleDelivery, 100000000, .ok answer⟩,
  ⟨sampleDelivery, 0, .error "lost"⟩]⟩

theorem runs_now {α : Type} {latest : Nat} {w w' : Log} {r : α} {k : Nat → Prog WebhookSig α}
    (hk : Runs (webhookMachine latest) 0 (k w.time) w r w') :
    Runs (webhookMachine latest) 0 (.step .now k) w r w' := fun h => by
  obtain ⟨h', hrest⟩ := hk (⟨0, .now, w.time, w⟩ :: h)
  exact ⟨h', .step WebhookExec.now hrest⟩

/-- The first delivery of the sample is lost, the second answered. -/
theorem sendLoop_sample : Runs (webhookMachine (10 ^ 12)) 0
    (sendLoop oneRetry (10 ^ 12) true sampleDelivery
      (checkedAdd (10 ^ 12) 0 oneRetry.retryDeadline) 0) ⟨0, []⟩ (.ok answer) sampleLog := by
  have hsecond : Runs (webhookMachine (10 ^ 12)) 0
      (sendLoop oneRetry (10 ^ 12) true sampleDelivery
        (checkedAdd (10 ^ 12) 0 oneRetry.retryDeadline) 1)
      ⟨100000000, [⟨sampleDelivery, 0, .error "lost"⟩]⟩ (.ok answer) sampleLog := by
    rw [sendLoop]
    refine .step (Except.ok answer) (.send (Nat.le_refl _) (by decide)) ?_
    dsimp only
    rw [dif_pos (by decide)]
    exact .done _ _
  have hgo : ∀ w : Log, w.time = 0 → Runs (webhookMachine (10 ^ 12)) 0
      (exceedsDeadline (10 ^ 12) 100000000 (checkedAdd (10 ^ 12) 0 oneRetry.retryDeadline))
      w false w := by
    intro w hw
    have hdeadline : checkedAdd (10 ^ 12) 0 oneRetry.retryDeadline = some 1000000000 := rfl
    rw [hdeadline]
    refine runs_now ?_
    rw [hw]
    exact .done _ _
  have hdelay : ∀ w : Log, Runs (webhookMachine (10 ^ 12)) 0 (retryDelay oneRetry 0 none) w
      (100000000 : Nat) w := by
    intro w
    have hbackoff : backoff 0 = 100000000 := by decide
    unfold retryDelay
    rw [hbackoff]
    exact .step (0 : Nat) (.jitter (Nat.zero_le _)) (.done _ _)
  have hsleep : ∀ sent, (webhookMachine (10 ^ 12)).exec 0 (.sleep 100000000) ⟨0, sent⟩ ()
      ⟨0 + 100000000, sent⟩ := by
    intro sent
    have hle : 0 + 100000000 ≤ 10 ^ 12 := by decide
    exact .sleep (w := ⟨0, sent⟩) hle
  rw [sendLoop]
  refine .step (Except.error "lost") (.send (Nat.le_refl _) (by decide)) ?_
  dsimp only
  rw [dif_neg (by decide)]
  exact .bind (hdelay _) (.bind (hgo _ rfl) (.step () (hsleep _) hsecond))

/-- The run of the sample ends with the answer of the second delivery. -/
theorem executePre_sample : Runs (webhookMachine (10 ^ 12)) 0
    (executePre oneRetry rejecting (10 ^ 12) (HookChain.newUpload .create)) ⟨0, []⟩
    (readDecision rejecting answer) sampleLog := by
  have hsend : Runs (webhookMachine (10 ^ 12)) 0
      (sendWebhookWithRetry oneRetry rejecting (10 ^ 12) (HookChain.newUpload .create) true)
      ⟨0, []⟩ (.ok answer) sampleLog := by
    refine .step ("d" : String) .newDeliveryId ?_
    refine .step (0 : Nat) .currentTimestamp ?_
    exact runs_now sendLoop_sample
  exact .bind (.bind hsend (.done _ _)) (.done _ _)

theorem executePre_law_sample : ∃ h, Lawful 2 1000000000 sampleLog.sent ∧
    Decided oneRetry rejecting sampleLog.sent (readDecision rejecting answer) ∧
    Exec (webhookMachine (10 ^ 12)) 0
      (executePre oneRetry rejecting (10 ^ 12) (HookChain.newUpload .create)) ⟨⟨0, []⟩, []⟩
      (some (readDecision rejecting answer)) ⟨sampleLog, h⟩ := by
  obtain ⟨h, hrun⟩ := executePre_sample []
  have hlaw := executePre_law oneRetry rejecting (10 ^ 12) 0 (HookChain.newUpload .create) hrun
  exact ⟨h, by simpa [oneRetry] using hlaw.1, hlaw.2 _ rfl, hrun⟩

end Webhook

end Protocol

end TusRs
