import TusRs.Interaction.Component
import TusRs.Uploader.Client

/-!
# The operations of the client's parts

Which requests, reads and waits each part of the resuming client performs, stated for an
arbitrary property of operations, and what a HEAD or a PATCH makes of its answer.

* `patchLoop_ops`: the chunk loop reads, sends and reports within the source.
* `resumeLoop_ops`: the resume loop asks for one upload and sends to it alone.
* `uploadInfoAt_eq`, `sendUploadChunkAt_eq`: one request, and a function of its answer.
-/

namespace TusRs

open Interaction

namespace Uploader

/-- The retry hook and the delay before another attempt. -/
def NetOp.Waits : NetOp → Prop
  | .beforeRetry _ _ => True
  | .random _ => True
  | .sleep _ => True
  | _ => False

/-- What `upload_info_at` makes of the answer to its HEAD. -/
def readInfo {Meta : Type} (client : Client Meta) (url : String) :
    Except Error Response → Except Error (UploadInfo Meta)
  | .error e => .error e
  | .ok r =>
    if r.status ≠ 200 ∧ r.status ≠ 204 then .error (unexpectedResponse "upload info" r)
    else do
      let offset ← headerU64 r.uploadOffset "Upload-Offset"
      let length ← optionalHeaderU64 r.uploadLength "Upload-Length"
      let metadata ← client.decodeMetadata r.uploadMetadata
      pure ⟨url, offset, length, metadata⟩

/-- What `send_upload_chunk_at` makes of the answer to its PATCH. -/
def readAck (operation : String) : Except Error Response → Except Error Nat
  | .error e => .error e
  | .ok r =>
    if r.status ≠ 204 then .error (unexpectedResponse operation r)
    else headerU64 r.uploadOffset "Upload-Offset"

section Operations

variable {Meta : Type} {client : Client Meta} {url : String} {A : NetOp → Prop}

theorem uploadInfoAt_eq :
    uploadInfoAt client url = .step (.head url) fun r => .done (readInfo client url r) := by
  refine congrArg (Prog.step _) (funext fun r => ?_)
  cases r with
  | error e => rfl
  | ok r => exact (apply_ite Prog.done _ _ _).symm

theorem sendUploadChunkAt_eq (chunk : Bytes) (offset : Nat) (operation : String) :
    sendUploadChunkAt url chunk offset operation =
      .step (.patch url offset chunk) fun r => .done (readAck operation r) := by
  refine congrArg (Prog.step _) (funext fun r => ?_)
  cases r with
  | error e => rfl
  | ok r => exact (apply_ite Prog.done _ _ _).symm

theorem uploadInfoAt_ops (h : A (.head url)) : (uploadInfoAt client url).Ops A := by
  rw [uploadInfoAt_eq]
  exact ⟨h, fun _ => trivial⟩

theorem sendUploadChunkAt_ops {chunk : Bytes} {offset : Nat} {operation : String}
    (h : A (.patch url offset chunk)) : (sendUploadChunkAt url chunk offset operation).Ops A := by
  rw [sendUploadChunkAt_eq]
  exact ⟨h, fun _ => trivial⟩

theorem patchLoop_ops {totalLength : Nat}
    (hread : ∀ offset n, offset + n ≤ totalLength → A (.readChunk offset n))
    (hpatch : ∀ offset body, offset < totalLength → offset + body.length ≤ totalLength →
      A (.patch url offset body))
    (hprogress : ∀ n, n ≤ totalLength → A (.onProgress n totalLength))
    (fuel sent remaining : Nat) (hrem : remaining = totalLength - sent) :
    (patchLoop client url totalLength fuel sent remaining).Ops A := by
  induction fuel generalizing sent remaining with
  | zero => trivial
  | succ n ih =>
    refine .cases (fun hpos => ?_) fun _ => trivial
    refine ⟨hread _ _ (by omega), fun chunk => ?_⟩
    cases chunk with
    | error e => trivial
    | ok chunk =>
      refine .ite trivial (.cases (fun _ => trivial) fun hlen => ?_)
      refine (sendUploadChunkAt_ops (hpatch _ _ (by omega) (by omega))).bind fun r => ?_
      cases r with
      | error e => trivial
      | ok newOffset =>
        dsimp only
        split
        · trivial
        · next hv =>
          obtain ⟨-, hle⟩ := validatePatchAdvance_ok hv
          exact ⟨hprogress _ hle, fun _ => ih _ _ rfl⟩

theorem beforeNextAttempt_ops (hwait : ∀ o, NetOp.Waits o → A o) (attempt : Nat) (error : Error) :
    Prog.Ops A (beforeNextAttempt client attempt error) := by
  have hook : Prog.Ops A (consultRetryHook client (attempt + 1) error) :=
    .ite ⟨hwait _ trivial, fun retry => by cases retry <;> trivial⟩ trivial
  have delay : Prog.Ops A (nextRetryDelay error.retryAfter client.retryDelay attempt) := by
    unfold nextRetryDelay
    split
    · trivial
    · exact .ite trivial ⟨hwait _ trivial, fun _ => trivial⟩
  refine hook.bind fun r => ?_
  cases r with
  | error e => trivial
  | ok _ =>
    refine delay.bind fun r => ?_
    cases r with
    | error e => trivial
    | ok delay => exact ⟨hwait _ trivial, fun _ => trivial⟩

theorem lastCheck_ops (h : A (.head url)) (sourceLength : Nat) (error : Error) :
    (lastCheck client url sourceLength error).Ops A := by
  refine (uploadInfoAt_ops h).bind fun r => ?_
  cases r with
  | error e => trivial
  | ok remote =>
    dsimp only
    split
    · trivial
    · exact .ite trivial trivial

/-- What follows a failed attempt: the wait before the next one, then `rest`. -/
def nextAttempt (client : Client Meta) (attempt : Nat) (error : Error)
    (rest : Net (UploadInfo Meta)) : Net (UploadInfo Meta) :=
  Prog.bind (beforeNextAttempt client attempt error) fun
    | .error e => .done (.error e)
    | .ok _ => rest

theorem nextAttempt_ops {rest : Net (UploadInfo Meta)} (hwait : ∀ o, NetOp.Waits o → A o)
    (hrest : rest.Ops A) (attempt : Nat) (error : Error) :
    (nextAttempt client attempt error rest).Ops A := by
  refine (beforeNextAttempt_ops hwait _ _).bind fun r => ?_
  cases r with
  | error e => trivial
  | ok _ => exact hrest

/-- The resume loop acts on its own upload alone. -/
theorem resumeLoop_ops {sourceLength : Nat} (hend : A .unfinished) (hhead : A (.head url))
    (hread : ∀ offset n, A (.readChunk offset n)) (hpatch : ∀ offset body, A (.patch url offset body))
    (hprogress : ∀ n, n ≤ sourceLength → A (.onProgress n sourceLength))
    (hwait : ∀ o, NetOp.Waits o → A o)
    (rounds attempt : Nat) (observed : Option Nat) (created : Option (UploadInfo Meta)) :
    (resumeLoop client url sourceLength rounds attempt observed created).Ops A := by
  induction rounds generalizing attempt observed created with
  | zero => exact ⟨hend, fun a => a.elim⟩
  | succ n ih =>
    unfold resumeLoop
    refine .bind ?_ fun r => ?_
    · cases created with
      | some info => trivial
      | none => exact uploadInfoAt_ops hhead
    cases r with
    | error error => exact .ite trivial (nextAttempt_ops hwait (ih _ _ _) _ _)
    | ok remote =>
      dsimp only
      split
      · trivial
      refine .ite trivial (.bind ?_ fun r => ?_)
      · exact patchLoop_ops (fun _ _ _ => hread _ _) (fun _ _ _ _ => hpatch _ _)
          hprogress _ _ _ rfl
      cases r with
      | ok _ => trivial
      | error error =>
        exact .ite trivial
          (.ite (lastCheck_ops hhead _ _) (nextAttempt_ops hwait (ih _ _ _) _ _))

theorem readLoop_ops (hread : ∀ offset n, A (.readChunk offset n))
    (sourceLen offset capacity fuel : Nat) (body : Bytes) :
    Prog.Ops A (readLoop sourceLen offset capacity fuel body) := by
  induction fuel generalizing body with
  | zero => trivial
  | succ n ih =>
    refine .ite ⟨hread _ _, fun chunk => ?_⟩ trivial
    cases chunk with
    | error e => trivial
    | ok chunk => exact .ite trivial (.ite trivial (ih _))

end Operations

end Uploader

end TusRs
