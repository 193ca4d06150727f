import TusRs.Interaction.Lone
import TusRs.Uploader.Operations

/-!
# The retry budget

The comment of `resume_at_with_progress_from` states the law: the budget covers consecutive
attempts without progress, and whenever the server's offset advances the counter starts
anew. A ledger beside the run keeps the law's own account: how far the server is known to be,
and how many attempts in a row did not move that. The code looks at what a HEAD reports only,
so progress a PATCH acknowledged counts for nothing until the next HEAD confirms it.

Results:

1. `retry_budget`: while every attempt that moved the offset is confirmed by the next HEAD, a
   retryable error is returned only after `maxRetries + 1` attempts in a row without progress.
2. `acknowledged_progress_lost`: without that, an error is returned right after an attempt
   that moved the offset.
-/

namespace TusRs

open Interaction

namespace Uploader

/-- What a run has shown so far: the furthest offset known, the furthest one a HEAD reported,
the attempts in a row, the current one included, that did not move the former, whether an
acknowledgement of the current attempt moved it, and whether the client waited since its last
request. -/
structure Ledger where
  known : Option Nat
  reported : Option Nat
  streak : Nat
  moved : Bool
  waited : Bool
deriving DecidableEq, Repr

namespace Ledger

/-- Before the first request of a resume; a creation stands for a first HEAD. -/
def start {Meta : Type} (created : Option (UploadInfo Meta)) : Ledger :=
  match created with
  | none => ⟨none, none, 0, false, true⟩
  | some info => ⟨some info.offset, some info.offset, 1, false, false⟩

/-- A HEAD that reports nothing. After a wait it begins an attempt. -/
def unanswered (w : Ledger) : Ledger :=
  { w with streak := w.streak + w.waited.toNat, moved := w.moved && !w.waited, waited := false }

/-- A HEAD reports `offset`: beyond what was known, the attempts before it had moved it. -/
def report (w : Ledger) (offset : Nat) : Ledger where
  known := some (max (w.known.getD 0) offset)
  reported := some (max (w.reported.getD 0) offset)
  streak := (if w.known.any (· < offset) then 0 else w.streak) + w.waited.toNat
  moved := w.moved && !w.waited
  waited := false

/-- A PATCH acknowledges `offset`. -/
def acknowledge (w : Ledger) (offset : Nat) : Ledger :=
  if w.known.any (· < offset) then
    { w with known := some offset, streak := 0, moved := true }
  else w

def next {Meta : Type} (client : Client Meta) (w : Ledger) :
    (o : NetOp) → NetSig.Ans o → Ledger
  | .head url, r => match readInfo client url r with
    | .ok info => w.report info.offset
    | .error _ => w.unanswered
  | .patch _ _ _, r => match readAck "patch upload" r with
    | .ok offset => w.acknowledge offset
    | .error _ => w
  | .sleep _, _ => { w with waited := true }
  | _, _ => w

end Ledger

/-- The retry hook never vetoes. -/
def Unvetoed : (o : NetOp) → NetSig.Ans o → Prop
  | .beforeRetry _ _, retry => retry = true
  | _, _ => True

/-- The server and the network may answer anything; the ledger follows the answers. -/
def ledgerMachine {Meta : Type} (client : Client Meta) : Machine NetSig Ledger where
  exec _ o w a w' := Unvetoed o a ∧ w' = w.next client o a
  env _ _ := False
  halt _ _ _ := False

/-- Progress is confirmed: after an attempt that moved the offset the next HEAD is asked
after a wait, succeeds and reports more than every HEAD before it, and a HEAD asked without a
wait reports nothing that was not known. -/
def Confirms {Meta : Type} (client : Client Meta) (w : Ledger) :
    (o : NetOp) → NetSig.Ans o → Prop
  | .head url, r =>
    (w.moved → w.waited ∧ ∃ info, readInfo client url r = .ok info ∧
      ∀ previous ∈ w.reported, previous < info.offset) ∧
    (w.waited = false → ∀ info, readInfo client url r = .ok info →
      ∀ known ∈ w.known, info.offset ≤ known)
  | _, _ => True

/-- The operations of the chunk loop. -/
def NetOp.Sends : NetOp → Prop
  | .patch _ _ _ => True
  | .readChunk _ _ => True
  | .onProgress _ _ => True
  | _ => False

/-- The condition on one performed operation. -/
def Confirmed {Meta : Type} (client : Client Meta) (e : Event NetSig Ledger) : Prop :=
  Confirms client e.before e.op e.ans

/-! ## The account the loop keeps -/

/-- What the loop's counter and its observed offset say of the ledger, before a round and, in
it, before the client waits for the next one. -/
structure Account (waited : Bool) (attempt : Nat) (observed : Option Nat) (w : Ledger) : Prop where
  waits : w.waited = waited
  reports : w.reported = observed
  behind : ∀ offset ∈ observed, ∃ known ∈ w.known, offset ≤ known
  fresh : observed = none → w.known = none ∧ w.moved = false
  counted : w.moved = false → attempt + (!waited).toNat ≤ w.streak

namespace Account

variable {attempt : Nat} {observed : Option Nat} {w : Ledger}

theorem wait (h : Account false attempt observed w) :
    Account true (attempt + 1) observed { w with waited := true } where
  waits := rfl
  reports := h.reports
  behind := h.behind
  fresh := h.fresh
  counted := h.counted

/-- A HEAD that failed is an attempt without progress. -/
theorem unanswered (h : Account true attempt observed w) (hm : w.moved = false) :
    Account false attempt observed w.unanswered where
  waits := rfl
  reports := h.reports
  behind := h.behind
  fresh ho := ⟨(h.fresh ho).1, by simp [Ledger.unanswered, hm]⟩
  counted _ := by
    have := h.counted hm
    simp only [Ledger.unanswered, h.waits, Bool.toNat_true, Bool.not_false, Bool.not_true,
      Bool.toNat_false] at this ⊢
    omega

/-- The HEAD that begins an attempt: where it confirms the progress of the attempt before it,
the counter starts anew. -/
theorem report (h : Account true attempt observed w) {offset : Nat}
    (hconfirm : w.moved = true → ∀ previous ∈ observed, previous < offset) :
    Account false (attemptAfter observed offset attempt) (some (observedAfter observed offset))
      (w.report offset) := by
  have hwaited : w.waited.toNat = 1 := by rw [h.waits, Bool.toNat_true]
  cases observed with
  | none =>
    obtain ⟨hknown, hmoved⟩ := h.fresh rfl
    have hcount : attempt ≤ w.streak := h.counted hmoved
    refine ⟨rfl, ?_, ?_, nofun, fun _ => ?_⟩
    · simp [Ledger.report, h.reports, observedAfter]
    · simp [Ledger.report, hknown, observedAfter]
    · simp [Ledger.report, hknown, hwaited, attemptAfter, hcount]
  | some previous =>
    obtain ⟨known, hknown, hle⟩ := h.behind previous rfl
    replace hknown : w.known = some known := hknown
    refine ⟨rfl, ?_, ?_, nofun, fun _ => ?_⟩
    · simp [Ledger.report, h.reports, observedAfter]
    · simp [Ledger.report, hknown, observedAfter]
      omega
    by_cases hrise : previous < offset
    · -- the counter starts anew, and the attempt itself counts
      simp [Ledger.report, hwaited, attemptAfter, hrise]
    · have hmoved : w.moved = false := by
        by_contra hm
        exact hrise (hconfirm (by simpa using hm) previous rfl)
      have hcount : attempt ≤ w.streak := h.counted hmoved
      have hbelow : ¬known < offset := by omega
      simp [Ledger.report, hknown, hwaited, attemptAfter, hrise, hbelow, hcount]

/-- An acknowledgement takes the attempt off the budget or leaves the account. -/
theorem acknowledge (h : Account false attempt observed w) (hsome : observed ≠ none)
    (offset : Nat) : Account false attempt observed (w.acknowledge offset) := by
  unfold Ledger.acknowledge
  split
  · next hbeyond =>
    refine ⟨h.waits, h.reports, fun r hr => ?_, fun ho => absurd ho hsome, nofun⟩
    obtain ⟨known, hknown, hle⟩ := h.behind r hr
    replace hknown : w.known = some known := hknown
    have hlt : known < offset := by simpa [hknown] using hbeyond
    exact ⟨offset, rfl, hle.trans hlt.le⟩
  · exact h

end Account

/-! ## The loop keeps the account -/

section Loop

variable {Meta : Type} {client : Client Meta} {url : String} {len : Nat}

theorem validateRemote_error {remote : UploadInfo Meta} {e : Error}
    (h : validateRemoteForResume remote len = .error e) : e.isRetryable = false := by
  unfold validateRemoteForResume validateOffsetNotBeyondSource at h
  split at h <;> split at h
  · exact Except.error.inj h ▸ rfl
  · split at h
    · exact Except.error.inj h ▸ rfl
    · cases h
  · exact Except.error.inj h ▸ rfl
  · cases h

/-- Runs in which all progress is confirmed. -/
abbrev Confirming (client : Client Meta) {α : Type} (P : Ledger → Prop) (p : Prog NetSig α)
    (Q : α → Ledger → Prop) : Prop :=
  Triple ((ledgerMachine client).restrict (Confirmed client)) (fun _ => True) Alone 0 P p Q

/-- What a retryable error says of the ledger. -/
def Exhausted (client : Client Meta) : Except Error (UploadInfo Meta) → Ledger → Prop
  | .ok _, _ => True
  | .error e, w => e.isRetryable = true → client.maxRetries < w.streak

/-- The HEAD that begins an attempt. -/
theorem uploadInfoAt_account {attempt : Nat} {observed : Option Nat} :
    Confirming client (Account true attempt observed) (uploadInfoAt client url) (fun
      | .ok info, w => Account false (attemptAfter observed info.offset attempt)
          (some (observedAfter observed info.offset)) w
      | .error _, w => Account false attempt observed w ∧ w.moved = false) := by
  rw [uploadInfoAt_eq]
  refine Triple.alone (fun r w => match readInfo client url r with
    | .ok info => Account false (attemptAfter observed info.offset attempt)
        (some (observedAfter observed info.offset)) w
    | .error _ => Account false attempt observed w ∧ w.moved = false) ?_ fun r => ?_
  · rintro w r w' h ⟨⟨-, rfl⟩, hconfirm⟩
    obtain ⟨hnext, -⟩ : _ ∧ _ := hconfirm
    simp only [Ledger.next]
    split
    · next info hinfo =>
      refine h.report fun hm previous hprevious => ?_
      obtain ⟨-, info', hinfo', hrise⟩ := hnext hm
      obtain rfl := Except.ok.inj (hinfo.symm.trans hinfo')
      exact hrise previous (h.reports ▸ hprevious)
    · next e he =>
      have hm : w.moved = false := by
        by_contra hm
        obtain ⟨-, info, hinfo, -⟩ := hnext (by simpa using hm)
        cases he.symm.trans hinfo
      exact ⟨h.unanswered hm, by simp [Ledger.unanswered, hm]⟩
  · refine Triple.done fun w h => ?_
    cases hr : readInfo client url r with
    | ok info => simpa only [hr] using h
    | error e => simpa only [hr] using h

/-- The chunk loop changes the account through its acknowledgements alone. -/
theorem patchSource_account {attempt observed offset : Nat} :
    Confirming client (Account false attempt (some observed)) (patchSource client url offset len)
      fun _ => Account false attempt (some observed) := by
  refine Triple.keep (A := NetOp.Sends) (stable_alone _) ?_ ?_
  · rintro o w a w' hsends - h ⟨⟨-, rfl⟩, -⟩
    refine ⟨safe_alone trivial, ?_⟩
    cases o with
    | patch url' offset' body =>
      simp only [Ledger.next]
      split
      · exact h.acknowledge nofun _
      · exact h
    | readChunk offset' n => exact h
    | onProgress n total => exact h
    | _ => exact hsends.elim
  · exact patchLoop_ops (fun _ _ _ => trivial) (fun _ _ _ _ => trivial) (fun _ _ => trivial) _ _ _ rfl

/-- Without a veto the client waits and goes on. -/
theorem beforeNextAttempt_account {attempt n : Nat} {observed : Option Nat} (error : Error) :
    Confirming client (Account false attempt observed) (beforeNextAttempt client n error) (fun
      | .ok _, w => Account true (attempt + 1) observed w
      | .error _, _ => False) := by
  refine Triple.bind (fun
    | .ok _, w => Account false attempt observed w
    | .error _, _ => False) ?_ fun r => ?_
  · refine Triple.ite (fun _ => ?_) fun _ => Triple.done fun _ h => h
    refine Triple.alone (fun retry w => retry = true ∧ Account false attempt observed w) ?_ ?_
    · rintro w retry w' h ⟨⟨hretry, rfl⟩, -⟩
      exact ⟨hretry, h⟩
    · intro retry
      cases retry with
      | true => exact Triple.done fun _ h => h.2
      | false => exact Triple.done fun _ h => nomatch h.1
  cases r with
  | error e => exact Triple.done fun _ h => h
  | ok _ =>
    refine Triple.bind (fun
      | .ok _, w => Account false attempt observed w
      | .error _, _ => False) ?_ fun r => ?_
    · unfold nextRetryDelay
      split
      · exact Triple.done fun _ h => h
      · refine Triple.ite (fun _ => Triple.done fun _ h => h) fun _ => ?_
        refine Triple.alone (fun _ => Account false attempt observed) ?_ fun _ =>
          Triple.done fun _ h => h
        rintro w n w' h ⟨⟨-, rfl⟩, -⟩
        exact h
    · cases r with
      | error e => exact Triple.done fun _ h => h
      | ok delay =>
        refine Triple.alone (fun _ => Account true (attempt + 1) observed) ?_ fun _ =>
          Triple.done fun _ h => h
        rintro w _ w' h ⟨⟨-, rfl⟩, -⟩
        exact h.wait

/-- The last HEAD is no new attempt: where it is asked the budget is used up. -/
theorem lastCheck_account {observed : Nat} (error : Error) :
    Confirming client (Account false client.maxRetries (some observed))
      (lastCheck client url len error) fun _ w => client.maxRetries < w.streak := by
  refine Triple.bind (fun _ w => client.maxRetries < w.streak) ?_ fun r => ?_
  · rw [uploadInfoAt_eq]
    refine Triple.alone (fun _ w => client.maxRetries < w.streak) ?_ fun r => Triple.done fun _ h => h
    rintro w r w' h ⟨⟨-, rfl⟩, hconfirm⟩
    obtain ⟨hnext, hlast⟩ : _ ∧ _ := hconfirm
    have hm : w.moved = false := by
      by_contra hm
      have := (hnext (by simpa using hm)).1
      rw [h.waits] at this
      cases this
    have hspent : client.maxRetries < w.streak := h.counted hm
    simp only [Ledger.next]
    split
    · next info hinfo =>
      obtain ⟨known, hknown, -⟩ := h.behind observed rfl
      have hle : info.offset ≤ known := hlast h.waits info hinfo known hknown
      replace hknown : w.known = some known := hknown
      simpa [Ledger.report, hknown, h.waits, Nat.not_lt.mpr hle] using hspent
    · simpa [Ledger.unanswered, h.waits] using hspent
  · cases r with
    | error e => exact Triple.done fun _ h => h
    | ok remote =>
      dsimp only
      split
      · exact Triple.done fun _ h => h
      · exact Triple.ite (fun _ => Triple.done fun _ h => h) fun _ => Triple.done fun _ h => h

/-- What follows a failed attempt, where the loop keeps the account from then on. -/
theorem nextAttempt_account {attempt : Nat} {observed : Option Nat} {rest : Net (UploadInfo Meta)}
    (error : Error)
    (hrest : Confirming client (Account true (attempt + 1) observed) rest (Exhausted client)) :
    Confirming client (Account false attempt observed)
      (nextAttempt client attempt error rest) (Exhausted client) := by
  refine Triple.bind _ (beforeNextAttempt_account error) fun r => ?_
  cases r with
  | error e => exact Triple.done fun _ h => h.elim
  | ok _ => exact hrest

/-- The loop returns a retryable error only with the budget used up. -/
theorem resumeLoop_account (rounds attempt : Nat) (observed : Option Nat)
    (created : Option (UploadInfo Meta)) :
    Confirming client (fun w => match created with
        | none => Account true attempt observed w
        | some info => Account false (attemptAfter observed info.offset attempt)
            (some (observedAfter observed info.offset)) w)
      (resumeLoop client url len rounds attempt observed created) (Exhausted client) := by
  induction rounds generalizing attempt observed created with
  | zero => exact Triple.alone (fun a => a.elim) (fun _ a => a.elim) fun a => a.elim
  | succ n ih =>
    unfold resumeLoop
    refine Triple.bind (fun
      | .ok info, w => Account false (attemptAfter observed info.offset attempt)
          (some (observedAfter observed info.offset)) w
      | .error _, w => Account false attempt observed w ∧ w.moved = false) ?_ fun r => ?_
    · cases created with
      | some info => exact Triple.done fun _ h => h
      | none => exact uploadInfoAt_account
    cases r with
    | error error =>
      refine Triple.ite (fun hstop => Triple.done fun w h hretry => ?_) fun _ => ?_
      · have hspent : attempt = client.maxRetries := by simpa [hretry] using hstop
        exact hspent ▸ h.1.counted h.2
      · exact (nextAttempt_account error (ih (attempt + 1) observed none)).weaken
          (fun _ h => h.1) fun _ _ h => h
    | ok remote =>
      dsimp only
      split
      · next e he =>
        exact Triple.done fun _ _ hretry => absurd hretry (by rw [validateRemote_error he]; simp)
      refine Triple.ite (fun _ => Triple.done fun _ _ => trivial) fun _ => ?_
      refine Triple.bind _ patchSource_account fun r => ?_
      cases r with
      | ok _ => exact Triple.done fun _ _ => trivial
      | error error =>
        refine Triple.ite (fun hstop => Triple.done fun _ _ hretry => ?_) fun _ => ?_
        · simp [hretry] at hstop
        refine Triple.ite (fun hspent => ?_) fun _ => nextAttempt_account error (ih _ _ none)
        rw [hspent]
        exact (lastCheck_account error).weaken (fun _ h => h) fun r _ h => by
          cases r with
          | ok _ => trivial
          | error e => exact fun _ => h

end Loop

theorem start_account {Meta : Type} (created : Option (UploadInfo Meta)) :
    match created with
    | none => Account true 0 none (.start created)
    | some info => Account false (attemptAfter none info.offset 0)
        (some (observedAfter none info.offset)) (.start created) := by
  cases created with
  | none => exact ⟨rfl, rfl, nofun, fun _ => ⟨rfl, rfl⟩, fun _ => Nat.le_refl _⟩
  | some info =>
    refine ⟨rfl, rfl, ?_, nofun, fun _ => Nat.le_refl _⟩
    rintro _ ⟨⟩
    exact ⟨_, rfl, Nat.le_refl _⟩

/-- The loop alone, with nothing known before its first request or creation. -/
def resuming {Meta : Type} (client : Client Meta) (url : String) (len rounds : Nat)
    (created : Option (UploadInfo Meta)) :
    Interaction.Config NetSig Ledger (Except Error (UploadInfo Meta)) :=
  .only 0 (resumeLoop client url len rounds 0 none created) ⟨.start created, []⟩

/-- In a run that confirms all progress, a retryable error is returned only after
`maxRetries + 1` attempts in a row that did not move the offset. -/
theorem retry_budget {Meta : Type} (client : Client Meta) (url : String) (len rounds : Nat)
    (created : Option (UploadInfo Meta))
    (c : Interaction.Config NetSig Ledger (Except Error (UploadInfo Meta)))
    (hrun : Reach (ledgerMachine client) (resuming client url len rounds created) c)
    (hconfirmed : ∀ e ∈ c.snap.hist, Confirmed client e) (error : Error)
    (hdone : c.pool 0 = some (.done (.error error))) (hretry : error.isRetryable = true) :
    client.maxRetries + 1 ≤ c.snap.world.streak := by
  obtain ⟨-, hresult⟩ := Triple.only (fun _ _ => id) (fun _ _ _ => id)
    (resumeLoop_account rounds 0 none created) trivial (start_account created)
    (hrun.restrict hconfirmed)
  exact hresult _ hdone hretry

/-- One byte in a request. -/
def byteClient (maxRetries : Nat) : Client Unit :=
  ⟨maxRetries, 0, 1, 0, false, .ok, fun _ => .ok ()⟩

def reset : Error := .transport "reset" true

def reporting (status : Nat) (offset : String) : Response :=
  ⟨status, none, some offset, none, none, none⟩

/-- The first attempt moves the offset and the next HEAD confirms it; after two attempts
without progress the one retry is used up. -/
theorem retry_budget_one :
    ∃ c, Reach (ledgerMachine (byteClient 1)) (resuming (byteClient 1) "u" 2 3 none) c ∧
      c.pool 0 = some (.done (.error reset)) ∧ 2 ≤ c.snap.world.streak := by
  have h := Reach.run_meets (M := ledgerMachine (byteClient 1)) (C := Confirmed (byteClient 1))
    (c := resuming (byteClient 1) "u" 2 3 none) ⟨.refl, List.forall_mem_nil _⟩
    0 (.head "u") (.ok (reporting 200 "0")) rfl ⟨trivial, rfl⟩ ⟨nofun, nofun⟩
  have h := Reach.run_meets h 0 (.readChunk 0 1) (.ok [1]) rfl ⟨trivial, rfl⟩ trivial
  have h := Reach.run_meets h 0 (.patch "u" 0 [1]) (.ok (reporting 204 "1")) rfl ⟨trivial, rfl⟩ trivial
  have h := Reach.run_meets h 0 (.onProgress 1 2) () rfl ⟨trivial, rfl⟩ trivial
  have h := Reach.run_meets h 0 (.readChunk 1 1) (.ok [2]) rfl ⟨trivial, rfl⟩ trivial
  have h := Reach.run_meets h 0 (.patch "u" 1 [2]) (.error reset) rfl ⟨trivial, rfl⟩ trivial
  have h := Reach.run_meets h 0 (.sleep 0) () rfl ⟨trivial, rfl⟩ trivial
  have h := Reach.run_meets h 0 (.head "u") (.ok (reporting 200 "1")) rfl ⟨trivial, rfl⟩
    ⟨fun _ => ⟨rfl, _, rfl, by rintro _ ⟨⟩; decide⟩, nofun⟩
  have h := Reach.run_meets h 0 (.readChunk 1 1) (.ok [2]) rfl ⟨trivial, rfl⟩ trivial
  have h := Reach.run_meets h 0 (.patch "u" 1 [2]) (.error reset) rfl ⟨trivial, rfl⟩ trivial
  have h := Reach.run_meets h 0 (.sleep 0) () rfl ⟨trivial, rfl⟩ trivial
  have h := Reach.run_meets h 0 (.head "u") (.error reset) rfl ⟨trivial, rfl⟩ ⟨nofun, nofun⟩
  exact ⟨_, h.1, rfl, retry_budget _ _ _ _ _ _ h.1 h.2 reset rfl rfl⟩

/-- Without retries, an attempt that moved the offset by one byte ends in an error: no
attempt without progress was made. -/
theorem acknowledged_progress_lost :
    ∃ c, Reach (ledgerMachine (byteClient 0)) (resuming (byteClient 0) "u" 2 1 none) c ∧
      c.pool 0 = some (.done (.error reset)) ∧ reset.isRetryable = true ∧
      ¬(byteClient 0).maxRetries + 1 ≤ c.snap.world.streak := by
  have h := Reach.run (M := ledgerMachine (byteClient 0))
    (c := resuming (byteClient 0) "u" 2 1 none) .refl
    0 (.head "u") (.ok (reporting 200 "0")) rfl ⟨trivial, rfl⟩
  have h := h.run 0 (.readChunk 0 1) (.ok [1]) rfl ⟨trivial, rfl⟩
  have h := h.run 0 (.patch "u" 0 [1]) (.ok (reporting 204 "1")) rfl ⟨trivial, rfl⟩
  have h := h.run 0 (.onProgress 1 2) () rfl ⟨trivial, rfl⟩
  have h := h.run 0 (.readChunk 1 1) (.ok [2]) rfl ⟨trivial, rfl⟩
  have h := h.run 0 (.patch "u" 1 [2]) (.error reset) rfl ⟨trivial, rfl⟩
  have h := h.run 0 (.head "u") (.ok (reporting 200 "1")) rfl ⟨trivial, rfl⟩
  exact ⟨_, h, rfl, rfl, by decide⟩

end Uploader

end TusRs
