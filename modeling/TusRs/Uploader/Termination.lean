import TusRs.Uploader.Operations

/-!
# Termination of the resume loop

`resume_at_with_progress_from` asks again after a failure and starts its retry budget anew
whenever a HEAD reports more than any HEAD before it. The offset an attempt starts at may
fall, the furthest one observed never does: a round that goes on either raises it or spends
one of the retries left, and within a round every accepted acknowledgement leaves fewer
bytes to send.

Results:

1. `resumeLoop_inRange`: from `potential` rounds on the loop comes to its end, with every read,
   PATCH and progress report within the source.
2. `resumeLoop_within`: a bound on the requests, reads and waits of one call.
3. `resumeLoop_fuel`, `patchLoop_fuel`: the rounds given to the loops do not matter.
4. `resume_terminates`: the three together, for whatever the server answers.
-/

namespace TusRs

open Interaction

namespace Uploader

/-- The operation stays within a source of `len` bytes, and the loop has not run out of
rounds. -/
def NetOp.InRange (len : Nat) : NetOp → Prop
  | .unfinished => False
  | .patch _ offset body => offset < len ∧ offset + body.length ≤ len
  | .readChunk offset maxLen => offset + maxLen ≤ len
  | .onProgress uploaded total => uploaded ≤ total ∧ total = len
  | _ => True

/-- How often the furthest observed offset can still rise. -/
def rank (len : Nat) (observed : Option Nat) : Nat :=
  observed.elim (len + 1) (len - ·)

/-- The rounds the loop can still make: all retries anew for every rise, and those left. -/
def potential (maxRetries len attempt : Nat) (observed : Option Nat) : Nat :=
  rank len observed * (maxRetries + 1) + (maxRetries - attempt) + 1

theorem validateRemote_le {Meta : Type} {remote : UploadInfo Meta} {len : Nat}
    (h : validateRemoteForResume remote len = .ok ()) : remote.offset ≤ len := by
  unfold validateRemoteForResume at h
  split at h
  · split at h
    · cases h
    · exact validateOffset_ok h
  · exact validateOffset_ok h

/-! ## One round spends part of the potential -/

/-- A HEAD that failed spends a retry. -/
theorem potential_retry {maxRetries len attempt : Nat} {observed : Option Nat}
    (h : attempt < maxRetries) :
    potential maxRetries len (attempt + 1) observed < potential maxRetries len attempt observed := by
  unfold potential
  omega

theorem rank_observedAfter {len offset : Nat} {observed : Option Nat} (hlt : offset < len) :
    rank len (some (observedAfter observed offset)) ≤ rank len observed ∧
      (observed.any (fun previous => offset > previous) ∨ observed = none →
        rank len (some (observedAfter observed offset)) < rank len observed) := by
  cases observed with
  | none =>
    refine ⟨?_, fun _ => ?_⟩
    · change len - offset ≤ len + 1
      omega
    · change len - offset < len + 1
      omega
  | some previous =>
    change len - max previous offset ≤ len - previous ∧ _
    refine ⟨by omega, fun h => ?_⟩
    have hrise : offset > previous := by simpa using h
    change len - max previous offset < len - previous
    omega

theorem attemptAfter_le {maxRetries attempt offset : Nat} {observed : Option Nat}
    (h : attempt ≤ maxRetries) : attemptAfter observed offset attempt ≤ maxRetries := by
  unfold attemptAfter
  split
  · exact Nat.zero_le _
  · exact h

/-- An attempt that failed raises the furthest offset observed or spends a retry. -/
theorem potential_attempt {maxRetries len attempt offset : Nat} {observed : Option Nat}
    (hlt : offset < len) (hne : attemptAfter observed offset attempt ≠ maxRetries)
    (hle : attempt ≤ maxRetries) :
    potential maxRetries len (attemptAfter observed offset attempt + 1)
      (some (observedAfter observed offset)) < potential maxRetries len attempt observed := by
  obtain ⟨hrank, hrise⟩ : rank len (some (observedAfter observed offset)) ≤ rank len observed ∧ _ :=
    rank_observedAfter hlt
  have hafter : attemptAfter observed offset attempt ≤ maxRetries := attemptAfter_le hle
  have hmul : rank len (some (observedAfter observed offset)) * (maxRetries + 1) ≤
      rank len observed * (maxRetries + 1) := Nat.mul_le_mul_right _ hrank
  by_cases h : observed.any fun previous => offset > previous
  · have hmul' : (rank len (some (observedAfter observed offset)) + 1) * (maxRetries + 1) ≤
        rank len observed * (maxRetries + 1) := Nat.mul_le_mul_right _ (hrise (.inl h))
    rw [Nat.succ_mul] at hmul'
    unfold potential
    omega
  · have hsame : attemptAfter observed offset attempt = attempt := by simp [attemptAfter, h]
    rw [hsame] at hne hafter ⊢
    unfold potential
    omega

theorem potential_pos (maxRetries len attempt : Nat) (observed : Option Nat) :
    0 < potential maxRetries len attempt observed := Nat.succ_pos _

section Loops

variable {Meta : Type} {client : Client Meta} {url : String} {len : Nat}

/-! ## Every operation is in range -/

theorem NetOp.Waits.inRange {o : NetOp} (h : o.Waits) : o.InRange len := by
  cases o with
  | beforeRetry attempt error => trivial
  | random max => trivial
  | sleep duration => trivial
  | _ => exact h.elim

theorem patchSource_inRange (offset : Nat) :
    Prog.Ops (NetOp.InRange len) (patchSource client url offset len) :=
  patchLoop_ops (fun _ _ h => h) (fun _ _ hlt hle => ⟨hlt, hle⟩) (fun _ h => ⟨h, rfl⟩) _ _ _ rfl

/-- With as many rounds as the potential the loop comes to its end. -/
theorem resumeLoop_inRange (rounds attempt : Nat) (observed : Option Nat)
    (created : Option (UploadInfo Meta)) (hle : attempt ≤ client.maxRetries)
    (hpot : potential client.maxRetries len attempt observed ≤ rounds) :
    (resumeLoop client url len rounds attempt observed created).Ops (NetOp.InRange len) := by
  induction rounds generalizing attempt observed created with
  | zero => exact absurd (potential_pos _ _ _ _) (Nat.not_lt.mpr hpot)
  | succ n ih =>
    have hnext : ∀ attempt' observed' error, attempt' + 1 ≤ client.maxRetries →
        potential client.maxRetries len (attempt' + 1) observed' ≤ n →
        Prog.Ops (NetOp.InRange len) (nextAttempt client attempt' error
          (resumeLoop client url len n (attempt' + 1) observed' none)) :=
      fun _ _ _ hle' hpot' =>
        nextAttempt_ops (fun _ => NetOp.Waits.inRange) (ih _ _ _ hle' hpot') _ _
    unfold resumeLoop
    refine .bind ?_ fun r => ?_
    · cases created with
      | some info => trivial
      | none => exact uploadInfoAt_ops trivial
    cases r with
    | error error =>
      refine .cases (fun _ => trivial) fun hretry => ?_
      have hne : attempt ≠ client.maxRetries := by
        simp only [Bool.or_eq_true, beq_iff_eq, not_or] at hretry
        exact hretry.2
      have hlt : attempt < client.maxRetries := Nat.lt_of_le_of_ne hle hne
      exact hnext _ _ _ hlt (Nat.le_of_lt_succ ((potential_retry hlt).trans_le hpot))
    | ok remote =>
      dsimp only
      split
      · trivial
      next hv =>
      refine .cases (fun _ => trivial) fun hne => ?_
      have hlt : remote.offset < len := Nat.lt_of_le_of_ne (validateRemote_le hv) hne
      refine (patchSource_inRange _).bind fun r => ?_
      cases r with
      | ok _ => trivial
      | error error =>
        refine .ite trivial (.cases (fun _ => lastCheck_ops trivial _ _) fun hne' => ?_)
        have hafter : attemptAfter observed remote.offset attempt < client.maxRetries :=
          Nat.lt_of_le_of_ne (attemptAfter_le hle) hne'
        exact hnext _ _ _ hafter
          (Nat.le_of_lt_succ ((potential_attempt hlt hne' hle).trans_le hpot))

/-! ## How many operations a call makes -/

theorem uploadInfoAt_within : (uploadInfoAt client url).Within 1 := by
  intro r
  cases r with
  | error e => exact .done _ _
  | ok r => exact .ite (fun _ => .done _ _) fun _ => .done _ _

theorem sendUploadChunkAt_within (chunk : Bytes) (offset : Nat) (operation : String) :
    (sendUploadChunkAt url chunk offset operation).Within 1 := by
  intro r
  cases r with
  | error e => exact .done _ _
  | ok r => exact .ite (fun _ => .done _ _) fun _ => .done _ _

/-- A round of the chunk loop reads, sends and reports. -/
theorem patchLoop_within (fuel sent remaining : Nat) :
    (patchLoop client url len fuel sent remaining).Within (3 * fuel) := by
  induction fuel generalizing sent remaining with
  | zero => exact .done _ _
  | succ n ih =>
    refine .ite (fun _ => .step fun chunk => ?_) fun _ => .done _ _
    cases chunk with
    | error e => exact .done _ _
    | ok chunk =>
      refine .ite (fun _ => .done _ _) fun _ => .ite (fun _ => .done _ _) fun _ => ?_
      refine .bind 1 (3 * n + 1) (Nat.add_comm _ _).le (sendUploadChunkAt_within _ _ _) fun r => ?_
      cases r with
      | error e => exact .done _ _
      | ok newOffset =>
        dsimp only
        split
        · exact .done _ _
        · exact .step fun _ => ih _ _

theorem beforeNextAttempt_within (attempt : Nat) (error : Error) :
    Prog.Within 3 (beforeNextAttempt client attempt error) := by
  have hook : Prog.Within 1 (consultRetryHook client (attempt + 1) error) :=
    .ite (fun _ => .step fun retry => by cases retry <;> exact .done _ _) fun _ => .done _ _
  have delay : Prog.Within 1 (nextRetryDelay error.retryAfter client.retryDelay attempt) := by
    unfold nextRetryDelay
    split
    · exact .done _ _
    · exact .ite (fun _ => .done _ _) fun _ => .step fun _ => .done _ _
  refine .bind 1 2 le_rfl hook fun r => ?_
  cases r with
  | error e => exact .done _ _
  | ok _ =>
    refine .bind 1 1 le_rfl delay fun r => ?_
    cases r with
    | error e => exact .done _ _
    | ok delay => exact .step fun _ => .done _ _

theorem lastCheck_within (error : Error) : (lastCheck client url len error).Within 1 := by
  refine .bind 1 0 le_rfl uploadInfoAt_within fun r => ?_
  cases r with
  | error e => exact .done _ _
  | ok remote =>
    dsimp only
    split
    · exact .done _ _
    · exact .ite (fun _ => .done _ _) fun _ => .done _ _

/-- A round asks for the offset, sends what is left and waits for the next round. -/
theorem resumeLoop_within (rounds attempt : Nat) (observed : Option Nat)
    (created : Option (UploadInfo Meta)) :
    (resumeLoop client url len rounds attempt observed created).Within
      (rounds * (3 * len + 4) + 1) := by
  induction rounds generalizing attempt observed created with
  | zero => exact .step fun a => a.elim
  | succ n ih =>
    have hnext : ∀ attempt' observed' error, Prog.Within (n * (3 * len + 4) + 4)
        (nextAttempt client attempt' error
          (resumeLoop client url len n (attempt' + 1) observed' none)) := by
      intro attempt' observed' error
      refine .bind 3 (n * (3 * len + 4) + 1) (by omega) (beforeNextAttempt_within _ _) fun r => ?_
      cases r with
      | error e => exact .done _ _
      | ok _ => exact ih _ _ _
    have hround : 1 + (3 * len + (n * (3 * len + 4) + 4)) ≤ (n + 1) * (3 * len + 4) + 1 := by
      rw [Nat.succ_mul n]
      omega
    unfold resumeLoop
    refine .bind _ _ hround ?_ fun r => ?_
    · cases created with
      | some info => exact .done _ _
      | none => exact uploadInfoAt_within
    cases r with
    | error error =>
      exact .ite (fun _ => .done _ _) fun _ => (hnext _ _ _).mono (Nat.le_add_left _ _)
    | ok remote =>
      dsimp only
      split
      · exact .done _ _
      refine .ite (fun _ => .done _ _) fun _ => ?_
      have hsend : Prog.Within (3 * len) (patchSource client url remote.offset len) :=
        (patchLoop_within _ _ _).mono (Nat.mul_le_mul_left 3 (Nat.sub_le _ _))
      refine .bind _ _ le_rfl hsend fun r => ?_
      cases r with
      | ok _ => exact .done _ _
      | error error =>
        refine .ite (fun _ => .done _ _) fun _ => .ite (fun _ => ?_) fun _ => hnext _ _ _
        exact (lastCheck_within error).mono (by omega)

/-! ## The rounds given do not matter -/

theorem patchLoop_done (fuel sent : Nat) :
    patchLoop client url len fuel sent 0 = Prog.done (.ok ()) := by
  cases fuel <;> rfl

/-- With a round for every byte left the chunk loop is not cut short. -/
theorem patchLoop_fuel (n m sent remaining : Nat) (hrem : remaining = len - sent)
    (hn : remaining ≤ n) (hm : remaining ≤ m) :
    patchLoop client url len n sent remaining = patchLoop client url len m sent remaining := by
  induction n generalizing m sent remaining with
  | zero =>
    obtain rfl := Nat.le_zero.mp hn
    rw [patchLoop_done, patchLoop_done]
  | succ n ih =>
    cases m with
    | zero =>
      obtain rfl := Nat.le_zero.mp hm
      rw [patchLoop_done, patchLoop_done]
    | succ m =>
      unfold patchLoop
      refine ite_congr rfl (fun _ => ?_) fun _ => rfl
      refine congrArg (Prog.step _) (funext fun chunk => ?_)
      cases chunk with
      | error e => rfl
      | ok chunk =>
        refine ite_congr rfl (fun _ => rfl) fun _ => ite_congr rfl (fun _ => rfl) fun _ => ?_
        refine congrArg (Prog.bind _) (funext fun r => ?_)
        cases r with
        | error e => rfl
        | ok newOffset =>
          dsimp only
          split
          · rfl
          · next hv =>
            obtain ⟨hadv, -⟩ := validatePatchAdvance_ok hv
            refine congrArg (Prog.step _) (funext fun _ => ih _ _ _ rfl ?_ ?_) <;> omega

/-- From the potential on, further rounds change nothing. -/
theorem resumeLoop_fuel (n m attempt : Nat) (observed : Option Nat)
    (created : Option (UploadInfo Meta)) (hle : attempt ≤ client.maxRetries)
    (hn : potential client.maxRetries len attempt observed ≤ n)
    (hm : potential client.maxRetries len attempt observed ≤ m) :
    resumeLoop client url len n attempt observed created =
      resumeLoop client url len m attempt observed created := by
  induction n generalizing m attempt observed created with
  | zero => exact absurd (potential_pos _ _ _ _) (Nat.not_lt.mpr hn)
  | succ n ih =>
    cases m with
    | zero => exact absurd (potential_pos _ _ _ _) (Nat.not_lt.mpr hm)
    | succ m =>
      have hnext : ∀ attempt' observed' error, attempt' < client.maxRetries →
          potential client.maxRetries len (attempt' + 1) observed' <
            potential client.maxRetries len attempt observed →
          nextAttempt client attempt' error
              (resumeLoop client url len n (attempt' + 1) observed' none) =
            nextAttempt client attempt' error
              (resumeLoop client url len m (attempt' + 1) observed' none) := by
        intro attempt' observed' error hlt hpot
        exact congrArg (nextAttempt client attempt' error)
          (ih _ _ _ _ hlt (Nat.le_of_lt_succ (hpot.trans_le hn))
            (Nat.le_of_lt_succ (hpot.trans_le hm)))
      unfold resumeLoop
      refine congrArg (Prog.bind _) (funext fun r => ?_)
      cases r with
      | error error =>
        refine ite_congr rfl (fun _ => rfl) fun hretry => ?_
        have hne : attempt ≠ client.maxRetries := by
          simp only [Bool.or_eq_true, beq_iff_eq, not_or] at hretry
          exact hretry.2
        have hlt : attempt < client.maxRetries := Nat.lt_of_le_of_ne hle hne
        exact hnext _ _ _ hlt (potential_retry hlt)
      | ok remote =>
        dsimp only
        split
        · rfl
        next hv =>
        refine ite_congr rfl (fun _ => rfl) fun hne => ?_
        have hlt : remote.offset < len := Nat.lt_of_le_of_ne (validateRemote_le hv) hne
        refine congrArg (Prog.bind _) (funext fun r => ?_)
        cases r with
        | ok _ => rfl
        | error error =>
          refine ite_congr rfl (fun _ => rfl) fun _ => ite_congr rfl (fun _ => rfl) fun hne' => ?_
          have hafter : attemptAfter observed remote.offset attempt < client.maxRetries :=
            Nat.lt_of_le_of_ne (attemptAfter_le hle) hne'
          exact hnext _ _ _ hafter (potential_attempt hlt hne' hle)

end Loops

/-- The rounds a call of the resume loop makes at most. -/
def roundBound (maxRetries len : Nat) : Nat := potential maxRetries len 0 none

/-- Whatever the server answers, a call of the resume loop returns after a bounded number of
requests. Every PATCH sends bytes of the source from an offset below its end, and no
subtraction of offsets falls below zero: a remote offset the check accepts and an
acknowledgement it accepts are within the source. -/
theorem resume_terminates {Meta : Type} (client : Client Meta) (url : String) (len : Nat)
    (created : Option (UploadInfo Meta)) (rounds : Nat) :
    (resumeLoop client url len (roundBound client.maxRetries len + rounds) 0 none created).Ops
        (NetOp.InRange len) ∧
      (resumeLoop client url len (roundBound client.maxRetries len + rounds) 0 none created).Within
        (roundBound client.maxRetries len * (3 * len + 4) + 1) ∧
      resumeLoop client url len (roundBound client.maxRetries len + rounds) 0 none created =
        resumeLoop client url len (roundBound client.maxRetries len) 0 none created ∧
      (∀ offset fuel, len - offset ≤ fuel →
        patchLoop client url len fuel offset (len - offset) = patchSource client url offset len) ∧
      (∀ remote : UploadInfo Meta, validateRemoteForResume remote len = .ok () →
        remote.offset ≤ len) ∧
      ∀ previous next chunkLen, validatePatchAdvance previous next chunkLen len = .ok () →
        previous < next ∧ next ≤ len := by
  have hsame : resumeLoop client url len (roundBound client.maxRetries len + rounds) 0 none created =
      resumeLoop client url len (roundBound client.maxRetries len) 0 none created :=
    resumeLoop_fuel _ _ _ _ _ (Nat.zero_le _) (Nat.le_add_right _ _) le_rfl
  refine ⟨?_, ?_, hsame, ?_, fun _ => validateRemote_le, fun _ _ _ => validatePatchAdvance_ok⟩
  · exact resumeLoop_inRange _ _ _ _ (Nat.zero_le _) (Nat.le_add_right _ _)
  · rw [hsame]
    exact resumeLoop_within _ _ _ _
  · exact fun offset fuel hfuel => patchLoop_fuel _ _ _ _ rfl hfuel le_rfl

end Uploader

end TusRs
