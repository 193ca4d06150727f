import Mathlib.Algebra.BigOperators.Group.Finset.Piecewise
import Mathlib.Algebra.Order.BigOperators.Group.Finset
import TusRs.Uploader.Reassembly
import TusRs.Uploader.Retry

/-!
# Progress reports

`UploadProgress` promises counts that never decrease. A single client hands every
acknowledged offset to the callback as it comes; where a HEAD reports less than was
acknowledged before, the counts start again from there. A parallel upload adds the bytes of
its parts up: `PartProgress` turns the offsets of one part into deltas, and
`ParallelProgressState` reports a sum only when it exceeds the last one reported.

Results:

* `call_ordered`: one client's reports are ordered where no HEAD reports less than they did.
* `progress_monotone`: so they are, and those of a parallel upload always.
* `regressed_progress`: a client that reports 2 and then 1.
-/

namespace TusRs

open Interaction

namespace Uploader

/-! ## One client -/

/-- The reports a callback was given, newest first, never decrease and never exceed the
total. -/
structure Ordered (total : Nat) (reports : List (Nat × Nat)) : Prop where
  sorted : reports.Pairwise fun newer older => older.1 ≤ newer.1
  within : ∀ report ∈ reports, report.1 ≤ report.2 ∧ report.2 = total

/-- No report is beyond `n`. -/
def UpTo (n : Nat) (reports : List (Nat × Nat)) : Prop := ∀ report ∈ reports, report.1 ≤ n

theorem UpTo.mono {n m : Nat} {reports : List (Nat × Nat)} (h : UpTo n reports) (hnm : n ≤ m) :
    UpTo m reports := fun report hr => (h report hr).trans hnm

theorem Ordered.deliver {total n : Nat} {reports : List (Nat × Nat)} (h : Ordered total reports)
    (hup : UpTo n reports) (hn : n ≤ total) :
    Ordered total ((n, total) :: reports) ∧ UpTo n ((n, total) :: reports) := by
  refine ⟨⟨List.pairwise_cons.mpr ⟨hup, h.sorted⟩, ?_⟩, ?_⟩
  · exact List.forall_mem_cons.mpr ⟨⟨hn, rfl⟩, h.within⟩
  · exact List.forall_mem_cons.mpr ⟨le_rfl, hup⟩

/-- What an operation adds to the reports. -/
def delivered : NetOp → List (Nat × Nat) → List (Nat × Nat)
  | .onProgress uploaded total, reports => (uploaded, total) :: reports
  | _, reports => reports

/-- The server and the network may answer anything. -/
def reportMachine : Machine NetSig (List (Nat × Nat)) where
  exec _ o w _ w' := w' = delivered o w
  env _ _ := False
  halt _ _ _ := False

/-- A HEAD reports no less than the callback was given. -/
def Steady {Meta : Type} (client : Client Meta) (e : Event NetSig (List (Nat × Nat))) : Prop :=
  match e with
  | ⟨_, .head url, r, reports⟩ => ∀ info, readInfo client url r = .ok info → UpTo info.offset reports
  | _ => True

/-- The calls that report to a callback of their own: a resume and an upload. -/
inductive Call {Meta : Type} (client : Client Meta) (len : Nat) : Net (UploadInfo Meta) → Prop
  | resume (rounds : Nat) (url : String) : Call client len (resumeAt client rounds url len)
  | upload (rounds : Nat) (metadata : Meta) :
      Call client len (uploadFrom client rounds len metadata)

/-- The operation neither reports progress nor asks for an offset. -/
def NetOp.Quiet : NetOp → Prop
  | .onProgress _ _ => False
  | .head _ => False
  | _ => True

theorem NetOp.Waits.quiet {o : NetOp} (h : o.Waits) : o.Quiet := by
  cases o with
  | beforeRetry attempt error => trivial
  | random max => trivial
  | sleep duration => trivial
  | _ => exact h.elim

section Calls

variable {Meta : Type} {client : Client Meta} {url : String} {len : Nat}

/-- Runs on which no HEAD reports less than the callback was given; the reports are
ordered all along. -/
abbrev Reporting (client : Client Meta) (len : Nat) {α : Type} (P : List (Nat × Nat) → Prop)
    (p : Prog NetSig α) (Q : α → List (Nat × Nat) → Prop) : Prop :=
  Triple (reportMachine.restrict (Steady client)) (Ordered len) Alone 0 P p Q

theorem quiet_keep {P : List (Nat × Nat) → Prop} {α : Type} {p : Prog NetSig α}
    (h : p.Ops NetOp.Quiet) : Reporting client len P p fun _ => P := by
  refine Triple.keep (stable_alone _) ?_ h
  rintro o w a w' hquiet hi hP ⟨rfl, -⟩
  cases o with
  | onProgress n m => exact hquiet.elim
  | head url => exact hquiet.elim
  | _ => exact ⟨safe_alone hi, hP⟩

/-- What a report leaves: it is the furthest one so far. -/
theorem onProgress_spec {n : Nat} (hn : n ≤ len) {α : Type} {k : Unit → Prog NetSig α}
    {Q : α → List (Nat × Nat) → Prop} (hk : Reporting client len (UpTo n) (k ()) Q) :
    Reporting client len (UpTo n) (.step (.onProgress n len) k) Q := by
  refine Triple.step (fun _ => UpTo n) (stable_alone _) ?_ fun _ => hk
  rintro w a w' hi hup ⟨rfl, -⟩
  obtain ⟨hordered, hup'⟩ := hi.deliver hup hn
  exact ⟨safe_alone hordered, hup'⟩

theorem uploadInfoAt_reports :
    Reporting client len (fun _ => True) (uploadInfoAt client url) (fun
      | .ok info, w => UpTo info.offset w
      | .error _, _ => True) := by
  rw [uploadInfoAt_eq]
  refine Triple.step (fun r w => ∀ info, readInfo client url r = .ok info → UpTo info.offset w)
    (stable_alone _) ?_ fun r => Triple.done fun w h => ?_
  · rintro w r w' hi - ⟨rfl, hsteady⟩
    exact ⟨safe_alone hi, hsteady⟩
  · cases hr : readInfo client url r with
    | ok info => exact h info hr
    | error e => trivial

/-- The chunk loop reports ever larger offsets. -/
theorem patchLoop_reports (fuel sent remaining : Nat) :
    Reporting client len (UpTo sent) (patchLoop client url len fuel sent remaining)
      fun _ _ => True := by
  induction fuel generalizing sent remaining with
  | zero => exact Triple.done fun _ _ => trivial
  | succ n ih =>
    refine Triple.ite (fun _ => ?_) fun _ => Triple.done fun _ _ => trivial
    refine Triple.step (fun _ => UpTo sent) (stable_alone _) ?_ fun chunk => ?_
    · rintro w a w' hi hup ⟨rfl, -⟩
      exact ⟨safe_alone hi, hup⟩
    cases chunk with
    | error e => exact Triple.done fun _ _ => trivial
    | ok chunk =>
      refine Triple.ite (fun _ => Triple.done fun _ _ => trivial) fun _ => ?_
      refine Triple.ite (fun _ => Triple.done fun _ _ => trivial) fun _ => ?_
      refine Triple.bind _ (quiet_keep (sendUploadChunkAt_ops trivial)) fun r => ?_
      cases r with
      | error e => exact Triple.done fun _ _ => trivial
      | ok newOffset =>
        dsimp only
        split
        · exact Triple.done fun _ _ => trivial
        · next hv =>
          obtain ⟨hadv, hle⟩ := validatePatchAdvance_ok hv
          exact (onProgress_spec hle (ih newOffset _)).weaken (fun _ h => h.mono hadv.le)
            fun _ _ h => h

theorem resumeLoop_reports (rounds attempt : Nat) (observed : Option Nat)
    (created : Option (UploadInfo Meta)) :
    Reporting client len (fun w => ∀ info ∈ created, UpTo info.offset w)
      (resumeLoop client url len rounds attempt observed created) fun _ _ => True := by
  induction rounds generalizing attempt observed created with
  | zero =>
    exact Triple.step (fun a => a.elim) (stable_alone _) (fun _ a => a.elim) fun a => a.elim
  | succ n ih =>
    have hnext : ∀ attempt' observed' error, Reporting client len (fun _ => True)
        (nextAttempt client attempt' error
          (resumeLoop client url len n (attempt' + 1) observed' none)) fun _ _ => True := by
      intro attempt' observed' error
      refine Triple.bind _
        (quiet_keep (beforeNextAttempt_ops (fun _ => NetOp.Waits.quiet) _ _)) fun r => ?_
      cases r with
      | error e => exact Triple.done fun _ _ => trivial
      | ok _ => exact (ih _ _ none).weaken (fun _ _ => by simp) fun _ _ h => h
    unfold resumeLoop
    refine Triple.bind (fun
      | .ok info, w => UpTo info.offset w
      | .error _, _ => True) ?_ fun r => ?_
    · cases created with
      | some info => exact Triple.done fun _ h => h info rfl
      | none => exact uploadInfoAt_reports.weaken (fun _ _ => trivial) fun _ _ h => h
    cases r with
    | error error => exact Triple.ite (fun _ => Triple.done fun _ _ => trivial) fun _ => hnext _ _ _
    | ok remote =>
      dsimp only
      split
      · exact Triple.done fun _ _ => trivial
      refine Triple.ite (fun _ => Triple.done fun _ _ => trivial) fun _ => ?_
      refine Triple.bind _ (patchLoop_reports _ remote.offset _) fun r => ?_
      cases r with
      | ok _ => exact Triple.done fun _ _ => trivial
      | error error =>
        refine Triple.ite (fun _ => Triple.done fun _ _ => trivial) fun _ => ?_
        refine Triple.ite (fun _ => ?_) fun _ => hnext _ _ _
        refine Triple.bind _ uploadInfoAt_reports fun r => ?_
        cases r with
        | error e => exact Triple.done fun _ _ => trivial
        | ok remote =>
          dsimp only
          split
          · exact Triple.done fun _ _ => trivial
          · exact Triple.ite (fun _ => Triple.done fun _ _ => trivial)
              fun _ => Triple.done fun _ _ => trivial

theorem createdOffset_within {hasBody : Bool} {n : Nat} {r : Response}
    (h : createdOffset hasBody len r = .ok n) : n ≤ len := by
  unfold createdOffset at h
  split at h
  · obtain ⟨m, -, h⟩ := except_bind_ok h
    obtain ⟨_, hv, h⟩ := except_bind_ok h
    exact Except.ok.inj h ▸ validateOffset_ok hv
  · exact Except.ok.inj h ▸ Nat.zero_le _

/-- A creation the client accepts reports an offset within the source. -/
theorem createUploadRequest_within (body : Option Bytes) (metadata : Meta) :
    Attempt.Returns (fun info : UploadInfo Meta => info.offset ≤ len)
      (createUploadRequest client len body metadata) := by
  intro r
  cases r with
  | error e => exact Attempt.Returns.error e
  | ok r =>
    refine Attempt.Returns.ite (fun _ => .error _) fun _ info hinfo => ?_
    obtain ⟨location, -, hinfo⟩ := except_bind_ok hinfo
    obtain ⟨url, -, hinfo⟩ := except_bind_ok hinfo
    obtain ⟨offset, hoff, hinfo⟩ := except_bind_ok hinfo
    exact Except.ok.inj hinfo ▸ createdOffset_within hoff

theorem createUploadRequest_quiet (body : Option Bytes) (metadata : Meta) :
    Prog.Ops NetOp.Quiet (createUploadRequest client len body metadata) := by
  refine ⟨trivial, fun r => ?_⟩
  cases r with
  | error e => trivial
  | ok r => exact .ite trivial trivial

theorem creationCapabilities_quiet : Prog.Ops NetOp.Quiet (creationCapabilities client len) := by
  refine .ite trivial ⟨trivial, fun r => ?_⟩
  cases r with
  | ok extensions => trivial
  | error e =>
    cases e with
    | unexpectedResponse operation status retryAfter => exact .ite trivial trivial
    | _ => trivial

/-- An upload begins without reports. -/
theorem uploadFrom_reports (rounds : Nat) (metadata : Meta) :
    Reporting client len (· = []) (uploadFrom client rounds len metadata) fun _ _ => True := by
  have hloop : ∀ info : UploadInfo Meta, Reporting client len (UpTo info.offset)
      (resumeLoop client info.url len rounds 0 none (some info)) fun _ _ => True :=
    fun info => (resumeLoop_reports rounds 0 none (some info)).weaken
      (fun w h => by rintro _ ⟨⟩; exact h) fun _ _ h => h
  have hnone : ∀ n w, w = [] → UpTo n w := by
    rintro n _ rfl
    exact List.forall_mem_nil _
  refine Triple.bind _ (quiet_keep creationCapabilities_quiet) fun capabilities => ?_
  cases capabilities with
  | error e => exact Triple.done fun _ _ => trivial
  | ok capabilities =>
    refine Triple.ite (fun _ => ?_) fun _ => ?_
    · refine Triple.bind _ (quiet_keep (readLoop_ops (fun _ _ => trivial) _ _ _ _ _)) fun body => ?_
      cases body with
      | error e => exact Triple.done fun _ _ => trivial
      | ok body =>
        refine Triple.bind _ ((quiet_keep (createUploadRequest_quiet _ _)).yields
          (createUploadRequest_within _ _)) fun upload => ?_
        cases upload with
        | error e => exact Triple.done fun _ _ => trivial
        | ok upload =>
          intro s hs
          have hle : upload.offset ≤ len := hs.2 upload rfl
          have hreport : Reporting client len (· = []) (.step (.onProgress upload.offset len)
              fun _ => if upload.offset = len then .done (.ok upload)
                else resumeLoop client upload.url len rounds 0 none (some upload))
              fun _ _ => True :=
            (onProgress_spec hle (Triple.ite (fun _ => Triple.done fun _ _ => trivial)
              fun _ => hloop upload)).weaken (hnone _) fun _ _ h => h
          exact hreport s hs.1
    · refine Triple.bind _ (quiet_keep (createUploadRequest_quiet _ _)) fun info => ?_
      cases info with
      | error e => exact Triple.done fun _ _ => trivial
      | ok info => exact (hloop info).weaken (hnone _) fun _ _ h => h

/-- One client's reports are ordered where no HEAD reports less than they did. -/
theorem call_ordered {p : Net (UploadInfo Meta)} (hp : Call client len p)
    {c : Interaction.Config NetSig (List (Nat × Nat)) (Except Error (UploadInfo Meta))}
    (hrun : Reach reportMachine (Interaction.Config.only 0 p ⟨[], []⟩) c)
    (hsteady : ∀ e ∈ c.snap.hist, Steady client e) : Ordered len c.snap.world := by
  have hspec : Reporting client len (· = []) p fun _ _ => True := by
    cases hp with
    | resume rounds url =>
      exact (resumeLoop_reports rounds 0 none none).weaken (fun _ _ => nofun) fun _ _ h => h
    | upload rounds metadata => exact uploadFrom_reports rounds metadata
  have hempty : Ordered len [] := ⟨.nil, List.forall_mem_nil _⟩
  exact (Triple.only (fun _ _ => id) (fun _ _ _ => id) hspec hempty rfl
    (hrun.restrict hsteady)).1

end Calls

/-! ## The parts of a parallel upload -/

/-- The operations of the tasks and, between them, the two steps of
`ParallelProgressState::advance`: the addition to the shared sum, which answers with the sum
before it, and the section under the lock. -/
inductive ProgressOp where
  | par (o : ParOp)
  | fetchAdd (delta : Nat)
  | report (uploaded : Nat)

def ProgressSig : Sig where
  Op := ProgressOp
  Ans
    | .par o => ParSig.Ans o
    | .fetchAdd _ => Nat
    | .report _ => Unit

/-- `ParallelProgressState::advance`. -/
def advance (delta : Nat) : Prog ProgressSig Unit :=
  if delta = 0 then .done ()
  else Prog.step (.fetchAdd delta) fun (before : Nat) => .step (.report (before + delta)) .done

/-- `on_progress` of `PartProgress` with the field `last`, which it returns anew. -/
def partOnProgress (last uploaded : Nat) : Prog ProgressSig Nat :=
  if uploaded > last then Prog.bind (advance (uploaded - last)) fun _ => .done uploaded
  else .done last

/-- A progress report of a part. The reports of `upload_from` in `upload_parallel` go to
`NoopProgress`. -/
def partReport : (o : ParOp) → Option (Nat × ParSig.Ans o)
  | .net true (.onProgress uploaded _) => some (uploaded, ())
  | _ => none

/-- A task whose reports go to its `PartProgress`. -/
def withPartProgress {α : Type} : Nat → Par α → Prog ProgressSig α
  | _, .done a => .done a
  | last, .step o k => match partReport o with
    | some (uploaded, a) =>
      Prog.bind (partOnProgress last uploaded) fun last => withPartProgress last (k a)
    | none => .step (.par o) fun a => withPartProgress last (k a)

/-- What the threads share: the bytes handed to the tasks, the fields of
`ParallelProgressState`, what each part has added to the sum, and what the callback was
given. -/
structure ProgressWorld where
  handed : Nat → Option Bytes
  uploaded : Nat
  reported : Nat
  added : Nat → Nat
  reports : List (Nat × Nat)

namespace ProgressWorld

def start : ProgressWorld := ⟨fun _ => none, 0, 0, fun _ => 0, []⟩

/-- `fetch_add` by the task of part `i`. -/
def add (w : ProgressWorld) (i delta : Nat) : ProgressWorld :=
  { w with
    uploaded := w.uploaded + delta
    added := Function.update w.added i (w.added i + delta) }

/-- The section under the lock. -/
def report (w : ProgressWorld) (total uploaded : Nat) : ProgressWorld :=
  if uploaded > w.reported then
    { w with
      reported := uploaded
      reports := (uploaded, total) :: w.reports }
  else w

end ProgressWorld

/-- The requests and joins may answer anything; a task starts with the bytes it was handed. -/
inductive ProgressExec (total : Nat) :
    (t : Nat) → (o : ProgressOp) → ProgressWorld → ProgressSig.Ans o → ProgressWorld → Prop
  | spawn {w : ProgressWorld} {t i : Nat} {capabilities : List String} {bytes : Bytes} :
      ProgressExec total t (.par (.spawn i capabilities bytes)) w ()
        { w with handed := Function.update w.handed i (some bytes) }
  | start {w : ProgressWorld} {i : Nat} {capabilities : List String} {bytes : Bytes} :
      w.handed i = some bytes →
      ProgressExec total (i + 1) (.par .start) w (capabilities, bytes) w
  | other {w : ProgressWorld} {t : Nat} {o : ParOp} {a : ParSig.Ans o} :
      (∀ i capabilities bytes, o ≠ .spawn i capabilities bytes) → o ≠ .start →
      ProgressExec total t (.par o) w a w
  | fetchAdd {w : ProgressWorld} {i delta : Nat} :
      ProgressExec total (i + 1) (.fetchAdd delta) w w.uploaded (w.add i delta)
  | report {w : ProgressWorld} {t uploaded : Nat} :
      ProgressExec total t (.report uploaded) w () (w.report total uploaded)

def progressMachine (total : Nat) : Machine ProgressSig ProgressWorld where
  exec := ProgressExec total
  env _ _ := False
  halt _ w w' := w' = w

/-- The operations of `upload_parallel` itself. -/
def asPar : ParSig.Into ProgressSig where
  op := .par
  ans _ a := a

/-- The call of `upload_parallel` with a progress callback. -/
def reportParallel {Meta : Type} (client : ParallelClient Meta) (options : ParallelUpload)
    (rounds len : Nat) (metadata partMetadata : Meta) :
    Interaction.Config ProgressSig ProgressWorld (Option (Except Failure (UploadInfo Meta))) where
  snap := ⟨.start, []⟩
  pool
    | 0 => some (Prog.bind ((uploadParallel client options rounds len metadata).into asPar)
        fun r => .done (some r))
    | i + 1 => some (Prog.bind (withPartProgress 0 (partTask client rounds partMetadata i))
        fun _ => .done none)

/-! ## The tasks keep within their parts -/

/-- The operation hands a part of the source to a task, if anything. -/
def ParOp.Hands (len partSize : Nat) : ParOp → Prop
  | .spawn i _ bytes => i < divCeil len partSize ∧ bytes.length = (partRange len partSize i).2
  | _ => True

/-- The operation of a task that reports no more than `n` bytes. -/
def ParOp.Reports (n : Nat) : ParOp → Prop
  | .spawn _ _ _ => False
  | .net true (.onProgress uploaded _) => uploaded ≤ n
  | _ => True

section Parts

variable {Meta : Type} {client : ParallelClient Meta} {options : ParallelUpload} {len : Nat}

/-- A part reports no more than it holds. -/
theorem uploadParallelPart_reports (rounds : Nat) (metadata : Meta) (index : Nat) (bytes : Bytes)
    (capabilities : Option (List String)) :
    ((uploadParallelPart client rounds metadata index bytes capabilities).into (asNet true)).Ops
      (ParOp.Reports bytes.length) := by
  have hresume : ∀ info : UploadInfo Meta, Prog.Ops (fun o => ParOp.Reports bytes.length (.net true o))
      (Prog.bind (resumeLoop client.toClient info.url bytes.length rounds 0 none (some info))
        fun result => .done (some info.url, result)) := by
    intro info
    refine Prog.Ops.bind (resumeLoop_ops trivial trivial (fun _ _ => trivial) (fun _ _ => trivial)
      (fun _ h => h) (fun o ho => ?_) _ _ _ _) fun _ => trivial
    cases o with
    | onProgress n m => exact ho.elim
    | _ => trivial
  have hcreate : ∀ body : Option Bytes, Prog.Ops (fun o => ParOp.Reports bytes.length (.net true o))
      (createUploadRequest client.toClient bytes.length body metadata) := by
    refine fun body => (createUploadRequest_quiet body metadata).mono fun o ho => ?_
    cases o with
    | onProgress n m => exact ho.elim
    | _ => trivial
  have hops : Prog.Ops (fun o => ParOp.Reports bytes.length (.net true o))
      (uploadPartialWithCapabilities client rounds bytes metadata capabilities) := by
    refine .ite ?_ ?_
    · refine (readLoop_ops (fun _ _ => trivial) _ _ _ _ _).bind fun body => ?_
      cases body with
      | error e => trivial
      | ok body =>
        refine (hcreate (some body)).bind_yields (createUploadRequest_within _ _)
          fun upload hwithin => ?_
        cases upload with
        | error e => trivial
        | ok upload => exact ⟨hwithin upload rfl, fun _ => .ite trivial (hresume upload)⟩
    · refine (hcreate none).bind fun upload => ?_
      cases upload with
      | error e => trivial
      | ok upload => exact hresume upload
  have hpart : Prog.Ops (fun o => ParOp.Reports bytes.length (.net true o))
      (uploadParallelPart client rounds metadata index bytes capabilities) :=
    hops.bind fun _ => trivial
  exact hpart.into (asNet true) fun _ h => h

/-- What is read for a part has the length of the part. -/
theorem spawnNext_hands (capabilities : List String) (v : Parts)
    (hnext : v.nextIndex < partCount options len) :
    (spawnNext options len capabilities v).Ops (ParOp.Hands len options.partSize) := by
  have hlength : ((readParallelPart len options.partSize v.nextIndex).into (asNet false)).Yields
      fun r => ∀ bytes, r = .ok bytes →
        bytes.length = (partRange len options.partSize v.nextIndex).2 :=
    Prog.Yields.into _ (readLoop_length _ _ _ _ [] (Nat.zero_le _) (Nat.zero_add _).ge)
  have hread : ((readParallelPart len options.partSize v.nextIndex).into (asNet false)).Ops
      (ParOp.Hands len options.partSize) :=
    (Prog.ops_trivial _ fun _ => trivial).into (A := fun _ => True) _ fun _ _ => trivial
  refine hread.bind_yields hlength fun r hr => ?_
  cases r with
  | error e => trivial
  | ok bytes => exact ⟨⟨hnext, hr bytes rfl⟩, fun _ => trivial⟩

theorem spawnLoop_hands (capabilities : List String) (rounds : Nat) (v : Parts) :
    (spawnLoop options len capabilities rounds v).Ops (ParOp.Hands len options.partSize) := by
  induction rounds generalizing v with
  | zero => trivial
  | succ n ih =>
    refine .cases (fun h => (spawnNext_hands capabilities v h.1).bind fun r => ?_) fun _ => trivial
    obtain ⟨v, error⟩ := r
    cases error with
    | none => exact ih v
    | some error => trivial

theorem joinLoop_hands (capabilities : List String) (rounds : Nat) (v : Parts) :
    (joinLoop options len capabilities rounds v).Ops (ParOp.Hands len options.partSize) := by
  induction rounds generalizing v with
  | zero => trivial
  | succ n ih =>
    refine .ite trivial ⟨trivial, fun a => ?_⟩
    obtain ⟨index, outcome⟩ := a
    cases outcome with
    | error joinError => trivial
    | ok outcome =>
      obtain ⟨index, createdUrl, result⟩ := outcome
      cases result with
      | error error => trivial
      | ok url =>
        refine .cases (fun h => (spawnNext_hands capabilities _ h).bind fun r => ?_)
          fun _ => ih _
        obtain ⟨v, error⟩ := r
        cases error with
        | none => exact ih v
        | some error => trivial

theorem drainLoop_hands (rounds : Nat) (v : Parts) :
    (drainLoop rounds v).Ops (ParOp.Hands len options.partSize) := by
  induction rounds generalizing v with
  | zero => trivial
  | succ n ih => exact .ite trivial ⟨trivial, fun _ => ih _⟩

theorem cleanup_hands (urls : List (Option String)) :
    (cleanupPartialUploads client urls).Ops (ParOp.Hands len options.partSize) := by
  induction urls with
  | nil => trivial
  | cons url urls ih =>
    cases url with
    | none => exact ih
    | some url =>
      unfold cleanupPartialUploads
      split
      · exact ih
      · refine ⟨trivial, fun headers => ?_⟩
        cases headers with
        | error e => exact ih
        | ok _ => exact ⟨trivial, fun _ => ih⟩

theorem net_hands {α : Type} (p : Prog NetSig α) :
    (p.into (asNet false)).Ops (ParOp.Hands len options.partSize) :=
  (Prog.ops_trivial p fun _ => trivial).into (A := fun _ => True) _ fun _ _ => trivial

theorem concludeParts_hands (r : Parts × Option Error) :
    (concludeParts client r).Ops (ParOp.Hands len options.partSize) := by
  obtain ⟨v, error⟩ := r
  cases error with
  | some error =>
    exact ⟨trivial, fun _ => (drainLoop_hands _ _).bind fun v =>
      (cleanup_hands _).bind fun _ => trivial⟩
  | none =>
    simp only [concludeParts]
    cases collectUrls v.partUrls with
    | none => trivial
    | some urls =>
      have hconcat : (concatenateUploads client urls).Ops (ParOp.Hands len options.partSize) := by
        unfold concatenateUploads
        split
        · trivial
        · refine ⟨trivial, fun r => ?_⟩
          cases r with
          | error e => trivial
          | ok r =>
            dsimp only
            split
            · trivial
            · exact net_hands _
      exact hconcat.bind fun _ => trivial

/-- What `upload_parallel` hands to the task of a part has the length of that part. -/
theorem uploadParallel_hands (rounds : Nat) (metadata : Meta) :
    (uploadParallel client options rounds len metadata).Ops
      (ParOp.Hands len options.partSize) := by
  refine .ite ((net_hands _).bind fun _ => trivial) ⟨trivial, fun r => ?_⟩
  cases r with
  | error e => trivial
  | ok capabilities =>
    refine .ite ?_ trivial
    refine (spawnLoop_hands _ _ _).bind fun r => ?_
    obtain ⟨v, error⟩ := r
    cases error with
    | some error => exact concludeParts_hands _
    | none => exact (joinLoop_hands _ _ _).bind concludeParts_hands

end Parts

/-! ## The shared sum -/

section Shared

variable {len partSize : Nat}

/-- The sum is what the parts have added, no part adds more than it holds, and what was
reported is behind the sum. -/
structure Sums (len partSize : Nat) (w : ProgressWorld) : Prop where
  handed : ∀ i bytes, w.handed i = some bytes →
    i < divCeil len partSize ∧ bytes.length = (partRange len partSize i).2
  sum : w.uploaded = ∑ i ∈ Finset.range (divCeil len partSize), w.added i
  bounded : ∀ i < divCeil len partSize, w.added i ≤ (partRange len partSize i).2
  behind : w.reported ≤ w.uploaded
  last : UpTo w.reported w.reports
  ordered : Ordered len w.reports

/-- The sum grows, and nobody else adds for the part of a task. -/
def AddRely (t : Nat) (w w' : ProgressWorld) : Prop :=
  w.uploaded ≤ w'.uploaded ∧ ∀ i, t = i + 1 → w'.added i = w.added i

theorem addRely_refl (t : Nat) (w : ProgressWorld) : AddRely t w w := ⟨le_rfl, fun _ _ => rfl⟩

theorem progress_lawful :
    (Discipline.mutual (Sums len partSize) AddRely : Discipline ProgressSig ProgressWorld).Lawful
      (progressMachine len) := by
  refine Discipline.mutual_lawful addRely_refl ?_ (fun _ _ _ he => he.elim) ?_
  · intro t w₁ w₂ w₃ h₁ h₂
    exact ⟨h₁.1.trans h₂.1, fun i ht => (h₂.2 i ht).trans (h₁.2 i ht)⟩
  · rintro t w w' hi rfl
    exact ⟨hi, fun u _ => addRely_refl u w'⟩

/-- The lengths of the first parts. -/
theorem sum_lengths (hps : 0 < partSize) (hlen : len < 2 ^ 64) (k : Nat)
    (hk : k ≤ divCeil len partSize) :
    ∑ i ∈ Finset.range k, (partRange len partSize i).2 = min (k * partSize) len := by
  induction k with
  | zero => simp
  | succ k ih =>
    have hstart : k * partSize < len := (lt_divCeil hps).mp hk
    rw [Finset.sum_range_succ, ih (Nat.le_of_succ_le hk), partRange_eq hlen hstart, Nat.succ_mul]
    change min (k * partSize) len + min (len - k * partSize) partSize = _
    omega

theorem Sums.uploaded_le {w : ProgressWorld} (h : Sums len partSize w) (hps : 0 < partSize)
    (hlen : len < 2 ^ 64) : w.uploaded ≤ len := by
  calc w.uploaded = ∑ i ∈ Finset.range (divCeil len partSize), w.added i := h.sum
    _ ≤ ∑ i ∈ Finset.range (divCeil len partSize), (partRange len partSize i).2 :=
      Finset.sum_le_sum fun i hi => h.bounded i (Finset.mem_range.mp hi)
    _ = min (divCeil len partSize * partSize) len := sum_lengths hps hlen _ le_rfl
    _ ≤ len := Nat.min_le_right _ _

/-- An addition within its part keeps the sums. -/
theorem Sums.add {w : ProgressWorld} (h : Sums len partSize w) {i delta : Nat}
    (hi : i < divCeil len partSize) (hfit : w.added i + delta ≤ (partRange len partSize i).2) :
    Sums len partSize (w.add i delta) where
  handed := h.handed
  sum := by
    have hupdate : ∀ j, (w.add i delta).added j = w.added j + if j = i then delta else 0 := by
      intro j
      by_cases hj : j = i
      · subst hj
        simp [ProgressWorld.add]
      · simp [ProgressWorld.add, hj]
    simp only [hupdate, Finset.sum_add_distrib, ← h.sum]
    rw [Finset.sum_ite_eq', if_pos (Finset.mem_range.mpr hi)]
    rfl
  bounded j hj := by
    by_cases hji : j = i
    · subst hji
      simpa [ProgressWorld.add] using hfit
    · simpa [ProgressWorld.add, hji] using h.bounded j hj
  behind := h.behind.trans (Nat.le_add_right _ _)
  last := h.last
  ordered := h.ordered

theorem add_rely (w : ProgressWorld) (i delta u : Nat) (hu : u ≠ i + 1) :
    AddRely u w (w.add i delta) := by
  refine ⟨Nat.le_add_right _ _, ?_⟩
  rintro j rfl
  have hj : j ≠ i := fun h => hu (congrArg (· + 1) h)
  exact Function.update_of_ne hj _ _

/-- The section under the lock reports nothing beyond the sum and never less than before. -/
theorem Sums.report {w : ProgressWorld} (h : Sums len partSize w) (hps : 0 < partSize)
    (hlen : len < 2 ^ 64) {uploaded : Nat} (hle : uploaded ≤ w.uploaded) :
    Sums len partSize (w.report len uploaded) := by
  unfold ProgressWorld.report
  split
  · next hgt =>
    obtain ⟨hordered, hlast⟩ := h.ordered.deliver (h.last.mono hgt.le)
      (hle.trans (h.uploaded_le hps hlen))
    exact ⟨h.handed, h.sum, h.bounded, hle, hlast, hordered⟩
  · exact h

theorem report_rely (w : ProgressWorld) (total uploaded t : Nat) :
    AddRely t w (w.report total uploaded) := by
  unfold ProgressWorld.report
  split
  · exact ⟨le_rfl, fun _ _ => rfl⟩
  · exact addRely_refl t w

abbrev Sharing (len partSize t : Nat) {α : Type} (P : ProgressWorld → Prop)
    (p : Prog ProgressSig α) (Q : α → ProgressWorld → Prop) : Prop :=
  Triple (progressMachine len) (Sums len partSize) AddRely t P p Q

theorem added_stable (i n : Nat) : Stable AddRely (i + 1) fun w => w.added i = n :=
  fun _ _ h hr => (hr.2 i rfl).trans h

/-- What a part has added is the field `last` of its `PartProgress`. -/
theorem partOnProgress_spec (hps : 0 < partSize) (hlen : len < 2 ^ 64) {i last uploaded : Nat}
    (hi : i < divCeil len partSize) (hlast : last ≤ (partRange len partSize i).2)
    (hup : uploaded ≤ (partRange len partSize i).2) :
    Sharing len partSize (i + 1) (fun w => w.added i = last) (partOnProgress last uploaded)
      fun r w => w.added i = r ∧ r ≤ (partRange len partSize i).2 := by
  refine Triple.ite (fun hgt => ?_) fun _ => Triple.done fun w h => ⟨h, hlast⟩
  refine Triple.bind (fun _ w => w.added i = uploaded) ?_ fun _ => Triple.done fun w h => ⟨h, hup⟩
  refine Triple.ite (fun hzero => by omega) fun _ => ?_
  refine Triple.step (fun (before : Nat) w => w.added i = uploaded ∧
    before + (uploaded - last) ≤ w.uploaded) (added_stable i last) ?_ fun before => ?_
  · rintro w before w' hsums rfl ⟨⟩
    have hnow : w.added i + (uploaded - w.added i) = uploaded := Nat.add_sub_cancel' hgt.le
    refine ⟨⟨hsums.add hi (hnow.trans_le hup), fun u hu => add_rely w i _ u hu⟩, ?_, le_rfl⟩
    simpa [ProgressWorld.add] using hnow
  · refine Triple.step (fun _ w => w.added i = uploaded) ?_ ?_ fun _ => Triple.done fun _ h => h
    · exact fun w w' h hr => ⟨added_stable i uploaded w w' h.1 hr, h.2.trans hr.1⟩
    · rintro w _ w' hsums ⟨hadded, hle⟩ ⟨⟩
      refine ⟨⟨hsums.report hps hlen hle, fun u _ => report_rely w len _ u⟩, ?_⟩
      exact ((report_rely w len _ (i + 1)).2 i rfl).trans hadded

theorem partReport_le {o : ParOp} {n uploaded : Nat} {a : ParSig.Ans o}
    (h : partReport o = some (uploaded, a)) (hreports : o.Reports n) : uploaded ≤ n := by
  unfold partReport at h
  split at h
  · cases h
    exact hreports
  · cases h

/-- A task that reports no more than its part holds keeps the sums. -/
theorem withPartProgress_spec (hps : 0 < partSize) (hlen : len < 2 ^ 64) {α : Type} {i last : Nat}
    (hi : i < divCeil len partSize) (p : Par α)
    (hops : p.Ops (ParOp.Reports (partRange len partSize i).2))
    (hlast : last ≤ (partRange len partSize i).2) :
    Sharing len partSize (i + 1) (fun w => w.added i = last) (withPartProgress last p)
      fun _ _ => True := by
  induction p generalizing last with
  | done a => exact Triple.done fun _ _ => trivial
  | step o k ih =>
    unfold withPartProgress
    split
    · next uploaded a hreport =>
      refine Triple.bind _
        (partOnProgress_spec hps hlen hi hlast (partReport_le hreport hops.1)) fun r => ?_
      exact fun s hs => ih a (hops.2 a) hs.2 s hs.1
    · refine Triple.step (fun _ w => w.added i = last) (added_stable i last) ?_ fun a =>
        ih a (hops.2 a) hlast
      rintro w a w' hsums hadded he
      cases he with
      | spawn => exact hops.1.elim
      | start hhanded => exact ⟨⟨hsums, fun u _ => addRely_refl u w⟩, hadded⟩
      | other => exact ⟨⟨hsums, fun u _ => addRely_refl u w⟩, hadded⟩

/-- A task starts with `last` at zero and with the bytes of its part. -/
theorem partTask_reports {Meta : Type} {client : ParallelClient Meta} (hps : 0 < partSize)
    (hlen : len < 2 ^ 64) (rounds : Nat) (metadata : Meta) (i : Nat) :
    Sharing len partSize (i + 1) (fun w => w.added i = 0)
      (withPartProgress 0 (partTask client rounds metadata i)) fun _ _ => True := by
  refine Triple.step (fun (a : List String × Bytes) w => w.added i = 0 ∧
    i < divCeil len partSize ∧ a.2.length = (partRange len partSize i).2) (added_stable i 0) ?_ ?_
  · rintro w a w' hsums hadded he
    cases he with
    | start hhanded =>
      exact ⟨⟨hsums, fun u _ => addRely_refl u w⟩, hadded, hsums.handed i _ hhanded⟩
    | other _ hne => exact absurd rfl hne
  · rintro ⟨capabilities, bytes⟩ s ⟨hadded, hi, hbytes⟩
    have hops : (Prog.bind ((uploadParallelPart client rounds metadata i bytes
        (some capabilities)).into (asNet true)) fun outcome =>
          (.step (.finish outcome) fun _ => .done () : Par Unit)).Ops
        (ParOp.Reports (partRange len partSize i).2) := by
      rw [← hbytes]
      exact (uploadParallelPart_reports rounds metadata i bytes (some capabilities)).bind
        fun _ => ⟨trivial, fun _ => trivial⟩
    exact withPartProgress_spec hps hlen hi _ hops (Nat.zero_le _) s hadded

/-- What `upload_parallel` does itself leaves the sums alone. -/
theorem uploadParallel_reports {Meta : Type} {client : ParallelClient Meta}
    {options : ParallelUpload} (rounds : Nat) (metadata : Meta) :
    Sharing len options.partSize 0 (fun _ => True)
      ((uploadParallel client options rounds len metadata).into asPar) fun _ _ => True := by
  have hops : ((uploadParallel client options rounds len metadata).into asPar).Ops
      fun o => ∃ o' : ParOp, o = ProgressOp.par o' ∧ o'.Hands len options.partSize :=
    (uploadParallel_hands rounds metadata).into asPar fun o h => ⟨o, rfl, h⟩
  refine Triple.keep (fun _ _ _ _ => trivial) ?_ hops
  rintro _ w a w' ⟨o, rfl, hhands⟩ hsums - he
  cases he with
  | @spawn _ _ i _ bytes =>
    refine ⟨⟨⟨fun j bytes' hj => ?_, hsums.sum, hsums.bounded, hsums.behind, hsums.last,
      hsums.ordered⟩, fun u _ => ⟨le_rfl, fun _ _ => rfl⟩⟩, trivial⟩
    by_cases hji : j = i
    · subst hji
      obtain rfl : bytes = bytes' := by simpa using hj
      exact hhands
    · exact hsums.handed j bytes' (by simpa [hji] using hj)
  | other => exact ⟨⟨hsums, fun u _ => addRely_refl u w⟩, trivial⟩

/-- The reports of a parallel upload are ordered in every interleaving. -/
theorem parallel_ordered {Meta : Type} {client : ParallelClient Meta} {options : ParallelUpload}
    (hlen : len < 2 ^ 64) {rounds : Nat} {metadata partMetadata : Meta}
    {c : Interaction.Config ProgressSig ProgressWorld (Option (Except Failure (UploadInfo Meta)))}
    (hrun : Reach (progressMachine len)
      (reportParallel client options rounds len metadata partMetadata) c) :
    Ordered len c.snap.world.reports := by
  have hstart : Sums len options.partSize .start := by
    refine ⟨nofun, ?_, fun _ _ => Nat.zero_le _, le_rfl, List.forall_mem_nil _,
      .nil, List.forall_mem_nil _⟩
    simp [ProgressWorld.start]
  refine (Triple.reach (P := fun t w => ∀ i, t = i + 1 → w.added i = 0) (Q := fun _ _ _ => True)
    progress_lawful hstart (fun t p hp => ?_) hrun).ordered
  cases t with
  | zero =>
    obtain rfl := Option.some.inj hp
    refine ⟨nofun, ?_⟩
    refine Triple.bind _ ((uploadParallel_reports rounds metadata).weaken (fun _ _ => trivial)
      fun _ _ h => h) fun _ => Triple.done fun _ _ => trivial
  | succ i =>
    obtain rfl := Option.some.inj hp
    refine ⟨fun _ _ => rfl, ?_⟩
    refine Triple.bind _ ((partTask_reports options.partSize_pos hlen rounds partMetadata i).weaken
      (fun w h => h i rfl) fun _ _ h => h) fun _ => Triple.done fun _ _ => trivial

end Shared

/-- In one upload call the counts a progress callback is given never decrease and never
exceed the total: for one client while no HEAD reports less than the callback was given, and
in every interleaving of the parts of a parallel upload. -/
theorem progress_monotone {Meta : Type} (client : ParallelClient Meta) (options : ParallelUpload)
    (len : Nat) (hlen : len < 2 ^ 64) :
    (∀ (p : Net (UploadInfo Meta))
      (c : Interaction.Config NetSig (List (Nat × Nat)) (Except Error (UploadInfo Meta))),
      Call client.toClient len p → Reach reportMachine (Interaction.Config.only 0 p ⟨[], []⟩) c →
      (∀ e ∈ c.snap.hist, Steady client.toClient e) → Ordered len c.snap.world) ∧
    ∀ (rounds : Nat) (metadata partMetadata : Meta)
      (c : Interaction.Config ProgressSig ProgressWorld (Option (Except Failure (UploadInfo Meta)))),
      Reach (progressMachine len)
        (reportParallel client options rounds len metadata partMetadata) c →
      Ordered len c.snap.world.reports :=
  ⟨fun _ _ hp hrun hsteady => call_ordered hp hrun hsteady,
    fun _ _ _ _ hrun => parallel_ordered hlen hrun⟩

/-- A parallel upload of one part, sent byte by byte, reports 1 and 2. -/
theorem progress_monotone_two :
    ∃ c, Reach (progressMachine 2) (reportParallel plainClient (.new 8) 1 2 () ()) c ∧
      c.snap.world.reports = [(2, 2), (1, 2)] ∧ Ordered 2 c.snap.world.reports := by
  have h := Reach.run (M := progressMachine 2) .refl
    (c := reportParallel plainClient (.new 8) 1 2 () ())
    0 (.par (.net false .options)) (.ok ["concatenation"]) rfl (.other nofun nofun)
  have h := h.run 0 (.par (.net false (.readChunk 0 2))) (.ok [1, 2]) rfl (.other nofun nofun)
  have h := h.run 0 (.par (.spawn 0 ["concatenation"] [1, 2])) () rfl .spawn
  have h := h.run 1 (.par .start) (["concatenation"], [1, 2]) rfl (.start rfl)
  have h := h.run 1 (.par (.net true (.post 2 none)))
    (.ok ⟨201, some "a", none, none, none, none⟩) rfl (.other nofun nofun)
  have h := h.run 1 (.par (.net true (.readChunk 0 2))) (.ok [1]) rfl (.other nofun nofun)
  have h := h.run 1 (.par (.net true (.patch "a" 0 [1]))) (.ok (reporting 204 "1")) rfl
    (.other nofun nofun)
  have h := h.run 1 (.fetchAdd 1) (0 : Nat) rfl .fetchAdd
  have h := h.run 1 (.report 1) () rfl .report
  have h := h.run 1 (.par (.net true (.readChunk 1 1))) (.ok [2]) rfl (.other nofun nofun)
  have h := h.run 1 (.par (.net true (.patch "a" 1 [2]))) (.ok (reporting 204 "2")) rfl
    (.other nofun nofun)
  have h := h.run 1 (.fetchAdd 1) (1 : Nat) rfl .fetchAdd
  have h := h.run 1 (.report 2) () rfl .report
  exact ⟨_, h, rfl, (progress_monotone plainClient (.new 8) 2 (by decide)).2 _ _ _ _ h⟩

/-- After a reset connection the HEAD reports nothing of the two bytes that were
acknowledged: the callback is given 1, 2 and 1. -/
theorem regressed_progress :
    ∃ p c, Call (byteClient 1) 3 p ∧ Reach reportMachine (Interaction.Config.only 0 p ⟨[], []⟩) c ∧
      c.snap.world = [(1, 3), (2, 3), (1, 3)] ∧ ¬Ordered 3 c.snap.world := by
  have h := Reach.run (M := reportMachine) .refl
    (c := Interaction.Config.only 0 (resumeAt (byteClient 1) 2 "u" 3) ⟨[], []⟩)
    0 (.head "u") (.ok (reporting 200 "0")) rfl rfl
  have h := h.run 0 (.readChunk 0 1) (.ok [1]) rfl rfl
  have h := h.run 0 (.patch "u" 0 [1]) (.ok (reporting 204 "1")) rfl rfl
  have h := h.run 0 (.onProgress 1 3) () rfl rfl
  have h := h.run 0 (.readChunk 1 1) (.ok [2]) rfl rfl
  have h := h.run 0 (.patch "u" 1 [2]) (.ok (reporting 204 "2")) rfl rfl
  have h := h.run 0 (.onProgress 2 3) () rfl rfl
  have h := h.run 0 (.readChunk 2 1) (.ok [3]) rfl rfl
  have h := h.run 0 (.patch "u" 2 [3]) (.error reset) rfl rfl
  have h := h.run 0 (.sleep 0) () rfl rfl
  have h := h.run 0 (.head "u") (.ok (reporting 200 "0")) rfl rfl
  have h := h.run 0 (.readChunk 0 1) (.ok [1]) rfl rfl
  have h := h.run 0 (.patch "u" 0 [1]) (.ok (reporting 204 "1")) rfl rfl
  have h := h.run 0 (.onProgress 1 3) () rfl rfl
  refine ⟨_, _, .resume 2 "u", h, rfl, fun hordered => ?_⟩
  have hsorted := hordered.sorted
  revert hsorted
  decide

end Uploader

end TusRs
