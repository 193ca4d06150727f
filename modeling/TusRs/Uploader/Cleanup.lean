import TusRs.Uploader.Reassembly

/-!
# What a failed parallel upload leaves behind

A failed parallel upload deletes the partial uploads it knows of. It knows those reported by
the tasks it joins; what an aborted or panicked task had created, and what stands when the
concatenation itself fails, is left on the server.

* `cleanup_deletes`: in a run in which none of this happens every partial upload is deleted.
* `abort_leaves_partial`: an aborted task leaves its upload behind.
-/

namespace TusRs

open Interaction

namespace Uploader

section Conditions

variable {Meta : Type} (client : ParallelClient Meta)

/-- The response to a creation passes the checks of the client. -/
def CreationAccepted (body : Option Bytes) (length : Nat) (r : Response) : Prop :=
  ∃ location url offset, headerString r.location "Location" = .ok location ∧
    client.resolveServerLocation location = .ok url ∧
    createdOffset body.isSome length r = .ok offset

/-- The response to a HEAD passes the checks of the client. -/
def InfoAccepted (r : Response) : Prop :=
  (r.status = 200 ∨ r.status = 204) ∧ ∃ offset length metadata,
    headerU64 r.uploadOffset "Upload-Offset" = .ok offset ∧
    optionalHeaderU64 r.uploadLength "Upload-Length" = .ok length ∧
    client.decodeMetadata r.uploadMetadata = .ok metadata

/-- The steps in which no partial upload gets out of sight: a task that is lost was not
answered a creation, the answer to a creation is usable, the concatenation succeeds, and a
DELETE gets its headers. -/
def Orderly (e : Event ParSig ParWorld) : Prop :=
  match e with
  | ⟨_, .net true (.post length body), answer, _⟩ =>
    ∀ r, (show Except Error Response from answer) = .ok r → r.status = 201 →
      CreationAccepted client body length r
  | ⟨_, .net false (.head _), answer, before⟩ => before.concats ≠ [] →
    ∃ r, (show Except Error Response from answer) = .ok r ∧ InfoAccepted client r
  | ⟨_, .join _, answer, before⟩ =>
    ∀ i message, (show Nat × Except String PartOutcome from answer) = (i, .error message) →
      ∀ url, (i + 1, url) ∉ before.received
  | ⟨_, .concat _, answer, _⟩ => ∃ r url,
    (show Except Error Response from answer) = .ok r ∧ concatenatedUrl client r = .ok url
  | ⟨_, .headers, answer, _⟩ => (show Except Error Unit from answer) = .ok ()
  | _ => True

end Conditions

/-! ## What every thread keeps -/

/-- The partial uploads whose creation was answered to thread `t` are exactly `url`. -/
def Got (t : Nat) (url : Option String) (w : ParWorld) : Prop :=
  ∀ u, (t, u) ∈ w.received ↔ url = some u

/-- The task has not started, or will not run again. -/
def Quiet (task : Task) : Prop := task = .idle ∨ task = .joined

/-- An outcome tells of the upload its task has created; its URLs come from the server. -/
structure Tells (resolve : String → Except Error String) (i : Nat) (outcome : PartOutcome)
    (w : ParWorld) : Prop where
  index : outcome.index = i
  created : Got (i + 1) outcome.createdUrl w
  createdUrl : ∀ url, outcome.createdUrl = some url → Resolved resolve url
  result : ∀ url, outcome.result = .ok url → Resolved resolve url

/-- A task that has not started has created nothing, and finished tasks tell of what they
have created. -/
structure CleanInv (resolve : String → Except Error String) (w : ParWorld) : Prop where
  idle : ∀ i, w.tasks i = .idle → Got (i + 1) none w
  finished : ∀ i outcome, w.tasks i = .finished outcome → Tells resolve i outcome w

/-- What thread `t` relies on: creations are answered to their own thread, and only thread
`0` spawns and joins tasks, concatenates and deletes. -/
structure CleanRely (t : Nat) (w w' : ParWorld) : Prop where
  own : ∀ u, (t, u) ∈ w'.received ↔ (t, u) ∈ w.received
  quiet : t = 0 → ∀ i, Quiet (w.tasks i) → w'.tasks i = w.tasks i ∧
    ∀ u, (i + 1, u) ∈ w'.received ↔ (i + 1, u) ∈ w.received
  logs : t = 0 → w'.concats = w.concats ∧ w'.deleted = w.deleted

section Keeping

variable {resolve : String → Except Error String} {t : Nat} {w w' w'' : ParWorld}

theorem cleanRely_refl (w : ParWorld) : CleanRely t w w :=
  ⟨fun _ => Iff.rfl, fun _ _ _ => ⟨rfl, fun _ => Iff.rfl⟩, fun _ => ⟨rfl, rfl⟩⟩

theorem CleanRely.trans (h : CleanRely t w w') (h' : CleanRely t w' w'') : CleanRely t w w'' where
  own u := (h'.own u).trans (h.own u)
  quiet h0 i hi := by
    obtain ⟨htask, hgot⟩ := h.quiet h0 i hi
    obtain ⟨htask', hgot'⟩ := h'.quiet h0 i (htask ▸ hi)
    exact ⟨htask'.trans htask, fun u => (hgot' u).trans (hgot u)⟩
  logs h0 := ⟨(h'.logs h0).1.trans (h.logs h0).1, (h'.logs h0).2.trans (h.logs h0).2⟩

theorem Got.rely {url : Option String} (h : Got t url w) (hr : CleanRely t w w') : Got t url w' :=
  fun u => (hr.own u).trans (h u)

theorem got_stable (url : Option String) : Stable CleanRely t (Got t url) :=
  fun _ _ h hr => h.rely hr

theorem Tells.received {i : Nat} {outcome : PartOutcome} (h : Tells resolve i outcome w)
    (heq : w'.received = w.received) : Tells resolve i outcome w' :=
  ⟨h.index, fun u => heq ▸ h.created u, h.createdUrl, h.result⟩

/-- A step that leaves the tasks and what they have created. -/
theorem CleanInv.same (h : CleanInv resolve w) (htasks : w'.tasks = w.tasks)
    (hreceived : w'.received = w.received) : CleanInv resolve w' := by
  refine ⟨fun i hi u => ?_, fun i outcome hi => ?_⟩
  · rw [hreceived]
    exact h.idle i (htasks ▸ hi) u
  · exact (h.finished i outcome (htasks ▸ hi)).received hreceived

theorem cleanRely_same (htasks : w'.tasks = w.tasks) (hreceived : w'.received = w.received)
    (hlogs : t = 0 → w'.concats = w.concats ∧ w'.deleted = w.deleted) : CleanRely t w w' := by
  refine ⟨fun u => by rw [hreceived], fun _ i _ => ⟨by rw [htasks], fun u => by rw [hreceived]⟩,
    hlogs⟩

/-- A step of one task. -/
theorem CleanInv.task (hi : CleanInv resolve w) {i : Nat} {task : Task} (htask : task ≠ .idle)
    (htells : ∀ outcome, task = .finished outcome → Tells resolve i outcome w) :
    CleanInv resolve (w.setTask i task) := by
  refine ⟨fun j hj => ?_, fun j outcome hj => ?_⟩
  · by_cases hji : j = i
    · subst hji
      simp only [ParWorld.setTask, Function.update_self] at hj
      exact absurd hj htask
    · simp only [ParWorld.setTask, Function.update_of_ne hji] at hj
      exact hi.idle j hj
  · by_cases hji : j = i
    · subst hji
      simp only [ParWorld.setTask, Function.update_self] at hj
      exact (htells outcome hj).received rfl
    · simp only [ParWorld.setTask, Function.update_of_ne hji] at hj
      exact (hi.finished j outcome hj).received rfl

theorem cleanRely_task {i : Nat} {task : Task} (h : ¬Quiet (w.tasks i) ∨ t ≠ 0) :
    CleanRely t w (w.setTask i task) := by
  refine ⟨fun _ => Iff.rfl, fun h0 j hj => ⟨?_, fun _ => Iff.rfl⟩, fun _ => ⟨rfl, rfl⟩⟩
  have hji : j ≠ i := by
    rintro rfl
    rcases h with h | h
    · exact h hj
    · exact h h0
  simp only [ParWorld.setTask, Function.update_of_ne hji]

theorem not_quiet_running {i : Nat} {capabilities : List String} {bytes : Bytes}
    (h : w.tasks i = .running capabilities bytes) : ¬Quiet (w.tasks i) := by
  rw [h]
  rintro (h | h) <;> cases h

end Keeping

section System

variable {source : Bytes} {Meta : Type} {client : ParallelClient Meta}

/-- The machine on which every step is orderly. -/
abbrev orderlyMachine (client : ParallelClient Meta) (source : Bytes) : Machine ParSig ParWorld :=
  (parMachine client source).restrict (Orderly client)

theorem cleanup_lawful :
    (Discipline.mutual (CleanInv client.resolveServerLocation) CleanRely :
      Discipline ParSig ParWorld).Lawful (orderlyMachine client source) := by
  refine Discipline.mutual_lawful (fun _ w => cleanRely_refl w)
    (fun _ _ _ _ h₁ h₂ => h₁.trans h₂) ?_ ?_
  · rintro w w' hi ⟨q, hq, server, happ, rfl⟩
    exact ⟨hi.same rfl rfl, fun u => cleanRely_same rfl rfl fun _ => ⟨rfl, rfl⟩⟩
  · rintro t w w' hi (⟨-, rfl⟩ | ⟨i, capabilities, bytes, -, hrun, rfl⟩)
    · exact ⟨hi, fun _ _ => cleanRely_refl w'⟩
    · exact ⟨hi.task nofun nofun, fun u _ => cleanRely_task (.inl (not_quiet_running hrun))⟩

abbrev CleanSpec (client : ParallelClient Meta) (source : Bytes) (t : Nat) {α : Type}
    (P : ParWorld → Prop) (p : Par α) (Q : α → ParWorld → Prop) : Prop :=
  Triple (orderlyMachine client source) (CleanInv client.resolveServerLocation) CleanRely t P p Q

/-- An assertion that does not speak of what the server stores. -/
def Aside (P : ParWorld → Prop) : Prop :=
  ∀ w w', w'.tasks = w.tasks → w'.received = w.received → w'.concats = w.concats →
    w'.deleted = w.deleted → P w → P w'

/-- A step that leaves the tasks, what was created, and the requests of thread `0`. -/
theorem aside_safe {t : Nat} {w w' : ParWorld} (hi : CleanInv client.resolveServerLocation w)
    (htasks : w'.tasks = w.tasks) (hreceived : w'.received = w.received)
    (hlogs : t = 0 ∨ w'.concats = w.concats ∧ w'.deleted = w.deleted) :
    Safe (CleanInv client.resolveServerLocation) CleanRely t w w' :=
  ⟨hi.same htasks hreceived, fun _ hu => cleanRely_same htasks hreceived fun h0 =>
    hlogs.resolve_left fun ht => hu (h0.trans ht.symm)⟩

theorem net_exec {t : Nat} {isPart : Bool} {o : NetOp} {w w' : ParWorld} {a : NetSig.Ans o}
    (ho : isPart = false ∨ o.isPost = false)
    (he : ParExec source client.resolveServerLocation t (.net isPart o) w a w') :
    w'.tasks = w.tasks ∧ w'.received = w.received ∧ w'.concats = w.concats ∧
      w'.deleted = w.deleted := by
  cases he with
  | net => exact ⟨rfl, rfl, rfl, rfl⟩
  | created =>
    rcases ho with rfl | ho
    · exact ⟨rfl, by simp [ParWorld.receive, ParWorld.create], rfl, rfl⟩
    · cases ho
  | notCreated => exact ⟨rfl, rfl, rfl, rfl⟩
  | postLost => exact ⟨rfl, rfl, rfl, rfl⟩

/-- What creates no part keeps every assertion that does not speak of the server. -/
theorem loop_keep {t : Nat} {isPart : Bool} {α : Type} {P : ParWorld → Prop} {p : Prog NetSig α}
    (hP : Stable CleanRely t P) (hset : Aside P)
    (hp : p.Ops fun (o : NetOp) => isPart = false ∨ o.isPost = false) :
    CleanSpec client source t P (p.into (asNet isPart)) (fun _ => P) := by
  refine Triple.keep (A := fun (o : ParOp) => ∃ o' : NetOp,
    (isPart = false ∨ o'.isPost = false) ∧ o = .net isPart o') hP ?_
    (hp.into (asNet isPart) fun o ho => ⟨o, ho, rfl⟩)
  rintro _ w a w' ⟨o, ho, rfl⟩ hi hw ⟨he, -⟩
  obtain ⟨htasks, hreceived, hconcats, hdeleted⟩ := net_exec ho he
  exact ⟨aside_safe hi htasks hreceived (.inr ⟨hconcats, hdeleted⟩),
    hset w w' htasks hreceived hconcats hdeleted hw⟩

/-! ## The tasks of the parts -/

theorem got_aside {t : Nat} (url : Option String) : Aside (Got t url) :=
  fun _ _ _ hreceived _ _ h u => hreceived ▸ h u

theorem mem_receive {w : ParWorld} {isPart : Bool} {t u : Nat} {url url' : String} {r : Response}
    (h : u ≠ t) : (u, url') ∈ (w.receive isPart t url r).received ↔ (u, url') ∈ w.received := by
  simp only [ParWorld.receive]
  split
  · rw [List.mem_cons, or_iff_right fun heq => h (Prod.mk.inj heq).1]
  · exact Iff.rfl

/-- A creation is the affair of its own thread. -/
theorem receive_clean {w : ParWorld} {i : Nat} {bytes bytes' : Bytes} {isPart : Bool} {url : String}
    {r : Response} (hi : CleanInv client.resolveServerLocation w)
    (hreads : w.Reads source (i + 1) bytes) :
    Safe (CleanInv client.resolveServerLocation) CleanRely (i + 1) w
      ((w.create (i + 1) url bytes').receive isPart (i + 1) url r) := by
  obtain ⟨h0, -⟩ | ⟨j, capabilities, hj, hrun⟩ := hreads
  · exact nomatch h0
  obtain rfl : i = j := Nat.succ.inj hj
  have hne : ∀ {k}, w.tasks k ≠ w.tasks i → k + 1 ≠ i + 1 := fun h heq =>
    h (congrArg w.tasks (Nat.succ.inj heq))
  refine ⟨⟨fun k hk u => ?_, fun k outcome hk => ?_⟩, fun u hu => ⟨fun url' => mem_receive hu,
    fun _ k hk => ⟨rfl, fun url' => mem_receive (hne fun h => ?_)⟩, fun _ => ⟨rfl, rfl⟩⟩⟩
  · refine (mem_receive (hne fun h => ?_)).trans (hi.idle k hk u)
    exact nomatch (hk.symm.trans h).trans hrun
  · obtain ⟨hindex, hcreated, hurl, hresult⟩ := hi.finished k outcome hk
    refine ⟨hindex, fun u => (mem_receive (hne fun h => ?_)).trans (hcreated u), hurl, hresult⟩
    exact nomatch (hk.symm.trans h).trans hrun
  · exact not_quiet_running hrun (h ▸ hk)

/-- The client knows of the upload it was answered. -/
theorem create_clean {i : Nat} (length : Nat) (body : Option Bytes) (metadata : Meta) :
    CleanSpec client source (i + 1) (Got (i + 1) none)
      ((createUploadRequest client.toClient length body metadata).into (asNet true)) (fun
      | .ok info, w => Got (i + 1) (some info.url) w ∧
          Resolved client.resolveServerLocation info.url
      | .error _, w => Got (i + 1) none w) := by
  refine Triple.step (fun (a : Except Error Response) w => match a with
    | .ok r => (r.status ≠ 201 → Got (i + 1) none w) ∧ (r.status = 201 →
        ∃ location url offset, headerString r.location "Location" = .ok location ∧
          client.resolveServerLocation location = .ok url ∧
          createdOffset body.isSome length r = .ok offset ∧ Got (i + 1) (some url) w)
    | .error _ => Got (i + 1) none w) (got_stable none) ?_ ?_
  · rintro w a w' hi hgot ⟨he, horderly⟩
    have hnone : ∀ u, (i + 1, u) ∉ w.received := fun u h => nomatch (hgot u).mp h
    cases he with
    | net _ hpost => cases hpost
    | @created _ _ _ _ _ _ _ r url hreads _ hpoints _ =>
      refine ⟨receive_clean hi hreads, fun hst u => ?_, fun hst => ?_⟩
      · simp only [ParWorld.receive, ParWorld.create, hst, and_false, if_false]
        exact hgot u
      · obtain ⟨location, url', offset, hloc, hres, hoff⟩ := horderly r rfl hst
        obtain rfl := hpoints location url' (headerString_ok hloc) hres
        refine ⟨location, url', offset, hloc, hres, hoff, fun u => ?_⟩
        simp only [ParWorld.receive, ParWorld.create, hst, and_self, if_true, List.mem_cons,
          Prod.mk.injEq, true_and, Option.some.injEq]
        rw [or_iff_left (hnone u), eq_comm]
    | notCreated _ hst =>
      exact ⟨⟨hi, fun _ _ => cleanRely_refl w⟩, fun _ => hgot, fun h => absurd h hst⟩
    | postLost => exact ⟨⟨hi, fun _ _ => cleanRely_refl w⟩, hgot⟩
  · intro a
    cases a with
    | error e => exact Triple.done fun _ h => h
    | ok r =>
      dsimp only [asNet]
      split
      · next hst => exact Triple.done fun w h => h.1 hst
      · next hst =>
        refine Triple.done fun w h => ?_
        obtain ⟨location, url, offset, hloc, hres, hoff, hgot⟩ := h.2 (not_not.mp hst)
        simp only [hloc, hres, hoff, bind, Except.bind, pure, Except.pure]
        exact ⟨hgot, location, hres⟩

/-- What a part knows when it ends: the upload it has created, if any. -/
structure Known (client : ParallelClient Meta) (i : Nat)
    (r : Option String × Except Error (UploadInfo Meta)) (w : ParWorld) : Prop where
  got : Got (i + 1) r.1 w
  created : ∀ url, r.1 = some url → Resolved client.resolveServerLocation url
  result : ∀ info, r.2 = .ok info → Resolved client.resolveServerLocation info.url

/-- An upload the part has created. -/
def Owns (client : ParallelClient Meta) (i : Nat) (url : String) (w : ParWorld) : Prop :=
  Got (i + 1) (some url) w ∧ Resolved client.resolveServerLocation url

theorem owns_keep {i : Nat} {url : String} {α : Type} {p : Prog NetSig α}
    (hp : p.Ops fun (o : NetOp) => o.isPost = false) :
    CleanSpec client source (i + 1) (Owns client i url) (p.into (asNet true))
      (fun _ => Owns client i url) :=
  loop_keep (fun _ _ h hr => ⟨h.1.rely hr, h.2⟩)
    (fun _ _ _ hreceived _ _ h => ⟨fun u => hreceived ▸ h.1 u, h.2⟩) (hp.mono fun _ => .inr)

theorem progress_clean {i n m : Nat} {url : String} {α : Type} {k : Unit → Prog NetSig α}
    {Q : α → ParWorld → Prop}
    (hk : CleanSpec client source (i + 1) (Owns client i url) ((k ()).into (asNet true)) Q) :
    CleanSpec client source (i + 1) (Owns client i url)
      ((Prog.step (.onProgress n m) k : Prog NetSig α).into (asNet true)) Q := by
  refine Triple.step (fun _ => Owns client i url) (fun _ _ h hr => ⟨h.1.rely hr, h.2⟩) ?_
    fun _ => hk
  rintro w a w' hi hw ⟨he, -⟩
  obtain ⟨htasks, hreceived, hlogs⟩ := net_exec (.inr rfl) he
  exact ⟨aside_safe hi htasks hreceived (.inr hlogs), fun u => hreceived ▸ hw.1 u, hw.2⟩

theorem Owns.known {i : Nat} {url : String} {w : ParWorld} (h : Owns client i url w)
    {r : Except Error (UploadInfo Meta)} (hr : ∀ info, r = .ok info → info.url = url) :
    Known client i (some url, r) w :=
  ⟨h.1, fun _ hurl => Option.some.inj hurl ▸ h.2, fun info hinfo => hr info hinfo ▸ h.2⟩

theorem resume_clean {i : Nat} (rounds length : Nat) (info : UploadInfo Meta) :
    CleanSpec client source (i + 1) (Owns client i info.url)
      ((Prog.bind (resumeLoop client.toClient info.url length rounds 0 none (some info))
        fun result => .done (some info.url, result)).into (asNet true)) (Known client i) := by
  have hkeep : CleanSpec client source (i + 1) (Owns client i info.url)
      ((resumeLoop client.toClient info.url length rounds 0 none (some info)).into (asNet true))
      (fun _ => Owns client i info.url) :=
    owns_keep ((resumeLoop_at _ _ _ _ _).mono fun _ => NetOp.At.not_post)
  have hurl : Prog.Yields (fun r : Except Error (UploadInfo Meta) =>
      ∀ info', r = .ok info' → info'.url = info.url)
      ((resumeLoop client.toClient info.url length rounds 0 none (some info)).into (asNet true)) :=
    (resumeLoop_url _ rounds 0 none (some info) (by rintro _ ⟨⟩; rfl)).into (asNet true)
  refine Triple.into_bind (asNet true) _ (Triple.yields hkeep hurl) fun r => ?_
  exact Triple.done fun w h => h.1.known h.2

/-- Whatever becomes of a part, its outcome tells of the upload it has created. -/
theorem uploadPartial_clean {i : Nat} (rounds : Nat) (bytes : Bytes) (metadata : Meta)
    (capabilities : Option (List String)) :
    CleanSpec client source (i + 1) (Got (i + 1) none)
      ((uploadPartialWithCapabilities client rounds bytes metadata capabilities).into (asNet true))
      (Known client i) := by
  have hfailed : ∀ error : Error, CleanSpec client source (i + 1) (Got (i + 1) none)
      (.done (none, .error error)) (Known client i) :=
    fun error => Triple.done fun w h => ⟨h, nofun, nofun⟩
  unfold uploadPartialWithCapabilities
  dsimp only
  split
  · have hread : CleanSpec client source (i + 1) (Got (i + 1) none)
        ((readSourceExact bytes.length 0 bytes.length).into (asNet true))
        (fun _ => Got (i + 1) none) :=
      loop_keep (got_stable none) (got_aside none)
        ((readLoop_asks _ _ _ _ _).mono fun _ h => .inr (NetOp.Asks.not_post h))
    refine Triple.into_bind (asNet true) _ hread fun body => ?_
    cases body with
    | error e => exact hfailed e
    | ok body =>
      refine Triple.into_bind (asNet true) _ (create_clean _ (some body) metadata) fun upload => ?_
      cases upload with
      | error e => exact hfailed e
      | ok upload =>
        refine progress_clean ?_
        split
        · exact Triple.done fun w h => h.known (by rintro _ ⟨⟩; rfl)
        · exact resume_clean rounds _ upload
  · refine Triple.into_bind (asNet true) _ (create_clean _ none metadata) fun upload => ?_
    cases upload with
    | error e => exact hfailed e
    | ok upload => exact resume_clean rounds _ upload

theorem partTask_clean (rounds : Nat) (metadata : Meta) (i : Nat) :
    CleanSpec client source (i + 1) (Got (i + 1) none) (partTask client rounds metadata i)
      (fun _ _ => True) := by
  refine Triple.step (fun _ => Got (i + 1) none) (got_stable none) ?_ ?_
  · rintro w a w' hi hgot ⟨he, -⟩
    cases he with
    | start => exact ⟨⟨hi, fun _ _ => cleanRely_refl w⟩, hgot⟩
  rintro ⟨capabilities, bytes⟩
  have hpart : CleanSpec client source (i + 1) (Got (i + 1) none)
      ((uploadParallelPart client rounds metadata i bytes (some capabilities)).into (asNet true))
      (Tells client.resolveServerLocation i) := by
    refine Triple.into_bind (asNet true) _ (uploadPartial_clean rounds bytes metadata _) fun r => ?_
    refine Triple.done fun w h => ⟨rfl, h.got, h.created, fun url hurl => ?_⟩
    cases hr : r.2 with
    | error e => simp [hr, Except.map] at hurl
    | ok info =>
      rw [hr] at hurl
      exact Except.ok.inj hurl ▸ h.result info hr
  refine Triple.bind _ hpart fun outcome => ?_
  refine Triple.step (fun _ _ => True) ?_ ?_ fun _ => Triple.done fun _ _ => trivial
  · exact fun w w' h hr => ⟨h.index, h.created.rely hr, h.createdUrl, h.result⟩
  · rintro w a w' hi htells ⟨he, -⟩
    cases he with
    | finish hrun =>
      refine ⟨⟨hi.task nofun ?_, fun u _ => cleanRely_task (.inl (not_quiet_running hrun))⟩, trivial⟩
      rintro _ ⟨⟩
      exact htells

end System

/-! ## The task of the parallel upload -/

section Loops

variable {source : Bytes} {Meta : Type} {client : ParallelClient Meta} {options : ParallelUpload}

/-- What the variables of `upload_parallel` say of the partial uploads: those of the joined
tasks are recorded, and the other parts have no record yet. -/
structure Recorded (client : ParallelClient Meta) (count : Nat) (v : Parts) (w : ParWorld) :
    Prop where
  next : v.nextIndex ≤ count
  idle : ∀ i, v.nextIndex ≤ i → w.tasks i = .idle ∧ Got (i + 1) none w
  spawned : ∀ i ∈ v.joinSet, i < v.nextIndex
  nodup : v.joinSet.Nodup
  unset : ∀ i < count, i ∈ v.joinSet ∨ v.nextIndex ≤ i → v.createdUrls[i]? = some none
  joined : ∀ i < v.nextIndex, i ∉ v.joinSet →
    w.tasks i = .joined ∧ ∃ url, v.createdUrls[i]? = some url ∧ Got (i + 1) url w
  own : ∀ url, (0, url) ∉ w.received
  createdUrls : ∀ url, some url ∈ v.createdUrls → Resolved client.resolveServerLocation url
  partUrls : ∀ url, some url ∈ v.partUrls → Resolved client.resolveServerLocation url

theorem recorded_stable (count : Nat) (v : Parts) :
    Stable CleanRely 0 (Recorded client count v) := by
  intro w w' h hr
  refine ⟨h.next, fun i hi => ?_, h.spawned, h.nodup, h.unset, fun i hi hout => ?_,
    fun url hurl => h.own url ((hr.own url).mp hurl), h.createdUrls, h.partUrls⟩
  · obtain ⟨htask, hgot⟩ := h.idle i hi
    obtain ⟨htask', hgot'⟩ := hr.quiet rfl i (.inl htask)
    exact ⟨htask'.trans htask, fun u => (hgot' u).trans (hgot u)⟩
  · obtain ⟨htask, url, hurl, hgot⟩ := h.joined i hi hout
    obtain ⟨htask', hgot'⟩ := hr.quiet rfl i (.inr htask)
    exact ⟨htask'.trans htask, url, hurl, fun u => (hgot' u).trans (hgot u)⟩

theorem recorded_aside (count : Nat) (v : Parts) : Aside (Recorded client count v) := by
  intro w w' htasks hreceived _ _ h
  refine ⟨h.next, fun i hi => ?_, h.spawned, h.nodup, h.unset, fun i hi hout => ?_,
    fun url => hreceived ▸ h.own url, h.createdUrls, h.partUrls⟩
  · rw [htasks]
    exact ⟨(h.idle i hi).1, fun u => hreceived ▸ (h.idle i hi).2 u⟩
  · obtain ⟨htask, url, hurl, hgot⟩ := h.joined i hi hout
    rw [htasks]
    exact ⟨htask, url, hurl, fun u => hreceived ▸ hgot u⟩

theorem recorded_init (count : Nat) (content : String → Bytes) :
    Recorded client count (Parts.init count) (.start content) where
  next := Nat.zero_le _
  idle _ _ := ⟨rfl, fun _ => ⟨nofun, nofun⟩⟩
  spawned _ h := nomatch h
  nodup := List.nodup_nil
  unset _ hi _ := List.getElem?_replicate_of_lt hi
  joined _ h := absurd h (Nat.not_lt_zero _)
  own _ h := nomatch h
  createdUrls _ h := nomatch List.eq_of_mem_replicate h
  partUrls _ h := nomatch List.eq_of_mem_replicate h

theorem Recorded.spawn {count : Nat} {v : Parts} {w : ParWorld} {capabilities : List String}
    {bytes : Bytes} (h : Recorded client count v w) (hv : v.nextIndex < count) :
    Recorded client count v.spawned
      { w.setTask v.nextIndex (.running capabilities bytes) with
        parts := w.parts ++ [(v.nextIndex, bytes)] } where
  next := hv
  idle i hi := by
    have hne : i ≠ v.nextIndex := Nat.ne_of_gt hi
    simp only [ParWorld.setTask, Function.update_of_ne hne]
    exact ⟨(h.idle i (Nat.le_of_succ_le hi)).1, (h.idle i (Nat.le_of_succ_le hi)).2⟩
  spawned i hi := by
    rcases List.mem_append.mp hi with hi | hi
    · exact Nat.lt_succ_of_lt (h.spawned i hi)
    · obtain rfl := List.mem_singleton.mp hi
      exact Nat.lt_succ_self _
  nodup := by
    refine List.nodup_append.mpr ⟨h.nodup, List.pairwise_singleton _ _, ?_⟩
    rintro i hi j hj rfl
    obtain rfl := List.mem_singleton.mp hj
    exact absurd (h.spawned _ hi) (lt_irrefl _)
  unset i hi hout := by
    refine h.unset i hi ?_
    rcases hout with hout | hout
    · rcases List.mem_append.mp hout with hout | hout
      · exact .inl hout
      · exact .inr (List.mem_singleton.mp hout).ge
    · exact .inr (Nat.le_of_succ_le hout)
  joined i hi hmem := by
    have hout : i ∉ v.joinSet ∧ i ≠ v.nextIndex := by
      simpa [Parts.spawned, not_or] using hmem
    obtain ⟨htask, hgot⟩ := h.joined i (lt_of_le_of_ne (Nat.le_of_lt_succ hi) hout.2) hout.1
    refine ⟨?_, hgot⟩
    simp only [ParWorld.setTask, Function.update_of_ne hout.2]
    exact htask
  own := h.own
  createdUrls := h.createdUrls
  partUrls := h.partUrls

/-- A task that is joined: what it has created is recorded. -/
theorem Recorded.take {count : Nat} {v : Parts} {w : ParWorld} {i : Nat}
    {url : Option String} (h : Recorded client count v w) (hmem : i ∈ v.joinSet)
    (hgot : Got (i + 1) url w) (hurl : ∀ u, url = some u → Resolved client.resolveServerLocation u) :
    Recorded client count
      { v with joinSet := v.joinSet.erase i, createdUrls := v.createdUrls.set i url }
      (w.setTask i .joined) := by
  have hspawned : i < v.nextIndex := h.spawned i hmem
  have hset : (v.createdUrls.set i url)[i]? = some url := by
    have hlt : i < v.createdUrls.length :=
      (List.getElem?_eq_some_iff.mp (h.unset i (hspawned.trans_le h.next) (.inl hmem))).1
    exact List.getElem?_set_self hlt
  refine ⟨h.next, fun j hj => ?_, fun j hj => h.spawned j (List.mem_of_mem_erase hj),
    h.nodup.erase _, fun j hj hout => ?_, fun j hj hout => ?_, h.own, fun u hu => ?_, h.partUrls⟩
  · have hne : j ≠ i := Nat.ne_of_gt (hspawned.trans_le hj)
    simp only [ParWorld.setTask, Function.update_of_ne hne]
    exact ⟨(h.idle j hj).1, (h.idle j hj).2⟩
  · have hne : j ≠ i := by
      rintro rfl
      rcases hout with hout | hout
      · exact h.nodup.not_mem_erase hout
      · exact absurd hspawned (Nat.not_lt.mpr hout)
    rw [List.getElem?_set_ne (Ne.symm hne)]
    exact h.unset j hj (hout.imp_left List.mem_of_mem_erase)
  · by_cases hji : j = i
    · subst hji
      exact ⟨Function.update_self .., url, hset, hgot⟩
    · have hout' : j ∉ v.joinSet := fun hin => hout ((List.mem_erase_of_ne hji).mpr hin)
      obtain ⟨htask, url', hurl', hgot'⟩ := h.joined j hj hout'
      refine ⟨?_, url', ?_, hgot'⟩
      · simp only [ParWorld.setTask, Function.update_of_ne hji]
        exact htask
      · rw [List.getElem?_set_ne (Ne.symm hji)]
        exact hurl'
  · rcases List.mem_or_eq_of_mem_set hu with hu | hu
    · exact h.createdUrls u hu
    · exact hurl u hu.symm

theorem Recorded.join {count : Nat} {v : Parts} {w : ParWorld}
    {a : Nat × Except String PartOutcome} (h : Recorded client count v w) (hmem : a.1 ∈ v.joinSet)
    (hok : ∀ outcome, a.2 = .ok outcome → Tells client.resolveServerLocation a.1 outcome w)
    (hlost : ∀ message, a.2 = .error message → Got (a.1 + 1) none w) :
    Recorded client count (v.joined a) (w.setTask a.1 .joined) := by
  have hunset : v.createdUrls[a.1]? = some none :=
    h.unset _ ((h.spawned _ hmem).trans_le h.next) (.inl hmem)
  have hsame : v.createdUrls.set a.1 none = v.createdUrls := by
    obtain ⟨hlt, hnone⟩ := List.getElem?_eq_some_iff.mp hunset
    rw [← hnone, List.set_getElem_self]
  obtain ⟨i, message | outcome⟩ := a
  · have htake := h.take hmem (hlost message rfl) nofun
    rwa [hsame] at htake
  · obtain ⟨rfl, hgot, hcreated, -⟩ := hok outcome rfl
    have htake := h.take hmem hgot hcreated
    cases hurl : outcome.createdUrl with
    | none =>
      rw [hurl, hsame] at htake
      simpa only [Parts.joined, hurl] using htake
    | some url =>
      rw [hurl] at htake
      simpa only [Parts.joined, hurl] using htake

theorem Recorded.complete {count : Nat} {v : Parts} {w : ParWorld} {i : Nat} {url : String}
    (h : Recorded client count v w) (hurl : Resolved client.resolveServerLocation url) :
    Recorded client count (v.completed i url) w := by
  refine ⟨h.next, h.idle, h.spawned, h.nodup, h.unset, h.joined, h.own, h.createdUrls, ?_⟩
  intro u hu
  rcases List.mem_or_eq_of_mem_set hu with hu | hu
  · exact h.partUrls u hu
  · exact Option.some.inj hu ▸ hurl

/-- Reading the next part and spawning its task. -/
theorem spawnNext_clean (capabilities : List String) (v : Parts)
    (hv : v.nextIndex < partCount options source.length) :
    CleanSpec client source 0 (Recorded client (partCount options source.length) v)
      (spawnNext options source.length capabilities v)
      (fun r => Recorded client (partCount options source.length) r.1) := by
  have hkeep : CleanSpec client source 0 (Recorded client (partCount options source.length) v)
      ((readParallelPart source.length options.partSize v.nextIndex).into (asNet false))
      (fun _ => Recorded client (partCount options source.length) v) :=
    loop_keep (recorded_stable _ v) (recorded_aside _ v)
      ((readLoop_asks _ _ _ _ _).mono fun _ _ => .inl rfl)
  refine Triple.bind _ hkeep fun r => ?_
  cases r with
  | error e => exact Triple.done fun _ h => h
  | ok bytes =>
    refine Triple.step (fun _ => Recorded client (partCount options source.length) v.spawned)
      (recorded_stable _ v) ?_ fun _ => Triple.done fun _ h => h
    rintro w a w' hi hw ⟨he, -⟩
    cases he with
    | spawn _ =>
      have hi' : CleanInv client.resolveServerLocation
          (w.setTask v.nextIndex (.running capabilities bytes)) := hi.task nofun nofun
      refine ⟨⟨hi'.same rfl rfl, fun u hu => ?_⟩, hw.spawn hv⟩
      have hr : CleanRely u w (w.setTask v.nextIndex (.running capabilities bytes)) :=
        cleanRely_task (.inr hu)
      exact ⟨hr.own, hr.quiet, hr.logs⟩

theorem spawnLoop_clean (capabilities : List String) (n : Nat) (v : Parts) :
    CleanSpec client source 0 (Recorded client (partCount options source.length) v)
      (spawnLoop options source.length capabilities n v)
      (fun r => Recorded client (partCount options source.length) r.1) := by
  induction n generalizing v with
  | zero => exact Triple.done fun _ h => h
  | succ n ih =>
    unfold spawnLoop
    refine Triple.ite (fun hc => ?_) fun _ => Triple.done fun _ h => h
    refine Triple.bind _ (spawnNext_clean capabilities v hc.1) fun r => ?_
    obtain ⟨v', _ | error⟩ := r
    · exact ih v'
    · exact Triple.done fun _ h => h

/-- Joining one task. -/
theorem join_clean {count : Nat} {α : Type} {v : Parts}
    {k : Nat × Except String PartOutcome → Par α} {Q : α → ParWorld → Prop}
    (hk : ∀ a, a.1 ∈ v.joinSet → (∀ outcome url, a.2 = .ok outcome → outcome.result = .ok url →
        Resolved client.resolveServerLocation url) →
      CleanSpec client source 0 (Recorded client count (v.joined a)) (k a) Q) :
    CleanSpec client source 0 (Recorded client count v) (.step (.join v.joinSet) k) Q := by
  refine Triple.step (fun a w => a.1 ∈ v.joinSet ∧ (∀ outcome url, a.2 = .ok outcome →
    outcome.result = .ok url → Resolved client.resolveServerLocation url) ∧
      Recorded client count (v.joined a) w) (recorded_stable _ v) ?_
    fun a s hs => hk a hs.1 hs.2.1 s hs.2.2
  rintro w ⟨i, r⟩ w' hi hw ⟨he, horderly⟩
  have hsafe : ¬Quiet (w.tasks i) → Safe (CleanInv client.resolveServerLocation) CleanRely 0 w
      (w.setTask i .joined) :=
    fun h => ⟨hi.task nofun nofun, fun u _ => cleanRely_task (.inl h)⟩
  cases he with
  | joined hmem hfinished =>
    have htells := hi.finished _ _ hfinished
    refine ⟨hsafe ?_, hmem, ?_, hw.join hmem (by rintro _ ⟨⟩; exact htells) nofun⟩
    · rw [hfinished]
      rintro (h | h) <;> cases h
    · rintro _ url ⟨⟩ hurl
      exact htells.result url hurl
  | joinFailed hmem hfailed =>
    have hnone : Got (i + 1) none w := fun u =>
      ⟨fun h => absurd h (horderly i _ rfl u), nofun⟩
    refine ⟨hsafe ?_, hmem, nofun, hw.join hmem nofun fun _ _ => hnone⟩
    rcases hfailed with h | ⟨-, _, _, h⟩ <;> rw [h] <;> rintro (h | h) <;> cases h

theorem joinLoop_clean (capabilities : List String) (n : Nat) (v : Parts) :
    CleanSpec client source 0 (Recorded client (partCount options source.length) v)
      (joinLoop options source.length capabilities n v)
      (fun r => Recorded client (partCount options source.length) r.1) := by
  induction n generalizing v with
  | zero => exact Triple.done fun _ h => h
  | succ n ih =>
    unfold joinLoop
    refine Triple.ite (fun _ => Triple.done fun _ h => h) fun _ => join_clean ?_
    rintro ⟨i, joinError | outcome⟩ - hresolved
    · exact Triple.done fun _ h => h
    dsimp only
    cases hresult : outcome.result with
    | error error => exact Triple.done fun _ h => h
    | ok url =>
      dsimp only
      refine Triple.weaken (Q := fun r => Recorded client (partCount options source.length) r.1)
        ?_ (fun w h => h.complete (i := outcome.index) (hresolved outcome url rfl hresult))
        fun _ _ h => h
      generalize (v.joined (i, .ok outcome)).completed outcome.index url = v'
      refine Triple.ite (fun hmore => ?_) fun _ => ih v'
      refine Triple.bind _ (spawnNext_clean capabilities v' hmore) fun r => ?_
      obtain ⟨v'', _ | error⟩ := r
      · exact ih v''
      · exact Triple.done fun _ h => h

/-- Every task is joined in the end. -/
theorem drainLoop_clean {count : Nat} (n : Nat) (v : Parts) (hn : v.joinSet.length ≤ n) :
    CleanSpec client source 0 (Recorded client count v) (drainLoop n v)
      (fun v' w => Recorded client count v' w ∧ v'.joinSet = []) := by
  induction n generalizing v with
  | zero => exact Triple.done fun _ h => ⟨h, List.eq_nil_of_length_eq_zero (Nat.le_zero.mp hn)⟩
  | succ n ih =>
    refine Triple.ite (fun hempty => Triple.done fun _ h => ⟨h, hempty⟩) fun _ => ?_
    refine join_clean fun a hmem _ => ih _ ?_
    have hlen : (v.joined a).joinSet.length = v.joinSet.length - 1 := by
      obtain ⟨i, _ | _⟩ := a <;> exact List.length_erase_of_mem hmem
    omega

/-! ## Failures -/

/-- No task runs any more, and every partial upload that was answered is recorded. -/
def Calm (urls : List (Option String)) (w : ParWorld) : Prop :=
  (∀ i, Quiet (w.tasks i)) ∧ ∀ t url, (t, url) ∈ w.received → some url ∈ urls

theorem calm_rely {urls : List (Option String)} {w w' : ParWorld} (h : Calm urls w)
    (hr : CleanRely 0 w w') : Calm urls w' := by
  refine ⟨fun i => ?_, fun t url hurl => ?_⟩
  · rw [(hr.quiet rfl i (h.1 i)).1]
    exact h.1 i
  · cases t with
    | zero => exact h.2 0 url ((hr.own url).mp hurl)
    | succ i => exact h.2 (i + 1) url (((hr.quiet rfl i (h.1 i)).2 url).mp hurl)

theorem Recorded.calm {count : Nat} {v : Parts} {w : ParWorld} (h : Recorded client count v w)
    (hempty : v.joinSet = []) : Calm v.createdUrls w := by
  refine ⟨fun i => ?_, fun t url hurl => ?_⟩
  · by_cases hi : i < v.nextIndex
    · exact .inr (h.joined i hi (hempty ▸ List.not_mem_nil)).1
    · exact .inl (h.idle i (Nat.not_lt.mp hi)).1
  · cases t with
    | zero => exact absurd hurl (h.own url)
    | succ i =>
      by_cases hi : i < v.nextIndex
      · obtain ⟨-, url', hurl', hgot⟩ := h.joined i hi (hempty ▸ List.not_mem_nil)
        obtain rfl := (hgot url).mp hurl
        exact List.mem_of_getElem? hurl'
      · exact nomatch ((h.idle i (Nat.not_lt.mp hi)).2 url).mp hurl

/-- Every recorded URL is sent a DELETE. -/
theorem cleanup_clean {all : List (Option String)} (urls : List (Option String))
    (deleted : List String) (hparse : ∀ url, some url ∈ urls → client.parseUrl url = some url) :
    CleanSpec client source 0 (fun w => Calm all w ∧ ∀ url ∈ deleted, url ∈ w.deleted)
      (cleanupPartialUploads client urls)
      (fun _ w => Calm all w ∧ ∀ url, url ∈ deleted ∨ some url ∈ urls → url ∈ w.deleted) := by
  have hstable : ∀ deleted : List String, Stable CleanRely 0
      (fun w => Calm all w ∧ ∀ url ∈ deleted, url ∈ w.deleted) := fun deleted w w' h hr =>
    ⟨calm_rely h.1 hr, fun url hurl => (hr.logs rfl).2 ▸ h.2 url hurl⟩
  induction urls generalizing deleted with
  | nil => exact Triple.done fun w h => ⟨h.1, fun url hurl => h.2 url (hurl.resolve_right List.not_mem_nil)⟩
  | cons url urls ih =>
    have hparse' : ∀ u, some u ∈ urls → client.parseUrl u = some u :=
      fun u hu => hparse u (List.mem_cons_of_mem _ hu)
    cases url with
    | none =>
      have hskip : ∀ u : String, some u ∈ none :: urls → some u ∈ urls :=
        fun u hu => (List.mem_cons.mp hu).resolve_left (by simp)
      exact (ih deleted hparse').weaken (fun _ h => h)
        fun _ w h => ⟨h.1, fun u hu => h.2 u (hu.imp_right (hskip u))⟩
    | some url =>
      unfold cleanupPartialUploads
      rw [hparse url List.mem_cons_self]
      refine Triple.step (fun a w => a = .ok () ∧ Calm all w ∧ ∀ url ∈ deleted, url ∈ w.deleted)
        (hstable deleted) ?_ fun a => ?_
      · rintro w a w' hi hw ⟨he, horderly⟩
        cases he with
        | headers => exact ⟨⟨hi, fun _ _ => cleanRely_refl w⟩, horderly, hw⟩
      cases a with
      | error e =>
        intro s hs
        cases hs.1
      | ok _ =>
        refine Triple.weaken (P := fun w => Calm all w ∧ ∀ url ∈ deleted, url ∈ w.deleted) ?_
          (fun _ h => h.2) fun _ _ h => h
        refine Triple.step (fun _ w => Calm all w ∧ ∀ u ∈ url :: deleted, u ∈ w.deleted)
          (hstable deleted) ?_ fun _ => (ih (url :: deleted) hparse').weaken (fun _ h => h) ?_
        · rintro w a w' hi hw ⟨he, -⟩
          cases he with
          | deleted =>
            refine ⟨aside_safe hi rfl rfl (.inl rfl), ⟨hw.1.1, hw.1.2⟩, fun u hu => ?_⟩
            rcases List.mem_cons.mp hu with rfl | hu
            · exact List.mem_cons_self
            · exact List.mem_cons_of_mem _ (hw.2 u hu)
        · rintro _ w ⟨hcalm, hall⟩
          refine ⟨hcalm, fun u hu => hall u ?_⟩
          rcases hu with hu | hu
          · exact .inl (List.mem_cons_of_mem _ hu)
          · rcases List.mem_cons.mp hu with hu | hu
            · exact .inl (Option.some.inj hu ▸ List.mem_cons_self)
            · exact .inr hu

/-- What a failed parallel upload leaves: no partial upload that was not sent a DELETE. -/
def Cleaned : Except Failure (UploadInfo Meta) → ParWorld → Prop
  | .error (.upload _), w => (∀ i, Quiet (w.tasks i)) ∧
      ∀ t url, (t, url) ∈ w.received → url ∈ w.deleted
  | _, _ => True

theorem cleaned_stable (r : Except Failure (UploadInfo Meta)) : Stable CleanRely 0 (Cleaned r) := by
  intro w w' h hr
  match r, h with
  | .ok _, _ => trivial
  | .error .unrecorded, _ => trivial
  | .error (.upload _), h =>
    obtain ⟨hquiet, hdeleted⟩ := h
    have hcalm : Calm (w.deleted.map some) w :=
      ⟨hquiet, fun t url hurl => List.mem_map_of_mem (hdeleted t url hurl)⟩
    obtain ⟨hquiet', hdeleted'⟩ := calm_rely hcalm hr
    refine ⟨hquiet', fun t url hurl => ?_⟩
    rw [(hr.logs rfl).2]
    obtain ⟨u, hu, heq⟩ := List.mem_map.mp (hdeleted' t url hurl)
    exact Option.some.inj heq ▸ hu

/-- An upload that fails before it has spawned anything leaves nothing. -/
theorem cleaned_init {count : Nat} {error : Error} {w : ParWorld}
    (h : Recorded client count (Parts.init count) w) :
    Cleaned (.error (.upload error) : Except Failure (UploadInfo Meta)) w := by
  obtain ⟨hquiet, hreceived⟩ := h.calm rfl
  exact ⟨hquiet, fun t url hurl => nomatch List.eq_of_mem_replicate (hreceived t url hurl)⟩

theorem concludeFailed_clean (hclient : client.Lawful) {count : Nat} (v : Parts) (error : Error) :
    CleanSpec client source 0 (Recorded client count v) (concludeParts client (v, some error))
      Cleaned := by
  refine Triple.step (fun _ => Recorded client count v) (recorded_stable count v) ?_ fun _ => ?_
  · rintro w a w' hi hw ⟨he, -⟩
    cases he with
    | abortAll =>
      exact ⟨aside_safe hi rfl rfl (.inl rfl), recorded_aside count v w _ rfl rfl rfl rfl hw⟩
  refine Triple.bind _ (drainLoop_clean _ v le_rfl) fun v' => ?_
  intro s hs
  have hrecorded : Recorded client count v' s.world := hs.1
  have hparse : ∀ url, some url ∈ v'.createdUrls → client.parseUrl url = some url := by
    intro url hurl
    obtain ⟨location, hres⟩ := hrecorded.createdUrls url hurl
    exact hclient.parse location url hres
  refine Triple.bind _ (cleanup_clean v'.createdUrls [] hparse) (fun _ => ?_) s
    ⟨hrecorded.calm hs.2, nofun⟩
  exact Triple.done fun w h => ⟨h.1.1, fun t url hurl => h.2 url (.inr (h.1.2 t url hurl))⟩

/-- A concatenation that is answered well succeeds. -/
theorem sendConcatenation_clean (urls : List String) :
    CleanSpec client source 0 (fun _ => True) (sendConcatenation client urls)
      (fun r _ => ∃ info, r = .ok info) := by
  refine Triple.step (fun (a : Except Error Response) w => w.concats ≠ [] ∧
    ∃ r url, a = .ok r ∧ concatenatedUrl client r = .ok url) (fun _ _ _ _ => trivial) ?_ fun a => ?_
  · rintro w a w' hi - ⟨he, horderly⟩
    have hsent : ∀ {l : List String} {c : String}, l ++ [c] ≠ [] :=
      List.append_ne_nil_of_right_ne_nil _ (List.cons_ne_nil _ _)
    cases he with
    | concatenated => exact ⟨aside_safe hi rfl rfl (.inl rfl), hsent, horderly⟩
    | notConcatenated => exact ⟨aside_safe hi rfl rfl (.inl rfl), hsent, horderly⟩
    | concatLost => exact ⟨aside_safe hi rfl rfl (.inl rfl), hsent, horderly⟩
  cases a with
  | error e => exact fun s hs => by obtain ⟨-, r, url, hr, -⟩ := hs; cases hr
  | ok r =>
    dsimp only
    cases hurl : concatenatedUrl client r with
    | error e =>
      rintro s ⟨-, r', url, hr, hok⟩
      obtain rfl := Except.ok.inj hr
      exact nomatch hurl.symm.trans hok
    | ok url =>
      refine Triple.weaken (P := fun w => w.concats ≠ []) ?_ (fun _ h => h.1) fun _ _ h => h
      refine Triple.step (fun (a : Except Error Response) _ => ∃ r, a = .ok r ∧
        InfoAccepted client r) (fun _ _ h hr => (hr.logs rfl).1 ▸ h) ?_ fun a => ?_
      · rintro w a w' hi hw ⟨he, horderly⟩
        obtain ⟨htasks, hreceived, hlogs⟩ := net_exec (.inl rfl) he
        exact ⟨aside_safe hi htasks hreceived (.inr hlogs), horderly hw⟩
      rintro s ⟨r', rfl, hstatus, offset, length, metadata, hoff, hlen, hmeta⟩
      have hnot : ¬(r'.status ≠ 200 ∧ r'.status ≠ 204) := by
        rcases hstatus with h | h <;> simp [h]
      simp only [asNet, if_neg hnot, hoff, hlen, hmeta]
      exact ⟨_, rfl⟩

theorem collectUrls_mem {l : List (Option String)} {urls : List String}
    (h : collectUrls l = some urls) (url : String) (hurl : url ∈ urls) : some url ∈ l := by
  induction l generalizing urls with
  | nil =>
    obtain rfl : urls = [] := Option.some.inj h.symm
    exact nomatch hurl
  | cons a l ih =>
    unfold collectUrls at h ih
    rw [List.mapM_cons] at h
    cases a with
    | none => cases h
    | some u =>
      cases hrest : l.mapM id with
      | none => simp [hrest] at h
      | some rest =>
        simp only [hrest, id, bind, Option.bind, pure, Option.some.injEq] at h
        subst h
        rcases List.mem_cons.mp hurl with rfl | hurl
        · exact List.mem_cons_self
        · exact List.mem_cons_of_mem _ (ih hrest hurl)

/-- When every part has been uploaded there is no failure. -/
theorem concludeJoined_clean (hclient : client.Lawful) {count : Nat} (v : Parts) :
    CleanSpec client source 0 (Recorded client count v) (concludeParts client (v, none))
      Cleaned := by
  intro s hs
  have hrecorded : Recorded client count v s.world := hs
  cases hurls : collectUrls v.partUrls with
  | none =>
    have hall : concludeParts client (v, none) = .done (.error .unrecorded) := by
      simp only [concludeParts, hurls]
    rw [hall]
    trivial
  | some urls =>
    have hmap : urls.mapM client.resolveUploadLocation = .ok urls :=
      mapM_resolve fun url hurl => by
        obtain ⟨location, hres⟩ := hrecorded.partUrls url (collectUrls_mem hurls url hurl)
        exact hclient.resolve location url hres
    have hall : concludeParts client (v, none) =
        Prog.bind (sendConcatenation client urls) fun r => .done (r.mapError .upload) := by
      simp only [concludeParts, hurls, concatenateUploads, hmap]
    rw [hall]
    refine Triple.bind _ (sendConcatenation_clean urls) (fun r => ?_) s trivial
    rintro s ⟨info, rfl⟩
    trivial

theorem uploadParallel_clean (hclient : client.Lawful) (rounds : Nat) (metadata : Meta) :
    CleanSpec client source 0 (Recorded client (partCount options source.length)
        (Parts.init (partCount options source.length)))
      (uploadParallel client options rounds source.length metadata) Cleaned := by
  have hany : ∀ {α : Type} (p : Prog NetSig α), CleanSpec client source 0
      (Recorded client (partCount options source.length)
        (Parts.init (partCount options source.length)))
      (p.into (asNet false)) (fun _ => Recorded client (partCount options source.length)
        (Parts.init (partCount options source.length))) :=
    fun p => loop_keep (recorded_stable _ _) (recorded_aside _ _) (Prog.ops_trivial p fun _ => .inl rfl)
  unfold uploadParallel
  refine Triple.ite (fun _ => ?_) fun _ => ?_
  · refine Triple.bind _ (hany _) fun r => Triple.done fun w h => ?_
    cases r with
    | ok info => trivial
    | error e => exact cleaned_init h
  refine Triple.step (fun _ => Recorded client (partCount options source.length)
    (Parts.init (partCount options source.length))) (recorded_stable _ _) ?_ fun r => ?_
  · rintro w a w' hi hw ⟨he, -⟩
    obtain ⟨htasks, hreceived, hconcats, hdeleted⟩ := net_exec (.inl rfl) he
    exact ⟨aside_safe hi htasks hreceived (.inl rfl),
      recorded_aside _ _ w w' htasks hreceived hconcats hdeleted hw⟩
  cases r with
  | error e => exact Triple.done fun w h => cleaned_init h
  | ok capabilities =>
    refine Triple.ite (fun _ => ?_) fun _ => Triple.done fun w h => cleaned_init h
    refine Triple.bind _ (spawnLoop_clean capabilities _ _) fun r => ?_
    obtain ⟨v, _ | error⟩ := r
    · refine Triple.bind _ (joinLoop_clean capabilities _ v) fun r => ?_
      obtain ⟨v', _ | error⟩ := r
      · exact concludeJoined_clean hclient v'
      · exact concludeFailed_clean hclient v' error
    · exact concludeFailed_clean hclient v error

/-- In a run whose steps are all orderly, a parallel upload that fails has sent a DELETE for
every partial upload whose creation was answered. -/
theorem cleanup_deletes (client : ParallelClient Meta) (hclient : client.Lawful)
    (options : ParallelUpload) (rounds : Nat) (source : Bytes) (hlen : source.length < 2 ^ 64)
    (metadata partMetadata : Meta) (content : String → Bytes)
    (c : Interaction.Config ParSig ParWorld (Option (Except Failure (UploadInfo Meta))))
    (hr : Reach (parMachine client source)
      (callParallel client options rounds source metadata partMetadata content) c)
    (horderly : ∀ e ∈ c.snap.hist, Orderly client e) (failure : Failure)
    (hdone : c.pool 0 = some (.done (some (.error failure)))) (t : Nat) (url : String)
    (hurl : (t, url) ∈ c.snap.world.received) : url ∈ c.snap.world.deleted := by
  have hcleaned : Cleaned (.error failure : Except Failure (UploadInfo Meta)) c.snap.world := by
    refine Triple.result (R := CleanRely)
      (P := fun t w => Got t none w ∧ (t = 0 → Recorded client (partCount options source.length)
        (Parts.init (partCount options source.length)) w))
      (Q := fun t a w => t = 0 → ∀ r, a = some r → Cleaned r w)
      cleanup_lawful (c := callParallel client options rounds source metadata partMetadata content)
      ⟨fun _ _ _ => ⟨nofun, nofun⟩, nofun⟩ ?_ ?_ (hr.restrict horderly) hdone rfl _ rfl
    · intro t p hp
      refine ⟨⟨fun _ => ⟨nofun, nofun⟩, fun _ => recorded_init _ content⟩, ?_⟩
      cases t with
      | zero =>
        obtain rfl := Option.some.inj hp
        refine Triple.bind _ ((uploadParallel_clean hclient rounds metadata).weaken
          (fun w h => h.2 rfl) fun _ _ h => h) fun r => ?_
        refine Triple.done fun w h _ r' hr' => ?_
        exact Option.some.inj hr' ▸ h
      | succ i =>
        obtain rfl := Option.some.inj hp
        refine Triple.bind _ ((partTask_clean rounds partMetadata i).weaken
          (fun _ h => h.1) fun _ _ h => h) fun _ => ?_
        exact Triple.done fun _ _ h0 => nomatch h0
    · rintro t a w w' h hrely rfl r rfl
      exact cleaned_stable r _ _ (h rfl r rfl) hrely
  cases failure with
  | upload error => exact hcleaned.2 t url hurl
  | unrecorded =>
    exact (parallel_concluded client hclient options rounds source hlen metadata partMetadata
      content c hr _ hdone).elim

end Loops

/-! ## Two failed uploads -/

theorem plainClient_points (url : String) (status : Nat) (offset : Option String) :
    PointsTo plainClient.resolveServerLocation
      ⟨status, some url, offset, none, none, none⟩ url := by
  rintro _ u ⟨⟩ hres
  simp only [plainClient] at hres
  split at hres
  · cases hres
  · exact (Except.ok.inj hres).symm

/-- A part whose only PATCH fails is deleted. -/
theorem cleanup_deletes_one :
    ∃ c failure, Reach (parMachine plainClient [1])
        (callParallel plainClient (.new 8) 1 [1] () () fun _ => []) c ∧
      c.pool 0 = some (.done (some (.error failure))) ∧ "a" ∈ c.snap.world.deleted := by
  have haccepted : CreationAccepted plainClient none 1 ⟨201, some "a", none, none, none, none⟩ :=
    ⟨"a", "a", 0, rfl, rfl, rfl⟩
  have h := Reach.run_meets (M := parMachine plainClient [1]) (C := Orderly plainClient)
    (c := callParallel plainClient (.new 8) 1 [1] () () fun _ => []) ⟨.refl, fun _ he => nomatch he⟩
    0 (.net false .options) (.ok ["concatenation"]) rfl (.net (.inl ⟨rfl, rfl⟩) rfl .options) trivial
  have h := Reach.run_meets h 0 (.net false (.readChunk 0 1)) (.ok [1]) rfl
    (.net (.inl ⟨rfl, rfl⟩) rfl (.readChunk ⟨[], rfl⟩)) trivial
  have h := Reach.run_meets h 0 (.spawn 0 _ [1]) () rfl (.spawn rfl) trivial
  have h := Reach.run_meets h 1 .start _ rfl (.start rfl) trivial
  have h := Reach.run_meets h 1 (.net true (.post 1 none))
    (.ok ⟨201, some "a", none, none, none, none⟩) rfl
    (.created (k := 0) (.inr ⟨0, _, rfl, rfl⟩) rfl (plainClient_points "a" _ _)
      fun _ _ hv => nomatch hv) fun r hr _ => Except.ok.inj hr ▸ haccepted
  have h := Reach.run_meets h 1 (.net true (.readChunk 0 1)) (.ok [1]) rfl
    (.net (.inr ⟨0, _, rfl, rfl⟩) rfl (.readChunk ⟨[], rfl⟩)) trivial
  have h := Reach.run_meets h 1 (.net true (.patch "a" 0 [1])) (.error (.transport "closed" false))
    rfl (.net (.inr ⟨0, _, rfl, rfl⟩) rfl (.patchLost (.inl rfl))) trivial
  have h := Reach.run_meets h 1 (.finish ⟨0, some "a", .error (.transport "closed" false)⟩) () rfl
    (.finish rfl) trivial
  have h := Reach.run_meets h 0 (.join [0])
    (0, .ok ⟨0, some "a", .error (.transport "closed" false)⟩) rfl
    (.joined List.mem_cons_self rfl) nofun
  have h := Reach.run_meets h 0 (.abortAll []) () rfl .abortAll trivial
  have h := Reach.run_meets h 0 .headers (.ok ()) rfl .headers rfl
  have h := Reach.run_meets h 0 (.delete "a") (.ok ⟨204, none, none, none, none, none⟩) rfl
    .deleted trivial
  exact ⟨_, .upload (.transport "closed" false), h.1, rfl,
    cleanup_deletes plainClient plainClient_lawful (.new 8) 1 [1] (by decide) () () (fun _ => [])
      _ h.1 h.2 _ rfl 1 "a" List.mem_cons_self⟩

/-- One part cannot be created while the other is being uploaded: the task of the other is
aborted, and what it has created is not deleted. -/
theorem abort_leaves_partial :
    ¬∀ c, Reach (parMachine plainClient [1, 2])
        (callParallel plainClient (.withPartSize (.new 8) 1) 1 [1, 2] () () fun _ => []) c →
      ∀ failure, c.pool 0 = some (.done (some (.error failure))) →
        ∀ t url, (t, url) ∈ c.snap.world.received → url ∈ c.snap.world.deleted := by
  intro hall
  have h := Reach.run (M := parMachine plainClient [1, 2]) .refl
    (c := callParallel plainClient (.withPartSize (.new 8) 1) 1 [1, 2] () () fun _ => [])
    0 (.net false .options) (.ok ["concatenation"]) rfl (.net (.inl ⟨rfl, rfl⟩) rfl .options)
  have h := h.run 0 (.net false (.readChunk 0 1)) (.ok [1]) rfl
    (.net (.inl ⟨rfl, rfl⟩) rfl (.readChunk ⟨[2], rfl⟩))
  have h := h.run 0 (.spawn 0 _ [1]) () rfl (.spawn rfl)
  have h := h.run 0 (.net false (.readChunk 1 1)) (.ok [2]) rfl
    (.net (.inl ⟨rfl, rfl⟩) rfl (.readChunk ⟨[], rfl⟩))
  have h := h.run 0 (.spawn 1 _ [2]) () rfl (.spawn rfl)
  have h := h.run 1 .start _ rfl (.start rfl)
  have h := h.run 1 (.net true (.post 1 none)) (.ok ⟨201, some "a", none, none, none, none⟩) rfl
    (.created (k := 0) (.inr ⟨0, _, rfl, rfl⟩) rfl (plainClient_points "a" _ _)
      fun _ _ hv => nomatch hv)
  have h := h.run 2 .start _ rfl (.start rfl)
  have h := h.run 2 (.net true (.post 1 none)) (.error (.transport "closed" false)) rfl
    (.postLost (.inr ⟨1, _, rfl, rfl⟩))
  have h := h.run 2 (.finish ⟨1, none, .error (.transport "closed" false)⟩) () rfl (.finish rfl)
  have h := h.run 0 (.join [0, 1]) (1, .ok ⟨1, none, .error (.transport "closed" false)⟩) rfl
    (.joined (List.mem_cons_of_mem _ List.mem_cons_self) rfl)
  have h := h.run 0 (.abortAll [0]) () rfl .abortAll
  have h := h.run 0 (.join [0]) (0, .error "cancelled") rfl
    (.joinFailed List.mem_cons_self (.inr ⟨rfl, _, _, rfl⟩))
  exact nomatch hall _ h (.upload (.transport "closed" false)) rfl 1 "a" List.mem_cons_self

end Uploader

end TusRs
