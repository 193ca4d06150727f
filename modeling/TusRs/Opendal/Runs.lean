import TusRs.Opendal.Finalize

/-!
# Runs of an upload

The requests on one upload, one after the other. Every object operation and every write of
the persisted record may fail, and a request may be cut off after any of its operations.

Results:

* `run_layout`: the layout is an invariant of every run in which a finalised upload does
  not lose its length.
* `size_and_stream_of_staged`: what `size` and `stream` return in every state of a run.
* `append_extends_content`: an open upload can be continued in every state of a run.
-/

namespace TusRs

open Interaction Protocol

namespace Opendal

inductive Request where
  | receive (q : ReceiveRequest)
  | download

/-- The program of a request; its answer does not matter here. -/
def Request.prog (u : UploadObjects) (id : String) : Request → Prog StoreSig Unit
  | .receive q => Prog.bind (Opendal.receive u id q) fun _ => .done ()
  | .download => Prog.bind (Opendal.download u id) fun _ => .done ()

/-- `p` leads from `w` to `w'` and ends with the result, or is cut off where it is `none`. -/
def Outcome {α : Type} (faults : Prop) (p : Prog StoreSig α) (w : World) (r : Option α)
    (w' : World) : Prop :=
  ∃ hist hist', Exec (store faults) 0 p ⟨w, hist⟩ r ⟨w', hist'⟩

/-- The worlds that requests reach from `w`; `allowed` restricts the requests. -/
inductive Run (u : UploadObjects) (id : String) (allowed : Request → World → Prop) (w : World) :
    World → Prop
  | refl : Run u id allowed w w
  | tail {w₁ w₂ : World} {q : Request} {r : Option Unit} : Run u id allowed w w₁ →
      allowed q w₁ → Outcome True (q.prog u id) w₁ r w₂ → Run u id allowed w w₂

/-- A new upload, after `create`. -/
def fresh (length : Option Nat) : World where
  objects := ∅
  handle := initializeHandle
  length := length
  log := []
  created := length

/-- No PATCH starts on an upload whose main object exists while its persisted length is
unknown, and sizes fit. -/
def Unbroken : Request → World → Prop
  | .receive q, w => Resumable w ∧ Fits w q
  | .download, _ => True

/-! ## Executions -/

section Executions

variable {α : Type} {faults : Prop} {p : Prog StoreSig α} {w w' : World} {r : Option α}

theorem Outcome.spec {I P : World → Prop} {Q : α → World → Prop} (h : Outcome faults p w r w')
    (hspec : SpecIn I faults P p Q) (hw : I w) (hP : P w) :
    I w' ∧ ∀ a, r = some a → Q a w' := by
  obtain ⟨hist, hist', he⟩ := h
  exact hspec.exec hw hP he

/-- Part bodies are never taken back. -/
structure Extends (w w' : World) : Prop where
  log : w.log <+: w'.log
  created : w'.created = w.created

theorem Extends.refl (w : World) : Extends w w := ⟨List.prefix_rfl, rfl⟩

theorem Extends.trans {w'' : World} (h : Extends w w') (h' : Extends w' w'') : Extends w w'' :=
  ⟨h.log.trans h'.log, h'.created.trans h.created⟩

theorem Extends.put (w : World) (k : Key) (b : Bytes) : Extends w (w.put k b) := by
  refine ⟨?_, rfl⟩
  unfold World.put
  dsimp only
  split
  · exact List.prefix_append _ _
  · exact List.prefix_rfl

theorem StoreExec.extends {o : StoreOp} {a : StoreSig.Ans o} (h : StoreExec faults o w a w') :
    Extends w w' := by
  cases h with
  | write => exact .put w _ _
  | writerClose => exact .put w _ _
  | copy => exact .put w _ _
  | @rename _ k => exact ⟨(Extends.put (w.erase k) _ _).log, rfl⟩
  | _ => exact ⟨List.prefix_rfl, rfl⟩

theorem extends_of_exec {s s' : Snap StoreSig World} (h : Exec (store faults) 0 p s r s') :
    Extends s.world s'.world := by
  induction h with
  | done a s => exact .refl _
  | cut p s => exact .refl _
  | step hx _ ih => exact (StoreExec.extends hx).trans ih

theorem Outcome.extends (h : Outcome faults p w r w') : Extends w w' := by
  obtain ⟨hist, hist', he⟩ := h
  exact extends_of_exec he

theorem Run.extends {u : UploadObjects} {id : String} {allowed : Request → World → Prop}
    (h : Run u id allowed w w') : Extends w w' := by
  induction h with
  | refl => exact .refl _
  | tail _ _ ho ih => exact ih.trans ho.extends

/-- What a healthy store does, a store with faults may do. -/
theorem StoreExec.mono {o : StoreOp} {a : StoreSig.Ans o} (h : StoreExec False o w a w') :
    StoreExec faults o w a w' := by
  cases h <;> first
    | contradiction
    | constructor <;> assumption

theorem exec_faulty {s s' : Snap StoreSig World} (h : Exec (store False) 0 p s r s') :
    Exec (store faults) 0 p s r s' := by
  induction h with
  | done a s => exact .done a s
  | cut p s => exact .cut p s
  | step hx _ ih => exact .step (StoreExec.mono hx) ih

theorem Outcome.mono (h : Outcome False p w r w') : Outcome faults p w r w' := by
  obtain ⟨hist, hist', he⟩ := h
  exact ⟨hist, hist', exec_faulty he⟩

/-- An outcome does not depend on what happened before. -/
theorem Outcome.from_hist (h : Outcome faults p w r w') (hist : List (Event StoreSig World)) :
    ∃ hist', Exec (store faults) 0 p ⟨w, hist⟩ r ⟨w', hist'⟩ := by
  obtain ⟨_, _, he⟩ := h
  have hsim : ∀ o w₁ a w₂ v, w₁ = v → (store faults).exec 0 o w₁ a w₂ →
      ∃ v', (store faults).exec 0 o v a v' ∧ w₂ = v' := by
    rintro o w₁ a w₂ _ rfl he
    exact ⟨w₂, he, rfl⟩
  obtain ⟨⟨_, hist'⟩, hx, rfl⟩ := he.simulate hsim (x := ⟨w, hist⟩) rfl
  exact ⟨hist', hx⟩

theorem Outcome.step {o : StoreOp} {k : StoreSig.Ans o → Prog StoreSig α} {a : StoreSig.Ans o}
    {w₁ : World} (he : StoreExec faults o w a w₁) (h : Outcome faults (k a) w₁ r w') :
    Outcome faults (.step o k) w r w' := by
  obtain ⟨hist', hx⟩ := h.from_hist [⟨0, o, a, w⟩]
  exact ⟨[], hist', .step he hx⟩

theorem Outcome.cut (p : Prog StoreSig α) (w : World) : Outcome faults p w none w :=
  ⟨[], [], .cut p _⟩

/-- The entries of a listing that reports every size. -/
def listing (objects : Objects) (pre : Prefix) : List Entry :=
  (objects.keys.filter fun k => decide (pre.has k)).map fun k =>
    ⟨k, true, ((objects.lookup k).getD []).length⟩

theorem lists_listing (objects : Objects) (pre : Prefix) :
    Lists objects pre (listing objects pre) where
  sound e he _ := by
    obtain ⟨k, hk, rfl⟩ := List.mem_map.mp he
    obtain ⟨hmem, hpre⟩ := List.mem_filter.mp hk
    obtain ⟨b, hb⟩ := Option.isSome_iff_exists.mp (AList.lookup_isSome.mpr hmem)
    exact ⟨of_decide_eq_true hpre, b, hb, .inl (by simp [hb])⟩
  complete k b hpre hb := by
    have hmem : k ∈ objects.keys := AList.lookup_isSome.mp (Option.isSome_iff_exists.mpr ⟨b, hb⟩)
    refine ⟨_, List.mem_map_of_mem (List.mem_filter.mpr ⟨hmem, decide_eq_true hpre⟩), rfl, rfl⟩
  nodup := by
    have hall : ∀ e ∈ listing objects pre, e.isFile = true := by
      intro e he
      obtain ⟨k, -, rfl⟩ := List.mem_map.mp he
      rfl
    rw [List.filter_eq_self.mpr hall, listing, List.map_map]
    refine (List.Nodup.filter _ objects.nodupKeys).map fun a b h => h

/-- A healthy store can perform every operation. -/
theorem healthy_enabled (o : StoreOp) (w : World) : ∃ a w', StoreExec False o w a w' := by
  cases o with
  | stat k =>
    cases h : w.objects.lookup k with
    | none => exact ⟨_, _, .statMissing h⟩
    | some b => exact ⟨_, _, .stat h⟩
  | list pre => exact ⟨_, _, .list (lists_listing w.objects pre)⟩
  | write k b => exact ⟨_, _, .write⟩
  | writer k => exact ⟨_, _, .writer⟩
  | writerWrite k b => exact ⟨_, _, .writerWrite⟩
  | writerClose k b => exact ⟨_, _, .writerClose⟩
  | writerAbort k => exact ⟨.ok (), _, .writerAbort⟩
  | read k =>
    cases h : w.objects.lookup k with
    | none => exact ⟨_, _, .readMissing h⟩
    | some b => exact ⟨_, _, .read h⟩
  | rename k k' =>
    cases h : w.objects.lookup k with
    | none => exact ⟨_, _, .renameMissing h⟩
    | some b => exact ⟨_, _, .rename h⟩
  | copy k k' =>
    cases h : w.objects.lookup k with
    | none => exact ⟨_, _, .copyMissing h⟩
    | some b => exact ⟨_, _, .copy h⟩
  | delete k => exact ⟨_, _, .delete⟩
  | deletePrefix pre => exact ⟨_, _, .deletePrefix⟩
  | uuid => exact ⟨(0 : Nat), _, .uuid⟩
  | load => exact ⟨_, _, .load⟩
  | save h l => exact ⟨_, _, .save⟩

/-- On a healthy store every program runs to its end. -/
theorem outcome_exists (p : Prog StoreSig α) (w : World) :
    ∃ a w', Outcome False p w (some a) w' := by
  obtain ⟨a, s', he⟩ := Exec.exists_done (M := store False) healthy_enabled p ⟨w, []⟩
  exact ⟨a, s'.world, [], s'.hist, he⟩

end Executions

/-! ## The invariant of a run -/

section Invariant

variable {u : UploadObjects} {id : String} {w w' : World}

theorem fresh_layout {length : Option Nat} (h : ∀ l, length = some l → l ≤ u64Max) :
    Layout (fresh length) where
  count := Nat.zero_le _
  fits := Nat.zero_le _
  bounded _ _ := Nat.zero_le _
  length_fits := h
  known _ hl := hl
  shape := .inl {
    main := rfl
    parts := fun i => by cases i <;> rfl
    cursor_pos := Nat.le_refl 1
    cursor_le := Nat.le_refl 1
    counted := fun _ n hn => (Option.some.inj hn).symm
    marker := fun _ hne => absurd rfl hne }

theorem Request.layout (q : Request) {r : Option Unit} (hw : Layout w)
    (hfew : w.log.length < 10 ^ 10) (hq : Unbroken q w)
    (ho : Outcome True (q.prog u id) w r w') : Layout w' := by
  have hcount : w.log.length < u64Max := hfew.trans (by decide)
  have hspec : Spec True (· = w) (q.prog u id) (fun _ _ => True) := by
    cases q with
    | receive q =>
      exact Triple.bind _ (receive_spec hw hq.1 hcount hq.2) fun _ =>
        Triple.done fun _ _ => trivial
    | download =>
      exact Triple.bind _ (download_spec hw hfew) fun _ => Triple.done fun _ _ => trivial
  exact (ho.spec hspec hw rfl).1

/-- Every world of an unbroken run has the layout, as long as there are fewer than
`10 ^ 10` parts. -/
theorem run_layout (hw : Layout w) (hrun : Run u id Unbroken w w')
    (hfew : w'.log.length < 10 ^ 10) : Layout w' := by
  induction hrun with
  | refl => exact hw
  | tail _ hq ho ih =>
    have hfew₁ := ho.extends.log.length_le.trans_lt hfew
    exact Request.layout _ (ih hfew₁) hfew₁ hq ho

/-- With a length known from creation every run is unbroken. -/
theorem unbroken_of_known {L : Nat} {allowed : Request → World → Prop} (hL : L ≤ u64Max)
    (hrun : Run u id allowed (fresh (some L)) w) (hfew : w.log.length < 10 ^ 10) :
    Run u id Unbroken (fresh (some L)) w := by
  induction hrun with
  | refl => exact .refl
  | @tail w₁ w₂ q r hrun _ ho ih =>
    have hfew₁ := ho.extends.log.length_le.trans_lt hfew
    have hlayout := run_layout (fresh_layout fun l hl => Option.some.inj hl ▸ hL) (ih hfew₁) hfew₁
    have hlen : w₁.length = some L := hlayout.known L hrun.extends.created
    refine .tail (ih hfew₁) ?_ ho
    cases q with
    | receive q =>
      refine ⟨fun _ => ?_, fun hnone => ?_⟩
      · rw [hlen]
        exact Option.some_ne_none L
      · rw [hlen] at hnone
        cases hnone
    | download => trivial

end Invariant

/-! ## Uploads of known length -/

section Known

variable {u : UploadObjects} {id : String} {w : World}

/-- In every world that requests, failures and crashes reach from an upload of known length:
`size` reports the bytes of the part bodies staged, and when that is the length `stream`
returns these bodies in the order of staging. Healthy, neither fails. -/
theorem size_and_stream_of_staged (hp : u.Promotes) {L : Nat} (hL : L ≤ u64Max)
    (hrun : Run u id (fun _ _ => True) (fresh (some L)) w) (hfew : w.log.length < 10 ^ 10) :
    (∀ n w', Outcome True size w (some (.ok n)) w' → n = reported w.log) ∧
    (∀ r w', Outcome False size w (some r) w' → r = .ok (reported w.log)) ∧
    (reported w.log = some L →
      (∀ bytes w', Outcome True (stream u) w (some (.ok bytes)) w' → bytes = w.log.flatten) ∧
      (∀ r w', Outcome False (stream u) w (some r) w' → r = .ok w.log.flatten) ∧
      ∃ w', Outcome False (stream u) w (some (.ok w.log.flatten)) w') := by
  have hw : Layout w := run_layout (fresh_layout fun l hl => Option.some.inj hl ▸ hL)
    (unbroken_of_known hL hrun hfew) hfew
  refine ⟨fun n w' ho => ?_, fun r w' ho => ?_, fun hfull => ?_⟩
  · exact ((ho.spec (storedSize_spec hw) hw rfl).2 _ rfl).2
  · have hres := (ho.spec (storedSize_spec hw) hw rfl).2 _ rfl
    cases r with
    | ok n => exact congrArg _ hres.2
    | error e => exact hres.2.elim
  · have hc : Complete w := by
      have hlen := hw.known L hrun.extends.created
      unfold reported at hfull
      split at hfull
      · cases hfull
      · next hne => exact ⟨hne, hlen.trans hfull.symm⟩
    have hhealthy : ∀ r w', Outcome False (stream u) w (some r) w' → r = .ok w.log.flatten := by
      intro r w' ho
      have hres := (ho.spec (stream_spec hw hc hfew) hw rfl).2 r rfl
      cases r with
      | ok bytes => exact congrArg _ hres.1
      | error e => exact (hres hp).elim
    refine ⟨fun bytes w' ho => ?_, hhealthy, ?_⟩
    · exact ((ho.spec (stream_spec hw hc hfew) hw rfl).2 _ rfl).1
    · obtain ⟨r, w', ho⟩ := outcome_exists (stream u) w
      exact ⟨w', hhealthy r w' ho ▸ ho⟩

end Known

/-! ## Healthy runs -/

section Healthy

variable {u : UploadObjects} {id : String} {w : World}

/-- On a healthy store a request that the protocol lets through is served. -/
theorem receive_healthy (id : String) (hp : u.Promotes) (hw : Layout w)
    (hcount : w.log.length < u64Max) (q : ReceiveRequest) (hq : Unbroken (.receive q) w)
    (hready : Ready w q) {bytes : Bytes} (hdata : q.body.data.collect = some bytes) :
    ∃ w', Outcome False ((Request.receive q).prog u id) w (some ()) w' ∧ Layout w' ∧
      Received False u w q (.ok ()) w' := by
  obtain ⟨r, w', hist, hist', he⟩ := outcome_exists (Opendal.receive u id q) w
  obtain ⟨hw', hres⟩ := (receive_spec hw hq.1 hcount hq.2).exec hw rfl he
  have hres := hres r rfl
  refine ⟨w', ⟨hist, hist', Exec.bind he (.done () _)⟩, hw', ?_⟩
  cases r with
  | ok _ => exact hres
  | error e =>
    rcases hres hp hready with hf | hnone
    · exact hf.elim
    · cases hdata.symm.trans hnone

/-- A PATCH of one byte. -/
def onePatch (b : UInt8) (declared : Option Nat)
    (h : ∀ l, declared = some l → l ≤ u64Max) : ReceiveRequest where
  config := .default
  declared := declared
  declared_fits := h
  kind := .patch
  body := ⟨.buffered [b], 1, fun _ hb => Option.some.inj hb ▸ rfl⟩

/-- `onePatch` without a length. -/
def nextByte (b : UInt8) : ReceiveRequest := onePatch b none nofun

theorem checkReceive_nextByte {b : UInt8} {l offset : Nat} (h : offset + 1 ≤ l) (hl : l ≤ u64Max) :
    checkReceive (nextByte b) (some l) offset = .ok (some l, decide (l = offset + 1)) := by
  have hsat : satAdd offset 1 = offset + 1 := satAdd_eq (h.trans hl)
  have hsize : ¬l - offset < 1 := by omega
  simp [checkReceive, nextByte, onePatch, Config.default, resolveLength, receiveBodyLimit,
    receiveBodySizeLimit, tightest, List.reduceOption, enforce, validateBodyForReceive,
    validateReceiveBody, validateCreationWithUploadBody, hsat, Nat.not_lt.mpr h, hsize, bind,
    Except.bind, pure, Except.pure]

/-- One more byte for an upload of known length. -/
theorem nextByte_known (u : UploadObjects) (id : String) (hp : u.Promotes) {L : Nat}
    (hw : Layout w) (hlen : w.length = some L) (hlt : total w.log < L)
    (hcount : w.log.length < u64Max) (b : UInt8) :
    ∃ w', Outcome False ((Request.receive (nextByte b)).prog u id) w (some ()) w' ∧
      Layout w' ∧ w'.log = w.log ++ [[b]] ∧ w'.length = some L ∧
      (total w.log + 1 = L → Promoted w') := by
  have hcheck : checkReceive (nextByte b) (some L) (total w.log) =
      .ok (some L, decide (L = total w.log + 1)) :=
    checkReceive_nextByte hlt (hw.length_fits L hlen)
  have hready : Ready w (nextByte b) := by
    refine ⟨fun hc => ?_, _, hlen ▸ hcheck⟩
    exact Nat.ne_of_gt hlt (Option.some.inj (hlen.symm.trans hc.2))
  have hq : Unbroken (.receive (nextByte b)) w :=
    ⟨fun _ => hlen ▸ Option.some_ne_none L, fun hnone => by rw [hlen] at hnone; cases hnone⟩
  obtain ⟨w', ho, hw', bytes, completes, hbytes, ha, hlog, -, hshape⟩ :=
    receive_healthy id hp hw hcount (nextByte b) hq hready rfl
  obtain rfl := Option.some.inj hbytes
  rw [hlen] at ha
  obtain ⟨hlen', hcomp⟩ := Prod.mk.inj (Except.ok.inj (hcheck.symm.trans ha))
  refine ⟨w', ho, hw', hlog, hlen'.symm, fun hfull => ?_⟩
  have hcompletes : completes = true := by
    rw [← hcomp]
    exact decide_eq_true hfull.symm
  rw [if_pos hcompletes] at hshape
  exact hshape

/-- The upload of a zero byte, again and again. -/
theorem zeros_run (u : UploadObjects) (id : String) (hp : u.Promotes) {L : Nat} (hL : L ≤ u64Max) (k : Nat) (hk : k < L) :
    ∃ w, Run u id (fun _ _ => True) (fresh (some L)) w ∧ Layout w ∧ w.length = some L ∧
      w.log = List.replicate k [0] := by
  induction k with
  | zero => exact ⟨_, .refl, fresh_layout fun l hl => Option.some.inj hl ▸ hL, rfl, rfl⟩
  | succ k ih =>
    obtain ⟨w, hrun, hw, hlen, hlog⟩ := ih (Nat.lt_of_succ_lt hk)
    have htotal : total w.log = k := by simp [hlog, total]
    obtain ⟨w', ho, hw', hlog', hlen', -⟩ := nextByte_known u id hp hw hlen
      (by omega) (by rw [hlog, List.length_replicate]; omega) 0
    refine ⟨w', .tail hrun trivial ho.mono, hw', hlen', ?_⟩
    rw [hlog', hlog, List.replicate_succ']

/-- The bodies of an upload of `L` bytes: zeros and at last a one. -/
def zerosAndOne (L : Nat) : List Bytes := List.replicate (L - 1) [0] ++ [[1]]

theorem zerosAndOne_run (u : UploadObjects) (id : String) (hp : u.Promotes) {L : Nat} (hpos : 0 < L) (hL : L ≤ u64Max) :
    ∃ w, Run u id (fun _ _ => True) (fresh (some L)) w ∧ Layout w ∧ Promoted w ∧
      w.log = zerosAndOne L := by
  obtain ⟨w, hrun, hw, hlen, hlog⟩ := zeros_run u id hp hL (L - 1) (by omega)
  have htotal : total w.log = L - 1 := by simp [hlog, total]
  obtain ⟨w', ho, hw', hlog', -, hprom⟩ := nextByte_known u id hp hw hlen
    (by omega) (by rw [hlog, List.length_replicate]; omega) 1
  refine ⟨w', .tail hrun trivial ho.mono, hw', hprom (by omega), ?_⟩
  rw [hlog', hlog, zerosAndOne]

theorem total_zerosAndOne {L : Nat} (hpos : 0 < L) : total (zerosAndOne L) = L := by
  simp [total, zerosAndOne]
  omega

theorem zerosAndOne_ne_nil (L : Nat) : zerosAndOne L ≠ [] := by simp [zerosAndOne]

/-- A materialised upload is read as it was materialised. -/
theorem stream_promoted (hprom : Promoted w) :
    Spec False (· = w) (stream u) (fun r _ => r = .ok (material w.log)) := by
  refine stat_spec (fun b _ => ?_) (fun hn => ?_) fun _ hf => hf.elim
  · refine readObject_spec (fun b hb => ?_) (fun hn => ?_) fun _ hf => hf.elim
    · refine Triple.done fun _ _ => ?_
      rw [hprom.main] at hb
      exact congrArg _ (Option.some.inj hb).symm
    · rw [hprom.main] at hn
      cases hn
  · rw [hprom.main] at hn
    cases hn

/-- The last name is the last one materialised. -/
theorem materialOrder_last {n : Nat} (hn : n ≠ 0) :
    ∃ init m, materialOrder n = init ++ [m] ∧ 1 ≤ m ∧ m ≤ n ∧
      ∀ i, 1 ≤ i → i ≤ n → (Key.part i).name ≤ (Key.part m).name := by
  obtain ⟨init, m, hm⟩ : ∃ init m, materialOrder n = init ++ [m] :=
    ⟨_, _, (List.dropLast_append_getLast (mt materialOrder_eq_nil.mp hn)).symm⟩
  have hmem : ∀ i, i ∈ init ++ [m] ↔ 1 ≤ i ∧ i ≤ n := by
    intro i
    rw [← hm, (materialOrder_perm n).mem_iff, List.mem_range'_1]
    omega
  have hrange := (hmem m).mp (by simp)
  refine ⟨init, m, hm, hrange.1, hrange.2, fun i h₁ h₂ => ?_⟩
  have hsorted := materialOrder_byName n
  rw [hm, ByName, List.pairwise_append] at hsorted
  rcases List.mem_append.mp ((hmem i).mpr ⟨h₁, h₂⟩) with hi | hi
  · exact hsorted.2.2 i hi m (by simp)
  · rw [List.mem_singleton.mp hi]

/-- With `10 ^ 10` parts the last part does not have the last name. -/
theorem material_zerosAndOne {L : Nat} (hL : 10 ^ 10 = L) :
    material (zerosAndOne L) ≠ (zerosAndOne L).flatten := by
  have hlen : (zerosAndOne L).length = L := by
    simp only [zerosAndOne, List.length_append, List.length_replicate, List.length_singleton]
    omega
  obtain ⟨init, m, hm, h₁, h₂, hlast⟩ := materialOrder_last (n := L) (by omega)
  have hne : m ≠ L := by
    rintro rfl
    have hle := hlast (m - 1) (by omega) (Nat.sub_le m 1)
    rw [← hL] at hle
    exact absurd hle (by decide +kernel)
  obtain ⟨i, rfl⟩ : ∃ i, m = i + 1 := ⟨m - 1, by omega⟩
  have hbody : body (zerosAndOne L) (i + 1) = some [0] := by
    simp only [body, zerosAndOne]
    rw [List.getElem?_append_left (by rw [List.length_replicate]; omega),
      List.getElem?_replicate_of_lt (by omega)]
  have hlast : material (zerosAndOne L) =
      (init.flatMap fun j => (body (zerosAndOne L) j).getD []) ++ [0] := by
    rw [material, hlen, hm, List.flatMap_append]
    simp only [List.flatMap_cons, List.flatMap_nil, hbody, Option.getD_some, List.append_nil]
  have hone : (zerosAndOne L).flatten = (List.replicate (L - 1) [0]).flatten ++ [1] := by
    simp only [zerosAndOne, List.flatten_append, List.flatten_cons, List.flatten_nil,
      List.append_nil]
  rw [hlast, hone]
  intro heq
  cases List.append_inj_right' heq rfl

/-- The upload of `L` bytes in `L` parts is complete, and read as it was materialised. -/
theorem zerosAndOne_served (u : UploadObjects) (id : String) (hp : u.Promotes) {L : Nat} (hpos : 0 < L) (hL : L ≤ u64Max) :
    ∃ w, Run u id (fun _ _ => True) (fresh (some L)) w ∧ w.log = zerosAndOne L ∧
      (∃ w', Outcome False size w (some (.ok (some L))) w') ∧
      ∃ w', Outcome False (stream u) w (some (.ok (material (zerosAndOne L)))) w' := by
  obtain ⟨w, hrun, hw, hprom, hlog⟩ := zerosAndOne_run u id hp hpos hL
  have hreported : reported w.log = some L := by
    rw [hlog, reported, if_neg (zerosAndOne_ne_nil L), total_zerosAndOne hpos]
  refine ⟨w, hrun, hlog, ?_, ?_⟩
  · obtain ⟨r, w', hsize⟩ := outcome_exists size w
    have hr := (hsize.spec (storedSize_spec hw) hw rfl).2 r rfl
    cases r with
    | error e => exact hr.2.elim
    | ok n =>
      obtain rfl := hr.2.trans hreported
      exact ⟨w', hsize⟩
  · obtain ⟨r, w', hstream⟩ := outcome_exists (stream u) w
    have hr := (hstream.spec (stream_promoted hprom) hw rfl).2 r rfl
    rw [hlog] at hr
    exact ⟨w', hr ▸ hstream⟩

end Healthy

/-- A service that can rename. -/
def fsObjects : UploadObjects := ⟨"upload", true, true⟩

theorem fsObjects_promotes : fsObjects.Promotes := .inl rfl

/-- An upload of `10 ^ 10` bytes in as many parts is complete and read in another order. -/
theorem stream_reorders_parts :
    ¬∀ (u : UploadObjects) (id : String) (L : Nat) (w : World), u.Promotes → L ≤ u64Max →
      Run u id (fun _ _ => True) (fresh (some L)) w →
      (∃ w', Outcome True size w (some (.ok (some L))) w') →
      ∀ bytes w', Outcome True (stream u) w (some (.ok bytes)) w' → bytes = w.log.flatten := by
  intro hclaim
  -- the length stays a variable: no list of that many parts is ever computed
  obtain ⟨L, hL⟩ : ∃ L, 10 ^ 10 = L := ⟨_, rfl⟩
  have hpos : 0 < L := by omega
  have hfit : L ≤ u64Max := by
    rw [← hL]
    decide
  obtain ⟨w, hrun, hlog, ⟨w₁, hsize⟩, w₂, hstream⟩ :=
    zerosAndOne_served fsObjects "upload" fsObjects_promotes hpos hfit
  have heq := hclaim fsObjects "upload" L w fsObjects_promotes hfit hrun ⟨w₁, hsize.mono⟩ _ w₂
    hstream.mono
  rw [hlog] at heq
  exact material_zerosAndOne hL heq

/-- Two bytes in two requests. -/
theorem size_and_stream_of_two_bytes :
    ∃ w, Run fsObjects "upload" (fun _ _ => True) (fresh (some 2)) w ∧
      ∃ w', Outcome False (stream fsObjects) w (some (.ok [0, 1])) w' := by
  obtain ⟨w, hrun, hw, hprom, hlog⟩ := zerosAndOne_run fsObjects "upload" fsObjects_promotes
    (L := 2) (by decide) (by decide)
  have h := size_and_stream_of_staged fsObjects_promotes (by decide) hrun
    (by rw [hlog]; decide)
  obtain ⟨w', ho⟩ := (h.2.2 (by rw [hlog]; rfl)).2.2
  rw [hlog] at ho
  exact ⟨w, hrun, w', ho⟩

/-! ## The content of an upload -/

section Content

variable {u : UploadObjects} {id : String} {w w' : World}

/-- The numbers of the parts there are, in order. -/
def partNumbers (w : World) : List Nat :=
  (w.objects.keys.filterMap partNumber).mergeSort fun a b => decide (a ≤ b)

/-- The accepted bytes: the staged parts by number, unless the main object has as many. -/
def content (w : World) : Bytes :=
  let staged := (partNumbers w).flatMap fun i => bytesAt w (.part i)
  match w.objects.lookup .main with
  | some main => if staged.length ≤ main.length then main else staged
  | none => staged

theorem mem_partNumbers {i : Nat} :
    i ∈ partNumbers w ↔ ∃ b, w.objects.lookup (.part i) = some b := by
  rw [partNumbers, (List.mergeSort_perm _ _).mem_iff, List.mem_filterMap]
  constructor
  · rintro ⟨k, hk, hi⟩
    cases k with
    | part n =>
      obtain rfl := Option.some.inj hi
      exact Option.isSome_iff_exists.mp (AList.lookup_isSome.mpr hk)
    | main | complete | temp _ _ => cases hi
  · rintro ⟨b, hb⟩
    exact ⟨_, AList.lookup_isSome.mp (Option.isSome_iff_exists.mpr ⟨b, hb⟩), rfl⟩

theorem partNumbers_sorted (w : World) : (partNumbers w).Pairwise (· < ·) := by
  have hle : (partNumbers w).Pairwise (· ≤ ·) := by
    refine List.Pairwise.imp (R := fun a b => decide (a ≤ b) = true)
      (fun hab => of_decide_eq_true hab) (List.pairwise_mergeSort ?_ ?_ _)
    · intro a b c hab hbc
      rw [decide_eq_true_eq] at *
      omega
    · intro a b
      rw [Bool.or_eq_true, decide_eq_true_eq, decide_eq_true_eq]
      omega
  have hnodup : (partNumbers w).Nodup := by
    rw [partNumbers, (List.mergeSort_perm _ _).nodup_iff]
    refine w.objects.nodupKeys.filterMap fun a b n ha hb => ?_
    cases a <;> cases b <;> simp_all [partNumber]
  exact (hle.and hnodup).imp fun h => Nat.lt_of_le_of_ne h.1 h.2

theorem partNumbers_nodup (w : World) : (partNumbers w).Nodup :=
  (partNumbers_sorted w).imp fun h => Nat.ne_of_lt h

/-- The numbers of an upload in parts. -/
theorem Spread.numbers {log : List Bytes} {base : Nat} (h : Spread log base w) :
    partNumbers w = List.range' (base + 1) log.length := by
  refine List.Perm.eq_of_pairwise (fun _ _ _ _ h h' => absurd h (Nat.lt_asymm h'))
    (partNumbers_sorted w) List.pairwise_lt_range' ?_
  refine (List.perm_ext_iff_of_nodup (partNumbers_nodup w) List.nodup_range').mpr fun i => ?_
  rw [mem_partNumbers, h.parts, body_sub_isSome]

theorem Spread.flatMap_parts {log : List Bytes} {base : Nat} (h : Spread log base w) :
    (List.range' (base + 1) log.length).flatMap (fun i => bytesAt w (.part i)) = log.flatten := by
  have hbody : ∀ i, bytesAt w (.part i) = (body log (i - base)).getD [] := fun i => by
    rw [bytesAt, h.parts]
  simp only [hbody, List.flatMap_def, map_body_from]

/-- The content of a layout is the history of its bodies. -/
theorem content_eq (hw : Layout w) (hfew : w.log.length < 10 ^ 10) :
    content w = w.log.flatten := by
  rcases hw.shape with hs | hp
  · unfold content
    rw [hs.main, hs.spread.numbers]
    exact hs.spread.flatMap_parts
  · have hle : ((partNumbers w).flatMap fun i => bytesAt w (.part i)).length ≤
        (material w.log).length := by
      rw [material_length, List.length_flatMap]
      exact hp.gathered.leftover_le (partNumbers_nodup w) fun i hi => mem_partNumbers.mp hi
    unfold content
    rw [hp.main]
    simp only [hle, if_true]
    exact material_eq hfew

/-- A body that the protocol may append at offset `n`: it fits, and it completes the upload
exactly when it reaches a known length. -/
structure Appendable (w : World) (n : Nat) (bytes : Bytes) (completes : Bool) : Prop where
  fits : n + bytes.length ≤ u64Max
  within : ∀ l, w.length = some l → n + bytes.length ≤ l
  completes_iff : ∀ l, w.length = some l → (completes = true ↔ l = n + bytes.length)

/-- In every world of an unbroken run, whatever the persisted handle says: when `size`
reports `n` bytes and the persisted length is unknown or greater, an append at `n` succeeds
on a healthy store and extends the content by its body. What was accepted stays. -/
theorem append_extends_content (hp : u.Promotes) {created : Option Nat}
    (hcreated : ∀ l, created = some l → l ≤ u64Max)
    (hrun : Run u id Unbroken (fresh created) w) (hfew : w.log.length + 1 < 10 ^ 10)
    (hres : Resumable w) {stored : Option Nat} {ws : World}
    (hsize : Outcome True size w (some (.ok stored)) ws)
    (hopen : ∀ l, w.length = some l → stored.getD 0 < l)
    {data : ChunkStream} {bytes : Bytes} {completes : Bool} (hdata : data.collect = some bytes)
    (hbody : Appendable w (stored.getD 0) bytes completes) :
    (content w).length = stored.getD 0 ∧
    (∀ r w', Outcome False (append u w.handle (stored.getD 0) data completes) w (some r) w' →
      (∃ h, r = .ok h) ∧ content w' = content w ++ bytes) ∧
    (∃ r w', Outcome False (append u w.handle (stored.getD 0) data completes) w (some r) w') ∧
    ∀ w', Run u id Unbroken w w' → w'.log.length < 10 ^ 10 → content w <+: content w' := by
  have hfew' : w.log.length < 10 ^ 10 := Nat.lt_of_succ_lt hfew
  have hw : Layout w := run_layout (fresh_layout hcreated) hrun hfew'
  have hstored : stored.getD 0 = total w.log := by
    rw [((hsize.spec (storedSize_spec hw) hw rfl).2 _ rfl).2, reported_getD]
  rw [hstored] at hopen hbody ⊢
  have hnotfull : w.length ≠ some (total w.log) := fun hl => Nat.lt_irrefl _ (hopen _ hl)
  have hs : Staged w := by
    rcases hw.shape with hs | hp
    · exact hs
    · -- a finalised upload has its length, and is full
      obtain ⟨l, hl⟩ := Option.ne_none_iff_exists'.mp (hres (by rw [hp.main]; simp))
      exact absurd (hl.trans (congrArg some (hp.full l hl))) hnotfull
  have ha : Accepts w data.collect completes := by
    refine ⟨hfew'.trans (by decide), ?_, ?_, ?_, ?_, fun hl => absurd hl hnotfull⟩
    · intro b hb
      cases hdata.symm.trans hb
      exact hbody.fits
    · intro b l hb hl
      cases hdata.symm.trans hb
      exact hbody.within l hl
    · intro b hb hl
      cases hdata.symm.trans hb
      exact (hbody.completes_iff _ hl).mpr rfl
    · intro hc b l hb hl
      cases hdata.symm.trans hb
      exact (hbody.completes_iff l hl).mp hc
  rw [content_eq hw hfew']
  refine ⟨rfl, fun r w' ho => ?_, outcome_exists _ w, fun w' hrun' hfew'' => ?_⟩
  · obtain ⟨hw', hpost⟩ := ho.spec (append_spec hw hs ha) hw rfl
    have hpost := hpost r rfl
    cases r with
    | error e =>
      rcases hpost hp with hf | hnone
      · exact hf.elim
      · cases hdata.symm.trans hnone
    | ok h =>
      obtain ⟨b, hb, hlog, -⟩ := hpost
      cases hdata.symm.trans hb
      refine ⟨⟨h, rfl⟩, ?_⟩
      rw [content_eq hw' (by rw [hlog, List.length_append]; exact hfew), hlog]
      simp
  · rw [content_eq (run_layout hw hrun' hfew'') hfew'']
    obtain ⟨rest, hrest⟩ := hrun'.extends.log
    rw [← hrest, List.flatten_append]
    exact List.prefix_append _ _

end Content

/-! ## A length that is lost -/

section LostLength

variable {u : UploadObjects} {id : String} {w : World}

/-- A request that is cut off after its append, before the record is written. -/
theorem receive_cut_before_save (id : String) (hp : u.Promotes) (hw : Layout w) (hs : Staged w)
    (q : ReceiveRequest) {length : Option Nat} {completes : Bool} {bytes : Bytes}
    (hopen : ¬Complete w) (hdata : q.body.data.collect = some bytes)
    (hcheck : checkReceive q w.length (total w.log) = .ok (length, completes))
    (ha : Accepts w q.body.data.collect completes) :
    ∃ h w', Outcome False ((Request.receive q).prog u id) w none w' ∧ Layout w' ∧
      Appended False u w q.body.data.collect completes (.ok h) w' := by
  have hM := healthy_enabled
  obtain ⟨r, s₁, hsize⟩ := Exec.exists_done (M := store False) hM size
    ((⟨w, []⟩ : Snap StoreSig World).push 0 .load (w.handle, w.length) w)
  obtain ⟨hw₁, hr⟩ := (storedSize_spec hw).exec hw rfl hsize
  have hr := hr r rfl
  cases r with
  | error e => exact hr.2.elim
  | ok stored =>
    obtain ⟨hworld, rfl⟩ := hr
    obtain ⟨ra, s₂, happ⟩ := Exec.exists_done (M := store False) hM
      (append u w.handle (total w.log) q.body.data completes) s₁
    obtain ⟨hw₂, hra⟩ := (append_spec hw hs ha).exec hw₁ hworld happ
    have hra := hra ra rfl
    cases ra with
    | error e =>
      rcases hra hp with hf | hnone
      · exact hf.elim
      · cases hdata.symm.trans hnone
    | ok h =>
      refine ⟨h, s₂.world, ⟨[], s₂.hist, ?_⟩, hw₂, hra⟩
      refine Exec.bind_cut (.step .load (Exec.bind hsize ?_))
      have hrefused : ¬((reported w.log).isSome ∧ reported w.log = (w.handle, w.length).2) := by
        rintro ⟨hsome, heq⟩
        refine hopen ?_
        unfold reported at hsome heq
        split at hsome
        · cases hsome
        · next hne => exact ⟨hne, by rw [if_neg hne] at heq; exact heq.symm⟩
      dsimp only
      rw [if_neg hrefused, reported_getD, hcheck]
      exact Exec.bind happ (.cut _ _)

/-- With the parts gone and a handle from before the last body, no append is accepted at
the size of the upload. -/
theorem append_refused {n : Nat} {data : ChunkStream} {completes : Bool}
    (hgone : ∀ i, w.objects.lookup (.part i) = none) {m : Nat}
    (hstale : stagedSizeFact w.handle = some m) (hne : m ≠ n) :
    Spec False (· = w) (append u w.handle n data completes) (fun r _ => ∀ h, r ≠ .ok h) := by
  refine stat_spec (fun b hb => ?_) (fun _ => ?_) fun _ hf => hf.elim
  · rw [hgone] at hb
    cases hb
  · rw [hstale]
    refine Triple.bind (fun r _ => ∀ h, r ≠ .ok h) ?_ fun r => ?_
    · exact Triple.ite (fun _ => Triple.done fun _ _ _ => nofun) fun heq => absurd hne heq
    · cases r with
      | error e => exact Triple.done fun _ _ _ => nofun
      | ok h => exact fun _ hs => absurd rfl (hs h)

theorem first_byte_unbroken (b : UInt8) : Unbroken (.receive (nextByte b)) (fresh none) :=
  ⟨fun h => absurd rfl h, fun _ _ => show 0 + 1 ≤ u64Max by decide⟩

/-- The first byte of an upload of unknown length, on a healthy store. -/
theorem first_byte_run (u : UploadObjects) (id : String) (hp : u.Promotes) (b : UInt8) :
    ∃ w, Outcome False ((Request.receive (nextByte b)).prog u id) (fresh none) (some ()) w ∧
      Layout w ∧ Staged w ∧ w.log = [[b]] ∧ w.length = none ∧ w.handle = ⟨some 2, some 1⟩ := by
  have hw : Layout (fresh none) := fresh_layout nofun
  have hcheck : checkReceive (nextByte b) (fresh none).length (total (fresh none).log) =
      .ok (none, false) := rfl
  obtain ⟨w, ho, hw', bytes, completes, hbytes, ha, hlog, hhandle, hshape⟩ :=
    receive_healthy id hp hw (by decide) (nextByte b) (first_byte_unbroken b)
      ⟨fun hc => hc.1 rfl, _, hcheck⟩ rfl
  obtain rfl := Option.some.inj hbytes
  obtain ⟨hlen, hcomp⟩ := Prod.mk.inj (Except.ok.inj (hcheck.symm.trans ha))
  rw [← hcomp, if_neg Bool.false_ne_true] at hshape
  exact ⟨w, ho, hw', hshape, hlog, hlen.symm, hhandle⟩

end LostLength

/-- The second of two bytes declares the length, completes the upload and is finalised; the
process stops before the record is written. The upload then has two bytes and no persisted
length, and no body is accepted any more. -/
theorem append_refused_after_lost_length :
    ¬∀ (u : UploadObjects) (id : String) (w : World), u.Promotes →
      Run u id (fun _ _ => True) (fresh none) w →
      ∀ n ws, Outcome True size w (some (.ok (some n))) ws → w.length = none →
      ∀ bytes r w', bytes ≠ [] → n + bytes.length ≤ u64Max →
        Outcome False (append u w.handle n (.buffered bytes) false) w (some r) w' →
        ∃ h, r = .ok h := by
  intro hclaim
  obtain ⟨w, ho, hw, hs, hlog, hlen, hhandle⟩ :=
    first_byte_run fsObjects "upload" fsObjects_promotes 1
  have hlength : ∀ l, some 2 = some l → l ≤ u64Max := fun l hl => Option.some.inj hl ▸ (by decide)
  have hcheck : checkReceive (onePatch 2 (some 2) hlength) w.length (total w.log) =
      .ok (some 2, true) := by
    rw [hlen, hlog]
    rfl
  have ha : Accepts w (some [2]) true := by
    refine ⟨?_, ?_, fun _ l _ hl => ?_, fun _ _ _ => rfl, fun _ _ l _ hl => ?_, fun hl => ?_⟩
    · rw [hlog]
      decide
    · intro b hb
      obtain rfl := Option.some.inj hb
      rw [hlog]
      decide
    all_goals
      rw [hlen] at hl
      cases hl
  obtain ⟨h, w₁, hcut, hw₁, bytes, hbytes, hlog₁, hrec, -, hprom, hgone⟩ :=
    receive_cut_before_save "upload" fsObjects_promotes hw hs
      (onePatch 2 (some 2) hlength) (fun hc => by rw [Complete, hlen] at hc; cases hc.2) rfl
      hcheck ha
  obtain rfl := Option.some.inj hbytes
  have hrun : Run fsObjects "upload" (fun _ _ => True) (fresh none) w₁ :=
    .tail (.tail .refl trivial ho.mono) trivial hcut.mono
  obtain ⟨r, ws, hsize⟩ := outcome_exists size w₁
  have hr := (hsize.spec (storedSize_spec hw₁) hw₁ rfl).2 r rfl
  obtain ⟨ra, w₂, happend⟩ :=
    outcome_exists (append fsObjects w₁.handle 2 (.buffered [3]) false) w₁
  have hstale : stagedSizeFact w₁.handle = some 1 := by
    rw [hrec.handle, hhandle]
    rfl
  have hrefused := (happend.spec (append_refused (fun i => hgone rfl not_false i) hstale
    (by decide)) hw₁ rfl).2 ra rfl
  cases r with
  | error e => exact hr.2
  | ok n =>
    obtain rfl : n = some 2 := by
      rw [hr.2, hlog₁, hlog]
      rfl
    obtain ⟨h, hok⟩ := hclaim fsObjects "upload" w₁ fsObjects_promotes hrun 2 ws hsize.mono
      (hrec.length.trans hlen) [3] ra w₂ nofun (by decide) happend
    exact hrefused h hok

/-- One byte of unknown length is continued by another. -/
theorem append_extends_one_byte :
    ∃ w, Run fsObjects "upload" Unbroken (fresh none) w ∧ content w = [1] ∧
      ∃ r w', Outcome False (append fsObjects w.handle 1 (.buffered [2]) true) w (some r) w' ∧
        content w' = [1, 2] := by
  obtain ⟨w, ho, hw, hs, hlog, hlen, -⟩ :=
    first_byte_run fsObjects "upload" fsObjects_promotes 1
  have hrun : Run fsObjects "upload" Unbroken (fresh none) w :=
    .tail .refl (first_byte_unbroken 1) ho.mono
  have hcontent : content w = [1] := by
    rw [content_eq hw (by rw [hlog]; decide), hlog]
    rfl
  obtain ⟨r, ws, hsize⟩ := outcome_exists size w
  have hr := (hsize.spec (storedSize_spec hw) hw rfl).2 r rfl
  cases r with
  | error e => exact hr.2.elim
  | ok n =>
    obtain rfl : n = some 1 := by
      rw [hr.2, hlog]
      rfl
    have hopen : ∀ l, w.length = some l → 1 < l := by
      rw [hlen]
      nofun
    have hbody : Appendable w 1 [2] true := by
      refine ⟨by decide, ?_, ?_⟩ <;> rw [hlen] <;> nofun
    have hdata : (ChunkStream.buffered [2]).collect = some [2] := rfl
    have hunknown : ∀ l, none = some l → l ≤ u64Max := nofun
    have h := append_extends_content fsObjects_promotes hunknown hrun (by rw [hlog]; decide)
      (fun hmain => absurd hs.main hmain) hsize.mono hopen hdata hbody
    obtain ⟨r, w', happend⟩ := h.2.2.1
    refine ⟨w, hrun, hcontent, r, w', happend, ?_⟩
    rw [(h.2.1 r w' happend).2, hcontent]
    rfl


end Opendal

end TusRs
