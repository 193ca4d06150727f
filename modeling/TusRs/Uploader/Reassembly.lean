import TusRs.Uploader.Parallel

/-!
# A parallel upload reassembles its source

The parts of the source are its slices in order, however the tasks of the parts interleave;
each finished part is stored under a URL of its own, and the final upload is their
concatenation.

* `ranges_tile`: the ranges of the parts are consecutive, non-empty and cover the source.
* `alone_spec`: what the loops of the client guarantee alone they guarantee inside the
  parallel upload.
* `uploadParallel_reassembles`: what a successful parallel upload leaves.
-/

namespace TusRs

open Interaction

namespace Uploader

/-! ## The ranges of the parts -/

theorem lt_divCeil {n d k : Nat} (hd : 0 < d) : k < divCeil n d ↔ k * d < n := by
  unfold divCeil
  split
  · next hr =>
    rw [Nat.lt_succ_iff, Nat.le_div_iff_mul_le hd]
    refine ⟨fun h => lt_of_le_of_ne h ?_, Nat.le_of_lt⟩
    rintro rfl
    simp at hr
  · next hr =>
    have hdvd : d ∣ n := Nat.dvd_of_mod_eq_zero (Nat.eq_zero_of_not_pos hr)
    obtain ⟨q, rfl⟩ := hdvd
    rw [Nat.mul_div_cancel_left q hd, Nat.mul_comm d q, Nat.mul_lt_mul_right hd]

/-- Consecutive non-empty ranges, given by start and length, from `start` to `stop`. -/
def Tiles (start : Nat) : List (Nat × Nat) → Nat → Prop
  | [], stop => start = stop
  | r :: rs, stop => r.1 = start ∧ 0 < r.2 ∧ Tiles (start + r.2) rs stop

/-- The part of the source that thread `t` uploads. -/
def share (source : Bytes) (partSize : Nat) : Nat → Bytes
  | 0 => source
  | i + 1 => (source.drop (i * partSize)).take partSize

section Ranges

variable {sourceLength partSize index : Nat}

/-- On a 64-bit target the arithmetic of a part that exists is exact. -/
theorem partRange_eq (hlen : sourceLength < 2 ^ 64) (h : index * partSize < sourceLength) :
    partRange sourceLength partSize index =
      (index * partSize, min (sourceLength - index * partSize) partSize) := by
  unfold partRange
  have hstart : index * partSize % 2 ^ 64 = index * partSize :=
    Nat.mod_eq_of_lt (h.trans hlen)
  have hrest : (sourceLength + 2 ^ 64 - index * partSize) % 2 ^ 64 =
      sourceLength - index * partSize := by
    rw [Nat.add_comm, Nat.add_sub_assoc h.le, Nat.add_mod_left]
    exact Nat.mod_eq_of_lt (by omega)
  simp only [hstart, hrest]

/-- The ranges of the parts from `k` on tile the rest of the source. -/
theorem tiles_from (hps : 0 < partSize) (hlen : sourceLength < 2 ^ 64) (m k : Nat)
    (hk : k + m = divCeil sourceLength partSize) :
    Tiles (min (k * partSize) sourceLength)
      ((List.range' k m).map (partRange sourceLength partSize)) sourceLength := by
  induction m generalizing k with
  | zero =>
    have hstop : sourceLength ≤ k * partSize := by
      rw [← Nat.not_lt, ← lt_divCeil hps]
      omega
    exact Nat.min_eq_right hstop
  | succ m ih =>
    have hstart : k * partSize < sourceLength := (lt_divCeil hps).mp (by omega)
    have hnext : k * partSize + min (sourceLength - k * partSize) partSize =
        min ((k + 1) * partSize) sourceLength := by
      rw [Nat.succ_mul]
      omega
    rw [List.range'_succ, List.map_cons, partRange_eq hlen hstart, Nat.min_eq_left hstart.le]
    refine ⟨rfl, lt_min (Nat.sub_pos_of_lt hstart) hps, ?_⟩
    rw [hnext]
    exact ih (k + 1) (by omega)

/-- The ranges of the parts are non-empty, disjoint and cover the source in order. -/
theorem ranges_tile (hps : 0 < partSize) (hlen : sourceLength < 2 ^ 64) :
    Tiles 0 ((List.range (divCeil sourceLength partSize)).map (partRange sourceLength partSize))
      sourceLength := by
  have h := tiles_from hps hlen (divCeil sourceLength partSize) 0 (Nat.zero_add _)
  rwa [Nat.zero_mul, Nat.zero_min, ← List.range_eq_range'] at h

variable {source : Bytes}

theorem share_eq_range (hlen : source.length < 2 ^ 64) (h : index * partSize < source.length) :
    share source partSize (index + 1) =
      (source.drop (partRange source.length partSize index).1).take
        (partRange source.length partSize index).2 := by
  rw [partRange_eq hlen h, share, List.take_eq_take_iff, List.length_drop]
  omega

/-- The first `k` parts together are the source up to the end of the last of them. -/
theorem shares_flatten (source : Bytes) (partSize k : Nat) :
    ((List.range k).map fun i => share source partSize (i + 1)).flatten =
      source.take (k * partSize) := by
  induction k with
  | zero => rw [Nat.zero_mul]; rfl
  | succ k ih =>
    rw [List.range_succ, List.map_append, List.flatten_append, ih, Nat.succ_mul, List.take_add]
    simp [share]

end Ranges

/-! ## What every thread keeps -/

/-- The uploads of thread `t` and the requests on their way to them. -/
def view (t : Nat) (w : ParWorld) : Server where
  content url := if w.owner url = some t then w.server.content url else []
  pending := w.server.pending.filter fun q => w.owner q.url = some t

/-- The upload at `url` is one of thread `t` and holds all it is to upload. -/
def Whole (source : Bytes) (partSize t : Nat) (url : String) (w : ParWorld) : Prop :=
  w.owner url = some t ∧ w.server.content url = share source partSize t

/-- The URL comes from a location the client resolved. -/
def Resolved (resolve : String → Except Error String) (url : String) : Prop :=
  ∃ location, resolve location = .ok url

/-- The outcome is that of part `i`, and when it is a success the part is stored. -/
def Reports (resolve : String → Except Error String) (source : Bytes) (partSize i : Nat)
    (outcome : PartOutcome) (w : ParWorld) : Prop :=
  outcome.index = i ∧ ∀ url, outcome.result = .ok url →
    Resolved resolve url ∧ Whole source partSize (i + 1) url w

/-- Every request on its way carries a slice of what its upload is to hold, every task works
on its own part, and a task that reports success has stored the part. -/
structure ParInv (resolve : String → Except Error String) (source : Bytes) (partSize : Nat)
    (w : ParWorld) : Prop where
  pending : ∀ q ∈ w.server.pending, ∃ t, w.owner q.url = some t ∧
    q.body <+: (share source partSize t).drop q.offset
  running : ∀ i capabilities bytes, w.tasks i = .running capabilities bytes →
    bytes = share source partSize (i + 1)
  finished : ∀ i outcome, w.tasks i = .finished outcome →
    Reports resolve source partSize i outcome w

/-- Uploads keep their owner and grow within what they are to hold. -/
def Upkeep (source : Bytes) (partSize : Nat) (w w' : ParWorld) : Prop :=
  ∀ t url, w.owner url = some t → w'.owner url = some t ∧
    (w.server.content url <+: share source partSize t →
      w.server.content url <+: w'.server.content url ∧
      w'.server.content url <+: share source partSize t)

/-- What thread `t` relies on: nobody else creates an upload in its name, and only thread
`0` spawns tasks and sends concatenations. -/
structure ParRely (source : Bytes) (partSize t : Nat) (w w' : ParWorld) : Prop where
  upkeep : Upkeep source partSize w w'
  own : ∀ url, w'.owner url = some t → w.owner url = some t
  idle : t = 0 → ∀ i, w.tasks i = .idle → w'.tasks i = .idle
  logs : t = 0 → w'.parts = w.parts ∧ w'.concats = w.concats

section Keeping

variable {resolve : String → Except Error String} {source : Bytes} {partSize t : Nat}
  {w w' w'' : ParWorld} {url : String}

theorem upkeep_refl (w : ParWorld) : Upkeep source partSize w w :=
  fun _ _ h => ⟨h, fun hpre => ⟨List.prefix_rfl, hpre⟩⟩

theorem Upkeep.trans (h : Upkeep source partSize w w') (h' : Upkeep source partSize w' w'') :
    Upkeep source partSize w w'' := by
  intro t url ht
  obtain ⟨ht', hgrow⟩ := h t url ht
  obtain ⟨ht'', hgrow'⟩ := h' t url ht'
  refine ⟨ht'', fun hpre => ?_⟩
  obtain ⟨hle, hpre'⟩ := hgrow hpre
  obtain ⟨hle', hpre''⟩ := hgrow' hpre'
  exact ⟨hle.trans hle', hpre''⟩

/-- What is stored completely stays so. -/
theorem Whole.upkeep (h : Whole source partSize t url w) (hk : Upkeep source partSize w w') :
    Whole source partSize t url w' := by
  obtain ⟨howner, hcontent⟩ := h
  obtain ⟨howner', hgrow⟩ := hk t url howner
  obtain ⟨hle, hpre⟩ := hgrow (hcontent ▸ List.prefix_rfl)
  rw [hcontent] at hle
  exact ⟨howner', hpre.eq_of_length (Nat.le_antisymm hpre.length_le hle.length_le)⟩

theorem Reports.upkeep {i : Nat} {outcome : PartOutcome}
    (h : Reports resolve source partSize i outcome w) (hk : Upkeep source partSize w w') :
    Reports resolve source partSize i outcome w' :=
  ⟨h.1, fun url hurl => ⟨(h.2 url hurl).1, (h.2 url hurl).2.upkeep hk⟩⟩

theorem parRely_refl (w : ParWorld) : ParRely source partSize t w w :=
  ⟨upkeep_refl w, fun _ h => h, fun _ _ h => h, fun _ => ⟨rfl, rfl⟩⟩

theorem ParRely.trans (h : ParRely source partSize t w w') (h' : ParRely source partSize t w' w'') :
    ParRely source partSize t w w'' where
  upkeep := h.upkeep.trans h'.upkeep
  own url hu := h.own url (h'.own url hu)
  idle h0 i hi := h'.idle h0 i (h.idle h0 i hi)
  logs h0 := ⟨(h'.logs h0).1.trans (h.logs h0).1, (h'.logs h0).2.trans (h.logs h0).2⟩

/-- A step that changes the server alone: it sends or applies requests of the client. -/
theorem server_step (hi : ParInv resolve source partSize w) {server : Server}
    (hpending : ∀ q ∈ server.pending, ∃ t, w.owner q.url = some t ∧
      q.body <+: (share source partSize t).drop q.offset)
    (hk : Upkeep source partSize w (w.setServer server)) :
    ParInv resolve source partSize (w.setServer server) ∧
      ∀ u, ParRely source partSize u w (w.setServer server) := by
  refine ⟨⟨hpending, hi.running, fun i outcome h => ?_⟩, fun u => ?_⟩
  · exact (hi.finished i outcome h).upkeep hk
  · exact ⟨hk, fun _ h => h, fun _ _ h => h, fun _ => ⟨rfl, rfl⟩⟩

/-- A slice that is applied at its own upload keeps every upload within its share. -/
theorem applies_upkeep {q : Request} {server : Server} (howner : w.owner q.url = some t)
    (hq : q.body <+: (share source partSize t).drop q.offset) (h : w.server.Applies q server) :
    Upkeep source partSize w (w.setServer server) := by
  intro u url hu
  refine ⟨hu, fun hpre => ?_⟩
  by_cases hurl : url = q.url
  · subst hurl
    obtain rfl : u = t := Option.some.inj (hu.symm.trans howner)
    exact applies_grows hq h q.url hpre
  · obtain ⟨-, k, rfl⟩ := h
    simp only [ParWorld.setServer, Server.append, Function.update_of_ne hurl]
    exact ⟨List.prefix_rfl, hpre⟩

/-- A request on its way takes effect. -/
theorem pending_applies (hi : ParInv resolve source partSize w) {q : Request} {server : Server}
    (hq : q ∈ w.server.pending) (h : w.server.Applies q server) :
    ParInv resolve source partSize (w.setServer server) ∧
      ∀ u, ParRely source partSize u w (w.setServer server) := by
  obtain ⟨t, howner, hslice⟩ := hi.pending q hq
  refine server_step hi ?_ (applies_upkeep howner hslice h)
  rw [applies_pending h]
  exact hi.pending

/-- A step of the tasks alone: the new state of a task keeps what is known of tasks. -/
theorem task_step (hi : ParInv resolve source partSize w) {i : Nat} {task : Task}
    (hrunning : ∀ capabilities bytes, task = .running capabilities bytes →
      bytes = share source partSize (i + 1))
    (hfinished : ∀ outcome, task = .finished outcome →
      Reports resolve source partSize i outcome w) :
    ParInv resolve source partSize (w.setTask i task) where
  pending := hi.pending
  running j capabilities bytes h := by
    by_cases hj : j = i
    · subst hj
      simp only [ParWorld.setTask, Function.update_self] at h
      exact hrunning capabilities bytes h
    · simp only [ParWorld.setTask, Function.update_of_ne hj] at h
      exact hi.running j capabilities bytes h
  finished j outcome h := by
    by_cases hj : j = i
    · subst hj
      simp only [ParWorld.setTask, Function.update_self] at h
      exact hfinished outcome h
    · simp only [ParWorld.setTask, Function.update_of_ne hj] at h
      exact hi.finished j outcome h

/-- Others rely on nothing about a task that is not idle. -/
theorem task_rely {i u : Nat} {task : Task} (h : w.tasks i ≠ .idle ∨ u ≠ 0) :
    ParRely source partSize u w (w.setTask i task) where
  upkeep := upkeep_refl w
  own _ h := h
  idle h0 j hj := by
    have hne : j ≠ i := by
      rintro rfl
      rcases h with h | h
      · exact h hj
      · exact h h0
    simp only [ParWorld.setTask, Function.update_of_ne hne]
    exact hj
  logs _ := ⟨rfl, rfl⟩

end Keeping

/-! ## The view of one thread -/

section View

variable {resolve : String → Except Error String} {source : Bytes} {partSize t : Nat}
  {w : ParWorld} {url : String}

theorem view_content (h : w.owner url = some t) :
    (view t w).content url = w.server.content url := if_pos h

theorem view_slices (hi : ParInv resolve source partSize w) :
    Slices (share source partSize t) (view t w) := by
  intro q hq
  obtain ⟨hmem, howner⟩ := List.mem_filter.mp hq
  obtain ⟨u, hu, hslice⟩ := hi.pending q hmem
  obtain rfl : u = t := Option.some.inj (hu.symm.trans (of_decide_eq_true howner))
  exact hslice

/-- What others do is within what a client on its own relies on. -/
theorem view_rely {w' : ParWorld} (h : ParRely source partSize t w w') :
    Rely (share source partSize t) 0 (view t w) (view t w') := by
  intro _ url hpre
  by_cases howner : w.owner url = some t
  · obtain ⟨howner', hgrow⟩ := h.upkeep t url howner
    rw [view_content howner] at hpre ⊢
    rw [view_content howner']
    exact hgrow hpre
  · have howner' : w'.owner url ≠ some t := fun h' => howner (h.own url h')
    simp only [view, if_neg howner, if_neg howner']
    exact ⟨List.prefix_rfl, List.nil_prefix⟩

theorem view_send {q : Request} (h : w.owner q.url = some t) :
    view t (w.setServer (w.server.send q)) = (view t w).send q :=
  congrArg (Server.mk _) (List.filter_cons_of_pos (decide_eq_true h))

theorem view_append {server : Server} {bytes : Bytes} (h : w.owner url = some t) :
    view t (w.setServer (server.append url bytes)) =
      (view t (w.setServer server)).append url bytes := by
  refine congrArg (Server.mk · _) (funext fun u => ?_)
  by_cases hu : u = url
  · subst hu
    have hcontent := view_content (w := w.setServer server) h
    simp only [ParWorld.setServer, Server.append, Function.update_self, if_pos h] at hcontent ⊢
    rw [hcontent]
  · simp only [ParWorld.setServer, Server.append, Function.update_of_ne hu, view]
    rfl

theorem view_applies {server server' : Server} {q : Request} (h : w.owner q.url = some t)
    (ha : server.Applies q server') :
    (view t (w.setServer server)).Applies q (view t (w.setServer server')) := by
  obtain ⟨hlen, k, rfl⟩ := ha
  refine ⟨?_, k, view_append h⟩
  rw [view_content (show (w.setServer server).owner q.url = some t from h)]
  exact hlen

theorem view_truthful {r : Response} (h : w.owner url = some t)
    (ht : w.server.Truthful url r) : (view t w).Truthful url r := by
  intro v n hv hn
  rw [view_content h]
  exact ht v n hv hn

/-- A request to an upload of its own is, in the view of the thread, one of a client on its
own, and it either leaves the server as it is or sends a PATCH. -/
theorem net_view {urls : List String} {bytes : Bytes} {o : NetOp} {a : NetSig.Ans o}
    {server : Server} (howner : ∀ url ∈ urls, w.owner url = some t) (hat : o.At urls)
    (h : NetExec bytes resolve o w.server a server) :
    NetExec bytes resolve o (view t w) a (view t (w.setServer server)) ∧
      (server = w.server ∨ ∃ q, q.url ∈ urls ∧
        (server = w.server.send q ∨ (w.server.send q).Applies q server)) := by
  have sent : ∀ {q : Request}, q.url ∈ urls →
      (server = w.server.send q ∨ (w.server.send q).Applies q server) →
      view t (w.setServer server) = (view t w).send q ∨
        ((view t w).send q).Applies q (view t (w.setServer server)) := by
    rintro q hq (rfl | happ)
    · exact .inl (view_send (howner _ hq))
    · rw [← view_send (howner _ hq)]
      exact .inr (view_applies (howner _ hq) happ)
  cases h with
  | options => exact hat.elim
  | created => exact hat.elim
  | notCreated => exact hat.elim
  | postLost => exact hat.elim
  | head ht => exact ⟨.head (view_truthful (howner _ hat) ht), .inl rfl⟩
  | headLost => exact ⟨.headLost, .inl rfl⟩
  | patch hsent ht =>
    have ht' := view_truthful (w := w.setServer server) (howner _ hat) ht
    exact ⟨.patch (sent hat hsent) ht', .inr ⟨⟨_, _, _⟩, hat, hsent⟩⟩
  | patchLost hsent => exact ⟨.patchLost (sent hat hsent), .inr ⟨⟨_, _, _⟩, hat, hsent⟩⟩
  | readChunk hpre => exact ⟨.readChunk hpre, .inl rfl⟩
  | readFailed => exact ⟨.readFailed, .inl rfl⟩
  | beforeRetry => exact ⟨.beforeRetry, .inl rfl⟩
  | random hn => exact ⟨.random hn, .inl rfl⟩
  | sleep => exact ⟨.sleep, .inl rfl⟩
  | onProgress => exact ⟨.onProgress, .inl rfl⟩

/-- A sent PATCH with a slice of the share keeps what every thread relies on. -/
theorem sent_step (hi : ParInv resolve source partSize w) {q : Request} {server : Server}
    (howner : w.owner q.url = some t)
    (hq : q.body <+: (share source partSize t).drop q.offset)
    (h : server = w.server.send q ∨ (w.server.send q).Applies q server) :
    ParInv resolve source partSize (w.setServer server) ∧
      ∀ u, ParRely source partSize u w (w.setServer server) := by
  have hpending : ∀ q' ∈ (w.server.send q).pending, ∃ u, w.owner q'.url = some u ∧
      q'.body <+: (share source partSize u).drop q'.offset := by
    intro q' hq'
    rcases List.mem_cons.mp hq' with rfl | hmem
    · exact ⟨t, howner, hq⟩
    · exact hi.pending q' hmem
  rcases h with rfl | happ
  · exact server_step hi hpending (upkeep_refl w)
  · refine server_step hi ?_
      (applies_upkeep (w := w.setServer (w.server.send q)) howner hq happ)
    rw [applies_pending happ]
    exact hpending

end View

section System

variable {source : Bytes} {Meta : Type} {client : ParallelClient Meta} {partSize : Nat}

theorem parallel_lawful :
    (Discipline.mutual (ParInv client.resolveServerLocation source partSize)
      (ParRely source partSize) :
      Discipline ParSig ParWorld).Lawful (parMachine client source) := by
  refine Discipline.mutual_lawful (fun _ w => parRely_refl w)
    (fun _ _ _ _ h₁ h₂ => h₁.trans h₂) ?_ ?_
  · rintro w w' hi ⟨q, hq, server, happ, rfl⟩
    exact pending_applies hi hq happ
  · rintro t w w' hi (⟨-, rfl⟩ | ⟨i, capabilities, bytes, -, hrun, rfl⟩)
    · exact ⟨hi, fun _ _ => parRely_refl w'⟩
    · refine ⟨task_step hi nofun nofun, fun u _ => task_rely (.inl ?_)⟩
      rw [hrun]
      nofun

theorem reads_share {w : ParWorld} {t : Nat} {bytes : Bytes}
    (hi : ParInv client.resolveServerLocation source partSize w)
    (h : w.Reads source t bytes) : bytes = share source partSize t := by
  rcases h with ⟨rfl, rfl⟩ | ⟨i, capabilities, rfl, hrun⟩
  · rfl
  · exact hi.running i capabilities bytes hrun

abbrev ParSpec (client : ParallelClient Meta) (source : Bytes) (partSize t : Nat) {α : Type}
    (P : ParWorld → Prop) (p : Par α) (Q : α → ParWorld → Prop) : Prop :=
  Triple (parMachine client source) (ParInv client.resolveServerLocation source partSize)
    (ParRely source partSize) t P p Q

/-- What the client guarantees of its uploads when it is alone it guarantees inside the
parallel upload. -/
theorem alone_spec {t : Nat} {urls : List String} {α : Type} (isPart : Bool)
    {p : Prog NetSig α} {P : Server → Prop} {Q : α → Server → Prop}
    (hp : Spec client.toClient (share source partSize t) P p Q) (hat : p.Ops (NetOp.At urls)) :
    ParSpec client source partSize t (fun w => (∀ url ∈ urls, w.owner url = some t) ∧ P (view t w))
      (p.into (asNet isPart))
      (fun a w => (∀ url ∈ urls, w.owner url = some t) ∧ Q a (view t w)) := by
  refine Triple.into (asNet isPart) (view t) (fun w => ∀ url ∈ urls, w.owner url = some t)
    (NetOp.At urls)
    (fun w w' howner hr => ⟨fun url hu => (hr.upkeep t url (howner url hu)).1, view_rely hr⟩)
    (fun w hi _ => view_slices hi) ?_ hp hat
  intro o w a w' ho hi howner he
  cases he with
  | created => exact ho.elim
  | notCreated => exact ho.elim
  | postLost => exact ho.elim
  | @net _ _ _ _ _ _ server hreads _ hnet =>
    obtain rfl := reads_share hi hreads
    obtain ⟨hview, hsent⟩ := net_view howner ho hnet
    refine ⟨hview, fun hsafe => ?_⟩
    rcases hsent with rfl | ⟨q, hq, hsent⟩
    · exact ⟨⟨hi, fun _ _ => parRely_refl w⟩, howner⟩
    · have hmem : q ∈ (view t (w.setServer server)).pending := by
        refine List.mem_filter.mpr ⟨?_, decide_eq_true (howner _ hq)⟩
        rcases hsent with rfl | happ
        · exact List.mem_cons_self
        · rw [ParWorld.setServer, applies_pending happ]
          exact List.mem_cons_self
      obtain ⟨hi', hr⟩ := sent_step hi (howner _ hq) (hsafe.1 q hmem) hsent
      exact ⟨⟨hi', fun u _ => hr u⟩, howner⟩

theorem ask_exec {t : Nat} {isPart : Bool} {o : NetOp} {w w' : ParWorld} {a : NetSig.Ans o}
    (ho : o.Asks)
    (he : ParExec source client.resolveServerLocation t (.net isPart o) w a w') : w' = w := by
  cases he with
  | net _ _ hnet => cases hnet <;> first | rfl | exact ho.elim
  | created => exact ho.elim
  | notCreated => exact ho.elim
  | postLost => exact ho.elim

/-- What only asks keeps every assertion that others cannot invalidate. -/
theorem asks_keep {t : Nat} {isPart : Bool} {α : Type} {P : ParWorld → Prop} {p : Prog NetSig α}
    (hP : Stable (ParRely source partSize) t P) (hp : p.Ops NetOp.Asks) :
    ParSpec client source partSize t P (p.into (asNet isPart)) (fun _ => P) := by
  refine Triple.keep (A := fun (o : ParOp) => ∃ o' : NetOp, o'.Asks ∧ o = .net isPart o') hP ?_
    (hp.into (asNet isPart) fun o ho => ⟨o, ho, rfl⟩)
  rintro _ w a w' ⟨o, ho, rfl⟩ hi hw he
  obtain rfl := ask_exec ho he
  exact ⟨⟨hi, fun _ _ => parRely_refl w'⟩, hw⟩

theorem ask_spec {t : Nat} {isPart : Bool} {o : NetOp} {α : Type} {P : ParWorld → Prop}
    {k : NetSig.Ans o → Par α} {Q : α → ParWorld → Prop} (ho : o.Asks)
    (hP : Stable (ParRely source partSize) t P)
    (hk : ∀ a, ParSpec client source partSize t P (k a) Q) :
    ParSpec client source partSize t P (.step (.net isPart o) k) Q := by
  refine Triple.step (fun _ => P) hP (fun w a w' hi hw he => ?_) hk
  obtain rfl := ask_exec ho he
  exact ⟨⟨hi, fun _ _ => parRely_refl w'⟩, hw⟩

/-! ## Creation and the tasks of the parts -/

/-- An upload under a fresh URL disturbs nobody. -/
theorem create_step {w : ParWorld} {t : Nat} {url : String} (bytes : Bytes)
    (hi : ParInv client.resolveServerLocation source partSize w) (hfresh : w.owner url = none) :
    ParInv client.resolveServerLocation source partSize (w.create t url bytes) ∧
      Upkeep source partSize w (w.create t url bytes) ∧
      ∀ u, u ≠ t → ParRely source partSize u w (w.create t url bytes) := by
  have hne : ∀ {u v}, w.owner u = some v → u ≠ url := by
    rintro u v hu rfl
    exact nomatch hfresh.symm.trans hu
  have howner : ∀ {u v}, w.owner u = some v → (w.create t url bytes).owner u = some v := by
    intro u v hu
    simp only [ParWorld.create, Function.update_of_ne (hne hu)]
    exact hu
  have hk : Upkeep source partSize w (w.create t url bytes) := by
    intro v u hu
    refine ⟨howner hu, fun hpre => ?_⟩
    simp only [ParWorld.create, Server.create, Function.update_of_ne (hne hu)]
    exact ⟨List.prefix_rfl, hpre⟩
  refine ⟨⟨fun q hq => ?_, hi.running, fun i outcome h => ?_⟩, hk, fun u hu => ⟨hk, ?_, ?_, ?_⟩⟩
  · obtain ⟨v, hv, hslice⟩ := hi.pending q hq
    exact ⟨v, howner hv, hslice⟩
  · exact (hi.finished i outcome h).upkeep hk
  · intro u' hu'
    by_cases heq : u' = url
    · subst heq
      simp only [ParWorld.create, Function.update_self, Option.some.injEq] at hu'
      exact absurd hu'.symm hu
    · simp only [ParWorld.create, Function.update_of_ne heq] at hu'
      exact hu'
  · exact fun _ _ h => h
  · exact fun _ => ⟨rfl, rfl⟩

/-- The upload at `url` is one of thread `t` and holds a prefix of what it is to hold, of at
least `n` bytes. -/
def Begun (source : Bytes) (partSize t : Nat) (url : String) (n : Nat) (w : ParWorld) : Prop :=
  (∀ u ∈ [url], w.owner u = some t) ∧ Tracked (share source partSize t) url n (view t w)

theorem begun_stable {t : Nat} (url : String) (n : Nat) :
    Stable (ParRely source partSize) t (Begun source partSize t url n) :=
  fun _ _ h hr => ⟨fun u hu => (hr.upkeep t u (h.1 u hu)).1, tracked_grows h.2 (view_rely hr rfl)⟩

/-- An upload that holds as many bytes as its share is whole. -/
theorem begun_whole {t : Nat} {url : String} {w : ParWorld}
    (h : Begun source partSize t url (share source partSize t).length w) :
    Whole source partSize t url w := by
  have howner := h.1 url (List.mem_singleton_self url)
  exact ⟨howner, (view_content howner).symm.trans (tracked_complete h.2)⟩

/-- A creation the client accepts begins an upload of the thread. -/
theorem create_spec {t : Nat} (isPart : Bool) (length : Nat) (body : Option Bytes)
    (metadata : Meta) (hbody : body.getD [] <+: share source partSize t) :
    ParSpec client source partSize t (fun _ => True)
      ((createUploadRequest client.toClient length body metadata).into (asNet isPart)) (fun
      | .ok info, w => Resolved client.resolveServerLocation info.url ∧
          Begun source partSize t info.url info.offset w
      | .error _, _ => True) := by
  refine Triple.step (fun
    | .ok r, w => r.status = 201 → ∀ location url, r.location = some location →
        client.resolveServerLocation location = .ok url → w.owner url = some t ∧
          w.server.content url <+: share source partSize t ∧ w.server.Truthful url r
    | .error _, _ => True) (fun _ _ _ _ => trivial) ?_ ?_
  · intro w a w' hi _ he
    cases he with
    | net _ hpost => cases hpost
    | @created _ _ _ _ _ k _ r url _ hfresh hpoints ht =>
      obtain ⟨hi', -, hr⟩ := create_step (t := t) ((body.getD []).take k) hi hfresh
      refine ⟨⟨⟨hi'.pending, hi'.running, hi'.finished⟩, fun u hu => ?_⟩, ?_⟩
      · exact ⟨(hr u hu).upkeep, (hr u hu).own, (hr u hu).idle, (hr u hu).logs⟩
      · intro _ location url' hloc hres
        obtain rfl := hpoints location url' hloc hres
        refine ⟨Function.update_self .., ?_, ht⟩
        simp only [ParWorld.receive, ParWorld.create, Server.create, Function.update_self]
        exact (List.take_prefix k _).trans hbody
    | notCreated _ hnot =>
      exact ⟨⟨hi, fun _ _ => parRely_refl w⟩, fun hst => absurd hst hnot⟩
    | postLost => exact ⟨⟨hi, fun _ _ => parRely_refl w⟩, trivial⟩
  · intro r
    cases r with
    | error e => exact Triple.done fun _ _ => trivial
    | ok r =>
      dsimp only [asNet]
      split
      · exact Triple.done fun _ _ => trivial
      · next hst =>
        refine Triple.done fun w h => ?_
        split
        · next info hinfo =>
          obtain ⟨location, hloc, hinfo⟩ := except_bind_ok hinfo
          obtain ⟨url, hres, hinfo⟩ := except_bind_ok hinfo
          obtain ⟨offset, hoff, hinfo⟩ := except_bind_ok hinfo
          obtain rfl := Except.ok.inj hinfo
          obtain ⟨howner, hpre, ht⟩ :=
            h (not_not.mp hst) location url (headerString_ok hloc) hres
          refine ⟨⟨location, hres⟩, fun u hu => List.mem_singleton.mp hu ▸ howner, ?_⟩
          refine ⟨?_, createdOffset_le (view_truthful howner ht) hoff⟩
          rw [view_content howner]
          exact hpre
        · trivial

/-- The resume loop inside the parallel upload ends with the share stored. -/
theorem resume_spec {t : Nat} (isPart : Bool) (rounds : Nat) (info : UploadInfo Meta) :
    ParSpec client source partSize t (Begun source partSize t info.url info.offset)
      ((resumeLoop client.toClient info.url (share source partSize t).length rounds 0 none
        (some info)).into (asNet isPart)) (fun
      | .ok info', w => info'.url = info.url ∧ Whole source partSize t info.url w
      | .error _, _ => True) := by
  have hspec : Spec client.toClient (share source partSize t)
      (Tracked (share source partSize t) info.url info.offset)
      (resumeLoop client.toClient info.url (share source partSize t).length rounds 0 none
        (some info)) (Outcome (share source partSize t) info.url) :=
    resumeLoop_spec rounds 0 none (some info) (by rintro _ ⟨⟩; rfl)
  refine (alone_spec isPart hspec (resumeLoop_at _ _ _ _ _)).weaken (fun _ h => h) fun r w h => ?_
  cases r with
  | error e => trivial
  | ok info' =>
    obtain ⟨howner, hurl, htracked⟩ := h
    exact ⟨hurl, begun_whole ⟨howner, htracked⟩⟩

/-- The result of the task of a part: where the part is stored. -/
def Delivered (client : ParallelClient Meta) (source : Bytes) (partSize t : Nat) :
    Except Error (UploadInfo Meta) → ParWorld → Prop
  | .ok info, w => Resolved client.resolveServerLocation info.url ∧
      Whole source partSize t info.url w
  | .error _, _ => True

/-- A read inside the parallel upload gives a slice of what the thread reads from. -/
theorem read_spec {t : Nat} (isPart : Bool) (offset length : Nat) :
    ParSpec client source partSize t (fun _ => True)
      ((readSourceExact (share source partSize t).length offset length).into (asNet isPart)) (fun
      | .ok bytes, _ => bytes = ((share source partSize t).drop offset).take length
      | .error _, _ => True) := by
  have hspec : Spec client.toClient (share source partSize t) (fun _ => True)
      (readSourceExact (share source partSize t).length offset length) _ :=
    readLoop_spec length offset length [] List.nil_prefix
  have hlength := readLoop_length (share source partSize t).length offset length length []
    (Nat.zero_le _) (Nat.le_add_left _ _)
  have hnone : Prog.Ops (NetOp.At [])
      (readSourceExact (share source partSize t).length offset length) := readLoop_at _ _ _ _ _
  refine (alone_spec isPart (hspec.yields hlength) hnone).weaken (fun _ _ => ⟨by simp, trivial⟩)
    fun r w h => ?_
  cases r with
  | error e => trivial
  | ok bytes =>
    obtain ⟨-, hpre, hlen⟩ := h
    have hpre' : bytes <+: (share source partSize t).drop offset := hpre
    rw [← hlen bytes rfl]
    exact List.prefix_iff_eq_take.mp hpre'

/-- A part that is uploaded successfully is stored whole. -/
theorem uploadPartial_spec {t : Nat} (rounds : Nat) (metadata : Meta)
    (capabilities : Option (List String)) :
    ParSpec client source partSize t (fun _ => True)
      ((uploadPartialWithCapabilities client rounds (share source partSize t) metadata
        capabilities).into (asNet true))
      (fun r => Delivered client source partSize t r.2) := by
  have hresume : ∀ info : UploadInfo Meta, ParSpec client source partSize t
      (fun w => Resolved client.resolveServerLocation info.url ∧
        Begun source partSize t info.url info.offset w)
      ((Prog.bind (resumeLoop client.toClient info.url (share source partSize t).length rounds 0
          none (some info)) fun result => .done (some info.url, result)).into (asNet true))
      (fun r => Delivered client source partSize t r.2) := by
    intro info s hs
    refine Triple.into_bind (asNet true) _ (resume_spec true rounds info) (fun r => ?_) s hs.2
    refine Triple.done fun w h => ?_
    cases r with
    | error e => trivial
    | ok info' => exact ⟨h.1 ▸ hs.1, h.1 ▸ h.2⟩
  unfold uploadPartialWithCapabilities
  dsimp only
  split
  · refine Triple.into_bind (asNet true) _ (read_spec true 0 _) fun body => ?_
    cases body with
    | error e => exact Triple.done fun _ _ => trivial
    | ok body =>
      intro s hbody
      have hbody' : body <+: share source partSize t := by
        rw [show body = _ from hbody]
        exact List.take_prefix _ _
      dsimp only
      refine Triple.into_bind (asNet true) _ (create_spec true _ (some body) metadata hbody') ?_ s trivial
      intro upload
      cases upload with
      | error e => exact Triple.done fun _ _ => trivial
      | ok upload =>
        refine ask_spec trivial (fun _ _ h hr => ⟨h.1, begun_stable _ _ _ _ h.2 hr⟩) fun _ => ?_
        dsimp only [asNet]
        split
        · next hoff =>
          refine Triple.done fun w h => ⟨h.1, begun_whole ?_⟩
          exact hoff ▸ h.2
        · exact hresume upload
  · refine Triple.into_bind (asNet true) _ (create_spec true _ none metadata List.nil_prefix) fun upload => ?_
    cases upload with
    | error e => exact Triple.done fun _ _ => trivial
    | ok upload => exact hresume upload

theorem uploadParallelPart_spec (rounds : Nat) (metadata : Meta) (i : Nat)
    (capabilities : Option (List String)) :
    ParSpec client source partSize (i + 1) (fun _ => True)
      ((uploadParallelPart client rounds metadata i (share source partSize (i + 1))
        capabilities).into (asNet true))
      (Reports client.resolveServerLocation source partSize i) := by
  refine Triple.into_bind (asNet true) _ (uploadPartial_spec rounds metadata _) fun r => ?_
  refine Triple.done fun w h => ⟨rfl, fun url hurl => ?_⟩
  cases hr : r.2 with
  | error e => simp [hr, Except.map] at hurl
  | ok info =>
    rw [hr] at h hurl
    exact Except.ok.inj hurl ▸ h

theorem finish_spec (i : Nat) (outcome : PartOutcome) :
    ParSpec client source partSize (i + 1)
      (Reports client.resolveServerLocation source partSize i outcome)
      (.step (.finish outcome) fun _ => .done ()) (fun _ _ => True) := by
  refine Triple.step (fun _ _ => True) (fun _ _ h hr => h.upkeep hr.upkeep) ?_
    fun _ => Triple.done fun _ _ => trivial
  intro w a w' hi h he
  cases he with
  | finish hrun =>
    refine ⟨⟨task_step hi nofun ?_, fun u _ => task_rely (.inl ?_)⟩, trivial⟩
    · rintro _ ⟨⟩
      exact h
    · rw [hrun]
      nofun

/-- Every task that finishes has stored its part or reports a failure. -/
theorem partTask_spec (rounds : Nat) (metadata : Meta) (i : Nat) :
    ParSpec client source partSize (i + 1) (fun _ => True) (partTask client rounds metadata i)
      (fun _ _ => True) := by
  refine Triple.step (fun a _ => a.2 = share source partSize (i + 1)) (fun _ _ _ _ => trivial)
    ?_ ?_
  · intro w a w' hi _ he
    cases he with
    | start hrun => exact ⟨⟨hi, fun _ _ => parRely_refl w⟩, hi.running _ _ _ hrun⟩
  · rintro ⟨capabilities, bytes⟩ s hbytes
    obtain rfl : bytes = share source partSize (i + 1) := hbytes
    exact Triple.bind _ (uploadParallelPart_spec rounds metadata i _) (finish_spec i) s trivial

end System

/-! ## The loops of the parallel upload -/

section Loops

variable {Meta : Type} {client : ParallelClient Meta} {options : ParallelUpload} {source : Bytes}

/-- Part `i` is stored at a URL the client resolved. -/
def StoredAt (client : ParallelClient Meta) (options : ParallelUpload) (source : Bytes) (i : Nat)
    (url : String) (w : ParWorld) : Prop :=
  Resolved client.resolveServerLocation url ∧ Whole source options.partSize (i + 1) url w

/-- What the variables of `upload_parallel` say: the parts before `nextIndex` were spawned,
in order, and those that are joined are stored at their recorded URLs. -/
structure Books (client : ParallelClient Meta) (options : ParallelUpload) (source : Bytes)
    (v : Parts) (w : ParWorld) : Prop where
  next : v.nextIndex ≤ partCount options source.length
  urls : v.partUrls.length = partCount options source.length
  idle : ∀ i, v.nextIndex ≤ i → w.tasks i = .idle
  spawned : ∀ i ∈ v.joinSet, i < v.nextIndex
  nodup : v.joinSet.Nodup
  stored : ∀ i < v.nextIndex, i ∉ v.joinSet →
    ∃ url, v.partUrls[i]? = some (some url) ∧ StoredAt client options source i url w
  parts : w.parts = (List.range v.nextIndex).map fun i => (i, share source options.partSize (i + 1))
  concats : w.concats = []

theorem books_stable (v : Parts) :
    Stable (ParRely source options.partSize) 0 (Books client options source v) := by
  intro w w' h hr
  refine ⟨h.next, h.urls, fun i hi => hr.idle rfl i (h.idle i hi), h.spawned, h.nodup, ?_, ?_, ?_⟩
  · intro i hi hmem
    obtain ⟨url, hurl, hres, hwhole⟩ := h.stored i hi hmem
    exact ⟨url, hurl, hres, hwhole.upkeep hr.upkeep⟩
  · rw [(hr.logs rfl).1, h.parts]
  · rw [(hr.logs rfl).2, h.concats]

theorem books_init (content : String → Bytes) :
    Books client options source (Parts.init (partCount options source.length)) (.start content) where
  next := Nat.zero_le _
  urls := List.length_replicate
  idle _ _ := rfl
  spawned _ h := nomatch h
  nodup := List.nodup_nil
  stored _ h := absurd h (Nat.not_lt_zero _)
  parts := rfl
  concats := rfl

/-- Spawning the next part. -/
theorem Books.spawn {v : Parts} {w : ParWorld} {capabilities : List String} {bytes : Bytes}
    (h : Books client options source v w) (hv : v.nextIndex < partCount options source.length)
    (hbytes : bytes = share source options.partSize (v.nextIndex + 1)) :
    Books client options source v.spawned
      { w.setTask v.nextIndex (.running capabilities bytes) with
        parts := w.parts ++ [(v.nextIndex, bytes)] } where
  next := hv
  urls := h.urls
  idle i hi := by
    have hne : i ≠ v.nextIndex := Nat.ne_of_gt hi
    simp only [ParWorld.setTask, Function.update_of_ne hne]
    exact h.idle i (Nat.le_of_succ_le hi)
  spawned i hi := by
    rcases List.mem_append.mp hi with hi | hi
    · exact Nat.lt_succ_of_lt (h.spawned i hi)
    · obtain rfl := List.mem_singleton.mp hi
      exact Nat.lt_succ_self _
  nodup := by
    refine List.nodup_append.mpr ⟨h.nodup, List.pairwise_singleton _ _, ?_⟩
    rintro i hi j hj rfl
    obtain rfl := List.mem_singleton.mp hj
    exact absurd (h.spawned _ hi) (lt_irrefl _)
  stored i hi hmem := by
    have hout : i ∉ v.joinSet ∧ i ≠ v.nextIndex := by
      simpa [Parts.spawned, not_or] using hmem
    exact h.stored i (lt_of_le_of_ne (Nat.le_of_lt_succ hi) hout.2) hout.1
  parts := by
    simp only [Parts.spawned, h.parts, hbytes, List.range_succ, List.map_append, List.map_cons,
      List.map_nil]
  concats := h.concats

/-- Joining a task that reports success. -/
theorem Books.join {v : Parts} {w : ParWorld} {i : Nat} {outcome : PartOutcome} {url : String}
    (h : Books client options source v w) (hmem : i ∈ v.joinSet)
    (hreports : Reports client.resolveServerLocation source options.partSize i outcome w)
    (hurl : outcome.result = .ok url) :
    Books client options source ((v.joined (i, .ok outcome)).completed outcome.index url)
      (w.setTask i .joined) := by
  obtain ⟨rfl, hwhole⟩ := hreports
  have hspawned : outcome.index < v.nextIndex := h.spawned _ hmem
  refine ⟨h.next, (List.length_set ..).trans h.urls, ?_, ?_, h.nodup.erase _, ?_, h.parts,
    h.concats⟩
  · intro j hj
    have hne : j ≠ outcome.index := Nat.ne_of_gt (hspawned.trans_le hj)
    simp only [ParWorld.setTask, Function.update_of_ne hne]
    exact h.idle j hj
  · exact fun j hj => h.spawned j (List.mem_of_mem_erase hj)
  · intro j hj hout
    by_cases hji : j = outcome.index
    · subst hji
      refine ⟨url, ?_, hwhole url hurl⟩
      have hlen : outcome.index < v.partUrls.length := h.urls ▸ hspawned.trans_le h.next
      simp only [Parts.completed, Parts.joined, List.getElem?_set_self hlen]
    · have hout' : j ∉ v.joinSet := fun hin => hout ((List.mem_erase_of_ne hji).mpr hin)
      obtain ⟨url', hurl', hstored⟩ := h.stored j hj hout'
      refine ⟨url', ?_, hstored⟩
      simp only [Parts.completed, Parts.joined, List.getElem?_set_ne (Ne.symm hji)]
      exact hurl'

/-- Reading the next part and spawning its task. -/
theorem spawnNext_spec (hlen : source.length < 2 ^ 64) (capabilities : List String) (v : Parts)
    (hv : v.nextIndex < partCount options source.length) :
    ParSpec client source options.partSize 0 (Books client options source v)
      (spawnNext options source.length capabilities v)
      (fun r w => r.2 = none → r.1 = v.spawned ∧ Books client options source v.spawned w) := by
  have hkeep : ParSpec client source options.partSize 0 (Books client options source v)
      ((readParallelPart source.length options.partSize v.nextIndex).into (asNet false))
      (fun _ => Books client options source v) :=
    asks_keep (books_stable v) (readLoop_asks _ _ _ _ _)
  refine Triple.bind _ ((Triple.both (read_spec false _ _) hkeep).weaken
    (fun w h => ⟨trivial, h⟩) fun _ _ h => h) fun r => ?_
  cases r with
  | error e => exact Triple.done fun _ _ h => nomatch h
  | ok bytes =>
    refine Triple.step (fun _ => Books client options source v.spawned)
      (fun _ _ h hr => ⟨h.1, books_stable v _ _ h.2 hr⟩) ?_
      fun _ => Triple.done fun w h _ => ⟨rfl, h⟩
    rintro w a w' hi ⟨hbytes, hbooks⟩ he
    have hstart : v.nextIndex * options.partSize < source.length :=
      (lt_divCeil options.partSize_pos).mp hv
    have hshare : bytes = share source options.partSize (v.nextIndex + 1) :=
      hbytes.trans (share_eq_range hlen hstart).symm
    cases he with
    | spawn _ =>
      have hi' : ParInv client.resolveServerLocation source options.partSize
          (w.setTask v.nextIndex (.running capabilities bytes)) :=
        task_step hi (by rintro _ _ ⟨⟩; exact hshare) nofun
      refine ⟨⟨⟨hi'.pending, hi'.running, hi'.finished⟩, fun u hu => ?_⟩,
        hbooks.spawn hv hshare⟩
      have hr : ParRely source options.partSize u w
          (w.setTask v.nextIndex (.running capabilities bytes)) := task_rely (.inr hu)
      exact ⟨hr.upkeep, hr.own, fun h0 => absurd h0 hu, fun h0 => absurd h0 hu⟩

theorem spawnLoop_spec (hlen : source.length < 2 ^ 64) (capabilities : List String) (n : Nat)
    (v : Parts) (hfuel : partCount options source.length ≤ v.nextIndex + n) :
    ParSpec client source options.partSize 0 (Books client options source v)
      (spawnLoop options source.length capabilities n v)
      (fun r w => r.2 = none → Books client options source r.1 w ∧
        (r.1.joinSet ≠ [] ∨ r.1.nextIndex = partCount options source.length)) := by
  induction n generalizing v with
  | zero => exact Triple.done fun w h _ => ⟨h, .inr (Nat.le_antisymm h.next hfuel)⟩
  | succ n ih =>
    unfold spawnLoop
    refine Triple.ite (fun hc => ?_) fun hc => Triple.done fun w h _ => ⟨h, ?_⟩
    · refine Triple.bind _ (spawnNext_spec hlen capabilities v hc.1) fun r => ?_
      obtain ⟨v', _ | error⟩ := r
      · intro s hs
        obtain ⟨rfl, hbooks⟩ := hs rfl
        exact ih v.spawned (by change _ ≤ v.nextIndex + 1 + n; omega) s hbooks
      · exact Triple.done fun _ _ h => nomatch h
    · -- the loop ends when all parts are spawned or the limit, at least one task, is reached
      rcases not_and_or.mp hc with hnext | hfull
      · exact .inr (Nat.le_antisymm h.next (Nat.not_lt.mp hnext))
      · refine .inl fun hempty => hfull ?_
        rw [hempty]
        exact lt_of_lt_of_le Nat.one_pos (le_max_right _ _)

/-- What joining a task tells: its state is given up, and a success is reported truly. -/
theorem join_exec {w w' : ParWorld} {joinSet : List Nat} {a : Nat × Except String PartOutcome}
    (hi : ParInv client.resolveServerLocation source options.partSize w)
    (he : ParExec source client.resolveServerLocation 0 (.join joinSet) w a w') :
    Safe (ParInv client.resolveServerLocation source options.partSize)
      (ParRely source options.partSize) 0 w w' ∧ a.1 ∈ joinSet ∧ w' = w.setTask a.1 .joined ∧
      ∀ outcome, a.2 = .ok outcome →
        Reports client.resolveServerLocation source options.partSize a.1 outcome w := by
  have hsafe : ∀ {i}, w.tasks i ≠ .idle →
      Safe (ParInv client.resolveServerLocation source options.partSize)
        (ParRely source options.partSize) 0 w (w.setTask i .joined) :=
    fun h => ⟨task_step hi nofun nofun, fun u _ => task_rely (.inl h)⟩
  cases he with
  | joined hmem hfinished =>
    refine ⟨hsafe (by rw [hfinished]; nofun), hmem, rfl, ?_⟩
    rintro _ ⟨⟩
    exact hi.finished _ _ hfinished
  | joinFailed hmem hfailed =>
    refine ⟨hsafe ?_, hmem, rfl, nofun⟩
    rcases hfailed with h | ⟨-, _, _, h⟩ <;> rw [h] <;> nofun

/-- One round of the loop over the tasks. -/
theorem join_spec {α : Type} {v : Parts} {k : Nat × Except String PartOutcome → Par α}
    {Q : α → ParWorld → Prop}
    (hfailed : ∀ i joinError, ParSpec client source options.partSize 0 (fun _ => True)
      (k (i, .error joinError)) Q)
    (herror : ∀ i outcome error, outcome.result = .error error →
      ParSpec client source options.partSize 0 (fun _ => True) (k (i, .ok outcome)) Q)
    (hok : ∀ i outcome url, i ∈ v.joinSet → outcome.result = .ok url →
      ParSpec client source options.partSize 0
        (Books client options source ((v.joined (i, .ok outcome)).completed outcome.index url))
        (k (i, .ok outcome)) Q) :
    ParSpec client source options.partSize 0 (Books client options source v)
      (.step (.join v.joinSet) k) Q := by
  refine Triple.step (fun a w => a.1 ∈ v.joinSet ∧ ∀ outcome url, a.2 = .ok outcome →
    outcome.result = .ok url →
      Books client options source ((v.joined a).completed outcome.index url) w)
    (books_stable v) ?_ ?_
  · rintro w ⟨i, r⟩ w' hi hbooks he
    obtain ⟨hsafe, hmem, rfl, hreports⟩ := join_exec hi he
    refine ⟨hsafe, hmem, ?_⟩
    rintro outcome url rfl hurl
    exact hbooks.join hmem (hreports outcome rfl) hurl
  · rintro ⟨i, joinError | outcome⟩ s hs
    · exact hfailed i joinError s trivial
    · cases hresult : outcome.result with
      | error error => exact herror i outcome error hresult s trivial
      | ok url => exact hok i outcome url hs.1 hresult s (hs.2 outcome url rfl hresult)

/-- When the loop over the tasks ends without a failure, all parts are joined. -/
theorem joinLoop_spec (hlen : source.length < 2 ^ 64) (capabilities : List String) (n : Nat)
    (v : Parts)
    (hfuel : v.joinSet.length + (partCount options source.length - v.nextIndex) ≤ n)
    (hrunning : v.joinSet ≠ [] ∨ v.nextIndex = partCount options source.length) :
    ParSpec client source options.partSize 0 (Books client options source v)
      (joinLoop options source.length capabilities n v)
      (fun r w => r.2 = none → Books client options source r.1 w ∧ r.1.joinSet = [] ∧
        r.1.nextIndex = partCount options source.length) := by
  induction n generalizing v with
  | zero =>
    have hempty : v.joinSet = [] := List.eq_nil_of_length_eq_zero (by omega)
    exact Triple.done fun w h _ => ⟨h, hempty, hrunning.resolve_left (absurd hempty)⟩
  | succ n ih =>
    unfold joinLoop
    refine Triple.ite (fun hempty => ?_) fun hne => join_spec (fun i joinError => ?_)
      (fun i outcome error hresult => ?_) (fun i outcome url hmem hresult => ?_)
    · exact Triple.done fun w h _ => ⟨h, hempty, hrunning.resolve_left (absurd hempty)⟩
    · exact Triple.done fun _ _ h => nomatch h
    · simp only [hresult]
      exact Triple.done fun _ _ h => nomatch h
    simp only [hresult]
    have hjoined : ((v.joined (i, .ok outcome)).completed outcome.index url).joinSet.length + 1 =
        v.joinSet.length := by
      simp only [Parts.completed, Parts.joined, List.length_erase_of_mem hmem]
      exact Nat.sub_add_cancel (List.length_pos_of_mem hmem)
    have hnext : ((v.joined (i, .ok outcome)).completed outcome.index url).nextIndex =
        v.nextIndex := rfl
    generalize (v.joined (i, .ok outcome)).completed outcome.index url = v' at *
    refine Triple.ite (fun hmore => ?_) fun hall => ?_
    · refine Triple.bind _ (spawnNext_spec hlen capabilities v' hmore) ?_
      rintro ⟨v'', _ | error⟩
      · intro s hs
        obtain ⟨rfl, hbooks'⟩ := hs rfl
        refine ih v'.spawned ?_ (.inl ?_) s hbooks'
        · simp only [Parts.spawned, List.length_append, List.length_singleton]
          omega
        · exact List.append_ne_nil_of_right_ne_nil _ (List.cons_ne_nil _ _)
      · exact Triple.done fun _ _ h => nomatch h
    · intro s hs
      have hbooks : Books client options source v' s.world := hs
      exact ih v' (by omega) (.inr (Nat.le_antisymm hbooks.next (Nat.not_lt.mp hall))) s hs

/-! ## The concatenation -/

/-- The recorded URLs of parts that are all stored. -/
theorem exists_urls {l : List (Option String)} {P : Nat → String → Prop}
    (h : ∀ i < l.length, ∃ url, l[i]? = some (some url) ∧ P i url) :
    ∃ urls : List String, l = urls.map some ∧ ∀ (i : Nat) (url : String),
      urls[i]? = some url → P i url := by
  induction l generalizing P with
  | nil => exact ⟨[], rfl, fun i url h => nomatch h⟩
  | cons a l ih =>
    obtain ⟨url, hurl, hP⟩ := h 0 (Nat.succ_pos _)
    obtain rfl : a = some url := Option.some.inj hurl
    obtain ⟨urls, rfl, hurls⟩ := ih (P := fun i => P (i + 1))
      fun i hi => h (i + 1) (Nat.succ_lt_succ hi)
    refine ⟨url :: urls, rfl, fun i url' hi => ?_⟩
    cases i with
    | zero => exact Option.some.inj hi ▸ hP
    | succ i => exact hurls i url' hi

theorem collectUrls_map (urls : List String) : collectUrls (urls.map some) = some urls := by
  induction urls with
  | nil => rfl
  | cons url urls ih =>
    unfold collectUrls at ih ⊢
    rw [List.map_cons, List.mapM_cons, ih]
    rfl

theorem mapM_resolve {resolve : String → Except Error String} {urls : List String}
    (h : ∀ url ∈ urls, resolve url = .ok url) : urls.mapM resolve = .ok urls := by
  induction urls with
  | nil => rfl
  | cons url urls ih =>
    rw [List.mapM_cons, h url List.mem_cons_self, ih fun u hu => h u (List.mem_cons_of_mem _ hu)]
    rfl

/-- A server reads from the header the URLs the client has put into it. -/
theorem listed_header {urls : List String} (hne : urls ≠ [])
    (hspace : ∀ url ∈ urls, ' ' ∉ url.toList) :
    ParWorld.listed ("final;" ++ " ".intercalate urls) = urls := by
  have hdrop : ("final;" ++ " ".intercalate urls).toList.drop 6 =
      [' '].intercalate (urls.map String.toList) := by
    rw [String.toList_append, String.toList_intercalate]
    rfl
  have hsplit : ([' '].intercalate (urls.map String.toList)).splitOn ' ' =
      urls.map String.toList := by
    refine List.splitOn_intercalate ' ' ?_ (by simpa using hne)
    intro l hl
    obtain ⟨url, hurl, rfl⟩ := List.mem_map.mp hl
    exact hspace url hurl
  rw [ParWorld.listed, hdrop, hsplit, List.map_map]
  simp [Function.comp_def]

/-- The parts are stored at `urls`, in order. -/
structure Listed (client : ParallelClient Meta) (options : ParallelUpload) (source : Bytes)
    (urls : List String) (w : ParWorld) : Prop where
  length : urls.length = partCount options source.length
  stored : ∀ (i : Nat) (url : String), urls[i]? = some url →
    StoredAt client options source i url w
  parts : w.parts = (List.range (partCount options source.length)).map fun i =>
    (i, share source options.partSize (i + 1))

theorem Listed.upkeep {urls : List String} {w w' : ParWorld}
    (h : Listed client options source urls w) (hk : Upkeep source options.partSize w w')
    (hparts : w'.parts = w.parts) : Listed client options source urls w' :=
  ⟨h.length, fun i url hi => ⟨(h.stored i url hi).1, (h.stored i url hi).2.upkeep hk⟩,
    hparts.trans h.parts⟩

theorem Listed.resolved {urls : List String} {w : ParWorld}
    (h : Listed client options source urls w) (url : String) (hurl : url ∈ urls) :
    Resolved client.resolveServerLocation url := by
  obtain ⟨i, hi⟩ := List.getElem?_of_mem hurl
  exact (h.stored i url hi).1

/-- Together the listed parts are the source. -/
theorem Listed.content {urls : List String} {w : ParWorld}
    (h : Listed client options source urls w) :
    (urls.map w.server.content).flatten = source := by
  have hparts : urls.map w.server.content =
      (List.range (partCount options source.length)).map
        fun i => share source options.partSize (i + 1) := by
    refine List.ext_getElem? fun i => ?_
    rw [List.getElem?_map, List.getElem?_map]
    by_cases hi : i < urls.length
    · have hurl := List.getElem?_eq_getElem hi
      rw [hurl, List.getElem?_range (h.length ▸ hi)]
      exact congrArg some (h.stored i _ hurl).2.2
    · have hi' : ¬i < (List.range (partCount options source.length)).length := by
        rwa [List.length_range, ← h.length]
      rw [List.getElem?_eq_none (Nat.not_lt.mp hi), List.getElem?_eq_none (Nat.not_lt.mp hi')]
      rfl
  rw [hparts, shares_flatten]
  refine List.take_of_length_le (Nat.not_lt.mp fun hlt => ?_)
  exact lt_irrefl _ ((lt_divCeil options.partSize_pos).mpr hlt)

/-- What a concatenation leaves: the final upload holds the source, and the one header that
was sent lists the parts. -/
structure Final (client : ParallelClient Meta) (options : ParallelUpload) (source : Bytes)
    (urls : List String) (url : String) (w : ParWorld) : Prop where
  whole : Whole source options.partSize 0 url w
  listed : Listed client options source urls w
  concats : w.concats = ["final;" ++ " ".intercalate urls]

theorem final_stable (urls : List String) (url : String) :
    Stable (ParRely source options.partSize) 0 (Final client options source urls url) := by
  intro w w' h hr
  refine ⟨h.whole.upkeep hr.upkeep, h.listed.upkeep hr.upkeep (hr.logs rfl).1, ?_⟩
  rw [(hr.logs rfl).2, h.concats]

theorem concatenatedUrl_ok {r : Response} {url : String} (h : concatenatedUrl client r = .ok url) :
    r.status = 201 ∧ ∃ location, r.location = some location ∧
      client.resolveServerLocation location = .ok url := by
  unfold concatenatedUrl at h
  split at h
  · cases h
  · next hstatus =>
    obtain ⟨location, hloc, hres⟩ := except_bind_ok h
    exact ⟨not_not.mp hstatus, location, headerString_ok hloc, hres⟩

theorem finalInfo_spec (urls : List String) (url : String) :
    ParSpec client source options.partSize 0 (Final client options source urls url)
      ((uploadInfoAt client.toClient url).into (asNet false)) (fun
      | .ok info, w => Final client options source urls info.url w
      | .error _, _ => True) := by
  have hkeep : ParSpec client source options.partSize 0 (Final client options source urls url)
      ((uploadInfoAt client.toClient url).into (asNet false))
      (fun _ => Final client options source urls url) :=
    asks_keep (final_stable urls url) uploadInfoAt_asks
  have hurl : Prog.Yields (fun r : Except Error (UploadInfo Meta) =>
      ∀ info, r = .ok info → info.url = url) ((uploadInfoAt client.toClient url).into (asNet false)) :=
    uploadInfoAt_url.into (asNet false)
  refine (Triple.yields hkeep hurl).weaken (fun _ h => h) fun r w h => ?_
  cases r with
  | error e => trivial
  | ok info =>
    obtain rfl := h.2 info rfl
    exact h.1

theorem sendConcatenation_spec {urls : List String}
    (hlisted : ParWorld.listed ("final;" ++ " ".intercalate urls) = urls) :
    ParSpec client source options.partSize 0
      (fun w => Listed client options source urls w ∧ w.concats = [])
      (sendConcatenation client urls) (fun
      | .ok info, w => Final client options source urls info.url w
      | .error _, _ => True) := by
  refine Triple.step (fun (a : Except Error Response) w => ∀ r, a = .ok r → ∀ url,
      concatenatedUrl client r = .ok url → Final client options source urls url w) ?_ ?_ ?_
  · rintro w w' ⟨h, hc⟩ hr
    exact ⟨h.upkeep hr.upkeep (hr.logs rfl).1, (hr.logs rfl).2.trans hc⟩
  · rintro w a w' hi ⟨h, hc⟩ he
    have hsent : Safe (ParInv client.resolveServerLocation source options.partSize)
        (ParRely source options.partSize) 0 w
        { w with concats := w.concats ++ ["final;" ++ " ".intercalate urls] } :=
      ⟨⟨hi.pending, hi.running, hi.finished⟩, fun u hu => ⟨upkeep_refl w, fun _ h => h,
        fun h0 => absurd h0 hu, fun h0 => absurd h0 hu⟩⟩
    cases he with
    | concatenated hfresh hpoints =>
      rw [hlisted, h.content]
      obtain ⟨hi', hk, hr⟩ := create_step (t := 0) source hi hfresh
      refine ⟨⟨⟨hi'.pending, hi'.running, hi'.finished⟩, fun u hu => ?_⟩, ?_⟩
      · exact ⟨(hr u hu).upkeep, (hr u hu).own, fun h0 => absurd h0 hu, fun h0 => absurd h0 hu⟩
      · rintro r ⟨⟩ url hurl
        obtain ⟨-, location, hloc, hres⟩ := concatenatedUrl_ok hurl
        obtain rfl := hpoints location url hloc hres
        refine ⟨⟨Function.update_self .., Function.update_self ..⟩, h.upkeep hk rfl, ?_⟩
        exact congrArg (· ++ _) hc
    | notConcatenated hnot =>
      refine ⟨hsent, ?_⟩
      rintro r ⟨⟩ url hurl
      exact absurd (concatenatedUrl_ok hurl).1 hnot
    | concatLost => exact ⟨hsent, nofun⟩
  · intro r
    cases r with
    | error e => exact Triple.done fun _ _ => trivial
    | ok r =>
      dsimp only
      cases hurl : concatenatedUrl client r with
      | error e => exact Triple.done fun _ _ => trivial
      | ok url => exact (finalInfo_spec urls url).weaken (fun w h => h r rfl url hurl) fun _ _ h => h

/-- A concatenation that succeeds stores the source. -/
theorem concatenate_spec (hclient : client.Lawful) (hsource : source ≠ []) (urls : List String) :
    ParSpec client source options.partSize 0
      (fun w => Listed client options source urls w ∧ w.concats = [])
      (concatenateUploads client urls) (fun
      | .ok info, w => Final client options source urls info.url w
      | .error _, _ => True) := by
  intro s hs
  have hresolved := hs.1.resolved
  have hne : urls ≠ [] := by
    rintro rfl
    have hcount : 0 < partCount options source.length := (lt_divCeil options.partSize_pos).mpr
      (by rw [Nat.zero_mul]; exact List.length_pos_iff.mpr hsource)
    exact absurd hs.1.length (Nat.ne_of_lt hcount)
  have hlisted : ParWorld.listed ("final;" ++ " ".intercalate urls) = urls :=
    listed_header hne fun url hurl => by
      obtain ⟨location, hres⟩ := hresolved url hurl
      exact hclient.noSpace location url hres
  have hmap : urls.mapM client.resolveUploadLocation = .ok urls := mapM_resolve fun url hurl => by
    obtain ⟨location, hres⟩ := hresolved url hurl
    exact hclient.resolve location url hres
  unfold concatenateUploads
  rw [hmap]
  exact sendConcatenation_spec hlisted s hs

/-! ## The parallel upload -/

/-- What a parallel upload that returns leaves behind: a success the final upload over all
parts, a failure nothing that is promised, and a missing URL is no failure that happens. -/
def Concluded (client : ParallelClient Meta) (options : ParallelUpload) (source : Bytes) :
    Except Failure (UploadInfo Meta) → ParWorld → Prop
  | .ok info, w => Whole source options.partSize 0 info.url w ∧
      (source ≠ [] → ∃ urls, Final client options source urls info.url w)
  | .error (.upload _), _ => True
  | .error .unrecorded, _ => False

theorem concluded_stable (r : Except Failure (UploadInfo Meta)) :
    Stable (ParRely source options.partSize) 0 (Concluded client options source r) := by
  intro w w' h hr
  match r, h with
  | .ok info, h =>
    refine ⟨h.1.upkeep hr.upkeep, fun hne => ?_⟩
    obtain ⟨urls, hfinal⟩ := h.2 hne
    exact ⟨urls, final_stable urls info.url _ _ hfinal hr⟩
  | .error (.upload _), _ => trivial

theorem concluded_mapError {r : Except Error (UploadInfo Meta)} {w : ParWorld}
    (h : ∀ info, r = .ok info → Concluded client options source (.ok info) w) :
    Concluded client options source (r.mapError .upload) w := by
  cases r with
  | ok info => exact h info rfl
  | error e => trivial

theorem drainLoop_spec (n : Nat) (v : Parts) :
    ParSpec client source options.partSize 0 (fun _ => True) (drainLoop n v)
      (fun _ _ => True) := by
  induction n generalizing v with
  | zero => exact Triple.done fun _ _ => trivial
  | succ n ih =>
    refine Triple.ite (fun _ => Triple.done fun _ _ => trivial) fun _ => ?_
    refine Triple.step (fun _ _ => True) (fun _ _ _ _ => trivial) ?_ fun a => ih _
    exact fun w a w' hi _ he => ⟨(join_exec hi he).1, trivial⟩

theorem cleanup_spec (urls : List (Option String)) :
    ParSpec client source options.partSize 0 (fun _ => True) (cleanupPartialUploads client urls)
      (fun _ _ => True) := by
  induction urls with
  | nil => exact Triple.done fun _ _ => trivial
  | cons url urls ih =>
    cases url with
    | none => exact ih
    | some url =>
      unfold cleanupPartialUploads
      split
      · exact ih
      · refine Triple.step (fun _ _ => True) (fun _ _ _ _ => trivial) ?_ fun headers => ?_
        · intro w a w' hi _ he
          cases he with
          | headers => exact ⟨⟨hi, fun _ _ => parRely_refl w⟩, trivial⟩
        cases headers with
        | error e => exact ih
        | ok _ =>
          refine Triple.step (fun _ _ => True) (fun _ _ _ _ => trivial) ?_ fun _ => ih
          intro w a w' hi _ he
          cases he with
          | deleted =>
            exact ⟨⟨⟨hi.pending, hi.running, hi.finished⟩, fun u hu => ⟨upkeep_refl w,
              fun _ h => h, fun h0 => absurd h0 hu, fun h0 => absurd h0 hu⟩⟩, trivial⟩

/-- A failed part: the tasks are aborted and joined, and the error is returned. -/
theorem concludeFailed_spec (v : Parts) (error : Error) :
    ParSpec client source options.partSize 0 (fun _ => True)
      (concludeParts client (v, some error)) (Concluded client options source) := by
  refine Triple.step (fun _ _ => True) (fun _ _ _ _ => trivial) ?_ fun _ => ?_
  · intro w a w' hi _ he
    cases he with
    | abortAll =>
      exact ⟨⟨⟨hi.pending, hi.running, hi.finished⟩, fun u hu => ⟨upkeep_refl w,
        fun _ h => h, fun h0 => absurd h0 hu, fun h0 => absurd h0 hu⟩⟩, trivial⟩
  · refine Triple.bind _ (drainLoop_spec _ v) fun v' => ?_
    refine Triple.bind _ (cleanup_spec _) fun _ => ?_
    exact Triple.done fun _ _ => trivial

/-- All parts are joined: every URL is recorded, and the parts are concatenated. -/
theorem concludeJoined_spec (hclient : client.Lawful) (hsource : source ≠ []) (v : Parts)
    (hjoined : v.joinSet = []) (hnext : v.nextIndex = partCount options source.length) :
    ParSpec client source options.partSize 0 (Books client options source v)
      (concludeParts client (v, none)) (Concluded client options source) := by
  intro s hs
  have hbooks : Books client options source v s.world := hs
  obtain ⟨urls, hurls, hstored⟩ := exists_urls (l := v.partUrls)
    (P := fun i url => StoredAt client options source i url s.world) fun i hi =>
      hbooks.stored i (by rwa [hnext, ← hbooks.urls]) (by rw [hjoined]; exact List.not_mem_nil)
  have hlisted : Listed client options source urls s.world := by
    refine ⟨?_, hstored, ?_⟩
    · rw [← hbooks.urls, hurls, List.length_map]
    · rw [hbooks.parts, hnext]
  have hall : concludeParts client (v, none) =
      Prog.bind (concatenateUploads client urls) fun r => .done (r.mapError .upload) := by
    simp only [concludeParts, hurls, collectUrls_map]
  rw [hall]
  refine Triple.bind _ (concatenate_spec hclient hsource urls) (fun r => ?_) s
    ⟨hlisted, hbooks.concats⟩
  refine Triple.done fun w h => concluded_mapError ?_
  rintro info rfl
  exact ⟨h.whole, fun _ => ⟨urls, h⟩⟩

theorem uploadParts_spec (hclient : client.Lawful) (hlen : source.length < 2 ^ 64)
    (hsource : source ≠ []) (capabilities : List String) :
    ParSpec client source options.partSize 0
      (Books client options source (Parts.init (partCount options source.length)))
      (uploadParts client options source.length capabilities) (Concluded client options source) := by
  refine Triple.bind _ (spawnLoop_spec hlen capabilities _ _ (Nat.le_add_left _ _)) fun r => ?_
  obtain ⟨v, _ | error⟩ := r
  · intro s hs
    obtain ⟨hbooks, hrunning⟩ := hs rfl
    refine Triple.bind _ (joinLoop_spec hlen capabilities _ v le_rfl hrunning) (fun r => ?_) s hbooks
    obtain ⟨v', _ | error⟩ := r
    · intro s hs
      obtain ⟨hbooks', hjoined, hnext⟩ := hs rfl
      exact concludeJoined_spec hclient hsource v' hjoined hnext s hbooks'
    · exact (concludeFailed_spec v' error).weaken (fun _ _ => trivial) fun _ _ h => h
  · exact (concludeFailed_spec v error).weaken (fun _ _ => trivial) fun _ _ h => h

/-- An empty source is uploaded by one creation. -/
theorem uploadEmpty_spec (hsource : source = []) (rounds : Nat) (metadata : Meta) :
    ParSpec client source options.partSize 0 (fun _ => True)
      ((uploadFrom client.toClient rounds source.length metadata).into (asNet false)) (fun
      | .ok info, w => Whole source options.partSize 0 info.url w
      | .error _, _ => True) := by
  subst hsource
  have hplain : (uploadFrom client.toClient rounds 0 metadata : Prog NetSig _) =
      Prog.bind (createUploadRequest client.toClient 0 none metadata) _ := rfl
  rw [List.length_nil, hplain]
  refine Triple.into_bind (asNet false) _ (create_spec false 0 none metadata List.nil_prefix)
    fun info => ?_
  cases info with
  | error e => exact Triple.done fun _ _ => trivial
  | ok info =>
    refine (resume_spec false rounds info).weaken (fun _ h => h.2) fun r w h => ?_
    cases r with
    | error e => trivial
    | ok info' =>
      obtain ⟨hurl, hwhole⟩ := h
      change Whole [] options.partSize 0 info'.url w
      rw [hurl]
      exact hwhole

theorem uploadParallel_spec (hclient : client.Lawful) (hlen : source.length < 2 ^ 64)
    (rounds : Nat) (metadata : Meta) :
    ParSpec client source options.partSize 0
      (Books client options source (Parts.init (partCount options source.length)))
      (uploadParallel client options rounds source.length metadata)
      (Concluded client options source) := by
  unfold uploadParallel
  refine Triple.ite (fun hzero => ?_) fun hpos => ?_
  · have hsource : source = [] := List.eq_nil_of_length_eq_zero hzero
    refine Triple.bind _ ((uploadEmpty_spec hsource rounds metadata).weaken
      (fun _ _ => trivial) fun _ _ h => h) fun r => ?_
    refine Triple.done fun w h => concluded_mapError ?_
    rintro info rfl
    exact ⟨h, fun hne => absurd hsource hne⟩
  · have hsource : source ≠ [] := fun h => hpos (List.length_eq_zero_iff.mpr h)
    refine ask_spec trivial (books_stable _) fun r => ?_
    cases r with
    | error e => exact Triple.done fun _ _ => trivial
    | ok capabilities =>
      exact Triple.ite (fun _ => uploadParts_spec hclient hlen hsource capabilities)
        fun _ => Triple.done fun _ _ => trivial

/-- What a successful parallel upload leaves. The ranges of the parts are exact, consecutive
and cover the source; each was read and handed to a task in order; the one `Upload-Concat`
header lists the URLs of the parts in the order of their ranges; the final upload holds the
source. -/
structure Reassembled (options : ParallelUpload) (source : Bytes) (url : String) (w : ParWorld) :
    Prop where
  exact : ∀ i < partCount options source.length, i * options.partSize < source.length ∧
    partRange source.length options.partSize i =
      (i * options.partSize, min (source.length - i * options.partSize) options.partSize)
  tiles : Tiles 0 ((List.range (partCount options source.length)).map
    (partRange source.length options.partSize)) source.length
  parts : source ≠ [] → w.parts = (List.range (partCount options source.length)).map fun i =>
    (i, (source.drop (partRange source.length options.partSize i).1).take
      (partRange source.length options.partSize i).2)
  header : source ≠ [] → ∃ urls : List String,
    urls.length = partCount options source.length ∧
    w.concats = ["final;" ++ " ".intercalate urls] ∧
    ∀ (i : Nat) (partUrl : String), urls[i]? = some partUrl → w.server.content partUrl =
      (source.drop (partRange source.length options.partSize i).1).take
        (partRange source.length options.partSize i).2
  content : w.server.content url = source

/-- Whatever the run, what a parallel upload returns is what it has left. -/
theorem parallel_concluded (client : ParallelClient Meta) (hclient : client.Lawful)
    (options : ParallelUpload) (rounds : Nat) (source : Bytes) (hlen : source.length < 2 ^ 64)
    (metadata partMetadata : Meta) (content : String → Bytes)
    (c : Interaction.Config ParSig ParWorld (Option (Except Failure (UploadInfo Meta))))
    (hr : Reach (parMachine client source)
      (callParallel client options rounds source metadata partMetadata content) c)
    (r : Except Failure (UploadInfo Meta)) (hdone : c.pool 0 = some (.done (some r))) :
    Concluded client options source r c.snap.world := by
  refine Triple.result (R := ParRely source options.partSize) (P := fun t w => t = 0 →
      Books client options source (Parts.init (partCount options source.length)) w)
    (Q := fun t a w => t = 0 → ∀ r, a = some r → Concluded client options source r w)
    parallel_lawful (c := callParallel client options rounds source metadata partMetadata content)
    ⟨nofun, nofun, nofun⟩ ?_ ?_ hr hdone rfl r rfl
  · intro t p hp
    cases t with
    | zero =>
      obtain rfl := Option.some.inj hp
      refine ⟨fun _ => books_init content, ?_⟩
      refine Triple.bind _ ((uploadParallel_spec hclient hlen rounds metadata).weaken
        (fun w h => h rfl) fun _ _ h => h) fun r => ?_
      refine Triple.done fun w h _ r' hr' => ?_
      exact Option.some.inj hr' ▸ h
    | succ i =>
      obtain rfl := Option.some.inj hp
      refine ⟨nofun, ?_⟩
      refine Triple.bind _ ((partTask_spec rounds partMetadata i).weaken
        (fun _ _ => trivial) fun _ _ h => h) fun _ => ?_
      exact Triple.done fun _ _ h0 => nomatch h0
  · rintro t a w w' h hrely rfl r rfl
    exact concluded_stable r _ _ (h rfl r rfl) hrely

/-- A parallel upload that succeeds has reassembled its source, and no part is ever left
without a recorded URL. -/
theorem uploadParallel_reassembles (client : ParallelClient Meta) (hclient : client.Lawful)
    (options : ParallelUpload) (rounds : Nat) (source : Bytes) (hlen : source.length < 2 ^ 64)
    (metadata partMetadata : Meta) (content : String → Bytes)
    (c : Interaction.Config ParSig ParWorld (Option (Except Failure (UploadInfo Meta))))
    (hr : Reach (parMachine client source)
      (callParallel client options rounds source metadata partMetadata content) c) :
    (∀ info, c.pool 0 = some (.done (some (.ok info))) →
      Reassembled options source info.url c.snap.world) ∧
    c.pool 0 ≠ some (.done (some (.error .unrecorded))) := by
  have hconcluded := parallel_concluded client hclient options rounds source hlen metadata
    partMetadata content c hr
  have hstart : ∀ i < partCount options source.length, i * options.partSize < source.length :=
    fun i hi => (lt_divCeil options.partSize_pos).mp hi
  have hshare : ∀ i < partCount options source.length,
      share source options.partSize (i + 1) =
        (source.drop (partRange source.length options.partSize i).1).take
          (partRange source.length options.partSize i).2 :=
    fun i hi => share_eq_range hlen (hstart i hi)
  refine ⟨fun info hdone => ?_, fun hdone => hconcluded _ hdone⟩
  obtain ⟨hwhole, hfinal⟩ := hconcluded _ hdone
  refine ⟨fun i hi => ⟨hstart i hi, partRange_eq hlen (hstart i hi)⟩,
    ranges_tile options.partSize_pos hlen, fun hne => ?_, fun hne => ?_, hwhole.2⟩
  · obtain ⟨urls, hfinal⟩ := hfinal hne
    rw [hfinal.listed.parts]
    exact List.map_congr_left fun i hi => congrArg (i, ·) (hshare i (List.mem_range.mp hi))
  · obtain ⟨urls, hfinal⟩ := hfinal hne
    refine ⟨urls, hfinal.listed.length, hfinal.concats, fun i partUrl hurl => ?_⟩
    have hi : i < urls.length := (List.getElem?_eq_some_iff.mp hurl).1
    rw [(hfinal.listed.stored i partUrl hurl).2.2, hshare i (hfinal.listed.length ▸ hi)]

end Loops

/-! ## A run over two parts -/

/-- URLs without spaces resolve to themselves. -/
def plainClient : ParallelClient Unit where
  maxRetries := 1
  retryDelay := 0
  maxChunkSize := 8
  maxInitialUploadSize := 8
  hasRetryHook := false
  resolveServerLocation location :=
    if ' ' ∈ location.toList then .error (.url location) else .ok location
  decodeMetadata _ := .ok ()
  resolveUploadLocation := .ok
  parseUrl := some

theorem plainClient_lawful : plainClient.Lawful := by
  have h : ∀ location url, plainClient.resolveServerLocation location = .ok url →
      ' ' ∉ url.toList := by
    intro location url hres
    simp only [plainClient] at hres
    split at hres
    · cases hres
    · next hspace => exact Except.ok.inj hres ▸ hspace
  exact ⟨fun _ _ _ => rfl, fun _ _ _ => rfl, h⟩

/-- The parts of a two-byte source, one byte each; the second part is finished first. -/
theorem uploadParallel_reassembles_two :
    ∃ c info, Reach (parMachine plainClient [1, 2])
        (callParallel plainClient (.withPartSize (.new 8) 1) 1 [1, 2] () () fun _ => []) c ∧
      c.pool 0 = some (.done (some (.ok info))) ∧ c.snap.world.server.content info.url = [1, 2] ∧
      c.snap.world.concats = ["final;a b"] := by
  have reply : ∀ (status : Nat) (location offset : Option String) (url : String) (w : Server),
      (∀ v ∈ offset, ∀ n, parseU64 v = some n → n ≤ (w.content url).length) →
      w.Truthful url ⟨status, location, offset, none, none, none⟩ :=
    fun _ _ _ _ _ h v n hv hn => h v hv n hn
  have points : ∀ url status offset, PointsTo plainClient.resolveServerLocation
      ⟨status, some url, offset, none, none, none⟩ url := by
    rintro url status offset _ u ⟨⟩ hres
    simp only [plainClient] at hres
    split at hres
    · cases hres
    · exact (Except.ok.inj hres).symm
  have offset : ∀ s k, parseU64 s = some k → ∀ v ∈ some s, ∀ n, parseU64 v = some n → n ≤ k := by
    rintro s k hk _ ⟨⟩ n hn
    exact Nat.le_of_eq (Option.some.inj (hn.symm.trans hk))
  have one := offset "1" 1 (by decide)
  have h := Reach.run (M := parMachine plainClient [1, 2]) .refl
    (c := callParallel plainClient (.withPartSize (.new 8) 1) 1 [1, 2] () () fun _ => [])
    0 (.net false .options) (.ok ["concatenation", "creation-with-upload"]) rfl
    (.net (.inl ⟨rfl, rfl⟩) rfl .options)
  have h := h.run 0 (.net false (.readChunk 0 1)) (.ok [1]) rfl
    (.net (.inl ⟨rfl, rfl⟩) rfl (.readChunk ⟨[2], rfl⟩))
  have h := h.run 0 (.spawn 0 _ [1]) () rfl (.spawn rfl)
  have h := h.run 0 (.net false (.readChunk 1 1)) (.ok [2]) rfl
    (.net (.inl ⟨rfl, rfl⟩) rfl (.readChunk ⟨[], rfl⟩))
  have h := h.run 0 (.spawn 1 _ [2]) () rfl (.spawn rfl)
  have h := h.run 2 .start _ rfl (.start rfl)
  have h := h.run 2 (.net true (.readChunk 0 1)) (.ok [2]) rfl
    (.net (.inr ⟨1, _, rfl, rfl⟩) rfl (.readChunk ⟨[], rfl⟩))
  have h := h.run 2 (.net true (.post 1 (some [2])))
    (.ok ⟨201, some "b", some "1", none, none, none⟩) rfl
    (.created (k := 1) (.inr ⟨1, _, rfl, rfl⟩) rfl (points "b" _ _) (reply _ _ _ _ _ one))
  have h := h.run 2 (.net true (.onProgress 1 1)) () rfl
    (.net (.inr ⟨1, _, rfl, rfl⟩) rfl .onProgress)
  have h := h.run 2 (.finish ⟨1, some "b", .ok "b"⟩) () rfl (.finish rfl)
  have h := h.run 0 (.join [0, 1]) (1, .ok ⟨1, some "b", .ok "b"⟩) rfl
    (.joined (List.mem_cons_of_mem _ List.mem_cons_self) rfl)
  have h := h.run 1 .start _ rfl (.start rfl)
  have h := h.run 1 (.net true (.readChunk 0 1)) (.ok [1]) rfl
    (.net (.inr ⟨0, _, rfl, rfl⟩) rfl (.readChunk ⟨[], rfl⟩))
  have h := h.run 1 (.net true (.post 1 (some [1])))
    (.ok ⟨201, some "a", some "1", none, none, none⟩) rfl
    (.created (k := 1) (.inr ⟨0, _, rfl, rfl⟩) (by decide) (points "a" _ _) (reply _ _ _ _ _ one))
  have h := h.run 1 (.net true (.onProgress 1 1)) () rfl
    (.net (.inr ⟨0, _, rfl, rfl⟩) rfl .onProgress)
  have h := h.run 1 (.finish ⟨0, some "a", .ok "a"⟩) () rfl (.finish rfl)
  have h := h.run 0 (.join [0]) (0, .ok ⟨0, some "a", .ok "a"⟩) rfl
    (.joined List.mem_cons_self rfl)
  have h := h.run 0 (.concat "final;a b") (.ok ⟨201, some "f", none, none, none, none⟩) rfl
    (.concatenated (by decide) (points "f" _ _))
  have h := h.run 0 (.net false (.head "f")) (.ok ⟨200, none, some "2", none, none, none⟩) rfl
    (.net (.inl ⟨rfl, rfl⟩) rfl (.head (reply _ _ _ _ _ (offset "2" 2 (by decide)))))
  refine ⟨_, _, h, rfl, ?_, rfl⟩
  exact ((uploadParallel_reassembles plainClient plainClient_lawful (.withPartSize (.new 8) 1) 1
    [1, 2] (by decide) () () (fun _ => []) _ h).1 _ rfl).content

end Uploader

end TusRs
