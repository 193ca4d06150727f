import TusRs.Locking.Memory

/-!
# Idle entries of the memory locker

When the map of `locking/memory.rs` loses its entries. A task that drops a reference to a
semaphore owes the map a look at the entry, which is `remove_if_idle`. A lock future that is
dropped while it waits lets go of its references without that look.

Results:

* `act_covered`: an entry without references is always owed a look, unless a withdrawn task
  was the last to refer to it.
* `entry_iff`: between the calls an id has an entry exactly when it has a guard or a waiter.
-/

namespace TusRs

open Interaction

namespace MemoryLocker

/-- The locker whose mutex is never poisoned: nothing panics while it is held. -/
def unpoisoned : Machine LockSig Heap where
  exec t o w a w' := LockExec t o w a w' ∧ ∀ id, o = .removeIfIdle id → w' = w.removeIfIdle id
  env _ _ := False
  halt _ _ _ := False

/-! ## What a task owes the map -/

/-- A task is clear, or it has dropped a reference and not looked at the entry of `id` since,
or its pending call was cancelled. -/
inductive Standing where
  | clear
  | owes (id : String)
  | withdrawn
deriving DecidableEq

/-- The standing at the end of a wait. -/
def Wake.standing : Wake → Standing
  | .cancelled => .withdrawn
  | _ => .clear

/-- How an operation changes the standing of its task. -/
def Standing.after : Event LockSig Heap → Standing → Standing
  | ⟨_, .wake _, a, _⟩, _ => a.standing
  | ⟨_, .abandon _, _, _⟩, old => old
  | ⟨_, .dropArc s, _, w⟩, old => if old = .withdrawn then .withdrawn else .owes (w.key s)
  | _, _ => .clear

/-- The standing of task `t` after the operations of a history. -/
def standing : List (Event LockSig Heap) → Nat → Standing
  | [], _ => .clear
  | e :: h, t => if e.tid = t then (standing h t).after e else standing h t

/-- A cancelled lock future is not the last to let go of a semaphore: whenever it drops the
last reference besides the map's, another task has yet to look at the entry. -/
def Attended : List (Event LockSig Heap) → Prop
  | [] => True
  | e :: h => Attended h ∧ ∀ s, e.op = .dropArc s → standing h e.tid = .withdrawn →
      e.before.strong s = 2 → ∃ u, standing h u = .owes (e.before.key s)

/-- The task owes no look. -/
def Standing.Settled (x : Standing) : Prop := ∀ id, x ≠ .owes id

/-- What holds where a task performs an operation. -/
def Duty (t : Nat) (s : Snap LockSig Heap) : LockOp → Prop
  | .dropArc sem => (t, sem) ∈ s.world.arcs ∧
      ∀ id, standing s.hist t = .owes id → id = s.world.key sem
  | .issue g => (t, g.semaphore) ∈ s.world.arcs ∧ s.world.key g.semaphore = g.uploadId ∧
      ∀ id, standing s.hist t = .owes id → id = g.uploadId
  | .removeIfIdle id => ∀ id', standing s.hist t = .owes id' → id' = id
  | .wake sem => (standing s.hist t).Settled ∧
      ∃ held id, Inside t held id sem [sem] [] [sem] s.world
  | .entry _ | .isLocked _ | .retire _ =>
      (standing s.hist t).Settled ∧ ∃ held, Held t held s.world
  | _ => (standing s.hist t).Settled

/-- Tasks keep to their duties and rely on the others for their own references and
standing. -/
def dutiful : Discipline LockSig Heap where
  inv s := s.world.Inv
  rely t s s' := Keeps t s.world s'.world ∧ standing s'.hist t = standing s.hist t
  act t s s' := ∃ o a w', unpoisoned.exec t o s.world a w' ∧ Keeping t s.world w' ∧ Duty t s o ∧
    s' = s.push t o a w'

theorem dutiful_lawful : dutiful.Lawful unpoisoned where
  rely_refl t s := ⟨keeps_refl t s.world, rfl⟩
  rely_trans t s₁ s₂ s₃ h h' :=
    ⟨keeps_trans t s₁.world s₂.world s₃.world h.1 h'.1, h'.2.trans h.2⟩
  act_inv t s s' _ := by
    rintro ⟨o, a, w', -, hk, -, rfl⟩
    exact hk.1
  act_rely t u s s' _ h hu := by
    obtain ⟨o, a, w', -, hk, -, rfl⟩ := h
    exact ⟨hk.2 u hu, if_neg hu.symm⟩
  env_inv _ _ _ h := h.elim
  env_rely _ _ _ _ h := h.elim
  halt_inv _ _ _ _ h := h.elim
  halt_rely _ _ _ _ _ h := h.elim

/-! ## Entries without references -/

/-- Some task owes a look at every entry that no task refers to. -/
def Covered (s : Snap LockSig Heap) : Prop :=
  ∀ id sem, s.world.map id = some sem → (∀ t, (t, sem) ∉ s.world.arcs) →
    ∃ u, standing s.hist u = .owes id

variable {t : Nat} {s : Snap LockSig Heap} {o : LockOp} {a : LockSig.Ans o} {w' : Heap}

theorem standing_push_self : standing (s.push t o a w').hist t =
    (standing s.hist t).after ⟨t, o, a, s.world⟩ :=
  if_pos rfl

theorem standing_push_other {u : Nat} (hu : u ≠ t) :
    standing (s.push t o a w').hist u = standing s.hist u :=
  if_neg hu.symm

/-- A task that owes nothing leaves the entries covered when it creates no entry without a
reference. -/
theorem Covered.of_settled (hc : Covered s) (ht : (standing s.hist t).Settled)
    (hw : ∀ id sem, w'.map id = some sem → (∀ u, (u, sem) ∉ w'.arcs) →
      s.world.map id = some sem ∧ ∀ u, (u, sem) ∉ s.world.arcs) :
    Covered (s.push t o a w') := by
  intro id sem hmap harcs
  obtain ⟨hmap', harcs'⟩ := hw id sem hmap harcs
  obtain ⟨u, hu⟩ := hc id sem hmap' harcs'
  have hut : u ≠ t := by
    rintro rfl
    exact ht id hu
  exact ⟨u, (standing_push_other hut).trans hu⟩

theorem Covered.of_same (hc : Covered s) (ht : (standing s.hist t).Settled)
    (hmap : w'.map = s.world.map) (harcs : w'.arcs = s.world.arcs) :
    Covered (s.push t o a w') :=
  hc.of_settled ht fun _ _ hm hn => ⟨hmap ▸ hm, harcs ▸ hn⟩

theorem Covered.of_addArc {sem : Nat} (hc : Covered s) (ht : (standing s.hist t).Settled) :
    Covered (s.push t o a (s.world.addArc t sem)) :=
  hc.of_settled ht fun _ _ hm hn => ⟨hm, fun u hu => hn u (List.mem_cons_of_mem _ hu)⟩

theorem handOver_same (w : Heap) (sem : Nat) :
    (w.handOver sem).map = w.map ∧ (w.handOver sem).arcs = w.arcs := by
  unfold Heap.handOver
  split <;> exact ⟨rfl, rfl⟩

theorem abandon_same (w : Heap) (t sem : Nat) :
    (w.abandon t sem).map = w.map ∧ (w.abandon t sem).arcs = w.arcs := by
  unfold Heap.abandon
  split
  · exact ⟨rfl, rfl⟩
  · exact handOver_same _ _

/-- A new entry has a reference. -/
theorem Covered.of_insertEntry {id : String} {sem : Nat} (hc : Covered s)
    (ht : (standing s.hist t).Settled) (hid : s.world.map id = none) :
    Covered (s.push t o a (s.world.insertEntry t id sem)) := by
  refine hc.of_settled ht fun id' sem' hm hn => ⟨?_, fun u hu => hn u (List.mem_cons_of_mem _ hu)⟩
  change Function.update s.world.map id (some sem) id' = some sem' at hm
  have hne : id' ≠ id := by
    rintro rfl
    rw [Function.update_self] at hm
    cases hm
    exact hn t (List.mem_cons_self ..)
  rwa [Function.update_of_ne hne] at hm

theorem no_refs {l : List (Nat × Nat)} {sem : Nat} (h : ∀ t, (t, sem) ∉ l) :
    l.countP (fun x => x.2 = sem) = 0 := by
  refine List.countP_eq_zero.mpr ?_
  rintro ⟨u, sem'⟩ hx hxs
  simp only [decide_eq_true_eq] at hxs
  exact h u (hxs ▸ hx)

/-- The task that drops the last reference owes a look, or another does. -/
theorem Covered.of_dropArc {sem : Nat} (hi : s.world.Inv) (hc : Covered s)
    (hd : Duty t s (.dropArc sem))
    (ha : Attended (s.push t (.dropArc sem) () (s.world.dropArc t sem)).hist) :
    Covered (s.push t (.dropArc sem) () (s.world.dropArc t sem)) := by
  have hown : standing (s.push t (.dropArc sem) () (s.world.dropArc t sem)).hist t =
      if standing s.hist t = .withdrawn then .withdrawn else .owes (s.world.key sem) :=
    standing_push_self
  -- whoever owes the look before does so afterwards
  have hkeep : ∀ id u, standing s.hist u = .owes id →
      ∃ u, standing (s.push t (.dropArc sem) () (s.world.dropArc t sem)).hist u = .owes id := by
    intro id u hu
    by_cases hut : u = t
    · subst hut
      refine ⟨u, ?_⟩
      rw [hown, hu, if_neg (by simp), hd.2 id hu]
    · exact ⟨u, (standing_push_other hut).trans hu⟩
  intro id sem' hmap harcs
  change s.world.map id = some sem' at hmap
  change ∀ u, (u, sem') ∉ s.world.arcs.erase (t, sem) at harcs
  by_cases hold : ∀ u, (u, sem') ∉ s.world.arcs
  · obtain ⟨u, hu⟩ := hc id sem' hmap hold
    exact hkeep id u hu
  have hsem : sem' = sem := by
    push Not at hold
    obtain ⟨u, hu⟩ := hold
    by_contra hne
    refine harcs u ((List.mem_erase_of_ne ?_).mpr hu)
    exact fun h => hne (Prod.mk.inj h).2
  subst hsem
  have hkey : s.world.key sem' = id := hi.keyed id sem' hmap
  by_cases hst : standing s.hist t = .withdrawn
  · have hstrong : s.world.strong sem' = 2 := by
      have hnone : (s.world.arcs.erase (t, sem')).countP (fun x => x.2 = sem') = 0 := by
        exact no_refs harcs
      have herase := countP_erase_pair hd.1 sem'
      rw [hnone, if_pos rfl] at herase
      rw [hi.counted id sem' hmap, ← herase]
    obtain ⟨u, hu⟩ := ha.2 sem' rfl hst hstrong
    exact hkeep id u (hkey ▸ hu)
  · exact ⟨t, by rw [hown, if_neg hst, hkey]⟩

/-- A new guard keeps a reference to its entry. -/
theorem Covered.of_issue {g : Guard} (hi : s.world.Inv) (hc : Covered s)
    (hd : Duty t s (.issue g)) : Covered (s.push t (.issue g) () (s.world.issue t g)) := by
  intro id sem hmap harcs
  change s.world.map id = some sem at hmap
  obtain ⟨u, hu⟩ := hc id sem hmap harcs
  have hut : u ≠ t := by
    rintro rfl
    have hg := hi.mapped u g.semaphore hd.1
    rw [hd.2.1, ← hd.2.2 id hu, hmap] at hg
    cases hg
    exact harcs u hd.1
  exact ⟨u, (standing_push_other hut).trans hu⟩

/-- A look removes the entry that nothing refers to. -/
theorem removeIfIdle_map {w : Heap} (hi : w.Inv) {id : String} {sem : Nat}
    (harcs : ∀ t, (t, sem) ∉ w.arcs) : (w.removeIfIdle id).map id ≠ some sem := by
  intro h
  unfold Heap.removeIfIdle at h
  split at h
  · next sem' hmap =>
    by_cases hidle : w.strong sem' = 1 ∧ w.available sem' = 1
    · rw [if_pos hidle] at h
      exact nomatch (Function.update_self id none w.map).symm.trans h
    · rw [if_neg hidle, hmap] at h
      cases h
      have hpermits : ∀ t, (t, sem) ∉ w.permits := by
        intro t ht
        have hb := hi.backed (t, sem)
        have hpos := List.count_pos_iff.mpr ht
        exact harcs t (List.count_pos_iff.mp (by omega))
      have hc := hi.counted id sem hmap
      have hp := hi.permit id sem hmap
      rw [no_refs harcs] at hc
      rw [no_refs hpermits] at hp
      exact hidle ⟨hc, hp⟩
  · next hnone =>
    rw [hnone] at h
    cases h

theorem removeIfIdle_sub {w : Heap} {id id' : String} {sem : Nat}
    (h : (w.removeIfIdle id).map id' = some sem) : w.map id' = some sem := by
  unfold Heap.removeIfIdle at h
  split at h
  · split at h
    · by_cases hid : id' = id
      · subst hid
        exact nomatch (Function.update_self id' none w.map).symm.trans h
      · exact (Function.update_of_ne hid none w.map).symm.trans h
    · exact h
  · exact h

theorem removeIfIdle_arcs (w : Heap) (id : String) : (w.removeIfIdle id).arcs = w.arcs := by
  unfold Heap.removeIfIdle
  split
  · split <;> rfl
  · rfl

theorem Covered.of_removeIfIdle {id : String} (hi : s.world.Inv) (hc : Covered s)
    (hd : Duty t s (.removeIfIdle id)) :
    Covered (s.push t (.removeIfIdle id) () (s.world.removeIfIdle id)) := by
  intro id' sem hmap harcs
  change (s.world.removeIfIdle id).map id' = some sem at hmap
  change ∀ u, (u, sem) ∉ (s.world.removeIfIdle id).arcs at harcs
  rw [removeIfIdle_arcs] at harcs
  obtain ⟨u, hu⟩ := hc id' sem (removeIfIdle_sub hmap) harcs
  have hut : u ≠ t := by
    rintro rfl
    cases hd id' hu
    exact removeIfIdle_map hi harcs hmap
  exact ⟨u, (standing_push_other hut).trans hu⟩

/-- One step of a task keeps the entries covered. -/
theorem act_covered {s' : Snap LockSig Heap} (hi : s.world.Inv) (hc : Covered s)
    (h : dutiful.act t s s') (ha : Attended s'.hist) : Covered s' := by
  obtain ⟨o, a, w', ⟨he, hlook⟩, -, hd, rfl⟩ := h
  cases he with
  | entryFound _ => exact hc.of_addArc hd.1
  | entryNew hid _ => exact hc.of_insertEntry hd.1 hid
  | entryPoisoned => exact hc.of_same hd.1 rfl rfl
  | cloneArc => exact hc.of_addArc hd
  | dropArc => exact hc.of_dropArc hi hd ha
  | tryAcquired _ => exact hc.of_same hd rfl rfl
  | tryFailed _ => exact hc.of_same hd rfl rfl
  | pollReady _ => exact hc.of_same hd rfl rfl
  | pollPending _ => exact hc.of_same hd rfl rfl
  | woken _ => exact hc.of_same hd.1 rfl rfl
  | elapsed => exact hc.of_same hd.1 rfl rfl
  | cancelled => exact hc.of_same hd.1 rfl rfl
  | abandon => exact hc.of_same hd (abandon_same _ _ _).1 (abandon_same _ _ _).2
  | release => exact hc.of_same hd (handOver_same _ _).1 (handOver_same _ _).2
  | removeIfIdle => exact hc.of_removeIfIdle hi hd
  | removePoisoned =>
    rw [hlook _ rfl]
    exact hc.of_removeIfIdle hi hd
  | isLocked => exact hc.of_same hd.1 rfl rfl
  | issue => exact hc.of_issue hi hd
  | retire => exact hc.of_same hd.1 rfl rfl

/-! ## The programs -/

/-- The task knows `A` of the locker and `X` of its own standing. -/
def Knows (t : Nat) (A : Heap → Prop) (X : Standing → Prop) (s : Snap LockSig Heap) : Prop :=
  A s.world ∧ X (standing s.hist t)

/-- Between two calls. -/
abbrev Rest (t : Nat) (held : List Guard) : Snap LockSig Heap → Prop :=
  Knows t (Held t held) Standing.Settled

abbrev Careful (t : Nat) {α : Type} (P : Snap LockSig Heap → Prop) (p : Prog LockSig α)
    (Q : α → Snap LockSig Heap → Prop) : Prop :=
  Interaction.Spec unpoisoned dutiful t P p Q

variable {held : List Guard} {as ps ws : List Nat} {g : Guard} {id : String} {sem : Nat}
  {α : Type} {Q : α → Snap LockSig Heap → Prop}

theorem settled_clear : Standing.clear.Settled := nofun

theorem settled_withdrawn : Standing.withdrawn.Settled := nofun

/-- One operation; `A'` and `X'` are what the task knows after each answer. -/
theorem careful_step {A : Heap → Prop} {X : Standing → Prop} {k : LockSig.Ans o → Prog LockSig α}
    (A' : LockSig.Ans o → Heap → Prop) (X' : LockSig.Ans o → Standing → Prop)
    (hA : Stable Keeps t A)
    (hd : ∀ s, s.world.Inv → A s.world → X (standing s.hist t) → Duty t s o)
    (hexec : ∀ w a w', w.Inv → A w → LockExec t o w a w' → Keeping t w w' ∧ A' a w')
    (hX : ∀ w a x, A w → X x → X' a (x.after ⟨t, o, a, w⟩))
    (hk : ∀ a, Careful t (Knows t (A' a) (X' a)) (k a) Q) :
    Careful t (Knows t A X) (.step o k) Q := by
  refine Spec.step (fun a => Knows t (A' a) (X' a)) ?_ ?_ hk
  · rintro s s' ⟨ha, hx⟩ ⟨hkeep, hst⟩
    exact ⟨hA _ _ ha hkeep, hst ▸ hx⟩
  · rintro s a w' hi ⟨ha, hx⟩ he
    obtain ⟨hkeep, ha'⟩ := hexec _ a w' hi ha he.1
    refine ⟨⟨o, a, w', he, hkeep, hd s hi ha hx, rfl⟩, ha', ?_⟩
    rw [standing_push_self]
    exact hX _ a _ ha hx

/-- Dropping both references of a call and looking at the entry. -/
theorem dropArcs_look {p : Prog LockSig α} (hp : Careful t (Rest t held) p Q) :
    Careful t (Knows t (Inside t held id sem [sem] [] []) (· = .clear))
      (dropArcs sem (.step (.removeIfIdle id) fun _ => p)) Q := by
  refine careful_step (fun _ => Inside t held id sem [] [] []) (fun _ => (· = .owes id))
    inside_stable ?_ ?_ ?_ fun _ =>
      careful_step (fun _ => Held t held) (fun _ => (· = .owes id)) inside_stable ?_ ?_ ?_ fun _ =>
        careful_step (fun _ => Held t held) (fun _ => (· = .clear)) owns_stable ?_
          (fun _ _ _ => removeIfIdle_exec) (fun _ _ _ _ _ => rfl) fun _ => ?_
  · rintro s - ha hx
    exact ⟨ha.1.mem_arcs, fun id' h => nomatch hx.symm.trans h⟩
  · rintro w a w' hi ha he
    have hdrop := dropArc_exec (Nat.zero_le _) hi ha.1 he
    cases he
    exact ⟨hdrop.1, hdrop.2, ha.2⟩
  · rintro w a x ha rfl
    exact congrArg Standing.owes ha.2
  · rintro s - ha hx
    refine ⟨ha.1.mem_arcs, fun id' h => ?_⟩
    cases hx.symm.trans h
    exact ha.2.symm
  · exact fun w a w' hi ha he => dropArc_exec (Nat.zero_le _) hi ha.1 he
  · rintro w a x ha rfl
    exact congrArg Standing.owes ha.2
  · rintro s - - hx id' h
    cases hx.symm.trans h
    rfl
  · refine hp.weaken ?_ fun _ _ h => h
    rintro s ⟨ha, hx⟩
    exact ⟨ha, by rw [hx]; exact settled_clear⟩

/-- A withdrawn task drops its references without a look. -/
theorem dropArcs_withdrawn {p : Prog LockSig α} (hp : Careful t (Rest t held) p Q) :
    Careful t (Knows t (Inside t held id sem [sem] [] []) (· = .withdrawn)) (dropArcs sem p) Q := by
  refine careful_step (fun _ => Owns t held [sem] [] []) (fun _ => (· = .withdrawn))
    inside_stable ?_ (fun _ _ _ hi ha he => dropArc_exec (Nat.zero_le _) hi ha.1 he) ?_ fun _ =>
      careful_step (fun _ => Held t held) (fun _ => (· = .withdrawn)) owns_stable ?_
        (fun _ _ _ hi ha he => dropArc_exec (Nat.zero_le _) hi ha he) ?_ fun _ => ?_
  · rintro s - ha hx
    exact ⟨ha.1.mem_arcs, fun id' h => nomatch hx.symm.trans h⟩
  · rintro w a x - rfl
    rfl
  · rintro s - ha hx
    exact ⟨ha.mem_arcs, fun id' h => nomatch hx.symm.trans h⟩
  · rintro w a x - rfl
    rfl
  · refine hp.weaken ?_ fun _ _ h => h
    rintro s ⟨ha, hx⟩
    exact ⟨ha, by rw [hx]; exact settled_withdrawn⟩

/-- The guard takes over the permit's reference, so that no look is owed. -/
theorem withRelease_careful {f : Guard → α}
    (hf : ∀ g s, Rest t (g :: held) s → Q (f g) s) :
    Careful t (Knows t (Inside t held id sem [sem] [sem] []) (· = .clear))
      ((withRelease id sem).bind fun g => .done (f g)) Q := by
  refine careful_step (fun _ => Inside t held id sem [] [sem] []) (fun _ => (· = .owes id))
    inside_stable ?_ (fun _ _ _ => dropClone_exec) ?_ fun _ =>
      careful_step (fun _ => Held t (⟨id, sem⟩ :: held)) (fun _ => (· = .clear)) inside_stable ?_
        (fun _ _ _ => issue_exec) (fun _ _ _ _ _ => rfl) fun _ => Spec.done ?_
  · rintro s - ha hx
    exact ⟨ha.1.mem_arcs, fun id' h => nomatch hx.symm.trans h⟩
  · rintro w a x ha rfl
    exact congrArg Standing.owes ha.2
  · rintro s - ha hx
    refine ⟨ha.1.mem_arcs, ha.2, fun id' h => ?_⟩
    cases hx.symm.trans h
    rfl
  · rintro s ⟨ha, hx⟩
    exact hf _ s ⟨ha, by rw [hx]; exact settled_clear⟩

/-- After the first two steps of a call. -/
theorem enter_careful {k : Nat → Prog LockSig α} {p : Prog LockSig α}
    (hnone : Careful t (Rest t held) p Q)
    (hsome : ∀ sem, Careful t (Knows t (Inside t held id sem [sem] [] []) (· = .clear)) (k sem) Q) :
    Careful t (Rest t held) (.step (.entry id) fun
      | none => p
      | some sem => .step (.cloneArc sem) fun _ => k sem) Q := by
  refine careful_step (entered t held id) (fun _ => (· = .clear)) owns_stable
    (fun s _ ha hx => ⟨hx, held, ha⟩) (fun _ _ _ => entry_exec) (fun _ _ _ _ _ => rfl) fun a => ?_
  cases a with
  | none =>
    refine hnone.weaken ?_ fun _ _ h => h
    rintro s ⟨ha, hx⟩
    exact ⟨ha, by rw [hx]; exact settled_clear⟩
  | some sem =>
    refine careful_step (fun _ => Inside t held id sem [sem] [] []) (fun _ => (· = .clear))
      inside_stable ?_ (fun _ _ _ => cloneArc_exec) (fun _ _ _ _ _ => rfl) fun _ => hsome sem
    rintro s - - hx
    exact fun id' h => nomatch hx.symm.trans h

/-- The guards held after a call, of a task that owes no look. -/
def restWith (t : Nat) (held : List Guard) (g : Option Guard) (s : Snap LockSig Heap) : Prop :=
  acquiredBy t held g s.world ∧ (standing s.hist t).Settled

theorem lock_careful (id : String) :
    Careful t (Rest t held) (lock id) fun r => restWith t held (r.bind Except.toOption) := by
  refine enter_careful (Spec.done fun s h => h) fun sem =>
    careful_step (taken t held id sem [sem]) (fun _ => (· = .clear)) inside_stable
      (fun s _ _ hx id' h => nomatch hx.symm.trans h) (fun _ _ _ => poll_exec)
      (fun _ _ _ _ _ => rfl) fun a => ?_
  cases a with
  | true => exact withRelease_careful fun _ _ h => h
  | false =>
    refine careful_step (woken t held id sem)
      (fun a => (· = a.standing)) inside_stable ?_ (fun _ _ _ => wake_exec)
      (fun _ _ _ _ _ => rfl) fun a => ?_
    · rintro s - ha hx
      exact ⟨fun id' h => (nomatch hx.symm.trans h), held, id, ha⟩
    cases a with
    | permit => exact withRelease_careful fun _ _ h => h
    | closed => exact fun _ h => h.1.elim
    | elapsed =>
      refine careful_step (fun _ => Inside t held id sem [sem] [] []) (fun _ => (· = .clear))
        inside_stable ?_ (fun _ _ _ => abandon_exec) (fun _ _ _ _ hx => hx) fun _ =>
          dropArcs_look (Spec.done fun s h => h)
      rintro s - - hx id' h
      cases hx.symm.trans h
    | cancelled =>
      refine careful_step (fun _ => Inside t held id sem [sem] [] []) (fun _ => (· = .withdrawn))
        inside_stable ?_ (fun _ _ _ => abandon_exec) (fun _ _ _ _ hx => hx) fun _ =>
          dropArcs_withdrawn (Spec.done fun s h => h)
      rintro s - - hx id' h
      cases hx.symm.trans h

theorem tryLock_careful (id : String) :
    Careful t (Rest t held) (tryLock id) fun r => restWith t held (r.toOption.bind fun g => g) := by
  refine enter_careful (Spec.done fun s h => h) fun sem =>
    careful_step (taken t held id sem []) (fun _ => (· = .clear)) inside_stable
      (fun s _ _ hx id' h => nomatch hx.symm.trans h) (fun _ _ _ => tryAcquire_exec)
      (fun _ _ _ _ _ => rfl) fun a => ?_
  cases a with
  | true => exact withRelease_careful fun _ _ h => h
  | false => exact dropArcs_look (Spec.done fun s h => h)

theorem Owns.guard_key {w : Heap} (hi : w.Inv) (h : Held t (g :: held) w) :
    w.key g.semaphore = g.uploadId := by
  refine hi.guarded t g (List.count_pos_iff.mp ?_)
  rw [h.guards g, List.count_cons_self]
  exact Nat.succ_pos _

theorem dropGuard_careful :
    Careful t (Rest t (g :: held)) (dropGuard g) fun _ => Rest t held := by
  refine careful_step (fun _ => Inside t held g.uploadId g.semaphore [] [g.semaphore] [])
    (fun _ => (· = .clear)) owns_stable (fun s _ ha hx => ⟨hx, _, ha⟩) ?_
    (fun _ _ _ _ _ => rfl) fun _ =>
      careful_step (fun _ => Inside t held g.uploadId g.semaphore [] [] []) (fun _ => (· = .clear))
        inside_stable (fun s _ _ hx id' h => nomatch hx.symm.trans h) ?_
        (fun _ _ _ _ _ => rfl) fun _ =>
          careful_step (fun _ => Held t held) (fun _ => (· = .owes g.uploadId)) inside_stable ?_
            (fun _ _ _ hi ha he => dropArc_exec (Nat.zero_le _) hi ha.1 he) ?_ fun _ =>
              careful_step (fun _ => Held t held) (fun _ => (· = .clear)) owns_stable ?_
                (fun _ _ _ => removeIfIdle_exec) (fun _ _ _ _ _ => rfl) fun _ => Spec.done ?_
  · rintro w a w' hi ha he
    have hkey := Owns.guard_key hi ha
    have hretire := retire_exec hi ha he
    cases he
    exact ⟨hretire.1, hretire.2, hkey⟩
  · rintro w a w' hi ha he
    have hrelease := release_exec hi ha.1 he
    cases he
    exact ⟨hrelease.1, hrelease.2, (congrFun (handOver_handedOver _ _).key _).trans ha.2⟩
  · rintro s - ha hx
    exact ⟨ha.1.mem_arcs, fun id' h => nomatch hx.symm.trans h⟩
  · rintro w a x ha rfl
    exact congrArg Standing.owes ha.2
  · rintro s - - hx id' h
    cases hx.symm.trans h
    rfl
  · rintro s ⟨ha, hx⟩
    exact ⟨ha, by rw [hx]; exact settled_clear⟩

theorem perform_careful (c : Call) :
    Careful t (Rest t held) (c.perform held) fun r => Rest t r.2 := by
  cases c with
  | lock id =>
    refine Spec.bind _ (lock_careful id) fun r => ?_
    match r with
    | some (.ok g) => exact Spec.done fun s h => h
    | some (.error e) => exact Spec.done fun s h => h
    | none => exact Spec.done fun s h => h
  | tryLock id =>
    refine Spec.bind _ (tryLock_careful id) fun r => ?_
    match r with
    | .ok (some g) => exact Spec.done fun s h => h
    | .ok none => exact Spec.done fun s h => h
    | .error e => exact Spec.done fun s h => h
  | isLocked id =>
    exact careful_step (fun _ => Held t held) (fun _ => Standing.Settled) owns_stable
      (fun s _ ha hx => ⟨hx, held, ha⟩) (fun _ _ _ => isLocked_exec)
      (fun _ _ _ _ _ => settled_clear) fun _ => Spec.done fun s h => h
  | drop n =>
    simp only [Call.perform]
    split
    · next g hg =>
      have hdrop : Careful t (Rest t held) (dropGuard g) fun _ => Rest t (held.eraseIdx n) :=
        dropGuard_careful.weaken (fun s h => ⟨held_of_getElem? hg s.world h.1, h.2⟩)
          fun _ _ h => h
      exact Spec.bind _ hdrop fun _ => Spec.done fun s h => h
    · exact Spec.done fun s h => h

theorem dropAll_careful : Careful t (Rest t held) (dropAll held) fun _ => Rest t [] := by
  induction held with
  | nil => exact Spec.done fun s h => h
  | cons g gs ih => exact Spec.bind _ dropGuard_careful fun _ => ih

theorem run_careful (c : Client) (held : List Guard) :
    Careful t (Rest t held) (c.run held) fun _ => Rest t [] := by
  induction c generalizing held with
  | stop => exact dropAll_careful
  | call c k ih => exact Spec.bind _ (perform_careful c) fun r => ih r.1 r.2

/-! ## Entries between the calls -/

/-- A task is between two calls, at its end, or waits for a permit. -/
def AtRest {α : Type} : Prog LockSig α → Prop
  | .done _ => True
  | .step (.entry _) _ | .step (.isLocked _) _ | .step (.retire _) _ | .step (.wake _) _ => True
  | .step _ _ => False

/-- Task `t` waits for the lock of `id`. -/
def Waits (c : Interaction.Config LockSig Heap Unit) (t : Nat) (id : String) : Prop :=
  ∃ sem k, c.pool t = some (.step (.wake sem) k) ∧ c.snap.world.key sem = id

/-- An id has an entry exactly when it has a guard or a waiter. -/
def EntryIff (c : Interaction.Config LockSig Heap Unit) (id : String) : Prop :=
  (∃ sem, c.snap.world.map id = some sem) ↔
    (∃ t g, (t, g) ∈ c.snap.world.guards ∧ g.uploadId = id) ∨ ∃ t, Waits c t id

theorem duty_of_good {c : Interaction.Config LockSig Heap α} {Q : Nat → α → Snap LockSig Heap → Prop}
    {k : LockSig.Ans o → Prog LockSig α} (hi : c.snap.world.Inv)
    (hg : Good unpoisoned dutiful Q c) (hp : c.pool t = some (.step o k))
    (he : unpoisoned.exec t o c.snap.world a w') : Duty t c.snap o := by
  obtain ⟨o', a', w'', -, -, hd, hpush⟩ :=
    (hg t o k hp c.snap (dutiful_lawful.rely_refl t c.snap) hi a w' he).1
  have hhist := congrArg (fun s => s.hist.head?.map Event.op) hpush
  cases Option.some.inj hhist
  exact hd

theorem rest_stable (held : List Guard) (s s' : Snap LockSig Heap) (h : Rest t held s)
    (hr : dutiful.rely t s s') : Rest t held s' :=
  ⟨owns_stable _ _ h.1 hr.1, hr.2 ▸ h.2⟩

section Runs

variable {tasks : Nat → Option Client} {c : Interaction.Config LockSig Heap Unit}

theorem start_careful (t : Nat) (p : Prog LockSig Unit) (hp : (start tasks).pool t = some p) :
    wp unpoisoned dutiful t p (fun _ => Rest t []) (start tasks).snap := by
  obtain ⟨client, -, rfl⟩ := Option.map_eq_some_iff.mp hp
  exact run_careful client [] _ ⟨held_start tasks t, settled_clear⟩

theorem reach_good (hr : Reach unpoisoned (start tasks) c) :
    c.snap.world.Inv ∧ Good unpoisoned dutiful (fun t _ => Rest t []) c :=
  reach_sound dutiful_lawful (inv_start tasks) (good_of_wp start_careful) hr

/-- In every run some task owes a look at every entry that no task refers to. -/
theorem reach_covered (hr : Reach unpoisoned (start tasks) c) (ha : Attended c.snap.hist) :
    Covered c.snap := by
  refine reach_invariant (Q := fun t _ => Rest t []) dutiful_lawful
    (fun s => Attended s.hist → Covered s) (inv_start tasks) (good_of_wp start_careful)
    (fun _ => nofun) ?_ (fun _ _ _ _ h => h.elim) (fun _ _ _ _ _ h => h.elim) hr ha
  intro t s s' hi hc h ha
  have hpast : Attended s.hist := by
    obtain ⟨_, _, _, -, -, -, rfl⟩ := h
    exact ha.1
  exact act_covered hi (hc hpast) h ha

/-- A waiting task has two references. -/
theorem wait_owns (hr : Reach unpoisoned (start tasks) c) {k : Wake → Prog LockSig Unit}
    (hp : c.pool t = some (.step (.wake sem) k)) : (standing c.snap.hist t).Settled ∧
      ∃ held id, Inside t held id sem [sem] [] [sem] c.snap.world :=
  duty_of_good (reach_good hr).1 (reach_good hr).2 hp ⟨.elapsed, nofun⟩

/-- What a task at rest has: its guards, and two references if it waits. -/
theorem rest_owns (hr : Reach unpoisoned (start tasks) c)
    (hrest : ∀ p, c.pool t = some p → AtRest p) :
    (standing c.snap.hist t).Settled ∧ ((∃ held, Held t held c.snap.world) ∨
      ∃ held id sem k, c.pool t = some (.step (.wake sem) k) ∧
        Inside t held id sem [sem] [] [sem] c.snap.world) := by
  obtain ⟨hi, hg⟩ := reach_good hr
  cases hp : c.pool t with
  | none =>
    have hhalt : ∀ t w w', ¬unpoisoned.halt t w w' := fun _ _ _ => id
    have hn := (reach_absent_iff hhalt hr t).mp hp
    have h := (reach_absent dutiful_lawful (rest_stable []) (inv_start tasks)
      (good_of_wp start_careful) hn ⟨held_start tasks t, settled_clear⟩ hr).2
    exact ⟨h.2, .inl ⟨[], h.1⟩⟩
  | some p =>
    have hp' := hrest p hp
    cases p with
    | done r =>
      have h := reach_result (Q := fun t _ => Rest t []) dutiful_lawful (inv_start tasks)
        start_careful (fun _ _ => rest_stable []) hr hp
      exact ⟨h.2, .inl ⟨[], h.1⟩⟩
    | step o k =>
      cases o with
      | entry id =>
        have hd := duty_of_good hi hg hp ⟨.entryPoisoned, nofun⟩
        exact ⟨hd.1, .inl hd.2⟩
      | isLocked id =>
        have hd := duty_of_good hi hg hp ⟨.isLocked, nofun⟩
        exact ⟨hd.1, .inl hd.2⟩
      | retire g =>
        have hd := duty_of_good hi hg hp ⟨.retire, nofun⟩
        exact ⟨hd.1, .inl hd.2⟩
      | wake sem =>
        obtain ⟨hx, held, id, hin⟩ := wait_owns hr hp
        exact ⟨hx, .inr ⟨held, id, sem, k, rfl, hin⟩⟩
      | cloneArc sem => exact hp'.elim
      | dropArc sem => exact hp'.elim
      | tryAcquire sem => exact hp'.elim
      | poll sem => exact hp'.elim
      | abandon sem => exact hp'.elim
      | release sem => exact hp'.elim
      | removeIfIdle id => exact hp'.elim
      | issue g => exact hp'.elim

/-- The task behind a reference has a guard for it. -/
theorem Owns.guard_of_arc {w : Heap} (hi : w.Inv) (h : Owns t held as ps ws w)
    (hs : (t, sem) ∈ w.arcs) (has : sem ∉ as) :
    ∃ g, (t, g) ∈ w.guards ∧ g.uploadId = w.key sem := by
  have hpos : 0 < (held.map Guard.semaphore).count sem := by
    have harcs := h.arcs sem
    rw [List.count_eq_zero.mpr has, Nat.add_zero] at harcs
    rw [← harcs]
    exact List.count_pos_iff.mpr hs
  obtain ⟨g, hg, rfl⟩ := List.mem_map.mp (List.count_pos_iff.mp hpos)
  have hmem : (t, g) ∈ w.guards := by
    rw [← List.count_pos_iff, h.guards g]
    exact List.count_pos_iff.mpr hg
  exact ⟨g, hmem, (hi.guarded t g hmem).symm⟩

/-- A live guard keeps its entry. -/
theorem Heap.Inv.guard_mapped {w : Heap} (hi : w.Inv) (hg : (t, g) ∈ w.guards) :
    w.map g.uploadId = some g.semaphore := by
  have hpos : 0 < (w.guards.map fun y => (y.1, y.2.semaphore)).count (t, g.semaphore) :=
    List.count_pos_iff.mpr (List.mem_map.mpr ⟨(t, g), hg, rfl⟩)
  have hheld := hi.held (t, g.semaphore)
  have hbacked := hi.backed (t, g.semaphore)
  have harc : (t, g.semaphore) ∈ w.arcs := List.count_pos_iff.mp (by omega)
  rw [← hi.guarded t g hg]
  exact hi.mapped t g.semaphore harc

end Runs

/-- In every run, each time all tasks are at rest, an id has an entry exactly when some guard
for it is live or some task waits for it, if no cancelled lock future was the last to let go
of a semaphore. -/
theorem entry_iff (tasks : Nat → Option Client) (c : Interaction.Config LockSig Heap Unit)
    (hr : Reach unpoisoned (start tasks) c) (ha : Attended c.snap.hist)
    (hrest : ∀ t p, c.pool t = some p → AtRest p) (id : String) : EntryIff c id := by
  have hi := (reach_good hr).1
  constructor
  · rintro ⟨sem, hmap⟩
    have hkey : c.snap.world.key sem = id := hi.keyed id sem hmap
    obtain ⟨t, ht⟩ : ∃ t, (t, sem) ∈ c.snap.world.arcs := by
      by_contra hnone
      obtain ⟨u, hu⟩ := reach_covered hr ha id sem hmap fun t ht => hnone ⟨t, ht⟩
      exact (rest_owns hr (hrest u)).1 id hu
    rcases (rest_owns hr (hrest t)).2 with ⟨held, hheld⟩ | ⟨held, id', sem', k, hp, hin⟩
    · obtain ⟨g, hg, hid⟩ := hheld.guard_of_arc hi ht List.not_mem_nil
      exact .inl ⟨t, g, hg, hid.trans hkey⟩
    · by_cases hsem : sem = sem'
      · subst hsem
        exact .inr ⟨t, sem, k, hp, hkey⟩
      · obtain ⟨g, hg, hid⟩ := hin.1.guard_of_arc hi ht (by simp [hsem])
        exact .inl ⟨t, g, hg, hid.trans hkey⟩
  · rintro (⟨t, g, hg, rfl⟩ | ⟨t, sem, k, hp, hkey⟩)
    · exact ⟨g.semaphore, hi.guard_mapped hg⟩
    · obtain ⟨-, held, id', hin⟩ := wait_owns hr hp
      exact ⟨sem, hkey ▸ hi.mapped t sem hin.1.mem_arcs⟩

/-- `n` tasks that lock the upload `a` and then release it. -/
def lockers (n : Nat) (t : Nat) : Option Client :=
  if t < n then some (.call (.lock "a") fun _ => .stop) else none

/-- A task holds the lock of `a`. -/
theorem entry_iff_holder :
    ∃ c, Reach unpoisoned (start (lockers 1)) c ∧
      c.snap.world.guards = [(0, ⟨"a", 7⟩)] ∧ EntryIff c "a" := by
  have h := Reach.run (M := unpoisoned) (c := start (lockers 1)) .refl
    0 (.entry "a") (some 7) rfl ⟨.entryNew rfl ⟨fun _ => nofun, fun _ => nofun⟩, nofun⟩
  have h := h.run 0 (.cloneArc 7) () rfl ⟨.cloneArc, nofun⟩
  have h := h.run 0 (.poll 7) true rfl ⟨.pollReady (by decide), nofun⟩
  have h := h.run 0 (.dropArc 7) () rfl ⟨.dropArc, nofun⟩
  have h := h.run 0 (.issue ⟨"a", 7⟩) () rfl ⟨.issue, nofun⟩
  refine ⟨_, h, rfl, entry_iff _ _ h ?_ ?_ "a"⟩
  · exact ⟨⟨⟨⟨⟨trivial, nofun⟩, nofun⟩, nofun⟩, fun _ _ hw => nomatch hw⟩, nofun⟩
  · intro t p hp
    match t with
    | 0 => cases hp; trivial
    | t + 1 => cases hp

/-- A task waits for the lock of `a` while another releases it, and is then cancelled. -/
theorem cancelled_waiter_run : ∃ c, Reach unpoisoned (start (lockers 2)) c ∧
    c.snap.world.map "a" = some 7 ∧ c.snap.world.guards = [] ∧
    c.pool 0 = some (.done ()) ∧ c.pool 1 = some (.done ()) := by
  have h := Reach.run (M := unpoisoned) (c := start (lockers 2)) .refl
    0 (.entry "a") (some 7) rfl ⟨.entryNew rfl ⟨fun _ => nofun, fun _ => nofun⟩, nofun⟩
  have h := h.run 0 (.cloneArc 7) () rfl ⟨.cloneArc, nofun⟩
  have h := h.run 0 (.poll 7) true rfl ⟨.pollReady (by decide), nofun⟩
  have h := h.run 0 (.dropArc 7) () rfl ⟨.dropArc, nofun⟩
  have h := h.run 0 (.issue ⟨"a", 7⟩) () rfl ⟨.issue, nofun⟩
  have h := h.run 1 (.entry "a") (some 7) rfl ⟨.entryFound rfl, nofun⟩
  have h := h.run 1 (.cloneArc 7) () rfl ⟨.cloneArc, nofun⟩
  have h := h.run 1 (.poll 7) false rfl ⟨.pollPending rfl, nofun⟩
  have h := h.run 0 (.retire ⟨"a", 7⟩) () rfl ⟨.retire, nofun⟩
  have h := h.run 0 (.release 7) () rfl ⟨.release, nofun⟩
  have h := h.run 0 (.dropArc 7) () rfl ⟨.dropArc, nofun⟩
  have h := h.run 0 (.removeIfIdle "a") () rfl ⟨.removeIfIdle, fun _ h => by cases h; rfl⟩
  have h := h.run 1 (.wake 7) .cancelled rfl ⟨.cancelled, nofun⟩
  have h := h.run 1 (.abandon 7) () rfl ⟨.abandon, nofun⟩
  have h := h.run 1 (.dropArc 7) () rfl ⟨.dropArc, nofun⟩
  have h := h.run 1 (.dropArc 7) () rfl ⟨.dropArc, nofun⟩
  exact ⟨_, h, rfl, rfl, rfl, rfl⟩

/-- The entry of `a` stays although nobody refers to it. -/
theorem cancelled_waiter_leaves_entry :
    ∃ c, Reach unpoisoned (start (lockers 2)) c ∧
      (∀ t p, c.pool t = some p → AtRest p) ∧ ¬EntryIff c "a" := by
  obtain ⟨c, hr, hmap, hguards, hzero, hone⟩ := cancelled_waiter_run
  have hpool : ∀ t p, c.pool t = some p → p = .done () := by
    intro t p hp
    match t with
    | 0 => exact Option.some.inj (hp.symm.trans hzero)
    | 1 => exact Option.some.inj (hp.symm.trans hone)
    | t + 2 =>
      have hnone := (reach_absent_iff (fun _ _ _ => id) hr (t + 2)).mpr rfl
      rw [hnone] at hp
      cases hp
  refine ⟨c, hr, fun t p hp => ?_, fun hiff => ?_⟩
  · rw [hpool t p hp]
    trivial
  · rcases hiff.mp ⟨7, hmap⟩ with ⟨t, g, hg, -⟩ | ⟨t, sem, k, hp, -⟩
    · rw [hguards] at hg
      cases hg
    · cases hpool t _ hp

end MemoryLocker

end TusRs
