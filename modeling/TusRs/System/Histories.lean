import TusRs.System.Requests

/-!
# Histories of the server

What holds of every history of the server because every request performs only what it has
earned.

Results:

* `history_earned`: every operation of every run was earned where it was performed.
* `lock_holder_runs`: whoever holds a lock has an operation left that waits for no lock.
-/

namespace TusRs

open Interaction

open Protocol

namespace System

open Requests

variable {hooks : HookEvent → UploadState → Except Error PreHookResult → Prop}
  {config : Config} {digests : Digests} {texts : Texts} {requests : Nat → Option Request}
  {w : World} {t : Nat} {id : String} {c : Interaction.Config (Host ObjectSig) World Answer}

/-! ## The past of a configuration -/

/-- An event of a run, and the worlds before and after it. -/
structure Past (hooks : HookEvent → UploadState → Except Error PreHookResult → Prop)
    (e : Event (Host ObjectSig) World) (after now : World) : Prop where
  wellFormed : WellFormed e.before
  exec : HostExec hooks e.tid e.op e.before e.ans after
  later : Later e.before after
  now : Later after now

theorem reach_past (hw : WellFormed w)
    (hr : Reach (host hooks) (start ⟨config, digests, contract⟩ texts requests w) c) :
    ∀ e ∈ c.snap.hist, ∃ after, Past hooks e after c.snap.world := by
  refine Reach.induct (fun d => ∀ e ∈ d.snap.hist, ∃ after, Past hooks e after d.snap.world)
    (List.forall_mem_nil _) ?_ ?_ ?_ hr
  · intro d t o k a w' hd ih hp he
    have hdue := due hw hd hp he
    have hlater := (exec_sound hdue.wellFormed he hdue.guard).2.1
    refine List.forall_mem_cons.mpr ⟨⟨w', hdue.wellFormed, he, hlater, .refl w'⟩, fun e hmem => ?_⟩
    obtain ⟨after, hpast⟩ := ih e hmem
    exact ⟨after, hpast.wellFormed, hpast.exec, hpast.later, hpast.now.trans hlater⟩
  · rintro d _ _ ih ⟨n, hn, rfl⟩ e hmem
    obtain ⟨after, hpast⟩ := ih e hmem
    exact ⟨after, hpast.wellFormed, hpast.exec, hpast.later, hpast.now.trans (later_setClock hn)⟩
  · rintro d u p w' _ _ _ hf
    exact hf.elim

/-! ## What requests have earned -/

/-- The watch over the thread that serves a request. -/
def watching (requests : Nat → Option Request) (t : Nat) : Watch (Host ObjectSig) Log :=
  Watch.log fun φ o => ∃ request, requests t = some request ∧ Earned request φ o

/-- What a thread has performed when it is done. -/
def Concluded (requests : Nat → Option Request) (t : Nat) (answer : Answer) (φ : Log) : Prop :=
  ∃ request, requests t = some request ∧ Concludes request answer φ

theorem kept_start : Watch.Kept (watching requests) (Concluded requests)
    (start ⟨config, digests, contract⟩ texts requests w) := by
  intro t p hp
  obtain ⟨request, hreq, rfl⟩ := Option.map_eq_some_iff.mp hp
  have hkeeps : (Watch.log (Earned request)).Keeps (serve ⟨config, digests, contract⟩ texts request)
      (Concludes request) [] := serve_keeps request [] ⟨trivial, rfl, fun _ => List.not_mem_nil⟩
  exact (hkeeps.mono fun a φ h => ⟨request, hreq, h⟩).log_mono fun φ o h => ⟨request, hreq, h⟩

theorem reach_kept_start
    (hr : Reach (host hooks) (start ⟨config, digests, contract⟩ texts requests w) c) :
    Watch.Kept (watching requests) (Concluded requests) c :=
  Watch.reach_kept kept_start hr

/-- Every operation of every history was earned by what its request had performed before. -/
theorem reach_earned
    (hr : Reach (host hooks) (start ⟨config, digests, contract⟩ texts requests w) c)
    {e : Event (Host ObjectSig) World} {earlier : List (Event (Host ObjectSig) World)}
    (he : e :: earlier <:+ c.snap.hist) :
    ∃ request, requests e.tid = some request ∧ Earned request (calls e.tid earlier) e.op := by
  have hallowed : Watch.Allowed (watching requests) c.snap.hist :=
    Watch.reach_allowed kept_start (fun _ _ h => absurd h.length_le (Nat.not_succ_le_zero _)) hr
  obtain ⟨request, hreq, hearned⟩ := hallowed e earlier he
  rw [watching, phase_log] at hearned
  exact ⟨request, hreq, hearned⟩

/-- In every history, hooks precede the effects they gate, announcements follow the effects
they report, locks are awaited with empty hands, and records of final uploads follow what
they describe. -/
theorem history_earned
    (hr : Reach (host hooks) (start ⟨config, digests, contract⟩ texts requests w) c) :
    ∀ e earlier, e :: earlier <:+ c.snap.hist →
      ∃ request, requests e.tid = some request ∧ Earned request (calls e.tid earlier) e.op :=
  fun _ _ he => reach_earned hr he

theorem history_earned_patch : ∃ c' : Interaction.Config (Host ObjectSig) World Answer,
    Reach (host accepting) (start bounding noTexts patching deferredWorld) c' ∧
    ∀ e earlier, e :: earlier <:+ c'.snap.hist →
      ∃ request, patching e.tid = some request ∧ Earned request (calls e.tid earlier) e.op := by
  obtain ⟨s', hrun, _⟩ := patched_run
  have hreach : Reach (host accepting) (start bounding noTexts patching deferredWorld) _ :=
    hrun.reach_pool rfl
  exact ⟨_, hreach, history_earned hreach⟩

/-! ## Locks -/

/-- What one operation does to the locks and to what its request holds. -/
inductive LockStep (t : Nat) (call : Call (Host ObjectSig)) (w w' : World) : Prop
  | same : w'.locks = w.locks → (∀ ids, holdAfter ids call = ids) → LockStep t call w w'
  | taken (id : String) : w.locks id = none → w'.locks = Function.update w.locks id (some t) →
      (∀ ids, holdAfter ids call = id :: ids) → LockStep t call w w'
  | released (id : String) : call.op = .unlock id → w'.locks = Function.update w.locks id none →
      (∀ ids, holdAfter ids call = ids.erase id) → LockStep t call w w'

theorem lockStep {o : HostOp ObjectSig} {a : (Host ObjectSig).Ans o} {w' : World}
    (he : HostExec hooks t o w a w') : LockStep t ⟨o, a⟩ w w' := by
  cases he with
  | @lock _ id _ hl => exact .taken id hl rfl fun _ => rfl
  | @tryLock _ id _ hl => exact .taken id hl rfl fun _ => rfl
  | @unlock _ id => exact .released id rfl rfl fun _ => rfl
  | _ => exact .same rfl fun _ => rfl

/-- The locks are those that the requests hold. -/
structure LocksHeld (s : Snap (Host ObjectSig) World) : Prop where
  iff : ∀ t id, s.world.locks id = some t ↔ id ∈ held (calls t s.hist)
  nodup : ∀ t, (held (calls t s.hist)).Nodup

theorem LocksHeld.step {s : Snap (Host ObjectSig) World} (h : LocksHeld s)
    {o : (Host ObjectSig).Op} {a : (Host ObjectSig).Ans o} {w' : World}
    (he : HostExec hooks t o s.world a w')
    (hunlock : ∀ id, o = HostOp.unlock id → id ∈ held (calls t s.hist)) :
    LocksHeld (s.push t o a w') := by
  have hother : ∀ u, u ≠ t → held (calls u (s.push t o a w').hist) = held (calls u s.hist) :=
    fun u hu => congrArg held (calls_other (Ne.symm hu) o a s.world s.hist)
  have hown : held (calls t (s.push t o a w').hist) = holdAfter (held (calls t s.hist)) ⟨o, a⟩ :=
    congrArg held (calls_own t o a s.world s.hist)
  cases lockStep he with
  | same hlocks hsame =>
    rw [hsame] at hown
    have hall : ∀ u, held (calls u (s.push t o a w').hist) = held (calls u s.hist) := by
      intro u
      by_cases hu : u = t
      · rw [hu, hown]
      · exact hother u hu
    refine ⟨fun u id => ?_, fun u => ?_⟩
    · rw [hall, Snap.push_world, hlocks]
      exact h.iff u id
    · rw [hall]
      exact h.nodup u
  | taken id hfree hlocks hcons =>
    rw [hcons] at hown
    have hnew : ∀ u, id ∉ held (calls u s.hist) := fun u hu =>
      nomatch hfree.symm.trans ((h.iff u id).mpr hu)
    refine ⟨fun u id' => ?_, fun u => ?_⟩
    · rw [Snap.push_world, hlocks]
      by_cases hid : id' = id
      · subst hid
        rw [Function.update_self]
        by_cases hu : u = t
        · subst hu
          rw [hown]
          exact iff_of_true rfl (List.mem_cons_self ..)
        · rw [hother u hu]
          exact iff_of_false (fun heq => hu (Option.some.inj heq).symm) (hnew u)
      · rw [Function.update_of_ne hid, h.iff u id']
        by_cases hu : u = t
        · subst hu
          rw [hown, List.mem_cons, or_iff_right hid]
        · rw [hother u hu]
    · by_cases hu : u = t
      · subst hu
        rw [hown]
        exact List.nodup_cons.mpr ⟨hnew u, h.nodup u⟩
      · rw [hother u hu]
        exact h.nodup u
  | released id hop hlocks herase =>
    rw [herase] at hown
    have hmine := (h.iff t id).mpr (hunlock id hop)
    refine ⟨fun u id' => ?_, fun u => ?_⟩
    · rw [Snap.push_world, hlocks]
      by_cases hid : id' = id
      · subst hid
        rw [Function.update_self]
        refine iff_of_false nofun ?_
        by_cases hu : u = t
        · subst hu
          rw [hown]
          exact fun hmem => ((h.nodup u).mem_erase_iff.mp hmem).1 rfl
        · rw [hother u hu, ← h.iff u id', hmine]
          exact fun heq => hu (Option.some.inj heq).symm
      · rw [Function.update_of_ne hid, h.iff u id']
        by_cases hu : u = t
        · subst hu
          rw [hown, List.mem_erase_of_ne hid]
        · rw [hother u hu]
    · by_cases hu : u = t
      · subst hu
        rw [hown]
        exact (h.nodup u).erase _
      · rw [hother u hu]
        exact h.nodup u

/-- The locks of every run that starts without any are held by their requests. -/
theorem reach_locksHeld (hfree : ∀ id, w.locks id = none)
    (hr : Reach (host hooks) (start ⟨config, digests, contract⟩ texts requests w) c) :
    LocksHeld c.snap := by
  refine Reach.induct (fun d => LocksHeld d.snap) ?_ ?_ ?_ ?_ hr
  · exact ⟨fun t id => iff_of_false (fun h => nomatch (hfree id).symm.trans h) List.not_mem_nil,
      fun _ => List.nodup_nil⟩
  · intro d u o k a w' hd hheld hp he
    refine hheld.step he fun id ho => ?_
    obtain ⟨request, _, hearned⟩ := (reach_kept_start hd).allows hp
    rw [watching, phase_log, ho] at hearned
    exact hearned
  · rintro d _ _ hheld ⟨n, _, rfl⟩
    exact ⟨hheld.iff, hheld.nodup⟩
  · rintro d u p w' _ _ _ hf
    exact hf.elim

/-- In every run, whoever holds a lock is a request that has not answered, and what it is
about to do is not to wait for a lock: no lock is leaked, and no two requests wait for each
other. -/
theorem lock_holder_runs (hfree : ∀ id, w.locks id = none)
    (hr : Reach (host hooks) (start ⟨config, digests, contract⟩ texts requests w) c)
    (hlock : c.snap.world.locks id = some t) :
    ∃ o k, c.pool t = some (.step o k) ∧ ∀ id', o ≠ .lock id' := by
  have hheld := ((reach_locksHeld hfree hr).iff t id).mp hlock
  have hnonempty : held (calls t c.snap.hist) ≠ [] := List.ne_nil_of_mem hheld
  have hkept := reach_kept_start hr
  cases hp : c.pool t with
  | none =>
    -- a thread without a program has performed nothing
    have hnone : requests t = none := Option.map_eq_none_iff.mp
      ((reach_absent_iff (fun _ _ _ hf => hf) hr t).mp hp)
    cases hcalls : calls t c.snap.hist with
    | nil => exact absurd (by rw [hcalls]; rfl) hnonempty
    | cons call earlier =>
      obtain ⟨e, before, hsuffix, ht, _, _⟩ := calls_split (hcalls.trans (List.nil_append _).symm)
      obtain ⟨request, hreq, _⟩ := reach_earned hr hsuffix
      rw [ht, hnone] at hreq
      cases hreq
  | some p =>
    cases p with
    | done answer =>
      obtain ⟨request, _, hconcludes⟩ := hkept.result hp
      rw [watching, phase_log] at hconcludes
      exact absurd hconcludes.free hnonempty
    | step o k =>
      refine ⟨o, k, rfl, fun id' ho => hnonempty ?_⟩
      obtain ⟨request, _, hearned⟩ := hkept.allows hp
      rw [watching, phase_log, ho] at hearned
      exact hearned

/-- A HEAD that holds the lock of its upload. -/
theorem lock_holder_runs_head : ∃ (d : Interaction.Config (Host ObjectSig) World Answer) (t : Nat),
    Reach (host accepting) (start bounding noTexts inspecting joinedWorld) d ∧
    d.snap.world.locks "f" = some t ∧ ∃ o k, d.pool t = some (.step o k) ∧ ∀ id', o ≠ .lock id' := by
  have h₀ : Reach (host accepting) (start bounding noTexts inspecting joinedWorld) _ := .refl
  have h₁ := h₀.run 0 (.stateGet "f") (.ok (some joinedFinal)) rfl (.stateGet rfl)
  have h₂ := h₁.run 0 (.lock "f") (.ok ()) rfl (.lock rfl rfl)
  have hlock : (joinedWorld.lockBy "f" 0).locks "f" = some 0 := rfl
  exact ⟨_, 0, h₂, hlock, lock_holder_runs (fun _ => rfl) h₂ hlock⟩

end System

end TusRs
