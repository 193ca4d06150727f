import TusRs.Interaction.Lone

/-!
# Watching one thread of a run

A watch follows the operations of one thread and their answers with a phase of its own, and
says which operation a phase allows. Whether a program keeps to it depends on nothing that
other threads, the machine or the environment do.

* `Watch.Keeps`: the program performs only what the watch allows, whatever the answers are.
* `Watch.Habit`: specifications of programs from an assertion on phases, and their rules.
* `Watch.log`: the watch whose phase is the log of the thread.
* `Watch.reach_kept`: in every run of programs that keep to their watches every operation
  was allowed where it was performed, and every result satisfies its postcondition.
* `Reach.induct`: what every step of a run preserves, with the program that takes it.
* `Reach.grows`: the history of a run only grows.
* `reach_lasted`: a thread may rely on what its last operation left, idle ones apart.
-/

namespace Interaction

variable {S : Sig} {W Φ α β ε : Type}

/-- A watch over the operations of a thread. -/
structure Watch (S : Sig) (Φ : Type) where
  start : Φ
  next : Φ → (o : S.Op) → S.Ans o → Φ
  allows : Φ → S.Op → Prop

namespace Watch

variable {V : Watch S Φ}

/-- The phase after what thread `t` has performed in a history, newest first. -/
def phase (V : Watch S Φ) (t : Nat) : List (Event S W) → Φ
  | [] => V.start
  | e :: es => if e.tid = t then V.next (V.phase t es) e.op e.ans else V.phase t es

theorem phase_own (t : Nat) (o : S.Op) (a : S.Ans o) (w : W) (es : List (Event S W)) :
    V.phase t (⟨t, o, a, w⟩ :: es) = V.next (V.phase t es) o a :=
  if_pos rfl

theorem phase_other {t u : Nat} (h : u ≠ t) (o : S.Op) (a : S.Ans o) (w : W)
    (es : List (Event S W)) : V.phase t (⟨u, o, a, w⟩ :: es) = V.phase t es :=
  if_neg h

/-- The program performs only what the watch allows and ends in `Q`. -/
def Keeps (V : Watch S Φ) : Prog S α → (α → Φ → Prop) → Φ → Prop
  | .done a, Q, φ => Q a φ
  | .step o k, Q, φ => V.allows φ o ∧ ∀ a, Keeps V (k a) Q (V.next φ o a)

theorem Keeps.mono {p : Prog S α} {Q Q' : α → Φ → Prop} {φ : Φ} (h : V.Keeps p Q φ)
    (hQ : ∀ a φ, Q a φ → Q' a φ) : V.Keeps p Q' φ := by
  induction p generalizing φ with
  | done a => exact hQ a φ h
  | step o k ih => exact ⟨h.1, fun a => ih a (h.2 a)⟩

theorem Keeps.bind {p : Prog S α} {f : α → Prog S β} {P : α → Φ → Prop} {Q : β → Φ → Prop} {φ : Φ}
    (hp : V.Keeps p P φ) (hf : ∀ a φ, P a φ → V.Keeps (f a) Q φ) : V.Keeps (p.bind f) Q φ := by
  induction p generalizing φ with
  | done a => exact hf a φ hp
  | step o k ih => exact ⟨hp.1, fun a => ih a (hp.2 a)⟩

/-- From a phase in `P` the program keeps to the watch and ends in `Q`. -/
def Habit (V : Watch S Φ) (P : Φ → Prop) (p : Prog S α) (Q : α → Φ → Prop) : Prop :=
  ∀ φ, P φ → V.Keeps p Q φ

namespace Habit

variable {P : Φ → Prop} {Q : α → Φ → Prop}

theorem done {a : α} (h : ∀ φ, P φ → Q a φ) : V.Habit P (.done a) Q :=
  h

/-- One operation; `P'` is what it leaves for each answer. -/
theorem step {o : S.Op} {k : S.Ans o → Prog S α} (P' : S.Ans o → Φ → Prop)
    (hallow : ∀ φ, P φ → V.allows φ o) (hnext : ∀ φ a, P φ → P' a (V.next φ o a))
    (hk : ∀ a, V.Habit (P' a) (k a) Q) : V.Habit P (.step o k) Q :=
  fun φ hφ => ⟨hallow φ hφ, fun a => hk a _ (hnext φ a hφ)⟩

theorem bind {p : Prog S α} {f : α → Prog S β} {Q : β → Φ → Prop} (P' : α → Φ → Prop)
    (hp : V.Habit P p P') (hf : ∀ a, V.Habit (P' a) (f a) Q) : V.Habit P (p.bind f) Q :=
  fun φ hφ => (hp φ hφ).bind fun a φ h => hf a φ h

/-- The rest of an attempt runs only after a value; an error is its result. -/
theorem andThen {p : Attempt S ε α} {f : α → Attempt S ε β} {Q : Except ε β → Φ → Prop}
    (P' : Except ε α → Φ → Prop) (hp : V.Habit P p P') (hf : ∀ a, V.Habit (P' (.ok a)) (f a) Q)
    (he : ∀ e φ, P' (.error e) φ → Q (.error e) φ) :
    V.Habit P (p >>= f : Attempt S ε β) Q := by
  refine bind P' hp fun r => ?_
  cases r with
  | ok a => exact hf a
  | error e => exact done (he e)

theorem ite {p q : Prog S α} {c : Prop} [Decidable c] (hp : c → V.Habit P p Q)
    (hq : ¬c → V.Habit P q Q) : V.Habit P (if c then p else q) Q := by
  split
  · exact hp ‹c›
  · exact hq ‹¬c›

theorem weaken {P' : Φ → Prop} {Q' : α → Φ → Prop} {p : Prog S α} (h : V.Habit P p Q)
    (hP : ∀ φ, P' φ → P φ) (hQ : ∀ a φ, Q a φ → Q' a φ) : V.Habit P' p Q' :=
  fun φ hφ => (h φ (hP φ hφ)).mono hQ

/-- Operations that are always allowed and never change what holds of the phase. -/
theorem idle {A : S.Op → Prop} (hallow : ∀ φ o, A o → P φ → V.allows φ o)
    (hnext : ∀ φ o a, A o → P φ → P (V.next φ o a)) {p : Prog S α} (hp : p.Ops A) :
    V.Habit P p fun _ => P := by
  induction p with
  | done a => exact done fun _ h => h
  | step o k ih =>
    exact step (fun _ => P) (fun φ => hallow φ o hp.1) (fun φ a => hnext φ o a hp.1)
      fun a => ih a (hp.2 a)

/-- What holds of a result whatever the answers are. -/
theorem yields {p : Prog S α} {A : α → Prop} (h : V.Habit P p Q) (hA : p.Yields A) :
    V.Habit P p fun a φ => Q a φ ∧ A a := by
  suffices hkeeps : ∀ φ, V.Keeps p Q φ → V.Keeps p (fun a φ => Q a φ ∧ A a) φ from
    fun φ hφ => hkeeps φ (h φ hφ)
  clear h
  induction p with
  | done a => exact fun φ hφ => ⟨hφ, hA⟩
  | step o k ih => exact fun φ hφ => ⟨hφ.1, fun a => ih a (hA a) _ (hφ.2 a)⟩

end Habit

end Watch

/-! ## Logs -/

/-- An operation with its answer. -/
structure Call (S : Sig) where
  op : S.Op
  ans : S.Ans op

/-- The watch whose phase is everything the thread has performed, newest first. -/
def Watch.log (allows : List (Call S) → S.Op → Prop) : Watch S (List (Call S)) where
  start := []
  next φ o a := ⟨o, a⟩ :: φ
  allows := allows

/-- What is allowed may be allowed by less. -/
theorem Watch.Keeps.log_mono {A B : List (Call S) → S.Op → Prop} (hAB : ∀ φ o, A φ o → B φ o)
    {p : Prog S α} {Q : α → List (Call S) → Prop} {φ : List (Call S)}
    (h : (Watch.log A).Keeps p Q φ) : (Watch.log B).Keeps p Q φ := by
  induction p generalizing φ with
  | done a => exact h
  | step o k ih => exact ⟨hAB φ o h.1, fun a => ih a (h.2 a)⟩

/-- What thread `t` has performed in a history, newest first. -/
def calls (t : Nat) : List (Event S W) → List (Call S)
  | [] => []
  | e :: es => if e.tid = t then ⟨e.op, e.ans⟩ :: calls t es else calls t es

theorem phase_log {allows : List (Call S) → S.Op → Prop} (t : Nat) (hist : List (Event S W)) :
    (Watch.log allows).phase t hist = calls t hist := by
  induction hist with
  | nil => rfl
  | cons e es ih =>
    rw [Watch.phase, calls, ih]
    rfl

theorem calls_own (t : Nat) (o : S.Op) (a : S.Ans o) (w : W) (es : List (Event S W)) :
    calls t (⟨t, o, a, w⟩ :: es) = ⟨o, a⟩ :: calls t es :=
  if_pos rfl

theorem calls_other {t u : Nat} (h : u ≠ t) (o : S.Op) (a : S.Ans o) (w : W)
    (es : List (Event S W)) : calls t (⟨u, o, a, w⟩ :: es) = calls t es :=
  if_neg h

/-- A call of a thread is an event of the history, and what the thread had performed before it
is what precedes it there. -/
theorem calls_split {t : Nat} {hist : List (Event S W)} {recent earlier : List (Call S)}
    {call : Call S} (h : calls t hist = recent ++ call :: earlier) :
    ∃ e before, e :: before <:+ hist ∧ e.tid = t ∧ ⟨e.op, e.ans⟩ = call ∧
      calls t before = earlier := by
  induction hist generalizing recent with
  | nil => cases recent <;> cases h
  | cons e es ih =>
    have hlater : ∀ recent, calls t es = recent ++ call :: earlier →
        ∃ e' before, e' :: before <:+ e :: es ∧ e'.tid = t ∧ ⟨e'.op, e'.ans⟩ = call ∧
          calls t before = earlier := by
      intro recent hes
      obtain ⟨e', before, hsuffix, hrest⟩ := ih hes
      exact ⟨e', before, hsuffix.trans (List.suffix_cons e es), hrest⟩
    by_cases ht : e.tid = t
    · rw [calls, if_pos ht] at h
      cases recent with
      | nil =>
        obtain ⟨hcall, hearlier⟩ := List.cons.inj h
        exact ⟨e, es, List.suffix_refl _, ht, hcall, hearlier⟩
      | cons c recent => exact hlater recent (List.cons.inj h).2
    · rw [calls, if_neg ht] at h
      exact hlater recent h

theorem calls_mem {t : Nat} {hist : List (Event S W)} {call : Call S} (h : call ∈ calls t hist) :
    ∃ e before, e :: before <:+ hist ∧ e.tid = t ∧ ⟨e.op, e.ans⟩ = call ∧
      ∃ recent, calls t hist = recent ++ call :: calls t before := by
  obtain ⟨recent, earlier, hsplit⟩ := List.append_of_mem h
  obtain ⟨e, before, hsuffix, ht, hcall, rfl⟩ := calls_split hsplit
  exact ⟨e, before, hsuffix, ht, hcall, recent, hsplit⟩

/-- What every step preserves holds in every reachable configuration; a step is taken by a
program of the pool. -/
theorem Reach.induct {M : Machine S W} {c c' : Config S W α} (J : Config S W α → Prop)
    (hJ : J c)
    (hrun : ∀ (d : Config S W α) t o (k : S.Ans o → Prog S α) a w', Reach M c d → J d →
      d.pool t = some (.step o k) → M.exec t o d.snap.world a w' →
      J ⟨d.snap.push t o a w', Function.update d.pool t (some (k a))⟩)
    (henv : ∀ (d : Config S W α) w', Reach M c d → J d → M.env d.snap.world w' →
      J ⟨d.snap.drift w', d.pool⟩)
    (hhalt : ∀ (d : Config S W α) t p w', Reach M c d → J d → d.pool t = some p →
      M.halt t d.snap.world w' → J ⟨d.snap.drift w', Function.update d.pool t none⟩)
    (hr : Reach M c c') : J c' := by
  induction hr with
  | refl => exact hJ
  | @tail d d' hr hs ih =>
    cases hs with
    | run hp he => exact hrun d _ _ _ _ _ hr ih hp he
    | env he => exact henv d _ hr ih he
    | halt hp he => exact hhalt d _ _ _ hr ih hp he

/-- Every event of a history was performed by a thread of a configuration of the run. -/
theorem Reach.event {M : Machine S W} {c c' : Config S W α} (hempty : c.snap.hist = [])
    (hr : Reach M c c') {e : Event S W} {earlier : List (Event S W)}
    (he : e :: earlier <:+ c'.snap.hist) :
    ∃ (d : Config S W α) (k : S.Ans e.op → Prog S α) (w' : W), Reach M c d ∧
      d.snap = ⟨e.before, earlier⟩ ∧ d.pool e.tid = some (.step e.op k) ∧
      M.exec e.tid e.op e.before e.ans w' := by
  refine Reach.induct (fun d' => e :: earlier <:+ d'.snap.hist → ∃ (d : Config S W α)
    (k : S.Ans e.op → Prog S α) (w' : W), Reach M c d ∧ d.snap = ⟨e.before, earlier⟩ ∧
      d.pool e.tid = some (.step e.op k) ∧ M.exec e.tid e.op e.before e.ans w')
    (fun h => ?_) ?_ (fun _ _ _ hd _ => hd) (fun _ _ _ _ _ hd _ _ => hd) hr he
  · rw [hempty] at h
    cases List.suffix_nil.mp h
  · intro d t o k a w' hr hd hp hx h
    rw [Snap.push_hist, List.suffix_cons_iff] at h
    rcases h with heq | h
    · cases heq
      exact ⟨d, k, w', hr, rfl, hp, hx⟩
    · exact hd h

/-- The history of a run only grows. -/
theorem Reach.grows {M : Machine S W} {c c' : Config S W α} (hr : Reach M c c') :
    Without (fun _ => False) c.snap c'.snap := by
  refine Reach.induct (fun d => Without (fun _ => False) c.snap d.snap) (.refl _) ?_
    (fun _ _ _ hd _ => hd) (fun _ _ _ _ _ hd _ _ => hd) hr
  exact fun d t o k a w' _ hd _ _ => hd.trans (.push (t := t) (fun h => h))

namespace Watch

/-- Every thread that is still there keeps to its watch. -/
def Kept (V : Nat → Watch S Φ) (Q : Nat → α → Φ → Prop) (c : Config S W α) : Prop :=
  ∀ t p, c.pool t = some p → (V t).Keeps p (Q t) ((V t).phase t c.snap.hist)

theorem reach_kept {M : Machine S W} {V : Nat → Watch S Φ} {Q : Nat → α → Φ → Prop}
    {c c' : Config S W α} (h : Kept V Q c) (hr : Reach M c c') : Kept V Q c' := by
  refine Reach.induct (Kept V Q) h ?_ (fun _ _ _ hd _ => hd) ?_ hr
  · intro d t o k a w' _ hd hp _ u q hq
    by_cases htu : t = u
    · subst htu
      obtain rfl := Option.some.inj ((Function.update_self t (some (k a)) d.pool).symm.trans hq)
      simp only [Snap.push_hist, phase_own]
      exact (hd t _ hp).2 a
    · simp only [Snap.push_hist, phase_other htu]
      exact hd u q ((Function.update_of_ne (Ne.symm htu) (some (k a)) d.pool).symm.trans hq)
  · intro d t p w' _ hd _ _ u q hq
    by_cases htu : t = u
    · subst htu
      cases (Function.update_self t none d.pool).symm.trans hq
    · exact hd u q ((Function.update_of_ne (Ne.symm htu) none d.pool).symm.trans hq)

/-- The operation a thread performs is one its watch allows. -/
theorem Kept.allows {V : Nat → Watch S Φ} {Q : Nat → α → Φ → Prop} {c : Config S W α} {t : Nat}
    {o : S.Op} {k : S.Ans o → Prog S α} (h : Kept V Q c) (hp : c.pool t = some (.step o k)) :
    (V t).allows ((V t).phase t c.snap.hist) o :=
  (h t _ hp).1

theorem Kept.result {V : Nat → Watch S Φ} {Q : Nat → α → Φ → Prop} {c : Config S W α} {t : Nat}
    {a : α} (h : Kept V Q c) (hp : c.pool t = some (.done a)) :
    Q t a ((V t).phase t c.snap.hist) :=
  h t _ hp

/-- Every operation of a history was allowed where it was performed. -/
def Allowed (V : Nat → Watch S Φ) (hist : List (Event S W)) : Prop :=
  ∀ e earlier, e :: earlier <:+ hist → (V e.tid).allows ((V e.tid).phase e.tid earlier) e.op

theorem reach_allowed {M : Machine S W} {V : Nat → Watch S Φ} {Q : Nat → α → Φ → Prop}
    {c c' : Config S W α} (h : Kept V Q c) (hc : Allowed V c.snap.hist) (hr : Reach M c c') :
    Allowed V c'.snap.hist := by
  refine Reach.induct (fun d => Allowed V d.snap.hist) hc ?_ (fun _ _ _ hd _ => hd)
    (fun _ _ _ _ _ hd _ _ => hd) hr
  intro d t o k a w' hr hd hp _ e earlier hsuffix
  rw [Snap.push_hist, List.suffix_cons_iff] at hsuffix
  rcases hsuffix with heq | hsuffix
  · obtain ⟨rfl, rfl⟩ := List.cons.inj heq
    exact (reach_kept h hr).allows hp
  · exact hd e earlier hsuffix

end Watch

section Guarded

variable {M : Machine S W} {I : Snap S W → Prop} {R : Nat → W → W → Prop}
  {G : Nat → (o : S.Op) → Snap S W → Prop} {Q : Nat → α → Snap S W → Prop}

/-- The operation leaves the world as it is, whatever it answers. -/
def Idles (M : Machine S W) (o : S.Op) : Prop :=
  ∀ t w a w', M.exec t o w a w' → w' = w

/-- A thread performed an operation under its guard, and may still rely on what it left. -/
structure Lasted (M : Machine S W) (I : Snap S W → Prop) (R : Nat → W → W → Prop)
    (G : Nat → (o : S.Op) → Snap S W → Prop) (t : Nat) (o : S.Op) (a : S.Ans o)
    (earlier : List (Call S)) (s before : Snap S W) (after : W) : Prop where
  inv : I before
  guard : G t o before
  exec : M.exec t o before.world a after
  hist : ⟨t, o, a, before.world⟩ :: before.hist <:+ s.hist
  earlier : calls t before.hist = earlier
  rely : R t after s.world

/-- Since an operation after which a thread has performed only idle ones, only others have
changed the world, and only as the thread may rely on. -/
theorem reach_lasted (hM : ∀ t w w', ¬M.halt t w w') (refl : ∀ t w, R t w w)
    (trans : ∀ t w₁ w₂ w₃, R t w₁ w₂ → R t w₂ w₃ → R t w₁ w₃)
    (hl : (Discipline.guarded M I R G).Lawful M) {c c' : Config S W α} (hi : I c.snap)
    (hg : Good M (.guarded M I R G) Q c) (hempty : c.snap.hist = []) (hr : Reach M c c')
    {t : Nat} {o : S.Op} {a : S.Ans o} {recent earlier : List (Call S)}
    (hidle : ∀ call ∈ recent, Idles M call.op)
    (hcalls : calls t c'.snap.hist = recent ++ ⟨o, a⟩ :: earlier) :
    ∃ before after, Lasted M I R G t o a earlier c'.snap before after := by
  refine Reach.induct (fun d => ∀ recent, (∀ call ∈ recent, Idles M call.op) →
    calls t d.snap.hist = recent ++ ⟨o, a⟩ :: earlier →
    ∃ before after, Lasted M I R G t o a earlier d.snap before after) ?_ ?_ ?_ ?_ hr recent hidle hcalls
  · intro recent _ h
    rw [hempty] at h
    cases recent <;> cases h
  · intro d u o' k a' w' hd ih hp he recent hidle h
    obtain ⟨hi', hg'⟩ := reach_sound hl hi hg hd
    have hact := (hg' u o' k hp d.snap (hl.rely_refl u d.snap) hi' a' w' he).1
    by_cases hut : u = t
    · subst hut
      rw [Snap.push_hist, calls_own] at h
      cases recent with
      | nil =>
        obtain ⟨hcall, hearlier⟩ := List.cons.inj h
        cases hcall
        obtain ⟨o₁, a₁, w₁, _, hguard, heq⟩ := hact
        cases congrArg Snap.hist heq
        exact ⟨d.snap, w', hi', hguard, he, List.suffix_refl _, hearlier, refl u w'⟩
      | cons call recent =>
        -- an idle operation of the thread itself
        obtain ⟨hcall, hrest⟩ := List.cons.inj h
        obtain ⟨hfirst, hidle⟩ := List.forall_mem_cons.mp hidle
        obtain ⟨before, after, hlast⟩ := ih recent hidle hrest
        subst hcall
        rw [hfirst u d.snap.world a' w' he]
        exact ⟨before, after, hlast.inv, hlast.guard, hlast.exec,
          hlast.hist.trans (List.suffix_cons _ _), hlast.earlier, hlast.rely⟩
    · rw [Snap.push_hist, calls_other hut] at h
      obtain ⟨before, after, hlast⟩ := ih recent hidle h
      refine ⟨before, after, hlast.inv, hlast.guard, hlast.exec,
        hlast.hist.trans (List.suffix_cons _ _), hlast.earlier, ?_⟩
      exact trans t _ _ _ hlast.rely (hl.act_rely u t _ _ hi' hact (Ne.symm hut)).1
  · intro d w' hd ih he recent hidle h
    obtain ⟨before, after, hlast⟩ := ih recent hidle h
    refine ⟨before, after, hlast.inv, hlast.guard, hlast.exec, hlast.hist, hlast.earlier, ?_⟩
    exact trans t _ _ _ hlast.rely (hl.env_rely t _ _ (reach_sound hl hi hg hd).1 he).1
  · intro d u p w' _ _ _ he
    exact absurd he (hM u _ w')

end Guarded

end Interaction
