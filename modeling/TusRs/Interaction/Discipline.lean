import Mathlib.Data.List.Infix
import Mathlib.Logic.Relation
import TusRs.Interaction.Prog

/-!
# Interleaved runs and the discipline threads keep

A machine says what each operation may answer and how it changes the world. A pool of
threads runs on it: at each step one thread performs its next operation, or the
environment moves, or a thread is halted where it stands.

A discipline states what every thread may do to the shared snapshot (`act`) and what a
thread may rely on while others run (`rely`). `wp` is the weakest condition under which
a program keeps to `act` at each of its operations, whatever others do in between, and
ends in `Q`.

* `wp_bind`, `wp_mono`: how specifications compose.
* `reach_sound`: a pool whose programs satisfy `wp` keeps the discipline in every run.
* `reach_invariant`: what every `act` preserves holds in every reachable snapshot.
* `finish_sound`: a thread that finishes does so in its postcondition.
* `Spec`: specifications of programs from an assertion on snapshots, and their rules.
* `reach_guarded`: the rule for threads that perform operations only under a guard.
* `Triple.reach`: the same for disciplines and assertions on the world alone.
* `reach_result`: a stable result holds ever after.
* `Triple.exec`: the same for one thread that runs alone and may stop anywhere.
-/

namespace Interaction

variable {S : Sig} {W α β : Type}

/-- What the operations do: `exec t o w a w'` when thread `t` may perform `o` in `w`,
get the answer `a` and leave `w'`. `env` moves the world between operations, `halt`
is what the world makes of a thread that disappears. -/
structure Machine (S : Sig) (W : Type) where
  exec : Nat → (o : S.Op) → W → S.Ans o → W → Prop
  env : W → W → Prop
  halt : Nat → W → W → Prop

/-- One performed operation, with the world it found. -/
structure Event (S : Sig) (W : Type) where
  tid : Nat
  op : S.Op
  ans : S.Ans op
  before : W

/-- The world and everything performed so far, newest first. -/
structure Snap (S : Sig) (W : Type) where
  world : W
  hist : List (Event S W)

namespace Snap

def push (s : Snap S W) (t : Nat) (o : S.Op) (a : S.Ans o) (w' : W) : Snap S W :=
  ⟨w', ⟨t, o, a, s.world⟩ :: s.hist⟩

/-- The world moved without an operation of a thread. -/
def drift (s : Snap S W) (w' : W) : Snap S W := ⟨w', s.hist⟩

@[simp] theorem push_world (s : Snap S W) (t : Nat) (o : S.Op) (a : S.Ans o) (w' : W) :
    (s.push t o a w').world = w' := rfl

@[simp] theorem push_hist (s : Snap S W) (t : Nat) (o : S.Op) (a : S.Ans o) (w' : W) :
    (s.push t o a w').hist = ⟨t, o, a, s.world⟩ :: s.hist := rfl

@[simp] theorem drift_world (s : Snap S W) (w' : W) : (s.drift w').world = w' := rfl

@[simp] theorem drift_hist (s : Snap S W) (w' : W) : (s.drift w').hist = s.hist := rfl

end Snap

/-- A snapshot and the remaining program of each thread; a halted thread has none. -/
structure Config (S : Sig) (W α : Type) where
  snap : Snap S W
  pool : Nat → Option (Prog S α)

/-- One step of a pool of threads. -/
inductive Config.Step (M : Machine S W) : Config S W α → Config S W α → Prop
  | run {c : Config S W α} {t : Nat} {o : S.Op} {k : S.Ans o → Prog S α} {a : S.Ans o} {w' : W} :
      c.pool t = some (.step o k) → M.exec t o c.snap.world a w' →
      Step M c ⟨c.snap.push t o a w', Function.update c.pool t (some (k a))⟩
  | env {c : Config S W α} {w' : W} :
      M.env c.snap.world w' → Step M c ⟨c.snap.drift w', c.pool⟩
  | halt {c : Config S W α} {t : Nat} {p : Prog S α} {w' : W} :
      c.pool t = some p → M.halt t c.snap.world w' →
      Step M c ⟨c.snap.drift w', Function.update c.pool t none⟩

/-- `c'` is reachable from `c`. -/
def Reach (M : Machine S W) (c c' : Config S W α) : Prop :=
  Relation.ReflTransGen (Config.Step M) c c'

theorem Reach.run {M : Machine S W} {c d : Config S W α} (h : Reach M c d) (t : Nat) (o : S.Op)
    (a : S.Ans o) {k : S.Ans o → Prog S α} {w' : W} (hp : d.pool t = some (.step o k))
    (he : M.exec t o d.snap.world a w') :
    Reach M c ⟨d.snap.push t o a w', Function.update d.pool t (some (k a))⟩ :=
  Relation.ReflTransGen.tail h (.run hp he)

/-- What threads may do and what they may rely on. -/
structure Discipline (S : Sig) (W : Type) where
  inv : Snap S W → Prop
  rely : Nat → Snap S W → Snap S W → Prop
  act : Nat → Snap S W → Snap S W → Prop

/-- The discipline fits together: what one thread may do, the others may rely on. -/
structure Discipline.Lawful (D : Discipline S W) (M : Machine S W) : Prop where
  rely_refl : ∀ t s, D.rely t s s
  rely_trans : ∀ t s₁ s₂ s₃, D.rely t s₁ s₂ → D.rely t s₂ s₃ → D.rely t s₁ s₃
  act_inv : ∀ t s s', D.inv s → D.act t s s' → D.inv s'
  act_rely : ∀ t u s s', D.inv s → D.act t s s' → u ≠ t → D.rely u s s'
  env_inv : ∀ s w', D.inv s → M.env s.world w' → D.inv (s.drift w')
  env_rely : ∀ u s w', D.inv s → M.env s.world w' → D.rely u s (s.drift w')
  halt_inv : ∀ t s w', D.inv s → M.halt t s.world w' → D.inv (s.drift w')
  halt_rely : ∀ t u s w', D.inv s → M.halt t s.world w' → u ≠ t → D.rely u s (s.drift w')

/-- The weakest precondition of a program of thread `t`: before each operation the
others may have moved the snapshot within `rely`, the operation itself keeps to `act`,
and `Q` holds at the moment the program is done. -/
def wp (M : Machine S W) (D : Discipline S W) (t : Nat) :
    Prog S α → (α → Snap S W → Prop) → Snap S W → Prop
  | .done a, Q, s => Q a s
  | .step o k, Q, s => ∀ s₁, D.rely t s s₁ → D.inv s₁ → ∀ a w', M.exec t o s₁.world a w' →
      D.act t s₁ (s₁.push t o a w') ∧ wp M D t (k a) Q (s₁.push t o a w')

section Rules

variable {M : Machine S W} {D : Discipline S W} {t : Nat}

@[simp] theorem wp_done (a : α) (Q : α → Snap S W → Prop) (s : Snap S W) :
    wp M D t (.done a) Q s ↔ Q a s := Iff.rfl

theorem wp_step {o : S.Op} {k : S.Ans o → Prog S α} {Q : α → Snap S W → Prop} {s : Snap S W} :
    wp M D t (.step o k) Q s ↔
      ∀ s₁, D.rely t s s₁ → D.inv s₁ → ∀ a w', M.exec t o s₁.world a w' →
        D.act t s₁ (s₁.push t o a w') ∧ wp M D t (k a) Q (s₁.push t o a w') := Iff.rfl

theorem wp_mono {p : Prog S α} {Q Q' : α → Snap S W → Prop} {s : Snap S W}
    (h : wp M D t p Q s) (hQ : ∀ a s, Q a s → Q' a s) : wp M D t p Q' s := by
  induction p generalizing s with
  | done a => exact hQ a s h
  | step o k ih =>
    intro s₁ hr hi a w' he
    obtain ⟨hact, hk⟩ := h s₁ hr hi a w' he
    exact ⟨hact, ih a hk⟩

theorem wp_bind {p : Prog S α} {f : α → Prog S β} {Q : β → Snap S W → Prop} {s : Snap S W} :
    wp M D t (p.bind f) Q s ↔ wp M D t p (fun a s' => wp M D t (f a) Q s') s := by
  induction p generalizing s with
  | done a => rfl
  | step o k ih =>
    simp only [Prog.step_bind, wp_step, ih]

/-- A specification of the first part and one of the rest for each of its results. -/
theorem wp_seq {p : Prog S α} {f : α → Prog S β} {P : α → Snap S W → Prop}
    {Q : β → Snap S W → Prop} {s : Snap S W} (hp : wp M D t p P s)
    (hf : ∀ a s', P a s' → wp M D t (f a) Q s') : wp M D t (p.bind f) Q s :=
  wp_bind.mpr (wp_mono hp hf)

/-- An operation that may be interfered with satisfies its specification after any
interference it relies on. -/
theorem wp_stable {o : S.Op} {k : S.Ans o → Prog S α} {Q : α → Snap S W → Prop}
    {s s' : Snap S W} (hl : D.Lawful M) (h : wp M D t (.step o k) Q s) (hr : D.rely t s s') :
    wp M D t (.step o k) Q s' := by
  intro s₁ hr' hi a w' he
  exact h s₁ (hl.rely_trans t s s' s₁ hr hr') hi a w' he

end Rules

section Pool

variable {M : Machine S W} {D : Discipline S W} {Q : Nat → α → Snap S W → Prop}

/-- A thread that still has an operation ahead satisfies its specification. -/
def Good (M : Machine S W) (D : Discipline S W) (Q : Nat → α → Snap S W → Prop)
    (c : Config S W α) : Prop :=
  ∀ t o k, c.pool t = some (.step o k) → wp M D t (.step o k) (Q t) c.snap

theorem good_of_wp {c : Config S W α}
    (h : ∀ t p, c.pool t = some p → wp M D t p (Q t) c.snap) : Good M D Q c :=
  fun t _ _ hp => h t _ hp

theorem step_sound (hl : D.Lawful M) {c c' : Config S W α} (hi : D.inv c.snap)
    (hg : Good M D Q c) (hs : Config.Step M c c') : D.inv c'.snap ∧ Good M D Q c' := by
  cases hs with
  | @run t o k a w' hp he =>
    obtain ⟨hact, hk⟩ := hg t o k hp c.snap (hl.rely_refl t c.snap) hi a w' he
    refine ⟨hl.act_inv t _ _ hi hact, ?_⟩
    intro u o' k' hu
    by_cases hut : u = t
    · subst hut
      simp only [Function.update_self, Option.some.injEq] at hu
      rw [hu] at hk
      exact hk
    · simp only [Function.update_of_ne hut] at hu
      exact wp_stable hl (hg u o' k' hu) (hl.act_rely t u _ _ hi hact hut)
  | @env w' he =>
    exact ⟨hl.env_inv _ _ hi he, fun u o' k' hu =>
      wp_stable hl (hg u o' k' hu) (hl.env_rely u _ _ hi he)⟩
  | @halt t p w' hp he =>
    refine ⟨hl.halt_inv t _ _ hi he, ?_⟩
    intro u o' k' hu
    by_cases hut : u = t
    · subst hut
      simp at hu
    · simp only [Function.update_of_ne hut] at hu
      exact wp_stable hl (hg u o' k' hu) (hl.halt_rely t u _ _ hi he hut)

/-- Every reachable configuration keeps the discipline. -/
theorem reach_sound (hl : D.Lawful M) {c c' : Config S W α} (hi : D.inv c.snap)
    (hg : Good M D Q c) (hr : Reach M c c') : D.inv c'.snap ∧ Good M D Q c' := by
  induction hr with
  | refl => exact ⟨hi, hg⟩
  | tail _ hs ih => exact step_sound hl ih.1 ih.2 hs

/-- A result others cannot invalidate still holds in every later snapshot. -/
theorem reach_result (hl : D.Lawful M) {c c' : Config S W α} (hi : D.inv c.snap)
    (hg : ∀ t p, c.pool t = some p → wp M D t p (Q t) c.snap)
    (hQ : ∀ t a s s', Q t a s → D.rely t s s' → Q t a s') (hr : Reach M c c')
    {t : Nat} {a : α} (hd : c'.pool t = some (.done a)) : Q t a c'.snap := by
  induction hr generalizing t a with
  | refl => exact hg t _ hd
  | @tail d d' hr hs ih =>
    obtain ⟨hi', hg'⟩ := reach_sound hl hi (good_of_wp hg) hr
    cases hs with
    | @run u o k b w' hp he =>
      obtain ⟨hact, hk⟩ := hg' u o k hp d.snap (hl.rely_refl u d.snap) hi' b w' he
      by_cases htu : t = u
      · subst htu
        simp only [Function.update_self, Option.some.injEq] at hd
        rw [hd] at hk
        exact hk
      · simp only [Function.update_of_ne htu] at hd
        exact hQ t a _ _ (ih hd) (hl.act_rely u t _ _ hi' hact htu)
    | @env w' he => exact hQ t a _ _ (ih hd) (hl.env_rely t _ _ hi' he)
    | @halt u p w' hp he =>
      by_cases htu : t = u
      · subst htu
        simp at hd
      · simp only [Function.update_of_ne htu] at hd
        exact hQ t a _ _ (ih hd) (hl.halt_rely u t _ _ hi' he htu)

/-- Where no thread is halted, threads do not come or go. -/
theorem reach_absent_iff (hM : ∀ t w w', ¬M.halt t w w') {c c' : Config S W α}
    (hr : Reach M c c') (t : Nat) : c'.pool t = none ↔ c.pool t = none := by
  induction hr with
  | refl => rfl
  | @tail d d' _ hs ih =>
    refine Iff.trans ?_ ih
    cases hs with
    | @run u o k a w' hp he =>
      by_cases htu : t = u
      · subst htu
        simp [hp]
      · simp [Function.update_of_ne htu]
    | env he => rfl
    | halt hp he => exact absurd he (hM _ _ _)

/-- Nobody invalidates what a thread that is not there relies on. -/
theorem reach_absent (hl : D.Lawful M) {c c' : Config S W α} {t : Nat} {P : Snap S W → Prop}
    (hP : ∀ s s', P s → D.rely t s s' → P s') (hi : D.inv c.snap) (hg : Good M D Q c)
    (hn : c.pool t = none) (h : P c.snap) (hr : Reach M c c') :
    c'.pool t = none ∧ P c'.snap := by
  induction hr with
  | refl => exact ⟨hn, h⟩
  | @tail d d' hr hs ih =>
    obtain ⟨hi', hg'⟩ := reach_sound hl hi hg hr
    obtain ⟨hn', h'⟩ := ih
    cases hs with
    | @run u o k a w' hp he =>
      have htu : t ≠ u := by
        rintro rfl
        rw [hn'] at hp
        cases hp
      have hact := (hg' u o k hp d.snap (hl.rely_refl u d.snap) hi' a w' he).1
      exact ⟨(Function.update_of_ne htu _ _).trans hn', hP _ _ h' (hl.act_rely u t _ _ hi' hact htu)⟩
    | @env w' he => exact ⟨hn', hP _ _ h' (hl.env_rely t _ _ hi' he)⟩
    | @halt u p w' hp he =>
      have htu : t ≠ u := by
        rintro rfl
        rw [hn'] at hp
        cases hp
      exact ⟨(Function.update_of_ne htu _ _).trans hn', hP _ _ h' (hl.halt_rely u t _ _ hi' he htu)⟩

/-- What the environment, halting and every permitted act preserve holds in every
reachable snapshot. -/
theorem reach_invariant (hl : D.Lawful M) {c c' : Config S W α} (J : Snap S W → Prop)
    (hi : D.inv c.snap) (hg : Good M D Q c) (hJ : J c.snap)
    (hact : ∀ t s s', D.inv s → J s → D.act t s s' → J s')
    (henv : ∀ s w', D.inv s → J s → M.env s.world w' → J (s.drift w'))
    (hhalt : ∀ t s w', D.inv s → J s → M.halt t s.world w' → J (s.drift w'))
    (hr : Reach M c c') : J c'.snap := by
  induction hr with
  | refl => exact hJ
  | @tail d d' hr hs ih =>
    obtain ⟨hi', hg'⟩ := reach_sound hl hi hg hr
    cases hs with
    | @run t o k a w' hp he =>
      exact hact t _ _ hi' ih (hg' t o k hp d.snap (hl.rely_refl t d.snap) hi' a w' he).1
    | @env w' he => exact henv _ _ hi' ih he
    | @halt t p w' hp he => exact hhalt t _ _ hi' ih he

end Pool

/-! ## Specifications -/

section Spec

variable {M : Machine S W} {D : Discipline S W} {t : Nat}

/-- From a snapshot in `P` the program keeps the discipline and ends in `Q`. -/
def Spec (M : Machine S W) (D : Discipline S W) (t : Nat) (P : Snap S W → Prop) (p : Prog S α)
    (Q : α → Snap S W → Prop) : Prop :=
  ∀ s, P s → wp M D t p Q s

/-- Others cannot invalidate `P`. -/
def Kept (D : Discipline S W) (t : Nat) (P : Snap S W → Prop) : Prop :=
  ∀ s s', P s → D.rely t s s' → P s'

theorem Spec.done {P : Snap S W → Prop} {a : α} {Q : α → Snap S W → Prop}
    (h : ∀ s, P s → Q a s) : Spec M D t P (.done a) Q :=
  h

/-- One operation from an assertion that is kept; `P'` is what it leaves for each answer. -/
theorem Spec.step {P : Snap S W → Prop} {o : S.Op} {k : S.Ans o → Prog S α}
    {Q : α → Snap S W → Prop} (P' : S.Ans o → Snap S W → Prop) (hP : Kept D t P)
    (hexec : ∀ s a w', D.inv s → P s → M.exec t o s.world a w' →
      D.act t s (s.push t o a w') ∧ P' a (s.push t o a w'))
    (hk : ∀ a, Spec M D t (P' a) (k a) Q) : Spec M D t P (.step o k) Q := by
  intro s hs s₁ hr hi a w' he
  obtain ⟨hact, hP'⟩ := hexec s₁ a w' hi (hP _ _ hs hr) he
  exact ⟨hact, hk a _ hP'⟩

theorem Spec.bind {P : Snap S W → Prop} {p : Prog S α} {f : α → Prog S β}
    {Q : β → Snap S W → Prop} (P' : α → Snap S W → Prop) (hp : Spec M D t P p P')
    (hf : ∀ a, Spec M D t (P' a) (f a) Q) : Spec M D t P (p.bind f) Q :=
  fun s hs => wp_seq (hp s hs) fun a s' h => hf a s' h

/-- The rest of an attempt runs only after a value; an error is its result. -/
theorem Spec.andThen {ε : Type} {P : Snap S W → Prop} {p : Attempt S ε α}
    {f : α → Attempt S ε β} {Q : Except ε β → Snap S W → Prop}
    (P' : Except ε α → Snap S W → Prop) (hp : Spec M D t P p P')
    (hf : ∀ a, Spec M D t (P' (.ok a)) (f a) Q)
    (he : ∀ e s, P' (.error e) s → Q (.error e) s) :
    Spec M D t P (p >>= f : Attempt S ε β) Q := by
  refine Spec.bind P' hp fun r => ?_
  cases r with
  | ok a => exact hf a
  | error e => exact Spec.done (he e)

theorem Spec.ite {P : Snap S W → Prop} {p q : Prog S α} {Q : α → Snap S W → Prop} {c : Prop}
    [Decidable c] (hp : c → Spec M D t P p Q) (hq : ¬c → Spec M D t P q Q) :
    Spec M D t P (if c then p else q) Q := by
  split
  · exact hp ‹c›
  · exact hq ‹¬c›

/-- What holds of a result whatever the answers are. -/
theorem Spec.yields {P : Snap S W → Prop} {p : Prog S α} {Q : α → Snap S W → Prop} {A : α → Prop}
    (h : Spec M D t P p Q) (hA : p.Yields A) : Spec M D t P p fun a s => Q a s ∧ A a := by
  suffices hwp : ∀ s, wp M D t p Q s → wp M D t p (fun a s => Q a s ∧ A a) s from
    fun s hs => hwp s (h s hs)
  clear h
  induction p with
  | done a => exact fun s hs => ⟨hs, hA⟩
  | step o k ih =>
    intro s hs s₁ hr hi a w' he
    obtain ⟨hact, hk⟩ := hs s₁ hr hi a w' he
    exact ⟨hact, ih a (hA a) _ hk⟩

theorem Spec.weaken {P P' : Snap S W → Prop} {p : Prog S α} {Q Q' : α → Snap S W → Prop}
    (h : Spec M D t P p Q) (hP : ∀ s, P' s → P s) (hQ : ∀ a s, Q a s → Q' a s) :
    Spec M D t P' p Q' :=
  fun s hs => wp_mono (h s (hP _ hs)) hQ

end Spec

/-! ## Disciplines of guarded operations -/

section Guarded

variable {M : Machine S W} {I : Snap S W → Prop} {R : Nat → W → W → Prop}
  {G : Nat → (o : S.Op) → Snap S W → Prop} {t : Nat}

/-- A thread performs an operation only where its guard `G` holds, and relies on what the
others make of the world; the history only grows. -/
def Discipline.guarded (M : Machine S W) (I : Snap S W → Prop) (R : Nat → W → W → Prop)
    (G : Nat → (o : S.Op) → Snap S W → Prop) : Discipline S W where
  inv := I
  rely t s s' := R t s.world s'.world ∧ s.hist <:+ s'.hist
  act t s s' := ∃ o a w', M.exec t o s.world a w' ∧ G t o s ∧ s' = s.push t o a w'

theorem Discipline.guarded_lawful
    (refl : ∀ t w, R t w w) (trans : ∀ t w₁ w₂ w₃, R t w₁ w₂ → R t w₂ w₃ → R t w₁ w₃)
    (exec : ∀ t o s a w', I s → M.exec t o s.world a w' → G t o s →
      I (s.push t o a w') ∧ ∀ u, u ≠ t → R u s.world w')
    (env : ∀ s w', I s → M.env s.world w' → I (s.drift w') ∧ ∀ u, R u s.world w')
    (halt : ∀ t s w', I s → M.halt t s.world w' →
      I (s.drift w') ∧ ∀ u, u ≠ t → R u s.world w') :
    (Discipline.guarded M I R G).Lawful M where
  rely_refl t s := ⟨refl t s.world, List.suffix_refl _⟩
  rely_trans t s₁ s₂ s₃ h h' :=
    ⟨trans t s₁.world s₂.world s₃.world h.1 h'.1, h.2.trans h'.2⟩
  act_inv t s s' hi := by
    rintro ⟨o, a, w', he, hg, rfl⟩
    exact (exec t o s a w' hi he hg).1
  act_rely t u s s' hi h hu := by
    obtain ⟨o, a, w', he, hg, rfl⟩ := h
    exact ⟨(exec t o s a w' hi he hg).2 u hu, List.suffix_cons _ _⟩
  env_inv s w' hi he := (env s w' hi he).1
  env_rely u s w' hi he := ⟨(env s w' hi he).2 u, List.suffix_refl _⟩
  halt_inv t s w' hi he := (halt t s w' hi he).1
  halt_rely t u s w' hi he hu := ⟨(halt t s w' hi he).2 u hu, List.suffix_refl _⟩

/-- One guarded operation. -/
theorem Spec.perform {P : Snap S W → Prop} {o : S.Op} {k : S.Ans o → Prog S α}
    {Q : α → Snap S W → Prop} (P' : S.Ans o → Snap S W → Prop)
    (hP : Kept (Discipline.guarded M I R G) t P) (hG : ∀ s, I s → P s → G t o s)
    (hexec : ∀ s a w', I s → P s → M.exec t o s.world a w' → P' a (s.push t o a w'))
    (hk : ∀ a, Spec M (.guarded M I R G) t (P' a) (k a) Q) :
    Spec M (.guarded M I R G) t P (.step o k) Q :=
  Spec.step P' hP (fun s a w' hi hs he => ⟨⟨o, a, w', he, hG s hi hs, rfl⟩,
    hexec s a w' hi hs he⟩) hk

/-- What every guarded operation and the environment preserve holds in every run of
threads that keep to the guards. -/
theorem reach_guarded {Q : Nat → α → Snap S W → Prop} {c c' : Config S W α}
    (hl : (Discipline.guarded M I R G).Lawful M) (J : Snap S W → Prop) (hi : I c.snap)
    (hg : Good M (.guarded M I R G) Q c) (hJ : J c.snap)
    (hexec : ∀ t o s a w', I s → J s → M.exec t o s.world a w' → G t o s →
      J (s.push t o a w'))
    (henv : ∀ s w', I s → J s → M.env s.world w' → J (s.drift w'))
    (hhalt : ∀ t s w', I s → J s → M.halt t s.world w' → J (s.drift w'))
    (hr : Reach M c c') : J c'.snap := by
  refine reach_invariant hl J hi hg hJ ?_ henv hhalt hr
  rintro t s s' hi hj ⟨o, a, w', he, hg, rfl⟩
  exact hexec t o s a w' hi hj he hg

end Guarded

/-! ## Disciplines on worlds -/

section Mutual

variable {M : Machine S W} {I : W → Prop} {R : Nat → W → W → Prop} {t : Nat}

/-- A thread may do whatever keeps `I` and what each other thread relies on. -/
def Safe (I : W → Prop) (R : Nat → W → W → Prop) (t : Nat) (w w' : W) : Prop :=
  I w' ∧ ∀ u, u ≠ t → R u w w'

/-- The discipline of an invariant and a rely relation that speak of the world alone. -/
def Discipline.mutual (I : W → Prop) (R : Nat → W → W → Prop) : Discipline S W where
  inv s := I s.world
  rely t s s' := R t s.world s'.world
  act t s s' := Safe I R t s.world s'.world

theorem Discipline.mutual_lawful
    (refl : ∀ t w, R t w w) (trans : ∀ t w₁ w₂ w₃, R t w₁ w₂ → R t w₂ w₃ → R t w₁ w₃)
    (env : ∀ w w', I w → M.env w w' → I w' ∧ ∀ u, R u w w')
    (halt : ∀ t w w', I w → M.halt t w w' → Safe I R t w w') :
    (Discipline.mutual I R : Discipline S W).Lawful M where
  rely_refl t s := refl t s.world
  rely_trans t s₁ s₂ s₃ := trans t s₁.world s₂.world s₃.world
  act_inv _ _ _ _ h := h.1
  act_rely _ u _ _ _ h hu := h.2 u hu
  env_inv s w' hi he := (env s.world w' hi he).1
  env_rely u s w' hi he := (env s.world w' hi he).2 u
  halt_inv t s w' hi he := (halt t s.world w' hi he).1
  halt_rely t u s w' hi he hu := (halt t s.world w' hi he).2 u hu

/-- From a world in `P` the program keeps the discipline and ends in `Q`. -/
def Triple (M : Machine S W) (I : W → Prop) (R : Nat → W → W → Prop) (t : Nat)
    (P : W → Prop) (p : Prog S α) (Q : α → W → Prop) : Prop :=
  Spec M (.mutual I R) t (fun s => P s.world) p fun a s => Q a s.world

/-- Others cannot invalidate `P`. -/
def Stable (R : Nat → W → W → Prop) (t : Nat) (P : W → Prop) : Prop :=
  ∀ w w', P w → R t w w' → P w'

theorem Stable.and {P P' : W → Prop} (h : Stable R t P) (h' : Stable R t P') :
    Stable R t fun w => P w ∧ P' w :=
  fun _ _ hp hr => ⟨h _ _ hp.1 hr, h' _ _ hp.2 hr⟩

theorem Triple.done {P : W → Prop} {a : α} {Q : α → W → Prop} (h : ∀ w, P w → Q a w) :
    Triple M I R t P (.done a) Q :=
  Spec.done fun s hs => h s.world hs

/-- One operation from a stable assertion; `P'` is what it leaves for each answer. -/
theorem Triple.step {P : W → Prop} {o : S.Op} {k : S.Ans o → Prog S α} {Q : α → W → Prop}
    (P' : S.Ans o → W → Prop) (hP : Stable R t P)
    (hexec : ∀ w a w', I w → P w → M.exec t o w a w' → Safe I R t w w' ∧ P' a w')
    (hk : ∀ a, Triple M I R t (P' a) (k a) Q) : Triple M I R t P (.step o k) Q :=
  Spec.step (fun a s => P' a s.world) (fun s s' => hP s.world s'.world)
    (fun s a w' => hexec s.world a w') hk

theorem Triple.bind {P : W → Prop} {p : Prog S α} {f : α → Prog S β} {Q : β → W → Prop}
    (P' : α → W → Prop) (hp : Triple M I R t P p P')
    (hf : ∀ a, Triple M I R t (P' a) (f a) Q) : Triple M I R t P (p.bind f) Q :=
  Spec.bind (fun a s => P' a s.world) hp hf

/-- The rest of an attempt runs only after a value; an error is its result. -/
theorem Triple.andThen {ε : Type} {P : W → Prop} {p : Attempt S ε α} {f : α → Attempt S ε β}
    {Q : Except ε β → W → Prop} (P' : Except ε α → W → Prop) (hp : Triple M I R t P p P')
    (hf : ∀ a, Triple M I R t (P' (.ok a)) (f a) Q)
    (he : ∀ e w, P' (.error e) w → Q (.error e) w) : Triple M I R t P (p >>= f : Attempt S ε β) Q :=
  Spec.andThen (fun r s => P' r s.world) hp hf fun e s => he e s.world

theorem Triple.ite {P : W → Prop} {p q : Prog S α} {Q : α → W → Prop} {c : Prop} [Decidable c]
    (hp : c → Triple M I R t P p Q) (hq : ¬c → Triple M I R t P q Q) :
    Triple M I R t P (if c then p else q) Q :=
  Spec.ite hp hq

theorem Triple.weaken {P P' : W → Prop} {p : Prog S α} {Q Q' : α → W → Prop}
    (h : Triple M I R t P p Q) (hP : ∀ w, P' w → P w) (hQ : ∀ a w, Q a w → Q' a w) :
    Triple M I R t P' p Q' :=
  Spec.weaken h (fun s => hP s.world) fun a s => hQ a s.world

/-- Every reachable world of a pool of specified programs keeps the invariant. -/
theorem Triple.reach {P : Nat → W → Prop} {Q : Nat → α → W → Prop}
    (hl : (Discipline.mutual I R : Discipline S W).Lawful M) {c c' : Config S W α}
    (hi : I c.snap.world)
    (hp : ∀ t p, c.pool t = some p → P t c.snap.world ∧ Triple M I R t (P t) p (Q t))
    (hr : Reach M c c') : I c'.snap.world :=
  (reach_sound (Q := fun t a s => Q t a s.world) hl hi
    (good_of_wp fun t p h => (hp t p h).2 _ (hp t p h).1) hr).1

/-- A stable result of a specified program holds in every later world. -/
theorem Triple.result {P : Nat → W → Prop} {Q : Nat → α → W → Prop}
    (hl : (Discipline.mutual I R : Discipline S W).Lawful M) {c c' : Config S W α}
    (hi : I c.snap.world)
    (hp : ∀ t p, c.pool t = some p → P t c.snap.world ∧ Triple M I R t (P t) p (Q t))
    (hQ : ∀ t a, Stable R t (Q t a)) (hr : Reach M c c') {t : Nat} {a : α}
    (hd : c'.pool t = some (.done a)) : Q t a c'.snap.world :=
  reach_result (Q := fun t a s => Q t a s.world) hl hi
    (fun t p h => (hp t p h).2 _ (hp t p h).1) (fun t a s s' => hQ t a s.world s'.world) hr hd

end Mutual

/-! ## One thread alone -/

/-- A run of one program by itself that ends with a result, or with `none` where it was
cut off. -/
inductive Exec (M : Machine S W) (t : Nat) :
    Prog S α → Snap S W → Option α → Snap S W → Prop
  | done (a : α) (s : Snap S W) : Exec M t (.done a) s (some a) s
  | cut (p : Prog S α) (s : Snap S W) : Exec M t p s none s
  | step {o : S.Op} {k : S.Ans o → Prog S α} {s s' : Snap S W} {a : S.Ans o} {w' : W}
      {r : Option α} : M.exec t o s.world a w' → Exec M t (k a) (s.push t o a w') r s' →
      Exec M t (.step o k) s r s'

/-- Nobody interferes with thread `0`. -/
def Alone (t : Nat) (w w' : W) : Prop := t = 0 → w = w'

theorem stable_alone (P : W → Prop) : Stable Alone 0 P :=
  fun _ _ hp hr => hr rfl ▸ hp

theorem safe_alone {I : W → Prop} {w w' : W} (h : I w') : Safe I Alone 0 w w' :=
  ⟨h, fun _ hu h0 => absurd h0 hu⟩

/-- An operation of a lone program. -/
theorem Triple.alone {M : Machine S W} {P : W → Prop} {o : S.Op} {k : S.Ans o → Prog S α}
    {Q : α → W → Prop} (P' : S.Ans o → W → Prop)
    (hexec : ∀ w a w', P w → M.exec 0 o w a w' → P' a w')
    (hk : ∀ a, Triple M (fun _ => True) Alone 0 (P' a) (k a) Q) :
    Triple M (fun _ => True) Alone 0 P (.step o k) Q :=
  Triple.step P' (stable_alone P)
    (fun w a w' _ hp he => ⟨safe_alone trivial, hexec w a w' hp he⟩) hk

/-- An operation of a lone program that keeps the invariant. -/
theorem Triple.alone_keep {M : Machine S W} {I P : W → Prop} {o : S.Op} {k : S.Ans o → Prog S α}
    {Q : α → W → Prop} (P' : S.Ans o → W → Prop)
    (hexec : ∀ w a w', I w → P w → M.exec 0 o w a w' → I w' ∧ P' a w')
    (hk : ∀ a, Triple M I Alone 0 (P' a) (k a) Q) : Triple M I Alone 0 P (.step o k) Q :=
  Triple.step P' (stable_alone P) (fun w a w' hi hp he => by
    obtain ⟨hi', hp'⟩ := hexec w a w' hi hp he
    exact ⟨safe_alone hi', hp'⟩) hk

/-- Wherever a lone program is cut off the invariant holds, and its result satisfies the
postcondition. -/
theorem Triple.exec {M : Machine S W} {I : W → Prop} {P : W → Prop} {p : Prog S α}
    {Q : α → W → Prop} {s s' : Snap S W} {r : Option α} (h : Triple M I Alone 0 P p Q)
    (hi : I s.world) (hP : P s.world) (he : Exec M 0 p s r s') :
    I s'.world ∧ ∀ a, r = some a → Q a s'.world := by
  have hwp := h s hP
  clear h hP
  induction he with
  | done a s =>
    refine ⟨hi, ?_⟩
    rintro b hb
    cases hb
    exact hwp
  | cut p s => exact ⟨hi, fun _ hb => nomatch hb⟩
  | step hexec _ ih =>
    obtain ⟨hsafe, hk⟩ := hwp _ (fun _ => rfl) hi _ _ hexec
    exact ih hsafe.1 hk

/-- A program that ends goes on with its continuation. -/
theorem Exec.bind {M : Machine S W} {t : Nat} {p : Prog S α} {f : α → Prog S β}
    {s s' s'' : Snap S W} {a : α} {r : Option β} (hp : Exec M t p s (some a) s')
    (hf : Exec M t (f a) s' r s'') : Exec M t (p.bind f) s r s'' := by
  generalize hb : some a = b at hp
  induction hp with
  | done a' s =>
    cases hb
    exact hf
  | cut p s => cases hb
  | step he _ ih => exact .step he (ih hf hb)

theorem Exec.bind_cut {M : Machine S W} {t : Nat} {p : Prog S α} {f : α → Prog S β}
    {s s' : Snap S W} (hp : Exec M t p s none s') : Exec M t (p.bind f) s none s' := by
  generalize hb : (none : Option α) = b at hp
  induction hp with
  | done a s => cases hb
  | cut p s => exact .cut _ s
  | step he _ ih => exact .step he (ih hb)

/-- The program can run to its end from one world to another, whatever was performed before. -/
def Runs (M : Machine S W) (t : Nat) (p : Prog S α) (w : W) (r : α) (w' : W) : Prop :=
  ∀ h, ∃ h', Exec M t p ⟨w, h⟩ (some r) ⟨w', h'⟩

theorem Runs.done {M : Machine S W} {t : Nat} (a : α) (w : W) : Runs M t (.done a) w a w :=
  fun h => ⟨h, .done a ⟨w, h⟩⟩

theorem Runs.step {M : Machine S W} {t : Nat} {o : S.Op} {k : S.Ans o → Prog S α} (a : S.Ans o)
    {w w' w'' : W} {r : α} (he : M.exec t o w a w') (hk : Runs M t (k a) w' r w'') :
    Runs M t (.step o k) w r w'' := fun h => by
  obtain ⟨h', hrest⟩ := hk (⟨t, o, a, w⟩ :: h)
  exact ⟨h', .step he hrest⟩

theorem Runs.bind {M : Machine S W} {t : Nat} {p : Prog S α} {f : α → Prog S β} {a : α} {r : β}
    {w w' w'' : W} (hp : Runs M t p w a w') (hf : Runs M t (f a) w' r w'') :
    Runs M t (p.bind f) w r w'' := fun h => by
  obtain ⟨h', hfirst⟩ := hp h
  obtain ⟨h'', hrest⟩ := hf h'
  exact ⟨h'', hfirst.bind hrest⟩

/-- A run alone is followed on every machine that simulates the first. -/
theorem Exec.simulate {V : Type} {M : Machine S W} {N : Machine S V} {R : W → V → Prop} {t : Nat}
    (hsim : ∀ o w a w' v, R w v → M.exec t o w a w' → ∃ v', N.exec t o v a v' ∧ R w' v')
    {p : Prog S α} {s s' : Snap S W} {r : Option α} (h : Exec M t p s r s')
    {x : Snap S V} (hx : R s.world x.world) : ∃ x', Exec N t p x r x' ∧ R s'.world x'.world := by
  induction h generalizing x with
  | done a s => exact ⟨x, .done a x, hx⟩
  | cut p s => exact ⟨x, .cut p x, hx⟩
  | @step o _ s _ a w' _ he _ ih =>
    obtain ⟨v', hv, hR⟩ := hsim _ _ _ _ _ hx he
    obtain ⟨x', hrest, hx'⟩ := ih (x := x.push t o a v') hR
    exact ⟨x', .step hv hrest, hx'⟩

/-- A machine on which every operation can be performed lets every program run to its
end. -/
theorem Exec.exists_done {M : Machine S W} (hM : ∀ o w, ∃ a w', M.exec 0 o w a w')
    (p : Prog S α) (s : Snap S W) : ∃ a s', Exec M 0 p s (some a) s' := by
  induction p generalizing s with
  | done a => exact ⟨a, s, .done a s⟩
  | step o k ih =>
    obtain ⟨a, w', he⟩ := hM o s.world
    obtain ⟨b, s', hk⟩ := ih a (s.push 0 o a w')
    exact ⟨b, s', .step he hk⟩

end Interaction
