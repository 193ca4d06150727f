import TusRs.Interaction.Discipline

/-!
# Components of larger systems

A program over one signature is run inside a system over another: each of its operations
becomes an operation of the system, and the component sees the system through a view.

* `Prog.Ops`: every operation a program may come to is of a kind.
* `Triple.keep`, `Triple.both`: a program keeps what each of its operations keeps, and what two
  specifications say of it holds together.
* `Triple.into`: what a component guarantees on its own it guarantees inside a system whose
  operations its view simulates.
* `Triple.each`: what a component guarantees on its own each of many components of its kind
  guarantees, and the others stay as they are.
* `Reach.restrict`: a run whose operations all meet a condition.
-/

namespace Interaction

variable {S T : Sig} {V W α β : Type}

namespace Prog

/-- Every operation the program may come to is in `A`. -/
def Ops (A : S.Op → Prop) : Prog S α → Prop
  | .done _ => True
  | .step o k => A o ∧ ∀ a, Ops A (k a)

variable {A B : S.Op → Prop}

theorem Ops.mono {p : Prog S α} (h : p.Ops A) (hAB : ∀ o, A o → B o) : p.Ops B := by
  induction p with
  | done a => trivial
  | step o k ih => exact ⟨hAB o h.1, fun a => ih a (h.2 a)⟩

theorem Ops.bind {p : Prog S α} {f : α → Prog S β} (hp : p.Ops A) (hf : ∀ a, (f a).Ops A) :
    (p.bind f).Ops A := by
  induction p with
  | done a => exact hf a
  | step o k ih => exact ⟨hp.1, fun a => ih a (hp.2 a)⟩

/-- The rest of a program is asked about only for what its first part may result in. -/
theorem Ops.bind_yields {B : α → Prop} {p : Prog S α} {f : α → Prog S β} (hp : p.Ops A)
    (hy : p.Yields B) (hf : ∀ a, B a → (f a).Ops A) : (p.bind f).Ops A := by
  induction p with
  | done a => exact hf a hy
  | step o k ih => exact ⟨hp.1, fun a => ih a (hp.2 a) (hy a)⟩

theorem ops_trivial (p : Prog S α) (h : ∀ o, A o) : p.Ops A := by
  induction p with
  | done a => trivial
  | step o k ih => exact ⟨h o, ih⟩

theorem Ops.cases {p q : Prog S α} {c : Prop} [Decidable c] (hp : c → p.Ops A)
    (hq : ¬c → q.Ops A) : (if c then p else q).Ops A := by
  split
  · exact hp ‹c›
  · exact hq ‹¬c›

theorem Ops.ite {p q : Prog S α} {c : Prop} [Decidable c] (hp : p.Ops A) (hq : q.Ops A) :
    (if c then p else q).Ops A :=
  .cases (fun _ => hp) fun _ => hq

end Prog

/-- How the operations of `S` are performed as operations of `T`. -/
structure Sig.Into (S T : Sig) where
  op : S.Op → T.Op
  ans : ∀ o, T.Ans (op o) → S.Ans o

/-- The program with each operation performed as one of the system. -/
def Prog.into (e : S.Into T) : Prog S α → Prog T α
  | .done a => .done a
  | .step o k => .step (e.op o) fun a => (k (e.ans o a)).into e

@[simp] theorem Prog.into_done (e : S.Into T) (a : α) : (Prog.done a).into e = .done a := rfl

@[simp] theorem Prog.into_step (e : S.Into T) (o : S.Op) (k : S.Ans o → Prog S α) :
    (Prog.step o k).into e = .step (e.op o) fun a => (k (e.ans o a)).into e := rfl

theorem Prog.into_bind (e : S.Into T) (p : Prog S α) (f : α → Prog S β) :
    (p.bind f).into e = (p.into e).bind fun a => (f a).into e := by
  induction p with
  | done a => rfl
  | step o k ih => simp only [Prog.step_bind, Prog.into_step, ih]

theorem Prog.Ops.into {A : S.Op → Prop} {B : T.Op → Prop} (e : S.Into T) {p : Prog S α}
    (h : p.Ops A) (hAB : ∀ o, A o → B (e.op o)) : (p.into e).Ops B := by
  induction p with
  | done a => trivial
  | step o k ih => exact ⟨hAB o h.1, fun a => ih _ (h.2 _)⟩

theorem Prog.Yields.into {A : α → Prop} (e : S.Into T) {p : Prog S α} (h : p.Yields A) :
    (p.into e).Yields A := by
  induction p with
  | done a => exact h
  | step o k ih => exact fun a => ih _ (h _)

/-- A program keeps an assertion that each of its operations keeps. -/
theorem Triple.keep {M : Machine T W} {I : W → Prop} {R : Nat → W → W → Prop} {t : Nat}
    {P : W → Prop} {A : T.Op → Prop} (hP : Stable R t P)
    (hexec : ∀ o w a w', A o → I w → P w → M.exec t o w a w' → Safe I R t w w' ∧ P w')
    {p : Prog T α} (hp : p.Ops A) : Triple M I R t P p fun _ => P := by
  induction p with
  | done a => exact Triple.done fun _ h => h
  | step o k ih =>
    exact Triple.step (fun _ => P) hP (fun w a w' hi hw he => hexec o w a w' hp.1 hi hw he)
      fun a => ih a (hp.2 a)

/-- What holds of a result whatever the answers are. -/
theorem Triple.yields {M : Machine T W} {I : W → Prop} {R : Nat → W → W → Prop} {t : Nat}
    {P : W → Prop} {p : Prog T α} {Q : α → W → Prop} {A : α → Prop} (h : Triple M I R t P p Q)
    (hA : p.Yields A) : Triple M I R t P p fun a w => Q a w ∧ A a :=
  Spec.yields h hA

/-- Two specifications of one program. -/
theorem Triple.both {M : Machine T W} {I : W → Prop} {R : Nat → W → W → Prop} {t : Nat}
    {P P' : W → Prop} {p : Prog T α} {Q Q' : α → W → Prop} (h : Triple M I R t P p Q)
    (h' : Triple M I R t P' p Q') :
    Triple M I R t (fun w => P w ∧ P' w) p fun a w => Q a w ∧ Q' a w := by
  suffices hwp : ∀ s, wp M (.mutual I R) t p (fun a s => Q a s.world) s →
      wp M (.mutual I R) t p (fun a s => Q' a s.world) s →
      wp M (.mutual I R) t p (fun a s => Q a s.world ∧ Q' a s.world) s from
    fun s hs => hwp s (h s hs.1) (h' s hs.2)
  clear h h'
  induction p with
  | done a => exact fun s hq hq' => ⟨hq, hq'⟩
  | step o k ih =>
    intro s hs hs' s₁ hr hi a w' he
    obtain ⟨hact, hk⟩ := hs s₁ hr hi a w' he
    exact ⟨hact, ih a _ hk (hs' s₁ hr hi a w' he).2⟩

/-- A component inside a system. While `K` holds, what the others of the system do is
within what the component relies on, and each operation of the component in the system is
one of its own on the view; what is safe for the view is safe for the system. -/
theorem Triple.into {M : Machine S V} {N : Machine T W} {I : V → Prop} {J : W → Prop}
    {R : Nat → V → V → Prop} {R' : Nat → W → W → Prop} {u t : Nat} (e : S.Into T) (view : W → V)
    (K : W → Prop) (A : S.Op → Prop)
    (hrely : ∀ w w', K w → R' t w w' → K w' ∧ R u (view w) (view w'))
    (hinv : ∀ w, J w → K w → I (view w))
    (hexec : ∀ o w a w', A o → J w → K w → N.exec t (e.op o) w a w' →
      M.exec u o (view w) (e.ans o a) (view w') ∧
      (Safe I R u (view w) (view w') → Safe J R' t w w' ∧ K w'))
    {p : Prog S α} {P : V → Prop} {Q : α → V → Prop} (hp : Triple M I R u P p Q) (hA : p.Ops A) :
    Triple N J R' t (fun w => K w ∧ P (view w)) (p.into e) fun a w => K w ∧ Q a (view w) := by
  suffices hwp : ∀ (x : Snap S V) (s : Snap T W), x.world = view s.world → K s.world →
      wp M (.mutual I R) u p (fun a x => Q a x.world) x →
      wp N (.mutual J R') t (p.into e) (fun a s => K s.world ∧ Q a (view s.world)) s from
    fun s hs => hwp ⟨view s.world, []⟩ s rfl hs.1 (hp _ hs.2)
  clear hp
  induction p with
  | done a =>
    intro x s hx hK hQ
    have hQ' : Q a x.world := hQ
    rw [hx] at hQ'
    exact ⟨hK, hQ'⟩
  | step o k ih =>
    intro x s hx hK h s₁ hr hi a w' he
    obtain ⟨hK₁, hr₁⟩ := hrely _ _ hK hr
    obtain ⟨hM, hsafe⟩ := hexec o s₁.world a w' hA.1 hi hK₁ he
    rw [← hx] at hr₁
    obtain ⟨hact, hk⟩ := h (x.drift (view s₁.world)) hr₁ (hinv _ hi hK₁) _ _ hM
    obtain ⟨hact', hK'⟩ := hsafe hact
    exact ⟨hact', ih _ (hA.2 _) _ (s₁.push t (e.op o) a w') rfl hK' hk⟩

/-- A sequence inside a system. -/
theorem Triple.into_bind {N : Machine T W} {J : W → Prop} {R' : Nat → W → W → Prop} {t : Nat}
    (e : S.Into T) {P : W → Prop} {p : Prog S α} {f : α → Prog S β} {Q : β → W → Prop}
    (P' : α → W → Prop) (hp : Triple N J R' t P (p.into e) P')
    (hf : ∀ a, Triple N J R' t (P' a) ((f a).into e) Q) :
    Triple N J R' t P ((p.bind f).into e) Q := by
  rw [Prog.into_bind]
  exact Triple.bind P' hp hf

/-! ## Many components of one kind -/

/-- The operations of the components `ι`, each with the component it is performed on. -/
def Sig.each (S : Sig) (ι : Type) : Sig where
  Op := ι × S.Op
  Ans o := S.Ans o.2

/-- The operations of the component `i`. -/
def Sig.at (S : Sig) {ι : Type} (i : ι) : S.Into (S.each ι) where
  op o := (i, o)
  ans _ a := a

section Each

variable {ι : Type} [DecidableEq ι]

/-- The components side by side: an operation changes the one it is performed on. -/
def Machine.each (M : Machine S W) (ι : Type) [DecidableEq ι] : Machine (S.each ι) (ι → W) where
  exec t o w a w' := ∃ v, M.exec t o.2 (w o.1) a v ∧ w' = Function.update w o.1 v
  env w w' := ∃ i v, M.env (w i) v ∧ w' = Function.update w i v
  halt t w w' := ∀ i, M.halt t (w i) (w' i)

/-- Where each component can perform each operation, so can all of them. -/
theorem Machine.each_enabled {M : Machine S W} {t : Nat} (hM : ∀ o w, ∃ a w', M.exec t o w a w')
    (o : (S.each ι).Op) (w : ι → W) : ∃ a w', (M.each ι).exec t o w a w' := by
  obtain ⟨a, v, he⟩ := hM o.2 (w o.1)
  exact ⟨a, _, v, he, rfl⟩

/-- What a component guarantees on its own it guarantees next to others, which stay as they
are. -/
theorem Triple.each {M : Machine S W} {I : W → Prop} {P : W → Prop} {p : Prog S α}
    {Q : α → W → Prop} (h : Triple M I Alone 0 P p Q) (i : ι) (rest : ι → W) :
    Triple (M.each ι) (fun _ => True) Alone 0
      (fun w => (I (w i) ∧ ∀ j, j ≠ i → w j = rest j) ∧ P (w i)) (p.into (S.at i))
      (fun a w => (I (w i) ∧ ∀ j, j ≠ i → w j = rest j) ∧ Q a (w i)) := by
  refine Triple.into (S.at i) (fun w : ι → W => w i)
    (fun w => I (w i) ∧ ∀ j, j ≠ i → w j = rest j) (fun _ => True) ?_ (fun w _ hK => hK.1) ?_ h
    (p.ops_trivial fun _ => trivial)
  · intro w w' hK hr
    obtain rfl := hr rfl
    exact ⟨hK, fun _ => rfl⟩
  · rintro o w a _ - - hK ⟨v, he, rfl⟩
    have hself : Function.update w i v i = v := Function.update_self ..
    refine ⟨hself.symm ▸ he, fun hsafe => ⟨safe_alone trivial, hsafe.1, fun j hj => ?_⟩⟩
    exact (Function.update_of_ne hj v w).trans (hK.2 j hj)

end Each

/-! ## Runs that meet a condition -/

/-- The machine on which only the operations that meet the condition `C` are performed. -/
def Machine.restrict (M : Machine S W) (C : Event S W → Prop) : Machine S W where
  exec t o w a w' := M.exec t o w a w' ∧ C ⟨t, o, a, w⟩
  env := M.env
  halt := M.halt

/-- One more operation of a run whose operations all meet the condition. -/
theorem Reach.run_meets {M : Machine S W} {C : Event S W → Prop} {c d : Config S W α}
    (h : Reach M c d ∧ ∀ e ∈ d.snap.hist, C e) (t : Nat) (o : S.Op) (a : S.Ans o)
    {k : S.Ans o → Prog S α} {w' : W} (hp : d.pool t = some (.step o k))
    (he : M.exec t o d.snap.world a w') (hC : C ⟨t, o, a, d.snap.world⟩) :
    Reach M c ⟨d.snap.push t o a w', Function.update d.pool t (some (k a))⟩ ∧
      ∀ e ∈ (d.snap.push t o a w').hist, C e :=
  ⟨h.1.run t o a hp he, List.forall_mem_cons.mpr ⟨hC, h.2⟩⟩

/-- A run whose operations all met the condition is one of the restricted machine. -/
theorem Reach.restrict {M : Machine S W} {C : Event S W → Prop} {c d : Config S W α}
    (h : Reach M c d) (hC : ∀ e ∈ d.snap.hist, C e) : Reach (M.restrict C) c d := by
  induction h with
  | refl => exact .refl
  | tail _ hstep ih =>
    cases hstep with
    | run hp he =>
      refine (ih fun e h => hC e (List.mem_cons_of_mem _ h)).tail (.run hp ⟨he, ?_⟩)
      exact hC _ List.mem_cons_self
    | env he => exact (ih hC).tail (.env he)
    | halt hp he => exact (ih hC).tail (.halt hp he)

end Interaction
