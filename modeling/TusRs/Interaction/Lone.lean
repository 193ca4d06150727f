import TusRs.Interaction.Component

/-!
# A thread that runs alone

`Lone` is a complete run of one program while no other thread performs an operation. The
environment may move between its operations.

* `Lone.bind`, `Lone.bind_inv`: the runs of a sequence are the runs of its parts in turn.
* `Lone.reach_pool`: a lone run is a run of every pool that has this thread.
* `Triple.only`: the invariant and the result of a program that runs alone.
* `Spec.lone`: what is specified under the discipline of a lone thread holds of its runs.
* `Since`, `Without`: an event of the run so far, and none.
* `First`: an event that comes before others.
* `Lone.detour`: the part of a run before an event, continued on another machine.
-/

namespace Interaction

variable {S : Sig} {W α β : Type} {M : Machine S W} {t : Nat}

/-- What the environment can make of a world. -/
def Drifts (M : Machine S W) (w w' : W) : Prop := Relation.ReflTransGen M.env w w'

/-- The program runs from `s` to its end in `s'` with the result `r`. -/
inductive Lone (M : Machine S W) (t : Nat) : Prog S α → Snap S W → α → Snap S W → Prop
  | done (a : α) (s : Snap S W) : Lone M t (.done a) s a s
  | step {o : S.Op} {k : S.Ans o → Prog S α} {s s' : Snap S W} {w w' : W} {a : S.Ans o} {r : α} :
      Drifts M s.world w → M.exec t o w a w' → Lone M t (k a) ((s.drift w).push t o a w') r s' →
      Lone M t (.step o k) s r s'

namespace Lone

theorem done_inv {a r : α} {s s' : Snap S W} (h : Lone M t (.done a) s r s') : r = a ∧ s' = s := by
  cases h
  exact ⟨rfl, rfl⟩

theorem bind {p : Prog S α} {f : α → Prog S β} {s s' s'' : Snap S W} {a : α} {r : β}
    (hp : Lone M t p s a s') (hf : Lone M t (f a) s' r s'') : Lone M t (p.bind f) s r s'' := by
  induction hp with
  | done a s => exact hf
  | step hd he _ ih => exact .step hd he (ih hf)

theorem bind_inv {p : Prog S α} {f : α → Prog S β} {s s'' : Snap S W} {r : β}
    (h : Lone M t (p.bind f) s r s'') :
    ∃ a s', Lone M t p s a s' ∧ Lone M t (f a) s' r s'' := by
  induction p generalizing s with
  | done a => exact ⟨a, s, .done a s, h⟩
  | step o k ih =>
    rw [Prog.step_bind] at h
    cases h with
    | step hd he hk =>
      obtain ⟨a, s', hp, hf⟩ := ih _ hk
      exact ⟨a, s', .step hd he hp, hf⟩

theorem hist {p : Prog S α} {s s' : Snap S W} {r : α} (h : Lone M t p s r s') :
    s.hist <:+ s'.hist := by
  induction h with
  | done a s => exact List.suffix_refl _
  | step _ _ _ ih => exact (List.suffix_cons _ _).trans ih

/-- Where every operation can be performed, every program has a run. -/
theorem exists_done (hM : ∀ o w, ∃ a w', M.exec t o w a w') (p : Prog S α) (s : Snap S W) :
    ∃ r s', Lone M t p s r s' := by
  induction p generalizing s with
  | done a => exact ⟨a, s, .done a s⟩
  | step o k ih =>
    obtain ⟨a, w', he⟩ := hM o s.world
    obtain ⟨r, s', hk⟩ := ih a (s.push t o a w')
    exact ⟨r, s', .step .refl he hk⟩

theorem of_pos {p q : Prog S α} {s s' : Snap S W} {r : α} {c : Prop} [Decidable c] (hc : c)
    (h : Lone M t p s r s') : Lone M t (if c then p else q) s r s' := by
  rw [if_pos hc]
  exact h

theorem of_neg {p q : Prog S α} {s s' : Snap S W} {r : α} {c : Prop} [Decidable c] (hc : ¬c)
    (h : Lone M t q s r s') : Lone M t (if c then p else q) s r s' := by
  rw [if_neg hc]
  exact h

end Lone

/-- The pool of one thread. -/
def Config.only (t : Nat) (p : Prog S α) (s : Snap S W) : Config S W α :=
  ⟨s, Function.update (fun _ => none) t (some p)⟩

theorem Drifts.reach {w : W} {s : Snap S W} {pool : Nat → Option (Prog S α)}
    (h : Drifts M s.world w) : Reach M ⟨s, pool⟩ ⟨s.drift w, pool⟩ := by
  induction h with
  | refl => exact .refl
  | tail _ he ih => exact ih.tail (.env he)

/-- A lone run is a run of every pool that has this thread. -/
theorem Lone.reach_pool {p : Prog S α} {s s' : Snap S W} {r : α} (h : Lone M t p s r s')
    {pool : Nat → Option (Prog S α)} (hp : pool t = some p) :
    Reach M ⟨s, pool⟩ ⟨s', Function.update pool t (some (.done r))⟩ := by
  induction h generalizing pool with
  | done a s =>
    rw [← hp, Function.update_eq_self]
    exact .refl
  | @step o k s s' w w' a r hd he _ ih =>
    have hrun := Reach.run hd.reach t o a hp he
    have hrest := ih (Function.update_self t (some (k a)) pool)
    rw [Function.update_idem] at hrest
    exact hrun.trans hrest

/-- Nothing else happens in a lone run than in the pool of this thread. -/
theorem Lone.reach {p : Prog S α} {s s' : Snap S W} {r : α} (h : Lone M t p s r s') :
    Reach M (Config.only t p s) (Config.only t (.done r) s') := by
  have hrun := h.reach_pool (Function.update_self t (some p) fun _ => none)
  rw [Function.update_idem] at hrun
  exact hrun

/-- The result of a program alone on a machine on which nothing else moves. -/
theorem Triple.only (henv : ∀ w w', ¬M.env w w') (hhalt : ∀ t w w', ¬M.halt t w w')
    {I : W → Prop} {P : W → Prop} {p : Prog S α} {Q : α → W → Prop}
    (h : Triple M I Alone 0 P p Q) {s : Snap S W} (hi : I s.world) (hP : P s.world)
    {c : Config S W α} (hr : Reach M (Config.only 0 p s) c) :
    I c.snap.world ∧ ∀ a, c.pool 0 = some (.done a) → Q a c.snap.world := by
  have hlawful : (Discipline.mutual I Alone : Discipline S W).Lawful M :=
    Discipline.mutual_lawful (fun _ _ _ => rfl) (fun _ _ _ _ h₁ h₂ h0 => (h₁ h0).trans (h₂ h0))
      (fun _ _ _ he => absurd he (henv _ _)) fun _ _ _ _ he => absurd he (hhalt _ _ _)
  have hpool : ∀ u q, (Config.only 0 p s).pool u = some q →
      P s.world ∧ Triple M I Alone u P q fun a w => u = 0 → Q a w := by
    intro u q hq
    simp only [Config.only] at hq
    by_cases hu : u = 0
    · subst hu
      rw [Function.update_self] at hq
      obtain rfl := Option.some.inj hq
      exact ⟨hP, h.weaken (fun _ h => h) fun _ _ h _ => h⟩
    · rw [Function.update_of_ne hu] at hq
      cases hq
  refine ⟨Triple.reach hlawful hi hpool hr, fun a hd => ?_⟩
  exact Triple.result hlawful hi hpool (fun t a w w' h hr ht => (hr ht) ▸ h ht) hr hd rfl

/-! ## Specifications -/

/-- A lone thread may do anything, and relies on nobody. -/
def Discipline.lone (M : Machine S W) : Discipline S W where
  inv _ := True
  rely _ s s' := ∃ w, Drifts M s.world w ∧ s' = s.drift w
  act _ _ _ := True

/-- The environment cannot invalidate `P`. -/
def Undrifted (M : Machine S W) (P : Snap S W → Prop) : Prop :=
  ∀ s w, P s → M.env s.world w → P (s.drift w)

theorem Undrifted.kept {P : Snap S W → Prop} (h : Undrifted M P) : Kept (.lone M) t P := by
  rintro s _ hs ⟨w, hd, rfl⟩
  induction hd with
  | refl => exact hs
  | @tail w _ _ he ih => exact h (s.drift w) _ ih he

theorem Spec.lone {P : Snap S W → Prop} {p : Prog S α} {Q : α → Snap S W → Prop}
    {s s' : Snap S W} {r : α} (h : Spec M (.lone M) t P p Q) (hs : P s) (hr : Lone M t p s r s') :
    Q r s' := by
  have hwp := h s hs
  clear h hs
  induction hr with
  | done a s => exact hwp
  | step hd he _ ih => exact ih (hwp _ ⟨_, hd, rfl⟩ trivial _ _ he).2

/-- One operation of a lone thread. -/
theorem Spec.alone {P : Snap S W → Prop} {o : S.Op} {k : S.Ans o → Prog S α}
    {Q : α → Snap S W → Prop} (P' : S.Ans o → Snap S W → Prop) (hP : Undrifted M P)
    (hexec : ∀ s a w', P s → M.exec t o s.world a w' → P' a (s.push t o a w'))
    (hk : ∀ a, Spec M (.lone M) t (P' a) (k a) Q) : Spec M (.lone M) t P (.step o k) Q :=
  Spec.step P' hP.kept (fun s a w' _ hs he => ⟨trivial, hexec s a w' hs he⟩) hk

theorem Spec.assume {D : Discipline S W} {P : Snap S W → Prop} {p : Prog S α}
    {Q : α → Snap S W → Prop} {c : Prop} (h : c → Spec M D t P p Q) :
    Spec M D t (fun s => P s ∧ c) p Q :=
  fun s hs => h hs.2 s hs.1

/-- What no operation and no move of the environment invalidates holds to the end. -/
theorem Spec.forever {P : Snap S W → Prop} (hP : Undrifted M P)
    (hpush : ∀ s o a w', P s → P (s.push t o a w')) (p : Prog S α) :
    Spec M (.lone M) t P p fun _ => P := by
  induction p with
  | done a => exact Spec.done fun _ hs => hs
  | step o k ih => exact Spec.alone (fun _ => P) hP (fun s a w' hs _ => hpush s o a w' hs) ih

/-- An event in `E` has happened after the history `h`. -/
def Since (h : List (Event S W)) (E : Event S W → Prop) (s : Snap S W) : Prop :=
  ∃ ev rest, h <:+ rest ∧ ev :: rest <:+ s.hist ∧ E ev

theorem Since.push {h : List (Event S W)} {E : Event S W → Prop} {s : Snap S W} {o : S.Op}
    {a : S.Ans o} {w' : W} (hs : Since h E s) : Since h E (s.push t o a w') := by
  obtain ⟨ev, rest, hrest, hev, hE⟩ := hs
  exact ⟨ev, rest, hrest, hev.trans (List.suffix_cons _ _), hE⟩

theorem Since.now {h : List (Event S W)} {E : Event S W → Prop} {s : Snap S W} {o : S.Op}
    {a : S.Ans o} {w' : W} (hs : h <:+ s.hist) (hE : E ⟨t, o, a, s.world⟩) :
    Since h E (s.push t o a w') :=
  ⟨_, s.hist, hs, List.suffix_refl _, hE⟩

/-- No event in `E` has happened on the way from `s` to `s'`. -/
def Without (E : Event S W → Prop) (s s' : Snap S W) : Prop :=
  ∃ new, s'.hist = new ++ s.hist ∧ ∀ ev ∈ new, ¬E ev

theorem Without.refl {E : Event S W → Prop} (s : Snap S W) : Without E s s :=
  ⟨[], rfl, List.forall_mem_nil _⟩

theorem Without.hist {E : Event S W → Prop} {s s' : Snap S W} (h : Without E s s') :
    s.hist <:+ s'.hist := by
  obtain ⟨new, hnew, _⟩ := h
  exact ⟨new, hnew.symm⟩

theorem Without.trans {E : Event S W → Prop} {s₁ s₂ s₃ : Snap S W} (h : Without E s₁ s₂)
    (h' : Without E s₂ s₃) : Without E s₁ s₃ := by
  obtain ⟨new, hnew, hE⟩ := h
  obtain ⟨new', hnew', hE'⟩ := h'
  refine ⟨new' ++ new, by rw [hnew', hnew, List.append_assoc], fun ev hev => ?_⟩
  exact (List.mem_append.mp hev).elim (hE' ev) (hE ev)

theorem Without.mono {E E' : Event S W → Prop} {s s' : Snap S W} (h : Without E s s')
    (hE : ∀ ev, E' ev → E ev) : Without E' s s' := by
  obtain ⟨new, hnew, hno⟩ := h
  exact ⟨new, hnew, fun ev hev h' => hno ev hev (hE ev h')⟩

theorem Without.push {E : Event S W → Prop} {s : Snap S W} {o : S.Op} {a : S.Ans o} {w' : W}
    (hE : ¬E ⟨t, o, a, s.world⟩) : Without E s (s.push t o a w') :=
  ⟨[⟨t, o, a, s.world⟩], rfl, List.forall_mem_singleton.mpr hE⟩

theorem Without.not_since {E : Event S W → Prop} {s s' : Snap S W} (h : Without E s s') :
    ¬Since s.hist E s' := by
  obtain ⟨new, hnew, hE⟩ := h
  rintro ⟨ev, rest, ⟨old, rfl⟩, ⟨later, hlater⟩, hev⟩
  have hsame : (later ++ ev :: old) ++ s.hist = new ++ s.hist := by
    rw [← hnew, ← hlater, List.append_assoc, List.cons_append]
  refine hE ev ?_ hev
  rw [← List.append_cancel_right hsame]
  exact List.mem_append_right _ List.mem_cons_self

/-- A run in which no event in `E` happens, step by step. -/
theorem Lone.step_without {E : Event S W → Prop} {o : S.Op} {k : S.Ans o → Prog S α} {s : Snap S W}
    {a : S.Ans o} {w' : W} {r : α} (he : M.exec t o s.world a w') (hE : ¬E ⟨t, o, a, s.world⟩)
    (h : ∃ s', Lone M t (k a) (s.push t o a w') r s' ∧ Without E (s.push t o a w') s') :
    ∃ s', Lone M t (.step o k) s r s' ∧ Without E s s' := by
  obtain ⟨s', hk, hs'⟩ := h
  exact ⟨s', .step .refl he hk, (Without.push hE).trans hs'⟩

theorem Since.extend {h h' : List (Event S W)} {E : Event S W → Prop} {s s' : Snap S W}
    (hs : Since h' E s) (hh : h <:+ h') (hl : s.hist <:+ s'.hist) : Since h E s' := by
  obtain ⟨ev, rest, hrest, hev, hE⟩ := hs
  exact ⟨ev, rest, hh.trans hrest, hev.trans hl, hE⟩

theorem Since.mono {h : List (Event S W)} {E E' : Event S W → Prop} {s : Snap S W}
    (hs : Since h E s) (hE : ∀ ev, E ev → E' ev) : Since h E' s := by
  obtain ⟨ev, rest, hrest, hev, hin⟩ := hs
  exact ⟨ev, rest, hrest, hev, hE ev hin⟩

/-- An event in `F` has happened after the history `h`, and none in `E` before it. -/
def First (h : List (Event S W)) (E F : Event S W → Prop) (s : Snap S W) : Prop :=
  ∃ ev new, ev :: (new ++ h) <:+ s.hist ∧ F ev ∧ ∀ e ∈ new, ¬E e

theorem First.push {h : List (Event S W)} {E F : Event S W → Prop} {s : Snap S W} {o : S.Op}
    {a : S.Ans o} {w' : W} (hs : First h E F s) : First h E F (s.push t o a w') := by
  obtain ⟨ev, new, hev, hF, hE⟩ := hs
  exact ⟨ev, new, hev.trans (List.suffix_cons _ _), hF, hE⟩

theorem First.now {E F : Event S W → Prop} {s : Snap S W} {o : S.Op} {a : S.Ans o} {w' : W}
    (hE : ∀ e ∈ s.hist, ¬E e) (hF : F ⟨t, o, a, s.world⟩) : First [] E F (s.push t o a w') :=
  ⟨_, s.hist, by rw [List.append_nil]; exact List.suffix_refl _, hF, hE⟩

theorem First.since {h : List (Event S W)} {E F : Event S W → Prop} {s : Snap S W}
    (hs : First h E F s) : Since h F s := by
  obtain ⟨ev, new, hev, hF, -⟩ := hs
  exact ⟨ev, new ++ h, List.suffix_append _ _, hev, hF⟩

/-- Of the events of a kind there is a first one. -/
theorem Since.first {h : List (Event S W)} {F : Event S W → Prop} {s : Snap S W}
    (hs : Since h F s) : First h F F s := by
  obtain ⟨ev, _, ⟨new, rfl⟩, hev, hF⟩ := hs
  induction hlen : new.length using Nat.strongRecOn generalizing ev new with
  | ind n ih =>
    by_cases hnone : ∀ e ∈ new, ¬F e
    · exact ⟨ev, new, hev, hF, hnone⟩
    · push Not at hnone
      obtain ⟨e, he, hFe⟩ := hnone
      obtain ⟨later, earlier, rfl⟩ := List.append_of_mem he
      have hsuffix : e :: (earlier ++ h) <:+ s.hist := by
        refine List.IsSuffix.trans ⟨ev :: later, ?_⟩ hev
        simp only [List.cons_append, List.append_assoc]
      refine ih earlier.length ?_ e earlier hsuffix hFe rfl
      rw [← hlen, List.length_append, List.length_cons]
      omega

/-- Nothing has happened yet, or the first event is the next one. -/
theorem First.after {h : List (Event S W)} {E F : Event S W → Prop} {s : Snap S W} {e : Event S W}
    (hs : First h E F s) (he : e :: h <:+ s.hist) (hF : ¬F e) : ¬E e ∧ First (e :: h) E F s := by
  obtain ⟨ev, new, hev, hFev, hE⟩ := hs
  have hsame : ∀ {x : Event S W}, x :: h <:+ s.hist → x = e := fun {x} hx =>
    (List.cons.inj ((List.suffix_of_suffix_length_le hx he (Nat.le_refl _)).eq_of_length rfl)).1
  cases List.eq_nil_or_concat new with
  | inl hnil =>
    subst hnil
    exact absurd (hsame hev ▸ hFev) hF
  | inr hnew =>
    obtain ⟨new', x, rfl⟩ := hnew
    rw [List.concat_eq_append, List.append_assoc, List.singleton_append] at hev
    obtain rfl : x = e := hsame
      ((List.suffix_append new' _).trans ((List.suffix_cons _ _).trans hev))
    refine ⟨hE x ?_, ev, new', hev, hFev, fun e' he' => hE e' ?_⟩
    · rw [List.concat_eq_append]
      exact List.mem_append_right _ List.mem_cons_self
    · rw [List.concat_eq_append]
      exact List.mem_append_left _ he'

/-- A run that comes to an event in `F` comes to one on another machine as well, if that one
agrees on what happens before, can follow the event and can go on from there. -/
theorem Lone.detour {N : Machine S W} {E F : Event S W → Prop}
    (hsame : ∀ o w a w', ¬E ⟨t, o, a, w⟩ → M.exec t o w a w' → N.exec t o w a w')
    (hfollow : ∀ o w a w', F ⟨t, o, a, w⟩ → M.exec t o w a w' →
      ∃ a' w'', N.exec t o w a' w'' ∧ F ⟨t, o, a', w⟩)
    (henv : ∀ w w', M.env w w' → N.env w w') (hN : ∀ o w, ∃ a w', N.exec t o w a w')
    {p : Prog S α} {s s' : Snap S W} {r : α} (h : Lone M t p s r s')
    (hF : First s.hist E F s') : ∃ r' s'', Lone N t p s r' s'' ∧ Since s.hist F s'' := by
  induction h with
  | done a s =>
    obtain ⟨ev, new, hev, -⟩ := hF
    have hlen := hev.length_le
    rw [List.length_cons, List.length_append] at hlen
    omega
  | @step o k s s' w w' a r hd he hk ih =>
    have hd' : Drifts N s.world w := Relation.ReflTransGen.mono henv _ _ hd
    by_cases ho : F ⟨t, o, a, w⟩
    · obtain ⟨a', w'', he', ho'⟩ := hfollow o w a w' ho he
      obtain ⟨r', s'', hk'⟩ := Lone.exists_done hN (k a') ((s.drift w).push t o a' w'')
      have hnow : Since s.hist F ((s.drift w).push t o a' w'') :=
        .now (s := s.drift w) (List.suffix_refl _) ho'
      exact ⟨r', s'', .step hd' he' hk', hnow.extend (List.suffix_refl _) hk'.hist⟩
    · obtain ⟨hE, hrest⟩ := hF.after hk.hist ho
      obtain ⟨r', s'', hk', hF'⟩ := ih hrest
      refine ⟨r', s'', .step hd' (hsame o w a w' hE he) hk', ?_⟩
      exact hF'.extend (List.suffix_cons _ _) (List.suffix_refl _)

/-- What one machine can do another one can do. -/
theorem Lone.mono {N : Machine S W} (hexec : ∀ o w a w', M.exec t o w a w' → N.exec t o w a w')
    (henv : ∀ w w', M.env w w' → N.env w w') {p : Prog S α} {s s' : Snap S W} {r : α}
    (h : Lone M t p s r s') : Lone N t p s r s' := by
  induction h with
  | done a s => exact .done a s
  | step hd he _ ih =>
    exact .step (Relation.ReflTransGen.mono henv _ _ hd) (hexec _ _ _ _ he) ih

/-- What none of its operations invalidates holds to the end of a program. -/
theorem Spec.ops {P : Snap S W → Prop} {A : S.Op → Prop} (hP : Undrifted M P)
    (hpush : ∀ s o a w', A o → P s → M.exec t o s.world a w' → P (s.push t o a w'))
    {p : Prog S α} (hp : p.Ops A) : Spec M (.lone M) t P p fun _ => P := by
  induction p with
  | done a => exact Spec.done fun _ hs => hs
  | step o k ih =>
    exact Spec.alone (fun _ => P) hP (fun s a w' hs he => hpush s o a w' hp.1 hs he)
      fun a => ih a (hp.2 a)

theorem Since.forever {h : List (Event S W)} {E : Event S W → Prop} (p : Prog S α) :
    Spec M (.lone M) t (Since h E) p fun _ => Since h E :=
  Spec.forever (fun _ _ hs _ => hs) (fun _ _ _ _ hs => hs.push) p

end Interaction
