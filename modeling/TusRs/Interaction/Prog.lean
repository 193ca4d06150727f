import Mathlib.Logic.Function.Basic

/-!
# Programs as trees of operations

A program over a signature of operations either is done with a value or asks the
world to perform one operation and continues with the answer. The operation is the
unit of interleaving: everything a program does between two operations is invisible
to others.

* `Prog`: the programs, a monad by `Prog.bind`.
* `Attempt`: programs that end in a value or an error, with the bind of a function
  that returns at its first error.
* `Prog.Yields`, `Attempt.Returns`: what holds of a result whatever the answers are.
* `Prog.Within`: a bound on the number of operations, whatever the answers are.
-/

namespace Interaction

/-- A set of operations and the type of each operation's answer. -/
structure Sig where
  Op : Type
  Ans : Op → Type

/-- A program over the signature `S` with results in `α`. -/
inductive Prog (S : Sig) (α : Type) where
  | done (a : α)
  | step (o : S.Op) (k : S.Ans o → Prog S α)

variable {S : Sig} {α β ε : Type}

namespace Prog

def bind : Prog S α → (α → Prog S β) → Prog S β
  | .done a, f => f a
  | .step o k, f => .step o fun a => (k a).bind f

instance : Monad (Prog S) where
  pure := .done
  bind := Prog.bind

/-- One operation, with its answer as the result. -/
def op (o : S.Op) : Prog S (S.Ans o) := .step o .done

@[simp] theorem pure_eq (a : α) : (pure a : Prog S α) = .done a := rfl

@[simp] theorem bind_eq (p : Prog S α) (f : α → Prog S β) : p >>= f = p.bind f := rfl

@[simp] theorem done_bind (a : α) (f : α → Prog S β) : (Prog.done a).bind f = f a := rfl

@[simp] theorem step_bind (o : S.Op) (k : S.Ans o → Prog S α) (f : α → Prog S β) :
    (Prog.step o k).bind f = .step o fun a => (k a).bind f := rfl

@[simp] theorem op_bind (o : S.Op) (f : S.Ans o → Prog S β) :
    (op o).bind f = .step o f := rfl

theorem bind_assoc {γ : Type} (p : Prog S α) (f : α → Prog S β) (g : β → Prog S γ) :
    (p.bind f).bind g = p.bind fun a => (f a).bind g := by
  induction p with
  | done a => rfl
  | step o k ih => simp only [step_bind, ih]

/-- The program performs `o` next and goes on as `q` when the answer is `a`. -/
def Asks (p : Prog S α) (o : S.Op) (a : S.Ans o) (q : Prog S α) : Prop :=
  ∃ k, p = .step o k ∧ q = k a

@[simp] theorem asks_step {o : S.Op} {k : S.Ans o → Prog S α} {a : S.Ans o} {q : Prog S α} :
    (Prog.step o k).Asks o a q ↔ q = k a := by
  constructor
  · rintro ⟨k', hk, rfl⟩
    cases hk
    rfl
  · rintro rfl
    exact ⟨k, rfl, rfl⟩

/-- Whatever the answers are, the result is in `A`. -/
def Yields (A : α → Prop) : Prog S α → Prop
  | .done a => A a
  | .step _ k => ∀ a, Yields A (k a)

theorem Yields.bind {A : α → Prop} {B : β → Prop} {p : Prog S α} {f : α → Prog S β}
    (hp : Yields A p) (hf : ∀ a, A a → Yields B (f a)) : Yields B (p.bind f) := by
  induction p with
  | done a => exact hf a hp
  | step o k ih => exact fun a => ih a (hp a)

theorem Yields.mono {A B : α → Prop} {p : Prog S α} (hp : Yields A p) (h : ∀ a, A a → B a) :
    Yields B p := by
  induction p with
  | done a => exact h a hp
  | step o k ih => exact fun a => ih a (hp a)

theorem Yields.trivial (p : Prog S α) : Yields (fun _ => True) p := by
  induction p with
  | done a => exact True.intro
  | step o k ih => exact ih

/-- Whatever the answers are, the program is done after `n` operations at most. -/
def Within : Nat → Prog S α → Prop
  | _, .done _ => True
  | 0, .step _ _ => False
  | n + 1, .step _ k => ∀ a, Within n (k a)

theorem Within.done (n : Nat) (a : α) : Within n (.done a : Prog S α) := by
  cases n <;> exact True.intro

theorem Within.step {n : Nat} {o : S.Op} {k : S.Ans o → Prog S α} (h : ∀ a, Within n (k a)) :
    Within (n + 1) (.step o k) := h

theorem Within.mono {n m : Nat} {p : Prog S α} (hp : Within n p) (h : n ≤ m) : Within m p := by
  induction p generalizing n m with
  | done a => exact .done m a
  | step o k ih =>
    cases n with
    | zero => exact hp.elim
    | succ n =>
      cases m with
      | zero => exact absurd h (Nat.not_succ_le_zero n)
      | succ m => exact fun a => ih a (hp a) (Nat.le_of_succ_le_succ h)

/-- A sequence shares a bound out to its two parts. -/
theorem Within.bind (n m : Nat) {l : Nat} {p : Prog S α} {f : α → Prog S β} (hl : n + m ≤ l)
    (hp : Within n p) (hf : ∀ a, Within m (f a)) : Within l (p.bind f) := by
  refine Within.mono ?_ hl
  clear hl
  induction p generalizing n with
  | done a => exact (hf a).mono (Nat.le_add_left m n)
  | step o k ih =>
    cases n with
    | zero => exact hp.elim
    | succ n =>
      rw [Nat.succ_add]
      exact fun a => ih a n (hp a)

theorem Within.ite {n : Nat} {p q : Prog S α} {c : Prop} [Decidable c] (hp : c → Within n p)
    (hq : ¬c → Within n q) : Within n (if c then p else q) := by
  split
  · exact hp ‹c›
  · exact hq ‹¬c›

end Prog

/-- A program that ends in a value or in an error. -/
def Attempt (S : Sig) (ε α : Type) := Prog S (Except ε α)

namespace Attempt

/-- Continue after a value, stop at an error. -/
def andThen (f : α → Attempt S ε β) : Except ε α → Prog S (Except ε β)
  | .ok a => f a
  | .error e => .done (.error e)

instance : Monad (Attempt S ε) where
  pure a := Prog.done (.ok a)
  bind x f := Prog.bind x (andThen f)

instance : MonadExcept ε (Attempt S ε) where
  throw e := Prog.done (.error e)
  tryCatch x h := Prog.bind x fun
    | .ok a => .done (.ok a)
    | .error e => h e

/-- A computation without effects. -/
def lift : Except ε α → Attempt S ε α := Prog.done

/-- A program that cannot fail. -/
def always (p : Prog S α) : Attempt S ε α := p.bind fun a => .done (.ok a)

/-- The outcome of an attempt as a value: the error is not propagated. -/
def outcome (x : Attempt S ε α) : Attempt S ε (Except ε α) := Prog.bind x fun r => .done (.ok r)

theorem pure_def (a : α) : (pure a : Attempt S ε α) = Prog.done (.ok a) := rfl

@[simp] theorem andThen_ok (f : α → Attempt S ε β) (a : α) : andThen f (.ok a) = f a := rfl

@[simp] theorem andThen_error (f : α → Attempt S ε β) (e : ε) :
    andThen f (.error e) = .done (.error e) := rfl

theorem bind_assoc {γ : Type} (x : Attempt S ε α) (f : α → Attempt S ε β)
    (g : β → Attempt S ε γ) : (x >>= f) >>= g = x >>= fun a => f a >>= g := by
  refine (Prog.bind_assoc (x : Prog S (Except ε α)) (andThen f) (andThen g)).trans ?_
  refine congrArg (Prog.bind (x : Prog S (Except ε α))) (funext fun r => ?_)
  cases r with
  | ok a => rfl
  | error e => rfl

/-- Every value of the attempt is in `A`. -/
def Returns (A : α → Prop) (x : Attempt S ε α) : Prop :=
  Prog.Yields (fun r => ∀ a, r = .ok a → A a) x

theorem Returns.pure {A : α → Prop} {a : α} (h : A a) :
    Returns A (pure a : Attempt S ε α) := by
  rintro _ hb
  cases hb
  exact h

theorem Returns.error {A : α → Prop} (e : ε) : Returns A (throw e : Attempt S ε α) :=
  fun _ h => nomatch h

theorem Returns.trivial (x : Attempt S ε α) : Returns (fun _ => True) x :=
  (Prog.Yields.trivial (x : Prog S (Except ε α))).mono fun _ _ _ _ => True.intro

theorem Returns.bind {A : α → Prop} {B : β → Prop} {x : Attempt S ε α} {f : α → Attempt S ε β}
    (hx : Returns A x) (hf : ∀ a, A a → Returns B (f a)) : Returns B (x >>= f) := by
  refine Prog.Yields.bind hx fun r hr => ?_
  cases r with
  | ok a => exact hf a (hr a rfl)
  | error e => exact fun _ h => nomatch h

theorem Returns.ite {A : α → Prop} {c : Prop} [Decidable c] {x y : Attempt S ε α}
    (hx : c → Returns A x) (hy : ¬c → Returns A y) : Returns A (if c then x else y) := by
  split
  · exact hx ‹c›
  · exact hy ‹¬c›

end Attempt

theorem except_bind_ok {x : Except ε α} {f : α → Except ε β} {b : β} (h : x >>= f = .ok b) :
    ∃ a, x = .ok a ∧ f a = .ok b := by
  cases x with
  | error e => cases h
  | ok a => exact ⟨a, rfl, h⟩

theorem except_bind_error {x : Except ε α} {f : α → Except ε β} {e : ε} (h : x >>= f = .error e) :
    x = .error e ∨ ∃ a, x = .ok a ∧ f a = .error e := by
  cases x with
  | error e' =>
    cases h
    exact .inl rfl
  | ok a => exact .inr ⟨a, rfl, h⟩

end Interaction
