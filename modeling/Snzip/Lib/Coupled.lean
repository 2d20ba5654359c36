import Snzip.Lib.Prog

set_option autoImplicit false

/-!
# Two runs side by side

Two programs are coupled if from related states they go the same way: both return, with values and
states that are related again, or both exit with the same status, or neither ends. What the relation
does not compare, the programs do not depend on.

* `Alike`: two runs that end in the same way; `Coupled`: two programs all of whose runs do;
* **`Coupled.bind`**: programs one after the other, with the relation that holds in between;
* `Coupled.pure`, `Coupled.exit`, `Coupled.ite`: the other ways to make a program;
* `Alike.view`: what is the same of two states that are related is the same of the runs.
-/

namespace CProg

variable {σ τ ρ α β γ δ : Type}

/-- Two runs that end in the same way. -/
inductive Alike (E : σ → τ → Prop) (V : α → β → σ → τ → Prop) : Outcome σ α → Outcome τ β → Prop
  | ret {a b s t} (h : V a b s t) : Alike E V (.ret a s) (.ret b t)
  | exit {n s t} (h : E s t) : Alike E V (.exit n s) (.exit n t)
  | diverge : Alike E V .diverge .diverge

/-- From states related by `I` two programs return with what `V` relates, or they exit in states
related by `E`. -/
def Coupled (E : σ → τ → Prop) (I : σ → τ → Prop) (m : Prog σ α) (m' : Prog τ β)
    (V : α → β → σ → τ → Prop) : Prop :=
  ∀ s t, I s t → Alike E V (m s) (m' t)

section Coupled

variable {E I I' : σ → τ → Prop} {V : α → β → σ → τ → Prop} {W : γ → δ → σ → τ → Prop}
  {m : Prog σ α} {m' : Prog τ β}

theorem Alike.view {o : Outcome σ α} {o' : Outcome τ α} {f : σ → ρ} {f' : τ → ρ}
    {V : α → α → σ → τ → Prop} (h : Alike E V o o') (hE : ∀ s t, E s t → f s = f' t)
    (hV : ∀ a b s t, V a b s t → a = b ∧ f s = f' t) : o.view f = o'.view f' := by
  cases h with
  | ret h =>
    obtain ⟨rfl, hs⟩ := hV _ _ _ _ h
    exact congrArg (Outcome.ret _) hs
  | exit h => exact congrArg (Outcome.exit _) (hE _ _ h)
  | diverge => rfl

theorem Coupled.mono (h : Coupled E I m m' V) (hI : ∀ s t, I' s t → I s t) :
    Coupled E I' m m' V := fun s t hs => h s t (hI s t hs)

theorem Coupled.pure {a : α} {b : β} (h : ∀ s t, I s t → V a b s t) :
    Coupled E I (pure a) (pure b) V := fun s t hs => .ret (h s t hs)

theorem Coupled.exit {n : ℕ} (h : ∀ s t, I s t → E s t) :
    Coupled E I (CProg.exit n : Prog σ α) (CProg.exit n : Prog τ β) V :=
  fun s t hs => .exit (h s t hs)

/-- **Programs one after the other.** -/
theorem Coupled.bind {k : α → Prog σ γ} {k' : β → Prog τ δ} (hm : Coupled E I m m' V)
    (hk : ∀ a b, Coupled E (V a b) (k a) (k' b) W) : Coupled E I (m >>= k) (m' >>= k') W := by
  intro s t hs
  rw [bind_apply, bind_apply]
  generalize hr : m s = r, hr' : m' t = r'
  have hm := hm s t hs
  rw [hr, hr'] at hm
  cases hm with
  | ret h => exact hk _ _ _ _ h
  | exit h => exact .exit h
  | diverge => exact .diverge

theorem Coupled.ite {c : Prop} [Decidable c] {k : Prog σ α} {k' : Prog τ β}
    (hm : c → Coupled E I m m' V) (hk : ¬ c → Coupled E I k k' V) :
    Coupled E I (if c then m else k) (if c then m' else k') V := by
  by_cases h : c
  · rw [if_pos h, if_pos h]
    exact hm h
  · rw [if_neg h, if_neg h]
    exact hk h

end Coupled

end CProg
