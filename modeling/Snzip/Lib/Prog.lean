import Mathlib.Data.Nat.Init
import Mathlib.Data.List.Basic

set_option autoImplicit false

/-!
# Programs over a state, with `exit`

A program of type `Prog σ α` runs on a state `σ`. It returns a value, ends the process by `exit`,
or never ends. Loops carry a measure: `loop μ body` allows `μ + 1` passes, and when every pass that
goes round again lowers `μ` this bound is never met.

* `Outcome`, `Prog`: runs and programs, `bind_apply` and `pure_apply` for stepping through them;
* `passes`, `loop`, `Lowers`: bounded passes, loops, and the invariant with the measure condition;
* **`loop_inl`**, **`loop_inr`**, `loop_exit`: one unrolling of a loop, without fuel.
-/

namespace CProg

/-- How a run ends. -/
inductive Outcome (σ α : Type) where
  | ret (a : α) (s : σ)
  | exit (code : ℕ) (s : σ)
  | diverge
  deriving DecidableEq

/-- A program: a function from the state before to the outcome. -/
def Prog (σ α : Type) : Type := σ → Outcome σ α

namespace Outcome

variable {σ ρ α β : Type}

/-- Go on after a run that returned. -/
def bind (r : Outcome σ α) (f : α → Prog σ β) : Outcome σ β :=
  match r with
  | ret a s => f a s
  | exit c s => exit c s
  | diverge => diverge

@[simp] theorem bind_ret (a : α) (s : σ) (f : α → Prog σ β) : (ret a s).bind f = f a s := rfl

@[simp] theorem bind_exit (c : ℕ) (s : σ) (f : α → Prog σ β) :
    (exit c s : Outcome σ α).bind f = exit c s := rfl

@[simp] theorem bind_diverge (f : α → Prog σ β) :
    (diverge : Outcome σ α).bind f = diverge := rfl

/-- The same run, with only part of the state kept. -/
def view (g : σ → ρ) : Outcome σ α → Outcome ρ α
  | ret a s => ret a (g s)
  | exit c s => exit c (g s)
  | diverge => diverge

@[simp] theorem view_ret (g : σ → ρ) (a : α) (s : σ) : (ret a s).view g = ret a (g s) := rfl

@[simp] theorem view_exit (g : σ → ρ) (c : ℕ) (s : σ) :
    (exit c s : Outcome σ α).view g = exit c (g s) := rfl

@[simp] theorem view_diverge (g : σ → ρ) : (diverge : Outcome σ α).view g = diverge := rfl

theorem view_eq_ret {g : σ → ρ} {r : Outcome σ α} {a : α} {t : ρ} :
    r.view g = ret a t ↔ ∃ s, r = ret a s ∧ g s = t := by
  cases r <;> simp

end Outcome

variable {σ τ α β : Type}

instance : Monad (Prog σ) where
  pure a := fun s => .ret a s
  bind m f := fun s => (m s).bind f

@[simp] theorem pure_apply (a : α) (s : σ) : (pure a : Prog σ α) s = .ret a s := rfl

@[simp] theorem bind_apply (m : Prog σ α) (f : α → Prog σ β) (s : σ) :
    (m >>= f) s = (m s).bind f := rfl

@[simp] theorem ite_prog (c : Prop) [Decidable c] (m n : Prog σ α) (s : σ) :
    (if c then m else n) s = if c then m s else n s := by split <;> rfl

/-- End the process. -/
def exit (code : ℕ) : Prog σ α := fun s => .exit code s

/-- Never end. -/
def diverge : Prog σ α := fun _ => .diverge

@[simp] theorem exit_apply (code : ℕ) (s : σ) : (exit code : Prog σ α) s = .exit code s := rfl

@[simp] theorem diverge_apply (s : σ) : (diverge : Prog σ α) s = .diverge := rfl

/-! ## Loops -/

/-- At most `n` passes: a pass goes round again (`inl`) or leaves the loop (`inr`). -/
def passes (body : τ → Prog σ (τ ⊕ α)) : ℕ → τ → Prog σ α
  | 0, _ => diverge
  | n + 1, t => do
    match ← body t with
    | .inl t' => passes body n t'
    | .inr a => pure a

/-- A loop with as many passes as its measure allows. -/
def loop (μ : τ → σ → ℕ) (body : τ → Prog σ (τ ⊕ α)) (t : τ) : Prog σ α :=
  fun s => passes body (μ t s + 1) t s

/-- A pass that goes round again keeps the invariant `I` and lowers the measure. -/
def Lowers (I : τ → σ → Prop) (μ : τ → σ → ℕ) (body : τ → Prog σ (τ ⊕ α)) : Prop :=
  ∀ t s t' s', I t s → body t s = .ret (.inl t') s' → I t' s' ∧ μ t' s' < μ t s

variable {I : τ → σ → Prop} {μ : τ → σ → ℕ} {body : τ → Prog σ (τ ⊕ α)}

theorem passes_succ (n : ℕ) (t : τ) (s : σ) :
    passes body (n + 1) t s =
      (body t s).bind fun r => match r with
        | .inl t' => passes body n t'
        | .inr a => fun s' => .ret a s' := by
  simp only [passes, bind_apply]
  cases body t s with
  | ret r s' => cases r <;> rfl
  | exit c s' => rfl
  | diverge => rfl

theorem passes_mono {m n : ℕ} (hmn : m ≤ n) {t : τ} {s s' : σ} {a : α}
    (h : passes body m t s = .ret a s') : passes body n t s = .ret a s' := by
  induction m generalizing n t s with
  | zero => cases h
  | succ m ih =>
    obtain ⟨n, rfl⟩ : ∃ k, n = k + 1 := ⟨n - 1, by omega⟩
    rw [passes_succ] at h ⊢
    cases hb : body t s with
    | ret r s₁ =>
      rw [hb, Outcome.bind_ret] at h
      rw [Outcome.bind_ret]
      cases r with
      | inl t' => exact ih (by omega) h
      | inr a' => exact h
    | exit c s₁ =>
      rw [hb] at h
      cases h
    | diverge =>
      rw [hb] at h
      cases h

/-- **Enough passes are as good as any larger number.** -/
theorem passes_eq (h : Lowers I μ body) {m n : ℕ} {t : τ} {s : σ} (hI : I t s) (hm : μ t s < m)
    (hn : μ t s < n) : passes body m t s = passes body n t s := by
  induction m generalizing n t s with
  | zero => omega
  | succ m ih =>
    obtain ⟨n, rfl⟩ : ∃ k, n = k + 1 := ⟨n - 1, by omega⟩
    rw [passes_succ, passes_succ]
    cases hb : body t s with
    | ret r s' =>
      cases r with
      | inl t' =>
        obtain ⟨hI', hlt⟩ := h t s t' s' hI hb
        exact ih hI' (by omega) (by omega)
      | inr a => rfl
    | exit c s' => rfl
    | diverge => rfl

theorem loop_inl (h : Lowers I μ body) {t t' : τ} {s s' : σ} (hI : I t s)
    (hb : body t s = .ret (.inl t') s') : loop μ body t s = loop μ body t' s' := by
  obtain ⟨hI', hlt⟩ := h t s t' s' hI hb
  unfold loop
  rw [passes_succ, hb]
  exact passes_eq h hI' hlt (Nat.lt_succ_self _)

theorem loop_inr {t : τ} {s s' : σ} {a : α} (hb : body t s = .ret (.inr a) s') :
    loop μ body t s = .ret a s' := by
  unfold loop
  rw [passes_succ, hb]
  rfl

theorem loop_exit {t : τ} {s s' : σ} {c : ℕ} (hb : body t s = .exit c s') :
    loop μ body t s = .exit c s' := by
  unfold loop
  rw [passes_succ, hb]
  rfl

end CProg
