import Snzip.Lib.Prog

set_option autoImplicit false

/-!
# Programs that keep a log

What a program asks for in the middle of a run is not in its result. A twin of the program that
writes it into a log shows it, if the log is all that sets the two apart.

* `Ensures`: what holds when a program returns or ends the process; **`Ensures.bind`**,
  **`ensures_loop`**;
* `Logged`, `quiet`, `record`: states with a log;
* `Forgets`: without its log the one program is the other; **`Forgets.bind`**, **`forgets_loop`**;
* `EachLogged`, `Keeps`, **`keeps_loop`**: what each entry of a log satisfies;
* `Outcome.Ends`, **`Forgets.ends`**: what a run that comes to an end has in its log.
-/

namespace CProg

variable {σ ε τ α β : Type}

/-! ## What a program ensures -/

/-- `Q` holds of a run that returned, and `E` of one that ended the process. -/
def Outcome.Holds (Q : α → σ → Prop) (E : σ → Prop) : Outcome σ α → Prop
  | ret a s => Q a s
  | exit _ s => E s
  | diverge => True

/-- From a state with `P` on, the program returns with `Q` or ends the process with `E`, if it comes
to an end at all. -/
def Ensures (P : σ → Prop) (m : Prog σ α) (Q : α → σ → Prop) (E : σ → Prop) : Prop :=
  ∀ s, P s → (m s).Holds Q E

section Rules

variable {P P' : σ → Prop} {m n : Prog σ α} {f : α → Prog σ β} {Q Q' : α → σ → Prop}
  {R : β → σ → Prop} {E : σ → Prop}

theorem Ensures.mono (h : Ensures P m Q E) (hP : ∀ s, P' s → P s) (hQ : ∀ a s, Q a s → Q' a s) :
    Ensures P' m Q' E := by
  intro s hs
  have hm := h s (hP s hs)
  generalize m s = r at hm ⊢
  cases r with
  | ret a t => exact hQ a t hm
  | exit c t => exact hm
  | diverge => trivial

theorem ensures_pure {a : α} (h : ∀ s, P s → Q a s) : Ensures P (pure a) Q E := h

theorem ensures_any (m : Prog σ α) : Ensures P m (fun _ _ => True) fun _ => True := by
  intro s _
  cases m s <;> trivial

/-- **One program after the other.** -/
theorem Ensures.bind (hm : Ensures P m Q E) (hf : ∀ a, Ensures (Q a) (f a) R E) :
    Ensures P (m >>= f) R E := by
  intro s hs
  have h := hm s hs
  rw [bind_apply]
  generalize m s = r at h ⊢
  cases r with
  | ret a t => exact hf a t h
  | exit c t => exact h
  | diverge => trivial

theorem ensures_ite {c : Prop} [Decidable c] (h : c → Ensures P m Q E)
    (h' : ¬ c → Ensures P n Q E) : Ensures P (if c then m else n) Q E := by
  split
  · next hc => exact h hc
  · next hc => exact h' hc

variable {J : τ → σ → Prop} {μ : τ → σ → ℕ} {body : τ → Prog σ (τ ⊕ α)}

theorem ensures_passes
    (h : ∀ t, Ensures (J t) (body t) (fun r s => r.elim (fun t' => J t' s) fun a => Q a s) E)
    (k : ℕ) (t : τ) : Ensures (J t) (passes body k t) Q E := by
  induction k generalizing t with
  | zero => exact fun _ _ => trivial
  | succ k ih =>
    rw [passes]
    refine (h t).bind fun r => ?_
    cases r with
    | inl t' => exact ih t'
    | inr a => exact ensures_pure fun _ hs => hs

/-- **A loop**: the invariant `J` holds before each pass. -/
theorem ensures_loop
    (h : ∀ t, Ensures (J t) (body t) (fun r s => r.elim (fun t' => J t' s) fun a => Q a s) E)
    (t : τ) : Ensures (J t) (loop μ body t) Q E :=
  fun s hs => ensures_passes h (μ t s + 1) t s hs

end Rules

/-! ## Logs -/

/-- A state with a log. -/
structure Logged (σ ε : Type) where
  state : σ
  log : List ε

/-- A program that leaves the log as it is. -/
def quiet (m : Prog σ α) : Prog (Logged σ ε) α := fun s => (m s.state).view fun t => ⟨t, s.log⟩

/-- Write into the log. -/
def record (e : ε) : Prog (Logged σ ε) Unit := fun s => .ret () ⟨s.state, s.log ++ [e]⟩

@[simp] theorem record_apply (e : ε) (s : Logged σ ε) :
    record e s = .ret () ⟨s.state, s.log ++ [e]⟩ := rfl

theorem quiet_apply (m : Prog σ α) (s : Logged σ ε) :
    quiet m s = (m s.state).view fun t => ⟨t, s.log⟩ := rfl

/-- Without its log the program is `m`. -/
def Forgets (m' : Prog (Logged σ ε) α) (m : Prog σ α) : Prop :=
  ∀ s, (m' s).view Logged.state = m s.state

section Forgets

variable {m' n' : Prog (Logged σ ε) α} {m n : Prog σ α} {f' : α → Prog (Logged σ ε) β}
  {f : α → Prog σ β}

theorem forgets_quiet (m : Prog σ α) : Forgets (quiet m : Prog (Logged σ ε) α) m := by
  intro s
  rw [quiet]
  cases m s.state <;> rfl

theorem forgets_pure (a : α) : Forgets (pure a : Prog (Logged σ ε) α) (pure a) := fun _ => rfl

/-- **One program after the other.** -/
theorem Forgets.bind (hm : Forgets m' m) (hf : ∀ a, Forgets (f' a) (f a)) :
    Forgets (m' >>= f') (m >>= f) := by
  intro s
  have h := hm s
  rw [bind_apply, bind_apply, ← h]
  cases m' s with
  | ret a t => exact hf a t
  | exit c t => rfl
  | diverge => rfl

theorem Forgets.bind_pure {a : α} {n : Prog σ β} (hm : Forgets m' (pure a))
    (hf : Forgets (f' a) n) : Forgets (m' >>= f') n := by
  intro s
  have h := hm s
  rw [bind_apply]
  cases hr : m' s with
  | ret b t =>
    rw [hr, Outcome.view_ret, pure_apply, Outcome.ret.injEq] at h
    obtain ⟨rfl, hs⟩ := h
    rw [← hs]
    exact hf t
  | exit c t => rw [hr] at h; cases h
  | diverge => rw [hr] at h; cases h

theorem Forgets.record (hm : Forgets m' m) (e : ε) : Forgets (do record e; m') m :=
  fun s => hm ⟨s.state, s.log ++ [e]⟩

theorem forgets_ite {c : Prop} [Decidable c] (hm : Forgets m' m) (hn : Forgets n' n) :
    Forgets (if c then m' else n') (if c then m else n) := by
  split
  · exact hm
  · exact hn

variable {μ : τ → σ → ℕ} {body' : τ → Prog (Logged σ ε) (τ ⊕ α)} {body : τ → Prog σ (τ ⊕ α)}

theorem forgets_passes (h : ∀ t, Forgets (body' t) (body t)) (k : ℕ) (t : τ) :
    Forgets (passes body' k t) (passes body k t) := by
  induction k generalizing t with
  | zero => exact fun _ => rfl
  | succ k ih =>
    rw [passes, passes]
    refine (h t).bind fun r => ?_
    cases r with
    | inl t' => exact ih t'
    | inr a => exact forgets_pure a

/-- **A loop whose measure does not look at the log.** -/
theorem forgets_loop (h : ∀ t, Forgets (body' t) (body t)) (t : τ) :
    Forgets (loop (fun t s => μ t s.state) body' t) (loop μ body t) :=
  fun s => forgets_passes h (μ t s.state + 1) t s

theorem Forgets.lowers {I : τ → σ → Prop} (h : ∀ t, Forgets (body' t) (body t))
    (hl : Lowers I μ body) :
    Lowers (fun t s => I t s.state) (fun t s => μ t s.state) body' := by
  intro t s t' s' hI hb
  have hs := h t s
  rw [hb, Outcome.view_ret] at hs
  exact hl t s.state t' s'.state hI hs.symm

end Forgets

/-! ## What is in a log -/

/-- Each entry of the log has the property. -/
def EachLogged (p : ε → Prop) (s : Logged σ ε) : Prop := ∀ e ∈ s.log, p e

variable {p : ε → Prop}

theorem eachLogged_nil (s : σ) : EachLogged p (⟨s, []⟩ : Logged σ ε) := by
  intro e he
  cases he

theorem ensures_quiet {P : σ → Prop} {m : Prog σ α} {Q : α → σ → Prop}
    (h : Ensures P m Q fun _ => True) :
    Ensures (fun s => P s.state ∧ EachLogged p s) (quiet m)
      (fun a s => Q a s.state ∧ EachLogged p s) (EachLogged p) := by
  rintro s ⟨hs, hp⟩
  have hm := h s.state hs
  rw [quiet]
  generalize m s.state = r at hm ⊢
  cases r with
  | ret a t => exact ⟨hm, hp⟩
  | exit c t => exact hp
  | diverge => trivial

/-- The program makes no other entries than those with the property, and returns a value with `Q`.
-/
def Keeps (p : ε → Prop) (m : Prog (Logged σ ε) α) (Q : α → Prop) : Prop :=
  Ensures (EachLogged p) m (fun a s => Q a ∧ EachLogged p s) (EachLogged p)

section Keeps

variable {m n : Prog (Logged σ ε) α} {f : α → Prog (Logged σ ε) β} {Q : α → Prop} {R : β → Prop}

theorem keeps_pure {a : α} (h : Q a) : Keeps p (pure a : Prog (Logged σ ε) α) Q :=
  ensures_pure fun _ hs => ⟨h, hs⟩

theorem Keeps.bind (hm : Keeps p m Q) (hf : ∀ a, Q a → Keeps p (f a) R) : Keeps p (m >>= f) R := by
  refine Ensures.bind hm fun a => ?_
  rintro s ⟨ha, hs⟩
  exact hf a ha s hs

theorem keeps_ite {c : Prop} [Decidable c] (h : c → Keeps p m Q) (h' : ¬ c → Keeps p n Q) :
    Keeps p (if c then m else n) Q := ensures_ite h h'

theorem keeps_quiet {m : Prog σ α} (h : Ensures (fun _ => True) m (fun a _ => Q a) fun _ => True) :
    Keeps p (quiet m) Q :=
  fun s hs => ensures_quiet h s ⟨trivial, hs⟩

theorem keeps_quiet_any (m : Prog σ α) : Keeps p (quiet m) fun _ => True :=
  keeps_quiet (ensures_any m)

theorem keeps_record {e : ε} (he : p e) :
    Keeps p (record e : Prog (Logged σ ε) Unit) fun _ => True := by
  intro s hs
  refine ⟨trivial, fun d hd => ?_⟩
  rcases List.mem_append.mp hd with hd | hd
  · exact hs d hd
  · rw [List.mem_singleton.mp hd]
    exact he

theorem Keeps.eachLogged (hm : Keeps p m Q) {s : Logged σ ε} (hs : EachLogged p s) :
    (m s).Holds (fun _ => EachLogged p) (EachLogged p) :=
  hm.mono (fun _ => id) (fun _ _ h => h.2) s hs

variable {T : τ → Prop} {μ : τ → Logged σ ε → ℕ} {body : τ → Prog (Logged σ ε) (τ ⊕ α)}

/-- **A loop** whose variables have the property `T` before each pass. -/
theorem keeps_loop (h : ∀ t, T t → Keeps p (body t) fun r => r.elim T Q) {t : τ} (ht : T t) :
    Keeps p (loop μ body t) Q := by
  refine (ensures_loop (J := fun t s => T t ∧ EachLogged p s) (fun t => ?_) t).mono
    (fun _ hs => ⟨ht, hs⟩) fun _ _ hs => hs
  rintro s ⟨ht, hs⟩
  have hb := h t ht s hs
  generalize body t s = r at hb ⊢
  cases r with
  | ret r s' => cases r <;> exact hb
  | exit c s' => exact hb
  | diverge => trivial

end Keeps

/-- The run comes to an end, in a state with the property. -/
def Outcome.Ends (P : σ → Prop) : Outcome σ α → Prop
  | ret _ s | exit _ s => P s
  | diverge => False

/-- **The log of a run**, if the program without the log comes to an end. -/
theorem Forgets.ends {m' : Prog (Logged σ ε) α} {m : Prog σ α} (hm : Forgets m' m)
    {P E : Logged σ ε → Prop} (h : Ensures P m' (fun _ => E) E) {s : Logged σ ε} (hs : P s)
    (hd : m s.state ≠ .diverge) : (m' s).Ends E := by
  have hholds := h s hs
  have hview := hm s
  generalize m' s = r at hholds hview ⊢
  cases r with
  | ret a t => exact hholds
  | exit c t => exact hholds
  | diverge => exact hd hview.symm

end CProg
