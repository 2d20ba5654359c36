import Mathlib.Data.List.Basic
import Mathlib.Data.Nat.Init

set_option autoImplicit false

/-!
# Lists made of records

A file format is often a list of records, one after the other.

* `Records`: a list cut into records that each have a content;
* `prefix_append`, **`prefix_flatten`**: a prefix of a concatenation ends between two parts or
  inside one; `cut_unique`: there is one place where it does.
-/

namespace CProg

variable {α β : Type}

/-- The list consists of records, one after the other, with these contents. -/
inductive Records (B : List α → β → Prop) : List α → List β → Prop
  | nil : Records B [] []
  | cons {b c s cs} (h : B b c) (ht : Records B s cs) : Records B (b ++ s) (c :: cs)

namespace Records

variable {B : List α → β → Prop}

theorem single {b : List α} {c : β} (h : B b c) : Records B b [c] := by
  have := Records.cons h .nil
  rwa [List.append_nil] at this

theorem append {s t : List α} {cs ds : List β} (hs : Records B s cs) (ht : Records B t ds) :
    Records B (s ++ t) (cs ++ ds) := by
  induction hs with
  | nil => exact ht
  | cons h _ ih =>
    rw [List.append_assoc]
    exact .cons h ih

theorem map {γ : Type} {C : List α → γ → Prop} (f : β → γ) (h : ∀ b c, B b c → C b (f c))
    {s : List α} {cs : List β} (hs : Records B s cs) : Records C s (cs.map f) := by
  induction hs with
  | nil => exact .nil
  | cons hb _ ih => exact .cons (h _ _ hb) ih

theorem forall_mem {P : β → Prop} (hB : ∀ b c, B b c → P c) {s : List α} {cs : List β}
    (hs : Records B s cs) : ∀ c ∈ cs, P c := by
  induction hs with
  | nil => simp
  | cons h _ ih => exact List.forall_mem_cons.mpr ⟨hB _ _ h, ih⟩

end Records

theorem prefix_append {a b p t : List α} (h : p ++ t = a ++ b) :
    (∃ u, u ≠ [] ∧ a = p ++ u) ∨ ∃ q, p = a ++ q ∧ q ++ t = b := by
  rcases List.append_eq_append_iff.mp h with ⟨u, ha, ht⟩ | ⟨q, hp, hb⟩
  · by_cases hu : u = []
    · exact Or.inr ⟨[], by rw [ha, hu, List.append_nil, List.append_nil],
        by rw [ht, hu]; rfl⟩
    · exact Or.inl ⟨u, hu, ha⟩
  · exact Or.inr ⟨q, hp, hb.symm⟩

/-- **Where a prefix of a concatenation ends**: between two parts, or inside one of them. -/
theorem prefix_flatten {l : List (List α)} {p t : List α} (h : p ++ t = l.flatten) :
    (∃ a b, l = a ++ b ∧ p = a.flatten ∧ t = b.flatten) ∨
      ∃ a q u b, l = a ++ (q ++ u) :: b ∧ q ≠ [] ∧ u ≠ [] ∧ p = a.flatten ++ q := by
  induction l generalizing p with
  | nil =>
    obtain ⟨rfl, rfl⟩ := List.append_eq_nil_iff.mp h
    exact Or.inl ⟨[], [], rfl, rfl, rfl⟩
  | cons x l ih =>
    rw [List.flatten_cons] at h
    rcases prefix_append h with ⟨u, hu, hx⟩ | ⟨q, rfl, hl⟩
    · -- the prefix ends in the first part
      by_cases hpn : p = []
      · refine Or.inl ⟨[], x :: l, rfl, hpn, ?_⟩
        rw [hpn, List.nil_append] at h
        rw [h, List.flatten_cons]
      · exact Or.inr ⟨[], p, u, l, by rw [hx]; rfl, hpn, hu, rfl⟩
    · rcases ih hl with ⟨a, b, rfl, rfl, ht⟩ | ⟨a, q, u, b, rfl, hq, hu, rfl⟩
      · exact Or.inl ⟨x :: a, b, rfl, rfl, ht⟩
      · exact Or.inr ⟨x :: a, q, u, b, rfl, hq, hu,
          by rw [List.flatten_cons, List.append_assoc]⟩

/-- **There is one place where a prefix ends**: `q` and `q'` are beginnings of the next part. -/
theorem cut_unique {e : β → List α} {a b a' b' : List β} {q q' : List α} (h : a ++ b = a' ++ b')
    (hq : ∀ d ∈ b.head?, q.length < (e d).length) (hq' : ∀ d ∈ b'.head?, q'.length < (e d).length)
    (heq : a.flatMap e ++ q = a'.flatMap e ++ q') : a = a' ∧ q = q' := by
  rcases List.append_eq_append_iff.mp h with ⟨c, rfl, rfl⟩ | ⟨c, rfl, rfl⟩
  · cases c with
    | nil =>
      rw [List.append_nil] at heq
      exact ⟨(List.append_nil a).symm, List.append_cancel_left heq⟩
    | cons d c =>
      rw [List.flatMap_append, List.append_assoc] at heq
      have hlen := congrArg List.length (List.append_cancel_left heq)
      have hlt := hq d rfl
      rw [List.flatMap_cons, List.append_assoc, List.length_append] at hlen
      omega
  · cases c with
    | nil =>
      rw [List.append_nil] at heq
      exact ⟨List.append_nil a', List.append_cancel_left heq⟩
    | cons d c =>
      rw [List.flatMap_append, List.append_assoc] at heq
      have hlen := congrArg List.length (List.append_cancel_left heq)
      have hlt := hq' d rfl
      rw [List.flatMap_cons, List.append_assoc, List.length_append] at hlen
      omega

end CProg
