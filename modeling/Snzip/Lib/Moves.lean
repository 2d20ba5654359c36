import Mathlib.Data.List.Pairwise
import Mathlib.Data.List.Perm.Basic
import Mathlib.Logic.Function.Basic

set_option autoImplicit false

/-!
# Files that are moved

A store has a content under some of its names. A move makes a file under one name out of the file
under another, which it deletes or keeps. Moves whose names are apart may be made in any order, and
they can be undone.

* `Move`, `Move.apply`, `Move.applyAll`; `Move.Apart`: no name in common;
* **`applyAll_perm`**: the order of moves that are apart does not matter;
* `applyAll_dst`, `applyAll_src`, **`applyAll_untouched`**: the store after moves, name by name;
* **`applyAll_undo`**: moving everything back restores the store.
-/

namespace CProg

/-- The file `made` is put under the name `dst`, made from the file `src`. -/
structure Move (ι β : Type) where
  src : ι
  dst : ι
  made : β

namespace Move

variable {ι β : Type}

/-- No name of one move is a name of the other. -/
structure Apart (m m' : Move ι β) : Prop where
  srcs : m.src ≠ m'.src
  dsts : m.dst ≠ m'.dst
  ahead : m.dst ≠ m'.src
  behind : m.src ≠ m'.dst

instance : Std.Symm (@Apart ι β) where
  symm _ _ h := ⟨h.srcs.symm, h.dsts.symm, h.behind.symm, h.ahead.symm⟩

/-- The move back, to the content that was there. -/
def back (x : Move ι β → β) (m : Move ι β) : Move ι β := ⟨m.dst, m.src, x m⟩

theorem pairwise_back {ms : List (Move ι β)} (x : Move ι β → β) (h : ms.Pairwise Apart) :
    (ms.map (back x)).Pairwise Apart :=
  List.pairwise_map.mpr (h.imp fun hm => ⟨hm.dsts, hm.srcs, hm.behind, hm.ahead⟩)

variable [DecidableEq ι]

/-- The files after a move. -/
def apply (keep : Bool) (files : ι → Option β) (m : Move ι β) : ι → Option β :=
  if keep then Function.update files m.dst (some m.made)
  else Function.update (Function.update files m.dst (some m.made)) m.src none

/-- One move after the other. -/
def applyAll (keep : Bool) (files : ι → Option β) (ms : List (Move ι β)) : ι → Option β :=
  ms.foldl (apply keep) files

section One

variable (keep : Bool) (files : ι → Option β) (m : Move ι β)

theorem apply_dst (h : m.dst ≠ m.src) : apply keep files m m.dst = some m.made := by
  cases keep with
  | true => exact Function.update_self ..
  | false =>
    rw [apply, if_neg Bool.false_ne_true, Function.update_of_ne h, Function.update_self]

theorem apply_src : apply false files m m.src = none := Function.update_self ..

theorem apply_untouched {i : ι} (hdst : i ≠ m.dst) (hsrc : keep = true ∨ i ≠ m.src) :
    apply keep files m i = files i := by
  cases keep with
  | true => exact Function.update_of_ne hdst ..
  | false =>
    have hsrc : i ≠ m.src := hsrc.resolve_left Bool.false_ne_true
    rw [apply, if_neg Bool.false_ne_true, Function.update_of_ne hsrc, Function.update_of_ne hdst]

theorem apply_comm {m m' : Move ι β} (h : Apart m m') :
    apply keep (apply keep files m) m' = apply keep (apply keep files m') m := by
  cases keep with
  | true => exact Function.update_comm h.dsts ..
  | false =>
    simp only [apply, Bool.false_eq_true, if_false]
    rw [Function.update_comm h.behind, Function.update_comm h.srcs, Function.update_comm h.dsts,
      Function.update_comm h.ahead]

end One

section All

variable {keep : Bool} {files : ι → Option β} {ms : List (Move ι β)}

@[simp] theorem applyAll_nil (keep : Bool) (files : ι → Option β) :
    applyAll keep files [] = files := rfl

theorem applyAll_cons (m : Move ι β) (ms : List (Move ι β)) :
    applyAll keep files (m :: ms) = applyAll keep (apply keep files m) ms := rfl

/-- **The order of moves that are apart does not matter.** -/
theorem applyAll_perm {ms' : List (Move ι β)} (hp : ms.Perm ms') (h : ms.Pairwise Apart) :
    applyAll keep files ms = applyAll keep files ms' := by
  refine hp.foldl_eq' (fun m hm m' hm' fs => ?_) files
  by_cases he : m = m'
  · rw [he]
  · exact apply_comm keep fs (h.forall hm hm' he)

/-- **What no move touches** stays as it is. -/
theorem applyAll_untouched {i : ι} (h : ∀ m ∈ ms, i ≠ m.dst ∧ (keep = true ∨ i ≠ m.src)) :
    applyAll keep files ms i = files i := by
  induction ms generalizing files with
  | nil => rfl
  | cons m ms ih =>
    obtain ⟨hdst, hsrc⟩ := h m List.mem_cons_self
    rw [applyAll_cons, ih fun m hm => h m (List.mem_cons_of_mem _ hm),
      apply_untouched keep files m hdst hsrc]

theorem applyAll_dst (h : ms.Pairwise Apart) {m : Move ι β} (hm : m ∈ ms) (hne : m.dst ≠ m.src) :
    applyAll keep files ms m.dst = some m.made := by
  induction ms generalizing files with
  | nil => cases hm
  | cons m₀ ms ih =>
    obtain ⟨h₀, h⟩ := List.pairwise_cons.mp h
    rw [applyAll_cons]
    rcases List.mem_cons.mp hm with rfl | hm
    · rw [applyAll_untouched fun m' hm' => ⟨(h₀ m' hm').dsts, Or.inr (h₀ m' hm').ahead⟩,
        apply_dst keep files m hne]
    · exact ih h hm

theorem applyAll_src (h : ms.Pairwise Apart) {m : Move ι β} (hm : m ∈ ms) :
    applyAll false files ms m.src = none := by
  induction ms generalizing files with
  | nil => cases hm
  | cons m₀ ms ih =>
    obtain ⟨h₀, h⟩ := List.pairwise_cons.mp h
    rw [applyAll_cons]
    rcases List.mem_cons.mp hm with rfl | hm
    · rw [applyAll_untouched fun m' hm' => ⟨(h₀ m' hm').behind, Or.inr (h₀ m' hm').srcs⟩,
        apply_src files m]
    · exact ih h hm

/-- **Moving everything back restores the store**, if the files were there and their new names were
free. -/
theorem applyAll_undo (h : ms.Pairwise Apart) {x : Move ι β → β}
    (hx : ∀ m ∈ ms, m.dst ≠ m.src ∧ files m.src = some (x m) ∧ files m.dst = none) :
    applyAll false (applyAll false files ms) (ms.map (back x)) = files := by
  have hback := pairwise_back x h
  funext i
  by_cases hi : ∃ m ∈ ms, i = m.src ∨ i = m.dst
  · obtain ⟨m, hm, rfl | rfl⟩ := hi
    · rw [(hx m hm).2.1]
      exact applyAll_dst hback (List.mem_map_of_mem hm) (hx m hm).1.symm
    · rw [(hx m hm).2.2]
      exact applyAll_src hback (List.mem_map_of_mem hm)
  · have huntouched : ∀ m ∈ ms, i ≠ m.src ∧ i ≠ m.dst := by
      intro m hm
      exact ⟨fun he => hi ⟨m, hm, Or.inl he⟩, fun he => hi ⟨m, hm, Or.inr he⟩⟩
    rw [applyAll_untouched, applyAll_untouched]
    · intro m hm
      exact ⟨(huntouched m hm).2, Or.inr (huntouched m hm).1⟩
    · intro m' hm'
      obtain ⟨m, hm, rfl⟩ := List.mem_map.mp hm'
      exact (huntouched m hm).imp id Or.inr

end All

end Move

end CProg
