import Mathlib.Data.Set.Finite.Lattice
import Snzip.Io

set_option autoImplicit false

/-!
# `write_full` under short writes

`write(2)` may take fewer bytes than it is given, or be interrupted. `write_full` goes on until all
bytes are taken, and returns their number as an `int`.

* `WriteStep`, `Descriptor`, `writeScheduled`: a descriptor with what becomes of its writes;
* **`writeFull_scheduled`**: the loop ends with all bytes taken, whatever their number;
* `WritesAll`, **`writesAll_iff`**: its caller sees the number of bytes below 2 ^ 31 only;
  `not_writesAll`: the smallest number that is too large.
-/

namespace Snzip

open CProg

/-! ## The descriptor -/

/-- What becomes of a call of `write(2)`: it is interrupted, or takes at most one byte more than
`n`. -/
inductive WriteStep where
  | eintr
  | upTo (n : ℕ)

/-- The bytes that a descriptor has taken, and what becomes of the calls to come. -/
structure Descriptor where
  accepted : Bytes
  schedule : ℕ → WriteStep

/-- How many of `count` bytes are taken: never more than an `int` holds. -/
def writeCount (n count : ℕ) : ℕ := min (n + 1) (min count (2 ^ 31 - 1))

/-- `write(2)`. -/
def writeScheduled (bs : Bytes) : Prog Descriptor WriteResult := fun d =>
  match d.schedule 0 with
  | .eintr => .ret .eintr { d with schedule := fun i => d.schedule (i + 1) }
  | .upTo n => .ret (.took (writeCount n bs.length))
      ⟨d.accepted ++ bs.take (writeCount n bs.length), fun i => d.schedule (i + 1)⟩

/-- `write_full` on such a descriptor, with a bound on the passes of its loop. -/
def writeFullScheduled (fuel : ℕ) (bs : Bytes) : Prog Descriptor (BitVec 32) :=
  passes (writeFullPass writeScheduled) fuel (bs, 0)

/-! ## The loop -/

section Loop

variable {bs acc : Bytes} {schedule : ℕ → WriteStep} {done : ℕ}

theorem writeCount_bounds (n : ℕ) (hne : bs ≠ []) :
    0 < writeCount n bs.length ∧ writeCount n bs.length ≤ bs.length := by
  have hpos := List.length_pos_iff.mpr hne
  unfold writeCount
  omega

theorem pass_eintr (hne : bs ≠ []) (h : schedule 0 = .eintr) :
    writeFullPass writeScheduled (bs, done) ⟨acc, schedule⟩ =
      .ret (.inl (bs, done)) ⟨acc, fun i => schedule (i + 1)⟩ := by
  simp [writeFullPass, hne, writeScheduled, h]

theorem pass_upTo (hne : bs ≠ []) {n : ℕ} (h : schedule 0 = .upTo n) :
    writeFullPass writeScheduled (bs, done) ⟨acc, schedule⟩ =
      .ret (.inl (bs.drop (writeCount n bs.length), done + writeCount n bs.length))
        ⟨acc ++ bs.take (writeCount n bs.length), fun i => schedule (i + 1)⟩ := by
  simp [writeFullPass, hne, writeScheduled, h]

/-- The bytes that are left and the calls that may still be interrupted bound the passes: each pass
takes a byte or comes after one of these calls. -/
theorem writeFull_passes {N k : ℕ} (hN : ∀ i, N ≤ i → schedule i ≠ .eintr)
    (hk : bs.length + N ≤ k) :
    ∃ d, passes (writeFullPass writeScheduled) (k + 1) (bs, done) ⟨acc, schedule⟩ =
        .ret (BitVec.ofNat 32 (done + bs.length)) d ∧ d.accepted = acc ++ bs := by
  induction k generalizing bs acc schedule done N with
  | zero =>
    have hnil : bs = [] := List.length_eq_zero_iff.mp (by omega)
    exact ⟨⟨acc, schedule⟩, by simp [hnil, passes_succ, writeFullPass], by simp [hnil]⟩
  | succ k ih =>
    by_cases hne : bs = []
    · exact ⟨⟨acc, schedule⟩, by simp [hne, passes_succ, writeFullPass], by simp [hne]⟩
    have hlater : ∀ i, N - 1 ≤ i → schedule (i + 1) ≠ .eintr := fun i hi => hN _ (by omega)
    rw [passes_succ]
    cases h : schedule 0 with
    | eintr =>
      have hpos : 0 < N := by
        by_contra hzero
        exact hN 0 (by omega) h
      rw [pass_eintr hne h, Outcome.bind_ret]
      exact ih hlater (by omega)
    | upTo n =>
      obtain ⟨hpos, hle⟩ := writeCount_bounds n hne
      rw [pass_upTo hne h, Outcome.bind_ret]
      obtain ⟨d, hrun, hd⟩ := @ih (bs.drop (writeCount n bs.length))
        (acc ++ bs.take (writeCount n bs.length)) _ (done + writeCount n bs.length) _ hlater
        (by rw [List.length_drop]; omega)
      rw [List.length_drop, Nat.add_assoc, Nat.add_sub_cancel' hle] at hrun
      exact ⟨d, hrun, by rw [hd, List.append_assoc, List.take_append_drop]⟩

/-- **The loop ends, and all bytes have been taken in their order**, once each. -/
theorem writeFull_scheduled (hfin : {i | schedule i = .eintr}.Finite) (bs acc : Bytes) :
    ∃ fuel d, writeFullScheduled fuel bs ⟨acc, schedule⟩ = .ret (BitVec.ofNat 32 bs.length) d ∧
      d.accepted = acc ++ bs := by
  obtain ⟨N, hN⟩ := hfin.bddAbove
  have hlast : ∀ i, N + 1 ≤ i → schedule i ≠ .eintr := fun i hi he => by
    have hle := hN (show i ∈ {i | schedule i = .eintr} from he)
    omega
  obtain ⟨d, hrun, hd⟩ := @writeFull_passes bs acc schedule 0 _ _ hlast le_rfl
  rw [Nat.zero_add] at hrun
  exact ⟨_, d, hrun, hd⟩

end Loop

/-! ## The result -/

/-- `write_full` ends, exactly the bytes have been taken, and its caller sees their number. -/
def WritesAll (bs : Bytes) (schedule : ℕ → WriteStep) : Prop :=
  ∀ acc, ∃ fuel rv d, writeFullScheduled fuel bs ⟨acc, schedule⟩ = .ret rv d ∧
    d.accepted = acc ++ bs ∧ wroteAll rv bs.length = true

section Result

variable {bs : Bytes} {schedule : ℕ → WriteStep}

theorem wroteAll_scheduled (hbs : bs.length < 2 ^ 32) (hfin : {i | schedule i = .eintr}.Finite)
    {fuel : ℕ} {acc : Bytes} {rv : BitVec 32} {d : Descriptor}
    (h : writeFullScheduled fuel bs ⟨acc, schedule⟩ = .ret rv d) :
    wroteAll rv bs.length = decide (bs.length < 2 ^ 31) := by
  obtain ⟨fuel', d', hrun, -⟩ := writeFull_scheduled hfin bs acc
  have h₁ := passes_mono (le_max_left fuel fuel') h
  have h₂ := passes_mono (le_max_right fuel fuel') hrun
  cases h₁.symm.trans h₂
  exact wroteAll_ofNat hbs

/-- **The caller of `write_full` sees that all was written exactly below 2 ^ 31 bytes.** -/
theorem writesAll_iff (hbs : bs.length < 2 ^ 32) (hfin : {i | schedule i = .eintr}.Finite) :
    WritesAll bs schedule ↔ bs.length < 2 ^ 31 := by
  constructor
  · intro h
    obtain ⟨fuel, rv, d, hrun, -, hall⟩ := h []
    rw [wroteAll_scheduled hbs hfin hrun] at hall
    exact of_decide_eq_true hall
  · intro hlt acc
    obtain ⟨fuel, d, hrun, hd⟩ := writeFull_scheduled hfin bs acc
    refine ⟨fuel, _, d, hrun, hd, ?_⟩
    rw [wroteAll_ofNat hbs]
    exact decide_eq_true hlt

/-- Three bytes, an interruption and a short write. -/
theorem writesAll_three : WritesAll [0x61#8, 0x62#8, 0x63#8]
    (fun i => if i = 0 then .eintr else .upTo 0) := by
  refine (writesAll_iff (by decide) ?_).mpr (by decide)
  refine (Set.finite_singleton 0).subset fun i hi => ?_
  by_contra hne
  rw [Set.mem_singleton_iff] at hne
  simp [hne] at hi

/-- **With 2 ^ 31 bytes** everything is written, and the caller takes the result for an error. -/
theorem not_writesAll :
    ¬ WritesAll (List.replicate (2 ^ 31) 0x00#8) (fun _ => .upTo (2 ^ 31 - 2)) := by
  intro h
  obtain ⟨fuel, rv, d, hrun, -, hall⟩ := h []
  have hfin : {i : ℕ | (WriteStep.upTo (2 ^ 31 - 2)) = .eintr}.Finite := by simp
  have hbs : (List.replicate (2 ^ 31) 0x00#8).length < 2 ^ 32 := by
    rw [List.length_replicate]
    decide
  rw [wroteAll_scheduled hbs hfin hrun, List.length_replicate] at hall
  exact absurd hall (by decide)

end Result

end Snzip
