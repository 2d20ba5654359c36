import Mathlib.Dynamics.PeriodicPts.Lemmas
import Snzip.Lib.Crc

set_option autoImplicit false

/-!
# Changed bits and cyclic redundancy checks

Bits are changed at any places of a message, and the register shows it.

* `differ`: the number of places where two messages differ; `exists_of_differ_two`;
* `parity`, `parity_crcBit`, **`odd_bits_detected`**: a polynomial of odd weight;
* **`two_bits_detected`**: two bits, no farther apart than the shifts take to come back;
* `crcBits_ne_one`: when they come back only after a prime number of shifts;
* `columns`, `combine`, `double`, **`iterate_double`**: how shifts by powers of two are computed.
-/

namespace CProg

/-! ## Places that differ -/

/-- The number of places where two lists differ. -/
def differ : List Bool → List Bool → ℕ
  | a :: as, b :: bs => (if a = b then 0 else 1) + differ as bs
  | _, _ => 0

section Differ

variable {as bs : List Bool}

theorem eq_of_differ_zero (hlen : as.length = bs.length) (h : differ as bs = 0) : as = bs := by
  induction as generalizing bs with
  | nil => exact (List.eq_nil_of_length_eq_zero hlen.symm).symm
  | cons a as ih =>
    cases bs with
    | nil => cases hlen
    | cons b bs =>
      rw [differ] at h
      have hab : a = b := by
        by_contra hne
        rw [if_neg hne] at h
        omega
      rw [hab, ih (Nat.succ.inj hlen) (by omega)]

theorem exists_of_differ {n : ℕ} (hlen : as.length = bs.length) (h : differ as bs = n + 1) :
    ∃ l a r r', as = l ++ a :: r ∧ bs = l ++ (!a) :: r' ∧ r.length = r'.length ∧
      differ r r' = n := by
  induction as generalizing bs with
  | nil =>
    rw [List.eq_nil_of_length_eq_zero hlen.symm] at h
    cases h
  | cons a as ih =>
    cases bs with
    | nil => cases hlen
    | cons b bs =>
      rw [differ] at h
      by_cases hab : a = b
      · subst hab
        rw [if_pos rfl, Nat.zero_add] at h
        obtain ⟨l, c, r, r', rfl, rfl, hr⟩ := ih (Nat.succ.inj hlen) h
        exact ⟨a :: l, c, r, r', rfl, rfl, hr⟩
      · rw [if_neg hab] at h
        refine ⟨[], a, as, bs, rfl, ?_, Nat.succ.inj hlen, by omega⟩
        cases a <;> cases b <;> simp_all

/-- **Two places** where two lists differ. -/
theorem exists_of_differ_two (hlen : as.length = bs.length) (h : differ as bs = 2) :
    ∃ l a m c r, as = l ++ a :: (m ++ c :: r) ∧ bs = l ++ (!a) :: (m ++ (!c) :: r) := by
  obtain ⟨l, a, s, s', rfl, rfl, hs, hone⟩ := exists_of_differ hlen h
  obtain ⟨m, c, r, r', rfl, rfl, hr, hzero⟩ := exists_of_differ hs hone
  rw [eq_of_differ_zero hr hzero]
  exact ⟨l, a, m, c, r', rfl, rfl⟩

end Differ

/-! ## Parity -/

/-- Whether the number of set bits is odd. -/
def parityOf (bs : List Bool) : Bool := bs.foldr xor false

theorem parityOf_append (as bs : List Bool) :
    parityOf (as ++ bs) = (parityOf as ^^ parityOf bs) := by
  induction as with
  | nil => simp [parityOf]
  | cons a as ih =>
    simp only [parityOf, List.cons_append, List.foldr_cons] at ih ⊢
    rw [ih, Bool.xor_assoc]

theorem parityOf_map_xor {α : Type} (l : List α) (f g : α → Bool) :
    parityOf (l.map fun i => f i ^^ g i) = (parityOf (l.map f) ^^ parityOf (l.map g)) := by
  induction l with
  | nil => rfl
  | cons i l ih =>
    simp only [parityOf, List.map_cons, List.foldr_cons] at ih ⊢
    rw [ih]
    cases f i <;> cases g i <;> simp

theorem parityOf_map_false {α : Type} (l : List α) : parityOf (l.map fun _ => false) = false := by
  induction l with
  | nil => rfl
  | cons i l ih => simpa [parityOf] using ih

theorem parityOf_differ {as bs : List Bool} (hlen : as.length = bs.length) :
    (parityOf as ^^ parityOf bs) = decide (differ as bs % 2 = 1) := by
  induction as generalizing bs with
  | nil =>
    rw [List.eq_nil_of_length_eq_zero hlen.symm]
    rfl
  | cons a as ih =>
    cases bs with
    | nil => cases hlen
    | cons b bs =>
      have hswap : (parityOf (a :: as) ^^ parityOf (b :: bs)) =
          ((a ^^ b) ^^ (parityOf as ^^ parityOf bs)) := by
        simp only [parityOf, List.foldr_cons]
        cases a <;> cases b <;> simp
      rw [hswap, ih (Nat.succ.inj hlen)]
      by_cases hab : a = b
      · have hdiffer : differ (a :: as) (b :: bs) = differ as bs := by
          rw [differ, if_pos hab, Nat.zero_add]
        rw [hdiffer, hab, Bool.xor_self, Bool.false_xor]
      · have hdiffer : differ (a :: as) (b :: bs) = 1 + differ as bs := by rw [differ, if_neg hab]
        have hxor : (a ^^ b) = true := by simpa using hab
        rw [hdiffer, hxor, Bool.true_xor, ← decide_not]
        exact decide_eq_decide.mpr (by omega)

section Parity

variable {w : ℕ} {poly : BitVec w}

/-- The parity of the bits of a word. -/
def parity (x : BitVec w) : Bool := parityOf (bitsOf x)

theorem parity_xor (x y : BitVec w) : parity (x ^^^ y) = (parity x ^^ parity y) := by
  rw [parity, bitsOf, List.map_congr_left fun i _ => BitVec.getLsbD_xor, parityOf_map_xor]
  rfl

theorem parity_shift (x : BitVec w) : parity (x >>> 1) = (parity x ^^ x.getLsbD 0) := by
  cases w with
  | zero => rw [BitVec.eq_nil x]; rfl
  | succ n =>
    have hlow : bitsOf x = x.getLsbD 0 :: (List.range n).map fun i => x.getLsbD (i + 1) := by
      rw [bitsOf, List.range_succ_eq_map, List.map_cons, List.map_map]
      rfl
    have hhigh : bitsOf (x >>> 1) = ((List.range n).map fun i => x.getLsbD (i + 1)) ++ [false] := by
      rw [bitsOf, List.range_succ, List.map_append, List.map_singleton]
      congr 1
      · exact List.map_congr_left fun i _ => by rw [BitVec.getLsbD_ushiftRight, Nat.add_comm 1 i]
      · rw [BitVec.getLsbD_ushiftRight, BitVec.getLsbD_of_ge _ _ (by omega)]
    rw [parity, parity, hlow, hhigh, parityOf_append]
    simp only [parityOf, List.foldr_cons, List.foldr_nil]
    cases x.getLsbD 0 <;> simp

theorem parity_ofBool (hw : 0 < w) (b : Bool) : parity ((BitVec.ofBool b).setWidth w) = b := by
  obtain ⟨n, rfl⟩ := Nat.exists_eq_succ_of_ne_zero hw.ne'
  have hbits : bitsOf ((BitVec.ofBool b).setWidth (n + 1)) =
      b :: (List.range n).map fun _ => false := by
    rw [bitsOf, List.range_succ_eq_map, List.map_cons, List.map_map]
    congr 1
    · simp
    · exact List.map_congr_left fun i _ => by simp
  have hrest := parityOf_map_false (List.range n)
  rw [parity, hbits]
  simp only [parityOf, List.foldr_cons] at hrest ⊢
  rw [hrest, Bool.xor_false]

/-- **A polynomial of odd weight keeps the parity**, since it comes in for one bit. -/
theorem parity_crcBit (hpoly : parity poly = true) (x : BitVec w) :
    parity (crcBit poly x) = parity x := by
  unfold crcBit
  split
  · next h => rw [parity_xor, parity_shift, hpoly, h, Bool.xor_true, Bool.xor_true, Bool.not_not]
  · next h =>
    rw [Bool.not_eq_true] at h
    rw [parity_shift, h, Bool.xor_false]

theorem parity_foldl_crcFeed (hw : 0 < w) (hpoly : parity poly = true) (bs : List Bool)
    (x : BitVec w) : parity (bs.foldl (crcFeed poly) x) = (parity x ^^ parityOf bs) := by
  induction bs generalizing x with
  | nil => simp [parityOf]
  | cons b bs ih =>
    rw [List.foldl_cons, ih, crcFeed, parity_crcBit hpoly, parity_xor, parity_ofBool hw,
      Bool.xor_assoc]
    rfl

/-- **An odd number of changed bits is detected**, by a polynomial of odd weight. -/
theorem odd_bits_detected (hw : 0 < w) (hpoly : parity poly = true) {as bs : List Bool}
    (hlen : as.length = bs.length) (hodd : differ as bs % 2 = 1) (x : BitVec w) :
    as.foldl (crcFeed poly) x ≠ bs.foldl (crcFeed poly) x := by
  intro h
  have hparity := congrArg parity h
  rw [parity_foldl_crcFeed hw hpoly, parity_foldl_crcFeed hw hpoly, Bool.xor_right_inj] at hparity
  have hdiffer := parityOf_differ hlen
  rw [hparity, Bool.xor_self, decide_eq_true hodd] at hdiffer
  cases hdiffer

end Parity

/-! ## Two bits -/

section Two

variable {w : ℕ} (poly : BitVec w)

theorem foldl_crcFeed_xor (bs : List Bool) (x d : BitVec w) :
    bs.foldl (crcFeed poly) (x ^^^ d) = bs.foldl (crcFeed poly) x ^^^ crcBits poly bs.length d := by
  induction bs generalizing x d with
  | nil => rfl
  | cons b bs ih =>
    have hfeed : crcFeed poly (x ^^^ d) b = crcFeed poly x b ^^^ crcBit poly d := by
      rw [crcFeed, crcFeed, BitVec.xor_assoc, BitVec.xor_comm d, ← BitVec.xor_assoc, crcBit_xor]
    rw [List.foldl_cons, List.foldl_cons, hfeed, ih, List.length_cons, crcBits_succ]

theorem crcFeed_not (x : BitVec w) (b : Bool) :
    crcFeed poly x (!b) = crcFeed poly x b ^^^ crcBit poly 1#w := by
  have hbit : (BitVec.ofBool (!b)).setWidth w = (BitVec.ofBool b).setWidth w ^^^ 1#w := by
    apply BitVec.eq_of_getLsbD_eq
    intro i hi
    cases b <;> cases i <;> simp [hi]
  rw [crcFeed, crcFeed, hbit, ← BitVec.xor_assoc, crcBit_xor]

/-- **Two changed bits are detected**, if a bit that is shifted from the place of the first to that
of the second has not come back. -/
theorem two_bits_detected (hpoly : poly.msb = true) {as bs : List Bool}
    (hlen : as.length = bs.length) (htwo : differ as bs = 2)
    (hback : ∀ d, 0 < d → d < as.length → crcBits poly d 1#w ≠ 1#w) (x : BitVec w) :
    as.foldl (crcFeed poly) x ≠ bs.foldl (crcFeed poly) x := by
  obtain ⟨l, a, m, c, r, rfl, rfl⟩ := exists_of_differ_two hlen htwo
  simp only [List.foldl_append, List.foldl_cons]
  generalize l.foldl (crcFeed poly) x = y
  rw [crcFeed_not poly y a, foldl_crcFeed_xor poly m]
  generalize m.foldl (crcFeed poly) (crcFeed poly y a) = z
  -- the difference before the second bit and the bit itself
  have hfeed : crcFeed poly (z ^^^ crcBits poly m.length (crcBit poly 1#w)) (!c) =
      crcFeed poly z c ^^^ crcBit poly (crcBits poly (m.length + 1) 1#w ^^^ 1#w) := by
    rw [crcFeed_not, crcFeed, crcFeed, BitVec.xor_assoc, BitVec.xor_comm (crcBits _ _ _),
      ← BitVec.xor_assoc, crcBit_xor, BitVec.xor_assoc, ← crcBit_xor, crcBits_succ]
  rw [hfeed, foldl_crcFeed_xor]
  intro h
  have hzero : crcBits poly r.length (crcBit poly (crcBits poly (m.length + 1) 1#w ^^^ 1#w)) =
      0#w := by
    have hxor := congrArg (r.foldl (crcFeed poly) (crcFeed poly z c) ^^^ ·) h
    simpa [← BitVec.xor_assoc] using hxor.symm
  have hshifts : crcBits poly (r.length + 1) (crcBits poly (m.length + 1) 1#w ^^^ 1#w) =
      crcBits poly (r.length + 1) 0#w := by
    rw [crcBits_succ, hzero, crcBits_zero]
  have hone := BitVec.xor_eq_zero_iff.mp (crcBits_injective poly hpoly _ hshifts)
  refine hback (m.length + 1) (Nat.succ_pos _) ?_ hone
  simp only [List.length_append, List.length_cons]
  omega

theorem crcBits_ne_one {n d : ℕ} (hn : n.Prime) (hper : crcBits poly n 1#w = 1#w)
    (hone : crcBit poly 1#w ≠ 1#w) (hpos : 0 < d) (hlt : d < n) : crcBits poly d 1#w ≠ 1#w := by
  intro hd
  have : Fact n.Prime := ⟨hn⟩
  have hdvd := Function.IsPeriodicPt.minimalPeriod_dvd (show Function.IsPeriodicPt _ d 1#w from hd)
  rw [Function.minimalPeriod_eq_prime (show Function.IsPeriodicPt _ n 1#w from hper) hone] at hdvd
  exact absurd (Nat.le_of_dvd hpos hdvd) (Nat.not_le.mpr hlt)

end Two

/-! ## Shifts by powers of two -/

section Columns

variable {w : ℕ}

/-- What a map makes of each single bit. -/
def columns (f : BitVec w → BitVec w) : List (BitVec w) :=
  (List.range w).map fun i => f (BitVec.twoPow w i)

/-- The sum of the columns for the set bits of `v`, from the `i`-th one on. -/
def combine : List (BitVec w) → ℕ → BitVec w → BitVec w
  | [], _, _ => 0#w
  | c :: cs, i, v => (if v.getLsbD i then c else 0#w) ^^^ combine cs (i + 1) v

/-- The columns of a map that is made twice. -/
def double (cs : List (BitVec w)) : List (BitVec w) := cs.map (combine cs 0)

variable {f : BitVec w → BitVec w}

/-- **A linear map is given by its columns.** -/
theorem combine_columns (hf : ∀ x y, f (x ^^^ y) = f x ^^^ f y) (v : BitVec w) :
    combine (columns f) 0 v = f v := by
  have hzero : f 0#w = 0#w := by
    have h := hf 0#w 0#w
    rw [BitVec.xor_self, BitVec.xor_self] at h
    exact h
  have hhigh : ∀ k i, k + i = w →
      combine ((List.range' i k).map fun i => f (BitVec.twoPow w i)) i v = f ((v >>> i) <<< i) := by
    intro k
    induction k with
    | zero =>
      intro i hi
      have hclear : (v >>> i) <<< i = 0#w := by
        apply BitVec.eq_of_getLsbD_eq
        intro j hj
        rw [BitVec.getLsbD_shiftLeft, BitVec.getLsbD_zero]
        simp [show j < i by omega]
      rw [hclear, hzero]
      rfl
    | succ k ih =>
      intro i hi
      have hsplit : (v >>> i) <<< i =
          (if v.getLsbD i then BitVec.twoPow w i else 0#w) ^^^ ((v >>> (i + 1)) <<< (i + 1)) := by
        apply BitVec.eq_of_getLsbD_eq
        intro j hj
        rw [BitVec.getLsbD_xor, BitVec.getLsbD_shiftLeft, BitVec.getLsbD_shiftLeft,
          BitVec.getLsbD_ushiftRight, BitVec.getLsbD_ushiftRight, apply_ite (BitVec.getLsbD · j),
          BitVec.getLsbD_twoPow, BitVec.getLsbD_zero]
        rcases Nat.lt_trichotomy j i with h | rfl | h
        · simp [h, show j < i + 1 by omega, show ¬ i = j by omega]
        · simp [hj]
        · simp [hj, show ¬ j < i by omega, show ¬ j < i + 1 by omega, show ¬ i = j by omega,
            show i + (j - i) = j by omega, show i + 1 + (j - (i + 1)) = j by omega]
      rw [List.range'_succ, List.map_cons, combine, ih (i + 1) (by omega), hsplit, hf]
      congr 1
      split
      · rfl
      · exact hzero.symm
  have h := hhigh w 0 (Nat.add_zero w)
  rwa [← List.range_eq_range', BitVec.ushiftRight_zero, BitVec.shiftLeft_zero] at h

theorem double_columns (hf : ∀ x y, f (x ^^^ y) = f x ^^^ f y) :
    double (columns f) = columns (f ∘ f) := by
  rw [double, columns, List.map_map]
  exact List.map_congr_left fun i _ => combine_columns hf _

/-- **Doubling the columns of one shift** gives those of `2 ^ k` shifts. -/
theorem iterate_double (poly : BitVec w) (k : ℕ) :
    double^[k] (columns (crcBit poly)) = columns (crcBits poly (2 ^ k)) := by
  induction k with
  | zero => rfl
  | succ k ih =>
    rw [Function.iterate_succ_apply', ih, double_columns (crcBits_xor poly _)]
    congr 1
    funext x
    rw [Function.comp_apply, ← crcBits_add, pow_succ, Nat.mul_two]

end Columns

end CProg
