import Mathlib.Data.Nat.Init
import Mathlib.Logic.Function.Iterate
import Snzip.Lib.ByteOrder

set_option autoImplicit false

/-!
# Reflected cyclic redundancy checks

A register is shifted down bit by bit, and the polynomial is added to it whenever a set bit falls
out. The register and the polynomial have any width here.

* `crcBit`, `crcBits`: one shift and `n` shifts; **`crcBits_xor`**: they are linear;
* `crcBits_of_low_clear`, **`crcBits_split`**: clear bits only fall out, so that the low bits and
  the others can be shifted apart;
* `crcBits_injective`: nothing is lost, if the highest bit of the polynomial is set;
* `crcFeed`, **`foldl_crcFeed`**: bits that are fed one by one, and a word that is fed at once;
* `crcByte`, `foldl_crcByte`: bytes; **`burst_detected`**: a change of a few bytes in a row shows.
-/

namespace CProg

variable {w : ℕ} (poly : BitVec w)

/-- One shift of the register. -/
def crcBit (x : BitVec w) : BitVec w := if x.getLsbD 0 then (x >>> 1) ^^^ poly else x >>> 1

/-- `n` shifts of the register. -/
def crcBits (n : ℕ) (x : BitVec w) : BitVec w := (crcBit poly)^[n] x

@[simp] theorem crcBits_zero_left (x : BitVec w) : crcBits poly 0 x = x := rfl

theorem crcBits_succ (n : ℕ) (x : BitVec w) :
    crcBits poly (n + 1) x = crcBits poly n (crcBit poly x) := Function.iterate_succ_apply _ n x

theorem crcBits_add (m n : ℕ) (x : BitVec w) :
    crcBits poly (m + n) x = crcBits poly m (crcBits poly n x) :=
  Function.iterate_add_apply _ m n x

/-! ## Linearity -/

theorem crcBit_xor (x y : BitVec w) :
    crcBit poly (x ^^^ y) = crcBit poly x ^^^ crcBit poly y := by
  unfold crcBit
  simp only [BitVec.getLsbD_xor, BitVec.ushiftRight_xor_distrib]
  apply BitVec.eq_of_getLsbD_eq
  intro i hi
  cases x.getLsbD 0 <;> cases y.getLsbD 0 <;> simp <;>
    cases x.getLsbD (1 + i) <;> cases y.getLsbD (1 + i) <;> cases poly.getLsbD i <;> rfl

/-- **Shifts are linear.** -/
theorem crcBits_xor (n : ℕ) (x y : BitVec w) :
    crcBits poly n (x ^^^ y) = crcBits poly n x ^^^ crcBits poly n y := by
  induction n generalizing x y with
  | zero => rfl
  | succ n ih => rw [crcBits_succ, crcBits_succ, crcBits_succ, crcBit_xor, ih]

@[simp] theorem crcBits_zero (n : ℕ) : crcBits poly n 0#w = 0#w := by
  induction n with
  | zero => rfl
  | succ n ih =>
    have hbit : crcBit poly 0#w = 0#w := by simp [crcBit]
    rw [crcBits_succ, hbit, ih]

/-! ## Clear bits -/

theorem crcBits_of_low_clear {n : ℕ} {x : BitVec w} (h : ∀ i < n, x.getLsbD i = false) :
    crcBits poly n x = x >>> n := by
  induction n generalizing x with
  | zero => simp
  | succ n ih =>
    have hbit : crcBit poly x = x >>> 1 := by
      rw [crcBit, h 0 (Nat.succ_pos n), if_neg (by decide)]
    have hclear : ∀ i < n, (x >>> 1).getLsbD i = false := by
      intro i hi
      rw [BitVec.getLsbD_ushiftRight]
      exact h (1 + i) (by omega)
    rw [crcBits_succ, hbit, ih hclear, ← BitVec.shiftRight_add, Nat.add_comm]

/-- The low `n` bits of a register. -/
def lowBits (n : ℕ) (x : BitVec w) : BitVec w := (x.setWidth n).setWidth w

theorem getLsbD_lowBits (n : ℕ) (x : BitVec w) (i : ℕ) :
    (lowBits n x).getLsbD i = (decide (i < n) && x.getLsbD i) := by
  simp only [lowBits, BitVec.getLsbD_setWidth]
  by_cases hi : i < w
  · simp [hi]
  · simp [hi, BitVec.getLsbD_of_ge x i (by omega)]

/-- **The low bits and the others are shifted apart.** -/
theorem crcBits_split (k n : ℕ) (x : BitVec w) :
    crcBits poly (k + n) x = crcBits poly (k + n) (lowBits n x) ^^^ crcBits poly k (x >>> n) := by
  have hx : x = lowBits n x ^^^ (x ^^^ lowBits n x) := by
    apply BitVec.eq_of_getLsbD_eq
    intro i hi
    simp only [BitVec.getLsbD_xor]
    cases x.getLsbD i <;> cases (lowBits n x).getLsbD i <;> rfl
  have hclear : ∀ i < n, (x ^^^ lowBits n x).getLsbD i = false := by
    intro i hi
    simp [getLsbD_lowBits, hi]
  have hhigh : (x ^^^ lowBits n x) >>> n = x >>> n := by
    apply BitVec.eq_of_getLsbD_eq
    intro i hi
    simp [getLsbD_lowBits]
  conv_lhs => rw [hx, crcBits_xor, crcBits_add poly k n (x ^^^ _),
    crcBits_of_low_clear poly hclear, hhigh]

/-! ## Injectivity -/

theorem crcBit_injective (hpoly : poly.msb = true) : Function.Injective (crcBit poly) := by
  have hzero : ∀ z, crcBit poly z = 0#w → z = 0#w := by
    intro z hz
    have hw : 0 < w := by
      rcases Nat.eq_zero_or_pos w with rfl | h
      · rw [BitVec.eq_nil poly] at hpoly
        exact absurd hpoly (by decide)
      · exact h
    have hlow : z.getLsbD 0 = false := by
      by_contra hlow
      have hmsb := congrArg BitVec.msb hz
      have hout : (z >>> 1).msb = false := by
        rw [BitVec.msb_eq_getLsbD_last, BitVec.getLsbD_ushiftRight]
        exact BitVec.getLsbD_of_ge z _ (by omega)
      rw [crcBit, if_pos (by simpa using hlow), BitVec.msb_xor, hpoly, hout] at hmsb
      simp at hmsb
    have hshift : z >>> 1 = 0#w := by
      rw [crcBit, hlow, if_neg (by decide)] at hz
      exact hz
    apply BitVec.eq_of_getLsbD_eq
    intro i hi
    cases i with
    | zero => simpa using hlow
    | succ i =>
      have := congrArg (fun v => v.getLsbD i) hshift
      simpa [Nat.add_comm] using this
  intro x y hxy
  have := hzero (x ^^^ y) (by rw [crcBit_xor, hxy, BitVec.xor_self])
  exact BitVec.xor_eq_zero_iff.mp this

theorem crcBits_injective (hpoly : poly.msb = true) (n : ℕ) :
    Function.Injective (crcBits poly n) := (crcBit_injective poly hpoly).iterate n

/-! ## Bits one by one -/

/-- A bit is added to the lowest one before the register is shifted. -/
def crcFeed (x : BitVec w) (b : Bool) : BitVec w := crcBit poly (x ^^^ (BitVec.ofBool b).setWidth w)

/-- The bits of a word, the lowest first. -/
def bitsOf {n : ℕ} (v : BitVec n) : List Bool := (List.range n).map v.getLsbD

theorem bitsOf_ofNat (n m : ℕ) : bitsOf (BitVec.ofNat n m) = (List.range n).map m.testBit := by
  refine List.map_congr_left fun i hi => ?_
  rw [BitVec.getLsbD_ofNat, decide_eq_true (List.mem_range.mp hi), Bool.true_and]

/-- **Bits that are fed one by one** are fed as a word at once. -/
theorem foldl_crcFeed {n m : ℕ} (hn : m < 2 ^ n) (hw : m < 2 ^ w) (x : BitVec w) :
    (bitsOf (BitVec.ofNat n m)).foldl (crcFeed poly) x =
      crcBits poly n (x ^^^ BitVec.ofNat w m) := by
  rw [bitsOf_ofNat]
  induction n generalizing m x with
  | zero =>
    obtain rfl : m = 0 := by omega
    simp
  | succ n ih =>
    have htail : (fun i => m.testBit (i + 1)) = (m / 2).testBit := by
      funext i
      exact Nat.testBit_succ m i
    have hword : crcBit poly (BitVec.ofNat w m) =
        crcBit poly ((BitVec.ofBool (m.testBit 0)).setWidth w) ^^^ BitVec.ofNat w (m / 2) := by
      have hlow : lowBits 1 (BitVec.ofNat w m) = (BitVec.ofBool (m.testBit 0)).setWidth w := by
        apply BitVec.eq_of_getLsbD_eq
        intro i hi
        rw [getLsbD_lowBits, BitVec.getLsbD_setWidth, BitVec.getLsbD_ofNat]
        cases i with
        | zero => simp [hi]
        | succ i => simp
      have hhigh : BitVec.ofNat w m >>> 1 = BitVec.ofNat w (m / 2) := by
        apply BitVec.eq_of_toNat_eq
        rw [BitVec.toNat_ushiftRight, BitVec.toNat_ofNat, BitVec.toNat_ofNat, Nat.mod_eq_of_lt hw,
          Nat.mod_eq_of_lt (by omega), Nat.shiftRight_eq_div_pow]
      have hsplit := crcBits_split poly 0 1 (BitVec.ofNat w m)
      rw [hlow, hhigh] at hsplit
      exact hsplit
    rw [List.range_succ_eq_map, List.map_cons, List.foldl_cons, List.map_map]
    change (List.map (fun i => m.testBit (i + 1)) _).foldl _ _ = _
    rw [htail, ih (by omega) (by omega), crcBits_succ, crcBit_xor, hword, crcFeed, crcBit_xor,
      BitVec.xor_assoc]

/-! ## Bytes -/

/-- The shifts for one byte. -/
def crcByte (x : BitVec w) (b : Byte) : BitVec w := crcBits poly 8 (x ^^^ b.setWidth w)

theorem bitsOf_leVal (p : Bytes) :
    bitsOf (BitVec.ofNat (8 * p.length) (leVal p)) = p.flatMap bitsOf := by
  induction p with
  | nil => rfl
  | cons b p ih =>
    have hb : b.toNat < 2 ^ 8 := b.isLt
    have hbit : ∀ i, (leVal (b :: p)).testBit i =
        if i < 8 then b.toNat.testBit i else (leVal p).testBit (i - 8) := by
      intro i
      rw [leVal, Nat.add_comm]
      exact Nat.testBit_two_pow_mul_add (leVal p) hb i
    rw [bitsOf_ofNat] at ih
    rw [bitsOf_ofNat, List.length_cons, Nat.mul_succ, Nat.add_comm, List.range_add, List.map_append,
      List.map_map, List.flatMap_cons, ← ih]
    congr 1
    · refine List.map_congr_left fun i hi => ?_
      rw [hbit, if_pos (List.mem_range.mp hi)]
      rfl
    · refine List.map_congr_left fun i _ => ?_
      rw [Function.comp_apply, hbit, if_neg (by omega), Nat.add_sub_cancel_left]

theorem foldl_crcFeed_bytes (hw : 8 ≤ w) (p : Bytes) (x : BitVec w) :
    (p.flatMap bitsOf).foldl (crcFeed poly) x = p.foldl (crcByte poly) x := by
  induction p generalizing x with
  | nil => rfl
  | cons b p ih =>
    have hb : b.toNat < 2 ^ 8 := b.isLt
    have hpow : 2 ^ 8 ≤ 2 ^ w := Nat.pow_le_pow_right (by decide) hw
    have hbyte := foldl_crcFeed poly hb (by omega) x
    rw [BitVec.ofNat_toNat, BitVec.setWidth_eq, BitVec.ofNat_toNat] at hbyte
    rw [List.flatMap_cons, List.foldl_append, hbyte, ih, List.foldl_cons]
    rfl

/-- **Bytes that fit the register** are fed as a word at once. -/
theorem foldl_crcByte (hw : 8 ≤ w) {p : Bytes} (hp : 8 * p.length ≤ w) (x : BitVec w) :
    p.foldl (crcByte poly) x =
      crcBits poly (8 * p.length) (x ^^^ BitVec.ofNat w (leVal p)) := by
  have hlt : leVal p < 2 ^ (8 * p.length) := by
    rw [Nat.pow_mul]
    exact leVal_lt p
  have hpow : 2 ^ (8 * p.length) ≤ 2 ^ w := Nat.pow_le_pow_right (by decide) hp
  rw [← foldl_crcFeed_bytes poly hw, ← bitsOf_leVal,
    foldl_crcFeed poly hlt (Nat.lt_of_lt_of_le hlt hpow)]

theorem crcByte_injective (hpoly : poly.msb = true) (b : Byte) :
    Function.Injective fun x => crcByte poly x b := by
  intro x y h
  have hxor := crcBits_injective poly hpoly 8 h
  rw [BitVec.xor_left_inj] at hxor
  exact hxor

theorem foldl_crcByte_injective (hpoly : poly.msb = true) (p : Bytes) :
    Function.Injective fun x => p.foldl (crcByte poly) x := by
  induction p with
  | nil => exact fun _ _ h => h
  | cons b p ih => exact fun _ _ h => crcByte_injective poly hpoly b (ih h)

/-- **A burst is detected**: bytes that fit the register cannot be changed without a change of the
result, whatever is in front of them and behind them. -/
theorem burst_detected (hpoly : poly.msb = true) (hw : 8 ≤ w) {l m m' r : Bytes}
    (hlen : m.length = m'.length) (hm : 8 * m.length ≤ w) {x : BitVec w}
    (h : (l ++ m ++ r).foldl (crcByte poly) x = (l ++ m' ++ r).foldl (crcByte poly) x) :
    m = m' := by
  rw [List.foldl_append, List.foldl_append, List.foldl_append, List.foldl_append] at h
  have hreg := foldl_crcByte_injective poly hpoly r h
  have hm' : 8 * m'.length ≤ w := hlen ▸ hm
  rw [foldl_crcByte poly hw hm, foldl_crcByte poly hw hm', ← hlen] at hreg
  have hxor := crcBits_injective poly hpoly _ hreg
  rw [BitVec.xor_right_inj] at hxor
  have hval : ∀ p : Bytes, p.length = m.length → (BitVec.ofNat w (leVal p)).toNat = leVal p := by
    intro p hp
    have hlt := leVal_lt p
    have hpow : 2 ^ (8 * m.length) ≤ 2 ^ w := Nat.pow_le_pow_right (by decide) hm
    rw [Nat.pow_mul, ← hp] at hpow
    rw [BitVec.toNat_ofNat, Nat.mod_eq_of_lt (Nat.lt_of_lt_of_le hlt hpow)]
  have hnat := congrArg BitVec.toNat hxor
  rw [hval m rfl, hval m' hlen.symm] at hnat
  calc m = leBytes m.length (leVal m) := (leBytes_leVal m).symm
    _ = leBytes m'.length (leVal m') := by rw [hlen, hnat]
    _ = m' := leBytes_leVal m'

end CProg
