import Mathlib.Data.Nat.Init
import Mathlib.Data.List.Basic
import Mathlib.Tactic.Ring

set_option autoImplicit false

/-!
# Bytes, byte orders and C integers

Bytes are 8-bit vectors, an `int` has 32 bits and a `size_t` 64.

* `leBytes`, `leVal`, `beBytes`, `beVal`: fixed-width fields; **`leVal_leBytes`**,
  **`beVal_beBytes`**: a field holds every number that fits it;
* `varint`, `readVarint`, **`readVarint_varint`**: numbers in groups of seven bits;
* `Chr`, `chrInt`: what `getc` returns, `EOF` being `-1`;
* `orChr`: the C statement `n |= c << k` for a `size_t` `n`, with the sign extension of the shifted
  `int`; **`toNat_orChr_lt`**, **`toNat_orChr_mul`**: what it computes on a byte;
  **`toNat_orChr_eof`**, `orChr_eof_ne_zero`: what it leaves after an end of file.
-/

namespace CProg

/-- A byte. -/
abbrev Byte : Type := BitVec 8

/-- A byte string. -/
abbrev Bytes : Type := List Byte

/-- Conversion to `unsigned char`. -/
def byteOf (n : ℕ) : Byte := BitVec.ofNat 8 n

@[simp] theorem toNat_byteOf (n : ℕ) : (byteOf n).toNat = n % 256 := by
  simp [byteOf]

/-! ## Fixed-width fields -/

/-- The low `k` bytes of a number, least significant first. -/
def leBytes : ℕ → ℕ → Bytes
  | 0, _ => []
  | k + 1, n => byteOf n :: leBytes k (n / 256)

/-- The number spelt by bytes, least significant first. -/
def leVal : Bytes → ℕ
  | [] => 0
  | b :: bs => b.toNat + 256 * leVal bs

/-- The low `k` bytes of a number, most significant first. -/
def beBytes (k n : ℕ) : Bytes := (leBytes k n).reverse

/-- The number spelt by bytes, most significant first. -/
def beVal (bs : Bytes) : ℕ := leVal bs.reverse

@[simp] theorem length_leBytes (k n : ℕ) : (leBytes k n).length = k := by
  induction k generalizing n with
  | zero => rfl
  | succ k ih => rw [leBytes, List.length_cons, ih]

@[simp] theorem length_beBytes (k n : ℕ) : (beBytes k n).length = k := by
  rw [beBytes, List.length_reverse, length_leBytes]

theorem leVal_leBytes_mod (k n : ℕ) : leVal (leBytes k n) = n % 256 ^ k := by
  induction k generalizing n with
  | zero => simp [leBytes, leVal, Nat.mod_one]
  | succ k ih =>
    rw [leBytes, leVal, ih, toNat_byteOf, Nat.pow_succ', Nat.mod_mul]

theorem leVal_leBytes {k n : ℕ} (h : n < 256 ^ k) : leVal (leBytes k n) = n := by
  rw [leVal_leBytes_mod, Nat.mod_eq_of_lt h]

theorem beVal_beBytes_mod (k n : ℕ) : beVal (beBytes k n) = n % 256 ^ k := by
  rw [beVal, beBytes, List.reverse_reverse, leVal_leBytes_mod]

theorem beVal_beBytes {k n : ℕ} (h : n < 256 ^ k) : beVal (beBytes k n) = n := by
  rw [beVal_beBytes_mod, Nat.mod_eq_of_lt h]

theorem leVal_lt (bs : Bytes) : leVal bs < 256 ^ bs.length := by
  induction bs with
  | nil => simp [leVal]
  | cons b bs ih =>
    have hb : b.toNat < 256 := b.isLt
    rw [leVal, List.length_cons, Nat.pow_succ]
    omega

theorem beVal_lt (bs : Bytes) : beVal bs < 256 ^ bs.length := by
  have := leVal_lt bs.reverse
  rwa [List.length_reverse] at this

theorem leBytes_leVal (bs : Bytes) : leBytes bs.length (leVal bs) = bs := by
  induction bs with
  | nil => rfl
  | cons b bs ih =>
    have hb : b.toNat < 256 := b.isLt
    have h₁ : byteOf (b.toNat + 256 * leVal bs) = b := by
      apply BitVec.eq_of_toNat_eq
      rw [toNat_byteOf]
      omega
    have h₂ : (b.toNat + 256 * leVal bs) / 256 = leVal bs := by omega
    rw [leVal, List.length_cons, leBytes, h₁, h₂, ih]

theorem beBytes_beVal (bs : Bytes) : beBytes bs.length (beVal bs) = bs := by
  have := leBytes_leVal bs.reverse
  rw [List.length_reverse] at this
  rw [beBytes, beVal, this, List.reverse_reverse]

/-! ## Base-128 numbers -/

/-- A number in groups of seven bits, least significant first, in at most `k` bytes; every byte but
the last has its high bit set. -/
def varint : ℕ → ℕ → Bytes
  | 0, _ => []
  | k + 1, n => if n < 128 then [byteOf n] else byteOf (n % 128 + 128) :: varint k (n / 128)

/-- Read a number of at most `k` bytes, and what follows it. -/
def readVarint : ℕ → Bytes → Option (ℕ × Bytes)
  | 0, _ => none
  | _ + 1, [] => none
  | k + 1, b :: bs =>
    if b.toNat < 128 then some (b.toNat, bs)
    else (readVarint k bs).map fun p => (b.toNat % 128 + 128 * p.1, p.2)

theorem length_varint_le (k n : ℕ) : (varint k n).length ≤ k := by
  induction k generalizing n with
  | zero => simp [varint]
  | succ k ih =>
    rw [varint]
    split
    · simp
    · have := ih (n / 128)
      rw [List.length_cons]
      omega

theorem varint_ne_nil (k n : ℕ) : varint (k + 1) n ≠ [] := by
  rw [varint]
  split <;> exact List.cons_ne_nil _ _

/-- **A number is read back with whatever follows it.** -/
theorem readVarint_varint {k n : ℕ} (h : n < 128 ^ (k + 1)) (bs : Bytes) :
    readVarint (k + 1) (varint (k + 1) n ++ bs) = some (n, bs) := by
  induction k generalizing n with
  | zero =>
    have hn : n < 128 := by simpa using h
    have hb : (byteOf n).toNat = n := by rw [toNat_byteOf]; omega
    rw [varint, if_pos hn, List.singleton_append, readVarint, hb, if_pos hn]
  | succ k ih =>
    rw [varint]
    by_cases hn : n < 128
    · have hb : (byteOf n).toNat = n := by rw [toNat_byteOf]; omega
      rw [if_pos hn, List.singleton_append, readVarint, hb, if_pos hn]
    · have hb : (byteOf (n % 128 + 128)).toNat = n % 128 + 128 := by rw [toNat_byteOf]; omega
      have hd : n / 128 < 128 ^ (k + 1) := by
        rw [Nat.div_lt_iff_lt_mul (by decide)]
        rwa [Nat.pow_succ] at h
      rw [if_neg hn, List.cons_append, readVarint, hb, if_neg (by omega), ih hd, Option.map_some]
      congr 2
      omega

/-! ## `getc` results in integer arithmetic -/

/-- What `getc` returns: a byte, or `none` for `EOF`. -/
abbrev Chr : Type := Option Byte

/-- The `int` that `getc` returns. -/
def chrInt : Chr → BitVec 32
  | some b => b.setWidth 32
  | none => -1#32

/-- The conversion of an `int` to `size_t`. -/
def sizeOfInt (i : BitVec 32) : BitVec 64 := i.signExtend 64

/-- `n |= c << k` on a `size_t` `n`: the `int` `c << k` is sign-extended first. -/
def orChr (n : BitVec 64) (c : Chr) (k : ℕ) : BitVec 64 := n ||| sizeOfInt (chrInt c <<< k)

theorem toNat_sizeOfInt {i : BitVec 32} (h : i.toNat < 2 ^ 31) :
    (sizeOfInt i).toNat = i.toNat := by
  have hm : i.msb = false := by rw [BitVec.msb_eq_decide]; simp; omega
  rw [sizeOfInt, BitVec.signExtend_eq_setWidth_of_msb_false hm, BitVec.toNat_setWidth]
  omega

theorem toNat_shifted_byte (b : Byte) {k : ℕ} (h : b.toNat * 2 ^ k < 2 ^ 31) :
    (sizeOfInt (chrInt (some b) <<< k)).toNat = b.toNat * 2 ^ k := by
  have hb : b.toNat < 256 := b.isLt
  have hs : (chrInt (some b) <<< k).toNat = b.toNat * 2 ^ k := by
    rw [chrInt, BitVec.toNat_shiftLeft, BitVec.toNat_setWidth, Nat.shiftLeft_eq,
      Nat.mod_eq_of_lt (show b.toNat < 2 ^ 32 by omega), Nat.mod_eq_of_lt (by omega)]
  rw [toNat_sizeOfInt (by omega), hs]

/-- **A byte or-ed in above the number so far is added.** -/
theorem toNat_orChr_lt {n : BitVec 64} {b : Byte} {k : ℕ} (hn : n.toNat < 2 ^ k)
    (h : b.toNat * 2 ^ k < 2 ^ 31) :
    (orChr n (some b) k).toNat = n.toNat + b.toNat * 2 ^ k := by
  rw [orChr, BitVec.toNat_or, toNat_shifted_byte b h, Nat.or_comm, Nat.mul_comm,
    ← Nat.two_pow_add_eq_or_of_lt hn, Nat.add_comm]

/-- **A byte or-ed in below the number so far is added.** -/
theorem toNat_orChr_mul {n : BitVec 64} {b : Byte} {k m : ℕ} (hn : n.toNat = 2 ^ (k + 8) * m)
    (h : b.toNat * 2 ^ k < 2 ^ 31) :
    (orChr n (some b) k).toNat = n.toNat + b.toNat * 2 ^ k := by
  have hb : b.toNat < 2 ^ 8 := b.isLt
  have hlt : b.toNat * 2 ^ k < 2 ^ (k + 8) := by
    rw [Nat.pow_add, Nat.mul_comm (2 ^ k)]
    exact Nat.mul_lt_mul_of_pos_right hb (Nat.two_pow_pos k)
  rw [orChr, BitVec.toNat_or, toNat_shifted_byte b h, hn, ← Nat.two_pow_add_eq_or_of_lt hlt]

theorem orChr_ne_zero_of_left {n : BitVec 64} (h : n ≠ 0#64) (c : Chr) (k : ℕ) :
    orChr n c k ≠ 0#64 := by
  intro h0
  rw [orChr, BitVec.or_eq_zero_iff] at h0
  exact h h0.1

/-- **After an `EOF` the number is not zero.** -/
theorem orChr_eof_ne_zero (n : BitVec 64) {k : ℕ} (hk : k < 32) : orChr n none k ≠ 0#64 := by
  intro h0
  rw [orChr, BitVec.or_eq_zero_iff] at h0
  have hbit : (sizeOfInt (chrInt none <<< k)).getLsbD 31 = true := by
    rw [sizeOfInt, chrInt, BitVec.neg_one_eq_allOnes, BitVec.getLsbD_signExtend,
      BitVec.getLsbD_shiftLeft, BitVec.getLsbD_allOnes]
    simp
    omega
  rw [h0.2] at hbit
  exact absurd hbit (by decide)

theorem toNat_sizeOfInt_eof {k : ℕ} (hk : k < 32) :
    (sizeOfInt (chrInt none <<< k)).toNat = 2 ^ k * (2 ^ (64 - k) - 1) := by
  have hle : 2 ^ k ≤ 2 ^ 31 := Nat.pow_le_pow_right (by decide) (by omega)
  have hpos : 0 < 2 ^ k := Nat.two_pow_pos k
  have hsplit : 2 ^ k * 2 ^ (64 - k) = 2 ^ 64 := by
    rw [← Nat.pow_add]
    congr 1
    omega
  have hs : (chrInt none <<< k).toNat = 2 ^ 32 - 2 ^ k := by
    rw [chrInt, BitVec.toNat_shiftLeft, Nat.shiftLeft_eq, show (-1#32).toNat = 2 ^ 32 - 1 by decide]
    omega
  have hm : (chrInt none <<< k).msb = true := by
    rw [BitVec.msb_eq_decide, hs]
    simp
    omega
  rw [sizeOfInt, BitVec.toNat_signExtend, hm, if_pos rfl, BitVec.toNat_setWidth, hs, Nat.mul_sub,
    hsplit, Nat.mul_one]
  omega

/-- **An `EOF` or-ed in above the number so far.** -/
theorem toNat_orChr_eof {n : BitVec 64} {k : ℕ} (hn : n.toNat < 2 ^ k) (hk : k < 32) :
    (orChr n none k).toNat + 2 ^ k = 2 ^ 64 + n.toNat := by
  have hsplit : 2 ^ k * 2 ^ (64 - k) = 2 ^ 64 := by
    rw [← Nat.pow_add]
    congr 1
    omega
  have hle : 2 ^ k ≤ 2 ^ 31 := Nat.pow_le_pow_right (by decide) (by omega)
  rw [orChr, BitVec.toNat_or, toNat_sizeOfInt_eof hk, Nat.or_comm,
    ← Nat.two_pow_add_eq_or_of_lt hn, Nat.mul_sub, hsplit, Nat.mul_one]
  omega

theorem getLsbD_sizeOfInt_eof {k : ℕ} (hk : k < 32) (i : ℕ) :
    (sizeOfInt (chrInt none <<< k)).getLsbD i = decide (k ≤ i ∧ i < 64) := by
  rw [← BitVec.testBit_toNat, toNat_sizeOfInt_eof hk, Nat.testBit_two_pow_mul,
    Nat.testBit_two_pow_sub_one]
  by_cases h : k ≤ i
  · simp only [h, decide_true, Bool.true_and, true_and]
    exact decide_eq_decide.mpr (by omega)
  · simp [h]

theorem orChr_eof_eof (n : BitVec 64) {i j : ℕ} (hi : i ≤ j) (hj : j < 32) :
    orChr (orChr n none i) none j = orChr n none i := by
  apply BitVec.eq_of_getLsbD_eq
  intro b hb
  rw [orChr, BitVec.getLsbD_or, getLsbD_sizeOfInt_eof hj, orChr, BitVec.getLsbD_or,
    getLsbD_sizeOfInt_eof (Nat.lt_of_le_of_lt hi hj)]
  by_cases h : j ≤ b
  · simp [hb, Nat.le_trans hi h]
  · simp [h]

/-! ### Big-endian lengths -/

/-- Four bytes or-ed in, most significant first, when the first one leaves the sign bit clear. -/
theorem toNat_orChr_be {b₀ : Byte} (h : b₀.toNat < 128) (b₁ b₂ b₃ : Byte) :
    (orChr (orChr (orChr (orChr 0#64 (some b₀) 24) (some b₁) 16) (some b₂) 8) (some b₃) 0).toNat =
      beVal [b₀, b₁, b₂, b₃] := by
  have h₁ : b₁.toNat < 256 := b₁.isLt
  have h₂ : b₂.toNat < 256 := b₂.isLt
  have h₃ : b₃.toNat < 256 := b₃.isLt
  have e₀ : (orChr 0#64 (some b₀) 24).toNat = 2 ^ (16 + 8) * b₀.toNat := by
    rw [toNat_orChr_lt (by decide) (by omega), BitVec.toNat_ofNat]
    omega
  have e₁ := toNat_orChr_mul (b := b₁) e₀ (by omega)
  have e₁' : (orChr (orChr 0#64 (some b₀) 24) (some b₁) 16).toNat =
      2 ^ (8 + 8) * (b₁.toNat + 256 * b₀.toNat) := by
    rw [e₁, e₀]
    omega
  have e₂ := toNat_orChr_mul (b := b₂) e₁' (by omega)
  have e₂' : (orChr (orChr (orChr 0#64 (some b₀) 24) (some b₁) 16) (some b₂) 8).toNat =
      2 ^ (0 + 8) * (b₂.toNat + 256 * (b₁.toNat + 256 * b₀.toNat)) := by
    rw [e₂, e₁']
    omega
  rw [toNat_orChr_mul (b := b₃) e₂' (by omega), e₂']
  simp only [beVal, List.reverse_cons, List.reverse_nil, List.nil_append, List.cons_append, leVal]
  omega

/-- `n |= c << k` on an `unsigned int` `n`. -/
def orChr32 (n : BitVec 32) (c : Chr) (k : ℕ) : BitVec 32 := n ||| chrInt c <<< k

theorem toNat_orChr32_mul {n : BitVec 32} {b : Byte} {k m : ℕ} (hn : n.toNat = 2 ^ (k + 8) * m)
    (h : b.toNat * 2 ^ k < 2 ^ 32) :
    (orChr32 n (some b) k).toNat = n.toNat + b.toNat * 2 ^ k := by
  have hb : b.toNat < 2 ^ 8 := b.isLt
  have hlt : b.toNat * 2 ^ k < 2 ^ (k + 8) := by
    rw [Nat.pow_add, Nat.mul_comm (2 ^ k)]
    exact Nat.mul_lt_mul_of_pos_right hb (Nat.two_pow_pos k)
  have hs : (chrInt (some b) <<< k).toNat = b.toNat * 2 ^ k := by
    rw [chrInt, BitVec.toNat_shiftLeft, BitVec.toNat_setWidth, Nat.shiftLeft_eq,
      Nat.mod_eq_of_lt (show b.toNat < 2 ^ 32 by omega), Nat.mod_eq_of_lt h]
  rw [orChr32, BitVec.toNat_or, hs, hn, ← Nat.two_pow_add_eq_or_of_lt hlt]

theorem orChr32_be (b₀ b₁ b₂ b₃ : Byte) :
    orChr32 (orChr32 (orChr32 (orChr32 0#32 (some b₀) 24) (some b₁) 16) (some b₂) 8) (some b₃) 0 =
      BitVec.ofNat 32 (beVal [b₀, b₁, b₂, b₃]) := by
  have h₀ : b₀.toNat < 256 := b₀.isLt
  have h₁ : b₁.toNat < 256 := b₁.isLt
  have h₂ : b₂.toNat < 256 := b₂.isLt
  have h₃ : b₃.toNat < 256 := b₃.isLt
  have e₀ : (orChr32 0#32 (some b₀) 24).toNat = 2 ^ (16 + 8) * b₀.toNat := by
    rw [toNat_orChr32_mul (m := 0) (by simp) (by omega), BitVec.toNat_ofNat]
    omega
  have e₁ := toNat_orChr32_mul (b := b₁) e₀ (by omega)
  have e₁' : (orChr32 (orChr32 0#32 (some b₀) 24) (some b₁) 16).toNat =
      2 ^ (8 + 8) * (b₁.toNat + 256 * b₀.toNat) := by
    rw [e₁, e₀]
    omega
  have e₂ := toNat_orChr32_mul (b := b₂) e₁' (by omega)
  have e₂' : (orChr32 (orChr32 (orChr32 0#32 (some b₀) 24) (some b₁) 16) (some b₂) 8).toNat =
      2 ^ (0 + 8) * (b₂.toNat + 256 * (b₁.toNat + 256 * b₀.toNat)) := by
    rw [e₂, e₁']
    omega
  apply BitVec.eq_of_toNat_eq
  rw [toNat_orChr32_mul (b := b₃) e₂' (by omega), e₂', BitVec.toNat_ofNat]
  simp only [beVal, List.reverse_cons, List.reverse_nil, List.nil_append, List.cons_append, leVal]
  omega

theorem le_toNat_orChr_be {b₀ : Byte} (h : 128 ≤ b₀.toNat) (b₁ b₂ b₃ : Byte) :
    2 ^ 63 ≤
      (orChr (orChr (orChr (orChr 0#64 (some b₀) 24) (some b₁) 16) (some b₂) 8) (some b₃)
        0).toNat := by
  have hle : ∀ (n : BitVec 64) (c : Chr) (k : ℕ), n.toNat ≤ (orChr n c k).toNat := fun n c k => by
    rw [orChr, BitVec.toNat_or]
    exact Nat.left_le_or
  have h₀ : 2 ^ 63 ≤ (orChr 0#64 (some b₀) 24).toNat := by
    have hb : b₀.toNat < 256 := b₀.isLt
    have hs : (chrInt (some b₀) <<< 24).toNat = b₀.toNat * 2 ^ 24 := by
      rw [chrInt, BitVec.toNat_shiftLeft, BitVec.toNat_setWidth, Nat.shiftLeft_eq]
      omega
    have hm : (chrInt (some b₀) <<< 24).msb = true := by
      rw [BitVec.msb_eq_decide, hs]
      simp
      omega
    rw [orChr, BitVec.zero_or, sizeOfInt, BitVec.toNat_signExtend, hm, if_pos rfl]
    omega
  exact Nat.le_trans h₀ (Nat.le_trans (hle _ _ _) (Nat.le_trans (hle _ _ _) (hle _ _ _)))

end CProg
