import Mathlib.Data.List.GetD
import Mathlib.Data.Nat.Digits.Lemmas
import Snzip.Format.Snz

set_option autoImplicit false

/-!
# The length of a block of the snzip format

A length is a number in base 128. Its fifth byte is shifted by 28 bits in an `int`: the upper three
of its seven bits are shifted out, and the fourth one becomes the sign.

* `varintValue`, `IsVarint`, `fifthByte`, `low28`: a number in base 128;
* `IsLength`, **`exists_isLength`**, `IsLength.eq_value_iff`: what `readLength` makes of it;
* `putVarint_eq`, **`takeLength_putVarint`**: the length that was written is read back.
-/

namespace Snzip

open CProg

/-! ## Numbers in base 128 -/

/-- The value of a number in base 128. -/
def varintValue (e : Bytes) : ℕ := (e.mapIdx fun i b => b.toNat % 128 * 128 ^ i).sum

theorem varintValue_eq (e : Bytes) :
    varintValue e = Nat.ofDigits 128 (e.map fun b => b.toNat % 128) := by
  have hmap : (e.map fun b => b.toNat % 128).mapIdx (fun i a => a * 128 ^ i) =
      e.mapIdx fun i b => b.toNat % 128 * 128 ^ i :=
    List.ext_getElem? fun i => by simp [List.getElem?_mapIdx, Function.comp_def]
  rw [Nat.ofDigits_eq_sum_mapIdx, hmap]
  rfl

theorem varintValue_append (a b : Bytes) :
    varintValue (a ++ b) = varintValue a + 128 ^ a.length * varintValue b := by
  rw [varintValue_eq, varintValue_eq, varintValue_eq, List.map_append, Nat.ofDigits_append,
    List.length_map]

theorem varintValue_cons (b : Byte) (e : Bytes) :
    varintValue (b :: e) = b.toNat % 128 + 128 * varintValue e := by
  rw [varintValue_eq, varintValue_eq, List.map_cons, Nat.ofDigits_cons]

theorem varintValue_lt (e : Bytes) : varintValue e < 128 ^ e.length := by
  rw [varintValue_eq, ← List.length_map (fun b : Byte => b.toNat % 128)]
  refine Nat.ofDigits_lt_base_pow_length (by decide) fun d hd => ?_
  obtain ⟨b, -, rfl⟩ := List.mem_map.mp hd
  exact Nat.mod_lt _ (by decide)

/-- A number in base 128 of at most five bytes; the high bit is set in all of them but the last. -/
structure IsVarint (e : Bytes) : Prop where
  length_le : e.length ≤ varintMax
  digits : ∃ a b, e = a ++ [b] ∧ (∀ c ∈ a, 128 ≤ c.toNat) ∧ b.toNat < 128

/-- The fifth byte, 0 if there is none. -/
def fifthByte (e : Bytes) : ℕ := (e.getD 4 0#8).toNat

/-- The number that the other bytes spell. -/
def low28 (e : Bytes) : ℕ := varintValue (e.take 4)

theorem low28_lt (e : Bytes) : low28 e < 2 ^ 28 := by
  have hlt := varintValue_lt (e.take 4)
  have hle : 128 ^ (e.take 4).length ≤ 128 ^ 4 :=
    Nat.pow_le_pow_right (by decide) (List.length_take_le _ _)
  unfold low28
  omega

theorem varintValue_concat (a : Bytes) (b : Byte) :
    varintValue (a ++ [b]) = varintValue a + b.toNat % 128 * 2 ^ (a.length * 7) := by
  rw [varintValue_append, varintValue_cons, Nat.mul_comm a.length, Nat.pow_mul,
    Nat.mul_comm (128 ^ _)]
  rfl

theorem low28_of_length_le {e : Bytes} (h : e.length ≤ 4) : low28 e = varintValue e := by
  rw [low28, List.take_of_length_le h]

theorem fifthByte_of_length_le {e : Bytes} (h : e.length ≤ 4) : fifthByte e = 0 := by
  rw [fifthByte, List.getD_eq_default _ _ h]
  rfl

theorem fifthByte_concat {a : Bytes} (h : a.length = 4) (b : Byte) :
    fifthByte (a ++ [b]) = b.toNat := by
  rw [fifthByte, List.getD_append_right _ _ _ _ h.le, h]
  rfl

theorem IsVarint.value {e : Bytes} (he : IsVarint e) :
    varintValue e = low28 e + fifthByte e * 2 ^ 28 ∧ fifthByte e < 128 := by
  obtain ⟨hlen, a, b, rfl, -, hb⟩ := he
  rw [List.length_append] at hlen
  change a.length + 1 ≤ 5 at hlen
  by_cases h4 : a.length = 4
  · rw [varintValue_concat, fifthByte_concat h4, low28, List.take_left' h4, h4,
      Nat.mod_eq_of_lt hb]
    exact ⟨rfl, hb⟩
  · have hle : (a ++ [b]).length ≤ 4 := by
      rw [List.length_append, List.length_singleton]
      omega
    rw [fifthByte_of_length_le hle, low28_of_length_le hle]
    exact ⟨by omega, by decide⟩

/-! ## The reader -/

/-- The bytes of a length as `readLength` takes them. -/
def IsLength (e : Bytes) (n : BitVec 64) : Prop :=
  ∃ idx, takeLength 0#64 0 varintMax e = some (n, idx, []) ∧ idx ≠ varintMax

theorem takeLength_append {n n' : BitVec 64} {idx idx' m : ℕ} {s rest : Bytes} (t : Bytes)
    (h : takeLength n idx m s = some (n', idx', rest)) :
    takeLength n idx m (s ++ t) = some (n', idx', rest ++ t) := by
  induction m generalizing n idx s with
  | zero =>
    cases h
    rfl
  | succ m ih =>
    cases s with
    | nil => cases h
    | cons chr s =>
      rw [takeLength] at h
      rw [List.cons_append, takeLength]
      split at h
      · next hc =>
        cases h
        rw [if_pos hc]
      · next hc =>
        rw [if_neg hc]
        exact ih h

theorem exists_takeLength {n n' : BitVec 64} {idx idx' m : ℕ} {s rest : Bytes}
    (h : takeLength n idx m s = some (n', idx', rest)) :
    ∃ e, s = e ++ rest ∧ takeLength n idx m e = some (n', idx', []) := by
  induction m generalizing n idx s with
  | zero =>
    cases h
    exact ⟨[], rfl, rfl⟩
  | succ m ih =>
    cases s with
    | nil => cases h
    | cons chr s =>
      rw [takeLength] at h
      split at h
      · next hc =>
        cases h
        exact ⟨[chr], rfl, by rw [takeLength, if_pos hc]⟩
      · next hc =>
        obtain ⟨e, rfl, he⟩ := ih h
        exact ⟨chr :: e, rfl, by rw [takeLength, if_neg hc, he]⟩

theorem IsLength.ne_nil {e : Bytes} {n : BitVec 64} (h : IsLength e n) : e ≠ [] := by
  obtain ⟨idx, h, -⟩ := h
  rintro rfl
  cases h

section Reader

variable {a : Bytes} {b : Byte} {e rest : Bytes} {n n' : BitVec 64} {i m : ℕ}

theorem and_127 (b : Byte) : (b &&& 127#8).toNat = b.toNat % 128 := by
  revert b
  decide

theorem and_128 (b : Byte) : b &&& 128#8 = 0#8 ↔ b.toNat < 128 := by
  revert b
  decide

theorem takeLength_high (ha : ∀ c ∈ a, 128 ≤ c.toNat) (hi : i + a.length ≤ 4)
    (hn : n.toNat < 2 ^ (i * 7)) (s : Bytes) :
    ∃ n', takeLength n i (a.length + m) (a ++ s) = takeLength n' (i + a.length) m s ∧
      n'.toNat = n.toNat + varintValue a * 2 ^ (i * 7) := by
  induction a generalizing n i with
  | nil => exact ⟨n, by simp, by simp [varintValue]⟩
  | cons c a ih =>
    obtain ⟨hc, ha⟩ := List.forall_mem_cons.mp ha
    rw [List.length_cons] at hi
    have hlt : c.toNat % 128 < 128 := Nat.mod_lt _ (by decide)
    have hle : 2 ^ (i * 7) ≤ 2 ^ 21 := Nat.pow_le_pow_right (by decide) (by omega)
    have hpow : 2 ^ ((i + 1) * 7) = 128 * 2 ^ (i * 7) := by
      rw [Nat.succ_mul, Nat.pow_add, Nat.mul_comm]
    have hfits : c.toNat % 128 * 2 ^ (i * 7) + 2 ^ (i * 7) ≤ 2 ^ ((i + 1) * 7) := by
      rw [hpow, ← Nat.succ_mul]
      exact Nat.mul_le_mul_right _ hlt
    have hor := toNat_orChr_lt (b := c &&& 127#8) hn (by rw [and_127]; omega)
    rw [and_127] at hor
    obtain ⟨n', htake, hn'⟩ := @ih (orChr n (some (c &&& 127#8)) (i * 7)) (i + 1) ha (by omega)
      (by omega)
    refine ⟨n', ?_, ?_⟩
    · rw [List.length_cons, show a.length + 1 + m = a.length + m + 1 by omega, List.cons_append,
        takeLength, if_neg (by rw [and_128]; omega), htake,
        show i + 1 + a.length = i + (a.length + 1) by omega]
    · rw [hn', hor, varintValue_cons, hpow]
      ring

theorem toNat_orChr_low (hi : i ≤ 3) (hn : n.toNat < 2 ^ (i * 7)) (hb : b.toNat < 128) :
    (orChr n (some (b &&& 127#8)) (i * 7)).toNat = n.toNat + b.toNat * 2 ^ (i * 7) := by
  have hle : 2 ^ (i * 7) ≤ 2 ^ 21 := Nat.pow_le_pow_right (by decide) (by omega)
  have hmul : b.toNat * 2 ^ (i * 7) ≤ 127 * 2 ^ 21 := Nat.mul_le_mul (by omega) hle
  have h127 : (b &&& 127#8).toNat = b.toNat := by rw [and_127, Nat.mod_eq_of_lt hb]
  rw [toNat_orChr_lt hn (by rw [h127]; omega), h127]

/-- **The fifth byte**: four of its bits are left, and the highest of them is the sign. -/
theorem toNat_orChr_fifth (b : Byte) (hn : n.toNat < 2 ^ 28) :
    if b.toNat % 16 < 8 then
      (orChr n (some (b &&& 127#8)) 28).toNat = n.toNat + b.toNat % 16 * 2 ^ 28
    else 2 ^ 63 ≤ (orChr n (some (b &&& 127#8)) 28).toNat := by
  have hs : (chrInt (some (b &&& 127#8)) <<< 28).toNat = b.toNat % 16 * 2 ^ 28 := by
    rw [chrInt, BitVec.toNat_shiftLeft, BitVec.toNat_setWidth, and_127, Nat.shiftLeft_eq]
    omega
  split
  · next hlt =>
    have hint := toNat_sizeOfInt (i := chrInt (some (b &&& 127#8)) <<< 28) (by rw [hs]; omega)
    rw [orChr, BitVec.toNat_or, hint, hs, Nat.or_comm, Nat.mul_comm,
      ← Nat.two_pow_add_eq_or_of_lt hn, Nat.add_comm]
  · next hge =>
    have hm : (chrInt (some (b &&& 127#8)) <<< 28).msb = true := by
      rw [BitVec.msb_eq_decide, hs]
      simp
      omega
    rw [orChr, BitVec.toNat_or, sizeOfInt, BitVec.toNat_signExtend, hm, if_pos rfl]
    exact le_trans (by omega) Nat.right_le_or

/-- What is made of a number in base 128. -/
structure ReadAs (e : Bytes) (n : BitVec 64) : Prop where
  exact : fifthByte e % 16 < 8 → n.toNat = low28 e + fifthByte e % 16 * 2 ^ 28
  huge : 8 ≤ fifthByte e % 16 → 2 ^ 63 ≤ n.toNat

/-- **A number in base 128 is read as a length**, with the low 32 bits of its value. -/
theorem exists_isLength (he : IsVarint e) : ∃ n, IsLength e n ∧ ReadAs e n := by
  obtain ⟨hlen, a, b, rfl, ha, hb⟩ := he
  have hlt : a.length < 5 := by
    rw [List.length_append] at hlen
    exact hlen
  obtain ⟨n, htake, hn⟩ := takeLength_high (i := 0) (n := 0#64) (m := varintMax - a.length) ha
    (by omega) (by decide) [b]
  have hn : n.toNat = varintValue a := by simpa using hn
  rw [show a.length + (varintMax - a.length) = varintMax by unfold varintMax; omega,
    show varintMax - a.length = (4 - a.length) + 1 by unfold varintMax; omega, takeLength,
    if_pos ((and_128 b).mpr hb), Nat.zero_add] at htake
  refine ⟨_, ⟨a.length, htake, by unfold varintMax; omega⟩, ?_⟩
  have hval := varintValue_lt a
  by_cases h4 : a.length = 4
  · have hlow : low28 (a ++ [b]) = varintValue a := by rw [low28, List.take_left' h4]
    have hor := toNat_orChr_fifth (n := n) b (by rw [hn]; rw [h4] at hval; exact hval)
    rw [h4]
    constructor
    · intro h8
      rw [fifthByte_concat h4] at h8 ⊢
      rw [if_pos h8] at hor
      rw [hor, hn, hlow]
    · intro h8
      rw [fifthByte_concat h4] at h8
      rw [if_neg (Nat.not_lt.mpr h8)] at hor
      exact hor
  · have hle : (a ++ [b]).length ≤ 4 := by
      rw [List.length_append, List.length_singleton]
      omega
    have hpow : n.toNat < 2 ^ (a.length * 7) := by
      rw [hn, Nat.mul_comm, Nat.pow_mul]
      exact hval
    have hor := toNat_orChr_low (show a.length ≤ 3 by omega) hpow hb
    constructor
    · intro _
      rw [hor, hn, low28_of_length_le hle, fifthByte_of_length_le hle, varintValue_concat,
        Nat.mod_eq_of_lt hb]
      omega
    · intro h8
      rw [fifthByte_of_length_le hle] at h8
      omega

theorem takeLength_digits {idx : ℕ} (h : takeLength n i m e = some (n', idx, []))
    (hidx : idx ≠ i + m) :
    e.length ≤ m ∧ ∃ a b, e = a ++ [b] ∧ (∀ c ∈ a, 128 ≤ c.toNat) ∧ b.toNat < 128 := by
  induction m generalizing n i e with
  | zero =>
    cases h
    exact absurd rfl hidx
  | succ m ih =>
    cases e with
    | nil => cases h
    | cons c s =>
      rw [takeLength] at h
      split at h
      · next hc =>
        cases h
        exact ⟨Nat.succ_le_succ (Nat.zero_le m), [], c, rfl, List.forall_mem_nil _,
          (and_128 c).mp hc⟩
      · next hc =>
        rw [and_128, Nat.not_lt] at hc
        obtain ⟨hlen, a, b, rfl, ha, hb⟩ := ih h (by omega)
        exact ⟨Nat.succ_le_succ hlen, c :: a, b, rfl, List.forall_mem_cons.mpr ⟨hc, ha⟩, hb⟩

theorem IsLength.isVarint (h : IsLength e n) : IsVarint e := by
  obtain ⟨idx, h, hidx⟩ := h
  obtain ⟨hlen, hdigits⟩ := takeLength_digits h (by rwa [Nat.zero_add])
  exact ⟨hlen, hdigits⟩

theorem IsLength.unique (h : IsLength e n) (h' : IsLength e n') : n = n' := by
  obtain ⟨idx, h, -⟩ := h
  obtain ⟨idx', h', -⟩ := h'
  cases h.symm.trans h'
  rfl

theorem IsLength.readAs (h : IsLength e n) : ReadAs e n := by
  obtain ⟨n', h', hread⟩ := exists_isLength h.isVarint
  rwa [h.unique h']

theorem IsLength.lt_iff (h : IsLength e n) :
    n.toNat < 2 ^ 28 ↔ fifthByte e % 16 = 0 := by
  have hlow := low28_lt e
  constructor
  · intro hlt
    rcases Nat.lt_or_ge (fifthByte e % 16) 8 with h8 | h8
    · have := h.readAs.exact h8
      omega
    · have := h.readAs.huge h8
      omega
  · intro h0
    rw [h.readAs.exact (by omega), h0]
    omega

theorem IsLength.eq_low28 (h : IsLength e n) (h0 : fifthByte e % 16 = 0) : n.toNat = low28 e := by
  rw [h.readAs.exact (by omega), h0]
  omega

/-- **A length is read as what it is** if no bit of its fifth byte is lost or becomes the sign. -/
theorem IsLength.eq_value_iff (h : IsLength e n) :
    n.toNat = varintValue e ↔ fifthByte e < 8 := by
  obtain ⟨hvalue, hfifth⟩ := h.isVarint.value
  have hlow := low28_lt e
  rw [hvalue]
  rcases Nat.lt_or_ge (fifthByte e % 16) 8 with h8 | h8
  · rw [h.readAs.exact h8]
    omega
  · have := h.readAs.huge h8
    omega

end Reader

/-! ## The writer -/

theorem toNat_byteOf_lt {n : ℕ} (h : n < 256) : (byteOf n).toNat = n := by
  rw [toNat_byteOf]
  omega

theorem byteOf_or (n : ℕ) : byteOf (n ||| 0x80) = byteOf (n % 128 + 128) := by
  have hor : byteOf (n ||| 0x80) = byteOf n ||| 0x80#8 :=
    BitVec.eq_of_toNat_eq (by simp [byteOf])
  have hmod : n % 128 = (byteOf n).toNat % 128 := by rw [toNat_byteOf]; omega
  rw [hor, hmod]
  generalize byteOf n = b
  revert b
  decide

theorem putVarint_eq {n : ℕ} (h : n < 2 ^ 35) : putVarint n = varint varintMax n := by
  have hs : ∀ k, n >>> k = n / 2 ^ k := Nat.shiftRight_eq_div_pow n
  simp only [putVarint, varintMax, varint, byteOf_or, hs, Nat.div_div_eq_div_mul]
  split_ifs
  all_goals first | omega | rfl

theorem varint_digits {k n : ℕ} (h : n < 128 ^ (k + 1)) :
    varintValue (varint (k + 1) n) = n ∧ ∃ a b, varint (k + 1) n = a ++ [b] ∧
      (∀ c ∈ a, 128 ≤ c.toNat) ∧ b.toNat < 128 := by
  have hlast : ∀ j m, m < 128 → varintValue (varint (j + 1) m) = m ∧ ∃ a b,
      varint (j + 1) m = a ++ [b] ∧ (∀ c ∈ a, 128 ≤ c.toNat) ∧ b.toNat < 128 := by
    intro j m hm
    have hto := toNat_byteOf_lt (show m < 256 by omega)
    rw [varint, if_pos hm]
    refine ⟨?_, [], byteOf m, rfl, List.forall_mem_nil _, by omega⟩
    rw [varintValue_cons, hto, Nat.mod_eq_of_lt hm]
    rfl
  induction k generalizing n with
  | zero => exact hlast 0 n (by simpa using h)
  | succ k ih =>
    by_cases hlt : n < 128
    · exact hlast (k + 1) n hlt
    have hdiv : n / 128 < 128 ^ (k + 1) := by
      rw [Nat.div_lt_iff_lt_mul (by decide)]
      rwa [Nat.pow_succ] at h
    obtain ⟨hvalue, a, b, hab, ha, hb⟩ := ih hdiv
    have hto := toNat_byteOf_lt (show n % 128 + 128 < 256 by omega)
    rw [varint, if_neg hlt]
    refine ⟨?_, byteOf (n % 128 + 128) :: a, b, by rw [hab]; rfl,
      List.forall_mem_cons.mpr ⟨by omega, ha⟩, hb⟩
    rw [varintValue_cons, hto, hvalue]
    omega

theorem isVarint_putVarint {n : ℕ} (h : n < 2 ^ 35) :
    IsVarint (putVarint n) ∧ varintValue (putVarint n) = n := by
  obtain ⟨hvalue, hdigits⟩ := varint_digits (k := 4) h
  rw [putVarint_eq h]
  exact ⟨⟨length_varint_le varintMax n, hdigits⟩, hvalue⟩

/-- **The length of a block is read back**, with whatever follows it. -/
theorem takeLength_putVarint {n : ℕ} (h : n < 2 ^ 31) (rest : Bytes) :
    ∃ m idx, takeLength 0#64 0 varintMax (putVarint n ++ rest) = some (m, idx, rest) ∧
      m.toNat = n ∧ idx ≠ varintMax := by
  obtain ⟨hvarint, hvalue⟩ := isVarint_putVarint (show n < 2 ^ 35 by omega)
  obtain ⟨m, hm, -⟩ := exists_isLength hvarint
  have hfifth := hvarint.value.1
  have hexact := hm.eq_value_iff.mpr (by omega)
  obtain ⟨idx, htake, hidx⟩ := hm
  exact ⟨m, idx, takeLength_append rest htake, hexact.trans hvalue, hidx⟩

end Snzip
