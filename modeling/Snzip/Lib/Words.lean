import Mathlib.Tactic.IntervalCases
import Snzip.Lib.ByteOrder

set_option autoImplicit false

/-!
# Words in memory

A host keeps the bytes of a 32-bit word in one of two orders.

* `bswap32`, **`leBytes_bswap32`**: the other order;
* `ByteOrder`, `storeWord`, `loadWord`, `bigEndian32`: a word in memory, and its conversion from and
  to the order that has the most significant byte first;
* **`storeWord_bigEndian32`**, **`bigEndian32_loadWord`**: what is stored and loaded does not depend
  on the host.
-/

namespace CProg

/-- The bytes of a word in the other order. -/
def bswap32 (x : BitVec 32) : BitVec 32 :=
  (x >>> 24 &&& 0x000000ff#32) ||| (x >>> 8 &&& 0x0000ff00#32) ||| (x <<< 8 &&& 0x00ff0000#32) |||
    (x <<< 24 &&& 0xff000000#32)

/-- The order in which a host keeps the bytes of a word. -/
inductive ByteOrder where
  | little
  | big

/-- A word in memory. -/
def storeWord : ByteOrder → BitVec 32 → Bytes
  | .little, x => leBytes 4 x.toNat
  | .big, x => beBytes 4 x.toNat

/-- A word from memory. -/
def loadWord : ByteOrder → Bytes → BitVec 32
  | .little, bs => BitVec.ofNat 32 (leVal bs)
  | .big, bs => BitVec.ofNat 32 (beVal bs)

/-- The conversion from and to the order that has the most significant byte first. -/
def bigEndian32 : ByteOrder → BitVec 32 → BitVec 32
  | .little, x => bswap32 x
  | .big, x => x

theorem getLsbD_bswap32 (x : BitVec 32) {b k : ℕ} (hb : b < 4) (hk : k < 8) :
    (bswap32 x).getLsbD (k + b * 8) = x.getLsbD (k + (3 - b) * 8) := by
  interval_cases b <;> interval_cases k <;> simp [bswap32]

theorem byteOf_bswap32 (x : BitVec 32) {b : ℕ} (hb : b < 4) :
    byteOf ((bswap32 x).toNat / 2 ^ (b * 8)) = byteOf (x.toNat / 2 ^ ((3 - b) * 8)) := by
  apply BitVec.eq_of_getLsbD_eq
  intro k hk
  rw [byteOf, byteOf, BitVec.getLsbD_ofNat, BitVec.getLsbD_ofNat, Nat.testBit_div_two_pow,
    Nat.testBit_div_two_pow, BitVec.testBit_toNat, BitVec.testBit_toNat, getLsbD_bswap32 x hb hk]

theorem leBytes_four (n : ℕ) :
    leBytes 4 n = [byteOf n, byteOf (n / 2 ^ 8), byteOf (n / 2 ^ 16), byteOf (n / 2 ^ 24)] := by
  simp only [leBytes, Nat.div_div_eq_div_mul]
  rfl

theorem leBytes_bswap32 (x : BitVec 32) : leBytes 4 (bswap32 x).toNat = beBytes 4 x.toNat := by
  have h₀ : byteOf (bswap32 x).toNat = byteOf (x.toNat / 2 ^ 24) := by
    simpa using byteOf_bswap32 x (show 0 < 4 by decide)
  have h₁ : byteOf ((bswap32 x).toNat / 2 ^ 8) = byteOf (x.toNat / 2 ^ 16) :=
    byteOf_bswap32 x (show 1 < 4 by decide)
  have h₂ : byteOf ((bswap32 x).toNat / 2 ^ 16) = byteOf (x.toNat / 2 ^ 8) :=
    byteOf_bswap32 x (show 2 < 4 by decide)
  have h₃ : byteOf ((bswap32 x).toNat / 2 ^ 24) = byteOf x.toNat := by
    simpa using byteOf_bswap32 x (show 3 < 4 by decide)
  rw [beBytes, leBytes_four, leBytes_four, h₀, h₁, h₂, h₃]
  rfl

variable (o : ByteOrder)

/-- **A converted word is stored with the most significant byte first.** -/
theorem storeWord_bigEndian32 (x : BitVec 32) :
    storeWord o (bigEndian32 o x) = beBytes 4 x.toNat := by
  cases o with
  | little => exact leBytes_bswap32 x
  | big => rfl

/-- **Four bytes are loaded as the number that they spell**, the most significant one first. -/
theorem bigEndian32_loadWord {bs : Bytes} (h : bs.length = 4) :
    (bigEndian32 o (loadWord o bs)).toNat = beVal bs := by
  have hle : leVal bs < 2 ^ 32 := by
    have := leVal_lt bs
    rw [h] at this
    omega
  have hbe : beVal bs < 2 ^ 32 := by
    have := beVal_lt bs
    rw [h] at this
    omega
  cases o with
  | little =>
    have hswap := leBytes_bswap32 (BitVec.ofNat 32 (leVal bs))
    rw [BitVec.toNat_ofNat, Nat.mod_eq_of_lt hle, beBytes, ← h, leBytes_leVal, h] at hswap
    have hval := congrArg leVal hswap
    rwa [leVal_leBytes (BitVec.isLt _)] at hval
  | big =>
    change (BitVec.ofNat 32 (beVal bs)).toNat = _
    rw [BitVec.toNat_ofNat, Nat.mod_eq_of_lt hbe]

end CProg
