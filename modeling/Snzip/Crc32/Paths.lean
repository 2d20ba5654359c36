import Mathlib.Data.Nat.Bitwise
import Snzip.Crc32.Checksum
import Snzip.Lib.Crc

set_option autoImplicit false

/-!
# The paths of CRC-32C

`calculate_crc32c` of a build with SSE 4.2 calls through a function pointer, which is set on the
first call: to the form that uses the CRC instructions, or to null, where the tables are used.

* `bitwiseCrc32c`: the reflected update with the polynomial `0x82F63B78`, bit by bit;
* `at_eq_crcBits`: a table holds the shifts of every byte; **`sb8Slice_eq`**: eight bytes at once;
* `calculateCrc32cSse42`: the form with the instructions, on 64-bit and on 32-bit machines;
* `selectCrc32cFunc`, `calculateCrc32cThrough`: the calls through the pointer;
* **`crc_paths_agree`**: every path is the bitwise update.
-/

namespace Snzip

open CProg

/-- The polynomial of CRC-32C, with its bits reversed. -/
def crc32cPoly : BitVec 32 := 0x82F63B78#32

/-- The update bit by bit. -/
def bitwiseCrc32c (crc : BitVec 32) (buf : Bytes) : BitVec 32 := buf.foldl (crcByte crc32cPoly) crc

@[simp] theorem bitwiseCrc32c_nil (crc : BitVec 32) : bitwiseCrc32c crc [] = crc := rfl

theorem bitwiseCrc32c_append (crc : BitVec 32) (p q : Bytes) :
    bitwiseCrc32c crc (p ++ q) = bitwiseCrc32c (bitwiseCrc32c crc p) q := List.foldl_append

theorem bitwiseCrc32c_word {p : Bytes} (hp : p.length = 4) (crc : BitVec 32) :
    bitwiseCrc32c crc p = crcBits crc32cPoly 32 (crc ^^^ leWord p) := by
  have hword := foldl_crcByte crc32cPoly (by decide) (p := p) (by omega) crc
  rw [hp] at hword
  rw [leWord, List.take_of_length_le (by omega)]
  exact hword

/-! ## The tables -/

/-- The table `t` holds the results of `k` shifts. -/
def Tabulates (t : CrcTable) (k : ℕ) : Prop :=
  t.toList = (List.range 256).map fun i => crcBits crc32cPoly k (BitVec.ofNat 32 i)

theorem at_eq_crcBits {t : CrcTable} {k : ℕ} (ht : Tabulates t k) (x : BitVec 32) :
    t.at x = crcBits crc32cPoly k (lowBits 8 x) := by
  have hindex : (x &&& 0xff#32).toNat = x.toNat % 256 := by
    rw [BitVec.toNat_and]
    exact Nat.and_two_pow_sub_one_eq_mod x.toNat 8
  have hlow : BitVec.ofNat 32 (x.toNat % 256) = lowBits 8 x := by
    apply BitVec.eq_of_toNat_eq
    simp [lowBits]
  have hmod : x.toNat % 256 < 256 := Nat.mod_lt _ (by decide)
  rw [CrcTable.at, hindex, Array.getD_eq_getD_getElem?, ← Array.getElem?_toList, ht,
    List.getElem?_map, List.getElem?_range hmod, Option.map_some, Option.getD_some, hlow]

/-- Eight shifts of every entry give the entries of the next table. -/
def Continues (t t' : CrcTable) : Prop := t'.toList = t.toList.map (crcBits crc32cPoly 8)

theorem Tabulates.next {t t' : CrcTable} {k : ℕ} (ht : Tabulates t k) (h : Continues t t') :
    Tabulates t' (8 + k) := by
  unfold Tabulates
  rw [h, ht, List.map_map]
  refine List.map_congr_left fun i _ => ?_
  rw [Function.comp_apply, crcBits_add]

instance (t : CrcTable) (k : ℕ) : Decidable (Tabulates t k) := decEq t.toList _

instance (t t' : CrcTable) : Decidable (Continues t t') := decEq t'.toList _

theorem crc_tables :
    crc32Table = sctpCrcTableil8O32 ∧ Tabulates sctpCrcTableil8O32 8 ∧
      Continues sctpCrcTableil8O32 sctpCrcTableil8O40 ∧
      Continues sctpCrcTableil8O40 sctpCrcTableil8O48 ∧
      Continues sctpCrcTableil8O48 sctpCrcTableil8O56 ∧
      Continues sctpCrcTableil8O56 sctpCrcTableil8O64 ∧
      Continues sctpCrcTableil8O64 sctpCrcTableil8O72 ∧
      Continues sctpCrcTableil8O72 sctpCrcTableil8O80 ∧
      Continues sctpCrcTableil8O80 sctpCrcTableil8O88 := by
  decide +kernel

theorem tabulates_o32 : Tabulates sctpCrcTableil8O32 8 := crc_tables.2.1

theorem tabulates_o40 : Tabulates sctpCrcTableil8O40 16 := tabulates_o32.next crc_tables.2.2.1

theorem tabulates_o48 : Tabulates sctpCrcTableil8O48 24 := tabulates_o40.next crc_tables.2.2.2.1

theorem tabulates_o56 : Tabulates sctpCrcTableil8O56 32 := tabulates_o48.next crc_tables.2.2.2.2.1

theorem tabulates_o64 : Tabulates sctpCrcTableil8O64 40 := tabulates_o56.next crc_tables.2.2.2.2.2.1

theorem tabulates_o72 : Tabulates sctpCrcTableil8O72 48 :=
  tabulates_o64.next crc_tables.2.2.2.2.2.2.1

theorem tabulates_o80 : Tabulates sctpCrcTableil8O80 56 :=
  tabulates_o72.next crc_tables.2.2.2.2.2.2.2.1

theorem tabulates_o88 : Tabulates sctpCrcTableil8O88 64 :=
  tabulates_o80.next crc_tables.2.2.2.2.2.2.2.2

/-! ## The forms with tables -/

/-- **A byte at a time**: the entry for the low byte, and the others moved down. -/
theorem sb8Byte_eq : sb8Byte = crcByte crc32cPoly := by
  funext crc b
  have hbyte : (b.setWidth 32) >>> 8 = 0#32 := by
    apply BitVec.eq_of_toNat_eq
    have hb : b.toNat < 2 ^ 8 := b.isLt
    simp [Nat.shiftRight_eq_div_pow]
    omega
  have hsplit := crcBits_split crc32cPoly 0 8 (crc ^^^ b.setWidth 32)
  rw [BitVec.ushiftRight_xor_distrib, hbyte, BitVec.xor_zero] at hsplit
  rw [sb8Byte, at_eq_crcBits tabulates_o32]
  exact hsplit.symm

theorem crcBits_four_bytes (k : ℕ) (x : BitVec 32) :
    crcBits crc32cPoly (k + 32) x =
      crcBits crc32cPoly (k + 32) (lowBits 8 x) ^^^
        crcBits crc32cPoly (k + 24) (lowBits 8 (x >>> 8)) ^^^
        crcBits crc32cPoly (k + 16) (lowBits 8 (x >>> 16)) ^^^
        crcBits crc32cPoly (k + 8) (lowBits 8 (x >>> 16 >>> 8)) := by
  have hout : x >>> 16 >>> 8 >>> 8 = 0#32 := by
    apply BitVec.eq_of_getLsbD_eq
    intro i hi
    simp only [BitVec.getLsbD_ushiftRight, BitVec.getLsbD_zero]
    exact BitVec.getLsbD_of_ge x _ (by omega)
  have hlast := crcBits_split crc32cPoly k 8 (x >>> 16 >>> 8)
  rw [hout, crcBits_zero, BitVec.xor_zero] at hlast
  rw [crcBits_split crc32cPoly (k + 24) 8 x, crcBits_split crc32cPoly (k + 16) 8 (x >>> 8),
    ← BitVec.shiftRight_add, crcBits_split crc32cPoly (k + 8) 8 (x >>> 16), hlast,
    BitVec.xor_assoc, BitVec.xor_assoc]

/-- **Eight bytes at a time.** -/
theorem sb8Slice_eq {p : Bytes} (hp : p.length = 8) (crc : BitVec 32) :
    sb8Slice crc p = bitwiseCrc32c crc p := by
  have htake : (p.take 4).length = 4 := by rw [List.length_take]; omega
  have hdrop : (p.drop 4).length = 4 := by rw [List.length_drop]; omega
  have hword : leWord (p.take 4) = leWord p := by rw [leWord, leWord, List.take_take, Nat.min_self]
  have hhigh := crcBits_four_bytes 32 (crc ^^^ leWord p)
  have hlow := crcBits_four_bytes 0 (leWord (p.drop 4))
  calc sb8Slice crc p
      = crcBits crc32cPoly (32 + 32) (crc ^^^ leWord p) ^^^
          crcBits crc32cPoly 32 (leWord (p.drop 4)) := by
        simp only [sb8Slice, at_eq_crcBits tabulates_o32, at_eq_crcBits tabulates_o40,
          at_eq_crcBits tabulates_o48, at_eq_crcBits tabulates_o56, at_eq_crcBits tabulates_o64,
          at_eq_crcBits tabulates_o72, at_eq_crcBits tabulates_o80, at_eq_crcBits tabulates_o88]
        rw [hhigh, hlow]
        simp only [BitVec.xor_assoc]
    _ = bitwiseCrc32c (bitwiseCrc32c crc (p.take 4)) (p.drop 4) := by
        rw [bitwiseCrc32c_word htake, bitwiseCrc32c_word hdrop, hword,
          crcBits_xor crc32cPoly 32 (crcBits _ _ _), ← crcBits_add]
    _ = bitwiseCrc32c crc p := by rw [← bitwiseCrc32c_append, List.take_append_drop]

theorem singletableCrc32c_eq (crc : BitVec 32) (buf : Bytes) :
    singletableCrc32c crc buf = bitwiseCrc32c crc buf := by
  have htable : (fun (crc : BitVec 32) (b : Byte) =>
      crc32Table.at (crc ^^^ b.setWidth 32) ^^^ (crc >>> 8)) = sb8Byte := by
    funext crc b
    rw [crc_tables.1]
    rfl
  rw [singletableCrc32c, htable, sb8Byte_eq, bitwiseCrc32c]

theorem foldl_sb8Slice (n : ℕ) {p : Bytes} (hp : p.length = 8 * n) (crc : BitVec 32) :
    (blocks 8 p).foldl sb8Slice crc = bitwiseCrc32c crc p := by
  induction n generalizing p crc with
  | zero =>
    obtain rfl : p = [] := List.length_eq_zero_iff.mp (by omega)
    simp
  | succ n ih =>
    have hne : p ≠ [] := List.ne_nil_of_length_pos (by omega)
    have htake : (p.take 8).length = 8 := by rw [List.length_take]; omega
    have hdrop : (p.drop 8).length = 8 * n := by rw [List.length_drop]; omega
    rw [blocks_of_ne_nil (by decide) hne, List.foldl_cons, sb8Slice_eq htake, ih hdrop,
      ← bitwiseCrc32c_append, List.take_append_drop]

/-- The bytes before a word boundary, the slices and the bytes that are left. -/
theorem crc32cSb8_eq (crc : BitVec 32) (p : Bytes) (initBytes : ℕ) :
    crc32cSb8 crc p initBytes = bitwiseCrc32c crc p := by
  have hslices : ((p.drop initBytes).take ((p.length - initBytes) / 8 * 8)).length =
      8 * ((p.length - initBytes) / 8) := by
    rw [List.length_take, List.length_drop]
    omega
  rw [crc32cSb8]
  simp only [sb8Byte_eq]
  rw [foldl_sb8Slice _ hslices]
  change bitwiseCrc32c (bitwiseCrc32c (bitwiseCrc32c crc _) _) _ = _
  rw [← bitwiseCrc32c_append, ← bitwiseCrc32c_append, ← List.drop_drop,
    List.take_append_drop, List.take_append_drop]

theorem multitableCrc32c_eq (crc : BitVec 32) (addr : ℕ) (buffer : Bytes) :
    multitableCrc32c crc addr buffer = bitwiseCrc32c crc buffer := by
  rw [multitableCrc32c]
  split
  case isTrue h =>
    rw [List.length_eq_zero_iff.mp h]
    rfl
  case isFalse h => exact crc32cSb8_eq crc buffer _

theorem calculateCrc32c_eq (crc : BitVec 32) (addr : ℕ) (buffer : Bytes) :
    calculateCrc32c crc addr buffer = bitwiseCrc32c crc buffer := by
  rw [calculateCrc32c, singletableCrc32c_eq, multitableCrc32c_eq, ite_self]

/-! ## The form with the instructions -/

/-- `_mm_crc32_uN`: the update over the bits of a word. -/
def mmCrc32 {n : ℕ} (crc : BitVec 32) (v : BitVec n) : BitVec 32 :=
  (bitsOf v).foldl (crcFeed crc32cPoly) crc

/-- The instruction for `k` bytes; the pointer moves behind them. -/
def mmCrc32Next (k : ℕ) (s : BitVec 32 × Bytes) : BitVec 32 × Bytes :=
  (mmCrc32 s.1 (BitVec.ofNat (8 * k) (leVal (s.2.take k))), s.2.drop k)

/-- The part before the last three bytes; `x64` says that the 64-bit instruction is there. -/
def sse42Words (x64 : Bool) (crc : BitVec 32) (buffer : Bytes) : BitVec 32 × Bytes :=
  let length := buffer.length
  if x64 then
    let s := (mmCrc32Next 8)^[length / 8] (crc, buffer)
    if length &&& 4 ≠ 0 then mmCrc32Next 4 s else s
  else (mmCrc32Next 4)^[length / 4] (crc, buffer)

/-- The checksum with the instructions of SSE 4.2. -/
def calculateCrc32cSse42 (x64 : Bool) (crc : BitVec 32) (buffer : Bytes) : BitVec 32 :=
  let length := buffer.length
  let s := sse42Words x64 crc buffer
  let s := if length &&& 2 ≠ 0 then mmCrc32Next 2 s else s
  let s := if length &&& 1 ≠ 0 then mmCrc32Next 1 s else s
  s.1

/-- Of the update over `buffer` from `crc`, the state `s` has the last `n` bytes before it. -/
structure Remaining (crc : BitVec 32) (buffer : Bytes) (n : ℕ) (s : BitVec 32 × Bytes) : Prop where
  length : s.2.length = n
  result : bitwiseCrc32c s.1 s.2 = bitwiseCrc32c crc buffer

section Instructions

variable {crc : BitVec 32} {buffer : Bytes} {s : BitVec 32 × Bytes}

theorem Remaining.next {n k : ℕ} (h : Remaining crc buffer (n + k) s) :
    Remaining crc buffer n (mmCrc32Next k s) := by
  have htake : (s.2.take k).length = k := by
    rw [List.length_take, h.length]
    omega
  have hword := foldl_crcFeed_bytes crc32cPoly (by decide) (s.2.take k) s.1
  rw [← bitsOf_leVal, htake] at hword
  refine ⟨?_, ?_⟩
  · rw [mmCrc32Next, List.length_drop, h.length, Nat.add_sub_cancel]
  · rw [mmCrc32Next, mmCrc32, hword, ← h.result]
    change bitwiseCrc32c (bitwiseCrc32c s.1 (s.2.take k)) (s.2.drop k) = _
    rw [← bitwiseCrc32c_append, List.take_append_drop]

theorem Remaining.iterate {n k : ℕ} (q : ℕ) (h : Remaining crc buffer (n + k * q) s) :
    Remaining crc buffer n ((mmCrc32Next k)^[q] s) := by
  induction q generalizing s with
  | zero => exact h
  | succ q ih =>
    rw [Nat.mul_succ, ← Nat.add_assoc] at h
    exact ih h.next

theorem Remaining.bit {length k i : ℕ} (hk : k = 2 ^ i)
    (h : Remaining crc buffer (length % (k * 2)) s) :
    Remaining crc buffer (length % k)
      (if length &&& k ≠ 0 then mmCrc32Next k s else s) := by
  have hpos : 0 < k := hk ▸ Nat.two_pow_pos i
  have hand : length &&& k = (length / k % 2) * k := by
    rw [hk, Nat.and_two_pow, Nat.toNat_testBit]
  rw [Nat.mod_mul] at h
  rw [hand]
  rcases Nat.mod_two_eq_zero_or_one (length / k) with hbit | hbit
  · rw [hbit, Nat.mul_zero, Nat.add_zero] at h
    rwa [hbit, Nat.zero_mul, if_neg (by simp)]
  · rw [hbit, Nat.mul_one] at h
    rw [hbit, Nat.one_mul, if_pos (by omega)]
    exact h.next

end Instructions

theorem remaining_sse42Words (x64 : Bool) (crc : BitVec 32) (buffer : Bytes) :
    Remaining crc buffer (buffer.length % 4) (sse42Words x64 crc buffer) := by
  have hstart : Remaining crc buffer buffer.length (crc, buffer) := ⟨rfl, rfl⟩
  cases x64 with
  | true =>
    rw [← Nat.mod_add_div buffer.length 8] at hstart
    rw [sse42Words, if_pos rfl]
    exact (hstart.iterate (buffer.length / 8)).bit (k := 4) (i := 2) rfl
  | false =>
    rw [← Nat.mod_add_div buffer.length 4] at hstart
    exact hstart.iterate (buffer.length / 4)

theorem calculateCrc32cSse42_eq (x64 : Bool) (crc : BitVec 32) (buffer : Bytes) :
    calculateCrc32cSse42 x64 crc buffer = bitwiseCrc32c crc buffer := by
  have hend := ((remaining_sse42Words x64 crc buffer).bit (k := 2) (i := 1) rfl).bit
    (k := 1) (i := 0) rfl
  have hnil := List.length_eq_zero_iff.mp (hend.length.trans (Nat.mod_one _))
  have hresult := hend.result
  rwa [hnil, bitwiseCrc32c_nil] at hresult

/-! ## The function pointer -/

/-- What `crc32c_func` points to. -/
inductive Crc32cFunc
  | selectCrc32cFunc
  | calculateCrc32cSse42
  | null
  deriving DecidableEq, Repr

/-- What the CRC depends on in the machine. -/
structure Machine where
  sse42IsAvailable : Bool
  x64 : Bool

/-- What the pointer is set to on the first call. -/
def Machine.selected (m : Machine) : Crc32cFunc :=
  if m.sse42IsAvailable then .calculateCrc32cSse42 else .null

theorem Machine.selected_ne (m : Machine) : m.selected ≠ .selectCrc32cFunc := by
  rw [selected]
  split <;> decide

/-- `calculate_crc32c` with the pointer `func`, and the pointer after the call. -/
def calculateCrc32cThrough (m : Machine) (func : Crc32cFunc) (crc : BitVec 32) (addr : ℕ)
    (buffer : Bytes) : BitVec 32 × Crc32cFunc :=
  match func with
  | .selectCrc32cFunc => calculateCrc32cThrough m m.selected crc addr buffer
  | .calculateCrc32cSse42 => (calculateCrc32cSse42 m.x64 crc buffer, .calculateCrc32cSse42)
  | .null => (calculateCrc32c crc addr buffer, .null)
termination_by if func = .selectCrc32cFunc then 1 else 0
decreasing_by
  rw [if_neg m.selected_ne]
  decide

/-- The pointer is set, and the call is made again. -/
def selectCrc32cFunc (m : Machine) (crc : BitVec 32) (addr : ℕ) (buffer : Bytes) :
    BitVec 32 × Crc32cFunc :=
  calculateCrc32cThrough m m.selected crc addr buffer

theorem calculateCrc32cThrough_select (m : Machine) (crc : BitVec 32) (addr : ℕ) (buffer : Bytes) :
    calculateCrc32cThrough m .selectCrc32cFunc crc addr buffer =
      selectCrc32cFunc m crc addr buffer := by
  rw [calculateCrc32cThrough, selectCrc32cFunc]

theorem calculateCrc32cThrough_eq (m : Machine) (func : Crc32cFunc) (crc : BitVec 32) (addr : ℕ)
    (buffer : Bytes) :
    (calculateCrc32cThrough m func crc addr buffer).1 = bitwiseCrc32c crc buffer := by
  induction func using calculateCrc32cThrough.induct with
  | m => exact m
  | case1 ih => rwa [calculateCrc32cThrough]
  | case2 => rw [calculateCrc32cThrough, calculateCrc32cSse42_eq]
  | case3 => rw [calculateCrc32cThrough, calculateCrc32c_eq]

/-- **All paths agree** with the bitwise update, whatever the pointer, the machine and the address
are. -/
theorem crc_paths_agree (m : Machine) (func : Crc32cFunc) (crc : BitVec 32) (addr : ℕ)
    (buffer : Bytes) :
    (calculateCrc32cThrough m func crc addr buffer).1 = bitwiseCrc32c crc buffer ∧
      (selectCrc32cFunc m crc addr buffer).1 = bitwiseCrc32c crc buffer ∧
      (∀ x64, calculateCrc32cSse42 x64 crc buffer = bitwiseCrc32c crc buffer) ∧
      calculateCrc32c crc addr buffer = bitwiseCrc32c crc buffer ∧
      singletableCrc32c crc buffer = bitwiseCrc32c crc buffer ∧
      (4 ≤ buffer.length → multitableCrc32c crc addr buffer = bitwiseCrc32c crc buffer) := by
  refine ⟨calculateCrc32cThrough_eq m func crc addr buffer, ?_,
    fun x64 => calculateCrc32cSse42_eq x64 crc buffer, calculateCrc32c_eq crc addr buffer,
    singletableCrc32c_eq crc buffer, fun _ => multitableCrc32c_eq crc addr buffer⟩
  rw [← calculateCrc32cThrough_select]
  exact calculateCrc32cThrough_eq m _ crc addr buffer

/-- The check value of CRC-32C, from nine bytes at an odd address. -/
theorem crc_paths_agree_check :
    4 ≤ ([49, 50, 51, 52, 53, 54, 55, 56, 57].map byteOf).length ∧
      ~~~ multitableCrc32c 0xffffffff#32 1 ([49, 50, 51, 52, 53, 54, 55, 56, 57].map byteOf) =
        0xE3069283#32 := by
  have hlen : 4 ≤ ([49, 50, 51, 52, 53, 54, 55, 56, 57].map byteOf).length := by decide
  have hpaths := crc_paths_agree ⟨true, true⟩ .selectCrc32cFunc 0xffffffff#32 1
    ([49, 50, 51, 52, 53, 54, 55, 56, 57].map byteOf)
  refine ⟨hlen, ?_⟩
  rw [hpaths.2.2.2.2.2 hlen]
  decide +kernel

end Snzip
