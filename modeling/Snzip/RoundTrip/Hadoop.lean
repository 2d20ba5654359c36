import Snzip.Format.HadoopSnappy
import Snzip.StreamFormat

set_option autoImplicit false

/-!
# Round trip of the hadoop-snappy format

The size of a block is the block size less an overhead, computed without a sign. For a block size of
38 nothing is left, `fread` reads nothing, and the file is taken for empty.

* `maxInputSize_int`: the sizes for the block sizes that `main` can pass;
* `hadoopEncode`, **`run_hadoopSnappyFormatCompress`**, `unroll_hadoopEncode`;
* **`hadoopSnappy_roundTrip_iff`**: the block sizes with which a file comes back.
-/

namespace Snzip

open CProg

variable {S : Snappy}

/-! ## The block size -/

/-- The subtraction wraps around when the overhead is more than the block size. -/
theorem toNat_maxInputSize {b : BitVec 64} (h0 : b ≠ 0#64) :
    (b.toNat / 6 + 32 ≤ b.toNat →
      (hadoopSnappyMaxInputSize b).toNat = b.toNat - (b.toNat / 6 + 32)) ∧
    (b.toNat < b.toNat / 6 + 32 →
      (hadoopSnappyMaxInputSize b).toNat = 2 ^ 64 + b.toNat - (b.toNat / 6 + 32)) := by
  have hlt := b.isLt
  have hadd : (b / 6#64 + 32#64).toNat = b.toNat / 6 + 32 := by
    have h6 : (6#64).toNat = 6 := rfl
    have h32 : (32#64).toNat = 32 := rfl
    rw [BitVec.toNat_add, BitVec.toNat_udiv, h6, h32]
    exact Nat.mod_eq_of_lt (by omega)
  simp only [hadoopSnappyMaxInputSize, ne_eq, h0, not_false_eq_true, if_true]
  rw [BitVec.toNat_sub, hadd]
  have hc : b.toNat / 6 + 32 < 2 ^ 64 := by omega
  generalize b.toNat / 6 + 32 = c at hc ⊢
  generalize b.toNat = t at hlt ⊢
  constructor <;> intro h <;> omega

theorem toNat_sizeOfInt_neg {i : BitVec 32} (h : 2 ^ 31 ≤ i.toNat) :
    (sizeOfInt i).toNat = 2 ^ 64 - 2 ^ 32 + i.toNat := by
  have hm : i.msb = true := by rw [BitVec.msb_eq_decide]; simp; omega
  have := i.isLt
  rw [sizeOfInt, BitVec.toNat_signExtend, hm, if_pos rfl, BitVec.toNat_setWidth]
  omega

/-- **The size of a block, for the block sizes that `main` can pass**: it fits an `int`, and is 0
for 38 only, or no memory can be had for it. -/
theorem maxInputSize_int (i : BitVec 32) :
    ((hadoopSnappyMaxInputSize (sizeOfInt i)).toNat < 2 ^ 31 ∧
      ((hadoopSnappyMaxInputSize (sizeOfInt i)).toNat = 0 ↔ i = 38#32)) ∨
    2 ^ 63 ≤ (hadoopSnappyMaxInputSize (sizeOfInt i)).toNat ∧ i ≠ 38#32 := by
  by_cases h0 : i = 0#32
  · subst h0
    exact Or.inl (by decide)
  have hi : i.toNat ≠ 0 := fun h => h0 (BitVec.eq_of_toNat_eq h)
  have h38 : i = 38#32 ↔ i.toNat = 38 := by rw [← BitVec.toNat_inj, BitVec.toNat_ofNat]
  have hlt := i.isLt
  by_cases hneg : 2 ^ 31 ≤ i.toNat
  · have hs := toNat_sizeOfInt_neg hneg
    have hne : sizeOfInt i ≠ 0#64 := fun h => by
      rw [h, BitVec.toNat_ofNat] at hs
      omega
    have hsize := (toNat_maxInputSize hne).1 (by omega)
    exact Or.inr ⟨by omega, fun h => by rw [h38] at h; omega⟩
  · have hs := toNat_sizeOfInt (i := i) (by omega)
    have hne : sizeOfInt i ≠ 0#64 := fun h => by
      rw [h, BitVec.toNat_ofNat] at hs
      omega
    rw [h38]
    by_cases hsmall : i.toNat < i.toNat / 6 + 32
    · have hsize := (toNat_maxInputSize hne).2 (by omega)
      rw [hs] at hsize
      exact Or.inr ⟨by omega, fun h => by rw [h38] at h; omega⟩
    · have hsize := (toNat_maxInputSize hne).1 (by omega)
      rw [hs] at hsize
      exact Or.inl ⟨by omega, by omega⟩

/-! ## Compressed files -/

/-- A block with its lengths. -/
def hadoopBlockBytes (S : Snappy) (data : Bytes) : Bytes :=
  beBytes 4 data.length ++ (beBytes 4 (S.compress data).length ++ S.compress data)

/-- A compressed file, with blocks of `n` bytes. -/
def hadoopEncode (S : Snappy) (n : ℕ) (x : Bytes) : Bytes :=
  (blocks n x).flatMap (hadoopBlockBytes S)

theorem length_compress_lt_pow (hS : S.Contract) {d : Bytes} (hd : d.length < 2 ^ 31) :
    (S.compress d).length < 2 ^ 32 := by
  have := hS.compress_le d (by omega)
  omega

theorem run_hadoop_of_large {b : BitVec 64} (h : 2 ^ 63 ≤ (hadoopSnappyMaxInputSize b).toNat)
    (B : Buffering) (x : Bytes) :
    Codec.run B (hadoopSnappyFormatCompress S b) (.opened x) = ⟨some 1, []⟩ := by
  have hm : malloc (hadoopSnappyMaxInputSize b).toNat = false := by
    simp only [malloc, decide_eq_false_iff_not]
    omega
  have hscript : hadoopScript S b false x = ⟨[], .exit 1⟩ := by
    simp only [hadoopScript, hm, Bool.false_and, Bool.not_false, if_true]
  rw [run_opened (refines_hadoopSnappyFormatCompress S b) (by rw [hscript]; exact Or.inl (by simp)),
    hscript]
  rfl

theorem run_hadoop_of_zero {b : BitVec 64} (h : (hadoopSnappyMaxInputSize b).toNat = 0)
    (B : Buffering) (x : Bytes) :
    Codec.run B (hadoopSnappyFormatCompress S b) (.opened x) = ⟨some 0, []⟩ := by
  have hscript : hadoopScript S b false x = ⟨[], .checked 0⟩ := by
    simp only [hadoopScript, h]
    rfl
  rw [run_opened (refines_hadoopSnappyFormatCompress S b) (by rw [hscript]; exact Or.inl (by simp)),
    hscript]
  rfl

theorem run_hadoopSnappyFormatCompress (hS : S.Contract) {b : BitVec 64}
    (h0 : (hadoopSnappyMaxInputSize b).toNat ≠ 0)
    (h31 : (hadoopSnappyMaxInputSize b).toNat < 2 ^ 31) (B : Buffering) (x : Bytes) :
    Codec.run B (hadoopSnappyFormatCompress S b) (.opened x) =
      ⟨some 0, hadoopEncode S (hadoopSnappyMaxInputSize b).toNat x⟩ := by
  have hm : (malloc (hadoopSnappyMaxInputSize b).toNat &&
      malloc (snappyMaxCompressedLength (hadoopSnappyMaxInputSize b).toNat)) = true := by
    rw [snappyMaxCompressedLength_eq (by omega)]
    simp only [malloc, Bool.and_eq_true, decide_eq_true_eq]
    omega
  have hscript : hadoopScript S b false x =
      ⟨(blocks (hadoopSnappyMaxInputSize b).toNat x).flatMap (hadoopWrites S), .checked 0⟩ := by
    simp only [hadoopScript, hm, Bool.not_true, Bool.false_eq_true, if_false, h0]
    simp only [Script.after, List.append_nil]
  have hbuffered : ∀ w ∈ (hadoopScript S b false x).writes, w.Buffered := by
    rw [hscript]
    simp only [List.mem_flatMap, hadoopWrites, List.mem_cons, List.not_mem_nil, or_false]
    rintro w ⟨d, hd, rfl | rfl | rfl⟩
    · exact List.ne_nil_of_length_pos (by rw [length_beBytes]; decide)
    · exact List.ne_nil_of_length_pos (by rw [length_beBytes]; decide)
    · exact hS.compress_ne_nil (Nat.lt_of_le_of_lt (length_of_mem_blocks hd) (by omega))
  have hblock : (fun d => bytesOf (hadoopWrites S d)) = hadoopBlockBytes S :=
    funext fun d => by simp [hadoopWrites, hadoopBlockBytes, Write.bytes]
  rw [run_opened (refines_hadoopSnappyFormatCompress S b) (Or.inl hbuffered), hscript]
  simp [Script.result, hadoopEncode, hblock]

section Decode

variable {fault : Bool}

/-- **A block in front of any rest.** -/
theorem unroll_hadoopBlock (hS : S.Contract) {d : Bytes} (hne : d ≠ []) (hd : d.length < 2 ^ 31)
    (rest : Bytes) : unroll (hadoopPassOf S fault) 0 (hadoopBlockBytes S d ++ rest) =
      (unroll (hadoopPassOf S fault) 0 rest).after [.fwriteOk d] := by
  have hhead : hadoopPassOf S fault 0 (beBytes 4 d.length ++
      (beBytes 4 (S.compress d).length ++ (S.compress d ++ rest))) =
        .again [] d.length (beBytes 4 (S.compress d).length ++ (S.compress d ++ rest)) :=
    hadoopPassOf_length (by omega) _
  have hsub : hadoopPassOf S fault d.length
      (beBytes 4 (S.compress d).length ++ (S.compress d ++ rest)) =
        .again [.fwriteOk d] 0 rest :=
    hadoopPassOf_again_iff.mpr (Or.inl ⟨List.length_pos_iff.mpr hne, S.compress d, d, rfl,
      hS.compress_ne_nil (by omega), length_compress_lt_pow hS hd,
      hS.uncompressWithin_compress (by omega) (Nat.le_refl _), hne, rfl, (Nat.sub_self _).symm⟩)
  have hlen : ∀ n, (beBytes 4 n).length = 4 := length_beBytes 4
  rw [hadoopBlockBytes, List.append_assoc, List.append_assoc, unroll_again hhead (by
      simp only [List.length_append, hlen]
      omega), unroll_again hsub (by
      simp only [List.length_append, hlen]
      omega), Script.after_append]
  rfl

theorem unroll_hadoopEncode (hS : S.Contract) {n : ℕ} (hn : n < 2 ^ 31) (x : Bytes) :
    unroll (hadoopPassOf S false) 0 (hadoopEncode S n x) =
      ⟨(blocks n x).map .fwriteOk, .status 0⟩ := by
  have hend : unroll (hadoopPassOf S false) 0 [] = ⟨[], .status 0⟩ := unroll_finish rfl
  have hrows := unroll_flatMap (p := hadoopPassOf S false) (r := 0) (l := blocks n x)
    (fun d hd rest => unroll_hadoopBlock hS (ne_nil_of_mem_blocks hd)
      (Nat.lt_of_le_of_lt (length_of_mem_blocks hd) hn) rest) []
  rw [List.append_nil, hend] at hrows
  rw [hadoopEncode, hrows, Script.after, List.map_eq_flatMap, List.append_nil]

end Decode

theorem run_hadoopSnappyFormatUncompress (hS : S.Contract) {n : ℕ} (h0 : n ≠ 0) (hn : n < 2 ^ 31)
    (g : Globals) (B : Buffering) (x : Bytes) :
    Codec.run B (hadoopSnappyFormatUncompress S g false) (.opened (hadoopEncode S n x)) =
      ⟨some 0, x⟩ := by
  have hscript : hadoopUnscript S g false false (hadoopEncode S n x) =
      ⟨(blocks n x).map .fwriteOk, .status 0⟩ := unroll_hadoopEncode hS hn x
  have hrun := run_fwriteOk (refines_hadoopSnappyFormatUncompress S g false) hscript (Or.inl rfl)
    (fun d hd => ne_nil_of_mem_blocks hd) B
  rwa [flatten_blocks (Nat.pos_of_ne_zero h0)] at hrun

/-- **The block sizes with which a file comes back**: all that `main` can pass, except 38 when there
is anything to come back. -/
theorem hadoopSnappy_roundTrip_iff (hS : S.Contract) (g : Globals) (B : Buffering) (i : BitVec 32)
    (x : Bytes) :
    let compressed := Codec.run B (hadoopSnappyFormatCompress S (sizeOfInt i)) (.opened x)
    (compressed.status = some 0 →
      Codec.run B (hadoopSnappyFormatUncompress S g false) (.opened compressed.written) =
        ⟨some 0, x⟩) ↔
    i ≠ 38#32 ∨ x = [] := by
  have hnil : Codec.run B (hadoopSnappyFormatUncompress S g false) (.opened []) =
      ⟨some 0, []⟩ := by
    have := run_hadoopSnappyFormatUncompress hS (n := 1) (by decide) (by decide) g B []
    rwa [hadoopEncode, blocks_nil] at this
  rcases maxInputSize_int i with ⟨h31, h38⟩ | ⟨hlarge, h38⟩
  · by_cases h0 : (hadoopSnappyMaxInputSize (sizeOfInt i)).toNat = 0
    · -- nothing was read
      rw [run_hadoop_of_zero h0]
      simp only [hnil, forall_const, Result.mk.injEq, true_and]
      exact ⟨fun h => Or.inr h.symm, fun h => (h.resolve_left fun h => h (h38.mp h0)).symm⟩
    · rw [run_hadoopSnappyFormatCompress hS h0 h31]
      refine ⟨fun _ => Or.inl fun h => h0 (h38.mpr h), fun _ _ => ?_⟩
      exact run_hadoopSnappyFormatUncompress hS h0 h31 g B x
  · rw [run_hadoop_of_large hlarge]
    refine ⟨fun _ => Or.inl h38, fun _ h => ?_⟩
    cases h

/-- Blocks of one byte, with the literal snappy. -/
theorem hadoopSnappy_roundTrip_ab :
    let compressed :=
      Codec.run (.stdio 4096) (hadoopSnappyFormatCompress literalSnappy (sizeOfInt 39#32))
      (.opened [0x61#8, 0x62#8])
    compressed.status = some 0 →
      Codec.run (.stdio 4096) (hadoopSnappyFormatUncompress literalSnappy .initial false)
        (.opened compressed.written) = ⟨some 0, [0x61#8, 0x62#8]⟩ :=
  (hadoopSnappy_roundTrip_iff contract_literalSnappy .initial (.stdio 4096) 39#32
    [0x61#8, 0x62#8]).mpr
    (Or.inl (by decide))

/-- With a block size of 38 a file is taken for empty, and the status is 0. -/
theorem not_hadoopSnappy_roundTrip :
    let compressed :=
      Codec.run (.stdio 4096) (hadoopSnappyFormatCompress literalSnappy (sizeOfInt 38#32))
      (.opened [0x61#8])
    literalSnappy.Contract ∧ compressed.status = some 0 ∧
      Codec.run (.stdio 4096) (hadoopSnappyFormatUncompress literalSnappy .initial false)
        (.opened compressed.written) ≠ ⟨some 0, [0x61#8]⟩ := by
  refine ⟨contract_literalSnappy, ?_, ?_⟩
  all_goals decide

end Snzip
