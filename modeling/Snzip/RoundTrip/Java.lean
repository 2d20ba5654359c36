import Snzip.Steps
import Snzip.Format.SnappyJava
import Snzip.Format.SnappyInJava
import Snzip.RoundTrip.Hadoop

set_option autoImplicit false

/-!
# Round trip of the snappy-java and snappy-in-java formats

Both are a header and blocks, without an end mark.

* `snappyJavaEncode`, **`run_snappyJavaCompress`**, **`run_snappyJavaUncompress`**;
* `snappyInJavaEncode`, **`run_snappyInJavaCompress`**, **`run_snappyInJavaUncompress`**;
* **`snappyInJava_blockSizes`**: for which block sizes a file comes back.
-/

namespace Snzip

open CProg

variable {S : Snappy}

/-! ## snappy-java -/

/-- The header of a file: the magic and the two versions. -/
def snappyJavaHeader : Bytes := snappyJavaMagic ++ snappyJavaVersions

/-- A block with its length. -/
def snappyJavaBlockBytes (S : Snappy) (data : Bytes) : Bytes :=
  beBytes 4 (S.compress data).length ++ S.compress data

/-- A compressed file, with blocks of `n` bytes. -/
def snappyJavaEncode (S : Snappy) (n : ℕ) (x : Bytes) : Bytes :=
  snappyJavaHeader ++ (blocks n x).flatMap (snappyJavaBlockBytes S)

/-- The block size that is used. -/
def snappyJavaBlockSize (blockSize : BitVec 64) : ℕ :=
  (if blockSize = 0#64 then snappyJavaDefaultBlockSize else blockSize).toNat

theorem snappyJavaBlockSize_pos (b : BitVec 64) : 0 < snappyJavaBlockSize b := by
  unfold snappyJavaBlockSize
  split
  · decide
  · next h => exact Nat.pos_of_ne_zero fun h0 => h (BitVec.eq_of_toNat_eq h0)

theorem malloc_blocks {n : ℕ} (h : n < 2 ^ 31) :
    (malloc n && malloc (snappyMaxCompressedLength n)) = true := by
  rw [snappyMaxCompressedLength_eq (by omega)]
  simp only [malloc, Bool.and_eq_true, decide_eq_true_eq]
  omega

theorem run_snappyJavaCompress (hS : S.Contract) {b : BitVec 64}
    (hb : snappyJavaBlockSize b < 2 ^ 31) (B : Buffering) (x : Bytes) :
    Codec.run B (snappyJavaCompress S b) (.opened x) =
      ⟨some 0, snappyJavaEncode S (snappyJavaBlockSize b) x⟩ := by
  have hscript : snappyJavaScript S b false x = ⟨.fwriteOk snappyJavaHeader ::
      (blocks (snappyJavaBlockSize b) x).flatMap (snappyJavaWrites S), .status 0⟩ := by
    have hm := malloc_blocks hb
    unfold snappyJavaBlockSize at hm ⊢
    simp only [snappyJavaScript, blockScript, hm, Bool.not_true, Bool.false_eq_true, if_false,
      Script.after, List.append_nil]
    rfl
  have hbuffered : ∀ w ∈ (snappyJavaScript S b false x).writes, w.Buffered := by
    rw [hscript]
    simp only [List.mem_cons, List.mem_flatMap, snappyJavaWrites, List.not_mem_nil, or_false]
    rintro w (rfl | ⟨d, hd, rfl | rfl⟩)
    · exact List.append_ne_nil_of_left_ne_nil (List.cons_ne_nil _ _) _
    · trivial
    · exact hS.compress_ne_nil (Nat.lt_of_le_of_lt (length_of_mem_blocks hd) (by omega))
  have hblock : (fun d => bytesOf (snappyJavaWrites S d)) = snappyJavaBlockBytes S := by
    funext d
    simp [snappyJavaWrites, snappyJavaBlockBytes, Write.bytes]
  rw [run_opened (refines_snappyJavaCompress S b).fresh (Or.inl hbuffered), hscript]
  simp [Script.result, snappyJavaEncode, Write.bytes, hblock]

theorem run_snappyJavaCompress_large {b : BitVec 64} (h : 2 ^ 63 ≤ snappyJavaBlockSize b)
    (B : Buffering) (x : Bytes) :
    Codec.run B (snappyJavaCompress S b) (.opened x) = ⟨some 1, snappyJavaHeader⟩ := by
  have hscript : snappyJavaScript S b false x = ⟨[.fwriteOk snappyJavaHeader], .exit 1⟩ := by
    have hm : malloc (snappyJavaBlockSize b) = false := by
      simp only [malloc, decide_eq_false_iff_not]
      omega
    unfold snappyJavaBlockSize at hm
    simp only [snappyJavaScript, blockScript, hm, Bool.false_and, Bool.not_false, if_true]
    rfl
  have hbuffered : ∀ w ∈ (snappyJavaScript S b false x).writes, w.Buffered := by
    rw [hscript]
    intro w hw
    rw [List.mem_singleton.mp hw]
    exact List.append_ne_nil_of_left_ne_nil (List.cons_ne_nil _ _) _
  rw [run_opened (refines_snappyJavaCompress S b).fresh (Or.inl hbuffered), hscript]
  rfl

theorem snappyJavaPassOf_eq {c : Bytes} (hc : c ≠ []) (h31 : c.length < 2 ^ 31) (rest : Bytes) :
    snappyJavaPassOf S () (beBytes 4 c.length ++ (c ++ rest)) =
      match S.uncompressWithin c (2 ^ 32) with
      | none => .finish ⟨[], .status 1⟩
      | some u => .again [.writeFull u] () rest := by
  have hpos := List.length_pos_iff.mpr hc
  obtain ⟨h₁, h₂, h₃⟩ := take_beBytes (show c.length < 2 ^ 32 by omega) (c ++ rest)
  have hne : beBytes 4 c.length ++ (c ++ rest) ≠ [] := fun h0 => by
    rw [h0] at h₁
    exact h₁ (by decide)
  cases hu : S.uncompressWithin c (2 ^ 32) <;>
    rw [snappyJavaPassOf, if_neg hne, h₂, h₃, if_neg (by omega), if_neg (by omega),
      if_neg (by rw [List.length_append]; omega), List.take_left, List.drop_left, hu]

/-- **A block in front of any rest.** -/
theorem snappyJavaPassOf_block (hS : S.Contract) {d : Bytes} (hd : d.length < 2 ^ 31)
    (hc : (S.compress d).length < 2 ^ 31) (rest : Bytes) :
    snappyJavaPassOf S () (snappyJavaBlockBytes S d ++ rest) = .again [.writeFull d] () rest := by
  rw [snappyJavaBlockBytes, List.append_assoc,
    snappyJavaPassOf_eq (hS.compress_ne_nil (by omega)) hc,
    hS.uncompressWithin_compress (by omega) (by omega)]

theorem takeSnappyJavaHeader_header (s : Bytes) :
    takeSnappyJavaHeader false (snappyJavaHeader ++ s) = some ((), s) := by
  have hcheck : checkSnappyJavaHeader snappyJavaHeader = some () := by decide
  have hlen : ¬ (snappyJavaHeader ++ s).length < 16 := by
    rw [List.length_append, show snappyJavaHeader.length = 16 from rfl]
    omega
  have htake : (snappyJavaHeader ++ s).take 16 = snappyJavaHeader := List.take_left' rfl
  have hdrop : (snappyJavaHeader ++ s).drop 16 = s := List.drop_left' rfl
  rw [takeSnappyJavaHeader, if_neg (by decide), takeHeader, if_neg hlen, htake, hdrop, hcheck]
  rfl

theorem unroll_snappyJavaBlock (hS : S.Contract) {d : Bytes} (hd : d.length < 2 ^ 31)
    (hc : (S.compress d).length < 2 ^ 31) (rest : Bytes) :
    unroll (snappyJavaPassOf S) () (snappyJavaBlockBytes S d ++ rest) =
      (unroll (snappyJavaPassOf S) () rest).after [.writeFull d] := by
  refine unroll_again (snappyJavaPassOf_block hS hd hc rest) ?_
  simp only [snappyJavaBlockBytes, List.length_append, length_beBytes]
  omega

theorem unroll_snappyJavaBlocks (hS : S.Contract) {ds : List Bytes}
    (hds : ∀ d ∈ ds, d.length < 2 ^ 31 ∧ (S.compress d).length < 2 ^ 31) (rest : Bytes) :
    unroll (snappyJavaPassOf S) () (ds.flatMap (snappyJavaBlockBytes S) ++ rest) =
      (unroll (snappyJavaPassOf S) () rest).after (ds.map .writeFull) := by
  rw [List.map_eq_flatMap]
  exact unroll_flatMap
    (fun d hd rest => unroll_snappyJavaBlock hS (hds d hd).1 (hds d hd).2 rest) rest

/-- **A compressed file comes back**, if the lengths of its blocks are below `2 ^ 31`. -/
theorem run_snappyJavaUncompress (hS : S.Contract) {n : ℕ} (h0 : 0 < n) (hn : n < 2 ^ 31)
    {x : Bytes} (hc : ∀ d ∈ blocks n x, (S.compress d).length < 2 ^ 31) (B : Buffering) :
    Codec.run B (snappyJavaUncompress S false) (.opened (snappyJavaEncode S n x)) =
      ⟨some 0, x⟩ := by
  have hds : ∀ d ∈ blocks n x, d.length < 2 ^ 31 ∧ (S.compress d).length < 2 ^ 31 :=
    fun d hd => ⟨Nat.lt_of_le_of_lt (length_of_mem_blocks hd) hn, hc d hd⟩
  have hend : unroll (snappyJavaPassOf S) () [] = ⟨[], .status 0⟩ := unroll_finish rfl
  have hblocks := unroll_snappyJavaBlocks hS hds []
  rw [List.append_nil, hend] at hblocks
  have hscript : snappyJavaUnscript S false false (snappyJavaEncode S n x) =
      ⟨.fflush :: (blocks n x).map .writeFull, .status 0⟩ := by
    rw [snappyJavaUnscript, snappyJavaEncode, takeSnappyJavaHeader_header]
    simp only [hblocks, Script.after, List.append_nil]
    rfl
  have hrun := run_writeFull (refines_snappyJavaUncompress S false) hscript
    (fun d hd => (hds d hd).1) B
  rwa [flatten_blocks h0] at hrun

/-! ## snappy-in-java -/

/-- The flag and the bytes of a block. -/
def chooseFlagged (S : Snappy) (data : Bytes) : Byte × Bytes :=
  if S.storesRaw data then (uncompressedFlag, data) else (compressedFlag, S.compress data)

/-- A block with its flag, its length and its checksum. -/
def snappyInJavaBlockBytes (S : Snappy) (data : Bytes) : Bytes :=
  (chooseFlagged S data).1 :: (beBytes 2 (chooseFlagged S data).2.length ++
    (beBytes 4 (maskedCrc32c data).toNat ++ (chooseFlagged S data).2))

/-- A compressed file, with blocks of `n` bytes. -/
def snappyInJavaEncode (S : Snappy) (n : ℕ) (x : Bytes) : Bytes :=
  snappyInJavaMagic ++ (blocks n x).flatMap (snappyInJavaBlockBytes S)

/-- The length of a block; a block size of 0 stands for the default. -/
def snappyInJavaBlockSize (blockSize : BitVec 64) : ℕ :=
  (if blockSize = 0#64 then snappyInJavaDefaultBlockSize else blockSize).toNat

theorem snappyInJavaBlockSize_pos (b : BitVec 64) : 0 < snappyInJavaBlockSize b := by
  unfold snappyInJavaBlockSize
  split
  · decide
  · next h => exact Nat.pos_of_ne_zero fun h0 => h (BitVec.eq_of_toNat_eq h0)

theorem snappyInJavaBlockSize_le {b : BitVec 64} (hb : b.toNat ≤ 65535) :
    snappyInJavaBlockSize b ≤ 65535 := by
  unfold snappyInJavaBlockSize
  split
  · decide
  · exact hb

theorem length_chooseFlagged_le (S : Snappy) (data : Bytes) :
    (chooseFlagged S data).2.length ≤ data.length := by
  unfold chooseFlagged Snappy.storesRaw
  split
  · exact Nat.le_refl _
  · next h =>
    simp only [decide_eq_true_eq, ge_iff_le, not_le] at h
    simp only
    omega

theorem chooseFlagged_ne_nil (hS : S.Contract) {data : Bytes} (hne : data ≠ [])
    (h : data.length < 2 ^ 32) : (chooseFlagged S data).2 ≠ [] := by
  unfold chooseFlagged
  split
  · exact hne
  · exact hS.compress_ne_nil h

theorem flag_chooseFlagged (d : Bytes) :
    (chooseFlagged S d).1 = compressedFlag ∨ (chooseFlagged S d).1 = uncompressedFlag := by
  unfold chooseFlagged
  split
  · exact Or.inr rfl
  · exact Or.inl rfl

theorem snappyInJavaWrites_eq (d : Bytes) : snappyInJavaWrites S d =
    [.putc ((chooseFlagged S d).1 :: (beBytes 2 (chooseFlagged S d).2.length ++
      beBytes 4 (maskedCrc32c d).toNat)), .fwriteOk (chooseFlagged S d).2] := by
  unfold snappyInJavaWrites chooseFlagged flaggedWrites
  cases S.storesRaw d <;> rfl

theorem snappyInJavaScript_eq {b : BitVec 64} (hb : snappyInJavaBlockSize b ≤ 65535) (x : Bytes) :
    snappyInJavaScript S b false x = ⟨.fwriteOk snappyInJavaMagic ::
      (blocks (snappyInJavaBlockSize b) x).flatMap (snappyInJavaWrites S), .status 0⟩ := by
  have hm := malloc_blocks (show snappyInJavaBlockSize b < 2 ^ 31 by omega)
  have hle : ¬ (if b = 0#64 then snappyInJavaDefaultBlockSize else b) >
      snappyInJavaMaxBlockSize := by
    rw [gt_iff_lt, BitVec.lt_def]
    exact Nat.not_lt.mpr hb
  unfold snappyInJavaBlockSize at hm ⊢
  simp only [snappyInJavaScript, hle, if_false, blockScript, hm, Bool.not_true,
    Bool.false_eq_true, Script.after, List.append_nil]
  rfl

theorem run_snappyInJavaCompress (hS : S.Contract) {b : BitVec 64}
    (hb : snappyInJavaBlockSize b ≤ 65535) (B : Buffering) (x : Bytes) :
    Codec.run B (snappyInJavaCompress S b) (.opened x) =
      ⟨some 0, snappyInJavaEncode S (snappyInJavaBlockSize b) x⟩ := by
  have hscript := snappyInJavaScript_eq (S := S) hb x
  have hbuffered : ∀ w ∈ (snappyInJavaScript S b false x).writes, w.Buffered := by
    rw [hscript]
    simp only [List.mem_cons, List.mem_flatMap, snappyInJavaWrites_eq, List.not_mem_nil, or_false]
    rintro w (rfl | ⟨d, hd, rfl | rfl⟩)
    · exact List.cons_ne_nil _ _
    · trivial
    · exact chooseFlagged_ne_nil hS (ne_nil_of_mem_blocks hd)
        (Nat.lt_of_le_of_lt (length_of_mem_blocks hd) (by omega))
  have hblock : (fun d => bytesOf (snappyInJavaWrites S d)) = snappyInJavaBlockBytes S := by
    funext d
    simp [snappyInJavaWrites_eq, snappyInJavaBlockBytes, Write.bytes]
  rw [run_opened (refines_snappyInJavaCompress S b).fresh (Or.inl hbuffered), hscript]
  simp [Script.result, snappyInJavaEncode, Write.bytes, hblock]

theorem run_snappyInJavaCompress_large {b : BitVec 64} (h : 65535 < snappyInJavaBlockSize b)
    (B : Buffering) (x : Bytes) :
    Codec.run B (snappyInJavaCompress S b) (.opened x) = ⟨some 1, []⟩ := by
  have hgt : (if b = 0#64 then snappyInJavaDefaultBlockSize else b) >
      snappyInJavaMaxBlockSize := by
    rw [gt_iff_lt, BitVec.lt_def]
    exact h
  have hscript : snappyInJavaScript S b false x = ⟨[], .status 1⟩ := by
    simp only [snappyInJavaScript, hgt, if_true]
  rw [run_opened (refines_snappyInJavaCompress S b).fresh
    (by rw [hscript]; exact Or.inl (by simp)), hscript]
  rfl

theorem beVal_take_beBytes {k n : ℕ} (h : n < 256 ^ k) (rest : Bytes) :
    beVal ((beBytes k n ++ rest).take k) = n ∧ (beBytes k n ++ rest).drop k = rest := by
  have hk : (beBytes k n).length = k := length_beBytes k n
  exact ⟨by rw [List.take_left' hk, beVal_beBytes h], List.drop_left' hk⟩

theorem snappyInJavaFlaggedOf_eq {c : Bytes} (hc : c ≠ []) (h16 : c.length < 2 ^ 16) (uclen : ℕ)
    (flag : Byte) (crc32c : BitVec 32) (rest : Bytes) :
    snappyInJavaFlaggedOf S uclen flag
        (beBytes 2 c.length ++ (beBytes 4 crc32c.toNat ++ (c ++ rest))) =
      if flag = compressedFlag then
        match S.uncompressWithin c uclen with
        | none => .finish ⟨[], .status 1⟩
        | some u => checkAndWriteOf u crc32c rest
      else checkAndWriteOf c crc32c rest := by
  have hpos := List.length_pos_iff.mpr hc
  have hcrc := crc32c.isLt
  obtain ⟨h₁, h₂⟩ := beVal_take_beBytes (k := 2) (show c.length < 256 ^ 2 by omega)
    (beBytes 4 crc32c.toNat ++ (c ++ rest))
  obtain ⟨h₃, h₄⟩ := beVal_take_beBytes (k := 4) (show crc32c.toNat < 256 ^ 4 by omega) (c ++ rest)
  have h₆ : (beBytes 2 c.length ++ (beBytes 4 crc32c.toNat ++ (c ++ rest))).drop 6 = c ++ rest := by
    rw [show (6 : ℕ) = 2 + 4 from rfl, ← List.drop_drop, h₂, h₄]
  have hlen : ¬ ((beBytes 2 c.length ++ (beBytes 4 crc32c.toNat ++ (c ++ rest))).length < 6 ∨
      c.length = 0 ∨ (c ++ rest).length < c.length) := by
    simp only [List.length_append, length_beBytes]
    omega
  rw [snappyInJavaFlaggedOf]
  simp only [h₁, h₂, h₃, h₆]
  cases hu : S.uncompressWithin c uclen <;>
    rw [if_neg hlen, List.take_left, List.drop_left, BitVec.ofNat_toNat, BitVec.setWidth_eq, hu]

/-- **A block in front of any rest.** -/
theorem snappyInJavaPassOf_block (hS : S.Contract) {d : Bytes} (hne : d ≠ [])
    (hd : d.length ≤ 65535) (rest : Bytes) :
    snappyInJavaPassOf S snappyInJavaMaxBlockSize.toNat () (snappyInJavaBlockBytes S d ++ rest) =
      .again [.writeFull d] () rest := by
  have hle := length_chooseFlagged_le S d
  have hblock := snappyInJavaFlaggedOf_eq (S := S) (chooseFlagged_ne_nil hS hne (by omega))
    (show (chooseFlagged S d).2.length < 2 ^ 16 by omega) snappyInJavaMaxBlockSize.toNat
    (chooseFlagged S d).1 (maskedCrc32c d) rest
  have hcheck : checkAndWriteOf d (maskedCrc32c d) rest = .again [.writeFull d] () rest :=
    if_neg fun h => h rfl
  rw [snappyInJavaBlockBytes, List.cons_append, snappyInJavaPassOf, if_pos (flag_chooseFlagged d),
    List.append_assoc, List.append_assoc, hblock]
  cases hraw : S.storesRaw d with
  | true =>
    have hchoose : chooseFlagged S d = (uncompressedFlag, d) := by rw [chooseFlagged, hraw]; rfl
    rw [hchoose, if_neg (show uncompressedFlag ≠ compressedFlag by decide)]
    exact hcheck
  | false =>
    have hchoose : chooseFlagged S d = (compressedFlag, S.compress d) := by
      rw [chooseFlagged, hraw]
      rfl
    have hu : S.uncompressWithin (S.compress d) snappyInJavaMaxBlockSize.toNat = some d :=
      hS.uncompressWithin_compress (by omega) hd
    rw [hchoose, if_pos rfl, hu]
    exact hcheck

theorem takeSnappyInJavaHeader_header (s : Bytes) :
    takeSnappyInJavaHeader false (snappyInJavaMagic ++ s) = some ((), s) := by
  have hlen : ¬ (snappyInJavaMagic ++ s).length < 7 := by
    rw [List.length_append, show snappyInJavaMagic.length = 7 from rfl]
    omega
  have htake : (snappyInJavaMagic ++ s).take 7 = snappyInJavaMagic := List.take_left' rfl
  have hdrop : (snappyInJavaMagic ++ s).drop 7 = s := List.drop_left' rfl
  rw [takeSnappyInJavaHeader, if_neg (by decide), takeHeader, if_neg hlen, htake, hdrop]
  rfl

theorem unroll_snappyInJavaBlock (hS : S.Contract) {d : Bytes} (hne : d ≠ [])
    (hd : d.length ≤ 65535) (rest : Bytes) :
    unroll (snappyInJavaPassOf S snappyInJavaMaxBlockSize.toNat) ()
        (snappyInJavaBlockBytes S d ++ rest) =
      (unroll (snappyInJavaPassOf S snappyInJavaMaxBlockSize.toNat) () rest).after
        [.writeFull d] := by
  refine unroll_again (snappyInJavaPassOf_block hS hne hd rest) ?_
  simp only [snappyInJavaBlockBytes, List.cons_append, List.length_cons, List.length_append]
  omega

theorem unroll_snappyInJavaBlocks (hS : S.Contract) {ds : List Bytes}
    (hds : ∀ d ∈ ds, d ≠ [] ∧ d.length ≤ 65535) (rest : Bytes) :
    unroll (snappyInJavaPassOf S snappyInJavaMaxBlockSize.toNat) ()
        (ds.flatMap (snappyInJavaBlockBytes S) ++ rest) =
      (unroll (snappyInJavaPassOf S snappyInJavaMaxBlockSize.toNat) () rest).after
        (ds.map .writeFull) := by
  rw [List.map_eq_flatMap]
  exact unroll_flatMap
    (fun d hd rest => unroll_snappyInJavaBlock hS (hds d hd).1 (hds d hd).2 rest) rest

/-- **A compressed file comes back.** -/
theorem run_snappyInJavaUncompress (hS : S.Contract) {n : ℕ} (h0 : 0 < n) (hn : n ≤ 65535)
    (B : Buffering) (x : Bytes) :
    Codec.run B (snappyInJavaUncompress S false) (.opened (snappyInJavaEncode S n x)) =
      ⟨some 0, x⟩ := by
  have hds : ∀ d ∈ blocks n x, d ≠ [] ∧ d.length ≤ 65535 :=
    fun d hd => ⟨ne_nil_of_mem_blocks hd, Nat.le_trans (length_of_mem_blocks hd) hn⟩
  have hend : unroll (snappyInJavaPassOf S snappyInJavaMaxBlockSize.toNat) () [] =
      ⟨[], .status 0⟩ := unroll_finish rfl
  have hblocks := unroll_snappyInJavaBlocks hS hds []
  rw [List.append_nil, hend] at hblocks
  have hscript : snappyInJavaUnscript S false false (snappyInJavaEncode S n x) =
      ⟨.fflush :: (blocks n x).map .writeFull, .status 0⟩ := by
    rw [snappyInJavaUnscript, snappyInJavaEncode, takeSnappyInJavaHeader_header]
    simp only [hblocks, Script.after, List.append_nil]
    rfl
  have hrun := run_writeFull (refines_snappyInJavaUncompress S false) hscript
    (fun d hd => Nat.lt_of_le_of_lt (hds d hd).2 (by decide)) B
  rwa [flatten_blocks h0] at hrun

/-- **Every block size up to the limit**: the compressor fails for a larger one, before it has
written anything, and otherwise the decompressor gives the file back. -/
theorem snappyInJava_blockSizes (hS : S.Contract) (b : BitVec 64) (B B' : Buffering)
    (x : Bytes) :
    ((∃ n, (Codec.run B (snappyInJavaCompress S b) (.opened x)).status = some n ∧ n ≠ 0) ↔
        65535 < b.toNat) ∧
      (65535 < b.toNat → (Codec.run B (snappyInJavaCompress S b) (.opened x)).written = []) ∧
      (b.toNat ≤ 65535 → Codec.run B' (snappyInJavaUncompress S false)
        (.opened (Codec.run B (snappyInJavaCompress S b) (.opened x)).written) =
          ⟨some 0, x⟩) := by
  have hsize : 65535 < snappyInJavaBlockSize b ↔ 65535 < b.toNat := by
    unfold snappyInJavaBlockSize
    split
    · next h0 => rw [h0]; decide
    · rfl
  by_cases hb : 65535 < b.toNat
  · rw [run_snappyInJavaCompress_large (hsize.mpr hb)]
    exact ⟨iff_of_true ⟨1, rfl, Nat.one_ne_zero⟩ hb, fun _ => rfl,
      fun hle => absurd hb (Nat.not_lt.mpr hle)⟩
  · have hle := snappyInJavaBlockSize_le (Nat.le_of_not_lt hb)
    rw [run_snappyInJavaCompress hS hle]
    refine ⟨iff_of_false ?_ hb, fun h => absurd h hb, fun _ => ?_⟩
    · rintro ⟨n, hn, h0⟩
      exact h0 (Option.some.inj hn).symm
    · exact run_snappyInJavaUncompress hS (snappyInJavaBlockSize_pos b) hle B' x

/-- Blocks of three bytes, and one byte more than the limit. -/
theorem snappyInJava_blockSizes_literal :
    Codec.run (.stdio 4096) (snappyInJavaUncompress literalSnappy false) (.opened
        (Codec.run (.stdio 4096) (snappyInJavaCompress literalSnappy 3#64)
          (.opened [0x61#8])).written) =
      ⟨some 0, [0x61#8]⟩ ∧
    ∃ n, (Codec.run (.stdio 4096) (snappyInJavaCompress literalSnappy 65536#64)
      (.opened [])).status =
      some n ∧ n ≠ 0 :=
  ⟨(snappyInJava_blockSizes contract_literalSnappy 3#64 (.stdio 4096) (.stdio 4096) [0x61#8]).2.2
    (by decide),
    (snappyInJava_blockSizes contract_literalSnappy 65536#64 (.stdio 4096) (.stdio 4096) []).1.mpr
      (by decide)⟩

end Snzip
