import Snzip.StreamFormat

set_option autoImplicit false

/-!
# Round trip of the iwa format

The decompressor refuses a chunk of fewer than four bytes, as one with a checksum would be. There is
no checksum in this format, and a block of one byte is compressed to three bytes.

* `iwaEncode`, **`run_iwaCompress`**: what the compressor writes;
* `iwaUnscript_encode`, `iwaUnscript_refused`: long chunks come back, a short one ends the run;
* **`iwaUncompress_iff`**: the files that come back.
-/

namespace Snzip

open CProg

variable {S : Snappy}

/-- The chunk of a block. -/
def iwaChunkBytes (S : Snappy) (data : Bytes) : Bytes :=
  0x00#8 :: (leBytes 3 (S.compress data).length ++ S.compress data)

/-- A compressed file. -/
def iwaEncode (S : Snappy) (x : Bytes) : Bytes :=
  (blocks iwaMaxUncompressedDataLen x).flatMap (iwaChunkBytes S)

theorem length_of_mem_iwaBlocks {x d : Bytes} (hd : d ∈ blocks iwaMaxUncompressedDataLen x) :
    d.length ≤ 65536 := length_of_mem_blocks hd

theorem run_iwaCompress (hS : S.Contract) (B : Buffering) (blockSize : BitVec 64) (x : Bytes) :
    Codec.run B (iwaCompress S blockSize) (.opened x) = ⟨some 0, iwaEncode S x⟩ := by
  have hbuffered : ∀ w ∈ (iwaScript S false x).writes, w.Buffered := by
    simp only [iwaScript, Script.after, List.append_nil, List.mem_flatMap, iwaWrites,
      List.mem_cons, List.not_mem_nil, or_false]
    rintro w ⟨d, hd, rfl | rfl⟩
    · trivial
    · have := length_of_mem_iwaBlocks hd
      exact hS.compress_ne_nil (by omega)
  rw [run_opened (refines_iwaCompress S blockSize).fresh (Or.inl hbuffered)]
  have hchunk : (fun d => bytesOf (iwaWrites S d)) = iwaChunkBytes S :=
    funext fun d => by simp [iwaWrites, iwaChunkBytes, Write.bytes]
  simp [Script.result, iwaScript, Script.after, iwaEncode, hchunk]

theorem length_compress_lt (hS : S.Contract) {d : Bytes} (hd : d.length ≤ 65536) :
    (S.compress d).length < 256 ^ 3 := by
  have := hS.compress_le d (by omega)
  omega

theorem isChunk_iwaChunkBytes (hS : S.Contract) {d : Bytes} (hd : d.length ≤ 65536)
    (h4 : 4 ≤ (S.compress d).length) : IsChunk 3 (iwaReading S) (iwaChunkBytes S d) d := by
  refine ⟨0x00#8, S.compress d, rfl, length_compress_lt hS hd, ?_⟩
  have hu : S.uncompress (S.compress d) iwaMaxUncompressedDataLen = some d :=
    hS.uncompress_compress d _ (by omega) hd
  have hread : ¬ ((0x00#8 : Byte) ≠ 0x00#8 ∨ (S.compress d).length < 4) := by
    rintro (h | h)
    · exact h rfl
    · omega
  rw [iwaReading, if_neg hread, hu]

theorem iwaUnscript_encode (hS : S.Contract) {ds : List Bytes}
    (hds : ∀ d ∈ ds, d ≠ [] ∧ d.length ≤ 65536) (h : ∀ d ∈ ds, 4 ≤ (S.compress d).length) :
    iwaUnscript S false (ds.flatMap (iwaChunkBytes S)) = ⟨ds.map .fwriteOk, .checked 0⟩ := by
  have hchunks : unroll (chunkPass 3 (iwaReading S) false) ()
      (ds.flatMap (iwaChunkBytes S) ++ []) = _ :=
    unroll_chunks (fun d hd => ⟨(hds d hd).1, isChunk_iwaChunkBytes hS (hds d hd).2 (h d hd)⟩) []
  rw [List.append_nil, unroll_end] at hchunks
  rw [iwaUnscript, hchunks, Script.after, List.append_nil]

theorem iwaUnscript_refused (hS : S.Contract) {ds : List Bytes}
    (hds : ∀ d ∈ ds, d ≠ [] ∧ d.length ≤ 65536) (h : ¬ ∀ d ∈ ds, 4 ≤ (S.compress d).length) :
    (iwaUnscript S false (ds.flatMap (iwaChunkBytes S))).verdict = .status 1 := by
  induction ds with
  | nil => exact absurd (fun d hd => by cases hd) h
  | cons d ds ih =>
    have hd := hds d List.mem_cons_self
    have hds' : ∀ d ∈ ds, d ≠ [] ∧ d.length ≤ 65536 := fun d h => hds d (List.mem_cons_of_mem _ h)
    have hsplit := splitChunk_append (length_compress_lt hS hd.2) 0x00#8
      (ds.flatMap (iwaChunkBytes S))
    rw [iwaUnscript, List.flatMap_cons]
    by_cases h4 : 4 ≤ (S.compress d).length
    · rw [unroll_isChunk hd.1 (isChunk_iwaChunkBytes hS hd.2 h4)]
      exact ih hds' fun hall => h (List.forall_mem_cons.mpr ⟨h4, hall⟩)
    · have hread : iwaReading S 0x00#8 (S.compress d) = .bad := if_pos (Or.inr (by omega))
      rw [iwaChunkBytes, List.cons_append, unroll_finish (c := ⟨[], .status 1⟩)]
      rw [chunkPass, if_neg (List.cons_ne_nil _ _), hsplit]
      simp only [hread]

theorem one_mem_blocks {n : ℕ} (hn : 1 < n) {x : Bytes} (h : x.length % n = 1) :
    ∃ d ∈ blocks n x, d.length = 1 := by
  induction x using blocks_induction (show 0 < n by omega) with
  | nil => simp at h
  | cons xs hxs ih =>
    rw [blocks_of_ne_nil (by omega) hxs]
    by_cases hlt : xs.length < n
    · refine ⟨xs.take n, List.mem_cons_self, ?_⟩
      rw [Nat.mod_eq_of_lt hlt] at h
      rw [List.length_take]
      omega
    · have hmod : (xs.drop n).length % n = 1 := by
        rw [List.length_drop, ← h]
        exact (Nat.mod_eq_sub_mod (by omega)).symm
      obtain ⟨d, hd, hlen⟩ := ih hmod
      exact ⟨d, List.mem_cons_of_mem _ hd, hlen⟩

theorem length_compress_one (b : Bytes) (h : b.length = 1) :
    (literalSnappy.compress b).length = 3 := by
  obtain ⟨c, rfl⟩ := List.length_eq_one_iff.mp h
  rfl

/-- **The files that come back** are those of which every block is compressed to four bytes or more;
a file with a last block of one byte is none of them. -/
theorem iwaUncompress_iff (hS : S.Contract)
    (hone : ∀ b : Bytes, b.length = 1 → (S.compress b).length = 3) (blockSize : BitVec 64)
    (B : Buffering) (x : Bytes) :
    let compressed := Codec.run B (iwaCompress S blockSize) (.opened x)
    compressed.status = some 0 ∧
      (Codec.run B (iwaUncompress S false) (.opened compressed.written) = ⟨some 0, x⟩ ↔
        ∀ d ∈ blocks iwaMaxUncompressedDataLen x, 4 ≤ (S.compress d).length) ∧
      (x.length % iwaMaxUncompressedDataLen = 1 →
        Codec.run B (iwaUncompress S false) (.opened compressed.written) ≠ ⟨some 0, x⟩) := by
  have hds : ∀ d ∈ blocks iwaMaxUncompressedDataLen x, d ≠ [] ∧ d.length ≤ 65536 :=
    fun d hd => ⟨ne_nil_of_mem_blocks hd, length_of_mem_iwaBlocks hd⟩
  have hrun := run_opened (refines_iwaUncompress S false).fresh (s := iwaEncode S x)
    (Or.inl (uniform_unroll _ _)) B
  have hiff : Codec.run B (iwaUncompress S false) (.opened (iwaEncode S x)) = ⟨some 0, x⟩ ↔
      ∀ d ∈ blocks iwaMaxUncompressedDataLen x, 4 ≤ (S.compress d).length := by
    rw [hrun]
    refine ⟨fun h => ?_, fun h => ?_⟩
    · by_contra hbad
      have hv := iwaUnscript_refused hS hds hbad
      rw [Script.result, iwaEncode, hv] at h
      cases h
    · rw [iwaEncode, iwaUnscript_encode hS hds h, Script.result, bytesOf_map fun _ => rfl,
        flatten_blocks (by decide)]
  rw [run_iwaCompress hS]
  refine ⟨rfl, hiff, fun hmod heq => ?_⟩
  obtain ⟨d, hd, hlen⟩ := one_mem_blocks (by decide) hmod
  have := hiff.mp heq d hd
  rw [hone d hlen] at this
  omega

/-- A file of two bytes comes back with the literal snappy. -/
theorem iwaUncompress_iff_two :
    Codec.run (.stdio 4096) (iwaUncompress literalSnappy false)
      (.opened (Codec.run (.stdio 4096) (iwaCompress literalSnappy 0#64)
        (.opened [0x61#8, 0x62#8])).written) = ⟨some 0, [0x61#8, 0x62#8]⟩ :=
  (iwaUncompress_iff contract_literalSnappy length_compress_one 0#64 (.stdio 4096) _).2.1.mpr (by
    rw [blocks_of_length_le (by decide) (by decide)]
    decide)

/-- A file of one byte does not. -/
theorem not_iwaUncompress_one : literalSnappy.Contract ∧
    (∀ b : Bytes, b.length = 1 → (literalSnappy.compress b).length = 3) ∧
    Codec.run (.stdio 4096) (iwaUncompress literalSnappy false)
      (.opened (Codec.run (.stdio 4096) (iwaCompress literalSnappy 0#64)
        (.opened [0x61#8])).written) ≠
        ⟨some 0, [0x61#8]⟩ := by
  refine ⟨contract_literalSnappy, length_compress_one, ?_⟩
  decide

end Snzip
