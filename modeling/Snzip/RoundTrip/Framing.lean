import Snzip.SkipMagic

set_option autoImplicit false

/-!
# Concatenated streams of the framing formats

A compressed file starts with the stream header, which the decompressor takes for a chunk to skip
when it comes upon it later. So it decodes any concatenation of compressed files.

* `framingEncode`: what the compressor writes, **`run_framingFormatCompress`**;
* `isChunk_chunkBytes`: a block comes back from its chunk;
* **`framingChunks_encode`**: an encoded file in front of any rest;
* **`uncompress_concat`**: the concatenation of any files, with and without `skip_magic`.
-/

namespace Snzip

open CProg

variable {F : Framing} {S : Snappy}

/-- The chunk of a block. -/
def chunkBytes (F : Framing) (S : Snappy) (data : Bytes) : Bytes :=
  chunkHead S F.lengthBytes data ++ (chooseData S data).2

/-- A compressed file. -/
def framingEncode (F : Framing) (S : Snappy) (x : Bytes) : Bytes :=
  F.streamHeader ++ (blocks F.maxUncompressedDataLen x).flatMap (chunkBytes F S)

theorem length_chooseData_le (S : Snappy) (data : Bytes) :
    (chooseData S data).2.length ≤ data.length := by
  unfold chooseData Snappy.storesRaw
  split
  · exact Nat.le_refl _
  · next h =>
    simp only [decide_eq_true_eq, ge_iff_le, not_le] at h
    simp only
    omega

theorem chooseData_ne_nil (hS : S.Contract) {data : Bytes} (hne : data ≠ [])
    (h : data.length < 2 ^ 32) : (chooseData S data).2 ≠ [] := by
  unfold chooseData
  split
  · exact hne
  · exact hS.compress_ne_nil h

theorem leWord_leBytes (c : BitVec 32) (bs : Bytes) : leWord (leBytes 4 c.toNat ++ bs) = c := by
  have hlen : (leBytes 4 c.toNat).length = 4 := length_leBytes _ _
  rw [leWord, List.take_left' hlen, leVal_leBytes (by have := c.isLt; omega)]
  exact BitVec.eq_of_toNat_eq (by rw [BitVec.toNat_ofNat]; have := c.isLt; omega)

theorem framingReading_chooseData (hS : S.Contract) {data : Bytes}
    (hmax : data.length ≤ F.maxUncompressedDataLen) :
    framingReading F S (chooseData S data).1
      (leBytes 4 (maskedCrc32c data).toNat ++ (chooseData S data).2) = .content data := by
  have h32 := F.max_lt_pow
  have h4 : (leBytes 4 (maskedCrc32c data).toNat).length = 4 := length_leBytes _ _
  have hlen : 4 ≤ (leBytes 4 (maskedCrc32c data).toNat ++ (chooseData S data).2).length := by
    rw [List.length_append, h4]
    omega
  refine framingReading_content_iff.mpr ⟨hlen, (leWord_leBytes _ _).symm, ?_⟩
  rw [List.drop_left' h4]
  unfold chooseData
  cases S.storesRaw data with
  | true => exact Or.inr ⟨rfl, rfl⟩
  | false => exact Or.inl ⟨rfl, hS.uncompress_compress data _ (by omega) hmax⟩

/-- **A block comes back from its chunk.** -/
theorem isChunk_chunkBytes (hS : S.Contract) {data : Bytes}
    (hmax : data.length ≤ F.maxUncompressedDataLen) :
    IsChunk F.lengthBytes (framingReading F S) (chunkBytes F S data) data := by
  have hlt := F.max_lt
  have hle := length_chooseData_le S data
  have hlen : (leBytes 4 (maskedCrc32c data).toNat ++ (chooseData S data).2).length =
      (chooseData S data).2.length + 4 := by
    rw [List.length_append, length_leBytes, Nat.add_comm]
  refine ⟨(chooseData S data).1, leBytes 4 (maskedCrc32c data).toNat ++ (chooseData S data).2, ?_,
    ?_, framingReading_chooseData hS hmax⟩
  · rw [hlen]
    simp [chunkBytes, chunkHead]
  · rw [hlen]
    omega

/-! ## Compressed files -/

theorem isChunk_of_mem_blocks (hS : S.Contract) {x d : Bytes}
    (hd : d ∈ blocks F.maxUncompressedDataLen x) :
    d ≠ [] ∧ IsChunk F.lengthBytes (framingReading F S) (chunkBytes F S d) d :=
  ⟨ne_nil_of_mem_blocks hd, isChunk_chunkBytes hS (length_of_mem_blocks hd)⟩

/-- **A compressed file in front of any rest.** -/
theorem framingChunks_encode (hS : S.Contract) (fault : Bool) (x rest : Bytes) :
    framingChunks F S fault (framingEncode F S x ++ rest) =
      (framingChunks F S fault rest).after
        ((blocks F.maxUncompressedDataLen x).map .fwriteOk) := by
  rw [framingChunks, framingEncode, List.append_assoc,
    unroll_skip (splitChunk_header F _) (framingReading_header F S),
    unroll_chunks fun d hd => isChunk_of_mem_blocks hS hd]
  rfl

theorem framingChunks_flatMap (hS : S.Contract) (xs : List Bytes) :
    framingChunks F S false (xs.flatMap (framingEncode F S)) =
      ⟨xs.flatMap fun x => (blocks F.maxUncompressedDataLen x).map .fwriteOk, .checked 0⟩ := by
  induction xs with
  | nil => exact unroll_end
  | cons x xs ih =>
    rw [List.flatMap_cons, framingChunks_encode hS, ih]
    rfl

theorem run_framingFormatCompress (hS : S.Contract) (B : Buffering) (blockSize : BitVec 64)
    (x : Bytes) :
    Codec.run B (framingFormatCompress F S blockSize) (.opened x) =
      ⟨some 0, framingEncode F S x⟩ := by
  have h32 := F.max_lt_pow
  have hbuffered : ∀ w ∈ (framingScript F S false x).writes, w.Buffered := by
    simp only [framingScript, Script.after, List.append_nil, List.mem_append, List.mem_flatMap,
      chunkWrites, List.mem_cons, List.not_mem_nil, or_false]
    rintro w (rfl | ⟨d, hd, rfl | rfl⟩)
    · trivial
    · trivial
    · exact chooseData_ne_nil hS (ne_nil_of_mem_blocks hd)
        (Nat.lt_of_le_of_lt (length_of_mem_blocks hd) (by omega))
  rw [run_opened (refines_framingFormatCompress F S blockSize).fresh (Or.inl hbuffered)]
  have hchunk : (fun d => bytesOf (chunkWrites F S d)) = chunkBytes F S :=
    funext fun d => by simp [chunkWrites, chunkBytes, Write.bytes]
  simp [Script.result, framingScript, Script.after, framingEncode, Write.bytes, hchunk]

theorem framingUnscript_of_header (fault : Bool) {s : Bytes} (h : F.streamHeader <+: s) :
    framingUnscript F S false fault s = framingChunks F S fault s := by
  obtain ⟨rest, rfl⟩ := h
  have hskip : framingChunks F S fault (F.streamHeader ++ rest) = framingChunks F S fault rest :=
    unroll_skip (splitChunk_header F rest) (framingReading_header F S)
  rw [hskip]
  simp [framingUnscript]

theorem run_framingFormatUncompress (hS : S.Contract) (B : Buffering) {xs : List Bytes}
    (hne : xs ≠ []) :
    F.streamHeader <+: xs.flatMap (framingEncode F S) ∧
      Codec.run B (framingFormatUncompress F S false)
        (.opened (xs.flatMap (framingEncode F S))) = ⟨some 0, xs.flatten⟩ := by
  have hpre : F.streamHeader <+: xs.flatMap (framingEncode F S) := by
    obtain ⟨x, xs, rfl⟩ := List.exists_cons_of_ne_nil hne
    rw [List.flatMap_cons, framingEncode, List.append_assoc]
    exact List.prefix_append _ _
  have hscript : framingUnscript F S false false (xs.flatMap (framingEncode F S)) = _ :=
    (framingUnscript_of_header false hpre).trans (framingChunks_flatMap hS xs)
  have hbuffered : ∀ w ∈ (framingChunks F S false (xs.flatMap (framingEncode F S))).writes,
      w.Buffered := uniform_unroll false _
  refine ⟨hpre, ?_⟩
  rw [run_opened (refines_framingFormatUncompress F S false).fresh
    (Or.inl ((framingUnscript_of_header false hpre).symm ▸ hbuffered)), hscript]
  have hflat : ∀ x : Bytes, (blocks F.maxUncompressedDataLen x).flatten = x :=
    flatten_blocks F.max_pos
  have hbytes : ∀ ds : List Bytes, bytesOf (ds.map .fwriteOk) = ds.flatten :=
    bytesOf_map fun _ => rfl
  simp [Script.result, hbytes, hflat, List.flatMap_id']

theorem concat_of_magic {L : Library} (hS : L.snappy.Contract) {f : Format}
    (hmagic : f.magic = some F.streamHeader) (hsnz : f ≠ .snzip) (g : Globals)
    (hf : f.uncompress L g false = framingFormatUncompress F L.snappy false) (B : Buffering)
    {xs : List Bytes} (hne : xs ≠ []) :
    Codec.run B (f.uncompress L g false) (.opened (xs.flatMap (framingEncode F L.snappy))) =
        ⟨some 0, xs.flatten⟩ ∧
      ∃ p, findStreamFormatByFileHeader
          ⟨.opened (xs.flatMap (framingEncode F L.snappy)), [], g⟩ = .ret (some f) p ∧
        Codec.run B (f.uncompress L p.globals true) p.inp = ⟨some 0, xs.flatten⟩ := by
  obtain ⟨hpre, hrun⟩ := run_framingFormatUncompress (F := F) hS B hne
  have htells : Tells (xs.flatMap (framingEncode F L.snappy)) f :=
    tells_of_prefix hpre hmagic fun he => absurd he hsnz
  obtain ⟨p, hp, hskip⟩ := found_of_tells L g g htells B
  rw [← hf] at hrun
  exact ⟨hrun, p, hp, hskip.trans hrun⟩

/-- **Any concatenation of compressed files is decoded**, with the header still there or after it
has been found. -/
theorem uncompress_concat {L : Library} (hS : L.snappy.Contract) {f : Format}
    (hf : f = .framing2 ∨ f = .framing) (g : Globals) (stSize : Option (BitVec 64))
    (blockSize : BitVec 64) (B : Buffering) {xs : List Bytes} (hne : xs ≠ []) :
    let compressed := fun x => Codec.run B (f.compress L g stSize blockSize) (.opened x)
    let s := xs.flatMap fun x => (compressed x).written
    (∀ x ∈ xs, (compressed x).status = some 0) ∧
      Codec.run B (f.uncompress L g false) (.opened s) = ⟨some 0, xs.flatten⟩ ∧
      ∃ p, findStreamFormatByFileHeader ⟨.opened s, [], g⟩ = .ret (some f) p ∧
        Codec.run B (f.uncompress L p.globals true) p.inp = ⟨some 0, xs.flatten⟩ := by
  rcases hf with rfl | rfl
  · have hc : ∀ x, Codec.run B (Format.framing2.compress L g stSize blockSize) (.opened x) =
        ⟨some 0, framingEncode framing2 L.snappy x⟩ :=
      run_framingFormatCompress (F := Snzip.framing2) hS B blockSize
    simp only [hc, implies_true, true_and]
    exact concat_of_magic hS rfl (by decide) g rfl B hne
  · have hc : ∀ x, Codec.run B (Format.framing.compress L g stSize blockSize) (.opened x) =
        ⟨some 0, framingEncode framing L.snappy x⟩ :=
      run_framingFormatCompress (F := Snzip.framing) hS B blockSize
    simp only [hc, implies_true, true_and]
    exact concat_of_magic hS rfl (by decide) g rfl B hne

/-- Two files with the literal snappy, the second of them empty. -/
theorem uncompress_concat_literal :
    let L : Library := ⟨literalSnappy, 0⟩
    let compressed :=
      fun x => Codec.run (.stdio 4096) (Format.framing.compress L .initial none 0#64)
      (.opened x)
    let s := [[0x61#8], []].flatMap fun x => (compressed x).written
    Codec.run (.stdio 4096) (Format.framing.uncompress L .initial false) (.opened s) =
      ⟨some 0, [0x61#8]⟩ :=
  (uncompress_concat (L := ⟨literalSnappy, 0⟩) contract_literalSnappy (Or.inr rfl) .initial none
    0#64 (.stdio 4096) (show [[0x61#8], []] ≠ [] by decide)).2.1

end Snzip
