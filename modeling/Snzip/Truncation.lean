import Snzip.Grammar
import Snzip.HadoopDetection
import Snzip.RoundTrip.Iwa

set_option autoImplicit false

/-!
# Truncated files

What the decoders make of a file that ends too early.

* `splitChunk_cut`, `snappyJavaPassOf_cut`, `snappyInJavaPassOf_cut`, `snzPassOf_cut`: the beginning
  of a chunk is refused;
* **`truncated_selfTerminating`**: comment-43 and snzip, where the end mark is missed;
* **`truncated_openEnded`**: the formats without an end mark, where only a cut between two chunks
  goes unnoticed;
* **`truncated_hadoopSnappy_iff`**: hadoop-snappy, where up to three bytes of a block go unnoticed.
-/

namespace Snzip

open CProg

variable {S : Snappy}

/-! ## Beginnings of chunks -/

theorem splitChunk_cut {k : ℕ} {id : Byte} {d q u : Bytes} (hd : d.length < 256 ^ k)
    (h : id :: (leBytes k d.length ++ d) = q ++ u) (hu : u ≠ []) : splitChunk k q = none := by
  have hupos := List.length_pos_iff.mpr hu
  cases q with
  | nil => rfl
  | cons b q =>
    rw [List.cons_append, List.cons.injEq] at h
    obtain ⟨rfl, h⟩ := h
    have hk : (leBytes k d.length).length = k := length_leBytes _ _
    rw [splitChunk, if_neg]
    rintro ⟨hle, hdata⟩
    rcases prefix_append h.symm with ⟨v, hv, hlen⟩ | ⟨q, rfl, hq⟩
    · -- the length field is not there in full
      have := congrArg List.length hlen
      have hvpos := List.length_pos_iff.mpr hv
      rw [List.length_append, hk] at this
      omega
    · have := congrArg List.length hq
      rw [List.take_left' hk, List.drop_left' hk, leVal_leBytes hd] at hdata
      rw [List.length_append] at this
      omega

theorem unroll_chunk_cut {k : ℕ} (reading : Byte → Bytes → Reading) {id : Byte} {d q u : Bytes}
    (hd : d.length < 256 ^ k) (hq : id :: (leBytes k d.length ++ d) = q ++ u) (hne : q ≠ [])
    (hu : u ≠ []) : unroll (chunkPass k reading false) () q = ⟨[], .status 1⟩ := by
  refine unroll_finish ?_
  rw [chunkPass, if_neg hne, splitChunk_cut hd hq hu]

theorem cut_field {a c q u : Bytes} (h : a ++ c = q ++ u) (hu : u ≠ []) :
    q.length < a.length ∨ ∃ q', q = a ++ q' ∧ q'.length < c.length := by
  have hupos := List.length_pos_iff.mpr hu
  rcases prefix_append h.symm with ⟨v, hv, rfl⟩ | ⟨q', rfl, hq⟩
  · have := List.length_pos_iff.mpr hv
    exact Or.inl (by rw [List.length_append]; omega)
  · have := congrArg List.length hq
    rw [List.length_append] at this
    exact Or.inr ⟨q', rfl, by omega⟩

theorem snappyJavaPassOf_cut {c q u : Bytes} (h31 : c.length < 2 ^ 31)
    (hq : beBytes 4 c.length ++ c = q ++ u) (hne : q ≠ []) (hu : u ≠ []) :
    snappyJavaPassOf S () q = .finish ⟨[], .status 1⟩ := by
  rw [snappyJavaPassOf, if_neg hne]
  rcases cut_field hq hu with h4 | ⟨q', rfl, hlt⟩
  · rw [length_beBytes] at h4
    rw [if_pos (Or.inl h4)]
  · obtain ⟨h₁, h₂, h₃⟩ := take_beBytes (show c.length < 2 ^ 32 by omega) q'
    rw [h₂, h₃, if_neg (by omega), if_neg (by omega), if_pos hlt]

theorem snappyInJavaPassOf_cut {flag : Byte} {c q u : Bytes} (h16 : c.length < 2 ^ 16)
    (hflag : flag = compressedFlag ∨ flag = uncompressedFlag) (crc32c : BitVec 32) (uclen : ℕ)
    (hq : flag :: (beBytes 2 c.length ++ (beBytes 4 crc32c.toNat ++ c)) = q ++ u) (hne : q ≠ [])
    (hu : u ≠ []) : snappyInJavaPassOf S uclen () q = .finish ⟨[], .status 1⟩ := by
  cases q with
  | nil => exact absurd rfl hne
  | cons b q =>
    rw [List.cons_append, List.cons.injEq] at hq
    obtain ⟨rfl, hq⟩ := hq
    rw [snappyInJavaPassOf, if_pos hflag, snappyInJavaFlaggedOf]
    refine if_pos ?_
    rw [← List.append_assoc] at hq
    have h6 : (beBytes 2 c.length ++ beBytes 4 crc32c.toNat).length = 6 := by
      simp only [List.length_append, length_beBytes]
    rcases cut_field hq hu with hlt | ⟨q', rfl, hlt⟩
    · rw [h6] at hlt
      exact Or.inl hlt
    · have htake := (beVal_take_beBytes (k := 2) (show c.length < 256 ^ 2 by omega)
        (beBytes 4 crc32c.toNat ++ q')).1
      rw [← List.append_assoc] at htake
      rw [htake, List.drop_left' h6]
      exact Or.inr (Or.inr hlt)

theorem snzPassOf_cut {c q u : Bytes} (h31 : c.length < 2 ^ 31) (clen uclen : ℕ) (hc : c ≠ [])
    (hq : putVarint c.length ++ c = q ++ u) (hu : u ≠ []) :
    snzPassOf S clen uclen () q = .finish ⟨[], .status 1⟩ := by
  have hpos := List.length_pos_iff.mpr hc
  rcases prefix_append hq.symm with ⟨v, hv, hlen⟩ | ⟨q', rfl, hq'⟩
  · -- the length is not there in full
    have hnone : takeLength 0#64 0 varintMax q = none := by
      cases ht : takeLength 0#64 0 varintMax q with
      | none => rfl
      | some r =>
        obtain ⟨m, idx, rest⟩ := r
        obtain ⟨m', idx', htake, -, -⟩ := takeLength_putVarint h31 []
        rw [List.append_nil, hlen, takeLength_append v ht, Option.some.injEq, Prod.mk.injEq,
          Prod.mk.injEq] at htake
        exact absurd (List.append_eq_nil_iff.mp htake.2.2).2 hv
    rw [snzPassOf, hnone]
  · obtain ⟨m, idx, htake, hm, hidx⟩ := takeLength_putVarint h31 q'
    have hm0 : m ≠ 0#64 := by
      rintro rfl
      rw [BitVec.toNat_ofNat] at hm
      omega
    have hshort : m.toNat > clen ∨ q'.length < m.toNat := by
      have := congrArg List.length hq'
      have := List.length_pos_iff.mpr hu
      rw [List.length_append] at *
      omega
    rw [snzPassOf, htake]
    simp only
    rw [if_neg (by omega), if_neg hm0, if_pos hshort]

/-! ## comment-43 and snzip -/

/-- In every state but the last the state machine refuses the end of the stream and the beginning
of a block. -/
theorem comment43PassOf_short {state : StreamState} {q : Bytes}
    (h : splitChunk 2 q = none) (hst : state ≠ .endOfStream) :
    comment43PassOf S state q = .finish ⟨[], .status 1⟩ := by
  rw [comment43PassOf]
  by_cases hq : q = []
  · rw [if_pos hq, if_neg hst]
  · rw [if_neg hq, h]

theorem comment43Unscript_truncated (hS : S.Contract) {x p t : Bytes}
    (hp : p ++ t = comment43Encode S x) (ht : t ≠ []) :
    ∃ a b, blocks comment43MaxRawDataLen x = a ++ b ∧
      comment43Unscript S false false p = ⟨a.map .fwriteOk, .status 1⟩ := by
  rw [comment43Unscript, if_neg (by decide)]
  rcases prefix_append hp with ⟨u, hu, hcut⟩ | ⟨q, rfl, hq⟩
  · -- the cut is in the header block
    have hsplit := splitChunk_cut (show comment43Magic.length < 256 ^ 2 by decide) hcut hu
    exact ⟨[], _, rfl, unroll_finish (comment43PassOf_short hsplit (by decide))⟩
  have hlt : q.length < (comment43Header ++ q).length := by
    rw [List.length_append, show comment43Header.length = 9 from rfl]
    omega
  rw [unroll_again (comment43PassOf_header q) hlt, Script.after_nil]
  rcases prefix_append hq with ⟨u, hu, hbody⟩ | ⟨q, rfl, hend⟩
  · -- the cut is in front of a block or inside one
    have hnil : unroll (comment43PassOf S) .processing [] = ⟨[], .status 1⟩ :=
      unroll_finish (comment43PassOf_short rfl (by decide))
    obtain ⟨a, b, hab, hrun⟩ := unroll_map_truncated (comment43PassOf S) (comment43BlockBytes S)
      .fwriteOk hnil
      (fun d hd => Or.inl
        (unroll_comment43Block hS (blocks_comment43 hd).1 (blocks_comment43 hd).2))
      (fun d hd q u hcut hq hu => by
        obtain ⟨hbytes, hlt⟩ := comment43BlockBytes_eq (S := S) (blocks_comment43 hd).2
        rw [hbytes] at hcut
        exact unroll_finish (comment43PassOf_short (splitChunk_cut hlt hcut hu) (by decide)))
      hbody.symm
    exact ⟨a, b, hab, hrun.elim id And.right⟩
  · -- the cut is in the end-of-stream block
    have hsplit := splitChunk_cut (k := 2) (d := []) (by decide) hend.symm ht
    refine ⟨_, [], (List.append_nil _).symm, ?_⟩
    rw [unroll_comment43Blocks hS (fun d hd => blocks_comment43 hd),
      unroll_finish (comment43PassOf_short hsplit (by decide)), Script.after_verdict]

theorem snzUnscript_truncated (hS : S.Contract) {n : ℕ} (hn : n ≤ 27) (g : Globals)
    {x p t : Bytes} (hp : p ++ t = snzEncode S n (2 ^ n) x) (ht : t ≠ []) :
    snzUnscript S g false false p = ⟨[], .status 1⟩ ∨
      ∃ a b, blocks (2 ^ n) x = a ++ b ∧
        snzUnscript S g false false p = ⟨.fflush :: a.map .writeFull, .status 1⟩ := by
  have hto := toNat_byteOf_lt (show n < 256 by omega)
  have hpow : 2 ^ n ≤ 2 ^ 27 := Nat.pow_le_pow_right (by decide) hn
  have h5 : (snzHeader n).length = 5 := rfl
  rcases prefix_append hp with ⟨u, hu, hcut⟩ | ⟨q, rfl, hq⟩
  · -- the cut is in the header
    have hlen : p.length < 5 := by
      have := congrArg List.length hcut
      have := List.length_pos_iff.mpr hu
      rw [List.length_append] at *
      omega
    refine Or.inl ?_
    rw [snzUnscript, takeSnzHeader, if_neg (by decide), takeHeader, if_pos hlen]
  have hheader : takeSnzHeader g false (snzHeader n ++ q) = some (byteOf n, q) := by
    simp [takeSnzHeader, takeHeader, snzHeader, snzMagic, checkSnzHeader, snzFileVersion]
  refine Or.inr ?_
  rw [snzUnscript, hheader]
  simp only [hto, snzMaxBlockSize]
  rw [if_neg (by omega), snzBody]
  simp only [hto]
  generalize hclen : snappyMaxCompressedLength (2 ^ n) = clen
  have hbound : ∀ d ∈ blocks (2 ^ n) x, d.length ≤ 2 ^ n ∧ S.compress d ≠ [] ∧
      (S.compress d).length < 2 ^ 31 := by
    intro d hd
    have hle : d.length ≤ 2 ^ n := length_of_mem_blocks hd
    have := hS.compress_le d (by omega)
    exact ⟨hle, hS.compress_ne_nil (by omega), by omega⟩
  have hstep : ∀ d ∈ blocks (2 ^ n) x, ∀ rest,
      unroll (snzPassOf S clen (2 ^ n)) () (snzBlockBytes S d ++ rest) =
        (unroll (snzPassOf S clen (2 ^ n)) () rest).after [.writeFull d] := by
    intro d hd rest
    obtain ⟨hle, hc, -⟩ := hbound d hd
    have := List.length_pos_iff.mpr hc
    refine unroll_again (hclen ▸ snzPassOf_block hS hn hle rest) ?_
    simp only [snzBlockBytes, List.length_append]
    omega
  have hnil : unroll (snzPassOf S clen (2 ^ n)) () [] = ⟨[], .status 1⟩ := unroll_finish rfl
  rcases prefix_append hq with ⟨u, hu, hbody⟩ | ⟨q, rfl, hend⟩
  · obtain ⟨a, b, hab, hrun⟩ := unroll_map_truncated (snzPassOf S clen (2 ^ n))
      (snzBlockBytes S) .writeFull hnil (fun d hd => Or.inl (hstep d hd))
      (fun d hd q u hcut _ hu => by
        obtain ⟨-, hc, h31⟩ := hbound d hd
        exact unroll_finish (snzPassOf_cut h31 clen (2 ^ n) hc hcut hu)) hbody.symm
    refine ⟨a, b, hab, ?_⟩
    rw [hrun.elim id And.right]
    rfl
  · -- the cut is in front of the terminator
    have hq : q = [] := by
      have := congrArg List.length hend
      have := List.length_pos_iff.mpr ht
      rw [List.length_append, List.length_singleton] at *
      exact List.length_eq_zero_iff.mp (by omega)
    refine ⟨_, [], (List.append_nil _).symm, ?_⟩
    rw [hq, unroll_flatMap hstep, hnil, Script.after_verdict, List.map_eq_flatMap]
    rfl

theorem firstBlocks_flatten {n : ℕ} (hn : 0 < n) {x : Bytes} {a b : List Bytes}
    (h : blocks n x = a ++ b) : a.flatten <+: x := by
  have hx := flatten_blocks hn x
  rw [h, List.flatten_append] at hx
  exact ⟨b.flatten, hx⟩

/-- **A truncated file is noticed** when the format has an end mark, and nothing is written that was
not in the file. -/
theorem truncated_selfTerminating {L : Library} (hS : L.snappy.Contract) {f : Format}
    {b : BitVec 64}
    (hf : f = .comment43 ∨
      f = .snzip ∧ (b = 0#64 ∨ ∃ s, 1 ≤ s ∧ s ≤ 26 ∧ b.toNat = 2 ^ s))
    (g g' : Globals) (stSize : Option (BitVec 64)) (B : Buffering) (x p : Bytes) :
    let compressed := Codec.run B (f.compress L g stSize b) (.opened x)
    p <+: compressed.written → p ≠ compressed.written →
    let r := Codec.run B (f.uncompress L g' false) (.opened p)
    (∃ n, r.status = some n ∧ n ≠ 0) ∧ r.written <+: x := by
  intro compressed hpre hne r
  obtain ⟨t, hp⟩ := hpre
  have ht : t ≠ [] := fun h0 => hne (by rw [← hp, h0, List.append_nil])
  rcases hf with rfl | ⟨rfl, hb⟩
  · have hrun : compressed = ⟨some 0, comment43Encode L.snappy x⟩ :=
      run_comment43Compress hS b B x
    rw [hrun] at hp
    obtain ⟨a, b', hab, hscript⟩ := comment43Unscript_truncated hS hp ht
    have hr : r = ⟨some 1, a.flatten⟩ := by
      refine run_fwriteOk (refines_comment43Uncompress L.snappy false) hscript (Or.inl rfl)
        (fun d hd => ?_) B
      exact ne_nil_of_mem_blocks (hab ▸ List.mem_append_left b' hd)
    rw [hr]
    exact ⟨⟨1, rfl, by decide⟩, firstBlocks_flatten (by decide) hab⟩
  · obtain ⟨n, hn, hrun⟩ : ∃ n, n ≤ 26 ∧
        compressed = ⟨some 0, snzEncode L.snappy n (2 ^ n) x⟩ := by
      rcases hb with rfl | ⟨s, h₁, h₂, h₃⟩
      · have hsome : snzBlockSize 0#64 = some (65536#64, 16) := rfl
        exact ⟨16, by decide, run_snzipCompress hS hsome B x⟩
      · have hsome := snzBlockSize_of_pow h₁ (by omega) h₃
        rw [if_neg (by omega)] at hsome
        have := run_snzipCompress hS hsome B x
        rw [h₃] at this
        exact ⟨s, h₂, this⟩
    rw [hrun] at hp
    have hpow : 2 ^ n ≤ 2 ^ 26 := Nat.pow_le_pow_right (by decide) hn
    rcases snzUnscript_truncated hS (by omega) g' hp ht with hscript | ⟨a, b', hab, hscript⟩
    · have hr : r = ⟨some 1, []⟩ :=
        run_refused (refines_snzipUncompress L.snappy g' false) hscript B
      rw [hr]
      exact ⟨⟨1, rfl, by decide⟩, List.nil_prefix⟩
    · have hr : r = ⟨some 1, a.flatten⟩ := by
        refine run_writeFull (refines_snzipUncompress L.snappy g' false) hscript
          (fun d hd => ?_) B
        have : d.length ≤ 2 ^ n := length_of_mem_blocks (hab ▸ List.mem_append_left b' hd)
        exact Nat.lt_of_le_of_lt this (by omega)
      rw [hr]
      exact ⟨⟨1, rfl, by decide⟩, firstBlocks_flatten (Nat.two_pow_pos n) hab⟩

/-- A file of one byte with the literal snappy, cut in its header. -/
theorem truncated_selfTerminating_literal :
    let r := Codec.run (.stdio 4096) (Format.comment43.uncompress ⟨literalSnappy, 0⟩ .initial false)
      (.opened [0xff#8, 0x06#8])
    (∃ n, r.status = some n ∧ n ≠ 0) ∧ r.written <+: [0x61#8] :=
  truncated_selfTerminating (L := ⟨literalSnappy, 0⟩) (f := .comment43) (b := 0#64)
    contract_literalSnappy (Or.inl rfl) .initial .initial none (.stdio 4096) [0x61#8]
    [0xff#8, 0x06#8]
    (by decide) (by decide +kernel)

/-! ## The formats without an end mark -/

/-- The formats whose files may end after any chunk. -/
inductive OpenEnded where
  | framing2
  | framing
  | iwa
  | snappyJava
  | snappyInJava
  deriving DecidableEq

namespace OpenEnded

/-- The format itself. -/
def format : OpenEnded → Format
  | framing2 => .framing2
  | framing => .framing
  | iwa => .iwa
  | snappyJava => .snappyJava
  | snappyInJava => .snappyInJava

/-- What a file starts with. -/
def header : OpenEnded → Bytes
  | framing2 => Snzip.framing2.streamHeader
  | framing => Snzip.framing.streamHeader
  | iwa => []
  | snappyJava => snappyJavaHeader
  | snappyInJava => snappyInJavaMagic

/-- The chunk of a block. -/
def chunkBytes (S : Snappy) : OpenEnded → Bytes → Bytes
  | framing2 => Snzip.chunkBytes Snzip.framing2 S
  | framing => Snzip.chunkBytes Snzip.framing S
  | iwa => iwaChunkBytes S
  | snappyJava => snappyJavaBlockBytes S
  | snappyInJava => snappyInJavaBlockBytes S

/-- How many bytes of the input make a block. -/
def blockLength (b : BitVec 64) : OpenEnded → ℕ
  | framing2 => Snzip.framing2.maxUncompressedDataLen
  | framing => Snzip.framing.maxUncompressedDataLen
  | iwa => iwaMaxUncompressedDataLen
  | snappyJava => snappyJavaBlockSize b
  | snappyInJava => snappyInJavaBlockSize b

theorem blockLength_pos (b : BitVec 64) (f : OpenEnded) : 0 < f.blockLength b := by
  cases f with
  | framing2 => exact Snzip.framing2.max_pos
  | framing => exact Snzip.framing.max_pos
  | iwa => exact (by decide : 0 < iwaMaxUncompressedDataLen)
  | snappyJava => exact snappyJavaBlockSize_pos b
  | snappyInJava => exact snappyInJavaBlockSize_pos b

end OpenEnded

/-- The block size of an `int`: it fits an `int`, or no memory can be had for it. -/
theorem snappyJavaBlockSize_int (i : BitVec 32) :
    snappyJavaBlockSize (sizeOfInt i) < 2 ^ 31 ∨ 2 ^ 63 ≤ snappyJavaBlockSize (sizeOfInt i) := by
  have hlt := i.isLt
  unfold snappyJavaBlockSize
  split
  · exact Or.inl (by decide)
  · by_cases h : 2 ^ 31 ≤ i.toNat
    · rw [toNat_sizeOfInt_neg h]
      exact Or.inr (by omega)
    · rw [toNat_sizeOfInt (by omega)]
      exact Or.inl (by omega)

/-- **What these compressors write**, when they succeed. -/
theorem run_compress_openEnded {L : Library} (hS : L.snappy.Contract) (f : OpenEnded) (g : Globals)
    (stSize : Option (BitVec 64)) (i : BitVec 32) (B : Buffering) (x : Bytes)
    (h : (Codec.run B (f.format.compress L g stSize (sizeOfInt i)) (.opened x)).status =
      some 0) :
    f.blockLength (sizeOfInt i) < 2 ^ 31 ∧
      (f = .snappyInJava → f.blockLength (sizeOfInt i) ≤ 65535) ∧
      Codec.run B (f.format.compress L g stSize (sizeOfInt i)) (.opened x) = ⟨some 0,
        f.header ++ (blocks (f.blockLength (sizeOfInt i)) x).flatMap (f.chunkBytes L.snappy)⟩ := by
  cases f with
  | framing2 =>
    have hlt : Snzip.framing2.maxUncompressedDataLen < 2 ^ 31 := by decide
    exact ⟨hlt, by simp,
      run_framingFormatCompress (F := Snzip.framing2) hS B (sizeOfInt i) x⟩
  | framing =>
    have hlt : Snzip.framing.maxUncompressedDataLen < 2 ^ 31 := by decide
    exact ⟨hlt, by simp,
      run_framingFormatCompress (F := Snzip.framing) hS B (sizeOfInt i) x⟩
  | iwa =>
    have hlt : iwaMaxUncompressedDataLen < 2 ^ 31 := by decide
    exact ⟨hlt, by simp, run_iwaCompress hS B (sizeOfInt i) x⟩
  | snappyJava =>
    rcases snappyJavaBlockSize_int i with hb | hb
    · exact ⟨hb, by simp, run_snappyJavaCompress hS hb B x⟩
    · have hrun : Codec.run B (snappyJavaCompress L.snappy (sizeOfInt i)) (.opened x) = _ :=
        run_snappyJavaCompress_large hb B x
      change (Codec.run B (snappyJavaCompress L.snappy (sizeOfInt i)) (.opened x)).status =
        some 0 at h
      rw [hrun] at h
      cases h
  | snappyInJava =>
    by_cases hb : snappyInJavaBlockSize (sizeOfInt i) ≤ 65535
    · exact ⟨Nat.lt_of_le_of_lt hb (by decide), fun _ => hb,
        run_snappyInJavaCompress hS hb B x⟩
    · have hrun : Codec.run B (snappyInJavaCompress L.snappy (sizeOfInt i)) (.opened x) = _ :=
        run_snappyInJavaCompress_large (Nat.lt_of_not_le hb) B x
      change (Codec.run B (snappyInJavaCompress L.snappy (sizeOfInt i)) (.opened x)).status =
        some 0 at h
      rw [hrun] at h
      cases h

section Decode

variable {x p t : Bytes} {n : ℕ}

theorem framingUnscript_truncated {F : Framing} (hS : S.Contract)
    (hp : p ++ t = F.streamHeader ++ (blocks F.maxUncompressedDataLen x).flatMap (chunkBytes F S)) :
    ∃ a b, blocks F.maxUncompressedDataLen x = a ++ b ∧
      (framingUnscript F S false false p = ⟨a.map .fwriteOk, .status 1⟩ ∨
        p = F.streamHeader ++ a.flatMap (chunkBytes F S) ∧
          framingUnscript F S false false p = ⟨a.map .fwriteOk, .checked 0⟩) := by
  rcases prefix_append hp with ⟨u, hu, hcut⟩ | ⟨q, rfl, hq⟩
  · -- the cut is in the stream header
    have hlen := congrArg List.length hcut
    have hupos := List.length_pos_iff.mpr hu
    have hne : p.take F.streamHeader.length ≠ F.streamHeader := fun h => by
      have := congrArg List.length h
      rw [List.length_take] at this
      rw [List.length_append] at hlen
      omega
    refine ⟨[], _, rfl, Or.inl ?_⟩
    rw [framingUnscript, if_neg (by decide), if_neg hne]
    rfl
  have hscript : framingUnscript F S false false (F.streamHeader ++ q) =
      unroll (chunkPass F.lengthBytes (framingReading F S) false) () q := by
    rw [framingUnscript, if_neg (by decide), List.take_left, if_pos rfl, List.drop_left,
      framingChunks]
  obtain ⟨a, b, hab, hrun⟩ := unroll_map_truncated
    (chunkPass F.lengthBytes (framingReading F S) false) (chunkBytes F S) .fwriteOk unroll_end
    (fun d hd => Or.inl fun rest => unroll_isChunk (isChunk_of_mem_blocks hS hd).1
      (isChunk_of_mem_blocks hS hd).2 rest)
    (fun d hd q u hcut hne hu => by
      obtain ⟨id, data, hbytes, hlt, -⟩ := (isChunk_of_mem_blocks (F := F) hS hd).2
      rw [hbytes] at hcut
      exact unroll_chunk_cut _ hlt hcut hne hu) hq
  rw [hscript]
  exact ⟨a, b, hab, hrun.imp_right (And.imp_left (congrArg (F.streamHeader ++ ·)))⟩

theorem iwaUnscript_truncated (hS : S.Contract)
    (hp : p ++ t = (blocks iwaMaxUncompressedDataLen x).flatMap (iwaChunkBytes S)) :
    ∃ a b, blocks iwaMaxUncompressedDataLen x = a ++ b ∧
      (iwaUnscript S false p = ⟨a.map .fwriteOk, .status 1⟩ ∨
        p = a.flatMap (iwaChunkBytes S) ∧
          iwaUnscript S false p = ⟨a.map .fwriteOk, .checked 0⟩) := by
  have hlen : ∀ d ∈ blocks iwaMaxUncompressedDataLen x, d.length ≤ 65536 :=
    fun d hd => length_of_mem_iwaBlocks hd
  exact unroll_map_truncated
    (chunkPass 3 (iwaReading S) false) (iwaChunkBytes S) .fwriteOk unroll_end
    (fun d hd => by
      by_cases h4 : 4 ≤ (S.compress d).length
      · exact Or.inl fun rest => unroll_isChunk (ne_nil_of_mem_blocks hd)
          (isChunk_iwaChunkBytes hS (hlen d hd) h4) rest
      · -- a short chunk is refused
        refine Or.inr fun rest => unroll_finish ?_
        have hread : iwaReading S 0x00#8 (S.compress d) = .bad := if_pos (Or.inr (by omega))
        have hsplit := splitChunk_append (length_compress_lt hS (hlen d hd)) 0x00#8 rest
        rw [iwaChunkBytes, List.cons_append, chunkPass, if_neg (List.cons_ne_nil _ _), hsplit]
        simp only [hread])
    (fun d hd q u hcut hne hu =>
      unroll_chunk_cut _ (length_compress_lt hS (hlen d hd)) hcut hne hu) hp

/-- A file of one of the two Java libraries: the flush after its header, and its blocks. -/
theorem after_fflush {pass : Unit → Bytes → Pass Unit} {e : Bytes → Bytes} {h q : Bytes}
    {a : List Bytes}
    (hrun : unroll pass () q = ⟨a.map .writeFull, .status 1⟩ ∨
      q = a.flatMap e ∧ unroll pass () q = ⟨a.map .writeFull, .status 0⟩) :
    (unroll pass () q).after [.fflush] = ⟨.fflush :: a.map .writeFull, .status 1⟩ ∨
      h ++ q = h ++ a.flatMap e ∧
        (unroll pass () q).after [.fflush] = ⟨.fflush :: a.map .writeFull, .status 0⟩ := by
  rcases hrun with hrun | ⟨rfl, hrun⟩
  · exact Or.inl (by rw [hrun]; rfl)
  · exact Or.inr ⟨rfl, by rw [hrun]; rfl⟩

theorem takeHeader_short {α : Type} {k : ℕ} (check : Bytes → Option α) {h u : Bytes}
    (hlen : h.length = k) (hp : h = p ++ u) (hu : u ≠ []) : takeHeader k check p = none := by
  have := congrArg List.length hp
  have := List.length_pos_iff.mpr hu
  rw [List.length_append] at *
  rw [takeHeader, if_pos (by omega)]

theorem snappyJavaUnscript_truncated (hS : S.Contract) (hn : n < 2 ^ 31)
    (hc : ∀ d ∈ blocks n x, (S.compress d).length < 2 ^ 31)
    (hp : p ++ t = snappyJavaHeader ++ (blocks n x).flatMap (snappyJavaBlockBytes S)) :
    snappyJavaUnscript S false false p = ⟨[], .status 1⟩ ∨ ∃ a b, blocks n x = a ++ b ∧
      (snappyJavaUnscript S false false p = ⟨.fflush :: a.map .writeFull, .status 1⟩ ∨
        p = snappyJavaHeader ++ a.flatMap (snappyJavaBlockBytes S) ∧
          snappyJavaUnscript S false false p = ⟨.fflush :: a.map .writeFull, .status 0⟩) := by
  rcases prefix_append hp with ⟨u, hu, hcut⟩ | ⟨q, rfl, hq⟩
  · refine Or.inl ?_
    have hnone : takeSnappyJavaHeader false p = none :=
      takeHeader_short (k := 16) checkSnappyJavaHeader rfl hcut hu
    rw [snappyJavaUnscript, hnone]
  have hds : ∀ d ∈ blocks n x, d.length < 2 ^ 31 ∧ (S.compress d).length < 2 ^ 31 :=
    fun d hd => ⟨Nat.lt_of_le_of_lt (length_of_mem_blocks hd) hn, hc d hd⟩
  obtain ⟨a, b, hab, hrun⟩ := unroll_map_truncated (v := .status 0) (snappyJavaPassOf S)
    (snappyJavaBlockBytes S) .writeFull (unroll_finish rfl)
    (fun d hd => Or.inl (unroll_snappyJavaBlock hS (hds d hd).1 (hds d hd).2))
    (fun d hd q u hcut hne hu => unroll_finish (snappyJavaPassOf_cut (hds d hd).2 hcut hne hu)) hq
  refine Or.inr ⟨a, b, hab, ?_⟩
  rw [snappyJavaUnscript, takeSnappyJavaHeader_header]
  exact after_fflush hrun

theorem snappyInJavaUnscript_truncated (hS : S.Contract) (hn : n ≤ 65535)
    (hp : p ++ t = snappyInJavaMagic ++ (blocks n x).flatMap (snappyInJavaBlockBytes S)) :
    snappyInJavaUnscript S false false p = ⟨[], .status 1⟩ ∨ ∃ a b, blocks n x = a ++ b ∧
      (snappyInJavaUnscript S false false p = ⟨.fflush :: a.map .writeFull, .status 1⟩ ∨
        p = snappyInJavaMagic ++ a.flatMap (snappyInJavaBlockBytes S) ∧
          snappyInJavaUnscript S false false p = ⟨.fflush :: a.map .writeFull, .status 0⟩) := by
  rcases prefix_append hp with ⟨u, hu, hcut⟩ | ⟨q, rfl, hq⟩
  · refine Or.inl ?_
    have hnone : takeSnappyInJavaHeader false p = none :=
      takeHeader_short (k := 7) checkSnappyInJavaHeader rfl hcut hu
    rw [snappyInJavaUnscript, hnone]
  have hds : ∀ d ∈ blocks n x, d ≠ [] ∧ d.length ≤ 65535 :=
    fun d hd => ⟨ne_nil_of_mem_blocks hd, Nat.le_trans (length_of_mem_blocks hd) hn⟩
  obtain ⟨a, b, hab, hrun⟩ := unroll_map_truncated (v := .status 0)
    (snappyInJavaPassOf S snappyInJavaMaxBlockSize.toNat) (snappyInJavaBlockBytes S) .writeFull
    (unroll_finish rfl)
    (fun d hd => Or.inl (unroll_snappyInJavaBlock hS (hds d hd).1 (hds d hd).2))
    (fun d hd q u hcut hne hu => by
      have hle := length_chooseFlagged_le S d
      have := (hds d hd).2
      exact unroll_finish (snappyInJavaPassOf_cut (by omega) (flag_chooseFlagged d)
        (maskedCrc32c d) _ hcut hne hu)) hq
  refine Or.inr ⟨a, b, hab, ?_⟩
  rw [snappyInJavaUnscript, takeSnappyInJavaHeader_header]
  exact after_fflush hrun

end Decode

section Run

variable {m : Io ℕ} {sc : Bool → Bytes → Script} {p : Bytes} {ds : List Bytes}
  {e : List Bytes → Bytes}

/-- A run whose script writes the contents of first chunks, with the status 0 only at their end. -/
theorem run_fwriteOk_truncated (hm : Refines m sc) (hne : ∀ d ∈ ds, d ≠ [])
    (h : ∃ a b, ds = a ++ b ∧ (sc false p = ⟨a.map .fwriteOk, .status 1⟩ ∨
      p = e a ∧ sc false p = ⟨a.map .fwriteOk, .checked 0⟩)) (B : Buffering) :
    ∃ a b k, ds = a ++ b ∧ Codec.run B m (.opened p) = ⟨some k, a.flatten⟩ ∧
      (k ≠ 0 ∨ p = e a) := by
  obtain ⟨a, b, rfl, hscript⟩ := h
  have ha : ∀ d ∈ a, d ≠ [] := fun d hd => hne d (List.mem_append_left b hd)
  rcases hscript with hscript | ⟨hp, hscript⟩
  · exact ⟨a, b, 1, rfl, run_fwriteOk hm hscript (Or.inl rfl) ha B, Or.inl (by decide)⟩
  · exact ⟨a, b, 0, rfl, run_fwriteOk hm hscript (Or.inr rfl) ha B, Or.inr hp⟩

theorem run_writeFull_truncated (hm : Refines m sc) (hlt : ∀ d ∈ ds, d.length < 2 ^ 31)
    (h : sc false p = ⟨[], .status 1⟩ ∨ ∃ a b, ds = a ++ b ∧
      (sc false p = ⟨.fflush :: a.map .writeFull, .status 1⟩ ∨
        p = e a ∧ sc false p = ⟨.fflush :: a.map .writeFull, .status 0⟩)) (B : Buffering) :
    ∃ a b k, ds = a ++ b ∧ Codec.run B m (.opened p) = ⟨some k, a.flatten⟩ ∧
      (k ≠ 0 ∨ p = e a) := by
  rcases h with hscript | ⟨a, b, rfl, hscript⟩
  · exact ⟨[], ds, 1, rfl, run_refused hm hscript B, Or.inl (by decide)⟩
  have ha : ∀ d ∈ a, d.length < 2 ^ 31 := fun d hd => hlt d (List.mem_append_left b hd)
  rcases hscript with hscript | ⟨hp, hscript⟩
  · exact ⟨a, b, 1, rfl, run_writeFull hm hscript ha B, Or.inl (by decide)⟩
  · exact ⟨a, b, 0, rfl, run_writeFull hm hscript ha B, Or.inr hp⟩

end Run

/-- **A run of the decoder on a prefix of a compressed file.** -/
theorem run_truncated_openEnded {L : Library} (hS : L.snappy.Contract) (f : OpenEnded) (g : Globals)
    {b : BitVec 64} (hb : f.blockLength b < 2 ^ 31)
    (hj : f = .snappyInJava → f.blockLength b ≤ 65535) {x p t : Bytes}
    (hc : ∀ d ∈ blocks (f.blockLength b) x, (L.snappy.compress d).length < 2 ^ 31)
    (hp : p ++ t = f.header ++ (blocks (f.blockLength b) x).flatMap (f.chunkBytes L.snappy))
    (B : Buffering) :
    ∃ a a' k, blocks (f.blockLength b) x = a ++ a' ∧
      Codec.run B (f.format.uncompress L g false) (.opened p) = ⟨some k, a.flatten⟩ ∧
      (k ≠ 0 ∨ p = f.header ++ a.flatMap (f.chunkBytes L.snappy)) := by
  have hne : ∀ d ∈ blocks (f.blockLength b) x, d ≠ [] := fun d hd => ne_nil_of_mem_blocks hd
  have hlt : ∀ d ∈ blocks (f.blockLength b) x, d.length < 2 ^ 31 := fun d hd =>
    Nat.lt_of_le_of_lt (length_of_mem_blocks hd) hb
  cases f with
  | framing2 =>
    exact run_fwriteOk_truncated (refines_framingFormatUncompress _ _ false) hne
      (framingUnscript_truncated hS hp) B
  | framing =>
    exact run_fwriteOk_truncated (refines_framingFormatUncompress _ _ false) hne
      (framingUnscript_truncated hS hp) B
  | iwa =>
    exact run_fwriteOk_truncated (refines_iwaUncompress L.snappy false) hne
      (iwaUnscript_truncated hS hp) B
  | snappyJava =>
    exact run_writeFull_truncated (refines_snappyJavaUncompress L.snappy false) hlt
      (snappyJavaUnscript_truncated hS hb hc hp) B
  | snappyInJava =>
    exact run_writeFull_truncated (refines_snappyInJavaUncompress L.snappy false) hlt
      (snappyInJavaUnscript_truncated hS (hj rfl) hp) B

/-- **A truncated file of a format without an end mark** is accepted only if it ends after its
header or after a chunk, and then the contents of its chunks are written; in any case nothing is
written that was not in the file. -/
theorem truncated_openEnded {L : Library} (hS : L.snappy.Contract) (f : OpenEnded) (g g' : Globals)
    (stSize : Option (BitVec 64)) (i : BitVec 32) (B : Buffering) (x p : Bytes) :
    let compressed := Codec.run B (f.format.compress L g stSize (sizeOfInt i)) (.opened x)
    let ds := blocks (f.blockLength (sizeOfInt i)) x
    compressed.status = some 0 → (∀ d ∈ ds, (L.snappy.compress d).length < 2 ^ 31) →
    compressed.written = f.header ++ ds.flatMap (f.chunkBytes L.snappy) ∧
      (p <+: compressed.written → p ≠ compressed.written →
        let r := Codec.run B (f.format.uncompress L g' false) (.opened p)
        r.written <+: x ∧ (r.status = some 0 → ∃ a b, ds = a ++ b ∧
          p = f.header ++ a.flatMap (f.chunkBytes L.snappy) ∧ r.written = a.flatten)) := by
  intro compressed ds hstatus hc
  obtain ⟨hb, hj, hrun⟩ := run_compress_openEnded hS f g stSize i B x hstatus
  have hwritten : compressed.written = f.header ++ ds.flatMap (f.chunkBytes L.snappy) :=
    congrArg Result.written hrun
  refine ⟨hwritten, ?_⟩
  rintro ⟨t, hp⟩ _ r
  rw [hwritten] at hp
  obtain ⟨a, a', k, hab, hr, hk⟩ := run_truncated_openEnded hS f g' hb hj hc hp B
  have hr : r = ⟨some k, a.flatten⟩ := hr
  rw [hr]
  refine ⟨firstBlocks_flatten (f.blockLength_pos _) hab, fun h0 => ?_⟩
  have hk0 : k = 0 := Option.some.inj h0
  exact ⟨a, a', hab, hk.resolve_left fun h => h hk0, rfl⟩

/-- Two blocks of one byte, cut after the first. -/
theorem truncated_openEnded_first :
    let x : Bytes := [0x61#8, 0x62#8]
    let ds := blocks (OpenEnded.snappyJava.blockLength (sizeOfInt 1#32)) x
    let p := snappyJavaHeader ++ snappyJavaBlockBytes literalSnappy [0x61#8]
    let r := Codec.run (.stdio 4096)
      (Format.snappyJava.uncompress ⟨literalSnappy, 0⟩ .initial false) (.opened p)
    r.written <+: x ∧ ∃ a b, ds = a ++ b ∧
      p = OpenEnded.snappyJava.header ++
        a.flatMap (OpenEnded.snappyJava.chunkBytes literalSnappy) ∧ r.written = a.flatten := by
  intro x ds p r
  have hcut := (truncated_openEnded (L := ⟨literalSnappy, 0⟩) contract_literalSnappy .snappyJava
    .initial .initial none 1#32 (.stdio 4096) x p (by decide +kernel) (by decide +kernel)).2
    (by decide +kernel) (by decide +kernel)
  exact ⟨hcut.1, hcut.2 (by decide +kernel)⟩

/-! ## hadoop-snappy -/

/-- Up to three bytes in front of a block are taken for the end of the file. -/
theorem hadoopPassOf_end {q : Bytes} (h : q.length < 4) :
    hadoopPassOf S false 0 q = .finish ⟨[], .status 0⟩ := by
  rw [hadoopPassOf, if_neg (Nat.lt_irrefl 0), if_pos h]
  rfl

theorem unroll_hadoop_cut (hS : S.Contract) {d q u : Bytes} (hne : d ≠ []) (hd : d.length < 2 ^ 31)
    (hq : hadoopBlockBytes S d = q ++ u) (hu : u ≠ []) (h4 : 4 ≤ q.length) :
    unroll (hadoopPassOf S false) 0 q = ⟨[], .status 1⟩ := by
  have hlen : (beBytes 4 d.length).length = 4 := length_beBytes _ _
  rw [hadoopBlockBytes] at hq
  rcases cut_field hq hu with hlt | ⟨q, rfl, -⟩
  · omega
  have hq : beBytes 4 (S.compress d).length ++ S.compress d = q ++ u := by
    rw [List.append_assoc] at hq
    exact List.append_cancel_left hq
  have hhead : hadoopPassOf S false 0 (beBytes 4 d.length ++ q) = .again [] d.length q :=
    hadoopPassOf_length (by omega) q
  rw [unroll_again hhead (by rw [List.length_append]; omega), Script.after_nil]
  refine unroll_finish ?_
  rw [hadoopPassOf, if_pos (List.length_pos_iff.mpr hne)]
  rcases cut_field hq hu with hlt | ⟨q, rfl, hlt⟩
  · rw [length_beBytes] at hlt
    rw [if_pos hlt]
  · obtain ⟨h₄, h₅, h₆⟩ := take_beBytes (length_compress_lt_pow hS hd) q
    rw [if_neg h₄, h₅, h₆, subBlock, if_pos (Or.inr hlt)]

/-- **Where the end of a file is noticed**: not within three bytes after a block. -/
theorem truncated_hadoopSnappy_iff (hS : S.Contract) (g : Globals) (B : Buffering) {i : BitVec 32}
    (hi : i = 0#32 ∨ 39 ≤ i.toNat) (x : Bytes) {p : Bytes} :
    let compressed := Codec.run B (hadoopSnappyFormatCompress S (sizeOfInt i)) (.opened x)
    let ds := blocks (hadoopSnappyMaxInputSize (sizeOfInt i)).toNat x
    p <+: compressed.written → p ≠ compressed.written →
    let r := Codec.run B (hadoopSnappyFormatUncompress S g false) (.opened p)
    ((r.status = some 0 → ∃ a b, ds = a ++ b ∧ p = a.flatMap (hadoopBlockBytes S) ∧
        r.written = a.flatten) ↔
      ¬ ∃ a b q, ds = a ++ b ∧ p = a.flatMap (hadoopBlockBytes S) ++ q ∧ q ≠ [] ∧
        q.length < 4) := by
  intro compressed ds hpre hne r
  obtain ⟨t, hp⟩ := hpre
  obtain ⟨h31, h0⟩ : (hadoopSnappyMaxInputSize (sizeOfInt i)).toNat < 2 ^ 31 ∧
      (hadoopSnappyMaxInputSize (sizeOfInt i)).toNat ≠ 0 := by
    rcases maxInputSize_int i with ⟨h31, h38⟩ | ⟨hlarge, -⟩
    · refine ⟨h31, fun h0 => ?_⟩
      rcases hi with rfl | hi
      · exact absurd (h38.mp h0) (by decide)
      · rw [h38.mp h0] at hi
        exact absurd hi (by decide)
    · -- nothing is written, and nothing has no proper prefix
      simp only [compressed, run_hadoop_of_large hlarge] at hp hne
      exact absurd (List.append_eq_nil_iff.mp hp).1 hne
  have hwritten : compressed.written = ds.flatMap (hadoopBlockBytes S) := by
    simp only [compressed, run_hadoopSnappyFormatCompress hS h0 h31]
    rfl
  rw [hwritten] at hp
  have hds : ∀ d ∈ ds, d ≠ [] ∧ d.length < 2 ^ 31 := fun d hd =>
    ⟨ne_nil_of_mem_blocks hd, Nat.lt_of_le_of_lt (length_of_mem_blocks hd) h31⟩
  have h8 : ∀ d, 8 ≤ (hadoopBlockBytes S d).length := fun d => by
    simp only [hadoopBlockBytes, List.length_append, length_beBytes]
    omega
  have hr : r = (unroll (hadoopPassOf S false) 0 p).result := run_hadoopUnscript_opened g false
    B p
  rw [hr]
  rcases unroll_cut (r := 0) (hadoopPassOf S false) (hadoopBlockBytes S) (fun d => [.fwriteOk d])
      (fun d hd rest => unroll_hadoopBlock hS (hds d hd).1 (hds d hd).2 rest) hp with
    ⟨a, b, hab, hpa, -, hrun⟩ | ⟨a, d, b, q, u, hab, hd, hq, hu, hpa, hrun⟩
  · -- the cut is between two blocks
    have hbytes : bytesOf (a.flatMap fun d => [Write.fwriteOk d]) = a.flatten := by
      rw [← List.map_eq_flatMap]
      exact bytesOf_map (fun _ => rfl) a
    rw [unroll_finish (hadoopPassOf_end (S := S) (q := []) (by decide)), Script.after_verdict]
      at hrun
    rw [hrun]
    refine ⟨fun _ => ?_, fun _ _ => ⟨a, b, hab, hpa, hbytes⟩⟩
    rintro ⟨a', b', q, hab', hpa', hq, hlt⟩
    refine hq (cut_unique (hab.symm.trans hab') ?_ ?_ ((List.append_nil _).trans
      (hpa.symm.trans hpa'))).2.symm
    · exact fun d _ => Nat.lt_of_lt_of_le (by decide) (h8 d)
    · exact fun d _ => Nat.lt_of_lt_of_le (by omega) (h8 d)
  -- the cut is inside a block
  have hlt : q.length < (hadoopBlockBytes S d).length := by
    have := List.length_pos_iff.mpr hu
    rw [hd, List.length_append]
    omega
  have hlt' : ∀ d' ∈ (d :: b).head?, q.length < (hadoopBlockBytes S d').length := by
    intro d' hd'
    cases hd'
    exact hlt
  have hmem : d ∈ ds := by
    rw [hab]
    exact List.mem_append_right a List.mem_cons_self
  by_cases h4 : q.length < 4
  · rw [unroll_finish (hadoopPassOf_end h4)] at hrun
    rw [hrun]
    constructor
    · intro h
      obtain ⟨a', b', hab', hpa', -⟩ := h rfl
      refine absurd (cut_unique (hab.symm.trans hab') hlt' ?_ (hpa.symm.trans
        (hpa'.trans (List.append_nil _).symm))).2 hq
      exact fun d _ => Nat.lt_of_lt_of_le (by decide) (h8 d)
    · exact fun h => absurd ⟨a, d :: b, q, hab, hpa, hq, h4⟩ h
  · rw [unroll_hadoop_cut hS (hds d hmem).1 (hds d hmem).2 hd hu (Nat.le_of_not_lt h4),
      Script.after_verdict] at hrun
    rw [hrun]
    refine ⟨fun _ => ?_, fun _ h => by cases h⟩
    rintro ⟨a', b', q', hab', hpa', -, hlt''⟩
    have hqq := (cut_unique (hab.symm.trans hab') hlt' (fun d _ =>
      Nat.lt_of_lt_of_le hlt'' (Nat.le_trans (by decide) (h8 d))) (hpa.symm.trans hpa')).2
    exact h4 (hqq ▸ hlt'')

/-- A file of one byte, cut after the first length. -/
theorem truncated_hadoopSnappy_literal :
    let p : Bytes := [0x00#8, 0x00#8, 0x00#8, 0x01#8]
    let r := Codec.run (.stdio 4096) (hadoopSnappyFormatUncompress literalSnappy .initial false)
      (.opened p)
    r.status = some 0 → ∃ a b,
      blocks (hadoopSnappyMaxInputSize (sizeOfInt 0#32)).toNat [0x61#8] = a ++ b ∧
        p = a.flatMap (hadoopBlockBytes literalSnappy) ∧ r.written = a.flatten := by
  refine (truncated_hadoopSnappy_iff contract_literalSnappy .initial (.stdio 4096) (Or.inl rfl)
    [0x61#8]
    ?_ ?_).mpr ?_
  · decide
  · decide
  · rintro ⟨a, b, q, -, hp, -, hlt⟩
    have hlen := congrArg List.length hp
    cases a with
    | nil =>
      rw [List.flatMap_nil, List.nil_append] at hlen
      exact absurd hlt (hlen ▸ by decide)
    | cons d a =>
      simp only [List.flatMap_cons, hadoopBlockBytes, List.length_append, length_beBytes,
        List.length_cons, List.length_nil] at hlen
      omega

/-- One byte of the first length is left of a file, and the status is 0. -/
theorem not_truncated_hadoopSnappy :
    let compressed :=
      Codec.run (.stdio 4096) (hadoopSnappyFormatCompress literalSnappy (sizeOfInt 0#32))
      (.opened [0x61#8])
    let p : Bytes := [0x00#8]
    literalSnappy.Contract ∧ p <+: compressed.written ∧ p ≠ compressed.written ∧
      (Codec.run (.stdio 4096) (hadoopSnappyFormatUncompress literalSnappy .initial false)
        (.opened p)).status = some 0 ∧
      ¬ ∃ a b, blocks (hadoopSnappyMaxInputSize (sizeOfInt 0#32)).toNat [0x61#8] = a ++ b ∧
        p = a.flatMap (hadoopBlockBytes literalSnappy) := by
  refine ⟨contract_literalSnappy, by decide, by decide +kernel, by decide +kernel, ?_⟩
  rintro ⟨a, b, -, hp⟩
  cases a with
  | nil => cases hp
  | cons d a =>
    have := congrArg List.length hp
    simp only [List.flatMap_cons, hadoopBlockBytes, List.length_append, length_beBytes,
      List.length_singleton] at this
    omega

end Snzip
