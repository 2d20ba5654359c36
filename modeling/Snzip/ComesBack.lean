import Snzip.Language
import Snzip.Truncation
import Snzip.RoundTrip.Files

set_option autoImplicit false

/-!
# The files that come back

What a compressor makes of a file is decoded to the file, with a few exceptions: block sizes for
which the header of snzip has no shift, the block size of hadoop-snappy with which nothing is read,
chunks that are too short for iwa, and lengths with a high bit in snappy-java.

* `Format.ComesBack`: the files and block sizes without the exceptions;
* `snzBlockSize_int`, `unroll_snappyJava_refused`: the exceptions of snzip and snappy-java;
* **`comesBack_iff`**: there are no others;
* `tells_compressed`: what is compressed tells its format, whether it comes back or not.
-/

namespace Snzip

open CProg

/-- The files that come back, with a block size (`-b`, 0 without the option) that the compressor
does not refuse. -/
def Format.ComesBack (S : Snappy) (b : BitVec 32) (x : Bytes) : Format → Prop
  | framing2 | framing | snappyInJava | comment43 => True
  | hadoopSnappy => b ≠ 38#32 ∨ x = []
  | iwa => ∀ d ∈ blocks iwaMaxUncompressedDataLen x, 4 ≤ (S.compress d).length
  | snzip => b = 0#32 ∨ ∃ s, 1 ≤ s ∧ s ≤ 26 ∧ b.toNat = 2 ^ s
  | snappyJava =>
    ∀ d ∈ blocks (snappyJavaBlockSize (sizeOfInt b)) x, (S.compress d).length < 2 ^ 31
  | raw => False

section Exceptions

variable {S : Snappy} {x : Bytes}

/-- **The shift of a block size**: that of a power of two, or 28. -/
theorem snzBlockSize_int {b : BitVec 32} {b' : BitVec 64} {s : ℕ}
    (h : snzBlockSize (sizeOfInt b) = some (b', s)) :
    Format.snzip.ComesBack S b x ∧ 1 ≤ s ∧ s ≤ 26 ∧ b'.toNat = 2 ^ s ∨
      ¬ Format.snzip.ComesBack S b x ∧ s = 28 := by
  by_cases h0 : b = 0#32
  · subst h0
    have hdefault : snzBlockSize (sizeOfInt 0#32) = some (65536#64, 16) := by decide
    cases hdefault.symm.trans h
    exact Or.inl ⟨Or.inl rfl, by decide, by decide, rfl⟩
  have hb : b.toNat ≠ 0 := fun h => h0 (BitVec.eq_of_toNat_eq h)
  have hle : (sizeOfInt b).toNat ≤ 2 ^ 27 := by
    by_contra hlt
    rw [snzBlockSize_of_lt (Nat.lt_of_not_le hlt)] at h
    cases h
  have hto : (sizeOfInt b).toNat = b.toNat := by
    by_cases hneg : 2 ^ 31 ≤ b.toNat
    · have := toNat_sizeOfInt_neg hneg
      omega
    · exact toNat_sizeOfInt (by omega)
  have hne : sizeOfInt b ≠ 0#64 := fun h => by
    rw [h, BitVec.toNat_ofNat] at hto
    omega
  by_cases hpow : ∃ s, 1 ≤ s ∧ s ≤ 27 ∧ (sizeOfInt b).toNat = 2 ^ s
  · obtain ⟨s', h1, h27, hs'⟩ := hpow
    rw [snzBlockSize_of_pow h1 h27 hs'] at h
    split at h
    · cases h
    · cases h
      exact Or.inl ⟨Or.inr ⟨s, h1, by omega, hto.symm.trans hs'⟩, h1, by omega, hs'⟩
  · rw [snzBlockSize_of_not_pow hne hle fun s h1 h27 hs => hpow ⟨s, h1, h27, hs⟩] at h
    cases h
    refine Or.inr ⟨?_, rfl⟩
    rintro (rfl | ⟨s, h1, h26, hs⟩)
    · exact h0 rfl
    · exact hpow ⟨s, h1, by omega, hto.trans hs⟩

theorem snzUnscript_refused (g : Globals) (fault : Bool) (rest : Bytes) :
    snzUnscript S g false fault (snzHeader 28 ++ rest) = ⟨[], .status 1⟩ := by
  have hheader : takeSnzHeader g false (snzHeader 28 ++ rest) = some (byteOf 28, rest) :=
    takeSnzHeader_iff.mpr rfl
  rw [snzUnscript, hheader]
  exact if_pos (by decide)

theorem unroll_snappyJava_refused (hS : S.Contract) {ds : List Bytes}
    (hds : ∀ d ∈ ds, d.length < 2 ^ 31)
    (h : (unroll (snappyJavaPassOf S) () (ds.flatMap (snappyJavaBlockBytes S))).Succeeds) :
    ∀ d ∈ ds, (S.compress d).length < 2 ^ 31 := by
  induction ds with
  | nil => exact fun d hd => by cases hd
  | cons d ds ih =>
    have hd := hds d List.mem_cons_self
    rw [List.flatMap_cons] at h
    by_cases hc : (S.compress d).length < 2 ^ 31
    · rw [unroll_snappyJavaBlock hS hd hc, Script.succeeds_after] at h
      exact List.forall_mem_cons.mpr ⟨hc, ih (fun d hd => hds d (List.mem_cons_of_mem _ hd)) h.2⟩
    · have h32 := length_compress_lt_pow hS hd
      obtain ⟨h₁, h₂, h₃⟩ := take_beBytes h32
        (S.compress d ++ ds.flatMap (snappyJavaBlockBytes S))
      have hne : beBytes 4 (S.compress d).length ++
          (S.compress d ++ ds.flatMap (snappyJavaBlockBytes S)) ≠ [] := fun h0 => by
        rw [h0] at h₁
        exact h₁ (by decide)
      have hpass : snappyJavaPassOf S () (snappyJavaBlockBytes S d ++
          ds.flatMap (snappyJavaBlockBytes S)) = .finish ⟨[], .exit 1⟩ := by
        rw [snappyJavaBlockBytes, List.append_assoc, snappyJavaPassOf, if_neg hne, h₂,
          if_neg (by omega), if_pos (by omega)]
      rw [unroll_finish hpass, Script.succeeds_mk] at h
      simp at h

end Exceptions

/-! ## What is compressed -/

section Compressed

variable {L : Library} {f : Format} {g : Globals} {stSize : Option (BitVec 64)} {b : BitVec 32}
  {B : Buffering} {x out : Bytes}

theorem run_snzipCompress_zero (hS : L.snappy.Contract)
    (h : Codec.run B (snzipCompress L.snappy (sizeOfInt b)) (.opened x) = ⟨some 0, out⟩) :
    ∃ b' s, snzBlockSize (sizeOfInt b) = some (b', s) ∧ out = snzEncode L.snappy s b'.toNat x := by
  cases hb : snzBlockSize (sizeOfInt b) with
  | none =>
    rw [run_snzipCompress_none hb] at h
    cases h
  | some r =>
    obtain ⟨b', s⟩ := r
    rw [run_snzipCompress hS hb] at h
    cases h
    exact ⟨b', s, rfl, rfl⟩

/-- **What comes back**: what a compressor has made of a file is decoded to the file exactly if it
is none of the exceptions. -/
theorem comesBack_iff (hS : L.snappy.Contract) (hf : f ≠ .raw) (g' : Globals) (B' : Buffering)
    (h : Codec.run B (f.compress L g stSize (sizeOfInt b)) (.opened x) = ⟨some 0, out⟩) :
    Codec.run B' (f.uncompress L g' false) (.opened out) = ⟨some 0, x⟩ ↔
      f.ComesBack L.snappy b x := by
  cases f with
  | raw => exact absurd rfl hf
  | framing2 =>
    cases (run_framingFormatCompress (F := Snzip.framing2) hS B (sizeOfInt b) x).symm.trans h
    exact iff_of_true (encoded_framing hS Snzip.framing2 B' x) trivial
  | framing =>
    cases (run_framingFormatCompress (F := Snzip.framing) hS B (sizeOfInt b) x).symm.trans h
    exact iff_of_true (encoded_framing hS Snzip.framing B' x) trivial
  | comment43 =>
    cases (run_comment43Compress hS (sizeOfInt b) B x).symm.trans h
    exact iff_of_true (run_comment43Uncompress hS B' x) trivial
  | snappyInJava =>
    obtain ⟨-, hmax, hrun⟩ := run_compress_openEnded hS .snappyInJava g stSize b B x
      (congrArg Result.status h)
    cases hrun.symm.trans h
    exact iff_of_true (run_snappyInJavaUncompress hS (snappyInJavaBlockSize_pos _) (hmax rfl) B'
      x) trivial
  | snappyJava =>
    obtain ⟨h31, -, hrun⟩ := run_compress_openEnded hS .snappyJava g stSize b B x
      (congrArg Result.status h)
    cases hrun.symm.trans h
    have hds : ∀ d ∈ blocks (snappyJavaBlockSize (sizeOfInt b)) x, d.length < 2 ^ 31 :=
      fun d hd => Nat.lt_of_le_of_lt (length_of_mem_blocks hd) h31
    refine ⟨fun hback => ?_, fun hc =>
      run_snappyJavaUncompress hS (snappyJavaBlockSize_pos _) h31 hc B'⟩
    have hyields := (run_uncompress_zero_iff (f := .snappyJava) (by decide) g' false
      (InFile.ok_opened _) B').mp hback
    have hbody : (snappyJavaUnscript L.snappy false false (snappyJavaHeader ++
        (blocks (snappyJavaBlockSize (sizeOfInt b)) x).flatMap
          (snappyJavaBlockBytes L.snappy))).Succeeds := hyields.1
    rw [snappyJavaUnscript, takeSnappyJavaHeader_header] at hbody
    exact unroll_snappyJava_refused hS hds (Script.succeeds_after.mp hbody).2
  | iwa =>
    cases (run_iwaCompress hS B (sizeOfInt b) x).symm.trans h
    have hds : ∀ d ∈ blocks iwaMaxUncompressedDataLen x, d ≠ [] ∧ d.length ≤ 65536 :=
      fun d hd => ⟨ne_nil_of_mem_blocks hd, length_of_mem_iwaBlocks hd⟩
    rw [run_uncompress_zero_iff (f := .iwa) (by decide) g' false (InFile.ok_opened _) B']
    change Yields (iwaUnscript L.snappy false (iwaEncode L.snappy x)) x ↔ _
    refine ⟨fun hyields => ?_, fun h4 => ?_⟩
    · by_contra hbad
      have hstatus := hyields.1.2
      rw [Script.result, iwaEncode, iwaUnscript_refused hS hds hbad] at hstatus
      cases hstatus
    · rw [iwaEncode, iwaUnscript_encode hS hds h4]
      have hgoes : ∀ w ∈ (blocks iwaMaxUncompressedDataLen x).map Write.fwriteOk, w.Goes := by
        intro w hw
        obtain ⟨d, hd, rfl⟩ := List.mem_map.mp hw
        exact (hds d hd).1
      refine ⟨⟨hgoes, rfl⟩, ?_⟩
      rw [bytesOf_map fun _ => rfl, flatten_blocks (by decide)]
  | snzip =>
    obtain ⟨b', s, hb, rfl⟩ := run_snzipCompress_zero hS h
    rcases snzBlockSize_int (S := L.snappy) (x := x) hb with ⟨hback, h1, h26, hpow⟩ | ⟨hbad, rfl⟩
    · rw [hpow]
      exact iff_of_true (run_snzipUncompress hS (by omega) g' B' x) hback
    · refine iff_of_false (fun hback => ?_) hbad
      have hyields := (run_uncompress_zero_iff (f := .snzip) (by decide) g' false
        (InFile.ok_opened _) B').mp hback
      have hrefused : Yields (snzUnscript L.snappy g' false false
        (snzEncode L.snappy 28 b'.toNat x)) x := hyields
      rw [snzEncode, snzUnscript_refused] at hrefused
      exact not_yields_refused hrefused
  | hadoopSnappy =>
    have hnil : Codec.run B' (hadoopSnappyFormatUncompress L.snappy g' false) (.opened []) =
        ⟨some 0, []⟩ := by
      have hback := run_hadoopSnappyFormatUncompress hS (n := 1) (by decide) (by decide) g' B' []
      rwa [hadoopEncode, blocks_nil] at hback
    rcases maxInputSize_int b with ⟨h31, h38⟩ | ⟨hlarge, -⟩
    · by_cases h0 : (hadoopSnappyMaxInputSize (sizeOfInt b)).toNat = 0
      · -- nothing was read
        cases (run_hadoop_of_zero h0 B x).symm.trans h
        refine ⟨fun hback => Or.inr ?_, fun hx => ?_⟩
        · exact (congrArg Result.written (hnil.symm.trans hback)).symm
        · rw [hx.resolve_left fun hne => hne (h38.mp h0)]
          exact hnil
      · cases (run_hadoopSnappyFormatCompress hS h0 h31 B x).symm.trans h
        exact iff_of_true (run_hadoopSnappyFormatUncompress hS h0 h31 g' B' x)
          (Or.inl fun he => h0 (h38.mpr he))
    · cases (run_hadoop_of_large hlarge B x).symm.trans h

/-- **What is compressed tells its format.** -/
theorem tells_compressed (hS : L.snappy.Contract) (hf : f.magic ≠ none)
    (h : Codec.run B (f.compress L g stSize (sizeOfInt b)) (.opened x) = ⟨some 0, out⟩) :
    Tells out f := by
  cases f with
  | hadoopSnappy | raw | iwa => exact absurd rfl hf
  | framing2 =>
    cases (run_framingFormatCompress (F := Snzip.framing2) hS B (sizeOfInt b) x).symm.trans h
    exact tells_append rfl _ (by simp)
  | framing =>
    cases (run_framingFormatCompress (F := Snzip.framing) hS B (sizeOfInt b) x).symm.trans h
    exact tells_append rfl _ (by simp)
  | comment43 =>
    cases (run_comment43Compress hS (sizeOfInt b) B x).symm.trans h
    exact tells_append rfl _ (by simp)
  | snappyJava =>
    obtain ⟨-, -, hrun⟩ := run_compress_openEnded hS .snappyJava g stSize b B x
      (congrArg Result.status h)
    cases hrun.symm.trans h
    rw [OpenEnded.header, snappyJavaHeader, List.append_assoc]
    exact tells_append rfl _ (by simp)
  | snappyInJava =>
    obtain ⟨-, -, hrun⟩ := run_compress_openEnded hS .snappyInJava g stSize b B x
      (congrArg Result.status h)
    cases hrun.symm.trans h
    exact tells_append rfl _ (by simp)
  | snzip =>
    obtain ⟨b', s, hb, rfl⟩ := run_snzipCompress_zero hS h
    refine tells_append (m := snzMagic ++ [snzFileVersion]) rfl _ fun _ => ?_
    -- the shift is in the fifth byte
    have hs : s ≠ 0 ∧ s < 256 := by
      rcases snzBlockSize_int (S := L.snappy) (x := x) hb with ⟨-, h1, h26, -⟩ | ⟨-, rfl⟩ <;> omega
    change byteOf s ≠ 0x00#8
    intro h0
    have hto := congrArg BitVec.toNat h0
    rw [toNat_byteOf_lt hs.2] at hto
    exact hs.1 hto

end Compressed

end Snzip
