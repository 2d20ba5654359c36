import Snzip.Format.Varint
import Snzip.StreamFormat

set_option autoImplicit false

/-!
# Round trip of the snzip format

The search for the shift leaves the loop with 28 when there is none, but the test after it asks for
27: it refuses the largest block size and accepts sizes that are no powers of two.

* `snzEncode`, **`run_snzipCompress`**, **`run_snzipUncompress`**: compressed files come back;
* `snzBlockSize_eq_some`, **`snzip_roundTrip_iff`**: the block sizes that are treated as they
  should be.
-/

namespace Snzip

open CProg

variable {S : Snappy}

/-! ## Compressed files -/

/-- A block with its length. -/
def snzBlockBytes (S : Snappy) (data : Bytes) : Bytes :=
  putVarint (S.compress data).length ++ S.compress data

/-- A compressed file, with blocks of `b` bytes. -/
def snzEncode (S : Snappy) (nshift b : ℕ) (x : Bytes) : Bytes :=
  snzHeader nshift ++ ((blocks b x).flatMap (snzBlockBytes S) ++ [0x00#8])

theorem run_snzipCompress (hS : S.Contract) {b b' : BitVec 64} {nshift : ℕ}
    (hb : snzBlockSize b = some (b', nshift)) (B : Buffering) (x : Bytes) :
    Codec.run B (snzipCompress S b) (.opened x) =
      ⟨some 0, snzEncode S nshift b'.toNat x⟩ := by
  obtain ⟨-, hle⟩ := snzBlockSize_bounds hb
  have hscript : snzScript S b false x = ⟨.fwriteOk (snzHeader nshift) ::
      ((blocks b'.toNat x).flatMap (snzWrites S) ++ [.putc [0x00#8]]), .status 0⟩ := by
    simp only [snzScript, hb, snzTail, Script.after, Bool.false_eq_true, if_false]
    rfl
  have hbuffered : ∀ w ∈ (snzScript S b false x).writes, w.Buffered := by
    rw [hscript]
    simp only [List.mem_cons, List.mem_append, List.mem_flatMap, snzWrites, List.not_mem_nil,
      or_false]
    rintro w (rfl | ⟨d, hd, rfl | rfl⟩ | rfl)
    · exact List.append_ne_nil_of_right_ne_nil _ (List.cons_ne_nil _ _)
    · trivial
    · have := length_of_mem_blocks hd
      exact hS.compress_ne_nil (by omega)
    · trivial
  have hblock : (fun d => bytesOf (snzWrites S d)) = snzBlockBytes S :=
    funext fun d => by simp [snzWrites, snzBlockBytes, Write.bytes]
  rw [run_opened (refines_snzipCompress S b).fresh (Or.inl hbuffered), hscript]
  simp [Script.result, snzEncode, Write.bytes, hblock]

theorem run_snzipCompress_none {b : BitVec 64} (hb : snzBlockSize b = none) (B : Buffering)
    (x : Bytes) : Codec.run B (snzipCompress S b) (.opened x) = ⟨some 1, []⟩ := by
  have hscript : snzScript S b false x = ⟨[], .status 1⟩ := by simp only [snzScript, hb]
  rw [run_opened (refines_snzipCompress S b).fresh (by rw [hscript]; exact Or.inl (by simp)),
    hscript]
  rfl

section Decode

variable {n : ℕ}

theorem snzPassOf_block (hS : S.Contract) (hn : n ≤ 27) {d : Bytes} (hd : d.length ≤ 2 ^ n)
    (rest : Bytes) :
    snzPassOf S (snappyMaxCompressedLength (2 ^ n)) (2 ^ n) () (snzBlockBytes S d ++ rest) =
      .again [.writeFull d] () rest := by
  have hpow : 2 ^ n ≤ 2 ^ 27 := Nat.pow_le_pow_right (by decide) hn
  have hpos := hS.compress_pos d (by omega)
  have hle := hS.compress_le d (by omega)
  have hmax := snappyMaxCompressedLength_eq (show 2 ^ n < 2 ^ 63 by omega)
  have hclen : (S.compress d).length ≤ snappyMaxCompressedLength (2 ^ n) := by
    have := Nat.div_le_div_right (c := 6) hd
    omega
  obtain ⟨m, idx, htake, hm, hidx⟩ := takeLength_putVarint (show (S.compress d).length < 2 ^ 31 by
    omega) (S.compress d ++ rest)
  have hm0 : m ≠ 0#64 := by
    rintro rfl
    exact absurd hm (by simp; omega)
  have hread : ¬ (m.toNat > snappyMaxCompressedLength (2 ^ n) ∨
      (S.compress d ++ rest).length < m.toNat) := by
    rw [hm, List.length_append]
    omega
  rw [snzPassOf, snzBlockBytes, List.append_assoc, htake]
  simp only
  rw [if_neg (by omega), if_neg hm0, if_neg hread, hm, List.take_left, List.drop_left,
    hS.uncompressWithin_compress (by omega) hd]

theorem snzPassOf_end (S : Snappy) (clen uclen : ℕ) :
    snzPassOf S clen uclen () [0x00#8] = .finish ⟨[], .status 0⟩ := rfl

theorem snzBody_blocks (hS : S.Contract) (hn : n ≤ 27) (x : Bytes) :
    snzBody S (byteOf n) ((blocks (2 ^ n) x).flatMap (snzBlockBytes S) ++ [0x00#8]) =
      ⟨.fflush :: (blocks (2 ^ n) x).map .writeFull, .status 0⟩ := by
  have hto := toNat_byteOf_lt (show n < 256 by omega)
  have hblocks := unroll_flatMap (e := snzBlockBytes S) (f := fun d => [.writeFull d])
    (p := snzPassOf S (snappyMaxCompressedLength (2 ^ n)) (2 ^ n)) (r := ())
    (l := blocks (2 ^ n) x)
    (fun d hd rest => unroll_again (snzPassOf_block hS hn (length_of_mem_blocks hd) rest) (by
      have := hS.compress_pos d (Nat.lt_of_le_of_lt (length_of_mem_blocks hd)
        (Nat.pow_lt_pow_right (by decide) (by omega)))
      simp only [snzBlockBytes, List.length_append]
      omega)) [0x00#8]
  rw [snzBody]
  simp only [hto]
  rw [hblocks, unroll_finish (snzPassOf_end S _ _), Script.after, Script.after, List.map_eq_flatMap,
    List.append_nil]
  rfl

/-- **A compressed file comes back** when the shift in its header is that of its blocks. -/
theorem run_snzipUncompress (hS : S.Contract) (hn : n ≤ 27) (g : Globals) (B : Buffering)
    (x : Bytes) :
    Codec.run B (snzipUncompress S g false) (.opened (snzEncode S n (2 ^ n) x)) =
      ⟨some 0, x⟩ := by
  have hto := toNat_byteOf_lt (show n < 256 by omega)
  have hpow : 2 ^ n ≤ 2 ^ 27 := Nat.pow_le_pow_right (by decide) hn
  have hheader : takeSnzHeader g false (snzEncode S n (2 ^ n) x) = some (byteOf n,
      (blocks (2 ^ n) x).flatMap (snzBlockBytes S) ++ [0x00#8]) := by
    simp [takeSnzHeader, takeHeader, snzEncode, snzHeader, snzMagic, checkSnzHeader, snzFileVersion]
  have hscript : snzUnscript S g false false (snzEncode S n (2 ^ n) x) =
      ⟨.fflush :: (blocks (2 ^ n) x).map .writeFull, .status 0⟩ := by
    rw [snzUnscript, hheader]
    simp only [hto, snzMaxBlockSize]
    rw [if_neg (by omega), snzBody_blocks hS hn]
  have hrun := run_writeFull (refines_snzipUncompress S g false) hscript (fun d hd =>
    Nat.lt_of_le_of_lt (show d.length ≤ 2 ^ n from length_of_mem_blocks hd) (by omega)) B
  rwa [flatten_blocks (Nat.two_pow_pos n)] at hrun

end Decode

/-! ## The block sizes -/

theorem findShift_spec (b : BitVec 64) (nshift n : ℕ) :
    (nshift ≤ findShift b nshift n ∧ findShift b nshift n < nshift + n ∧
      1#64 <<< findShift b nshift n = b) ∨
    (findShift b nshift n = nshift + n ∧
      ∀ s, nshift ≤ s → s < nshift + n → 1#64 <<< s ≠ b) := by
  induction n generalizing nshift with
  | zero => exact Or.inr ⟨rfl, fun s h₁ h₂ => by omega⟩
  | succ n ih =>
    rw [findShift]
    split
    · next h => exact Or.inl ⟨Nat.le_refl _, by omega, h⟩
    · next h =>
      rcases ih (nshift + 1) with ⟨h₁, h₂, h₃⟩ | ⟨h₁, h₂⟩
      · exact Or.inl ⟨by omega, by omega, h₃⟩
      · refine Or.inr ⟨by omega, fun s hs hs' => ?_⟩
        rcases Nat.eq_or_lt_of_le hs with rfl | hlt
        · exact h
        · exact h₂ s hlt (by omega)

theorem shift_eq_iff {b : BitVec 64} {s : ℕ} (hs : s < 64) : 1#64 <<< s = b ↔ b.toNat = 2 ^ s := by
  have hlt : 2 ^ s < 2 ^ 64 := Nat.pow_lt_pow_right (by decide) hs
  have hto : (1#64 <<< s).toNat = 2 ^ s := by
    rw [BitVec.toNat_shiftLeft, Nat.shiftLeft_eq, BitVec.toNat_ofNat]
    omega
  rw [← BitVec.toNat_inj, hto, eq_comm]

section BlockSize

variable {b : BitVec 64}

theorem snzBlockSize_of_lt (h : 2 ^ 27 < b.toNat) : snzBlockSize b = none := by
  have h0 : b ≠ 0#64 := by
    rintro rfl
    exact absurd h (by decide)
  have hgt : b > 1#64 <<< snzMaxBlockSize := h
  rw [snzBlockSize, if_neg h0, if_pos hgt]

theorem snzBlockSize_of_le (h0 : b ≠ 0#64) (h : b.toNat ≤ 2 ^ 27) :
    snzBlockSize b = if findShift b 1 27 = 27 then none else some (b, findShift b 1 27) := by
  have hgt : ¬ b > 1#64 <<< snzMaxBlockSize := Nat.not_lt.mpr h
  rw [snzBlockSize, if_neg h0, if_neg hgt]
  rfl

/-- **A power of two**: the largest of them is refused. -/
theorem snzBlockSize_of_pow {s : ℕ} (h1 : 1 ≤ s) (h27 : s ≤ 27) (hb : b.toNat = 2 ^ s) :
    snzBlockSize b = if s = 27 then none else some (b, s) := by
  have h0 : b ≠ 0#64 := by
    rintro rfl
    exact absurd hb.symm (Nat.two_pow_pos s).ne'
  have hfind : findShift b 1 27 = s := by
    rcases findShift_spec b 1 27 with ⟨h₁, h₂, h₃⟩ | ⟨-, h₂⟩
    · rw [shift_eq_iff (by omega), hb] at h₃
      exact (Nat.pow_right_injective (Nat.le_refl 2) h₃).symm
    · exact absurd ((shift_eq_iff (by omega)).mpr hb) (h₂ s h1 (by omega))
  rw [snzBlockSize_of_le h0 (hb ▸ Nat.pow_le_pow_right (by decide) h27), hfind]

/-- **Any other block size that is not too large** is accepted with a shift that is. -/
theorem snzBlockSize_of_not_pow (h0 : b ≠ 0#64) (h : b.toNat ≤ 2 ^ 27)
    (hb : ∀ s, 1 ≤ s → s ≤ 27 → b.toNat ≠ 2 ^ s) : snzBlockSize b = some (b, 28) := by
  have hfind : findShift b 1 27 = 28 := by
    rcases findShift_spec b 1 27 with ⟨h₁, h₂, h₃⟩ | ⟨h₁, -⟩
    · exact absurd ((shift_eq_iff (by omega)).mp h₃) (hb _ h₁ (by omega))
    · exact h₁
  rw [snzBlockSize_of_le h0 h, hfind]
  rfl

end BlockSize

/-- **The block sizes that are treated as they should be**: 0, the powers of two from 2 to `2 ^ 26`,
and those that are too large. -/
theorem snzip_roundTrip_iff (hS : S.Contract) (g : Globals) (B : Buffering) (b : BitVec 64)
    (x : Bytes) :
    let compressed := Codec.run B (snzipCompress S b) (.opened x)
    (((snzBlockSize b).isSome = true ↔ b = 0#64 ∨ ∃ s, 1 ≤ s ∧ s ≤ 27 ∧ b.toNat = 2 ^ s) ∧
      (compressed.status = some 0 → ∃ b' s, snzBlockSize b = some (b', s) ∧
        snzHeader s <+: compressed.written ∧ 2 ^ s = b'.toNat ∧
        Codec.run B (snzipUncompress S g false) (.opened compressed.written) =
          ⟨some 0, x⟩)) ↔
    b = 0#64 ∨ (∃ s, 1 ≤ s ∧ s ≤ 26 ∧ b.toNat = 2 ^ s) ∨ 2 ^ 27 < b.toNat := by
  -- with a shift that fits, the file comes back
  have hgood : ∀ b' s, snzBlockSize b = some (b', s) → s ≤ 27 → b'.toNat = 2 ^ s →
      ∃ b' s, snzBlockSize b = some (b', s) ∧
        snzHeader s <+: (Codec.run B (snzipCompress S b) (.opened x)).written ∧
        2 ^ s = b'.toNat ∧ Codec.run B (snzipUncompress S g false)
          (.opened (Codec.run B (snzipCompress S b) (.opened x)).written) =
            ⟨some 0, x⟩ := by
    intro b' s hb hs hpow
    refine ⟨b', s, hb, ?_, hpow.symm, ?_⟩
    · rw [run_snzipCompress hS hb]
      exact List.prefix_append _ _
    · rw [run_snzipCompress hS hb]
      simp only [hpow]
      exact run_snzipUncompress hS hs g B x
  constructor
  · rintro ⟨hvalid, -⟩
    by_contra hbad
    obtain ⟨h0, hpow, hle⟩ : b ≠ 0#64 ∧ (∀ s, 1 ≤ s → s ≤ 26 → b.toNat ≠ 2 ^ s) ∧
        b.toNat ≤ 2 ^ 27 := by
      refine ⟨fun h => hbad (Or.inl h), fun s h₁ h₂ h₃ => hbad (Or.inr (Or.inl ⟨s, h₁, h₂, h₃⟩)),
        Nat.le_of_not_lt fun h => hbad (Or.inr (Or.inr h))⟩
    by_cases hmax : b.toNat = 2 ^ 27
    · have hnone := snzBlockSize_of_pow (by decide) (Nat.le_refl 27) hmax
      rw [if_pos rfl] at hnone
      have := hvalid.mpr (Or.inr ⟨27, by decide, Nat.le_refl _, hmax⟩)
      rw [hnone] at this
      cases this
    · have hall : ∀ s, 1 ≤ s → s ≤ 27 → b.toNat ≠ 2 ^ s := fun s h₁ h₂ h₃ => by
        rcases Nat.eq_or_lt_of_le h₂ with rfl | hlt
        · exact hmax h₃
        · exact hpow s h₁ (by omega) h₃
      have hsome := snzBlockSize_of_not_pow h0 hle hall
      rcases hvalid.mp (by rw [hsome]; rfl) with h | ⟨s, h₁, h₂, h₃⟩
      · exact h0 h
      · exact hall s h₁ h₂ h₃
  · rintro (rfl | ⟨s, h₁, h₂, h₃⟩ | hlt)
    · exact ⟨⟨fun _ => Or.inl rfl, fun _ => rfl⟩, fun _ =>
        hgood 65536#64 16 rfl (by decide) (by decide)⟩
    · have hsome := snzBlockSize_of_pow h₁ (by omega) h₃
      rw [if_neg (by omega)] at hsome
      refine ⟨by rw [hsome]; exact ⟨fun _ => Or.inr ⟨s, h₁, by omega, h₃⟩, fun _ => rfl⟩,
        fun _ => hgood _ _ hsome (by omega) h₃⟩
    · have hnone := snzBlockSize_of_lt hlt
      refine ⟨⟨fun h => ?_, fun h => ?_⟩, fun h => ?_⟩
      · rw [hnone] at h
        cases h
      · rcases h with rfl | ⟨s, -, hs, hpow⟩
        · exact absurd hlt (by decide)
        · have := Nat.pow_le_pow_right (show 0 < 2 by decide) hs
          omega
      · rw [run_snzipCompress_none hnone] at h
        cases h

/-- Blocks of two bytes, with the literal snappy. -/
theorem snzip_roundTrip_two :
    let compressed := Codec.run (.stdio 4096) (snzipCompress literalSnappy 2#64)
      (.opened [0x61#8, 0x62#8, 0x63#8])
    compressed.status = some 0 → ∃ b' s, snzBlockSize 2#64 = some (b', s) ∧
      snzHeader s <+: compressed.written ∧ 2 ^ s = b'.toNat ∧
      Codec.run (.stdio 4096) (snzipUncompress literalSnappy .initial false)
        (.opened compressed.written) =
        ⟨some 0, [0x61#8, 0x62#8, 0x63#8]⟩ :=
  ((snzip_roundTrip_iff contract_literalSnappy .initial (.stdio 4096) 2#64
    [0x61#8, 0x62#8, 0x63#8]).mpr
    (Or.inr (Or.inl ⟨1, by decide, by decide, rfl⟩))).2

/-- A block size of 3 is accepted, and what is written then is refused; the largest power of two is
refused at once. -/
theorem not_snzip_roundTrip_three :
    let compressed := Codec.run (.stdio 4096) (snzipCompress literalSnappy 3#64) (.opened [0x61#8])
    literalSnappy.Contract ∧ compressed.status = some 0 ∧
      Codec.run (.stdio 4096) (snzipUncompress literalSnappy .initial false)
        (.opened compressed.written) ≠
        ⟨some 0, [0x61#8]⟩ ∧ snzBlockSize (1#64 <<< 27) = none := by
  refine ⟨contract_literalSnappy, ?_, ?_, ?_⟩
  all_goals decide

end Snzip
