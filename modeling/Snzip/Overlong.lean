import Snzip.ReadError

set_option autoImplicit false

/-!
# Lengths whose fifth byte is lost

No bit is left of a fifth byte that is a multiple of 16, and the other four bytes alone are taken
for the length.

* `VarintBlock`, `VarintEnd`, **`snzBlock_eq`**, `isLength_zero_iff`: what is accepted;
* `ReadsExactly`, `InvertsWriter`, **`readsExactly_iff`**: a length is read as what it is, or its
  file is refused, unless the file is accepted with such a length;
* `not_readsExactly`: the end of the data where 2 ^ 32 bytes are announced.
-/

namespace Snzip

open CProg

/-! ## What is accepted -/

/-- A block with a length in base 128 of which no bit is left behind the first 28. -/
def VarintBlock (S : Snappy) (clen uclen : ℕ) (bs u : Bytes) : Prop :=
  ∃ e c, IsVarint e ∧ fifthByte e % 16 = 0 ∧ c.length = low28 e ∧ c ≠ [] ∧ c.length ≤ clen ∧
    bs = e ++ c ∧ S.uncompressWithin c uclen = some u

/-- A length of which no bit is left. -/
def VarintEnd (e : Bytes) : Prop := IsVarint e ∧ fifthByte e % 16 = 0 ∧ low28 e = 0

section Accepted

variable {S : Snappy} {clen uclen : ℕ}

theorem snzBlock_eq (hclen : clen < 2 ^ 28) :
    SnzBlock S clen uclen = VarintBlock S clen uclen := by
  funext bs u
  apply propext
  constructor
  · rintro ⟨e, n, c, he, hn, hle, hlen, rfl, hu⟩
    have h0 := he.lt_iff.mp (by omega)
    refine ⟨e, c, he.isVarint, h0, by rw [hlen, he.eq_low28 h0], ?_, by omega, rfl, hu⟩
    rintro rfl
    exact hn (BitVec.eq_of_toNat_eq hlen.symm)
  · rintro ⟨e, c, he, h0, hlen, hne, hle, rfl, hu⟩
    obtain ⟨n, hn, -⟩ := exists_isLength he
    have hlow := hn.eq_low28 h0
    refine ⟨e, n, c, hn, ?_, by omega, by omega, rfl, hu⟩
    rintro rfl
    exact hne (List.length_eq_zero_iff.mp (by rw [hlen, ← hlow]; rfl))

theorem isLength_zero_iff {e : Bytes} : IsLength e 0#64 ↔ VarintEnd e := by
  constructor
  · intro h
    have h0 := h.lt_iff.mp (by decide)
    exact ⟨h.isVarint, h0, (h.eq_low28 h0).symm⟩
  · rintro ⟨he, h0, hlow⟩
    obtain ⟨n, hn, -⟩ := exists_isLength he
    rwa [BitVec.eq_of_toNat_eq ((hn.eq_low28 h0).trans hlow) (y := 0#64)] at hn

theorem snzPassOf_large {e : Bytes} {n : BitVec 64} (h : IsLength e n) (hclen : clen < n.toNat)
    (rest : Bytes) : snzPassOf S clen uclen () (e ++ rest) = .finish ⟨[], .status 1⟩ := by
  obtain ⟨idx, he, hidx⟩ := h
  have hn : n ≠ 0#64 := by
    rintro rfl
    exact absurd hclen (Nat.not_lt_zero _)
  rw [snzPassOf, takeLength_append rest he]
  simp only
  rw [if_neg hidx, if_neg hn, if_pos (Or.inl hclen)]

end Accepted

/-! ## The lengths of a file -/

/-- Blocks, one after the other, and then `rest`, in a file with this block size. -/
def BlocksBefore (S : Snappy) (blockSize : Byte) (t rest : Bytes) : Prop :=
  ∃ b us, Records (VarintBlock S (snappyMaxCompressedLength (2 ^ blockSize.toNat))
    (2 ^ blockSize.toNat)) b us ∧ t = b ++ rest

/-- A fifth byte that is there, although no bit of it is left. -/
def Overlong (e : Bytes) : Prop := IsVarint e ∧ fifthByte e ≠ 0 ∧ fifthByte e % 16 = 0

theorem Overlong.four_high {e : Bytes} (h : Overlong e) : 4 ≤ e.countP (128 ≤ ·.toNat) := by
  obtain ⟨⟨-, a, b, rfl, ha, -⟩, h0, -⟩ := h
  have hhigh : a.countP (128 ≤ ·.toNat) = a.length :=
    List.countP_eq_length.mpr fun c hc => decide_eq_true (ha c hc)
  have hlen : ¬ (a ++ [b]).length ≤ 4 := fun hle => h0 (fifthByte_of_length_le hle)
  rw [List.length_append, List.length_singleton] at hlen
  rw [List.countP_append, hhigh]
  omega

/-- A file that is accepted, with blocks up to the end of its data; and behind some of the blocks a
length whose fifth byte is a multiple of 16. -/
def OverlongAccepted (S : Snappy) (g : Globals) (skipMagic : Bool) (s : Bytes) : Prop :=
  ∃ blockSize t, takeSnzHeader g skipMagic s = some (blockSize, t) ∧
    blockSize.toNat ≤ snzMaxBlockSize ∧
    (∃ e rest, BlocksBefore S blockSize t (e ++ rest) ∧ VarintEnd e) ∧
    ∃ e rest, BlocksBefore S blockSize t (e ++ rest) ∧ Overlong e

/-- `snzip_uncompress` reads `e` as the length of a block of `s`, and takes it for `n`. -/
def UsesLength (S : Snappy) (g : Globals) (skipMagic : Bool) (s e : Bytes) (n : BitVec 64) : Prop :=
  ∃ blockSize t ws rest, takeSnzHeader g skipMagic s = some (blockSize, t) ∧
    blockSize.toNat ≤ snzMaxBlockSize ∧
    Steps (snzPassOf S (snappyMaxCompressedLength (2 ^ blockSize.toNat)) (2 ^ blockSize.toNat)) ()
      t ws () (e ++ rest) ∧ IsLength e n

/-- **The file is refused, or every length in it is taken for what it is.** -/
def ReadsExactly (S : Snappy) (g : Globals) (skipMagic : Bool) (B : Buffering) (i : InFile) :
    Prop :=
  (∃ n, (Codec.run B (snzipUncompress S g skipMagic) i).status = some n ∧ n ≠ 0) ∨
    ∀ e n, UsesLength S g skipMagic i.rest e n → n.toNat = varintValue e

/-- **The reader inverts the writer**, and reads the bytes that were written. -/
def InvertsWriter : Prop :=
  ∀ n, 1 ≤ n → n < 2 ^ 31 → ∀ (w : World) (rest : Bytes), w.inp.rest = putVarint n ++ rest →
    ∃ m idx, readLength 0#64 0 varintMax w =
        .ret (some (m, idx)) { w with inp := { w.inp with rest := rest } } ∧
      m.toNat = n ∧ idx ≠ varintMax

theorem invertsWriter : InvertsWriter := by
  intro n _ hn w rest hw
  obtain ⟨m, idx, htake, hm, hidx⟩ := takeLength_putVarint hn rest
  exact ⟨m, idx, readLength_some (by rw [hw, htake]), hm, hidx⟩

section File

variable {S : Snappy} {g : Globals} {skipMagic : Bool} {s t e rest : Bytes} {blockSize : Byte}

theorem maxCompressedLength_lt (h : blockSize.toNat ≤ snzMaxBlockSize) :
    snappyMaxCompressedLength (2 ^ blockSize.toNat) < 2 ^ 28 := by
  have hle : 2 ^ blockSize.toNat ≤ 2 ^ 27 := Nat.pow_le_pow_right (by decide) h
  exact (Nat.mod_le _ _).trans_lt (by omega)

theorem blocksBefore_iff (h : blockSize.toNat ≤ snzMaxBlockSize) :
    BlocksBefore S blockSize t rest ↔
      ∃ ws, Steps (snzPassOf S (snappyMaxCompressedLength (2 ^ blockSize.toNat))
        (2 ^ blockSize.toNat)) () t ws () rest := by
  simp only [steps_iff_records snzPassOf_again_iff, snzBlock_eq (maxCompressedLength_lt h),
    BlocksBefore]
  constructor
  · rintro ⟨b, us, hb, ht⟩
    exact ⟨_, b, us, hb, ht, rfl⟩
  · rintro ⟨_, b, us, hb, ht, -⟩
    exact ⟨b, us, hb, ht⟩

theorem succeeds_snzip_iff {fault : Bool} : (snzUnscript S g skipMagic fault s).Succeeds ↔
    ∃ blockSize t, takeSnzHeader g skipMagic s = some (blockSize, t) ∧
      blockSize.toNat ≤ snzMaxBlockSize ∧
      ∃ e rest, BlocksBefore S blockSize t (e ++ rest) ∧ VarintEnd e := by
  refine (succeeds_uncompress_iff (L := ⟨S, 0⟩) (f := .snzip) nofun g skipMagic s).trans ?_
  constructor
  · rintro ⟨blockSize, t, b, us, e, left, hs, hle, hb, rfl, he⟩
    rw [snzBlock_eq (maxCompressedLength_lt hle)] at hb
    exact ⟨blockSize, _, hs, hle, e, left, ⟨b, us, hb, rfl⟩, isLength_zero_iff.mp he⟩
  · rintro ⟨blockSize, t, hs, hle, e, left, ⟨b, us, hb, rfl⟩, he⟩
    rw [← snzBlock_eq (maxCompressedLength_lt hle)] at hb
    exact ⟨blockSize, _, b, us, e, left, hs, hle, hb, rfl, isLength_zero_iff.mpr he⟩

theorem refused_iff (B : Buffering) {i : InFile} (hi : i.Ok) :
    (∃ n, (Codec.run B (snzipUncompress S g skipMagic) i).status = some n ∧ n ≠ 0) ↔
      ¬ (snzUnscript S g skipMagic i.fault i.rest).Succeeds :=
  fails_run_iff (refines_snzipUncompress S g skipMagic) hi
    (verdict_uncompress (L := ⟨S, 0⟩) (f := .snzip) nofun g skipMagic i.fault i.rest) B

theorem UsesLength.lt {n : BitVec 64} {fault : Bool} (h : UsesLength S g skipMagic s e n)
    (hs : (snzUnscript S g skipMagic fault s).Succeeds) : n.toNat < 2 ^ 28 := by
  obtain ⟨blockSize, t, ws, rest, ht, hle, hst, he⟩ := h
  have hclen := maxCompressedLength_lt hle
  by_contra hge
  have hfinish := @snzPassOf_large S _ (2 ^ blockSize.toNat) _ _ he
    (lt_of_lt_of_le hclen (Nat.not_lt.mp hge)) rest
  rw [snzUnscript, ht] at hs
  simp only [if_neg (Nat.not_lt.mpr hle), snzBody, unroll_steps shrinks_snzPassOf hst,
    unroll_finish hfinish] at hs
  rw [Script.succeeds_after, Script.succeeds_after, Script.succeeds_mk] at hs
  simpa using hs.2.2

theorem BlocksBefore.usesLength (h : BlocksBefore S blockSize t (e ++ rest))
    (hs : takeSnzHeader g skipMagic s = some (blockSize, t))
    (hle : blockSize.toNat ≤ snzMaxBlockSize) (he : IsVarint e) :
    ∃ n, UsesLength S g skipMagic s e n ∧ IsLength e n := by
  obtain ⟨ws, hst⟩ := (blocksBefore_iff hle).mp h
  obtain ⟨n, hn, -⟩ := exists_isLength he
  exact ⟨n, ⟨blockSize, t, ws, rest, hs, hle, hst, hn⟩, hn⟩

theorem not_readsExactly_of_overlong (B : Buffering) {i : InFile} (hi : i.Ok)
    (h : OverlongAccepted S g skipMagic i.rest) : ¬ ReadsExactly S g skipMagic B i := by
  obtain ⟨blockSize, t, hs, hle, hend, e, rest, hblocks, he, h0, h16⟩ := h
  rintro (hrefused | hexact)
  · exact (refused_iff B hi).mp hrefused (succeeds_snzip_iff.mpr ⟨blockSize, t, hs, hle, hend⟩)
  · obtain ⟨n, huses, hn⟩ := hblocks.usesLength hs hle he
    have hfifth := hn.eq_value_iff.mp (hexact e n huses)
    omega

/-- **The lengths of a file are read as what they are, or the file is refused**, exactly unless it
is accepted with a fifth byte of which no bit is left. -/
theorem readsExactly_iff (B : Buffering) {i : InFile} (hi : i.Ok) :
    ReadsExactly S g skipMagic B i ∧ InvertsWriter ↔
      ¬ OverlongAccepted S g skipMagic i.rest := by
  constructor
  · exact fun h hover => not_readsExactly_of_overlong B hi hover h.1
  · intro hnot
    refine ⟨?_, invertsWriter⟩
    by_cases hs : (snzUnscript S g skipMagic i.fault i.rest).Succeeds
    · refine Or.inr fun e n huses => ?_
      have hlt := huses.lt hs
      obtain ⟨blockSize, t, ws, rest, ht, hle, hst, he⟩ := huses
      have h16 := he.lt_iff.mp hlt
      rw [he.eq_value_iff]
      have h0 : fifthByte e = 0 := by
        by_contra h0
        obtain ⟨b', t', ht', -, hend⟩ := succeeds_snzip_iff.mp hs
        cases ht.symm.trans ht'
        exact hnot ⟨blockSize, t, ht, hle, hend, e, rest, (blocksBefore_iff hle).mpr ⟨ws, hst⟩,
          he.isVarint, h0, h16⟩
      omega
    · exact Or.inl ((refused_iff B hi).mpr hs)

end File

/-- The five bytes of 2 ^ 32. -/
def varint32 : Bytes := [0x80#8, 0x80#8, 0x80#8, 0x80#8, 0x10#8]

/-- A block of three bytes, with its length in two. -/
def padded : Bytes := [0x83#8, 0x00#8] ++ literalSnappy.compress [0x61#8] ++ [0x00#8]

/-- The length is read as what it is, and the block is decoded. -/
theorem readsExactly_padded :
    let i := InFile.opened (snzHeader 16 ++ padded)
    Codec.run (.stdio 4096) (snzipUncompress literalSnappy .initial false) i =
        ⟨some 0, [0x61#8]⟩ ∧
      ReadsExactly literalSnappy .initial false (.stdio 4096) i ∧ InvertsWriter := by
  intro i
  refine ⟨by decide +kernel, (readsExactly_iff (.stdio 4096) (InFile.ok_opened _)).mpr ?_⟩
  rintro ⟨blockSize, t, ht, -, -, e, rest, ⟨b, us, -, hb⟩, he⟩
  -- four bytes of such a length have their high bit, and in this file only one has
  have hfour := he.four_high
  obtain rfl : padded = t := congrArg Prod.snd (Option.some.inj ht)
  have hone : padded.countP (128 ≤ ·.toNat) = 1 := by decide
  rw [hb, List.countP_append, List.countP_append] at hone
  omega

/-- **A length of 2 ^ 32 bytes** is taken for the end of the data. -/
theorem not_readsExactly :
    ¬ ReadsExactly literalSnappy .initial false (.stdio 4096)
      (.opened (snzHeader 16 ++ varint32)) := by
  refine not_readsExactly_of_overlong (.stdio 4096) (InFile.ok_opened _) ?_
  have hvarint : IsVarint varint32 :=
    ⟨by decide, [0x80#8, 0x80#8, 0x80#8, 0x80#8], 0x10#8, rfl, by decide, by decide⟩
  have hblocks : BlocksBefore literalSnappy 16#8 varint32 (varint32 ++ []) := ⟨[], [], .nil, rfl⟩
  exact ⟨16#8, varint32, rfl, by decide, ⟨varint32, [], hblocks, hvarint, by decide, by decide⟩,
    varint32, [], hblocks, hvarint, by decide, by decide⟩

end Snzip
