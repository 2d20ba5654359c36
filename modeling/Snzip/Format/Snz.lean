import Snzip.Codec

set_option autoImplicit false

/-!
# The snzip format

`snzip-format.c`: a header with the block size as a power of two, blocks with their compressed
length in base 128, and a zero byte at the end.

* `snzBlockSize`: the check of the block size; `putVarint`, `readLength`: the length of a block;
* `snzipCompress`, **`refines_snzipCompress`**;
* `snzipUncompress`, **`refines_snzipUncompress`**.
-/

namespace Snzip

open CProg

variable (S : Snappy)

/-- `SNZ_MAGIC`. -/
def snzMagic : Bytes := [0x53#8, 0x4e#8, 0x5a#8]

/-- `SNZ_FILE_VERSION`. -/
def snzFileVersion : Byte := 1#8

/-- `SNZ_DEFAULT_BLOCK_SIZE`, as a shift. -/
def snzDefaultBlockSize : ℕ := 16

/-- `SNZ_MAX_BLOCK_SIZE`, as a shift. -/
def snzMaxBlockSize : ℕ := 27

/-- `VARINT_MAX`. -/
def varintMax : ℕ := 5

/-! ## Compression -/

/-- `for (; nshift <= SNZ_MAX_BLOCK_SIZE; nshift++)`, with `n` values of `nshift` to go. -/
def findShift (blockSize : BitVec 64) (nshift : ℕ) : ℕ → ℕ
  | 0 => nshift
  | n + 1 => if 1#64 <<< nshift = blockSize then nshift else findShift blockSize (nshift + 1) n

/-- The block size and its shift, or `none` if the block size is refused. -/
def snzBlockSize (blockSize : BitVec 64) : Option (BitVec 64 × ℕ) :=
  if blockSize = 0#64 then some (1#64 <<< snzDefaultBlockSize, snzDefaultBlockSize)
  else if blockSize > 1#64 <<< snzMaxBlockSize then none
  else
    let nshift := findShift blockSize 1 snzMaxBlockSize
    if nshift = snzMaxBlockSize then none else some (blockSize, nshift)

/-- The header of a file. -/
def snzHeader (nshift : ℕ) : Bytes := snzMagic ++ [snzFileVersion, byteOf nshift]

/-- The compressed length, in one to five bytes. -/
def putVarint (n : ℕ) : Bytes :=
  if n < 2 ^ 7 then [byteOf n]
  else if n < 2 ^ 14 then [byteOf (n ||| 0x80), byteOf (n >>> 7)]
  else if n < 2 ^ 21 then [byteOf (n ||| 0x80), byteOf (n >>> 7 ||| 0x80), byteOf (n >>> 14)]
  else if n < 2 ^ 28 then
    [byteOf (n ||| 0x80), byteOf (n >>> 7 ||| 0x80), byteOf (n >>> 14 ||| 0x80), byteOf (n >>> 21)]
  else
    [byteOf (n ||| 0x80), byteOf (n >>> 7 ||| 0x80), byteOf (n >>> 14 ||| 0x80),
      byteOf (n >>> 21 ||| 0x80), byteOf (n >>> 28)]

/-- The end of `snzip_compress`, after the loop. -/
def snzFinish (ok : Bool) : Io ℕ := do
  if !ok then return 1
  if !(← feofIn) then return 1
  putcs [0x00#8]
  return 0

/-- `snzip_compress`. -/
def snzipCompress (blockSize : BitVec 64) : Io ℕ := do
  match snzBlockSize blockSize with
  | none => return 1
  | some (blockSize, nshift) =>
    if !(← fwrite (snzHeader nshift)) then return 1
    let wb ← workBufferInit blockSize
    let body := fun data => do
      putcs (putVarint (S.compress data).length)
      fwrite (S.compress data)
    whileFread wb.uclen body >>= snzFinish

/-- The writes for a block. -/
def snzWrites (data : Bytes) : List Write :=
  [.putc (putVarint (S.compress data).length), .fwriteOk (S.compress data)]

/-- What the compressor writes at the end of its input. -/
def snzTail (fault : Bool) : Script :=
  if fault then ⟨[], .status 1⟩ else ⟨[.putc [0x00#8]], .status 0⟩

/-- What the compressor does with a file. -/
def snzScript (blockSize : BitVec 64) (fault : Bool) (s : Bytes) : Script :=
  match snzBlockSize blockSize with
  | none => ⟨[], .status 1⟩
  | some (blockSize, nshift) =>
    ((snzTail fault).after ((blocks blockSize.toNat s).flatMap (snzWrites S))).after
      [.fwriteOk (snzHeader nshift)]

/-- A block size that is accepted is positive, and a buffer of that size can be had. -/
theorem snzBlockSize_bounds {b b' : BitVec 64} {n : ℕ} (h : snzBlockSize b = some (b', n)) :
    0 < b'.toNat ∧ b'.toNat ≤ 2 ^ 27 := by
  unfold snzBlockSize at h
  split at h
  · cases h
    decide
  next h0 =>
  split at h
  · cases h
  next hle =>
  simp only at h
  split at h
  · cases h
  · cases h
    refine ⟨Nat.pos_of_ne_zero fun hz => h0 (BitVec.eq_of_toNat_eq hz), ?_⟩
    have := BitVec.not_lt.mp hle
    exact this

theorem snzFinish_refines {w : World} {fault : Bool} (h : w.inp.eof = !fault) :
    (snzFinish true w).view World.out = (snzTail fault).playback w.out := by
  cases fault <;>
    simp_all [snzFinish, snzTail, Script.playback, playAll, Write.play, Verdict.close]

theorem refines_snzipCompress (blockSize : BitVec 64) :
    Refines (snzipCompress S blockSize) (snzScript S blockSize) := by
  unfold snzipCompress snzScript
  cases hb : snzBlockSize blockSize with
  | none =>
    intro w _
    simp [Script.playback, playAll, Verdict.close]
  | some p =>
    obtain ⟨b, nshift⟩ := p
    obtain ⟨hpos, hle⟩ := snzBlockSize_bounds hb
    have hloop := whileFread_bind (k := snzFinish) (g := snzTail)
      (fun d => plays_putcs_fwrite (putVarint (S.compress d).length) (S.compress d)) hpos
      (fun w => rfl) (fun w fault _ h => snzFinish_refines h)
    refine refines_fwriteOk (fun w hw => ?_)
    rw [bind_apply, workBufferInit_eq (by omega), Outcome.bind_ret]
    exact hloop w hw

/-! ## Decompression -/

/-- The compressed length of a block, and the index of the byte that ended it. -/
def readLength (n : BitVec 64) (idx : ℕ) : ℕ → Io (Option (BitVec 64 × ℕ))
  | 0 => return some (n, idx)
  | m + 1 => do
    match ← getc with
    | none => return none
    | some chr =>
      let n := orChr n (some (chr &&& 127#8)) (idx * 7)
      if chr &&& 128#8 = 0#8 then return some (n, idx)
      readLength n (idx + 1) m

/-- A pass of the loop of the decoder. -/
def snzPass (wb : WorkBuffer) (_ : Unit) : Io (Unit ⊕ ℕ) := do
  match ← readLength 0#64 0 varintMax with
  | none => return .inr 1
  | some (compressedLength, idx) =>
    if idx = varintMax then return .inr 1
    if compressedLength = 0#64 then return .inr 0
    if compressedLength.toNat > wb.clen then return .inr 1
    match ← fread compressedLength.toNat with
    | none => return .inr 1
    | some c =>
      match S.uncompressWithin c wb.uclen with
      | none => return .inr 1
      | some u => writeBlock () u

/-- The checks of the magic and of the version: the block size, or `none`. -/
def checkSnzHeader (header : Bytes) : Option Byte :=
  if header.take 3 ≠ snzMagic then none
  else if header.getD 3 0#8 ≠ snzFileVersion then none
  else some (header.getD 4 0#8)

/-- The header, or the block size that was found with the magic. -/
def readSnzHeader (g : Globals) (skipMagic : Bool) : Io (Option Byte) :=
  if skipMagic then pure (some (g.snzipFormatBlockSize.setWidth 8)) else readHeader 5 checkSnzHeader

/-- `snzip_uncompress`. -/
def snzipUncompress (g : Globals) (skipMagic : Bool) : Io ℕ := do
  match ← readSnzHeader g skipMagic with
  | none => return 1
  | some blockSize =>
    if blockSize.toNat > snzMaxBlockSize then return 1
    fflush
    let wb ← workBufferInit (sizeOfInt (1#32 <<< blockSize.toNat))
    loop (fun _ w => w.inp.rest.length) (snzPass S wb) ()

/-- What `readLength` reads, and the bytes after it. -/
def takeLength (n : BitVec 64) (idx : ℕ) : ℕ → Bytes → Option (BitVec 64 × ℕ × Bytes)
  | 0, s => some (n, idx, s)
  | _ + 1, [] => none
  | m + 1, chr :: s =>
    let n := orChr n (some (chr &&& 127#8)) (idx * 7)
    if chr &&& 128#8 = 0#8 then some (n, idx, s) else takeLength n (idx + 1) m s

/-- A pass of the loop as a function of the bytes. -/
def snzPassOf (clen uclen : ℕ) (_ : Unit) (s : Bytes) : Pass Unit :=
  match takeLength 0#64 0 varintMax s with
  | none => .finish ⟨[], .status 1⟩
  | some (n, idx, rest) =>
    if idx = varintMax then .finish ⟨[], .status 1⟩
    else if n = 0#64 then .finish ⟨[], .status 0⟩
    else if n.toNat > clen ∨ rest.length < n.toNat then .finish ⟨[], .status 1⟩
    else match S.uncompressWithin (rest.take n.toNat) uclen with
      | none => .finish ⟨[], .status 1⟩
      | some u => .again [.writeFull u] () (rest.drop n.toNat)

section Loop

variable {S} {w : World}

theorem readLength_none {n : BitVec 64} {idx m : ℕ} (h : takeLength n idx m w.inp.rest = none) :
    ∃ i, readLength n idx m w = .ret none { w with inp := i } := by
  induction m generalizing n idx w with
  | zero => cases h
  | succ m ih =>
    rw [readLength, bind_apply]
    cases hr : w.inp.rest with
    | nil =>
      rw [getc_nil hr]
      exact ⟨_, rfl⟩
    | cons b s =>
      rw [getc_cons hr, Outcome.bind_ret]
      rw [hr, takeLength] at h
      simp only at h ⊢
      split at h
      · cases h
      · next hb =>
        rw [if_neg hb]
        exact ih (w := { w with inp := { w.inp with rest := s } }) h

theorem readLength_some {n n' : BitVec 64} {idx idx' m : ℕ} {rest : Bytes}
    (h : takeLength n idx m w.inp.rest = some (n', idx', rest)) :
    readLength n idx m w =
      .ret (some (n', idx')) { w with inp := { w.inp with rest := rest } } := by
  induction m generalizing n idx w with
  | zero =>
    cases h
    rfl
  | succ m ih =>
    rw [readLength, bind_apply]
    cases hr : w.inp.rest with
    | nil =>
      rw [hr] at h
      cases h
    | cons b s =>
      rw [getc_cons hr, Outcome.bind_ret]
      rw [hr, takeLength] at h
      simp only at h ⊢
      split at h
      · next hb =>
        cases h
        rw [if_pos hb]
        rfl
      · next hb =>
        rw [if_neg hb]
        exact ih (w := { w with inp := { w.inp with rest := s } }) h

theorem length_takeLength {n n' : BitVec 64} {idx idx' m : ℕ} {s rest : Bytes} (hm : 0 < m)
    (h : takeLength n idx m s = some (n', idx', rest)) : rest.length < s.length := by
  induction m generalizing n idx s with
  | zero => omega
  | succ m ih =>
    cases s with
    | nil => cases h
    | cons b s =>
      rw [takeLength] at h
      split at h
      · cases h
        exact Nat.lt_succ_self _
      · cases m with
        | zero =>
          cases h
          exact Nat.lt_succ_self _
        | succ m => exact Nat.lt_succ_of_lt (ih (Nat.succ_pos _) h)

theorem follows_snzPass (hw : w.inp.Ok) (wb : WorkBuffer) :
    Follows (fun _ _ => True) (fun n => pure n) w (snzPassOf S wb.clen wb.uclen () w.inp.rest)
      (snzPass S wb () w) := by
  unfold snzPassOf snzPass
  rw [bind_apply]
  cases ht : takeLength 0#64 0 varintMax w.inp.rest with
  | none =>
    obtain ⟨i, hi⟩ := readLength_none ht
    rw [hi]
    exact follows_status rfl
  | some p =>
    obtain ⟨n, idx, rest⟩ := p
    have hlt := length_takeLength (by decide) ht
    have hne : w.inp.rest ≠ [] := fun h0 => by
      rw [h0, List.length_nil] at hlt
      omega
    rw [readLength_some ht, Outcome.bind_ret]
    simp only
    by_cases hidx : idx = varintMax
    · rw [if_pos hidx, if_pos hidx]
      exact follows_status rfl
    by_cases hn : n = 0#64
    · rw [if_neg hidx, if_neg hidx, if_pos hn, if_pos hn]
      exact follows_status rfl
    have hn0 : n.toNat ≠ 0 := fun h0 => hn (BitVec.eq_of_toNat_eq h0)
    rw [if_neg hidx, if_neg hidx, if_neg hn, if_neg hn]
    by_cases hcl : n.toNat > wb.clen
    · rw [if_pos (Or.inl hcl), if_pos hcl]
      exact follows_status rfl
    rw [if_neg hcl, bind_apply]
    by_cases hlen : n.toNat ≤ rest.length
    · rw [if_neg (by omega), fread_eq hn0 hlen, Outcome.bind_ret]
      simp only
      cases hu : S.uncompressWithin (rest.take n.toNat) wb.uclen with
      | none => exact follows_status rfl
      | some u =>
        have hdrop : (rest.drop n.toNat).length < w.inp.rest.length := by
          rw [List.length_drop]
          omega
        exact follows_writeBlock (R := fun _ _ => True) hw hne hdrop trivial
          (S.uncompressWithin_lt hu)
    · rw [if_pos (Or.inr (by omega)), fread_short (by simpa using hlen)]
      exact follows_status rfl

end Loop

/-- The block size in a header, and the bytes after it. -/
def takeSnzHeader (g : Globals) (skipMagic : Bool) (s : Bytes) : Option (Byte × Bytes) :=
  if skipMagic then some (g.snzipFormatBlockSize.setWidth 8, s) else takeHeader 5 checkSnzHeader s

/-- The script of `snzip_uncompress` after a header with this block size. -/
def snzBody (blockSize : Byte) (s : Bytes) : Script :=
  let uclen := 2 ^ blockSize.toNat
  (unroll (snzPassOf S (snappyMaxCompressedLength uclen) uclen) () s).after [.fflush]

/-- What the decoder does with a stream. -/
def snzUnscript (g : Globals) (skipMagic _fault : Bool) (s : Bytes) : Script :=
  match takeSnzHeader g skipMagic s with
  | none => ⟨[], .status 1⟩
  | some (blockSize, rest) =>
    if blockSize.toNat > snzMaxBlockSize then ⟨[], .status 1⟩ else snzBody S blockSize rest

section Header

variable {S} {g : Globals} {skipMagic : Bool} {w : World}

theorem readSnzHeader_none (h : takeSnzHeader g skipMagic w.inp.rest = none) :
    ∃ i, readSnzHeader g skipMagic w = .ret none { w with inp := i } := by
  cases skipMagic with
  | true => cases h
  | false => exact readHeader_none (by decide) h

theorem readSnzHeader_some (hw : w.inp.Ok) {b : Byte} {rest : Bytes}
    (h : takeSnzHeader g skipMagic w.inp.rest = some (b, rest)) :
    ({ w.inp with rest := rest } : InFile).Ok ∧ readSnzHeader g skipMagic w =
      .ret (some b) { w with inp := { w.inp with rest := rest } } := by
  cases skipMagic with
  | true =>
    cases h
    exact ⟨hw, rfl⟩
  | false => exact readHeader_some (by decide) hw h

theorem snzBlock_pow {b : Byte} (h : b.toNat ≤ 27) :
    (sizeOfInt (1#32 <<< b.toNat)).toNat = 2 ^ b.toNat := by
  have hlt : 2 ^ b.toNat ≤ 2 ^ 27 := Nat.pow_le_pow_right (by decide) h
  have hto : (1#32 <<< b.toNat).toNat = 2 ^ b.toNat := by
    rw [BitVec.toNat_shiftLeft, Nat.shiftLeft_eq, BitVec.toNat_ofNat]
    omega
  rw [toNat_sizeOfInt (by omega), hto]

end Header

theorem refines_snzipUncompress (g : Globals) (skipMagic : Bool) :
    Refines (snzipUncompress S g skipMagic) (snzUnscript S g skipMagic) := by
  intro w hw
  unfold snzipUncompress snzUnscript
  rw [bind_apply]
  cases h : takeSnzHeader g skipMagic w.inp.rest with
  | none =>
    obtain ⟨i, hi⟩ := readSnzHeader_none h
    rw [hi]
    simp [Script.playback, playAll, Verdict.close]
  | some p =>
    obtain ⟨b, rest⟩ := p
    obtain ⟨hok, hread⟩ := readSnzHeader_some hw h
    rw [hread, Outcome.bind_ret]
    simp only
    by_cases hb : b.toNat > snzMaxBlockSize
    · rw [if_pos hb, if_pos hb]
      rfl
    · have hle : b.toNat ≤ 27 := Nat.le_of_not_lt hb
      have hpow := snzBlock_pow hle
      have hmax : 2 ^ b.toNat ≤ 2 ^ 27 := Nat.pow_le_pow_right (by decide) hle
      rw [if_neg hb, if_neg hb, bind_apply, fflush_apply, Outcome.bind_ret, bind_apply,
        workBufferInit_eq (by omega), Outcome.bind_ret, hpow, snzBody, Script.playback_after]
      exact loop_follows_pure (R := fun (_ _ : Unit) => True) (r := ())
        (p := fun _ => snzPassOf S (snappyMaxCompressedLength (2 ^ b.toNat)) (2 ^ b.toNat))
        (fun _ _ w _ hw => follows_snzPass hw ⟨_, _, _, _⟩) trivial
        (w := ⟨{ w.inp with rest := rest }, w.out.fflush.2⟩) hok

end Snzip
