import Snzip.Format.Framing

set_option autoImplicit false

/-!
# The iwa format

`iwa-format.c`: chunks of compressed data without a stream header and without checksums.

* `iwaCompress`, **`refines_iwaCompress`**;
* `iwaUncompress`, **`refines_iwaUncompress`**.
-/

namespace Snzip

open CProg

variable (S : Snappy)

/-- `MAX_DATA_LEN` and `MAX_UNCOMPRESSED_DATA_LEN` of `iwa-format.c`. -/
def iwaMaxDataLen : ℕ := 16777215

/-- `MAX_UNCOMPRESSED_DATA_LEN`. -/
def iwaMaxUncompressedDataLen : ℕ := 65536

/-! ## Compression -/

/-- `iwa_compress`. -/
def iwaCompress (_blockSize : BitVec 64) : Io ℕ := do
  let maxLen := iwaMaxUncompressedDataLen
  if !(malloc maxLen && malloc (snappyMaxCompressedLength maxLen)) then return 1
  let body := fun data => do
    putcs (0x00#8 :: leBytes 3 (S.compress data).length)
    fwrite (S.compress data)
  whileFread maxLen body >>= afterChunks

/-- The writes for a block. -/
def iwaWrites (data : Bytes) : List Write :=
  [.putc (0x00#8 :: leBytes 3 (S.compress data).length), .fwriteOk (S.compress data)]

/-- What the compressor does with a file. -/
def iwaScript (fault : Bool) (s : Bytes) : Script :=
  (Script.mk [] (if fault then .status 1 else .checked 0)).after
    ((blocks iwaMaxUncompressedDataLen s).flatMap (iwaWrites S))

theorem refines_iwaCompress (blockSize : BitVec 64) :
    Refines (iwaCompress S blockSize) (iwaScript S) := by
  intro w hw
  have hm : (malloc iwaMaxUncompressedDataLen &&
      malloc (snappyMaxCompressedLength iwaMaxUncompressedDataLen)) = true := by decide
  have hloop := whileFread_bind (k := afterChunks)
    (g := fun fault => ⟨[], if fault then .status 1 else .checked 0⟩)
    (fun d => plays_putcs_fwrite (0x00#8 :: leBytes 3 (S.compress d).length) (S.compress d))
    (show 0 < iwaMaxUncompressedDataLen by decide) (fun w => rfl)
    (fun w fault h _ => afterChunks_refines h)
  unfold iwaCompress
  simp only [hm, Bool.not_true, Bool.false_eq_true, if_false]
  exact hloop w hw

/-! ## Decompression -/

/-- A chunk, after its length. -/
def iwaData (dataLen : BitVec 64) : Io (Unit ⊕ Bool) := do
  if dataLen = sizeOfInt (chrInt none) then return .inr false
  if dataLen.toNat < 4 then return .inr false
  match ← readData dataLen.toNat with
  | none => return .inr false
  | some data =>
    match S.uncompress data iwaMaxUncompressedDataLen with
    | none => return .inr false
    | some u => writeContent u

/-- The body of the loop, after the identifier of a chunk. -/
def iwaChunk (id : Byte) : Io (Unit ⊕ Bool) := do
  if id ≠ 0x00#8 then return .inr false
  let dataLen ← getLength 3
  iwaData S dataLen

/-- `iwa_uncompress`. -/
def iwaUncompress (_skipMagic : Bool) : Io ℕ := do
  if !(malloc iwaMaxDataLen && malloc iwaMaxUncompressedDataLen) then return 1
  chunkLoop (iwaChunk S)

/-- What the decoder makes of a chunk. -/
def iwaReading (id : Byte) (data : Bytes) : Reading :=
  if id ≠ 0x00#8 ∨ data.length < 4 then .bad
  else match S.uncompress data iwaMaxUncompressedDataLen with
    | none => .bad
    | some u => .content u

section Chunk

variable {S} {n : BitVec 64} {w : World}

theorem iwaData_short (h : w.inp.rest.length < n.toNat) :
    ∃ i, iwaData S n w = .ret (.inr false) { w with inp := i } := by
  unfold iwaData
  simp only [bind_apply, ite_prog, pure_apply, readData_short h, Outcome.bind_ret]
  split
  · exact ⟨_, rfl⟩
  split <;> exact ⟨_, rfl⟩

theorem iwaData_eq (hn : n.toNat < 2 ^ 24) (h : n.toNat ≤ w.inp.rest.length) :
    Acts w (w.inp.rest.drop n.toNat) (iwaData S n w)
      (iwaReading S 0x00#8 (w.inp.rest.take n.toNat)) := by
  have hlen : (w.inp.rest.take n.toNat).length = n.toNat := List.length_take_of_le h
  have heof : n ≠ sizeOfInt (chrInt none) := by
    rintro rfl
    exact absurd hn (by decide)
  unfold iwaData iwaReading
  simp only [heof, if_false, hlen, ne_eq, not_true_eq_false, false_or]
  refine .ite (fun _ => ⟨w.inp, rfl⟩) fun h4 => ?_
  rw [bind_apply, readData_eq (show n.toNat ≠ 0 by omega) h, Outcome.bind_ret]
  simp only
  cases S.uncompress (w.inp.rest.take n.toNat) iwaMaxUncompressedDataLen with
  | none => exact ⟨_, rfl⟩
  | some u => rfl

theorem readsChunks_iwaChunk : ReadsChunks 3 (iwaReading S) (iwaChunk S) := by
  refine ⟨fun id w h => ?_, fun id w data rest h => ?_⟩
  · by_cases hid : id = 0x00#8
    · simp only [iwaChunk, hid, ne_eq, not_true_eq_false, if_false]
      exact short_of_data (by decide) (fun _ _ => iwaData_short) h
    · exact ⟨w.inp, by simp only [iwaChunk, hid, ne_eq, not_false_eq_true, if_true]; rfl⟩
  · by_cases hid : id = 0x00#8
    · subst hid
      simp only [iwaChunk, ne_eq, not_true_eq_false, if_false]
      exact acts_of_data (by decide) (fun _ _ hn hle => iwaData_eq hn hle) h
    · have hbad : iwaReading S id data = .bad := if_pos (Or.inl hid)
      rw [hbad]
      exact ⟨w.inp, by simp only [iwaChunk, hid, ne_eq, not_false_eq_true, if_true]; rfl⟩

end Chunk

/-- What the decoder does with a stream. -/
def iwaUnscript (fault : Bool) (s : Bytes) : Script :=
  unroll (chunkPass 3 (iwaReading S) fault) () s

theorem iwaUncompress_eq (skipMagic : Bool) :
    iwaUncompress S skipMagic = chunkLoop (iwaChunk S) := by
  have hm : (malloc iwaMaxDataLen && malloc iwaMaxUncompressedDataLen) = true := by decide
  unfold iwaUncompress
  simp only [hm, Bool.not_true, Bool.false_eq_true, if_false]

theorem refines_iwaUncompress (skipMagic : Bool) :
    Refines (iwaUncompress S skipMagic) (iwaUnscript S) := by
  rw [iwaUncompress_eq]
  exact refines_chunkLoop readsChunks_iwaChunk

end Snzip
