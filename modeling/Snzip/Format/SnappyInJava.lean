import Snzip.Codec
import Snzip.Crc32.Checksum

set_option autoImplicit false

/-!
# The snappy-in-java format

`snappy-in-java-format.c`: a header that is only a magic, and blocks with a flag, a length of 16
bits and a checksum, most significant byte first.

* `snappyInJavaCompress`, **`refines_snappyInJavaCompress`**;
* `snappyInJavaUncompress`, **`refines_snappyInJavaUncompress`**.
-/

namespace Snzip

open CProg

variable (S : Snappy)

/-- `SNAPPY_IN_JAVA_MAGIC`, the whole header of a file. -/
def snappyInJavaMagic : Bytes := [0x73#8, 0x6e#8, 0x61#8, 0x70#8, 0x70#8, 0x79#8, 0x00#8]

/-- `DEFAULT_BLOCK_SIZE`. -/
def snappyInJavaDefaultBlockSize : BitVec 64 := 32768#64

/-- `MAX_BLOCK_SIZE`. -/
def snappyInJavaMaxBlockSize : BitVec 64 := 0xffff#64

/-- `COMPRESSED_FLAG`. -/
def compressedFlag : Byte := 0x01#8

/-- `UNCOMPRESSED_FLAG`. -/
def uncompressedFlag : Byte := 0x00#8

/-! ## Compression -/

/-- `write_block`: `false` for a failed `fwrite`. -/
def writeFlagged (buffer : Bytes) (compressed : Bool) (crc32c : BitVec 32) : Io Bool := do
  putcs ((if compressed then compressedFlag else uncompressedFlag) ::
    (beBytes 2 buffer.length ++ beBytes 4 crc32c.toNat))
  fwrite buffer

/-- The body of the loop of the compressor. -/
def snappyInJavaBlock (data : Bytes) : Io Bool :=
  let crc32c := maskedCrc32c data
  if S.storesRaw data then writeFlagged data false crc32c
  else writeFlagged (S.compress data) true crc32c

/-- `snappy_in_java_compress`. -/
def snappyInJavaCompress (blockSize : BitVec 64) : Io ℕ := do
  let blockSize := if blockSize = 0#64 then snappyInJavaDefaultBlockSize else blockSize
  if blockSize > snappyInJavaMaxBlockSize then return 1
  if !(← fwrite snappyInJavaMagic) then return 1
  let wb ← workBufferInit blockSize
  whileFread wb.uclen (snappyInJavaBlock S) >>= finishAtEof

/-- The writes of `write_block`. -/
def flaggedWrites (buffer : Bytes) (compressed : Bool) (crc32c : BitVec 32) : List Write :=
  [.putc ((if compressed then compressedFlag else uncompressedFlag) ::
    (beBytes 2 buffer.length ++ beBytes 4 crc32c.toNat)), .fwriteOk buffer]

/-- The writes for a block. -/
def snappyInJavaWrites (data : Bytes) : List Write :=
  if S.storesRaw data then flaggedWrites data false (maskedCrc32c data)
  else flaggedWrites (S.compress data) true (maskedCrc32c data)

/-- What the compressor does with a file. -/
def snappyInJavaScript (blockSize : BitVec 64) (fault : Bool) (s : Bytes) : Script :=
  let blockSize := if blockSize = 0#64 then snappyInJavaDefaultBlockSize else blockSize
  if blockSize > snappyInJavaMaxBlockSize then ⟨[], .status 1⟩
  else (blockScript (snappyInJavaWrites S) blockSize.toNat fault s).after
    [.fwriteOk snappyInJavaMagic]

theorem plays_snappyInJavaBlock (data : Bytes) :
    Plays (snappyInJavaBlock S data) (snappyInJavaWrites S data) := by
  unfold snappyInJavaBlock snappyInJavaWrites
  cases S.storesRaw data with
  | true => exact plays_putcs_fwrite _ _
  | false => exact plays_putcs_fwrite _ _

theorem refines_snappyInJavaCompress (blockSize : BitVec 64) :
    Refines (snappyInJavaCompress S blockSize) (snappyInJavaScript S blockSize) := by
  unfold snappyInJavaCompress snappyInJavaScript
  have h0 : (if blockSize = 0#64 then snappyInJavaDefaultBlockSize else blockSize) ≠ 0#64 := by
    split
    · decide
    · assumption
  generalize (if blockSize = 0#64 then snappyInJavaDefaultBlockSize else blockSize) = b at h0 ⊢
  by_cases hb : b > snappyInJavaMaxBlockSize
  · simp only [hb, if_true]
    intro w _
    simp [Script.playback, playAll, Verdict.close]
  · simp only [hb, if_false]
    exact refines_fwriteOk (refines_blockScript (fun _ => plays_snappyInJavaBlock S) h0)

/-! ## Decompression -/

/-- The comparison of the header with the magic. -/
def checkSnappyInJavaHeader (header : Bytes) : Option Unit :=
  if header ≠ snappyInJavaMagic then none else some ()

/-- The header, if it is not the magic that has been read already. -/
def readSnappyInJavaHeader (skipMagic : Bool) : Io (Option Unit) :=
  if skipMagic then pure (some ()) else readHeader 7 checkSnappyInJavaHeader

/-- The length and the checksum of a block; the characters may be `EOF`. -/
def readLengthAndCrc : Io (BitVec 64 × BitVec 32) := do
  let c₁ ← getc
  let c₀ ← getc
  let d₃ ← getc
  let d₂ ← getc
  let d₁ ← getc
  let d₀ ← getc
  return (orChr (orChr 0#64 c₁ 8) c₀ 0,
    orChr32 (orChr32 (orChr32 (orChr32 0#32 d₃ 24) d₂ 16) d₁ 8) d₀ 0)

/-- `check_and_write_block`, and the end of a pass. -/
def checkAndWriteBlock (buffer : Bytes) (crc32c : BitVec 32) : Io (Unit ⊕ ℕ) :=
  if maskedCrc32c buffer ≠ crc32c then pure (.inr 1) else writeBlock () buffer

/-- A block, after its flag, its length and its checksum. -/
def snappyInJavaData (wb : WorkBuffer) (flag : Byte) (length : BitVec 64) (crc32c : BitVec 32) :
    Io (Unit ⊕ ℕ) := do
  match ← fread length.toNat with
  | none => return .inr 1
  | some data =>
    if flag = compressedFlag then
      match S.uncompressWithin data wb.uclen with
      | none => return .inr 1
      | some u => checkAndWriteBlock u crc32c
    else checkAndWriteBlock data crc32c

/-- A block, after its flag. -/
def snappyInJavaFlagged (wb : WorkBuffer) (flag : Byte) : Io (Unit ⊕ ℕ) := do
  let r ← readLengthAndCrc
  if ← feofIn then return .inr 1
  if ← ferrorIn then return .inr 1
  snappyInJavaData S wb flag r.1 r.2

/-- A pass of the loop of the decoder. -/
def snappyInJavaPass (wb : WorkBuffer) (_ : Unit) : Io (Unit ⊕ ℕ) := do
  match ← getc with
  | none => return .inr 0
  | some flag =>
    if flag = compressedFlag ∨ flag = uncompressedFlag then snappyInJavaFlagged S wb flag
    else return .inr 1

/-- `snappy_in_java_uncompress`. -/
def snappyInJavaUncompress (skipMagic : Bool) : Io ℕ := do
  match ← readSnappyInJavaHeader skipMagic with
  | none => return 1
  | some () =>
    fflush
    let wb ← workBufferInit snappyInJavaMaxBlockSize
    loop (fun _ w => w.inp.rest.length) (snappyInJavaPass S wb) ()

/-- The check of a content and its write, as a pass over a stream. -/
def checkAndWriteOf (buffer : Bytes) (crc32c : BitVec 32) (rest : Bytes) : Pass Unit :=
  if maskedCrc32c buffer ≠ crc32c then .finish ⟨[], .status 1⟩
  else .again [.writeFull buffer] () rest

/-- A block, after its flag, as a function of the bytes. -/
def snappyInJavaFlaggedOf (uclen : ℕ) (flag : Byte) (s : Bytes) : Pass Unit :=
  let length := beVal (s.take 2)
  let crc32c := BitVec.ofNat 32 (beVal ((s.drop 2).take 4))
  if s.length < 6 ∨ length = 0 ∨ (s.drop 6).length < length then .finish ⟨[], .status 1⟩
  else if flag = compressedFlag then
    match S.uncompressWithin ((s.drop 6).take length) uclen with
    | none => .finish ⟨[], .status 1⟩
    | some u => checkAndWriteOf u crc32c ((s.drop 6).drop length)
  else checkAndWriteOf ((s.drop 6).take length) crc32c ((s.drop 6).drop length)

/-- A pass over a stream. -/
def snappyInJavaPassOf (uclen : ℕ) (_ : Unit) : Bytes → Pass Unit
  | [] => .finish ⟨[], .status 0⟩
  | flag :: s =>
    if flag = compressedFlag ∨ flag = uncompressedFlag then snappyInJavaFlaggedOf S uclen flag s
    else .finish ⟨[], .status 1⟩

section Loop

variable {S} {w : World}

theorem readLengthAndCrc_state (w : World) :
    ∃ r, readLengthAndCrc w = .ret r { w with inp := InFile.next^[6] w.inp } := ⟨_, rfl⟩

theorem toNat_orChr_short (c₁ c₀ : Byte) :
    (orChr (orChr 0#64 (some c₁) 8) (some c₀) 0).toNat = beVal [c₁, c₀] := by
  have h₁ : c₁.toNat < 256 := c₁.isLt
  have h₀ : c₀.toNat < 256 := c₀.isLt
  have e₁ : (orChr 0#64 (some c₁) 8).toNat = 2 ^ (0 + 8) * c₁.toNat := by
    rw [toNat_orChr_lt (by decide) (by omega), BitVec.toNat_ofNat]
    omega
  rw [toNat_orChr_mul (b := c₀) e₁ (by omega), e₁]
  simp only [beVal, List.reverse_cons, List.reverse_nil, List.nil_append, List.cons_append, leVal]
  omega

theorem readLengthAndCrc_eq {c₁ c₀ d₃ d₂ d₁ d₀ : Byte} {s : Bytes}
    (h : w.inp.rest = c₁ :: c₀ :: d₃ :: d₂ :: d₁ :: d₀ :: s) :
    ∃ n : BitVec 64, n.toNat = beVal [c₁, c₀] ∧
      readLengthAndCrc w = .ret (n, BitVec.ofNat 32 (beVal [d₃, d₂, d₁, d₀]))
        { w with inp := { w.inp with rest := s } } := by
  refine ⟨orChr (orChr 0#64 (some c₁) 8) (some c₀) 0, toNat_orChr_short c₁ c₀, ?_⟩
  rw [← orChr32_be]
  simp [readLengthAndCrc, InFile.getc, h]

theorem follows_checkAndWrite (hw : w.inp.Ok) (hne : w.inp.rest ≠ []) {rest : Bytes}
    (hlt : rest.length < w.inp.rest.length) {u : Bytes} (hu : u.length < 2 ^ 32)
    (crc32c : BitVec 32) :
    Follows (fun _ _ => True) (fun n => pure n) w (checkAndWriteOf u crc32c rest)
      (checkAndWriteBlock u crc32c { w with inp := { w.inp with rest := rest } }) := by
  unfold checkAndWriteOf checkAndWriteBlock
  by_cases h : maskedCrc32c u ≠ crc32c
  · rw [if_pos h, if_pos h]
    exact follows_status rfl
  · rw [if_neg h, if_neg h]
    exact follows_writeBlock (R := fun _ _ => True) hw hne hlt trivial hu

theorem six_of_length {s : Bytes} (h : 6 ≤ s.length) :
    ∃ c₁ c₀ d₃ d₂ d₁ d₀ t, s = c₁ :: c₀ :: d₃ :: d₂ :: d₁ :: d₀ :: t := by
  match s, h with
  | c₁ :: c₀ :: d₃ :: d₂ :: d₁ :: d₀ :: t, _ => exact ⟨c₁, c₀, d₃, d₂, d₁, d₀, t, rfl⟩

theorem follows_snappyInJavaFlagged (hw : w.inp.Ok) {s : Bytes}
    (hs : s.length < w.inp.rest.length) (wb : WorkBuffer) (flag : Byte) :
    Follows (fun _ _ => True) (fun n => pure n) w (snappyInJavaFlaggedOf S wb.uclen flag s)
      (snappyInJavaFlagged S wb flag { w with inp := { w.inp with rest := s } }) := by
  have hne : w.inp.rest ≠ [] := fun h0 => by
    rw [h0, List.length_nil] at hs
    omega
  have hok := hw.drop hne s
  have hflags : ¬ w.inp.eof = true ∧ ¬ w.inp.err = true := by simpa using hw.flags hne
  unfold snappyInJavaFlaggedOf snappyInJavaFlagged
  rw [bind_apply]
  by_cases h6 : s.length < 6
  · obtain ⟨r, hr⟩ := readLengthAndCrc_state { w with inp := { w.inp with rest := s } }
    rw [InFile.iterate_next_short 6 h6] at hr
    rw [if_pos (Or.inl h6), hr, Outcome.bind_ret]
    simp only [bind_apply, feofIn_apply, ferrorIn_apply, Outcome.bind_ret, ite_prog, pure_apply,
      hok.eof_hitEnd, hok.err_hitEnd]
    cases w.inp.fault with
    | false => exact follows_status rfl
    | true => exact follows_status rfl
  obtain ⟨c₁, c₀, d₃, d₂, d₁, d₀, t, rfl⟩ := six_of_length (Nat.le_of_not_lt h6)
  obtain ⟨n, hn, hread⟩ := readLengthAndCrc_eq (w := { w with inp := { w.inp with
    rest := c₁ :: c₀ :: d₃ :: d₂ :: d₁ :: d₀ :: t } }) rfl
  rw [hread, Outcome.bind_ret, bind_apply, feofIn_apply, Outcome.bind_ret, if_neg hflags.1,
    bind_apply, ferrorIn_apply, Outcome.bind_ret, if_neg hflags.2]
  simp only [List.take_succ_cons, List.take_zero, List.drop_succ_cons, List.drop_zero, ← hn]
  unfold snappyInJavaData
  rw [bind_apply]
  by_cases hlen : n.toNat = 0 ∨ t.length < n.toNat
  · rw [if_pos (Or.inr hlen)]
    rcases hlen with h0 | hlt
    · rw [h0, fread_zero]
      exact follows_status rfl
    · rw [fread_short (by simpa using hlt)]
      exact follows_status rfl
  have hn0 : n.toNat ≠ 0 := fun h0 => hlen (Or.inl h0)
  have hle : n.toNat ≤ t.length := Nat.le_of_not_lt fun h => hlen (Or.inr h)
  have hlt : (t.drop n.toNat).length < w.inp.rest.length := by
    simp only [List.length_cons] at hs
    rw [List.length_drop]
    omega
  rw [if_neg (by rintro (h | h); exacts [h6 h, hlen h]), fread_eq hn0 (by simpa using hle),
    Outcome.bind_ret]
  simp only
  by_cases hf : flag = compressedFlag
  · rw [if_pos hf, if_pos hf]
    cases hu : S.uncompressWithin (t.take n.toNat) wb.uclen with
    | none => exact follows_status rfl
    | some u => exact follows_checkAndWrite hw hne hlt (S.uncompressWithin_lt hu) _
  · rw [if_neg hf, if_neg hf]
    refine follows_checkAndWrite hw hne hlt ?_ _
    have h2 := beVal_lt [c₁, c₀]
    rw [← hn] at h2
    rw [List.length_take]
    simp only [List.length_cons, List.length_nil] at h2
    omega

theorem follows_snappyInJavaPass (hw : w.inp.Ok) (wb : WorkBuffer) :
    Follows (fun _ _ => True) (fun n => pure n) w (snappyInJavaPassOf S wb.uclen () w.inp.rest)
      (snappyInJavaPass S wb () w) := by
  unfold snappyInJavaPass
  rw [bind_apply]
  cases hr : w.inp.rest with
  | nil =>
    rw [getc_nil hr]
    exact follows_status rfl
  | cons flag s =>
    rw [getc_cons hr, Outcome.bind_ret]
    simp only [snappyInJavaPassOf]
    by_cases hf : flag = compressedFlag ∨ flag = uncompressedFlag
    · rw [if_pos hf, if_pos hf]
      exact follows_snappyInJavaFlagged hw (by rw [hr]; exact Nat.lt_succ_self _) wb flag
    · rw [if_neg hf, if_neg hf]
      exact follows_status rfl

end Loop

/-- The header of a stream, and what is behind it. -/
def takeSnappyInJavaHeader (skipMagic : Bool) (s : Bytes) : Option (Unit × Bytes) :=
  if skipMagic then some ((), s) else takeHeader 7 checkSnappyInJavaHeader s

/-- What the decoder does with a stream. -/
def snappyInJavaUnscript (skipMagic _fault : Bool) (s : Bytes) : Script :=
  match takeSnappyInJavaHeader skipMagic s with
  | none => ⟨[], .status 1⟩
  | some ((), rest) =>
    (unroll (snappyInJavaPassOf S snappyInJavaMaxBlockSize.toNat) () rest).after [.fflush]

theorem refines_snappyInJavaUncompress (skipMagic : Bool) :
    Refines (snappyInJavaUncompress S skipMagic) (snappyInJavaUnscript S skipMagic) := by
  intro w hw
  unfold snappyInJavaUncompress snappyInJavaUnscript
  rw [bind_apply]
  cases h : takeSnappyInJavaHeader skipMagic w.inp.rest with
  | none =>
    have hread : ∃ i, readSnappyInJavaHeader skipMagic w = .ret none { w with inp := i } := by
      cases skipMagic with
      | true => cases h
      | false => exact readHeader_none (by decide) h
    obtain ⟨i, hi⟩ := hread
    rw [hi]
    simp [Script.playback, playAll, Verdict.close]
  | some p =>
    obtain ⟨⟨⟩, rest⟩ := p
    have hread : ({ w.inp with rest := rest } : InFile).Ok ∧ readSnappyInJavaHeader skipMagic w =
        .ret (some ()) { w with inp := { w.inp with rest := rest } } := by
      cases skipMagic with
      | true =>
        cases h
        exact ⟨hw, rfl⟩
      | false => exact readHeader_some (by decide) hw h
    obtain ⟨hok, hread⟩ := hread
    rw [hread, Outcome.bind_ret]
    simp only
    rw [bind_apply, fflush_apply, Outcome.bind_ret, bind_apply, workBufferInit_eq (by decide),
      Outcome.bind_ret, Script.playback_after]
    exact loop_follows_pure (R := fun (_ _ : Unit) => True) (r := ())
      (p := fun _ => snappyInJavaPassOf S snappyInJavaMaxBlockSize.toNat)
      (fun _ _ w _ hw => follows_snappyInJavaPass hw ⟨_, _, _, _⟩) trivial
      (w := ⟨{ w.inp with rest := rest }, w.out.fflush.2⟩) hok

end Snzip
