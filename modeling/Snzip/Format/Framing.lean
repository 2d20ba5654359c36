import Snzip.Format.ChunkStream

set_option autoImplicit false

/-!
# The framing formats

`framing-format.c` and `framing2-format.c` are one program with different constants: the stream
header, the width of the length field and the sizes of the chunks.

* `Framing`, `framing`, `framing2`: the constants;
* `framingFormatCompress`, **`refines_framingFormatCompress`**;
* `framingReading`, **`framingReading_content_iff`**, **`framingReading_skip_iff`**: what the
  decoder makes of a chunk;
* `framingFormatUncompress`, **`refines_framingFormatUncompress`**.
-/

namespace Snzip

open CProg

/-- The constants of a framing format. -/
structure Framing where
  streamHeader : Bytes
  lengthBytes : ℕ
  maxDataLen : ℕ
  maxUncompressedDataLen : ℕ
  header_eq : streamHeader =
    0xff#8 :: (leBytes lengthBytes 6 ++ [0x73#8, 0x4e#8, 0x61#8, 0x50#8, 0x70#8, 0x59#8])
  lengthBytes_le : lengthBytes ≤ 3
  maxDataLen_lt : maxDataLen < 2 ^ 63
  max_pos : 0 < maxUncompressedDataLen
  max_lt : maxUncompressedDataLen + 4 < 256 ^ lengthBytes

/-- `framing2-format.c`. -/
def framing2 : Framing where
  streamHeader := [0xff#8, 0x06#8, 0x00#8, 0x00#8, 0x73#8, 0x4e#8, 0x61#8, 0x50#8, 0x70#8, 0x59#8]
  lengthBytes := 3
  maxDataLen := 16777215
  maxUncompressedDataLen := 65536
  header_eq := by decide
  lengthBytes_le := by decide
  maxDataLen_lt := by decide
  max_pos := by decide
  max_lt := by decide

/-- `framing-format.c`. -/
def framing : Framing where
  streamHeader := [0xff#8, 0x06#8, 0x00#8, 0x73#8, 0x4e#8, 0x61#8, 0x50#8, 0x70#8, 0x59#8]
  lengthBytes := 2
  maxDataLen := 65535
  maxUncompressedDataLen := 32768
  header_eq := by decide
  lengthBytes_le := by decide
  maxDataLen_lt := by decide
  max_pos := by decide
  max_lt := by decide

theorem Framing.header_pos (F : Framing) : 0 < F.streamHeader.length := by
  rw [F.header_eq]
  exact Nat.succ_pos _

theorem Framing.max_lt_pow (F : Framing) : F.maxUncompressedDataLen < 2 ^ 24 := by
  have h := F.max_lt
  have : 256 ^ F.lengthBytes ≤ 256 ^ 3 := Nat.pow_le_pow_right (by decide) F.lengthBytes_le
  omega

variable (F : Framing) (S : Snappy)

/-! ## Compression -/

/-- The type code and the data of a chunk. -/
def chooseData (data : Bytes) : Byte × Bytes :=
  if S.storesRaw data then (0x01#8, data) else (0x00#8, S.compress data)

/-- The bytes of a chunk before its data, with a length field of `k` bytes. -/
def chunkHead (k : ℕ) (data : Bytes) : Bytes :=
  (chooseData S data).1 :: (leBytes k ((chooseData S data).2.length + 4) ++
    leBytes 4 (maskedCrc32c data).toNat)

/-- `framing_format_compress`. -/
def framingFormatCompress (_blockSize : BitVec 64) : Io ℕ := do
  let maxLen := F.maxUncompressedDataLen
  if !(malloc maxLen && malloc (snappyMaxCompressedLength maxLen)) then return 1
  let _ ← fwrite F.streamHeader
  let body := fun data => do
    putcs (chunkHead S F.lengthBytes data)
    fwrite (chooseData S data).2
  whileFread maxLen body >>= afterChunks

/-- The writes for one block. -/
def chunkWrites (data : Bytes) : List Write :=
  [.putc (chunkHead S F.lengthBytes data), .fwriteOk (chooseData S data).2]

/-- What the compressor does with a file. -/
def framingScript (fault : Bool) (s : Bytes) : Script :=
  ((Script.mk [] (if fault then .status 1 else .checked 0)).after
    ((blocks F.maxUncompressedDataLen s).flatMap (chunkWrites F S))).after [.fwrite F.streamHeader]

theorem refines_framingFormatCompress (blockSize : BitVec 64) :
    Refines (framingFormatCompress F S blockSize) (framingScript F S) := by
  intro w hw
  have hmax := F.max_lt_pow
  have hm : (malloc F.maxUncompressedDataLen &&
      malloc (snappyMaxCompressedLength F.maxUncompressedDataLen)) = true := by
    rw [snappyMaxCompressedLength_eq (by omega)]
    simp only [malloc, Bool.and_eq_true, decide_eq_true_eq]
    omega
  have hloop := whileFread_bind (k := afterChunks)
    (g := fun fault => ⟨[], if fault then .status 1 else .checked 0⟩)
    (fun d => plays_putcs_fwrite (chunkHead S F.lengthBytes d) (chooseData S d).2) F.max_pos
    (fun w => rfl) (fun w fault h _ => afterChunks_refines h)
  unfold framingFormatCompress
  simp only [hm, Bool.not_true, Bool.false_eq_true, if_false, bind_apply, fwrite_apply,
    Outcome.bind_ret]
  exact hloop { w with out := (w.out.fwrite F.streamHeader).2 } hw

/-! ## Decompression -/

/-- `check_crc32c`, on a little-endian machine. -/
def checkCrc32c (data checksum : Bytes) : Bool := decide (maskedCrc32c data = leWord checksum)

/-- `if (!skip_magic) { ... }`: whether the program goes on. -/
def readStreamHeader (skipMagic : Bool) : Io Bool :=
  if skipMagic then pure true
  else do
    match ← readData F.streamHeader.length with
    | none => return false
    | some data => return decide (data = F.streamHeader)

/-- The end of a data chunk: `check_crc32c` and `fwrite`. -/
def writeChecked (content data : Bytes) : Io (Unit ⊕ Bool) :=
  if checkCrc32c content data then writeContent content else return .inr false

/-- A chunk, after its identifier and its length. -/
def framingData (id : Byte) (dataLen : BitVec 64) : Io (Unit ⊕ Bool) := do
  if dataLen = sizeOfInt (chrInt none) then return .inr false
  if id = 0x00#8 then
    -- 4.2. Compressed data
    if dataLen.toNat < 4 then return .inr false
    match ← readData dataLen.toNat with
    | none => return .inr false
    | some data =>
      match S.uncompress (data.drop 4) F.maxUncompressedDataLen with
      | none => return .inr false
      | some u => writeChecked u data
  else if id = 0x01#8 then
    -- 4.3. Uncompressed data
    if dataLen.toNat < 4 then return .inr false
    match ← readData dataLen.toNat with
    | none => return .inr false
    | some data => writeChecked (data.drop 4) data
  else if id.toNat < 0x80 then
    -- 4.4. Reserved unskippable chunks
    return .inr false
  else
    -- 4.5. Reserved skippable chunks
    if ← skipBytes dataLen then return .inl () else return .inr false

/-- The body of the loop, after the identifier of a chunk. -/
def framingChunk (id : Byte) : Io (Unit ⊕ Bool) := do
  let dataLen ← getLength F.lengthBytes
  framingData F S id dataLen

/-- `framing_format_uncompress`. -/
def framingFormatUncompress (skipMagic : Bool) : Io ℕ := do
  if !(malloc F.maxDataLen && malloc F.maxUncompressedDataLen) then return 1
  if !(← readStreamHeader F skipMagic) then return 1
  chunkLoop (framingChunk F S)

/-- A content with its checksum in front. -/
def checkedReading (content data : Bytes) : Reading :=
  if checkCrc32c content data then .content content else .bad

/-- What the decoder makes of a chunk. -/
def framingReading (id : Byte) (data : Bytes) : Reading :=
  if id = 0x00#8 then
    if data.length < 4 then .bad
    else match S.uncompress (data.drop 4) F.maxUncompressedDataLen with
      | none => .bad
      | some u => checkedReading u data
  else if id = 0x01#8 then
    if data.length < 4 then .bad
    else checkedReading (data.drop 4) data
  else if id.toNat < 0x80 then .bad
  else .skip

section Reading

variable {F S} {id : Byte} {data u v : Bytes}

theorem checkedReading_content_iff :
    checkedReading u data = .content v ↔ v = u ∧ maskedCrc32c u = leWord data := by
  unfold checkedReading checkCrc32c
  by_cases h : maskedCrc32c u = leWord data
  · simp [h, eq_comm]
  · simp [h]

theorem checkedReading_ne_skip : checkedReading u data ≠ .skip := by
  unfold checkedReading
  split <;> exact Reading.noConfusion

/-- **The chunks with a content**: it has the checksum in front of the data. -/
theorem framingReading_content_iff :
    framingReading F S id data = .content u ↔ 4 ≤ data.length ∧ maskedCrc32c u = leWord data ∧
      (id = 0x00#8 ∧ S.uncompress (data.drop 4) F.maxUncompressedDataLen = some u ∨
        id = 0x01#8 ∧ u = data.drop 4) := by
  unfold framingReading
  by_cases h4 : data.length < 4
  · -- there is no checksum
    refine iff_of_false (fun h => ?_) fun h => absurd h4 (Nat.not_lt.mpr h.1)
    rw [if_pos h4, if_pos h4] at h
    split_ifs at h
  have hle := Nat.le_of_not_lt h4
  by_cases h0 : id = 0x00#8
  · subst h0
    rw [if_pos rfl, if_neg h4]
    cases S.uncompress (data.drop 4) F.maxUncompressedDataLen with
    | none => simp
    | some v =>
      change checkedReading v data = .content u ↔ _
      rw [checkedReading_content_iff, Option.some.injEq]
      constructor
      · rintro ⟨rfl, hcrc⟩
        exact ⟨hle, hcrc, Or.inl ⟨rfl, rfl⟩⟩
      · rintro ⟨-, hcrc, ⟨-, rfl⟩ | ⟨h, -⟩⟩
        · exact ⟨rfl, hcrc⟩
        · exact absurd h (by decide)
  rw [if_neg h0]
  by_cases h1 : id = 0x01#8
  · rw [if_pos h1, if_neg h4, checkedReading_content_iff]
    constructor
    · rintro ⟨rfl, hcrc⟩
      exact ⟨hle, hcrc, Or.inr ⟨h1, rfl⟩⟩
    · rintro ⟨-, hcrc, ⟨h, -⟩ | ⟨-, rfl⟩⟩
      · exact absurd h h0
      · exact ⟨rfl, hcrc⟩
  · rw [if_neg h1]
    refine iff_of_false (fun h => ?_) ?_
    · split at h <;> cases h
    · rintro ⟨-, -, ⟨h, -⟩ | ⟨h, -⟩⟩
      · exact h0 h
      · exact h1 h

/-- **The chunks that are skipped.** -/
theorem framingReading_skip_iff : framingReading F S id data = .skip ↔ 0x80 ≤ id.toNat := by
  unfold framingReading
  by_cases h0 : id = 0x00#8
  · subst h0
    refine iff_of_false (fun h => ?_) (by decide)
    rw [if_pos rfl] at h
    split at h
    · cases h
    split at h
    · cases h
    · exact checkedReading_ne_skip h
  rw [if_neg h0]
  by_cases h1 : id = 0x01#8
  · subst h1
    refine iff_of_false (fun h => ?_) (by decide)
    rw [if_pos rfl] at h
    split at h
    · cases h
    · exact checkedReading_ne_skip h
  rw [if_neg h1]
  by_cases h80 : id.toNat < 0x80
  · rw [if_pos h80]
    exact iff_of_false Reading.noConfusion (Nat.not_le.mpr h80)
  · rw [if_neg h80]
    exact iff_of_true rfl (Nat.le_of_not_lt h80)

end Reading

section Chunk

variable {F S} {id : Byte} {n : BitVec 64} {w : World}

theorem framingData_short (h : w.inp.rest.length < n.toNat) :
    ∃ i, framingData F S id n w = .ret (.inr false) { w with inp := i } := by
  obtain ⟨i, hi⟩ := skipBytes_short h
  unfold framingData
  simp only [bind_apply, ite_prog, pure_apply, readData_short h, hi, Outcome.bind_ret,
    Bool.false_eq_true, if_false]
  split
  · exact ⟨_, rfl⟩
  split
  · split <;> exact ⟨_, rfl⟩
  split
  · split <;> exact ⟨_, rfl⟩
  split <;> exact ⟨_, rfl⟩

theorem acts_writeChecked (w : World) (rest content data : Bytes) :
    Acts w rest (writeChecked content data { w with inp := { w.inp with rest := rest } })
      (checkedReading content data) := by
  unfold writeChecked checkedReading
  generalize checkCrc32c content data = ok
  cases ok with
  | true => rfl
  | false => exact ⟨_, rfl⟩

theorem framingData_eq (hn : n.toNat < 2 ^ 24) (h : n.toNat ≤ w.inp.rest.length) :
    Acts w (w.inp.rest.drop n.toNat) (framingData F S id n w)
      (framingReading F S id (w.inp.rest.take n.toNat)) := by
  have hlen : (w.inp.rest.take n.toNat).length = n.toNat := List.length_take_of_le h
  have heof : n ≠ sizeOfInt (chrInt none) := by
    rintro rfl
    exact absurd hn (by decide)
  unfold framingData framingReading
  rw [if_neg heof, hlen]
  refine .ite (fun _ => .ite (fun _ => ⟨w.inp, rfl⟩) fun h4 => ?_) fun _ =>
    .ite (fun _ => .ite (fun _ => ⟨w.inp, rfl⟩) fun h4 => ?_) fun _ =>
      .ite (fun _ => ⟨w.inp, rfl⟩) fun _ => ?_
  · -- compressed data
    rw [bind_apply, readData_eq (show n.toNat ≠ 0 by omega) h, Outcome.bind_ret]
    simp only
    cases S.uncompress ((w.inp.rest.take n.toNat).drop 4) F.maxUncompressedDataLen with
    | none => exact ⟨_, rfl⟩
    | some u => exact acts_writeChecked _ _ _ _
  · -- uncompressed data
    rw [bind_apply, readData_eq (show n.toNat ≠ 0 by omega) h, Outcome.bind_ret]
    exact acts_writeChecked _ _ _ _
  · -- a skippable chunk
    rw [bind_apply, skipBytes_eq h, Outcome.bind_ret]
    rfl

theorem readsChunks_framingChunk :
    ReadsChunks F.lengthBytes (framingReading F S) (framingChunk F S) := by
  refine ⟨fun id w h => ?_, fun id w data rest h => ?_⟩
  · exact short_of_data F.lengthBytes_le (fun _ _ => framingData_short) h
  · exact acts_of_data F.lengthBytes_le (fun _ _ hn hle => framingData_eq hn hle) h

end Chunk

/-- The chunks of a stream without its header. -/
def framingChunks (fault : Bool) (s : Bytes) : Script :=
  unroll (chunkPass F.lengthBytes (framingReading F S) fault) () s

/-- What the decoder does with a stream. -/
def framingUnscript (skipMagic fault : Bool) (s : Bytes) : Script :=
  if skipMagic then framingChunks F S fault s
  else if s.take F.streamHeader.length = F.streamHeader then
    framingChunks F S fault (s.drop F.streamHeader.length)
  else ⟨[], .status 1⟩

section Header

variable {F S} {w : World}

theorem framing_mallocs (F : Framing) :
    (malloc F.maxDataLen && malloc F.maxUncompressedDataLen) = true := by
  have h₁ := F.maxDataLen_lt
  have h₂ := F.max_lt_pow
  simp only [malloc, Bool.and_eq_true, decide_eq_true_eq]
  omega

theorem framingFormatUncompress_eq (skipMagic : Bool) :
    framingFormatUncompress F S skipMagic w = (readStreamHeader F skipMagic w).bind fun ok =>
      if !ok then pure 1 else chunkLoop (framingChunk F S) := by
  unfold framingFormatUncompress
  simp only [framing_mallocs, Bool.not_true, Bool.false_eq_true, if_false, bind_apply]

theorem framingFormatUncompress_true :
    framingFormatUncompress F S true w = chunkLoop (framingChunk F S) w := by
  rw [framingFormatUncompress_eq]
  rfl

theorem readStreamHeader_header {t : Bytes} (h : w.inp.rest = F.streamHeader ++ t) :
    readStreamHeader F false w = .ret true { w with inp := { w.inp with rest := t } } := by
  have hpos := F.header_pos
  unfold readStreamHeader
  simp only [Bool.false_eq_true, if_false, bind_apply]
  rw [readData_eq (by omega) (by rw [h]; simp), h, List.take_left, List.drop_left]
  simp

theorem framingFormatUncompress_of_header {t : Bytes} (h : w.inp.rest = F.streamHeader ++ t) :
    framingFormatUncompress F S false w =
      chunkLoop (framingChunk F S) { w with inp := { w.inp with rest := t } } := by
  rw [framingFormatUncompress_eq, readStreamHeader_header h, Outcome.bind_ret]
  rfl

theorem framingFormatUncompress_of_not (h : ¬ F.streamHeader <+: w.inp.rest) :
    ∃ i, framingFormatUncompress F S false w = .ret 1 { w with inp := i } := by
  have hpos := F.header_pos
  have hread : ∃ i, readStreamHeader F false w = .ret false { w with inp := i } := by
    unfold readStreamHeader
    simp only [Bool.false_eq_true, if_false, bind_apply]
    by_cases hlen : F.streamHeader.length ≤ w.inp.rest.length
    · rw [readData_eq (by omega) hlen]
      have hne : w.inp.rest.take F.streamHeader.length ≠ F.streamHeader := fun he =>
        h (List.prefix_iff_eq_take.mpr he.symm)
      exact ⟨{ w.inp with rest := w.inp.rest.drop F.streamHeader.length }, by simp [hne]⟩
    · rw [readData_short (Nat.lt_of_not_le hlen)]
      exact ⟨_, rfl⟩
  obtain ⟨i, hi⟩ := hread
  exact ⟨i, by rw [framingFormatUncompress_eq, hi, Outcome.bind_ret]; rfl⟩

end Header

theorem splitChunk_header (F : Framing) (rest : Bytes) :
    splitChunk F.lengthBytes (F.streamHeader ++ rest) =
      some (0xff#8, [0x73#8, 0x4e#8, 0x61#8, 0x50#8, 0x70#8, 0x59#8], rest) := by
  have hpow : 0 < F.lengthBytes := Nat.pos_of_ne_zero fun h0 => by
    have := F.max_lt
    rw [h0] at this
    omega
  have h6 : 6 < 256 ^ F.lengthBytes :=
    Nat.lt_of_lt_of_le (by decide) (Nat.pow_le_pow_right (by decide) hpow)
  rw [F.header_eq]
  exact splitChunk_append (d := [0x73#8, 0x4e#8, 0x61#8, 0x50#8, 0x70#8, 0x59#8]) h6 0xff#8 rest

theorem framingReading_header :
    framingReading F S 0xff#8 [0x73#8, 0x4e#8, 0x61#8, 0x50#8, 0x70#8, 0x59#8] = .skip := rfl

theorem refines_framingFormatUncompress (skipMagic : Bool) :
    Refines (framingFormatUncompress F S skipMagic) (framingUnscript F S skipMagic) := by
  intro w hw
  have hloop := refines_chunkLoop (readsChunks_framingChunk (F := F) (S := S))
  have hpos := F.header_pos
  cases skipMagic with
  | true => rw [framingFormatUncompress_true]; exact hloop w hw
  | false =>
    by_cases hpre : F.streamHeader <+: w.inp.rest
    · obtain ⟨rest, hrest⟩ := hpre
      have hne : w.inp.rest ≠ [] := fun h0 => by
        rw [h0, List.append_eq_nil_iff] at hrest
        rw [hrest.1, List.length_nil] at hpos
        omega
      rw [framingFormatUncompress_of_header hrest.symm, hloop _ (hw.drop hne rest)]
      simp [framingUnscript, framingChunks, ← hrest]
    · obtain ⟨i, hi⟩ := framingFormatUncompress_of_not (S := S) hpre
      have hne : w.inp.rest.take F.streamHeader.length ≠ F.streamHeader := fun he =>
        hpre (List.prefix_iff_eq_take.mpr he.symm)
      rw [hi]
      simp [framingUnscript, hne, Script.playback, playAll, Verdict.close]

end Snzip
