import Snzip.Lib.Logged
import Snzip.ReadError

set_option autoImplicit false

/-!
# Buffers and their capacities

`fread` puts as many bytes into a buffer as it is asked for, and `snappy_uncompress` as many as its
destination length says. Here every such call of a decoder is logged with the size of the buffer.

* `Access`, `Watched`, `freadInto`, `uncompressInto`: the calls, with the buffers behind them;
* `Sized`: the recorded lengths of a work buffer are its real sizes, kept by `work_buffer_resize`;
* `Watch`: the decoders with their calls, which without the log are the decoders;
* `WorkBuffered`: the formats of these decoders;
* **`capacity_respected`**: no call asks for more than the capacity of its buffer.
-/

namespace Snzip

open CProg

/-- A call that may put `wanted` bytes into a buffer of `room` bytes. -/
structure Access where
  wanted : ℕ
  room : ℕ
  deriving DecidableEq

/-- The access stays within the room that there is. -/
def Access.Fits (a : Access) : Prop := a.wanted ≤ a.room

/-- A program on the streams that logs such calls. -/
abbrev Watched (α : Type) : Type := Prog (Logged World Access) α

/-! ## Calls -/

/-- `fread(buf, size, 1, infp)`, into a buffer of `room` bytes. -/
def freadInto (room size : ℕ) : Watched (Option Bytes) := do
  record ⟨size, room⟩
  quiet (fread size)

variable (S : Snappy)

/-- `snappy_uncompress` into a buffer of `room` bytes, with `n` as the destination length. -/
def uncompressInto (room : ℕ) (c : Bytes) (n : ℕ) : Watched (Option Bytes) := do
  record ⟨n, room⟩
  return S.uncompress c n

/-- `snappy_uncompressed_length`, its check against the buffer, and `snappy_uncompress`. -/
def uncompressWithinInto (wb : WorkBuffer) (c : Bytes) : Watched (Option Bytes) :=
  match S.uncompressedLength c with
  | none => pure none
  | some uncompressedLength =>
    if uncompressedLength > wb.uclen then pure none
    else uncompressInto S wb.uc c uncompressedLength

/-- A header that is read into a variable of its size. -/
def readHeaderInto {α : Type} (n : ℕ) (check : Bytes → Option α) : Watched (Option α) := do
  match ← freadInto n n with
  | none => return none
  | some header => return check header

section Calls

variable {S} {room n : ℕ}

theorem forgets_freadInto (room n : ℕ) : Forgets (freadInto room n) (fread n) :=
  (forgets_quiet _).record _

theorem keeps_freadInto (h : n ≤ room) : Keeps Access.Fits (freadInto room n) fun _ => True :=
  (keeps_record (p := Access.Fits) (e := ⟨n, room⟩) h).bind fun _ _ => keeps_quiet_any _

theorem forgets_uncompressInto (c : Bytes) :
    Forgets (uncompressInto S room c n) (pure (S.uncompress c n)) := (forgets_pure _).record _

theorem keeps_uncompressInto (h : n ≤ room) (c : Bytes) :
    Keeps Access.Fits (uncompressInto S room c n) fun _ => True :=
  (keeps_record (p := Access.Fits) (e := ⟨n, room⟩) h).bind fun _ _ => keeps_pure trivial

theorem forgets_uncompressWithinInto (wb : WorkBuffer) (c : Bytes) :
    Forgets (uncompressWithinInto S wb c) (pure (S.uncompressWithin c wb.uclen)) := by
  unfold uncompressWithinInto Snappy.uncompressWithin
  cases S.uncompressedLength c with
  | none => exact forgets_pure none
  | some l =>
    simp only
    split
    · exact forgets_pure none
    · exact forgets_uncompressInto c

theorem forgets_readHeaderInto {α : Type} (n : ℕ) (check : Bytes → Option α) :
    Forgets (readHeaderInto n check) (readHeader n check) := by
  refine (forgets_freadInto n n).bind fun r => ?_
  cases r with
  | none => exact forgets_pure none
  | some header => exact forgets_pure (check header)

theorem keeps_readHeaderInto {α : Type} (n : ℕ) (check : Bytes → Option α) :
    Keeps Access.Fits (readHeaderInto n check) fun _ => True := by
  refine (keeps_freadInto (Nat.le_refl n)).bind fun r _ => ?_
  cases r with
  | none => exact keeps_pure trivial
  | some header => exact keeps_pure trivial

end Calls

/-! ## Work buffers -/

/-- The recorded lengths are the sizes of the memory behind the pointers. -/
structure Sized (wb : WorkBuffer) : Prop where
  c_eq : wb.c = wb.clen
  uc_eq : wb.uc = wb.uclen

theorem keeps_uncompressWithinInto {S : Snappy} {wb : WorkBuffer} (h : Sized wb) (c : Bytes) :
    Keeps Access.Fits (uncompressWithinInto S wb c) fun _ => True := by
  unfold uncompressWithinInto
  split
  · exact keeps_pure trivial
  · refine keeps_ite (fun _ => keeps_pure trivial) fun hle => keeps_uncompressInto ?_ c
    rw [h.uc_eq]
    exact Nat.le_of_not_gt hle

theorem sized_workBufferInit (b : BitVec 64) :
    Ensures (fun _ => True) (workBufferInit b)
      (fun wb _ => Sized wb ∧ wb.uclen = b.toNat ∧ wb.clen = snappyMaxCompressedLength b.toNat)
      fun _ => True := by
  rintro w -
  by_cases hm : (malloc b.toNat && malloc (snappyMaxCompressedLength b.toNat)) = true
  · rw [workBufferInit_ok hm]
    exact ⟨⟨rfl, rfl⟩, rfl, rfl⟩
  · rw [workBufferInit_fail hm]
    trivial

/-- **Both buffers keep their recorded sizes**, and the new ones are as large as asked for. -/
theorem sized_workBufferResize {wb : WorkBuffer} (h : Sized wb) (clen uclen : ℕ) :
    Ensures (fun _ => True) (workBufferResize wb clen uclen)
      (fun wb' _ => Sized wb' ∧ wb'.clen = (if clen = 0 then wb.clen else clen) ∧
        wb'.uclen = if uclen = 0 then wb.uclen else uclen) fun _ => True := by
  rintro w -
  unfold workBufferResize
  by_cases hc : (clen ≠ 0 && !malloc clen) = true
  · simp only [hc, if_true]
    trivial
  by_cases hu : (uclen ≠ 0 && !malloc uclen) = true
  · simp only [hc, hu, if_true]
    trivial
  simp only [hc, hu]
  refine ⟨⟨?_, ?_⟩, ?_, ?_⟩ <;> by_cases hc0 : clen = 0 <;> by_cases hu0 : uclen = 0 <;>
    simp [hc0, hu0, h.c_eq, h.uc_eq]

theorem sized_growC {wb : WorkBuffer} (h : Sized wb) (clen : ℕ) :
    Ensures (fun _ => True) (growC wb clen) (fun wb' _ => Sized wb' ∧ clen ≤ wb'.c)
      fun _ => True := by
  unfold growC
  refine ensures_ite (fun hgt => (sized_workBufferResize h clen 0).mono (fun _ => id) ?_)
    fun hle => ensures_pure fun _ _ => ⟨h, ?_⟩
  · rintro wb' w ⟨hs, hc, -⟩
    refine ⟨hs, ?_⟩
    rw [hs.c_eq, hc, if_neg (by omega)]
  · rw [h.c_eq]
    exact Nat.le_of_not_gt hle

theorem sized_growUc {wb : WorkBuffer} (h : Sized wb) (uclen : ℕ) :
    Ensures (fun _ => True) (growUc wb uclen) (fun wb' _ => Sized wb' ∧ uclen ≤ wb'.uc)
      fun _ => True := by
  unfold growUc
  refine ensures_ite (fun hgt => (sized_workBufferResize h 0 uclen).mono (fun _ => id) ?_)
    fun hle => ensures_pure fun _ _ => ⟨h, ?_⟩
  · rintro wb' w ⟨hs, -, hu⟩
    refine ⟨hs, ?_⟩
    rw [hs.uc_eq, hu, if_neg (by omega)]
  · rw [h.uc_eq]
    exact Nat.le_of_not_gt hle

/-- `write_full` at the end of a pass leaves the variables of the loop as they are. -/
theorem ensures_writeBlock {τ : Type} {T : τ → Prop} {t : τ} (h : T t) (u : Bytes) :
    Ensures (fun _ => True) (writeBlock t u) (fun r _ => r.elim T fun _ => True) fun _ => True := by
  refine (ensures_any (writeFull u)).bind fun rv => ?_
  exact ensures_ite (fun _ => ensures_pure fun _ _ => trivial) fun _ => ensures_pure fun _ _ => h

/-! ## The decoders with their calls -/

namespace Watch

/-- The header of a snzip file, with its reads recorded. -/
def readSnzHeader (g : Globals) (skipMagic : Bool) : Watched (Option Byte) :=
  if skipMagic then pure (some (g.snzipFormatBlockSize.setWidth 8))
  else readHeaderInto 5 checkSnzHeader

/-- A pass of the loop of `snzip_uncompress`. -/
def snzPass (wb : WorkBuffer) (_ : Unit) : Watched (Unit ⊕ ℕ) := do
  match ← quiet (readLength 0#64 0 varintMax) with
  | none => return .inr 1
  | some (compressedLength, idx) =>
    if idx = varintMax then return .inr 1
    if compressedLength = 0#64 then return .inr 0
    if compressedLength.toNat > wb.clen then return .inr 1
    match ← freadInto wb.c compressedLength.toNat with
    | none => return .inr 1
    | some c =>
      match ← uncompressWithinInto S wb c with
      | none => return .inr 1
      | some u => quiet (writeBlock () u)

/-- `snzip_uncompress`. -/
def snzipUncompress (g : Globals) (skipMagic : Bool) : Watched ℕ := do
  match ← readSnzHeader g skipMagic with
  | none => return 1
  | some blockSize =>
    if blockSize.toNat > snzMaxBlockSize then return 1
    quiet fflush
    let wb ← quiet (workBufferInit (sizeOfInt (1#32 <<< blockSize.toNat)))
    loop (fun _ s => s.state.inp.rest.length) (snzPass S wb) ()

/-- The header of a snappy-java file. -/
def readSnappyJavaHeader (skipMagic : Bool) : Watched (Option Unit) :=
  if skipMagic then readHeaderInto 8 checkVersions else readHeaderInto 16 checkSnappyJavaHeader

/-- A pass of the loop of `snappy_java_uncompress`. -/
def snappyJavaPass (wb : WorkBuffer) : Watched (WorkBuffer ⊕ ℕ) := do
  match ← quiet (readJavaLength 0#64 4) with
  | .error err => return .inr err
  | .ok compressedLength =>
    if compressedLength = 0#64 then return .inr 1
    let wb ← quiet (growC wb compressedLength.toNat)
    match ← freadInto wb.c compressedLength.toNat with
    | none => return .inr 1
    | some c =>
      match S.uncompressedLength c with
      | none => return .inr 1
      | some uncompressedLength =>
        let wb ← quiet (growUc wb uncompressedLength)
        match ← uncompressInto S wb.uc c uncompressedLength with
        | none => return .inr 1
        | some u => quiet (writeBlock wb u)

/-- `snappy_java_uncompress`. -/
def snappyJavaUncompress (skipMagic : Bool) : Watched ℕ := do
  match ← readSnappyJavaHeader skipMagic with
  | none => return 1
  | some () =>
    quiet fflush
    let wb ← quiet (workBufferInit snappyJavaDefaultBlockSize)
    loop (fun _ s => s.state.inp.rest.length) (snappyJavaPass S) wb

/-- A block of the snappy-in-java format, after its flag, its length and its checksum. -/
def snappyInJavaData (wb : WorkBuffer) (flag : Byte) (length : BitVec 64) (crc32c : BitVec 32) :
    Watched (Unit ⊕ ℕ) := do
  match ← freadInto wb.c length.toNat with
  | none => return .inr 1
  | some data =>
    if flag = compressedFlag then
      match ← uncompressWithinInto S wb data with
      | none => return .inr 1
      | some u => quiet (checkAndWriteBlock u crc32c)
    else quiet (checkAndWriteBlock data crc32c)

/-- A pass of snappy-in-java after its flag. -/
def snappyInJavaFlagged (wb : WorkBuffer) (flag : Byte) : Watched (Unit ⊕ ℕ) := do
  let r ← quiet readLengthAndCrc
  if ← quiet feofIn then return .inr 1
  if ← quiet ferrorIn then return .inr 1
  snappyInJavaData S wb flag r.1 r.2

/-- A pass of the loop of `snappy_in_java_uncompress`. -/
def snappyInJavaPass (wb : WorkBuffer) (_ : Unit) : Watched (Unit ⊕ ℕ) := do
  match ← quiet getc with
  | none => return .inr 0
  | some flag =>
    if flag = compressedFlag ∨ flag = uncompressedFlag then snappyInJavaFlagged S wb flag
    else return .inr 1

/-- The header of a snappy-in-java file. -/
def readSnappyInJavaHeader (skipMagic : Bool) : Watched (Option Unit) :=
  if skipMagic then pure (some ()) else readHeaderInto 7 checkSnappyInJavaHeader

/-- `snappy_in_java_uncompress`. -/
def snappyInJavaUncompress (skipMagic : Bool) : Watched ℕ := do
  match ← readSnappyInJavaHeader skipMagic with
  | none => return 1
  | some () =>
    quiet fflush
    let wb ← quiet (workBufferInit snappyInJavaMaxBlockSize)
    loop (fun _ s => s.state.inp.rest.length) (snappyInJavaPass S wb) ()

/-- The inner loop of hadoop-snappy from the label on. -/
def afterReadingCompressedLen (sourceLen compressedLen : ℕ) (wb : WorkBuffer) :
    Watched ((ℕ × WorkBuffer) ⊕ ℕ) := do
  let wb ← quiet (growC wb compressedLen)
  match ← freadInto wb.c compressedLen with
  | none => return .inr 1
  | some c =>
    match S.uncompressedLength c with
    | none => return .inr 1
    | some uncompressedLen =>
      if uncompressedLen > sourceLen then return .inr 1
      let wb ← quiet (growUc wb uncompressedLen)
      match ← uncompressInto S wb.uc c uncompressedLen with
      | none => return .inr 1
      | some u =>
        if !(← quiet (fwrite u)) then return .inr 1
        return .inl (sourceLen - u.length, wb)

/-- A pass of the outer loop of hadoop-snappy. -/
def hadoopPass (t : ℕ × WorkBuffer) : Watched ((ℕ × WorkBuffer) ⊕ ℕ) := do
  if t.1 > 0 then
    match ← freadInto 4 4 with
    | none => return .inr 1
    | some n => afterReadingCompressedLen S t.1 (beVal n) t.2
  else
    match ← freadInto 4 4 with
    | none => if ← quiet feofIn then return .inr 0 else return .inr 1
    | some n => return .inl (beVal n, t.2)

/-- After a pass: round again, or to the clean-up. -/
def resume {τ : Type} (body : τ → Watched (τ ⊕ ℕ)) : τ ⊕ ℕ → Watched ℕ
  | .inl t => loop (fun _ s => s.state.inp.rest.length) body t
  | .inr n => pure n

/-- `hadoop_snappy_format_uncompress`. -/
def hadoopSnappyFormatUncompress (g : Globals) (skipMagic : Bool) : Watched ℕ := do
  let wb ← quiet (workBufferInit (hadoopSnappyMaxInputSize 0#64))
  if skipMagic then
    afterReadingCompressedLen S g.hadoopSnappySourceLength.toNat
      g.hadoopSnappyCompressedLength.toNat wb >>= resume (hadoopPass S)
  else resume (hadoopPass S) (.inl (0, wb))

/-- The data of a block of the comment-43 format; `data` is `char data[UINT16_MAX]`. -/
def readBlockData (type : Byte) (dataLen : BitVec 16) : Watched ReadBlock := do
  if dataLen.toNat = 0 then return .success type []
  match ← freadInto 65535 dataLen.toNat with
  | none => return .tooShortDataBlock
  | some data => return .success type data

/-- `read_block` of comment-43. -/
def readBlock : Watched ReadBlock := do
  match ← quiet getc with
  | none => return .eof
  | some type =>
    match ← quiet getc with
    | none => return .tooShortDataBlock
    | some c₀ =>
      match ← quiet getc with
      | none => return .tooShortDataBlock
      | some c₁ => readBlockData type (c₀.setWidth 16 ||| c₁.setWidth 16 <<< 8)

/-- `process_block` of comment-43. -/
def processBlock (state : StreamState) (type : Byte) (data : Bytes) : Watched StreamState :=
  match state with
  | .error => pure .error
  | .initial | .endOfStream =>
    if type ≠ 0xff#8 then pure .error
    else if data.length ≠ 6 then pure .error
    else if data ≠ comment43Magic then pure .error
    else pure .processing
  | .processing =>
    if type = 0x00#8 then
      if data.length ≤ 4 then pure .error
      else do
        match ← uncompressInto S comment43WorkLen (data.drop 4) comment43WorkLen with
        | none => pure .error
        | some work => quiet (writeBlockData work data)
    else if type = 0x01#8 then
      if data.length ≤ 4 then pure .error else quiet (writeBlockData (data.drop 4) data)
    else if type = 0xfe#8 then
      if data.length ≠ 0 then pure .error else pure .endOfStream
    else if type = 0xff#8 then pure .error
    else if type.toNat < 0x80 then pure .error
    else pure .processing

/-- A pass of the loop of `comment_43_uncompress`. -/
def comment43Pass (state : StreamState) : Watched (StreamState ⊕ ℕ) := do
  match ← readBlock with
  | .eof => if state = .endOfStream then return .inr 0 else return .inr 1
  | .tooShortDataBlock => return .inr 1
  | .success type data =>
    let state ← processBlock S state type data
    if state = .error then return .inr 1
    return .inl state

/-- `comment_43_uncompress`. -/
def comment43Uncompress (skipMagic : Bool) : Watched ℕ := do
  if !malloc comment43WorkLen then return 1
  let state := if skipMagic then StreamState.processing else .initial
  loop (fun _ s => s.state.inp.rest.length) (comment43Pass S) state

end Watch

section Snz

variable {S}

theorem forgets_snzPass (wb : WorkBuffer) (t : Unit) :
    Forgets (Watch.snzPass S wb t) (snzPass S wb t) := by
  refine (forgets_quiet _).bind fun r => ?_
  cases r with
  | none => exact forgets_pure _
  | some p =>
    refine forgets_ite (forgets_pure _) (forgets_ite (forgets_pure _)
      (forgets_ite (forgets_pure _) ((forgets_freadInto _ _).bind fun c => ?_)))
    cases c with
    | none => exact forgets_pure _
    | some c =>
      refine (forgets_uncompressWithinInto wb c).bind_pure ?_
      simp only
      cases S.uncompressWithin c wb.uclen with
      | none => exact forgets_pure _
      | some u => exact forgets_quiet _

theorem forgets_snzipUncompress (g : Globals) (skipMagic : Bool) :
    Forgets (Watch.snzipUncompress S g skipMagic) (snzipUncompress S g skipMagic) := by
  have hheader : Forgets (Watch.readSnzHeader g skipMagic) (readSnzHeader g skipMagic) :=
    forgets_ite (forgets_pure _) (forgets_readHeaderInto _ _)
  refine hheader.bind fun r => ?_
  cases r with
  | none => exact forgets_pure _
  | some blockSize =>
    exact forgets_ite (forgets_pure _) ((forgets_quiet _).bind fun _ => (forgets_quiet _).bind
      fun wb => forgets_loop (μ := fun _ w => w.inp.rest.length) (forgets_snzPass wb) ())

theorem keeps_snzPass {wb : WorkBuffer} (h : Sized wb) (t : Unit) :
    Keeps Access.Fits (Watch.snzPass S wb t) fun _ => True := by
  refine (keeps_quiet_any _).bind fun r _ => ?_
  cases r with
  | none => exact keeps_pure trivial
  | some p =>
    refine keeps_ite (fun _ => keeps_pure trivial) fun _ => keeps_ite (fun _ => keeps_pure trivial)
      fun _ => keeps_ite (fun _ => keeps_pure trivial) fun hle => ?_
    -- the length has been compared with the recorded size of the buffer
    have hfits : p.1.toNat ≤ wb.c := h.c_eq ▸ Nat.le_of_not_gt hle
    refine (keeps_freadInto hfits).bind fun c _ => ?_
    cases c with
    | none => exact keeps_pure trivial
    | some c =>
      refine (keeps_uncompressWithinInto h c).bind fun u _ => ?_
      cases u with
      | none => exact keeps_pure trivial
      | some u => exact keeps_quiet_any _

theorem keeps_snzipUncompress (g : Globals) (skipMagic : Bool) :
    Keeps Access.Fits (Watch.snzipUncompress S g skipMagic) fun _ => True := by
  have hheader : Keeps Access.Fits (Watch.readSnzHeader g skipMagic) fun _ => True :=
    keeps_ite (fun _ => keeps_pure trivial) fun _ => keeps_readHeaderInto _ _
  refine hheader.bind fun r _ => ?_
  cases r with
  | none => exact keeps_pure trivial
  | some blockSize =>
    refine keeps_ite (fun _ => keeps_pure trivial) fun _ => (keeps_quiet_any _).bind fun _ _ => ?_
    refine (keeps_quiet ((sized_workBufferInit _).mono (fun _ => id) fun _ _ h => h.1)).bind
      fun wb hwb => ?_
    exact keeps_loop (T := fun _ => True) (fun t _ => (keeps_snzPass hwb t).mono (fun _ => id)
      fun r s hs => ⟨by cases r <;> trivial, hs.2⟩) trivial

end Snz

section SnappyJava

variable {S}

theorem forgets_snappyJavaPass (wb : WorkBuffer) :
    Forgets (Watch.snappyJavaPass S wb) (snappyJavaPass S wb) := by
  refine (forgets_quiet _).bind fun r => ?_
  cases r with
  | error err => exact forgets_pure _
  | ok n =>
    refine forgets_ite (forgets_pure _) ((forgets_quiet _).bind fun wb =>
      (forgets_freadInto _ _).bind fun c => ?_)
    cases c with
    | none => exact forgets_pure _
    | some c =>
      simp only
      cases S.uncompressedLength c with
      | none => exact forgets_pure _
      | some l =>
        refine (forgets_quiet _).bind fun wb => (forgets_uncompressInto c).bind_pure ?_
        cases S.uncompress c l with
        | none => exact forgets_pure _
        | some u => exact forgets_quiet _

theorem forgets_snappyJavaUncompress (skipMagic : Bool) :
    Forgets (Watch.snappyJavaUncompress S skipMagic) (snappyJavaUncompress S skipMagic) := by
  have hheader : Forgets (Watch.readSnappyJavaHeader skipMagic) (readSnappyJavaHeader skipMagic) :=
    forgets_ite (forgets_readHeaderInto _ _) (forgets_readHeaderInto _ _)
  refine hheader.bind fun r => ?_
  cases r with
  | none => exact forgets_pure _
  | some r =>
    exact (forgets_quiet _).bind fun _ => (forgets_quiet _).bind
      fun wb => forgets_loop (μ := fun _ w => w.inp.rest.length) forgets_snappyJavaPass wb

/-- A pass keeps the work buffer as it is recorded, whatever lengths it comes upon. -/
theorem keeps_snappyJavaPass {wb : WorkBuffer} (h : Sized wb) :
    Keeps Access.Fits (Watch.snappyJavaPass S wb) fun r => r.elim Sized fun _ => True := by
  refine (keeps_quiet_any _).bind fun r _ => ?_
  cases r with
  | error err => exact keeps_pure trivial
  | ok n =>
    refine keeps_ite (fun _ => keeps_pure trivial) fun _ => (keeps_quiet (sized_growC h _)).bind ?_
    rintro wb₁ ⟨h₁, hc⟩
    refine (keeps_freadInto hc).bind fun c _ => ?_
    cases c with
    | none => exact keeps_pure trivial
    | some c =>
      simp only
      cases S.uncompressedLength c with
      | none => exact keeps_pure trivial
      | some l =>
        refine (keeps_quiet (sized_growUc h₁ l)).bind ?_
        rintro wb₂ ⟨h₂, hu⟩
        refine (keeps_uncompressInto hu c).bind fun u _ => ?_
        cases u with
        | none => exact keeps_pure trivial
        | some u => exact keeps_quiet (ensures_writeBlock h₂ u)

theorem keeps_snappyJavaUncompress (skipMagic : Bool) :
    Keeps Access.Fits (Watch.snappyJavaUncompress S skipMagic) fun _ => True := by
  have hheader : Keeps Access.Fits (Watch.readSnappyJavaHeader skipMagic) fun _ => True :=
    keeps_ite (fun _ => keeps_readHeaderInto _ _) fun _ => keeps_readHeaderInto _ _
  refine hheader.bind fun r _ => ?_
  cases r with
  | none => exact keeps_pure trivial
  | some r =>
    refine (keeps_quiet_any _).bind fun _ _ => (keeps_quiet ((sized_workBufferInit _).mono
      (fun _ => id) fun _ _ h => h.1)).bind fun wb hwb => ?_
    exact keeps_loop (fun t ht => keeps_snappyJavaPass ht) hwb

end SnappyJava

section SnappyInJava

variable {S}

theorem forgets_snappyInJavaPass (wb : WorkBuffer) (t : Unit) :
    Forgets (Watch.snappyInJavaPass S wb t) (snappyInJavaPass S wb t) := by
  refine (forgets_quiet _).bind fun flag => ?_
  cases flag with
  | none => exact forgets_pure _
  | some flag =>
    refine forgets_ite ((forgets_quiet _).bind fun r => (forgets_quiet _).bind fun eof =>
      forgets_ite (forgets_pure _) ((forgets_quiet _).bind fun err => forgets_ite (forgets_pure _)
        ((forgets_freadInto _ _).bind fun data => ?_))) (forgets_pure _)
    cases data with
    | none => exact forgets_pure _
    | some data =>
      refine forgets_ite ((forgets_uncompressWithinInto wb data).bind_pure ?_) (forgets_quiet _)
      cases S.uncompressWithin data wb.uclen with
      | none => exact forgets_pure _
      | some u => exact forgets_quiet _

theorem forgets_snappyInJavaUncompress (skipMagic : Bool) :
    Forgets (Watch.snappyInJavaUncompress S skipMagic) (snappyInJavaUncompress S skipMagic) := by
  have hheader : Forgets (Watch.readSnappyInJavaHeader skipMagic)
      (readSnappyInJavaHeader skipMagic) :=
        forgets_ite (forgets_pure _) (forgets_readHeaderInto _ _)
  refine hheader.bind fun r => ?_
  cases r with
  | none => exact forgets_pure _
  | some r =>
    exact (forgets_quiet _).bind fun _ => (forgets_quiet _).bind fun wb =>
      forgets_loop (μ := fun _ w => w.inp.rest.length) (forgets_snappyInJavaPass wb) ()

/-- **A length field that was read without reaching the end** is below `2 ^ 16`. -/
theorem ensures_readLengthAndCrc :
    Ensures (fun _ => True) readLengthAndCrc
      (fun r w => w.inp.eof = false → w.inp.err = false → r.1.toNat < 2 ^ 16) fun _ => True := by
  rintro w -
  by_cases h6 : w.inp.rest.length < 6
  · obtain ⟨r, hr⟩ := readLengthAndCrc_state w
    rw [hr, InFile.iterate_next_short 6 h6]
    intro heof herr
    cases hf : w.inp.fault <;> simp [InFile.hitEnd, hf] at heof herr
  · obtain ⟨c₁, c₀, d₃, d₂, d₁, d₀, t, ht⟩ := six_of_length (Nat.le_of_not_lt h6)
    obtain ⟨n, hn, hread⟩ := readLengthAndCrc_eq ht
    rw [hread]
    intro _ _
    have hlt : n.toNat < 256 ^ 2 := hn ▸ beVal_lt [c₁, c₀]
    omega

theorem keeps_snappyInJavaData {wb : WorkBuffer} (h : Sized wb) (flag : Byte) {length : BitVec 64}
    (hlen : length.toNat ≤ wb.c) (crc32c : BitVec 32) :
    Keeps Access.Fits (Watch.snappyInJavaData S wb flag length crc32c) fun _ => True := by
  refine (keeps_freadInto hlen).bind fun data _ => ?_
  cases data with
  | none => exact keeps_pure trivial
  | some data =>
    refine keeps_ite (fun _ => (keeps_uncompressWithinInto h data).bind fun u _ => ?_)
      fun _ => keeps_quiet_any _
    cases u with
    | none => exact keeps_pure trivial
    | some u => exact keeps_quiet_any _

theorem keeps_snappyInJavaFlagged {wb : WorkBuffer} (h : Sized wb) (hc : 2 ^ 16 ≤ wb.c)
    (flag : Byte) : Keeps Access.Fits (Watch.snappyInJavaFlagged S wb flag) fun _ => True := by
  have hread : Ensures (EachLogged Access.Fits) (quiet readLengthAndCrc) _ _ :=
    (ensures_quiet ensures_readLengthAndCrc).mono (fun s hs => ⟨trivial, hs⟩) fun _ _ h => h
  refine hread.bind fun r => ?_
  rintro s ⟨hlen, hs⟩
  rw [bind_apply, quiet_apply, feofIn_apply, Outcome.view_ret, Outcome.bind_ret, ite_prog]
  split
  · exact ⟨trivial, hs⟩
  next heof =>
  rw [bind_apply, quiet_apply, ferrorIn_apply, Outcome.view_ret, Outcome.bind_ret, ite_prog]
  split
  · exact ⟨trivial, hs⟩
  next herr =>
  have hlt := hlen (Bool.eq_false_of_not_eq_true heof) (Bool.eq_false_of_not_eq_true herr)
  exact keeps_snappyInJavaData h flag (by omega) _ s hs

theorem keeps_snappyInJavaUncompress (skipMagic : Bool) :
    Keeps Access.Fits (Watch.snappyInJavaUncompress S skipMagic) fun _ => True := by
  have hheader : Keeps Access.Fits (Watch.readSnappyInJavaHeader skipMagic) fun _ => True :=
    keeps_ite (fun _ => keeps_pure trivial) fun _ => keeps_readHeaderInto _ _
  refine hheader.bind fun r _ => ?_
  cases r with
  | none => exact keeps_pure trivial
  | some r =>
    refine (keeps_quiet_any _).bind fun _ _ =>
      (keeps_quiet (sized_workBufferInit snappyInJavaMaxBlockSize)).bind ?_
    rintro wb ⟨hwb, -, hclen⟩
    have hroom : 2 ^ 16 ≤ wb.c := by
      rw [hwb.c_eq, hclen]
      decide
    refine keeps_loop (T := fun _ => True) (fun t _ => ?_) trivial
    refine (keeps_quiet_any _).bind fun flag _ => ?_
    cases flag with
    | none => exact keeps_pure trivial
    | some flag =>
      refine keeps_ite (fun _ => ?_) fun _ => keeps_pure trivial
      exact (keeps_snappyInJavaFlagged hwb hroom flag).mono (fun _ => id)
        fun r s hs => ⟨by cases r <;> trivial, hs.2⟩

end SnappyInJava

section Hadoop

variable {S}

theorem forgets_afterReadingCompressedLen (sourceLen compressedLen : ℕ) (wb : WorkBuffer) :
    Forgets (Watch.afterReadingCompressedLen S sourceLen compressedLen wb)
      (afterReadingCompressedLen S sourceLen compressedLen wb) := by
  refine (forgets_quiet _).bind fun wb => (forgets_freadInto _ _).bind fun c => ?_
  cases c with
  | none => exact forgets_pure _
  | some c =>
    simp only
    cases S.uncompressedLength c with
    | none => exact forgets_pure _
    | some l =>
      refine forgets_ite (forgets_pure _) ((forgets_quiet _).bind fun wb =>
        (forgets_uncompressInto c).bind_pure ?_)
      cases S.uncompress c l with
      | none => exact forgets_pure _
      | some u => exact (forgets_quiet _).bind fun ok =>
        forgets_ite (forgets_pure _) (forgets_pure _)

theorem forgets_hadoopPass (t : ℕ × WorkBuffer) :
    Forgets (Watch.hadoopPass S t) (hadoopPass S t) := by
  refine forgets_ite ((forgets_freadInto 4 4).bind fun n => ?_)
    ((forgets_freadInto 4 4).bind fun n => ?_)
  · cases n with
    | none => exact forgets_pure _
    | some n => exact forgets_afterReadingCompressedLen _ _ _
  · cases n with
    | none => exact (forgets_quiet _).bind fun eof => forgets_ite (forgets_pure _) (forgets_pure _)
    | some n => exact forgets_pure _

theorem forgets_resume {τ : Type} {body' : τ → Watched (τ ⊕ ℕ)} {body : τ → Io (τ ⊕ ℕ)}
    (h : ∀ t, Forgets (body' t) (body t)) (r : τ ⊕ ℕ) :
    Forgets (Watch.resume body' r) (resume body r) := by
  cases r with
  | inl t => exact forgets_loop (μ := fun _ w => w.inp.rest.length) h t
  | inr n => exact forgets_pure n

theorem forgets_hadoopSnappyFormatUncompress (g : Globals) (skipMagic : Bool) :
    Forgets (Watch.hadoopSnappyFormatUncompress S g skipMagic)
      (hadoopSnappyFormatUncompress S g skipMagic) := by
  refine (forgets_quiet _).bind fun wb => forgets_ite ?_ (forgets_resume forgets_hadoopPass _)
  exact (forgets_afterReadingCompressedLen _ _ wb).bind (forgets_resume forgets_hadoopPass)

theorem keeps_afterReadingCompressedLen {wb : WorkBuffer} (h : Sized wb)
    (sourceLen compressedLen : ℕ) :
    Keeps Access.Fits (Watch.afterReadingCompressedLen S sourceLen compressedLen wb)
      fun r => r.elim (fun t => Sized t.2) fun _ => True := by
  refine (keeps_quiet (sized_growC h compressedLen)).bind ?_
  rintro wb₁ ⟨h₁, hc⟩
  refine (keeps_freadInto hc).bind fun c _ => ?_
  cases c with
  | none => exact keeps_pure trivial
  | some c =>
    simp only
    cases S.uncompressedLength c with
    | none => exact keeps_pure trivial
    | some l =>
      refine keeps_ite (fun _ => keeps_pure trivial) fun _ =>
        (keeps_quiet (sized_growUc h₁ l)).bind ?_
      rintro wb₂ ⟨h₂, hu⟩
      refine (keeps_uncompressInto hu c).bind fun u _ => ?_
      cases u with
      | none => exact keeps_pure trivial
      | some u =>
        exact (keeps_quiet_any _).bind fun ok _ => keeps_ite (fun _ => keeps_pure trivial)
          fun _ => keeps_pure h₂

theorem keeps_hadoopPass {t : ℕ × WorkBuffer} (h : Sized t.2) :
    Keeps Access.Fits (Watch.hadoopPass S t) fun r => r.elim (fun t => Sized t.2) fun _ =>
      True := by
  refine keeps_ite (fun _ => (keeps_freadInto (Nat.le_refl 4)).bind fun n _ => ?_)
    fun _ => (keeps_freadInto (Nat.le_refl 4)).bind fun n _ => ?_
  · cases n with
    | none => exact keeps_pure trivial
    | some n => exact keeps_afterReadingCompressedLen h _ _
  · cases n with
    | none =>
      exact (keeps_quiet_any _).bind fun eof _ => keeps_ite (fun _ => keeps_pure trivial)
        fun _ => keeps_pure trivial
    | some n => exact keeps_pure h

theorem keeps_hadoopSnappyFormatUncompress (g : Globals) (skipMagic : Bool) :
    Keeps Access.Fits (Watch.hadoopSnappyFormatUncompress S g skipMagic) fun _ => True := by
  have hresume : ∀ r : (ℕ × WorkBuffer) ⊕ ℕ, r.elim (fun t => Sized t.2) (fun _ => True) →
      Keeps Access.Fits (Watch.resume (Watch.hadoopPass S) r) fun _ => True := by
    rintro (t | n) hr
    · rw [Watch.resume]
      exact keeps_loop (T := fun t : ℕ × WorkBuffer => Sized t.2)
        (fun _ ht => keeps_hadoopPass ht) hr
    · exact keeps_pure trivial
  refine (keeps_quiet ((sized_workBufferInit _).mono (fun _ => id) fun _ _ h => h.1)).bind
    fun wb hwb => ?_
  exact keeps_ite (fun _ => (keeps_afterReadingCompressedLen hwb _ _).bind hresume)
    fun _ => hresume _ hwb

end Hadoop

section Comment43

variable {S}

theorem forgets_readBlock : Forgets Watch.readBlock readBlock := by
  refine (forgets_quiet _).bind fun type => ?_
  cases type with
  | none => exact forgets_pure _
  | some type =>
    refine (forgets_quiet _).bind fun c₀ => ?_
    cases c₀ with
    | none => exact forgets_pure _
    | some c₀ =>
      refine (forgets_quiet _).bind fun c₁ => ?_
      cases c₁ with
      | none => exact forgets_pure _
      | some c₁ =>
        refine forgets_ite (forgets_pure _) ((forgets_freadInto _ _).bind fun data => ?_)
        cases data with
        | none => exact forgets_pure _
        | some data => exact forgets_pure _

theorem forgets_processBlock (state : StreamState) (type : Byte) (data : Bytes) :
    Forgets (Watch.processBlock S state type data) (processBlock S state type data) := by
  have houtside : Forgets
      (if type ≠ 0xff#8 then pure .error else if data.length ≠ 6 then pure .error
        else if data ≠ comment43Magic then pure .error else pure .processing : Watched StreamState)
      (if type ≠ 0xff#8 then pure .error else if data.length ≠ 6 then pure .error
        else if data ≠ comment43Magic then pure .error else pure .processing : Io StreamState) :=
    forgets_ite (forgets_pure _) (forgets_ite (forgets_pure _)
      (forgets_ite (forgets_pure _) (forgets_pure _)))
  cases state with
  | error => exact forgets_pure _
  | initial => exact houtside
  | endOfStream => exact houtside
  | processing =>
    refine forgets_ite (forgets_ite (forgets_pure _) ((forgets_uncompressInto _).bind_pure ?_))
      (forgets_ite (forgets_ite (forgets_pure _) (forgets_quiet _))
        (forgets_ite (forgets_ite (forgets_pure _) (forgets_pure _)) (forgets_ite (forgets_pure _)
          (forgets_ite (forgets_pure _) (forgets_pure _)))))
    cases S.uncompress (data.drop 4) comment43WorkLen with
    | none => exact forgets_pure _
    | some work => exact forgets_quiet _

theorem forgets_comment43Uncompress (skipMagic : Bool) :
    Forgets (Watch.comment43Uncompress S skipMagic) (comment43Uncompress S skipMagic) := by
  refine forgets_ite (forgets_pure _) (forgets_loop
    (μ := fun (_ : StreamState) (w : World) => w.inp.rest.length) ?_ _)
  intro state
  refine forgets_readBlock.bind fun r => ?_
  cases r with
  | eof => exact forgets_ite (forgets_pure _) (forgets_pure _)
  | tooShortDataBlock => exact forgets_pure _
  | success type data =>
    exact (forgets_processBlock state type data).bind fun state =>
      forgets_ite (forgets_pure _) (forgets_pure _)

theorem keeps_readBlock : Keeps Access.Fits Watch.readBlock fun _ => True := by
  refine (keeps_quiet_any _).bind fun type _ => ?_
  cases type with
  | none => exact keeps_pure trivial
  | some type =>
    refine (keeps_quiet_any _).bind fun c₀ _ => ?_
    cases c₀ with
    | none => exact keeps_pure trivial
    | some c₀ =>
      refine (keeps_quiet_any _).bind fun c₁ _ => ?_
      cases c₁ with
      | none => exact keeps_pure trivial
      | some c₁ =>
        -- a length of 16 bits
        refine keeps_ite (fun _ => keeps_pure trivial) fun _ =>
          (keeps_freadInto (Nat.le_of_lt_succ (BitVec.isLt _))).bind fun data _ => ?_
        cases data with
        | none => exact keeps_pure trivial
        | some data => exact keeps_pure trivial

theorem keeps_processBlock (state : StreamState) (type : Byte) (data : Bytes) :
    Keeps Access.Fits (Watch.processBlock S state type data) fun _ => True := by
  have houtside : Keeps Access.Fits
      (if type ≠ 0xff#8 then pure .error else if data.length ≠ 6 then pure .error
        else if data ≠ comment43Magic then pure .error else pure .processing : Watched StreamState)
      fun _ => True :=
    keeps_ite (fun _ => keeps_pure trivial) fun _ => keeps_ite (fun _ => keeps_pure trivial)
      fun _ => keeps_ite (fun _ => keeps_pure trivial) fun _ => keeps_pure trivial
  cases state with
  | error => exact keeps_pure trivial
  | initial => exact houtside
  | endOfStream => exact houtside
  | processing =>
    refine keeps_ite (fun _ => keeps_ite (fun _ => keeps_pure trivial) fun _ =>
      (keeps_uncompressInto (Nat.le_refl _) _).bind fun work _ => ?_) fun _ => ?_
    · cases work with
      | none => exact keeps_pure trivial
      | some work => exact keeps_quiet_any _
    · refine keeps_ite (fun _ => keeps_ite (fun _ => keeps_pure trivial) fun _ => keeps_quiet_any _)
        fun _ => keeps_ite (fun _ => keeps_ite (fun _ => keeps_pure trivial)
          fun _ => keeps_pure trivial) fun _ => ?_
      exact keeps_ite (fun _ => keeps_pure trivial) fun _ => keeps_ite (fun _ => keeps_pure trivial)
        fun _ => keeps_pure trivial

theorem keeps_comment43Uncompress (skipMagic : Bool) :
    Keeps Access.Fits (Watch.comment43Uncompress S skipMagic) fun _ => True := by
  refine keeps_ite (fun _ => keeps_pure trivial) fun _ =>
    keeps_loop (T := fun _ => True) (fun state _ => ?_) trivial
  refine keeps_readBlock.bind fun r _ => ?_
  cases r with
  | eof => exact keeps_ite (fun _ => keeps_pure trivial) fun _ => keeps_pure trivial
  | tooShortDataBlock => exact keeps_pure trivial
  | success type data =>
    exact (keeps_processBlock state type data).bind fun state _ =>
      keeps_ite (fun _ => keeps_pure trivial) fun _ => keeps_pure trivial

end Comment43

/-! ## No call beyond the capacity -/

/-- The formats whose decoders read into a work buffer. -/
inductive WorkBuffered where
  | snzip
  | snappyJava
  | snappyInJava
  | hadoopSnappy
  | comment43

namespace WorkBuffered

/-- The format of the decoder. -/
def format : WorkBuffered → Format
  | snzip => .snzip
  | snappyJava => .snappyJava
  | snappyInJava => .snappyInJava
  | hadoopSnappy => .hadoopSnappy
  | comment43 => .comment43

/-- The decoder with its calls. -/
def watched (L : Library) (g : Globals) (skipMagic : Bool) : WorkBuffered → Watched ℕ
  | snzip => Watch.snzipUncompress L.snappy g skipMagic
  | snappyJava => Watch.snappyJavaUncompress L.snappy skipMagic
  | snappyInJava => Watch.snappyInJavaUncompress L.snappy skipMagic
  | hadoopSnappy => Watch.hadoopSnappyFormatUncompress L.snappy g skipMagic
  | comment43 => Watch.comment43Uncompress L.snappy skipMagic

variable (L : Library) (g : Globals) (skipMagic : Bool) (f : WorkBuffered)

theorem forgets_watched :
    Forgets (f.watched L g skipMagic) (f.format.uncompress L g skipMagic) := by
  cases f with
  | snzip => exact forgets_snzipUncompress g skipMagic
  | snappyJava => exact forgets_snappyJavaUncompress skipMagic
  | snappyInJava => exact forgets_snappyInJavaUncompress skipMagic
  | hadoopSnappy => exact forgets_hadoopSnappyFormatUncompress g skipMagic
  | comment43 => exact forgets_comment43Uncompress skipMagic

theorem keeps_watched : Keeps Access.Fits (f.watched L g skipMagic) fun _ => True := by
  cases f with
  | snzip => exact keeps_snzipUncompress g skipMagic
  | snappyJava => exact keeps_snappyJavaUncompress skipMagic
  | snappyInJava => exact keeps_snappyInJavaUncompress skipMagic
  | hadoopSnappy => exact keeps_hadoopSnappyFormatUncompress g skipMagic
  | comment43 => exact keeps_comment43Uncompress skipMagic

theorem format_ne_raw : f.format ≠ .raw := by cases f <;> simp [format]

end WorkBuffered

theorem uncompress_ne_diverge {L : Library} {f : Format} (hf : f ≠ .raw) (g : Globals)
    (skipMagic : Bool) {w : World} (hw : w.inp.Ok) :
    f.uncompress L g skipMagic w ≠ .diverge := by
  intro hd
  have hplay := refines_uncompress L g skipMagic f w hw
  rw [hd, Outcome.view_diverge, Script.playback] at hplay
  split at hplay
  · have hv := verdict_uncompress (L := L) hf g skipMagic w.inp.fault w.inp.rest
    generalize (f.uncompressScript L g skipMagic w.inp.fault w.inp.rest).verdict = v at hplay hv
    cases v with
    | status n | checked n | exit n => cases hplay
    | diverge => exact hv rfl
  · cases hplay

/-- **No call asks for more than the capacity of its buffer**: whatever the input holds, wherever it
ends and however little room the output has, the decoder with its calls is the decoder, and its run
comes to an end with calls that fit only. -/
theorem capacity_respected (f : WorkBuffered) (L : Library) (g : Globals) (skipMagic : Bool)
    (w : World) (hw : w.inp.Ok) :
    (f.watched L g skipMagic ⟨w, []⟩).view Logged.state = f.format.uncompress L g skipMagic w ∧
      (f.watched L g skipMagic ⟨w, []⟩).Ends (EachLogged Access.Fits) := by
  have hforgets := f.forgets_watched L g skipMagic
  exact ⟨hforgets ⟨w, []⟩, hforgets.ends (fun _ => (f.keeps_watched L g skipMagic).eachLogged)
    (eachLogged_nil w) (uncompress_ne_diverge f.format_ne_raw g skipMagic hw)⟩

/-- A chunk of the hadoop format whose declared length is not there. -/
theorem capacity_respected_short :
    (WorkBuffered.hadoopSnappy.watched ⟨literalSnappy, 0⟩ .initial false
      ⟨⟨.opened [0, 0, 0, 1, 0xff, 0xff, 0xff, 0xff, 0x61], .opened (.stdio 4096) none⟩, []⟩).Ends
      (EachLogged Access.Fits) :=
  (capacity_respected .hadoopSnappy ⟨literalSnappy, 0⟩ .initial false _ (InFile.ok_opened _)).2

end Snzip
