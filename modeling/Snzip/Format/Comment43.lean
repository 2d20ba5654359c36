import Snzip.Format.Framing

set_option autoImplicit false

/-!
# The comment-43 format

`comment-43-format.c`: streams of blocks, each stream with a header block and an end-of-stream
block. The decoder is a state machine over blocks.

* `comment43Compress`, **`refines_comment43Compress`**;
* `StreamState`, `readBlock`, `processBlock`: the state machine;
* `blockAction`, **`blockAction_write_iff`**, **`blockAction_next_iff`**: what it does with a block;
* `comment43Uncompress`, **`refines_comment43Uncompress`**.
-/

namespace Snzip

open CProg

variable (S : Snappy)

/-- `MAGIC`, the data of a header block. -/
def comment43Magic : Bytes := [0x73#8, 0x6e#8, 0x61#8, 0x70#8, 0x70#8, 0x79#8]

/-- The length of a block before it is compressed. -/
def comment43MaxRawDataLen : ℕ := 32768

/-- The size of the work buffer of the decoder. -/
def comment43WorkLen : ℕ := snappyMaxCompressedLength 65535

/-! ## Compression -/

/-- The end of `comment_43_compress`, after the loop. -/
def comment43Finish (ok : Bool) : Io ℕ := do
  if !ok then return 1
  if !(← feofIn) then return 1
  putcs [0xfe#8, 0x00#8, 0x00#8]
  if ← ferrorOut then return 1
  return 0

/-- `comment_43_compress`. -/
def comment43Compress (_blockSize : BitVec 64) : Io ℕ := do
  let maxLen := comment43MaxRawDataLen
  if !(malloc maxLen && malloc (snappyMaxCompressedLength maxLen)) then return 1
  putcs (0xff#8 :: leBytes 2 6)
  let _ ← fwrite comment43Magic
  let body := fun data => do
    putcs (chunkHead S 2 data)
    fwrite (chooseData S data).2
  whileFread maxLen body >>= comment43Finish

/-- What the compressor writes at the end of its input. -/
def comment43Tail (fault : Bool) : Script :=
  if fault then ⟨[], .status 1⟩ else ⟨[.putc [0xfe#8, 0x00#8, 0x00#8]], .checked 0⟩

/-- The writes for a block. -/
def comment43Writes (data : Bytes) : List Write :=
  [.putc (chunkHead S 2 data), .fwriteOk (chooseData S data).2]

/-- What the compressor does with a file. -/
def comment43Script (fault : Bool) (s : Bytes) : Script :=
  ((comment43Tail fault).after
    ((blocks comment43MaxRawDataLen s).flatMap (comment43Writes S))).after
    [.putc (0xff#8 :: leBytes 2 6), .fwrite comment43Magic]

theorem comment43Finish_refines {w : World} {fault : Bool} (h : w.inp.eof = !fault) :
    (comment43Finish true w).view World.out = (comment43Tail fault).playback w.out := by
  cases fault with
  | true => simp_all [comment43Finish, comment43Tail, Script.playback, playAll, Verdict.close]
  | false =>
    cases ho : (w.out.putcs [0xfe#8, 0x00#8, 0x00#8]).err <;>
      simp_all [comment43Finish, comment43Tail, Script.playback, playAll, Write.play, Verdict.close]

theorem refines_comment43Compress (blockSize : BitVec 64) :
    Refines (comment43Compress S blockSize) (comment43Script S) := by
  intro w hw
  have hm : (malloc comment43MaxRawDataLen &&
      malloc (snappyMaxCompressedLength comment43MaxRawDataLen)) = true := by decide
  have hloop := whileFread_bind (k := comment43Finish) (g := comment43Tail)
    (fun d => plays_putcs_fwrite (chunkHead S 2 d) (chooseData S d).2)
    (show 0 < comment43MaxRawDataLen by decide) (fun w => rfl)
    (fun w fault _ h => comment43Finish_refines h)
  unfold comment43Compress
  simp only [hm, Bool.not_true, Bool.false_eq_true, if_false, bind_apply, putcs_apply, fwrite_apply,
    Outcome.bind_ret]
  exact hloop ⟨w.inp, ((w.out.putcs (0xff#8 :: leBytes 2 6)).fwrite comment43Magic).2⟩ hw

/-! ## Decompression -/

/-- The states of the decoder. -/
inductive StreamState where
  | error
  | initial
  | processing
  | endOfStream
  deriving DecidableEq

/-- The result of `read_block`: the type and the data of a block, or why there is none. -/
inductive ReadBlock where
  | success (type : Byte) (data : Bytes)
  | tooShortDataBlock
  | eof

/-- The data of a block, after its length. -/
def readBlockData (type : Byte) (dataLen : BitVec 16) : Io ReadBlock := do
  if dataLen.toNat = 0 then return .success type []
  match ← fread dataLen.toNat with
  | none => return .tooShortDataBlock
  | some data => return .success type data

/-- `read_block`. -/
def readBlock : Io ReadBlock := do
  match ← getc with
  | none => return .eof
  | some type =>
    match ← getc with
    | none => return .tooShortDataBlock
    | some c₀ =>
      match ← getc with
      | none => return .tooShortDataBlock
      | some c₁ => readBlockData type (c₀.setWidth 16 ||| c₁.setWidth 16 <<< 8)

/-- The checksum and the `fwrite` of a data block. -/
def writeBlockData (content data : Bytes) : Io StreamState := do
  if leWord data ≠ maskedCrc32c content then return .error
  if !(← fwrite content) then return .error
  return .processing

/-- `process_block`. -/
def processBlock (state : StreamState) (type : Byte) (data : Bytes) : Io StreamState :=
  match state with
  | .error => pure .error
  | .initial | .endOfStream =>
    if type ≠ 0xff#8 then pure .error
    else if data.length ≠ 6 then pure .error
    else if data ≠ comment43Magic then pure .error
    else pure .processing
  | .processing =>
    if type = 0x00#8 then
      if data.length ≤ 4 then pure .error
      else match S.uncompress (data.drop 4) comment43WorkLen with
        | none => pure .error
        | some work => writeBlockData work data
    else if type = 0x01#8 then
      if data.length ≤ 4 then pure .error else writeBlockData (data.drop 4) data
    else if type = 0xfe#8 then
      if data.length ≠ 0 then pure .error else pure .endOfStream
    else if type = 0xff#8 then pure .error
    else if type.toNat < 0x80 then pure .error
    else pure .processing

/-- A pass of `while (state != ERROR_STATE)`, with the test at its end. -/
def comment43Pass (state : StreamState) : Io (StreamState ⊕ ℕ) := do
  match ← readBlock with
  | .eof => if state = .endOfStream then return .inr 0 else return .inr 1
  | .tooShortDataBlock => return .inr 1
  | .success type data =>
    let state ← processBlock S state type data
    if state = .error then return .inr 1
    return .inl state

/-- `comment_43_uncompress`. -/
def comment43Uncompress (skipMagic : Bool) : Io ℕ := do
  if !malloc comment43WorkLen then return 1
  let state := if skipMagic then StreamState.processing else .initial
  loop (fun _ w => w.inp.rest.length) (comment43Pass S) state

/-- What a block does to the state machine: nothing good, a new state, or a content to write. -/
inductive BlockAction where
  | bad
  | next (state : StreamState)
  | write (content : Bytes)

/-- What comes of a content with its checksum in front. -/
def checkedAction (content data : Bytes) : BlockAction :=
  if leWord data ≠ maskedCrc32c content then .bad else .write content

/-- What `process_block` does with a block. -/
def blockAction (state : StreamState) (type : Byte) (data : Bytes) : BlockAction :=
  match state with
  | .error => .bad
  | .initial | .endOfStream =>
    if type = 0xff#8 ∧ data = comment43Magic then .next .processing else .bad
  | .processing =>
    if type = 0x00#8 then
      if data.length ≤ 4 then .bad
      else match S.uncompress (data.drop 4) comment43WorkLen with
        | none => .bad
        | some work => checkedAction work data
    else if type = 0x01#8 then
      if data.length ≤ 4 then .bad else checkedAction (data.drop 4) data
    else if type = 0xfe#8 then
      if data.length ≠ 0 then .bad else .next .endOfStream
    else if type = 0xff#8 ∨ type.toNat < 0x80 then .bad
    else .next .processing

section BlockAction

variable {S} {type : Byte} {data : Bytes}

theorem checkedAction_write_iff {u v : Bytes} :
    checkedAction u data = .write v ↔ leWord data = maskedCrc32c u ∧ v = u := by
  unfold checkedAction
  split
  · next h => simp [h]
  · next h =>
    rw [BlockAction.write.injEq]
    exact ⟨fun hv => ⟨not_not.mp h, hv.symm⟩, fun hv => hv.2.symm⟩

theorem checkedAction_ne_next {u : Bytes} {state : StreamState} :
    checkedAction u data ≠ .next state := by
  unfold checkedAction
  split <;> simp

/-- **The blocks with a content**: it has the checksum in front of the data. -/
theorem blockAction_write_iff {u : Bytes} :
    blockAction S .processing type data = .write u ↔
      type = 0x00#8 ∧ 4 < data.length ∧ S.uncompress (data.drop 4) comment43WorkLen = some u ∧
          leWord data = maskedCrc32c u ∨
        type = 0x01#8 ∧ 4 < data.length ∧ leWord data = maskedCrc32c (data.drop 4) ∧
          u = data.drop 4 := by
  simp only [blockAction]
  by_cases h0 : type = 0x00#8
  · rw [if_pos h0]
    subst h0
    by_cases h4 : data.length ≤ 4
    · rw [if_pos h4]
      simp [Nat.not_lt.mpr h4]
    rw [if_neg h4]
    cases hu : S.uncompress (data.drop 4) comment43WorkLen with
    | none => simp
    | some v =>
      simp only [checkedAction_write_iff, Nat.lt_of_not_le h4, Option.some.injEq, true_and,
        show ¬ (0x00#8 = 0x01#8) by decide, false_and, or_false]
      constructor
      · rintro ⟨h, e⟩
        exact ⟨e.symm, e ▸ h⟩
      · rintro ⟨e, h⟩
        exact ⟨e ▸ h, e.symm⟩
  rw [if_neg h0]
  by_cases h1 : type = 0x01#8
  · rw [if_pos h1]
    by_cases h4 : data.length ≤ 4
    · rw [if_pos h4]
      simp [h0, Nat.not_lt.mpr h4]
    rw [if_neg h4, checkedAction_write_iff]
    simp [h1, Nat.lt_of_not_le h4]
  rw [if_neg h1]
  simp only [h0, h1, false_and, or_false, iff_false]
  split
  · split <;> simp
  split <;> simp

/-- **The blocks without one.** -/
theorem blockAction_next_iff {state : StreamState} :
    blockAction S .processing type data = .next state ↔
      type = 0xfe#8 ∧ data = [] ∧ state = .endOfStream ∨
        (0x80 ≤ type.toNat ∧ type.toNat ≤ 0xfd) ∧ state = .processing := by
  have hlt := type.isLt
  have hfd : type.toNat ≤ 0xfd ↔ type ≠ 0xfe#8 ∧ type ≠ 0xff#8 := by
    rw [Ne, Ne, ← BitVec.toNat_inj, ← BitVec.toNat_inj, BitVec.toNat_ofNat, BitVec.toNat_ofNat]
    omega
  rw [hfd]
  simp only [blockAction]
  by_cases h0 : type = 0x00#8
  · rw [if_pos h0]
    subst h0
    have : ∀ a : BlockAction, a ≠ .next state → (a = .next state ↔ False) := fun a h => by simp [h]
    rw [this]
    · simp
    · split
      · simp
      split
      · simp
      · exact checkedAction_ne_next
  rw [if_neg h0]
  by_cases h1 : type = 0x01#8
  · rw [if_pos h1]
    subst h1
    split
    · simp
    · simp [checkedAction_ne_next]
  rw [if_neg h1]
  by_cases hfe : type = 0xfe#8
  · rw [if_pos hfe]
    by_cases hd : data.length ≠ 0
    · rw [if_pos hd]
      have : data ≠ [] := fun h => hd (congrArg List.length h)
      simp [hfe, this]
    · rw [if_neg hd, BlockAction.next.injEq]
      have : data = [] := List.length_eq_zero_iff.mp (not_not.mp hd)
      simp [hfe, this, eq_comm]
  rw [if_neg hfe]
  by_cases hbad : type = 0xff#8 ∨ type.toNat < 0x80
  · rw [if_pos hbad]
    simp only [reduceCtorEq, hfe, false_and, false_or, false_iff]
    rintro ⟨⟨h80, -, hff⟩, -⟩
    exact hbad.elim hff (fun h => absurd h80 (Nat.not_le.mpr h))
  · rw [if_neg hbad, BlockAction.next.injEq]
    have hff : type ≠ 0xff#8 := fun h => hbad (Or.inl h)
    have h80 : 0x80 ≤ type.toNat := Nat.le_of_not_lt fun h => hbad (Or.inr h)
    simp [hfe, hff, h80, eq_comm]

theorem blockAction_header {state : StreamState} (h : state = .initial ∨ state = .endOfStream) :
    blockAction S state type data =
      if type = 0xff#8 ∧ data = comment43Magic then .next .processing else .bad := by
  rcases h with rfl | rfl <;> rfl

end BlockAction

/-- A pass as a function of the bytes. An empty content cannot be written. -/
def comment43PassOf (state : StreamState) (s : Bytes) : Pass StreamState :=
  if s = [] then .finish ⟨[], .status (if state = .endOfStream then 0 else 1)⟩
  else match splitChunk 2 s with
    | none => .finish ⟨[], .status 1⟩
    | some (type, data, rest) =>
      match blockAction S state type data with
      | .bad => .finish ⟨[], .status 1⟩
      | .next state => .again [] state rest
      | .write c =>
        if c = [] then .finish ⟨[], .status 1⟩ else .again [.fwriteOk c] .processing rest

section Loop

variable {S} {w : World}

theorem toNat_dataLen (c₀ c₁ : Byte) :
    (c₀.setWidth 16 ||| c₁.setWidth 16 <<< 8 : BitVec 16).toNat = leVal [c₀, c₁] := by
  have h₀ : c₀.toNat < 2 ^ 8 := c₀.isLt
  have h₁ : c₁.toNat < 2 ^ 8 := c₁.isLt
  have hs : (c₁.setWidth 16 <<< 8 : BitVec 16).toNat = 2 ^ 8 * c₁.toNat := by
    rw [BitVec.toNat_shiftLeft, BitVec.toNat_setWidth, Nat.shiftLeft_eq]
    omega
  rw [BitVec.toNat_or, hs, BitVec.toNat_setWidth, Nat.mod_eq_of_lt (by omega), Nat.or_comm,
    ← Nat.two_pow_add_eq_or_of_lt h₀]
  simp only [leVal]
  omega

theorem readBlock_eof (h : w.inp.rest = []) :
    readBlock w = .ret .eof { w with inp := w.inp.hitEnd } := by
  rw [readBlock, bind_apply, getc_nil h]
  rfl

theorem readBlock_cons {type c₀ c₁ : Byte} {s : Bytes} (h : w.inp.rest = type :: c₀ :: c₁ :: s) :
    readBlock w = readBlockData type (c₀.setWidth 16 ||| c₁.setWidth 16 <<< 8)
      { w with inp := { w.inp with rest := s } } := by
  simp [readBlock, InFile.getc, h]

theorem readBlock_short (hne : w.inp.rest ≠ []) (h : splitChunk 2 w.inp.rest = none) :
    ∃ i, readBlock w = .ret .tooShortDataBlock { w with inp := i } := by
  rcases hr : w.inp.rest with _ | ⟨type, _ | ⟨c₀, _ | ⟨c₁, s⟩⟩⟩
  · exact absurd hr hne
  · exact ⟨w.inp.hitEnd, by simp [readBlock, InFile.getc, InFile.hitEnd, hr]⟩
  · exact ⟨w.inp.hitEnd, by simp [readBlock, InFile.getc, InFile.hitEnd, hr]⟩
  · rw [hr, splitChunk] at h
    split at h
    · cases h
    · next hc =>
      have hlt : s.length < leVal [c₀, c₁] := by
        by_contra hle
        exact hc ⟨by simp, by simpa using hle⟩
      rw [readBlock_cons hr, readBlockData, toNat_dataLen, if_neg (by omega), bind_apply,
        fread_short hlt]
      exact ⟨_, rfl⟩

theorem readBlock_success {type : Byte} {data rest : Bytes}
    (h : splitChunk 2 w.inp.rest = some (type, data, rest)) :
    readBlock w = .ret (.success type data) { w with inp := { w.inp with rest := rest } } := by
  rcases hr : w.inp.rest with _ | ⟨t, _ | ⟨c₀, _ | ⟨c₁, s⟩⟩⟩
  · rw [hr] at h
    cases h
  · rw [hr] at h
    cases h
  · rw [hr] at h
    cases h
  · rw [hr] at h
    obtain ⟨-, hle, hp⟩ := splitChunk_cons h
    simp only [List.take_succ_cons, List.take_zero, List.drop_succ_cons, List.drop_zero,
      Prod.mk.injEq] at hle hp
    obtain ⟨rfl, rfl, rfl⟩ := hp
    rw [readBlock_cons hr, readBlockData, toNat_dataLen]
    by_cases h0 : leVal [c₀, c₁] = 0
    · rw [if_pos h0, h0]
      rfl
    · rw [if_neg h0, bind_apply, fread_eq h0 hle]
      rfl

/-- `fwrite` at the end of `process_block`. -/
def writeTail (c : Bytes) : Io StreamState := do
  if !(← fwrite c) then return .error
  return .processing

/-- `process_block` does what the action says. -/
def ActsAs (w : World) (o : Outcome World StreamState) : BlockAction → Prop
  | .bad => o = .ret .error w
  | .next state => state ≠ .error ∧ o = .ret state w
  | .write c => o = writeTail c w

theorem acts_writeBlockData (w : World) (content data : Bytes) :
    ActsAs w (writeBlockData content data w) (checkedAction content data) := by
  unfold writeBlockData checkedAction
  by_cases h : leWord data ≠ maskedCrc32c content
  · rw [if_pos h, if_pos h]
    rfl
  · rw [if_neg h, if_neg h]
    rfl

theorem ActsAs.ite {p : Prop} [Decidable p] {m m' : Io StreamState} {a a' : BlockAction}
    (ht : p → ActsAs w (m w) a) (he : ¬p → ActsAs w (m' w) a') :
    ActsAs w ((if p then m else m') w) (if p then a else a') := by
  by_cases h : p
  · rw [if_pos h, if_pos h]
    exact ht h
  · rw [if_neg h, if_neg h]
    exact he h

theorem acts_header (w : World) (type : Byte) (data : Bytes) :
    ActsAs w ((if type ≠ 0xff#8 then pure .error
      else if data.length ≠ 6 then pure .error
      else if data ≠ comment43Magic then pure .error
      else pure .processing : Io StreamState) w)
      (if type = 0xff#8 ∧ data = comment43Magic then .next .processing else .bad) := by
  by_cases h : type = 0xff#8 ∧ data = comment43Magic
  · obtain ⟨rfl, rfl⟩ := h
    exact ⟨by decide, rfl⟩
  rw [if_neg h]
  by_cases ht : type ≠ 0xff#8
  · rw [if_pos ht]
    rfl
  rw [if_neg ht]
  by_cases hl : data.length ≠ 6
  · rw [if_pos hl]
    rfl
  rw [if_neg hl, if_pos fun hd => h ⟨not_not.mp ht, hd⟩]
  rfl

theorem acts_uncompress (w : World) (data : Bytes) :
    ActsAs w ((match S.uncompress (data.drop 4) comment43WorkLen with
      | none => pure .error
      | some work => writeBlockData work data : Io StreamState) w)
      (match S.uncompress (data.drop 4) comment43WorkLen with
      | none => .bad
      | some work => checkedAction work data) := by
  cases S.uncompress (data.drop 4) comment43WorkLen with
  | none => rfl
  | some work => exact acts_writeBlockData w work data

theorem acts_reserved (w : World) (type : Byte) :
    ActsAs w ((if type = 0xff#8 then pure .error
      else if type.toNat < 0x80 then pure .error
      else pure .processing : Io StreamState) w)
      (if type = 0xff#8 ∨ type.toNat < 0x80 then .bad else .next .processing) := by
  by_cases hff : type = 0xff#8
  · rw [if_pos hff, if_pos (Or.inl hff)]
    rfl
  rw [if_neg hff]
  by_cases hlt : type.toNat < 0x80
  · rw [if_pos hlt, if_pos (Or.inr hlt)]
    rfl
  · rw [if_neg hlt, if_neg (not_or.mpr ⟨hff, hlt⟩)]
    exact ⟨by decide, rfl⟩

theorem acts_processBlock (w : World) (state : StreamState) (type : Byte) (data : Bytes) :
    ActsAs w (processBlock S state type data w) (blockAction S state type data) := by
  cases state with
  | error => rfl
  | initial => exact acts_header w type data
  | endOfStream => exact acts_header w type data
  | processing =>
    unfold processBlock blockAction
    refine .ite (fun _ => ?_) fun _ => .ite (fun _ => ?_) fun _ => .ite (fun _ => ?_) fun _ => ?_
    · -- a compressed block
      exact .ite (fun _ => rfl) fun _ => acts_uncompress w data
    · -- an uncompressed block
      exact .ite (fun _ => rfl) fun _ => acts_writeBlockData w (data.drop 4) data
    · -- the end of the stream
      exact .ite (fun _ => rfl) fun _ => ⟨by decide, rfl⟩
    · exact acts_reserved w type

theorem follows_comment43Pass (hw : w.inp.Ok) (state : StreamState) :
    Follows (fun r t => r = t) (fun n => pure n) w (comment43PassOf S state w.inp.rest)
      (comment43Pass S state w) := by
  unfold comment43PassOf comment43Pass
  rw [bind_apply]
  by_cases hne : w.inp.rest = []
  · rw [if_pos hne, readBlock_eof hne, Outcome.bind_ret]
    simp only
    by_cases hst : state = .endOfStream
    · rw [if_pos hst, if_pos hst]
      exact follows_status rfl
    · rw [if_neg hst, if_neg hst]
      exact follows_status rfl
  rw [if_neg hne]
  cases hs : splitChunk 2 w.inp.rest with
  | none =>
    obtain ⟨i, hi⟩ := readBlock_short hne hs
    rw [hi]
    exact follows_status rfl
  | some p =>
    obtain ⟨type, data, rest⟩ := p
    have hlt := length_splitChunk hs
    rw [readBlock_success hs, Outcome.bind_ret]
    simp only
    have hact := acts_processBlock (S := S) { w with inp := { w.inp with rest := rest } } state
      type data
    rw [bind_apply]
    cases ha : blockAction S state type data with
    | bad =>
      rw [ha] at hact
      rw [show processBlock S state type data _ = _ from hact, Outcome.bind_ret]
      exact follows_status rfl
    | next st =>
      rw [ha] at hact
      rw [show processBlock S state type data _ = _ from hact.2, Outcome.bind_ret, if_neg hact.1]
      exact .again (v := []) rfl (hw.drop hne rest) rfl rfl hlt rfl
    | write c =>
      rw [ha] at hact
      have hwrite := follows_fwriteOk (R := fun (r t : StreamState) => r = t) hw hne hlt
        (r := .processing) (t := .processing) rfl c
      rw [show processBlock S state type data _ = _ from hact]
      convert hwrite using 1
      unfold writeTail
      simp only [bind_apply, fwrite_apply, Outcome.bind_ret, ite_prog, pure_apply]
      cases (w.out.fwrite c).1 <;> simp

end Loop

/-- What the decoder does with a stream. -/
def comment43Unscript (skipMagic _fault : Bool) (s : Bytes) : Script :=
  unroll (comment43PassOf S) (if skipMagic then StreamState.processing else .initial) s

theorem refines_comment43Uncompress (skipMagic : Bool) :
    Refines (comment43Uncompress S skipMagic) (comment43Unscript S skipMagic) := by
  intro w hw
  have hm : malloc comment43WorkLen = true := by decide
  unfold comment43Uncompress comment43Unscript
  simp only [hm, Bool.not_true, Bool.false_eq_true, if_false]
  exact loop_follows_pure (R := fun (r t : StreamState) => r = t)
    (p := fun _ => comment43PassOf S)
    (fun r t w hR hw => by subst hR; exact follows_comment43Pass hw r) rfl hw

end Snzip
