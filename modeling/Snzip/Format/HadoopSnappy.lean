import Snzip.Codec
import Snzip.Format.Chunk

set_option autoImplicit false

/-!
# The hadoop-snappy format

`hadoop-snappy-format.c`: blocks with their length before compression, each cut into sub-blocks
with their compressed length, all lengths in 32 bits, most significant byte first.

* `hadoopSnappyMaxInputSize`: the block size that is used;
* `hadoopSnappyFormatCompress`, **`refines_hadoopSnappyFormatCompress`**;
* `hadoopPassOf`, **`hadoopPassOf_again_iff`**, **`hadoopPassOf_finish`**: what a pass can do;
* `hadoopSnappyFormatUncompress`, **`refines_hadoopSnappyFormatUncompress`**.
-/

namespace Snzip

open CProg

variable (S : Snappy)

/-- `SNAPPY_BUFFER_SIZE_DEFAULT`. -/
def snappyBufferSizeDefault : BitVec 64 := 262144#64

/-- `hadoop_snappy_max_input_size`; 0 stands for the default. -/
def hadoopSnappyMaxInputSize (blockSize : BitVec 64) : BitVec 64 :=
  let bufferSize := if blockSize ≠ 0#64 then blockSize else snappyBufferSizeDefault
  let compressionOverhead := bufferSize / 6#64 + 32#64
  bufferSize - compressionOverhead

/-! ## Compression -/

/-- The number is converted to `unsigned int`. -/
def writeNum (num : ℕ) : Io Bool := fwrite (beBytes 4 num)

/-- `hadoop_snappy_format_compress`. -/
def hadoopSnappyFormatCompress (blockSize : BitVec 64) : Io ℕ := do
  let wb ← workBufferInit (hadoopSnappyMaxInputSize blockSize)
  let body := fun data => do
    if !(← writeNum data.length) then return false
    if !(← writeNum (S.compress data).length) then return false
    fwrite (S.compress data)
  whileFread wb.uclen body >>= afterChunks

/-- The writes for a block. -/
def hadoopWrites (data : Bytes) : List Write :=
  [.fwriteOk (beBytes 4 data.length), .fwriteOk (beBytes 4 (S.compress data).length),
    .fwriteOk (S.compress data)]

/-- Nothing is read with a block size of 0. -/
def hadoopScript (blockSize : BitVec 64) (fault : Bool) (s : Bytes) : Script :=
  let n := (hadoopSnappyMaxInputSize blockSize).toNat
  if !(malloc n && malloc (snappyMaxCompressedLength n)) then ⟨[], .exit 1⟩
  else if n = 0 then ⟨[], .checked 0⟩
  else (Script.mk [] (if fault then .status 1 else .checked 0)).after
    ((blocks n s).flatMap (hadoopWrites S))

theorem plays_hadoop (data : Bytes) :
    Plays (do
      if !(← writeNum data.length) then return false
      if !(← writeNum (S.compress data).length) then return false
      fwrite (S.compress data)) (hadoopWrites S data) := by
  intro w
  unfold writeNum hadoopWrites
  cases h₁ : w.out.fwrite (beBytes 4 data.length) with
  | mk ok₁ o₁ =>
    cases ok₁ with
    | false => simp [h₁, playAll, Write.play]
    | true =>
      cases h₂ : o₁.fwrite (beBytes 4 (S.compress data).length) with
      | mk ok₂ o₂ =>
        cases ok₂ with
        | false => simp [h₁, h₂, playAll, Write.play]
        | true =>
          cases h₃ : o₂.fwrite (S.compress data) with
          | mk ok₃ o₃ => cases ok₃ <;> simp [h₁, h₂, h₃, playAll, Write.play]

theorem refines_hadoopSnappyFormatCompress (blockSize : BitVec 64) :
    RefinesFresh (hadoopSnappyFormatCompress S blockSize) (hadoopScript S blockSize) := by
  intro w hw herr
  unfold hadoopSnappyFormatCompress hadoopScript
  generalize hadoopSnappyMaxInputSize blockSize = b
  rw [bind_apply]
  by_cases hm : (malloc b.toNat && malloc (snappyMaxCompressedLength b.toNat)) = true
  · rw [workBufferInit_ok hm, Outcome.bind_ret]
    simp only [hm, Bool.not_true, Bool.false_eq_true, if_false]
    by_cases h0 : b.toNat = 0
    · -- `fread` asks for no bytes and returns 0
      have hread : w.inp.freadBytes 0 = ([], w.inp) := by simp [InFile.freadBytes]
      rw [if_pos h0, h0, bind_apply, whileFread_nil w (congrArg Prod.fst hread), hread,
        Outcome.bind_ret]
      rw [afterChunks_true, herr]
      cases ho : w.out.err <;> simp [Script.playback, playAll, Verdict.close, ho]
    · rw [if_neg h0]
      exact whileFread_bind (k := afterChunks)
        (g := fun fault => ⟨[], if fault then .status 1 else .checked 0⟩) (plays_hadoop S)
        (Nat.pos_of_ne_zero h0) (fun w => rfl) (fun w fault h _ => afterChunks_refines h) w hw
  · rw [workBufferInit_fail hm]
    simp [hm, Script.playback, playAll, Verdict.close]

/-! ## Decompression -/

/-- From the label `after_reading_compressed_len` to the end of the inner loop. -/
def afterReadingCompressedLen (sourceLen compressedLen : ℕ) (wb : WorkBuffer) :
    Io ((ℕ × WorkBuffer) ⊕ ℕ) := do
  let wb ← growC wb compressedLen
  match ← readData compressedLen with
  | none => return .inr 1
  | some c =>
    match S.uncompressedLength c with
    | none => return .inr 1
    | some uncompressedLen =>
      if uncompressedLen > sourceLen then return .inr 1
      let wb ← growUc wb uncompressedLen
      match S.uncompress c uncompressedLen with
      | none => return .inr 1
      | some u =>
        if !(← fwrite u) then return .inr 1
        return .inl (sourceLen - u.length, wb)

/-- The two loops as one: a pass of the inner loop while `source_len > 0`, and otherwise the head of
the outer loop. -/
def hadoopPass (t : ℕ × WorkBuffer) : Io ((ℕ × WorkBuffer) ⊕ ℕ) := do
  if t.1 > 0 then
    match ← readData 4 with
    | none => return .inr 1
    | some n => afterReadingCompressedLen S t.1 (beVal n) t.2
  else
    match ← fread 4 with
    | none => if ← feofIn then return .inr 0 else return .inr 1
    | some n => return .inl (beVal n, t.2)

/-- `hadoop_snappy_format_uncompress`. -/
def hadoopSnappyFormatUncompress (g : Globals) (skipMagic : Bool) : Io ℕ := do
  let wb ← workBufferInit (hadoopSnappyMaxInputSize 0#64)
  if skipMagic then
    -- `goto after_reading_compressed_len`
    afterReadingCompressedLen S g.hadoopSnappySourceLength.toNat
      g.hadoopSnappyCompressedLength.toNat wb >>= resume (hadoopPass S)
  else resume (hadoopPass S) (.inl (0, wb))

/-- A sub-block, after its length `m`, of a block with `n` bytes to go. -/
def subBlock (n m : ℕ) (s : Bytes) : Pass ℕ :=
  if m = 0 ∨ s.length < m then .finish ⟨[], .status 1⟩
  else match S.uncompressWithin (s.take m) n with
    | none => .finish ⟨[], .status 1⟩
    | some u =>
      if u = [] then .finish ⟨[], .status 1⟩
      else .again [.fwriteOk u] (n - u.length) (s.drop m)

/-- A pass as a function of the bytes; the state is `source_len`. -/
def hadoopPassOf (fault : Bool) (n : ℕ) (s : Bytes) : Pass ℕ :=
  if n > 0 then
    if s.length < 4 then .finish ⟨[], .status 1⟩
    else subBlock S n (beVal (s.take 4)) (s.drop 4)
  else if s.length < 4 then .finish ⟨[], .status (if fault then 1 else 0)⟩
  else .again [] (beVal (s.take 4)) (s.drop 4)

section Loop

variable {S} {w : World}

theorem beVal_take_lt (s : Bytes) : beVal (s.take 4) < 2 ^ 32 := by
  have h := beVal_lt (s.take 4)
  have hle : (s.take 4).length ≤ 4 := List.length_take_le 4 s
  exact Nat.lt_of_lt_of_le h (Nat.pow_le_pow_right (by decide) hle)

theorem follows_subBlock (hw : w.inp.Ok) {s : Bytes} (hs : s.length ≤ w.inp.rest.length) {n m : ℕ}
    (hm : m < 2 ^ 32) (wb : WorkBuffer) :
    Follows (fun n (t : ℕ × WorkBuffer) => t.1 = n) (fun n => pure n) w (subBlock S n m s)
      (afterReadingCompressedLen S n m wb { w with inp := { w.inp with rest := s } }) := by
  obtain ⟨wb₁, hwb₁, -⟩ := growC_ret wb (show m < 2 ^ 62 by omega)
    { w with inp := { w.inp with rest := s } }
  unfold subBlock afterReadingCompressedLen
  rw [bind_apply, hwb₁, Outcome.bind_ret, bind_apply]
  by_cases hread : m = 0 ∨ s.length < m
  · rw [if_pos hread]
    rcases hread with h0 | hlt
    · rw [readData, h0, fread_zero]
      exact follows_status rfl
    · rw [readData_short (by simpa using hlt)]
      exact follows_status rfl
  have hm0 : m ≠ 0 := fun h => hread (Or.inl h)
  have hle : m ≤ s.length := Nat.le_of_not_lt fun h => hread (Or.inr h)
  rw [if_neg hread, readData_eq hm0 hle, Outcome.bind_ret]
  unfold Snappy.uncompressWithin
  simp only
  cases hl : S.uncompressedLength (s.take m) with
  | none => exact follows_status rfl
  | some l =>
    simp only
    by_cases hln : l > n
    · rw [if_pos hln, if_pos hln]
      exact follows_status rfl
    obtain ⟨wb₂, hwb₂, -⟩ := growUc_ret wb₁ (Nat.lt_trans (S.uncompressedLength_lt hl) (by decide))
      { w with inp := { w.inp with rest := s.drop m } }
    rw [if_neg hln, if_neg hln, bind_apply, hwb₂, Outcome.bind_ret]
    cases hu : S.uncompress (s.take m) l with
    | none => exact follows_status rfl
    | some u =>
      have hne : w.inp.rest ≠ [] := fun h0 => by
        rw [h0, List.length_nil] at hs
        omega
      have hlt : (s.drop m).length < w.inp.rest.length := by
        rw [List.length_drop]
        omega
      exact follows_fwriteOk hw hne hlt (R := fun n (t : ℕ × WorkBuffer) => t.1 = n)
        (t := (n - u.length, wb₂)) rfl u

theorem follows_hadoopPass (hw : w.inp.Ok) (t : ℕ × WorkBuffer) :
    Follows (fun n (t : ℕ × WorkBuffer) => t.1 = n) (fun n => pure n) w
      (hadoopPassOf S w.inp.fault t.1 w.inp.rest) (hadoopPass S t w) := by
  unfold hadoopPassOf hadoopPass
  by_cases ht : t.1 > 0
  · rw [if_pos ht, if_pos ht, bind_apply]
    by_cases h4 : w.inp.rest.length < 4
    · rw [if_pos h4, readData_short h4]
      exact follows_status rfl
    · rw [if_neg h4, readData_eq (by decide) (Nat.le_of_not_lt h4), Outcome.bind_ret]
      exact follows_subBlock hw (by rw [List.length_drop]; omega) (beVal_take_lt _) _
  · rw [if_neg ht, if_neg ht, bind_apply]
    by_cases h4 : w.inp.rest.length < 4
    · rw [if_pos h4, fread_short h4, Outcome.bind_ret]
      simp only [bind_apply, feofIn_apply, Outcome.bind_ret, hw.eof_hitEnd]
      cases w.inp.fault <;> exact follows_status rfl
    · have hne : w.inp.rest ≠ [] := fun h0 => h4 (by rw [h0]; decide)
      rw [if_neg h4, fread_eq (by decide) (Nat.le_of_not_lt h4), Outcome.bind_ret]
      refine .again (v := []) rfl (hw.drop hne _) rfl rfl ?_ rfl
      rw [List.length_drop]
      omega

end Loop

/-! ### What a pass can do -/

section Passes

variable {S} {fault : Bool} {n m n' : ℕ} {s rest : Bytes} {ws : List Write}

theorem take_beBytes {n : ℕ} (h : n < 2 ^ 32) (rest : Bytes) :
    ¬ (beBytes 4 n ++ rest).length < 4 ∧ beVal ((beBytes 4 n ++ rest).take 4) = n ∧
      (beBytes 4 n ++ rest).drop 4 = rest := by
  have h4 : (beBytes 4 n).length = 4 := length_beBytes 4 n
  refine ⟨by rw [List.length_append, h4]; omega, ?_, List.drop_left' h4⟩
  rw [List.take_left' h4, beVal_beBytes (by omega)]

theorem beBytes_take (h : ¬ s.length < 4) : s = beBytes 4 (beVal (s.take 4)) ++ s.drop 4 := by
  have hbe := beBytes_beVal (s.take 4)
  rw [List.length_take_of_le (Nat.le_of_not_lt h)] at hbe
  rw [hbe, List.take_append_drop]

/-- **A sub-block that is read.** -/
theorem subBlock_again_iff :
    subBlock S n m s = .again ws n' rest ↔ ∃ c u, s = c ++ rest ∧ c.length = m ∧ c ≠ [] ∧
      S.uncompressWithin c n = some u ∧ u ≠ [] ∧ ws = [.fwriteOk u] ∧ n' = n - u.length := by
  unfold subBlock
  constructor
  · intro h
    split at h
    · cases h
    next hread =>
    split at h
    · cases h
    next u hu =>
    split at h
    · cases h
    next hne =>
    cases h
    have hm : m ≤ s.length := Nat.le_of_not_lt fun hlt => hread (Or.inr hlt)
    have htake : (s.take m).length = m := List.length_take_of_le hm
    refine ⟨s.take m, u, (List.take_append_drop m s).symm, htake, ?_, hu, hne, rfl, rfl⟩
    rw [ne_eq, ← List.length_eq_zero_iff, htake]
    exact fun h0 => hread (Or.inl h0)
  · rintro ⟨c, u, rfl, rfl, hc, hu, hne, rfl, rfl⟩
    have hread : ¬ (c.length = 0 ∨ (c ++ rest).length < c.length) := by
      rw [List.length_append, List.length_eq_zero_iff]
      rintro (h0 | hlt)
      · exact hc h0
      · omega
    rw [if_neg hread, List.take_left, List.drop_left, hu]
    exact if_neg hne

theorem subBlock_finish {sc : Script} (h : subBlock S n m s = .finish sc) :
    sc = ⟨[], .status 1⟩ := by
  unfold subBlock at h
  split at h
  · cases h
    rfl
  split at h
  · cases h
    rfl
  split at h
  · cases h
    rfl
  · cases h

theorem hadoopPassOf_length {n : ℕ} (hn : n < 2 ^ 32) (rest : Bytes) :
    hadoopPassOf S fault 0 (beBytes 4 n ++ rest) = .again [] n rest := by
  obtain ⟨h₁, h₂, h₃⟩ := take_beBytes hn rest
  rw [hadoopPassOf, if_neg (Nat.lt_irrefl 0), if_neg h₁, h₂, h₃]

/-- **A pass that goes round again** has read a sub-block of its block, or a length. -/
theorem hadoopPassOf_again_iff :
    hadoopPassOf S fault n s = .again ws n' rest ↔
      (0 < n ∧ ∃ c u, s = beBytes 4 c.length ++ (c ++ rest) ∧ c ≠ [] ∧ c.length < 2 ^ 32 ∧
        S.uncompressWithin c n = some u ∧ u ≠ [] ∧ ws = [.fwriteOk u] ∧ n' = n - u.length) ∨
      n = 0 ∧ n' < 2 ^ 32 ∧ s = beBytes 4 n' ++ rest ∧ ws = [] := by
  constructor
  · intro h
    unfold hadoopPassOf at h
    split at h
    · next hn =>
      split at h
      · cases h
      next h4 =>
      obtain ⟨c, u, hs, hm, hc, hu⟩ := subBlock_again_iff.mp h
      have hfield := beBytes_take h4
      rw [← hm, hs] at hfield
      exact Or.inl ⟨hn, c, u, hfield, hc, hm ▸ beVal_take_lt s, hu⟩
    · next hn =>
      split at h
      · cases h
      next h4 =>
      cases h
      exact Or.inr ⟨Nat.eq_zero_of_not_pos hn, beVal_take_lt s, beBytes_take h4, rfl⟩
  · rintro (⟨hn, c, u, rfl, hc, hlt, hu⟩ | ⟨rfl, hlt, rfl, rfl⟩)
    · obtain ⟨h₁, h₂, h₃⟩ := take_beBytes hlt (c ++ rest)
      rw [hadoopPassOf, if_pos hn, if_neg h₁, h₂, h₃]
      exact subBlock_again_iff.mpr ⟨c, u, rfl, rfl, hc, hu⟩
    · exact hadoopPassOf_length hlt rest

/-- **What the last pass comes to.** -/
theorem hadoopPassOf_finish {sc : Script} (h : hadoopPassOf S fault n s = .finish sc) :
    sc = ⟨[], .status 1⟩ ∨ sc = ⟨[], .status (if fault then 1 else 0)⟩ ∧ n = 0 ∧ s.length < 4 := by
  unfold hadoopPassOf at h
  split at h
  · split at h
    · cases h
      exact Or.inl rfl
    · exact Or.inl (subBlock_finish h)
  · next hn =>
    split at h
    · next h4 =>
      cases h
      exact Or.inr ⟨rfl, Nat.eq_zero_of_not_pos hn, h4⟩
    · cases h

end Passes

/-- The script of the decoder. -/
def hadoopUnscript (g : Globals) (skipMagic fault : Bool) (s : Bytes) : Script :=
  if skipMagic then
    (subBlock S g.hadoopSnappySourceLength.toNat g.hadoopSnappyCompressedLength.toNat s).script
      (hadoopPassOf S fault)
  else unroll (hadoopPassOf S fault) 0 s

theorem refines_hadoopSnappyFormatUncompress (g : Globals) (skipMagic : Bool) :
    Refines (hadoopSnappyFormatUncompress S g skipMagic) (hadoopUnscript S g skipMagic) := by
  intro w hw
  have hpass : ∀ (n : ℕ) (t : ℕ × WorkBuffer) (w : World), t.1 = n → w.inp.Ok →
      Follows (fun n (t : ℕ × WorkBuffer) => t.1 = n) (fun n => pure n) w
        (hadoopPassOf S w.inp.fault n w.inp.rest) (hadoopPass S t w) :=
    fun n t w ht hw => ht ▸ follows_hadoopPass hw t
  unfold hadoopSnappyFormatUncompress hadoopUnscript
  rw [bind_apply, workBufferInit_eq (by decide), Outcome.bind_ret]
  cases skipMagic with
  | true =>
    simp only [if_true]
    exact follows_resume hpass (follows_subBlock hw (Nat.le_refl _)
      g.hadoopSnappyCompressedLength.isLt _)
  | false =>
    simp only [Bool.false_eq_true, if_false]
    exact loop_follows_pure (p := fun fault => hadoopPassOf S fault) hpass rfl hw

end Snzip
