import Snzip.Codec

set_option autoImplicit false

/-!
# The snappy-java format

`snappy-java-format.c`: a header with two versions, and blocks with their compressed length in 32
bits, most significant byte first.

* `snappyJavaCompress`, **`refines_snappyJavaCompress`**;
* `snappyJavaUncompress`, **`refines_snappyJavaUncompress`**.
-/

namespace Snzip

open CProg

variable (S : Snappy)

/-- `SNAPPY_JAVA_MAGIC`. -/
def snappyJavaMagic : Bytes :=
  [0x82#8, 0x53#8, 0x4e#8, 0x41#8, 0x50#8, 0x50#8, 0x59#8, 0x00#8]

/-- `SNAPPY_JAVA_FILE_VERSION`. -/
def snappyJavaFileVersion : ℕ := 1

/-- `DEFAULT_BLOCK_SIZE`. -/
def snappyJavaDefaultBlockSize : BitVec 64 := 32768#64

/-! ## Compression -/

/-- The two version fields of the header. -/
def snappyJavaVersions : Bytes := beBytes 4 snappyJavaFileVersion ++ beBytes 4 snappyJavaFileVersion

/-- `snappy_java_compress`. -/
def snappyJavaCompress (blockSize : BitVec 64) : Io ℕ := do
  let blockSize := if blockSize = 0#64 then snappyJavaDefaultBlockSize else blockSize
  if !(← fwrite (snappyJavaMagic ++ snappyJavaVersions)) then return 1
  let wb ← workBufferInit blockSize
  let body := fun data => do
    putcs (beBytes 4 (S.compress data).length)
    fwrite (S.compress data)
  whileFread wb.uclen body >>= finishAtEof

/-- The writes for a block. -/
def snappyJavaWrites (data : Bytes) : List Write :=
  [.putc (beBytes 4 (S.compress data).length), .fwriteOk (S.compress data)]

/-- What the compressor does with a file. -/
def snappyJavaScript (blockSize : BitVec 64) (fault : Bool) (s : Bytes) : Script :=
  let blockSize := if blockSize = 0#64 then snappyJavaDefaultBlockSize else blockSize
  (blockScript (snappyJavaWrites S) blockSize.toNat fault s).after
    [.fwriteOk (snappyJavaMagic ++ snappyJavaVersions)]

theorem refines_snappyJavaCompress (blockSize : BitVec 64) :
    Refines (snappyJavaCompress S blockSize) (snappyJavaScript S blockSize) := by
  unfold snappyJavaCompress snappyJavaScript
  have h0 : (if blockSize = 0#64 then snappyJavaDefaultBlockSize else blockSize) ≠ 0#64 := by
    split
    · decide
    · assumption
  generalize (if blockSize = 0#64 then snappyJavaDefaultBlockSize else blockSize) = b at h0 ⊢
  exact refines_fwriteOk (refines_blockScript (f := snappyJavaWrites S)
    (fun _ d => plays_putcs_fwrite (beBytes 4 (S.compress d).length) (S.compress d)) h0)

/-! ## Decompression -/

/-- The checks of the two version fields. -/
def checkVersions (header : Bytes) : Option Unit :=
  if beVal (header.take 4) ≠ snappyJavaFileVersion then none
  else if beVal (header.drop 4) ≠ snappyJavaFileVersion then none
  else some ()

/-- The comparison of the header with the magic and the versions. -/
def checkSnappyJavaHeader (header : Bytes) : Option Unit :=
  if header.take 8 ≠ snappyJavaMagic then none else checkVersions (header.drop 8)

/-- The header, or what is left of it after the magic. -/
def readSnappyJavaHeader (skipMagic : Bool) : Io (Option Unit) :=
  if skipMagic then readHeader 8 checkVersions else readHeader 16 checkSnappyJavaHeader

/-- `for (idx = 3; idx >= 0; idx--)`, with `idx` bytes to go: the length, or the status with which
the program ends. -/
def readJavaLength (n : BitVec 64) : ℕ → Io (Except ℕ (BitVec 64))
  | 0 => return .ok n
  | idx + 1 => do
    match ← getc with
    | none => return .error (if idx = 3 then 0 else 1)
    | some chr => readJavaLength (orChr n (some chr) (idx * 8)) idx

/-- A pass of the loop of the decoder. -/
def snappyJavaPass (wb : WorkBuffer) : Io (WorkBuffer ⊕ ℕ) := do
  match ← readJavaLength 0#64 4 with
  | .error err => return .inr err
  | .ok compressedLength =>
    if compressedLength = 0#64 then return .inr 1
    let wb ← growC wb compressedLength.toNat
    match ← fread compressedLength.toNat with
    | none => return .inr 1
    | some c =>
      match S.uncompressedLength c with
      | none => return .inr 1
      | some uncompressedLength =>
        let wb ← growUc wb uncompressedLength
        match S.uncompress c uncompressedLength with
        | none => return .inr 1
        | some u => writeBlock wb u

/-- `snappy_java_uncompress`. -/
def snappyJavaUncompress (skipMagic : Bool) : Io ℕ := do
  match ← readSnappyJavaHeader skipMagic with
  | none => return 1
  | some () =>
    fflush
    let wb ← workBufferInit snappyJavaDefaultBlockSize
    loop (fun _ w => w.inp.rest.length) (snappyJavaPass S) wb

/-- A pass as a function of the bytes. A length with its high bit set is more than `realloc` can
give. -/
def snappyJavaPassOf (_ : Unit) (s : Bytes) : Pass Unit :=
  if s = [] then .finish ⟨[], .status 0⟩
  else if s.length < 4 ∨ beVal (s.take 4) = 0 then .finish ⟨[], .status 1⟩
  else if 2 ^ 31 ≤ beVal (s.take 4) then .finish ⟨[], .exit 1⟩
  else if (s.drop 4).length < beVal (s.take 4) then .finish ⟨[], .status 1⟩
  else match S.uncompressWithin ((s.drop 4).take (beVal (s.take 4))) (2 ^ 32) with
    | none => .finish ⟨[], .status 1⟩
    | some u => .again [.writeFull u] () ((s.drop 4).drop (beVal (s.take 4)))

section Loop

variable {S} {w : World}

theorem readJavaLength_nil (h : w.inp.rest = []) :
    readJavaLength 0#64 4 w = .ret (.error 0) { w with inp := w.inp.hitEnd } := by
  rw [readJavaLength, bind_apply, getc_nil h]
  rfl

theorem readJavaLength_short {n : BitVec 64} {idx : ℕ} (hidx : idx ≤ 3)
    (h : w.inp.rest.length < idx) :
    ∃ i, readJavaLength n idx w = .ret (.error 1) { w with inp := i } := by
  induction idx generalizing n w with
  | zero => omega
  | succ idx ih =>
    rw [readJavaLength, bind_apply]
    cases hr : w.inp.rest with
    | nil =>
      rw [getc_nil hr, Outcome.bind_ret]
      exact ⟨_, by simp only [if_neg (show ¬ idx = 3 by omega)]; rfl⟩
    | cons b s =>
      rw [getc_cons hr, Outcome.bind_ret]
      rw [hr, List.length_cons] at h
      exact ih (w := { w with inp := { w.inp with rest := s } }) (by omega) (by simpa using h)

theorem readJavaLength_eq {b₀ b₁ b₂ b₃ : Byte} {s : Bytes}
    (h : w.inp.rest = b₀ :: b₁ :: b₂ :: b₃ :: s) :
    readJavaLength 0#64 4 w = .ret (.ok (orChr (orChr (orChr (orChr 0#64 (some b₀) 24) (some b₁) 16)
      (some b₂) 8) (some b₃) 0)) { w with inp := { w.inp with rest := s } } := by
  simp [readJavaLength, InFile.getc, h]

theorem readJavaLength_cut (hne : w.inp.rest ≠ []) (h : w.inp.rest.length < 4) :
    ∃ i, readJavaLength 0#64 4 w = .ret (.error 1) { w with inp := i } := by
  cases hr : w.inp.rest with
  | nil => exact absurd hr hne
  | cons b s =>
    rw [hr, List.length_cons] at h
    rw [readJavaLength, bind_apply, getc_cons hr, Outcome.bind_ret]
    exact readJavaLength_short (w := { w with inp := { w.inp with rest := s } }) (Nat.le_refl _)
      (Nat.lt_of_succ_lt_succ h)

theorem four_of_length {s : Bytes} (h : 4 ≤ s.length) :
    ∃ b₀ b₁ b₂ b₃ t, s = b₀ :: b₁ :: b₂ :: b₃ :: t := by
  match s, h with
  | b₀ :: b₁ :: b₂ :: b₃ :: t, _ => exact ⟨b₀, b₁, b₂, b₃, t, rfl⟩

theorem follows_snappyJavaPass (hw : w.inp.Ok) {wb : WorkBuffer} (hwb : wb.clen < 2 ^ 63) :
    Follows (fun _ (wb : WorkBuffer) => wb.clen < 2 ^ 63) (fun n => pure n) w
      (snappyJavaPassOf S () w.inp.rest) (snappyJavaPass S wb w) := by
  unfold snappyJavaPassOf snappyJavaPass
  rw [bind_apply]
  by_cases hnil : w.inp.rest = []
  · rw [if_pos hnil, readJavaLength_nil hnil]
    exact follows_status rfl
  rw [if_neg hnil]
  by_cases h4 : w.inp.rest.length < 4
  · obtain ⟨i, hi⟩ := readJavaLength_cut hnil h4
    rw [if_pos (Or.inl h4), hi]
    exact follows_status rfl
  obtain ⟨b₀, b₁, b₂, b₃, s, hs⟩ := four_of_length (Nat.le_of_not_lt h4)
  have htake : w.inp.rest.take 4 = [b₀, b₁, b₂, b₃] := by rw [hs]; rfl
  have hdrop : w.inp.rest.drop 4 = s := by rw [hs]; rfl
  rw [readJavaLength_eq hs, htake, hdrop, Outcome.bind_ret]
  generalize hn : orChr _ (some b₃) 0 = n
  simp only
  by_cases hneg : 128 ≤ b₀.toNat
  · -- the sign extension of `chr << 24`
    have hbig : 2 ^ 63 ≤ n.toNat := hn ▸ le_toNat_orChr_be hneg b₁ b₂ b₃
    have hval : 2 ^ 31 ≤ beVal [b₀, b₁, b₂, b₃] := by
      simp only [beVal, List.reverse_cons, List.reverse_nil, List.nil_append, List.cons_append,
        leVal]
      omega
    rw [if_neg (by omega), if_pos hval, if_neg (fun h0 => by rw [h0] at hbig; revert hbig; decide),
      bind_apply, growC_exit hwb hbig]
    exact .exit rfl
  have hval : n.toNat = beVal [b₀, b₁, b₂, b₃] := hn ▸ toNat_orChr_be (by omega) b₁ b₂ b₃
  have hlt : beVal [b₀, b₁, b₂, b₃] < 2 ^ 31 := by
    have := b₁.isLt
    have := b₂.isLt
    have := b₃.isLt
    simp only [beVal, List.reverse_cons, List.reverse_nil, List.nil_append, List.cons_append, leVal]
    omega
  rw [← hval] at hlt ⊢
  by_cases hn0 : n = 0#64
  · rw [if_pos hn0, if_pos (Or.inr (by rw [hn0]; rfl))]
    exact follows_status rfl
  have hn1 : n.toNat ≠ 0 := fun h0 => hn0 (BitVec.eq_of_toNat_eq h0)
  obtain ⟨wb₁, hwb₁, hclen₁⟩ := growC_ret wb (show n.toNat < 2 ^ 62 by omega)
    { w with inp := { w.inp with rest := s } }
  rw [if_neg hn0, if_neg (by omega), if_neg (by omega), bind_apply, hwb₁, Outcome.bind_ret,
    bind_apply]
  by_cases hlen : s.length < n.toNat
  · rw [if_pos hlen, fread_short (by simpa using hlen)]
    exact follows_status rfl
  rw [if_neg hlen, fread_eq hn1 (by simpa using hlen), Outcome.bind_ret]
  unfold Snappy.uncompressWithin
  simp only
  cases hl : S.uncompressedLength (s.take n.toNat) with
  | none => exact follows_status rfl
  | some l =>
    have hl32 := S.uncompressedLength_lt hl
    obtain ⟨wb₂, hwb₂, hclen₂⟩ := growUc_ret wb₁ (show l < 2 ^ 62 by omega)
      { w with inp := { w.inp with rest := s.drop n.toNat } }
    simp only
    rw [if_neg (by omega), bind_apply, hwb₂, Outcome.bind_ret]
    cases hu : S.uncompress (s.take n.toNat) l with
    | none => exact follows_status rfl
    | some u =>
      have hrest : (s.drop n.toNat).length < w.inp.rest.length := by
        rw [hs, List.length_drop]
        simp only [List.length_cons]
        omega
      exact follows_writeBlock (R := fun _ (wb : WorkBuffer) => wb.clen < 2 ^ 63) hw hnil hrest
        (hclen₂ ▸ hclen₁ hwb) (Nat.lt_of_le_of_lt (S.uncompress_le hu) hl32)

end Loop

/-- The header of a stream, and what is behind it. -/
def takeSnappyJavaHeader (skipMagic : Bool) (s : Bytes) : Option (Unit × Bytes) :=
  if skipMagic then takeHeader 8 checkVersions s else takeHeader 16 checkSnappyJavaHeader s

/-- What the decoder does with a stream. -/
def snappyJavaUnscript (skipMagic _fault : Bool) (s : Bytes) : Script :=
  match takeSnappyJavaHeader skipMagic s with
  | none => ⟨[], .status 1⟩
  | some ((), rest) => (unroll (snappyJavaPassOf S) () rest).after [.fflush]

theorem refines_snappyJavaUncompress (skipMagic : Bool) :
    Refines (snappyJavaUncompress S skipMagic) (snappyJavaUnscript S skipMagic) := by
  intro w hw
  unfold snappyJavaUncompress snappyJavaUnscript
  rw [bind_apply]
  cases h : takeSnappyJavaHeader skipMagic w.inp.rest with
  | none =>
    have hread : ∃ i, readSnappyJavaHeader skipMagic w = .ret none { w with inp := i } := by
      cases skipMagic <;> exact readHeader_none (by decide) h
    obtain ⟨i, hi⟩ := hread
    rw [hi]
    simp [Script.playback, playAll, Verdict.close]
  | some p =>
    obtain ⟨⟨⟩, rest⟩ := p
    have hread : ({ w.inp with rest := rest } : InFile).Ok ∧ readSnappyJavaHeader skipMagic w =
        .ret (some ()) { w with inp := { w.inp with rest := rest } } := by
      cases skipMagic <;> exact readHeader_some (by decide) hw h
    obtain ⟨hok, hread⟩ := hread
    rw [hread, Outcome.bind_ret]
    simp only
    rw [bind_apply, fflush_apply, Outcome.bind_ret, bind_apply, workBufferInit_eq (by decide),
      Outcome.bind_ret, Script.playback_after]
    exact loop_follows_pure (R := fun (_ : Unit) (wb : WorkBuffer) => wb.clen < 2 ^ 63) (r := ())
      (p := fun _ => snappyJavaPassOf S) (fun _ _ w hR hw => follows_snappyJavaPass hw hR)
      (by decide) (w := ⟨{ w.inp with rest := rest }, w.out.fflush.2⟩) hok

end Snzip
