import Snzip.Lib.Script
import Snzip.Snappy

set_option autoImplicit false

/-!
# What a codec runs on

A codec reads `infp` and writes `outfp`; a few globals that `main` sets are arguments here, since
no codec assigns them.

* `Globals`, `World`, `Io`; the stdio calls as `Io` programs;
* `malloc`, `WorkBuffer`, `workBufferInit`, `workBufferResize`;
* `writeFull`: the loop around `write(2)`, with **`writeFull_eq`** for a run on a device;
* `wroteAll`: the test of its result that the decoders make.
-/

namespace Snzip

open CProg

/-- The global variables that `main` and the codecs share. -/
structure Globals where
  uncompressedSourceLen : BitVec 64
  snzipFormatBlockSize : BitVec 32
  hadoopSnappySourceLength : BitVec 32
  hadoopSnappyCompressedLength : BitVec 32
  deriving DecidableEq

/-- The globals at the start of the program. -/
def Globals.initial : Globals := ⟨-1#64, 0#32, 0#32, 0#32⟩

/-- The streams of a codec: `infp` and `outfp`. -/
structure World where
  inp : InFile
  out : OutFile

/-- Programs on the two streams of a codec. -/
abbrev Io (α : Type) : Type := Prog World α

/-! ## Calls on the streams -/

/-- `getc` on the input. -/
def getc : Io Chr := fun w => .ret w.inp.getc.1 { w with inp := w.inp.getc.2 }

/-- `fread(buf, size, 1, infp)`. -/
def fread (size : ℕ) : Io (Option Bytes) := fun w =>
  .ret (w.inp.fread size).1 { w with inp := (w.inp.fread size).2 }

/-- `fread(buf, 1, n, infp)`. -/
def freadBytes (n : ℕ) : Io Bytes := fun w =>
  .ret (w.inp.freadBytes n).1 { w with inp := (w.inp.freadBytes n).2 }

/-- `feof(infp)`. -/
def feofIn : Io Bool := fun w => .ret w.inp.eof w

/-- `ferror(infp)`. -/
def ferrorIn : Io Bool := fun w => .ret w.inp.err w

/-- `ferror(outfp)`. -/
def ferrorOut : Io Bool := fun w => .ret w.out.err w

/-- `putc` after `putc`. -/
def putcs (bs : Bytes) : Io Unit := fun w => .ret () { w with out := w.out.putcs bs }

/-- `fwrite(buf, n, 1, outfp) == 1`. -/
def fwrite (bs : Bytes) : Io Bool := fun w =>
  .ret (w.out.fwrite bs).1 { w with out := (w.out.fwrite bs).2 }

/-- `fflush` on the output. -/
def fflush : Io Unit := fun w => .ret () { w with out := w.out.fflush.2 }

section

variable (w : World)

@[simp] theorem getc_apply : getc w = .ret w.inp.getc.1 { w with inp := w.inp.getc.2 } := rfl

@[simp] theorem fread_apply (n : ℕ) :
    fread n w = .ret (w.inp.fread n).1 { w with inp := (w.inp.fread n).2 } := rfl

@[simp] theorem freadBytes_apply (n : ℕ) :
    freadBytes n w = .ret (w.inp.freadBytes n).1 { w with inp := (w.inp.freadBytes n).2 } := rfl

@[simp] theorem feofIn_apply : feofIn w = .ret w.inp.eof w := rfl

@[simp] theorem ferrorIn_apply : ferrorIn w = .ret w.inp.err w := rfl

@[simp] theorem ferrorOut_apply : ferrorOut w = .ret w.out.err w := rfl

@[simp] theorem putcs_apply (bs : Bytes) :
    putcs bs w = .ret () { w with out := w.out.putcs bs } := rfl

@[simp] theorem fwrite_apply (bs : Bytes) :
    fwrite bs w = .ret (w.out.fwrite bs).1 { w with out := (w.out.fwrite bs).2 } := rfl

@[simp] theorem fflush_apply : fflush w = .ret () { w with out := w.out.fflush.2 } := rfl

end

theorem getc_nil {w : World} (h : w.inp.rest = []) :
    getc w = .ret none { w with inp := w.inp.hitEnd } := by
  simp [InFile.getc, h]

theorem getc_cons {w : World} {b : Byte} {s : Bytes} (h : w.inp.rest = b :: s) :
    getc w = .ret (some b) { w with inp := { w.inp with rest := s } } := by
  simp [InFile.getc, h]

theorem fread_eq {w : World} {n : ℕ} (hn : n ≠ 0) (h : n ≤ w.inp.rest.length) :
    fread n w = .ret (some (w.inp.rest.take n))
      { w with inp := { w.inp with rest := w.inp.rest.drop n } } := by
  simp [InFile.fread, hn, h]

theorem fread_zero (w : World) : fread 0 w = .ret none w := rfl

theorem fread_short {w : World} {n : ℕ} (h : w.inp.rest.length < n) :
    fread n w = .ret none { w with inp := w.inp.hitEnd } := by
  rw [fread_apply, InFile.fread, if_neg (by omega), if_neg (by omega)]

/-! ## Memory -/

/-- `malloc` and `realloc` fail for sizes beyond `PTRDIFF_MAX`. -/
def malloc (size : ℕ) : Bool := decide (size < 2 ^ 63)

/-- A `work_buffer_t`: the recorded lengths, and the sizes of the memory behind the pointers. -/
structure WorkBuffer where
  clen : ℕ
  uclen : ℕ
  c : ℕ
  uc : ℕ
  deriving DecidableEq

/-- `work_buffer_init`: two buffers, or `exit(1)`. -/
def workBufferInit (blockSize : BitVec 64) : Io WorkBuffer := do
  let uclen := blockSize.toNat
  if !malloc uclen then exit 1
  let clen := snappyMaxCompressedLength uclen
  if !malloc clen then exit 1
  return ⟨clen, uclen, clen, uclen⟩

/-- A length of 0 leaves that buffer as it is. -/
def workBufferResize (wb : WorkBuffer) (clen uclen : ℕ) : Io WorkBuffer := do
  if clen ≠ 0 && !malloc clen then exit 1
  let wb := if clen ≠ 0 then { wb with clen := clen, c := clen } else wb
  if uclen ≠ 0 && !malloc uclen then exit 1
  return if uclen ≠ 0 then { wb with uclen := uclen, uc := uclen } else wb

theorem workBufferInit_fail {b : BitVec 64}
    (h : ¬ (malloc b.toNat && malloc (snappyMaxCompressedLength b.toNat)) = true) (w : World) :
    workBufferInit b w = .exit 1 w := by
  unfold workBufferInit
  cases h₁ : malloc b.toNat with
  | false => simp
  | true =>
    have h₂ : malloc (snappyMaxCompressedLength b.toNat) = false := by simpa [h₁] using h
    simp [h₂]

theorem workBufferInit_ok {b : BitVec 64}
    (h : (malloc b.toNat && malloc (snappyMaxCompressedLength b.toNat)) = true) (w : World) :
    workBufferInit b w = .ret ⟨snappyMaxCompressedLength b.toNat, b.toNat,
      snappyMaxCompressedLength b.toNat, b.toNat⟩ w := by
  rw [Bool.and_eq_true] at h
  simp [workBufferInit, h.1, h.2]

theorem workBufferInit_eq {b : BitVec 64} (h : b.toNat < 2 ^ 62) (w : World) :
    workBufferInit b w = .ret ⟨snappyMaxCompressedLength b.toNat, b.toNat,
      snappyMaxCompressedLength b.toNat, b.toNat⟩ w := by
  refine workBufferInit_ok ?_ w
  rw [snappyMaxCompressedLength_eq (by omega)]
  simp only [malloc, Bool.and_eq_true, decide_eq_true_eq]
  omega

/-- `if (clen > wb.clen) work_buffer_resize(&wb, clen, 0);`. -/
def growC (wb : WorkBuffer) (clen : ℕ) : Io WorkBuffer :=
  if clen > wb.clen then workBufferResize wb clen 0 else pure wb

/-- `if (uclen > wb.uclen) work_buffer_resize(&wb, 0, uclen);`. -/
def growUc (wb : WorkBuffer) (uclen : ℕ) : Io WorkBuffer :=
  if uclen > wb.uclen then workBufferResize wb 0 uclen else pure wb

theorem growC_ret (wb : WorkBuffer) {clen : ℕ} (h : clen < 2 ^ 62) (w : World) :
    ∃ wb', growC wb clen w = .ret wb' w ∧ (wb.clen < 2 ^ 63 → wb'.clen < 2 ^ 63) := by
  have hm : malloc clen = true := by simp only [malloc, decide_eq_true_eq]; omega
  unfold growC
  split
  · next hgt =>
    have h0 : clen ≠ 0 := by omega
    exact ⟨{ wb with clen := clen, c := clen }, by simp [workBufferResize, hm, h0],
      fun _ => Nat.lt_trans h (by decide)⟩
  · exact ⟨wb, rfl, id⟩

theorem growUc_ret (wb : WorkBuffer) {uclen : ℕ} (h : uclen < 2 ^ 62) (w : World) :
    ∃ wb', growUc wb uclen w = .ret wb' w ∧ wb'.clen = wb.clen := by
  have hm : malloc uclen = true := by simp only [malloc, decide_eq_true_eq]; omega
  unfold growUc
  split
  · next hgt =>
    have h0 : uclen ≠ 0 := by omega
    exact ⟨{ wb with uclen := uclen, uc := uclen }, by simp [workBufferResize, hm, h0], rfl⟩
  · exact ⟨wb, rfl, rfl⟩

theorem growC_exit {wb : WorkBuffer} (hwb : wb.clen < 2 ^ 63) {clen : ℕ} (h : 2 ^ 63 ≤ clen)
    (w : World) : growC wb clen w = .exit 1 w := by
  have hm : malloc clen = false := by simp only [malloc, decide_eq_false_iff_not]; omega
  rw [growC, if_pos (by omega)]
  simp [workBufferResize, hm, show clen ≠ 0 by omega]

/-! ## `write_full` -/

/-- What a call of `write(2)` comes to. -/
inductive WriteResult where
  | took (n : ℕ)
  | eintr
  | failed

/-- One pass of the loop in `write_full`, from the bytes still to write and the count so far. -/
def writeFullPass {σ : Type} (write : Bytes → Prog σ WriteResult) (t : Bytes × ℕ) :
    Prog σ ((Bytes × ℕ) ⊕ BitVec 32) := do
  if t.1 = [] then return .inr (BitVec.ofNat 32 t.2)
  match ← write t.1 with
  | .eintr => return .inl t
  | .failed => return .inr (-1#32)
  | .took n => return .inl (t.1.drop n, t.2 + n)

/-- `write(2)` on the descriptor of `outfp`. -/
def writeOut (bs : Bytes) : Io WriteResult := fun w =>
  match w.out.write bs with
  | (some n, o) => .ret (.took n) { w with out := o }
  | (none, o) => .ret .failed { w with out := o }

/-- `write_full(fileno(outfp), buf, count)`. -/
def writeFull (bs : Bytes) : Io (BitVec 32) :=
  loop (fun t _ => t.1.length) (writeFullPass writeOut) (bs, 0)

theorem writeFullPass_nil (done : ℕ) (w : World) :
    writeFullPass writeOut ([], done) w = .ret (.inr (BitVec.ofNat 32 done)) w := by
  simp [writeFullPass]

theorem writeFullPass_some {bs : Bytes} (hne : bs ≠ []) (done : ℕ) {w : World} {n : ℕ}
    {o : OutFile} (h : w.out.write bs = (some n, o)) :
    writeFullPass writeOut (bs, done) w =
      .ret (.inl (bs.drop n, done + n)) { w with out := o } := by
  simp [writeFullPass, hne, writeOut, h]

theorem writeFullPass_none {bs : Bytes} (hne : bs ≠ []) (done : ℕ) {w : World} {o : OutFile}
    (h : w.out.write bs = (none, o)) :
    writeFullPass writeOut (bs, done) w = .ret (.inr (-1#32)) { w with out := o } := by
  simp [writeFullPass, hne, writeOut, h]

theorem lowers_writeFullPass :
    Lowers (fun _ _ => True) (fun (t : Bytes × ℕ) (_ : World) => t.1.length)
      (writeFullPass writeOut) := by
  rintro ⟨bs, done⟩ w t' w' - h
  refine ⟨trivial, ?_⟩
  by_cases hne : bs = []
  · rw [hne, writeFullPass_nil] at h
    cases h
  · cases hw : w.out.write bs with
    | mk r o =>
      cases r with
      | none =>
        rw [writeFullPass_none hne done hw] at h
        cases h
      | some n =>
        rw [writeFullPass_some hne done hw] at h
        cases h
        obtain ⟨hn, hle, -⟩ := OutFile.write_some hne hw
        simp only [List.length_drop]
        omega

theorem writeFull_loop (bs : Bytes) (done : ℕ) (w : World) :
    loop (fun t _ => t.1.length) (writeFullPass writeOut) (bs, done) w =
      .ret (if fits w.out.room bs.length then BitVec.ofNat 32 (done + bs.length) else -1#32)
        { w with out := w.out.accept bs } := by
  induction hk : bs.length using Nat.strong_induction_on generalizing bs done w with
  | _ k ih =>
    by_cases hne : bs = []
    · subst hne
      rw [loop_inr (writeFullPass_nil done w), ← hk]
      simp
    · cases hw : w.out.write bs with
      | mk r o =>
        cases r with
        | none =>
          obtain ⟨rfl, ho, hf⟩ := OutFile.write_none hne hw
          rw [loop_inr (writeFullPass_none hne done hw), ← hk, hf, ho]
          rfl
        | some n =>
          obtain ⟨hn, hle, ho, hf⟩ := OutFile.write_some hne hw
          have hlt : (bs.drop n).length < k := by rw [List.length_drop]; omega
          rw [loop_inl lowers_writeFullPass trivial (writeFullPass_some hne done hw),
            ih _ hlt _ _ _ rfl, hf, ho, hk, List.length_drop]
          congr 3
          omega

/-- **A run of `write_full`.** The device takes what it has room for; the count is returned, as an
`int`, when that was everything. -/
theorem writeFull_eq (bs : Bytes) (w : World) :
    writeFull bs w = .ret (if fits w.out.room bs.length then BitVec.ofNat 32 bs.length else -1#32)
      { w with out := w.out.accept bs } := by
  rw [writeFull, writeFull_loop, Nat.zero_add]

/-- The test `write_full(fd, buf, n) != n`, an `int` against a `size_t`. -/
def wroteAll (rv : BitVec 32) (n : ℕ) : Bool := decide (sizeOfInt rv = BitVec.ofNat 64 n)

theorem wroteAll_ofNat {n : ℕ} (h : n < 2 ^ 32) :
    wroteAll (BitVec.ofNat 32 n) n = decide (n < 2 ^ 31) := by
  have hto : (BitVec.ofNat 32 n).toNat = n := by rw [BitVec.toNat_ofNat]; omega
  unfold wroteAll
  refine decide_eq_decide.mpr ⟨fun he => ?_, fun hlt => ?_⟩
  · by_contra hge
    have hm : (BitVec.ofNat 32 n).msb = true := by
      rw [BitVec.msb_eq_decide, hto]
      simp
      omega
    have h2 := congrArg BitVec.toNat he
    rw [sizeOfInt, BitVec.toNat_signExtend, hm, if_pos rfl, BitVec.toNat_setWidth, hto,
      BitVec.toNat_ofNat] at h2
    omega
  · apply BitVec.eq_of_toNat_eq
    rw [toNat_sizeOfInt (by omega), hto, BitVec.toNat_ofNat]
    omega

theorem wroteAll_neg_one {n : ℕ} (h : n < 2 ^ 32) : wroteAll (-1#32) n = false := by
  unfold wroteAll
  rw [decide_eq_false_iff_not]
  intro he
  have h2 := congrArg BitVec.toNat he
  rw [show (sizeOfInt (-1#32)).toNat = 2 ^ 64 - 1 by decide, BitVec.toNat_ofNat] at h2
  omega

theorem writeFull_wroteAll {bs : Bytes} (h : bs.length < 2 ^ 32) (w : World) :
    ∃ rv, writeFull bs w = .ret rv { w with out := ((Write.writeFull bs).play w.out).2 } ∧
      wroteAll rv bs.length = ((Write.writeFull bs).play w.out).1 := by
  refine ⟨_, writeFull_eq bs w, ?_⟩
  rw [Write.play]
  cases fits w.out.room bs.length with
  | true => simp [wroteAll_ofNat h]
  | false => simp only [Bool.false_eq_true, if_false, wroteAll_neg_one h, Bool.false_and]

end Snzip
