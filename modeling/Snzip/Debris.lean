import Snzip.Main
import Snzip.RoundTrip.Hadoop
import Snzip.ReadError

set_option autoImplicit false

/-!
# What a failed run leaves behind

A codec that returns a status other than 0 has its output unlinked by `main`; a codec that ends the
process by `exit` has not. The second happens where a buffer cannot be had.

* `HugeBuffers`, `HugeLength`: the block sizes and the streams that ask for such a buffer;
* **`exits_compress_iff`**, **`exits_uncompress_iff`**, `exits_codec_iff`: when a codec ends the
  process;
* `LeavesNoDebris`, **`leavesNoDebris_iff`**: the runs after which a failure leaves no debris.
-/

namespace Snzip

open CProg

/-! ## Compressors -/

/-- The block sizes for which a compressor asks for more memory than there is. -/
def HugeBuffers (blockSize : BitVec 32) : Format → Prop
  | .hadoopSnappy => blockSize ≠ 0#32 ∧ blockSize.toInt < 38
  | .snappyJava | .raw => blockSize.toInt < 0
  | .framing2 | .iwa | .framing | .snzip | .snappyInJava | .comment43 => False

instance (blockSize : BitVec 32) (f : Format) : Decidable (HugeBuffers blockSize f) := by
  cases f <;> unfold HugeBuffers <;> infer_instance

section Compress

variable {S : Snappy} {fault : Bool} {s : Bytes} {k : ℕ}

theorem malloc_sizeOfInt (i : BitVec 32) :
    malloc (sizeOfInt i).toNat = decide (¬ i.toInt < 0) := by
  have hlt := i.isLt
  have hi := BitVec.toInt_eq_toNat_cond i
  rw [malloc]
  refine decide_eq_decide.mpr ?_
  by_cases h : 2 ^ 31 ≤ i.toNat
  · rw [toNat_sizeOfInt_neg h, hi]
    split <;> omega
  · rw [toNat_sizeOfInt (by omega), hi]
    split <;> omega

theorem malloc_blockSize (i : BitVec 32) {d : BitVec 64} (hd : d.toNat < 2 ^ 31) :
    malloc (if sizeOfInt i = 0#64 then d else sizeOfInt i).toNat = decide (¬ i.toInt < 0) ∧
      ((if sizeOfInt i = 0#64 then d else sizeOfInt i).toNat < 2 ^ 31 ∨
        2 ^ 63 ≤ (if sizeOfInt i = 0#64 then d else sizeOfInt i).toNat) := by
  have hm := malloc_sizeOfInt i
  have hlt := i.isLt
  split
  · next h0 =>
    rw [h0] at hm
    rw [← hm]
    refine ⟨?_, Or.inl hd⟩
    simp only [malloc]
    exact decide_eq_decide.mpr ⟨fun _ => by decide, fun _ => by omega⟩
  · refine ⟨hm, ?_⟩
    by_cases h : 2 ^ 31 ≤ i.toNat
    · exact Or.inr (by rw [toNat_sizeOfInt_neg h]; omega)
    · exact Or.inl (by rw [toNat_sizeOfInt (by omega)]; omega)

theorem malloc_both {n : ℕ} (h : n < 2 ^ 31 ∨ 2 ^ 63 ≤ n) :
    (malloc n && malloc (snappyMaxCompressedLength n)) = malloc n := by
  rcases h with h | h
  · rw [snappyMaxCompressedLength_eq (by omega)]
    simp only [malloc]
    simp
    omega
  · have hm : malloc n = false := by
      simp only [malloc, decide_eq_false_iff_not]
      omega
    rw [hm, Bool.false_and]

/-- **The buffers of the hadoop-snappy format**: the subtraction of the overhead wraps around below
38. -/
theorem malloc_maxInputSize (i : BitVec 32) :
    malloc (hadoopSnappyMaxInputSize (sizeOfInt i)).toNat =
      decide (¬ (i ≠ 0#32 ∧ i.toInt < 38)) := by
  by_cases h0 : i = 0#32
  · subst h0
    decide
  have hi : i.toNat ≠ 0 := fun h => h0 (BitVec.eq_of_toNat_eq h)
  have hlt := i.isLt
  have hint := BitVec.toInt_eq_toNat_cond i
  have hne : sizeOfInt i ≠ 0#64 := fun h => by
    have hz := congrArg BitVec.toNat h
    rw [BitVec.toNat_ofNat] at hz
    by_cases hneg : 2 ^ 31 ≤ i.toNat
    · rw [toNat_sizeOfInt_neg hneg] at hz
      omega
    · rw [toNat_sizeOfInt (by omega)] at hz
      omega
  obtain ⟨hfit, hwrap⟩ := toNat_maxInputSize hne
  rw [malloc]
  refine decide_eq_decide.mpr ?_
  simp only [h0, ne_eq, not_false_eq_true, true_and]
  by_cases hneg : 2 ^ 31 ≤ i.toNat
  · have hs := toNat_sizeOfInt_neg hneg
    rw [hfit (by omega), hint, if_neg (by omega)]
    omega
  · have hs := toNat_sizeOfInt (i := i) (by omega)
    rw [hint, if_pos (by omega)]
    by_cases hsmall : i.toNat < i.toNat / 6 + 32
    · rw [hwrap (by omega)]
      omega
    · rw [hfit (by omega)]
      omega

theorem exits_blockScript_iff {f : Bytes → List Write} {n : ℕ} :
    (blockScript f n fault s).Exits k ↔
      k = 1 ∧ (malloc n && malloc (snappyMaxCompressedLength n)) = false := by
  unfold blockScript
  cases h : malloc n && malloc (snappyMaxCompressedLength n) with
  | false =>
    simp only [Bool.not_false, if_true, and_true]
    constructor
    · rintro ⟨-, hv⟩
      cases hv
      rfl
    · rintro rfl
      exact ⟨by simp, rfl⟩
  | true =>
    rw [Bool.not_true, if_neg Bool.false_ne_true]
    exact iff_of_false (Script.not_exits (by trivial) k) fun h => Bool.noConfusion h.2

theorem not_exits_rawScript (client : Client) (bufsiz fuel : ℕ) (replies : List Reply)
    (src : FileSource) : ¬ (rawScript client bufsiz fault fuel replies src s).Exits k := by
  rintro ⟨-, hv⟩
  induction fuel generalizing replies src s with
  | zero => cases hv
  | succ fuel ih =>
    rw [rawScript] at hv
    cases hc : client replies with
    | available => rw [hc] at hv; exact ih _ _ hv
    | peek => rw [hc] at hv; exact ih _ _ hv
    | skip m => rw [hc] at hv; exact ih _ _ hv
    | append bs =>
      rw [hc] at hv
      simp only [verdict_appended] at hv
      exact ih _ _ hv
    | done ok => rw [hc] at hv; cases hv

/-- **When a compressor ends the process.** -/
theorem exits_compress_iff (L : Library) (g : Globals) (stSize : BitVec 64) (i : BitVec 32)
    (f : Format) :
    (f.compressScript L g (some stSize) (sizeOfInt i) fault s).Exits k ↔
      k = (if f = .raw then 134 else 1) ∧ HugeBuffers i f := by
  have hret : ∀ {sc : Script} {P : Prop}, sc.verdict.Returns → (sc.Exits k ↔ P ∧ False) :=
    fun h => iff_of_false (Script.not_exits h k) And.right
  cases f with
  | framing2 => exact hret (by cases fault <;> trivial)
  | framing => exact hret (by cases fault <;> trivial)
  | iwa => exact hret (by cases fault <;> trivial)
  | comment43 => exact hret (by cases fault <;> trivial)
  | snzip =>
    refine hret ?_
    simp only [Format.compressScript, snzScript]
    split
    · trivial
    · cases fault <;> trivial
  | snappyInJava =>
    refine iff_of_false ?_ And.right
    simp only [Format.compressScript, snappyInJavaScript]
    generalize (if sizeOfInt i = 0#64 then snappyInJavaDefaultBlockSize else sizeOfInt i) = b
    split
    · exact Script.not_exits (by trivial) k
    · next hb =>
      have hle : b.toNat ≤ 65535 := Nat.le_of_not_lt hb
      rw [Script.exits_after, exits_blockScript_iff, malloc_both (Or.inl (by omega))]
      simp only [malloc, decide_eq_false_iff_not]
      omega
  | hadoopSnappy =>
    have hboth : (hadoopSnappyMaxInputSize (sizeOfInt i)).toNat < 2 ^ 31 ∨
        2 ^ 63 ≤ (hadoopSnappyMaxInputSize (sizeOfInt i)).toNat :=
      (maxInputSize_int i).imp And.left And.left
    have hm := (malloc_both hboth).trans (malloc_maxInputSize i)
    simp only [Format.compressScript, hadoopScript, hm, HugeBuffers]
    by_cases h : i ≠ 0#32 ∧ i.toInt < 38
    · rw [decide_eq_false (not_not.mpr h)]
      simp [Script.Exits, h, eq_comm]
    · rw [decide_eq_true h, Bool.not_true, if_neg Bool.false_ne_true]
      refine iff_of_false (Script.not_exits ?_ k) fun hk => h hk.2
      split
      · trivial
      · cases fault <;> trivial
  | snappyJava =>
    obtain ⟨hm, hboth⟩ := malloc_blockSize i (d := snappyJavaDefaultBlockSize) (by decide)
    simp only [Format.compressScript, snappyJavaScript, HugeBuffers]
    generalize (if sizeOfInt i = 0#64 then snappyJavaDefaultBlockSize else sizeOfInt i) = b
      at hm hboth ⊢
    rw [Script.exits_after, exits_blockScript_iff, malloc_both hboth, hm]
    have hgoes : ∀ w ∈ [Write.fwriteOk (snappyJavaMagic ++ snappyJavaVersions)], w.Goes := by
      intro w hw
      rw [List.mem_singleton.mp hw]
      exact List.append_ne_nil_of_left_ne_nil (List.cons_ne_nil _ _) _
    simp [hgoes]
  | raw =>
    obtain ⟨hm, -⟩ := malloc_blockSize i (d := kBlockSize) (by decide)
    simp only [Format.compressScript, rawCompressScript, HugeBuffers, if_true]
    generalize (if sizeOfInt i = 0#64 then kBlockSize else sizeOfInt i) = b at hm ⊢
    have hsize : ∃ size, rawFileSize g (some stSize) = some size := by
      unfold rawFileSize
      split <;> exact ⟨_, rfl⟩
    obtain ⟨size, hsize⟩ := hsize
    simp only [hsize, hm]
    by_cases h : i.toInt < 0
    · rw [decide_eq_false (not_not.mpr h)]
      simp [Script.Exits, h, eq_comm]
    · rw [decide_eq_true h, Bool.not_true, if_neg Bool.false_ne_true]
      exact iff_of_false (not_exits_rawScript _ _ _ _ _) fun hk => h hk.2

end Compress

/-! ## Decompressors -/

/-- After good blocks there is a length with its high bit set. -/
def HugeLength (S : Snappy) (skipMagic : Bool) (s : Bytes) : Prop :=
  ∃ t b us rest, takeSnappyJavaHeader skipMagic s = some ((), t) ∧
    Records (SnappyJavaBlock S) b us ∧ (∀ u ∈ us, u.length < 2 ^ 31) ∧ t = b ++ rest ∧
      4 ≤ rest.length ∧ 2 ^ 31 ≤ beVal (rest.take 4)

section Uncompress

variable {S : Snappy} {s : Bytes} {k : ℕ}

theorem snappyJavaPassOf_exit_iff :
    snappyJavaPassOf S () s = .finish ⟨[], .exit k⟩ ↔
      k = 1 ∧ 4 ≤ s.length ∧ 2 ^ 31 ≤ beVal (s.take 4) := by
  constructor
  · intro h
    unfold snappyJavaPassOf at h
    split at h
    · cases h
    split at h
    · cases h
    next h4 =>
    split at h
    · next h31 =>
      cases h
      exact ⟨rfl, by omega, h31⟩
    split at h
    · cases h
    split at h <;> cases h
  · rintro ⟨rfl, h4, h31⟩
    rw [snappyJavaPassOf, if_neg (fun h0 => by rw [h0] at h4; exact absurd h4 (by decide)),
      if_neg (by omega), if_pos h31]

theorem exits_snappyJava_iff :
    (unroll (snappyJavaPassOf S) () s).Exits k ↔ k = 1 ∧ ∃ b us rest,
      Records (SnappyJavaBlock S) b us ∧ (∀ u ∈ us, u.length < 2 ^ 31) ∧ s = b ++ rest ∧
        4 ≤ rest.length ∧ 2 ^ 31 ≤ beVal (rest.take 4) := by
  rw [exits_unroll_iff shrinks_snappyJavaPassOf]
  constructor
  · rintro ⟨ws, r, rest, sc, hst, hf, hws, hsc⟩
    obtain ⟨b, us, hb, rfl, rfl⟩ := (steps_iff_records snappyJavaPassOf_again_iff).mp hst
    obtain ⟨writes, v⟩ := sc
    obtain ⟨-, rfl⟩ : _ ∧ v = .exit k := hsc
    have hnil : writes = [] := by
      rcases snappyJavaPassOf_finish hf with h | h | ⟨h, -⟩ <;> cases h
      rfl
    subst hnil
    obtain ⟨hk, h4, h31⟩ := snappyJavaPassOf_exit_iff.mp hf
    exact ⟨hk, b, us, rest, hb, goes_writeFull_iff.mp hws, rfl, h4, h31⟩
  · rintro ⟨rfl, b, us, rest, hb, hus, rfl, h4, h31⟩
    exact ⟨_, (), rest, ⟨[], .exit 1⟩,
      (steps_iff_records snappyJavaPassOf_again_iff).mpr ⟨b, us, hb, rfl, rfl⟩,
      snappyJavaPassOf_exit_iff.mpr ⟨rfl, h4, h31⟩, goes_writeFull_iff.mpr hus, by simp, rfl⟩

/-- **When a decompressor ends the process.** -/
theorem exits_uncompress_iff (L : Library) (g : Globals) (skipMagic fault : Bool) (f : Format) :
    (f.uncompressScript L g skipMagic fault s).Exits k ↔
      k = 1 ∧ f = .snappyJava ∧ HugeLength L.snappy skipMagic s := by
  by_cases hraw : f = .raw
  · subst hraw
    refine iff_of_false (not_exits_rawScript _ _ _ _ _) ?_
    rintro ⟨-, hf, -⟩
    cases hf
  by_cases hj : f = .snappyJava
  swap
  · exact iff_of_false (Script.not_exits (returns_uncompress hraw hj g skipMagic fault s) k)
      fun h => hj h.2.1
  subst hj
  simp only [Format.uncompressScript, snappyJavaUnscript, HugeLength]
  cases ht : takeSnappyJavaHeader skipMagic s with
  | none =>
    refine iff_of_false (Script.not_exits (by trivial) k) ?_
    rintro ⟨-, -, t, b, us, rest, h, -⟩
    cases h
  | some p =>
    obtain ⟨⟨⟩, t⟩ := p
    have hgoes : ∀ w ∈ [Write.fflush], w.Goes := by simp [Write.Goes]
    simp only [Script.exits_after, exits_snappyJava_iff]
    constructor
    · rintro ⟨-, hk, b, us, rest, h⟩
      exact ⟨hk, trivial, t, b, us, rest, rfl, h⟩
    · rintro ⟨hk, -, t', b, us, rest, ht', h⟩
      cases ht'
      exact ⟨hgoes, hk, b, us, rest, h⟩

end Uncompress

/-! ## Jobs -/

/-- The job asks for a buffer that cannot be had. -/
def Job.Exhausts (L : Library) (opts : Options) (j : Job) : Prop :=
  if opts.uncompress then j.fmt = .snappyJava ∧ HugeLength L.snappy j.skipMagic j.inp.rest
  else HugeBuffers opts.blockSize j.fmt

section Job

variable {env : Env} {opts : Options} {L : Library} {infile : Name} {s s' : Sys} {j : Job}

theorem exits_script_iff (L : Library) (opts : Options) (j : Job) :
    (∃ n, (j.script L opts).Exits n) ↔ j.Exhausts L opts := by
  unfold Job.script Job.Exhausts
  cases opts.uncompress with
  | true => simp [exits_uncompress_iff]
  | false => simp [exits_compress_iff]

theorem ne_zero_of_exits {n : ℕ} (h : (j.script L opts).Exits n) : n ≠ 0 := by
  unfold Job.script at h
  cases hu : opts.uncompress with
  | true =>
    rw [hu, if_pos rfl, exits_uncompress_iff] at h
    omega
  | false =>
    rw [hu, if_neg Bool.false_ne_true, exits_compress_iff] at h
    obtain ⟨rfl, -⟩ := h
    split <;> decide

/-- **A job without memory ends the program, and its output stays.** -/
theorem afterOpen_exit_iff (h : Opens env opts infile s j s') (hstd : opts.stdout = false)
    (hroom : ∀ o, env.room o = none) :
    (∃ n t, afterOpen env opts L j s' = .exit n t) ↔ j.Exhausts L opts := by
  obtain ⟨o, ho, -, -, hout⟩ := h.toFile hstd
  rw [← exits_script_iff, afterOpen, hout, hroom]
  have hplay := codec_playback (L := L) h (OutFile.opened (env.buffering j.infile) none)
  simp only [← exit_playback_iff (env.buffering j.infile), ← hplay]
  cases j.codec L opts ⟨j.inp, OutFile.opened (env.buffering j.infile) none⟩ with
  | ret n w =>
    refine iff_of_false ?_ (by simp)
    rintro ⟨m, t, ht⟩
    simp only at ht
    split at ht
    · cases ht
    · split at ht <;> cases ht
  | exit n w => simp
  | diverge => simp

end Job

/-! ## Runs -/

/-- A run that fails after it has opened the output for an input leaves that input as it was, and no
output. -/
def LeavesNoDebris (env : Env) (opts : Options) (L : Library) (files : List Name) (s : Sys) :
    Prop :=
  ∀ n s' j, ending (mainFiles env opts L files s) = some (n, s') → n ≠ 0 → s'.current = some j →
    s'.files j.infile = some j.content ∧ ∀ o, j.outfile = some o → s'.files o = none

section Run

variable {env : Env} {opts : Options} {L : Library} {infile : Name} {s s' t : Sys} {j : Job} {n : ℕ}

/-- **A `return` in the loop comes after the output has been unlinked.** -/
theorem afterOpen_return (h : Opens env opts infile s j s') (hstd : opts.stdout = false)
    (ht : afterOpen env opts L j s' = .ret (some n) t) :
    t.current = some j ∧ t.files j.infile = some j.content ∧
      ∀ o, j.outfile = some o → t.files o = none := by
  obtain ⟨o, ho, hne, hfiles, -⟩ := h.toFile hstd
  unfold afterOpen at ht
  split at ht
  · next m w hw =>
    split at ht
    · cases ht
      refine ⟨by rw [current_unlinkOutput, h.current], ?_, fun o' ho' => ?_⟩
      · rw [files_unlinkOutput ho, h.name, Function.update_of_ne hne.symm, hfiles,
          Function.update_of_ne hne.symm]
        exact h.content
      · rw [ho] at ho'
        cases ho'
        rw [files_unlinkOutput ho]
        exact Function.update_self _ _ _
    · split at ht <;> cases ht
  · cases ht
  · cases ht

theorem afterOpen_exit (h : Opens env opts infile s j s') (hstd : opts.stdout = false)
    (hroom : ∀ o, env.room o = none) (ht : afterOpen env opts L j s' = .exit n t) :
    n ≠ 0 ∧ t.current = some j ∧ ∃ o, j.outfile = some o ∧ t.files o ≠ none := by
  obtain ⟨o, ho, -, -, hout⟩ := h.toFile hstd
  have hplay := codec_playback (L := L) h (OutFile.opened (env.buffering j.infile) none)
  unfold afterOpen at ht
  rw [hout, hroom] at ht
  split at ht
  · split at ht
    · cases ht
    · split at ht <;> cases ht
  · next m w hw =>
    cases ht
    rw [hw] at hplay
    refine ⟨ne_zero_of_exits ((exit_playback_iff (env.buffering j.infile)).mp ⟨w.out, hplay.symm⟩),
      ?_, o, ho, ?_⟩
    · rw [current_closeOutput, h.current]
    · rw [files_closeOutput ho, Function.update_self]
      simp
  · cases ht

/-- **A failure leaves no debris exactly if no job of the run asks for a buffer that cannot be
had.** -/
theorem leavesNoDebris_iff (hroom : ∀ o, env.room o = none) (hstd : opts.stdout = false)
    (files : List Name) (hs : s.current = none) :
    LeavesNoDebris env opts L files s ↔ ∀ fmt, namedFormat opts s.fmt = some fmt →
      ∀ j s', Reaches env opts L files { s with fmt := fmt } j s' → ¬ j.Exhausts L opts := by
  unfold LeavesNoDebris
  rw [mainFiles_eq]
  constructor
  · intro h fmt hfmt j s' hr hex
    rw [hfmt] at h
    obtain ⟨infile, s₀, ho⟩ := hr.opens
    obtain ⟨n, t, ht⟩ := (afterOpen_exit_iff ho hstd hroom).mpr hex
    obtain ⟨hn, hcurrent, o, hout, hfile⟩ := afterOpen_exit ho hstd hroom ht
    exact hfile ((h n t j (congrArg ending (runFiles_exit hr ht)) hn hcurrent).2 o hout)
  · intro h n t j hend hn hcurrent
    cases hfmt : namedFormat opts s.fmt with
    | none =>
      rw [hfmt] at hend
      cases hend
      rw [hs] at hcurrent
      cases hcurrent
    | some fmt =>
      rw [hfmt] at hend
      rcases runFiles_cases hend hn with hnone | ⟨j', s', hr, ht⟩
      · rw [hnone] at hcurrent
        cases hcurrent
      obtain ⟨infile, s₀, ho⟩ := hr.opens
      rcases ht with ht | ht
      · obtain ⟨hj, hclean⟩ := afterOpen_return ho hstd ht
        rw [hj] at hcurrent
        cases hcurrent
        exact hclean
      · exact absurd ((afterOpen_exit_iff ho hstd hroom).mp ⟨n, t, ht⟩) (h fmt hfmt j' s' hr)

end Run

/-- A framing2 file that ends inside its second chunk: what was written is unlinked. -/
theorem leavesNoDebris_half :
    let opts : Options := ⟨true, false, false, some Format.framing2.name, 0#32⟩
    let x := framing2.streamHeader ++ [0x01#8] ++ leBytes 3 5 ++
      leBytes 4 (maskedCrc32c [0x61#8]).toNat ++ [0x61#8] ++ [0x01#8]
    let s : Sys := .initial fun n => if n = ['a'] then some x else none
    (mainFiles Env.ideal opts ⟨literalSnappy, 0⟩ [['a']] s).view
        (fun t => (t.current.bind Job.outfile, t.files ['a'], t.files ['a', '.', 'o', 'u', 't'])) =
          .ret 1 (some ['a', '.', 'o', 'u', 't'], some x, none) ∧
      LeavesNoDebris Env.ideal opts ⟨literalSnappy, 0⟩ [['a']] s := by
  intro opts x s
  refine ⟨by decide +kernel, (leavesNoDebris_iff (fun _ => rfl) rfl _ rfl).mpr ?_⟩
  rintro fmt hfmt j s' (⟨ho, -⟩ | ⟨-, ⟨⟩⟩) ⟨hjava, -⟩
  obtain rfl : Format.framing2 = fmt := Option.some.inj hfmt
  have hfinds := ho.finds
  rw [Finds, show skipsMagic opts = false from rfl, if_neg Bool.false_ne_true] at hfinds
  rw [hfinds.2.1] at hjava
  cases hjava

/-- With a block size of 1 the program ends, and an empty output stays. -/
theorem not_leavesNoDebris :
    ¬ LeavesNoDebris Env.ideal ⟨false, false, false, some Format.hadoopSnappy.name, 1#32⟩
      ⟨literalSnappy, 0⟩ [['a']] (.initial fun n => if n = ['a'] then some [0x61#8] else none) := by
  intro h
  have := (h 1 _ _ rfl (by decide) rfl).2 (['a'] ++ '.' :: Format.hadoopSnappy.suffix) rfl
  cases this

end Snzip
