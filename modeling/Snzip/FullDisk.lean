import Snzip.Lib.Limited
import Snzip.Verified
import Snzip.Main

set_option autoImplicit false

/-!
# A full disk

An input is deleted when its codec has returned 0; the `fflush` and the `fclose` after that are not
looked at. So the output is complete only if the codec itself notices that the device is full.

* **`oneWay_compress`**, **`oneWay_uncompress`**: how each codec writes;
* `afterOpen_deletes`: an input is deleted in a round that goes on, and in no other;
* `Job.Overflows`: the codec returns 0 though its output does not fit;
* `DeletesOnlyCopied`, **`deletesOnlyCopied_iff`**: a run deletes only what has been copied exactly
  if no job overflows; `not_deletesOnlyCopied`: a run that deletes an empty file.
-/

namespace Snzip

open CProg

/-! ## Compressors -/

section Compress

variable {S : Snappy} {fault : Bool} {s : Bytes}

theorem tracked_blocks {n : ℕ} {f : Bytes → List Write} (hf : ∀ d, ∀ w ∈ f d, w.Tracked) :
    ∀ w ∈ (blocks n s).flatMap f, w.Tracked := by
  intro w hw
  obtain ⟨d, -, hd⟩ := List.mem_flatMap.mp hw
  exact hf d w hd

theorem atBuffer_blocks {n : ℕ} {f : Bytes → List Write} (hf : ∀ d, ∀ w ∈ f d, w.Tracked) :
    ∀ w ∈ (blocks n s).flatMap f, w.AtBuffer :=
  fun w hw => (tracked_blocks hf w hw).atBuffer

theorem tracked_blockScript {n : ℕ} {f : Bytes → List Write} (hf : ∀ d, ∀ w ∈ f d, w.Tracked) :
    ∀ w ∈ (blockScript f n fault s).writes, w.Tracked := by
  unfold blockScript
  split
  · simp
  · simpa [Script.after] using tracked_blocks hf

theorem tracked_after {ws : List Write} {sc : Script} (hws : ∀ w ∈ ws, w.Tracked)
    (h : ∀ w ∈ sc.writes, w.Tracked) : ∀ w ∈ (sc.after ws).writes, w.Tracked :=
  List.forall_mem_append.mpr ⟨hws, h⟩

theorem tracked_putc_fwriteOk (a b : Bytes) : ∀ w ∈ [Write.putc a, .fwriteOk b], w.Tracked := by
  simp [Write.Tracked]

/-- The header is written without a look at the result, and the error flag makes up for it. -/
theorem oneWay_framing (F : Framing) : (framingScript F S fault s).OneWay := by
  cases fault with
  | true => exact Or.inl (by decide)
  | false =>
    have hblocks := atBuffer_blocks (s := s) (n := F.maxUncompressedDataLen)
      fun d => tracked_putc_fwriteOk (chunkHead S F.lengthBytes d) (chooseData S d).2
    refine List.forall_mem_append.mpr ⟨by simp [Write.AtBuffer], ?_⟩
    exact List.forall_mem_append.mpr ⟨hblocks, by simp⟩

theorem oneWay_comment43 : (comment43Script S fault s).OneWay := by
  cases fault with
  | true => exact Or.inl (by decide)
  | false =>
    have hblocks := atBuffer_blocks (s := s) (n := comment43MaxRawDataLen)
      fun d => tracked_putc_fwriteOk (chunkHead S 2 d) (chooseData S d).2
    refine List.forall_mem_append.mpr ⟨by simp [Write.AtBuffer], ?_⟩
    exact List.forall_mem_append.mpr ⟨hblocks, by simp [comment43Tail, Write.AtBuffer]⟩

theorem oneWay_rawScript (client : Client) (bufsiz fuel : ℕ) (replies : List Reply)
    (src : FileSource) : (rawScript client bufsiz fault fuel replies src s).OneWay := by
  have h : (∀ w ∈ (rawScript client bufsiz fault fuel replies src s).writes, w.AtDevice) ∧
      (rawScript client bufsiz fault fuel replies src s).verdict.Blind := by
    induction fuel generalizing replies src s with
    | zero => simp [rawScript, Verdict.Blind]
    | succ fuel ih =>
      rw [rawScript]
      cases client replies with
      | available => exact ih _ _
      | peek => exact ih _ _
      | skip m => exact ih _ _
      | append bs =>
        obtain ⟨hws, hv⟩ := ih (replies ++ [.unit]) src (s := s)
        simp only [appended]
        split
        · simp [Verdict.Blind]
        · exact ⟨List.forall_mem_cons.mpr ⟨trivial, hws⟩, hv⟩
      | done ok => simp [Verdict.Blind]
  exact Script.oneWay_of_atDevice h.1 h.2

/-- **How a compressor writes.** -/
theorem oneWay_compress (L : Library) (g : Globals) (stSize : Option (BitVec 64))
    (blockSize : BitVec 64) (f : Format) :
    (f.compressScript L g stSize blockSize fault s).OneWay := by
  cases f with
  | framing2 => exact oneWay_framing Snzip.framing2
  | framing => exact oneWay_framing Snzip.framing
  | comment43 => exact oneWay_comment43
  | raw =>
    simp only [Format.compressScript, rawCompressScript]
    generalize (if blockSize = 0#64 then kBlockSize else blockSize) = b
    split
    · exact Or.inl (by decide)
    · split
      · trivial
      · exact oneWay_rawScript _ _ _ _ _
  | iwa =>
    refine Script.oneWay_of_tracked (tracked_after (tracked_blocks fun d => ?_) (by simp))
    exact tracked_putc_fwriteOk _ _
  | hadoopSnappy =>
    refine Script.oneWay_of_tracked ?_
    simp only [Format.compressScript, hadoopScript]
    split
    · simp
    split
    · simp
    · exact tracked_after (tracked_blocks fun d => by simp [hadoopWrites, Write.Tracked]) (by simp)
  | snzip =>
    refine Script.oneWay_of_tracked ?_
    simp only [Format.compressScript, snzScript]
    split
    · simp
    · refine tracked_after (by simp [Write.Tracked]) (tracked_after (tracked_blocks fun d => ?_) ?_)
      · exact tracked_putc_fwriteOk _ _
      · cases fault <;> simp [snzTail, Write.Tracked]
  | snappyJava =>
    refine Script.oneWay_of_tracked (tracked_after (by simp [Write.Tracked]) ?_)
    exact tracked_blockScript fun d => tracked_putc_fwriteOk _ _
  | snappyInJava =>
    refine Script.oneWay_of_tracked ?_
    simp only [Format.compressScript, snappyInJavaScript]
    generalize (if blockSize = 0#64 then snappyInJavaDefaultBlockSize else blockSize) = b
    split
    · simp
    · refine tracked_after (by simp [Write.Tracked]) (tracked_blockScript fun d => ?_)
      unfold snappyInJavaWrites
      split <;> exact tracked_putc_fwriteOk _ _

end Compress

/-! ## Decompressors -/

section Uncompress

variable {S : Snappy} {fault : Bool} {s : Bytes}

theorem oneWay_chunks (k : ℕ) (reading : Byte → Bytes → Reading) :
    (unroll (chunkPass k reading fault) () s).OneWay := by
  refine Script.oneWay_of_tracked
    (forall_writes_unroll (shrinks_chunkPass reading fault) ?_ ?_ () s)
  · intro r s ws r' rest h
    obtain ⟨b, c, -, -, rfl⟩ := (chunkPass_again_iff s ws rest).mp h
    cases c <;> simp [contentWrites, Write.Tracked]
  · intro r s sc h
    rcases chunkPass_finish h with rfl | ⟨rfl, -⟩ <;> simp

theorem oneWay_unframing (F : Framing) (skipMagic : Bool) :
    (framingUnscript F S skipMagic fault s).OneWay := by
  unfold framingUnscript
  split
  · exact oneWay_chunks _ _
  split
  · exact oneWay_chunks _ _
  · exact Or.inl (by decide)

/-- The decoders that write to the device themselves, below the buffer. -/
def WritesFull : Format → Prop
  | .snzip | .snappyJava | .snappyInJava => True
  | .framing2 | .hadoopSnappy | .raw | .iwa | .framing | .comment43 => False

theorem full_after_fflush {ρ : Type} {pass : ρ → Bytes → Pass ρ} (hp : Shrinks pass)
    (hagain : ∀ r s ws r' rest, pass r s = .again ws r' rest → ∃ u, ws = [.writeFull u])
    (hfinish : ∀ r s sc, pass r s = .finish sc → sc.writes = [] ∧ sc.verdict.Blind) (r : ρ)
    (s : Bytes) : (∀ w ∈ ((unroll pass r s).after [.fflush]).writes, w.Full) ∧
      ((unroll pass r s).after [.fflush]).verdict.Blind := by
  refine ⟨List.forall_mem_append.mpr ⟨by simp [Write.Full], ?_⟩,
    verdict_unroll hp (fun r s sc h => (hfinish r s sc h).2) r s⟩
  refine forall_writes_unroll hp ?_ ?_ r s
  · intro r s ws r' rest h
    obtain ⟨u, rfl⟩ := hagain r s ws r' rest h
    simp [Write.Full]
  · intro r s sc h
    rw [(hfinish r s sc h).1]
    simp

/-- **Those decoders take note of every write.** -/
theorem full_uncompress {f : Format} (hf : WritesFull f) (L : Library) (g : Globals)
    (skipMagic : Bool) :
    (∀ w ∈ (f.uncompressScript L g skipMagic fault s).writes, w.Full) ∧
      (f.uncompressScript L g skipMagic fault s).verdict.Blind := by
  have hstatus : (∀ w ∈ (Script.mk [] (.status 1)).writes, w.Full) ∧
      (Script.mk [] (.status 1)).verdict.Blind := ⟨by simp, trivial⟩
  cases f with
  | snzip =>
    rw [Format.uncompressScript, snzUnscript]
    split
    · exact hstatus
    split
    · exact hstatus
    refine full_after_fflush shrinks_snzPassOf ?_ ?_ () _
    · intro r s ws r' rest h
      obtain ⟨b, u, -, -, rfl⟩ := (snzPassOf_again_iff s ws rest).mp h
      exact ⟨u, rfl⟩
    · intro r s sc h
      rcases snzPassOf_finish h with rfl | ⟨rfl, -⟩ <;> exact ⟨rfl, trivial⟩
  | snappyJava =>
    rw [Format.uncompressScript, snappyJavaUnscript]
    split
    · exact hstatus
    refine full_after_fflush shrinks_snappyJavaPassOf ?_ ?_ () _
    · intro r s ws r' rest h
      obtain ⟨b, u, -, -, rfl⟩ := (snappyJavaPassOf_again_iff s ws rest).mp h
      exact ⟨u, rfl⟩
    · intro r s sc h
      rcases snappyJavaPassOf_finish h with rfl | rfl | ⟨rfl, -⟩ <;> exact ⟨rfl, trivial⟩
  | snappyInJava =>
    rw [Format.uncompressScript, snappyInJavaUnscript]
    split
    · exact hstatus
    refine full_after_fflush shrinks_snappyInJavaPassOf ?_ ?_ () _
    · intro r s ws r' rest h
      obtain ⟨b, u, -, -, rfl⟩ := (snappyInJavaPassOf_again_iff s ws rest).mp h
      exact ⟨u, rfl⟩
    · intro r s sc h
      rcases snappyInJavaPassOf_finish h with rfl | ⟨rfl, -⟩ <;> exact ⟨rfl, trivial⟩
  | framing2 => exact hf.elim
  | hadoopSnappy => exact hf.elim
  | raw => exact hf.elim
  | iwa => exact hf.elim
  | framing => exact hf.elim
  | comment43 => exact hf.elim

theorem oneWay_full {f : Format} (hf : WritesFull f) (L : Library) (g : Globals)
    (skipMagic : Bool) : (f.uncompressScript L g skipMagic fault s).OneWay := by
  have hatDevice : ∀ w ∈ (f.uncompressScript L g skipMagic fault s).writes, w.AtDevice :=
    fun w hw => ((full_uncompress hf L g skipMagic).1 w hw).atDevice
  exact Script.oneWay_of_atDevice hatDevice (full_uncompress hf L g skipMagic).2

/-- **How a decompressor writes.** -/
theorem oneWay_uncompress (L : Library) (g : Globals) (skipMagic : Bool) (f : Format) :
    (f.uncompressScript L g skipMagic fault s).OneWay := by
  cases f with
  | framing2 => exact oneWay_unframing Snzip.framing2 skipMagic
  | framing => exact oneWay_unframing Snzip.framing skipMagic
  | iwa => exact oneWay_chunks _ _
  | raw => exact oneWay_rawScript _ _ _ _ _
  | hadoopSnappy =>
    obtain ⟨ws, k, hsc, -, hws⟩ := hadoopUnscript_status (S := L.snappy) g skipMagic fault s
    rw [Format.uncompressScript, hsc]
    refine Script.oneWay_of_tracked fun w hw => ?_
    obtain ⟨u, -, rfl⟩ := hws w hw
    trivial
  | comment43 =>
    refine Script.oneWay_of_tracked (forall_writes_unroll shrinks_comment43PassOf ?_ ?_ _ s)
    · intro r s ws r' rest h
      obtain ⟨type, data, -, -, ⟨-, rfl⟩ | ⟨u, -, -, -, rfl⟩⟩ := comment43PassOf_again h
      · simp
      · simp [Write.Tracked]
    · intro r s sc h
      rcases comment43PassOf_finish h with rfl | ⟨rfl, -⟩ <;> simp
  | snzip => exact oneWay_full (f := .snzip) trivial L g skipMagic
  | snappyJava => exact oneWay_full (f := .snappyJava) trivial L g skipMagic
  | snappyInJava => exact oneWay_full (f := .snappyInJava) trivial L g skipMagic

end Uncompress

/-! ## Jobs -/

/-- The state in which a round ends. -/
def endState {α : Type} : Outcome Sys α → Option Sys
  | .ret _ s | .exit _ s => some s
  | .diverge => none

/-- The codec of the job returns 0 on the device of `o`, though what it writes does not fit there.
-/
def Job.Overflows (env : Env) (opts : Options) (L : Library) (j : Job) (o : Name) : Prop :=
  (j.script L opts).Passes (env.buffering j.infile) (env.room o) ∧
    fits (env.room o) (bytesOf (j.script L opts).writes).length = false

section Job

variable {env : Env} {opts : Options} {L : Library} {infile o : Name} {s s' t : Sys} {j : Job}

theorem oneWay_script (L : Library) (opts : Options) (j : Job) : (j.script L opts).OneWay := by
  unfold Job.script
  split
  · exact oneWay_uncompress L j.globals j.skipMagic j.fmt
  · exact oneWay_compress L j.globals _ _ j.fmt

/-- **A decoder that writes to the device itself does not return 0 when the device is full.** -/
theorem not_overflows (hf : WritesFull j.fmt) (hu : opts.uncompress = true) :
    ¬ j.Overflows env opts L o := by
  rintro ⟨hp, hfit⟩
  have hfull : (∀ w ∈ (j.script L opts).writes, w.Full) ∧ (j.script L opts).verdict.Blind := by
    rw [Job.script, hu, if_pos rfl]
    exact full_uncompress hf L j.globals j.skipMagic
  rw [hp.fits hfull.1 hfull.2] at hfit
  cases hfit

theorem result_eq_playback (h : Opens env opts infile s j s') :
    j.result env opts L =
      Result.of ((j.script L opts).playback (OutFile.opened (env.buffering j.infile) none)) := by
  rw [Job.result, Codec.run, codec_playback h]

theorem Opens.file (h : Opens env opts infile s j s') (ho : j.outfile = some o) :
    o ≠ infile ∧ s'.files infile = some j.content ∧
      j.outFile env s' = OutFile.opened (env.buffering j.infile) (env.room o) := by
  have hstd : opts.stdout = false := by
    rcases h.outfile with ⟨-, h', -⟩ | ⟨-, h', -⟩
    · rw [ho] at h'
      cases h'
    · exact h'
  obtain ⟨o', ho', hne, hfiles, hout⟩ := h.toFile hstd
  rw [ho] at ho'
  cases ho'
  exact ⟨hne, by rw [hfiles, Function.update_of_ne hne.symm]; exact h.content, hout⟩

/-- **An input is deleted in a round that goes on, and in no other.** -/
theorem afterOpen_deletes (h : Opens env opts infile s j s') (ho : j.outfile = some o)
    (ht : endState (afterOpen env opts L j s') = some t) (hgone : t.files j.infile = none) :
    opts.keep = false ∧ afterOpen env opts L j s' = .ret none t := by
  obtain ⟨hne, hinfile, -⟩ := h.file ho
  have hstays : ∀ c, Function.update s'.files o c j.infile ≠ none := by
    intro c
    rw [h.name, Function.update_of_ne hne.symm, hinfile]
    exact Option.some_ne_none _
  unfold afterOpen at ht ⊢
  split at ht
  · next n w hw =>
    split at ht
    · cases ht
      rw [files_unlinkOutput ho] at hgone
      exact absurd hgone (hstays _)
    split at ht
    · cases ht
      rw [files_closeOutput ho] at hgone
      exact absurd hgone (hstays _)
    · next hn hkeep =>
      cases ht
      rw [if_neg hn, if_neg hkeep]
      exact ⟨Bool.eq_false_iff.mpr hkeep, rfl⟩
  · cases ht
    rw [files_closeOutput ho] at hgone
    exact absurd hgone (hstays _)
  · cases ht

/-- A round that deletes the input: the codec has returned 0, and its stream has been closed. -/
theorem afterOpen_files (h : Opens env opts infile s j s') (ho : j.outfile = some o)
    (hkeep : opts.keep = false) (ht : afterOpen env opts L j s' = .ret none t) :
    ∃ w, j.codec L opts ⟨j.inp, j.outFile env s'⟩ = .ret 0 w ∧ t.files j.infile = none ∧
      t.files o = some w.out.written := by
  obtain ⟨w, hw, -, -, -, hfiles⟩ := afterOpen_next ho ht
  rw [hkeep, if_neg Bool.false_ne_true] at hfiles
  refine ⟨w, hw, ?_, ?_⟩
  · rw [hfiles, Function.update_self]
  · rw [hfiles, Function.update_of_ne (h.name ▸ (h.file ho).1), Function.update_self]

theorem afterOpen_of_codec (hkeep : opts.keep = false) {w : World}
    (hw : j.codec L opts ⟨j.inp, j.outFile env s'⟩ = .ret 0 w) :
    ∃ t, afterOpen env opts L j s' = .ret none t := by
  rw [afterOpen, hw]
  simp [hkeep]

/-- The codec on the device of `o`, with the bytes that a last flush leaves there. -/
theorem view_codec (h : Opens env opts infile s j s') (ho : j.outfile = some o) {out : Bytes} :
    ((j.script L opts).playback (OutFile.opened (env.buffering j.infile) (env.room o))).view
      OutFile.written =
        .ret 0 out ↔
      ∃ w, j.codec L opts ⟨j.inp, j.outFile env s'⟩ = .ret 0 w ∧ w.out.written = out := by
  rw [(h.file ho).2.2, ← codec_playback h, Outcome.view_eq_ret]
  simp only [Outcome.view_eq_ret]
  constructor
  · rintro ⟨o', ⟨w, hw, rfl⟩, hout⟩
    exact ⟨w, hw, hout⟩
  · rintro ⟨w, hw, hout⟩
    exact ⟨w.out, ⟨w, hw, rfl⟩, hout⟩

/-- **A round deletes its input only after it has been copied, exactly unless its job overflows.**
-/
theorem copied_iff (h : Opens env opts infile s j s') (ho : j.outfile = some o) :
    (∀ t, endState (afterOpen env opts L j s') = some t → t.files j.infile = none →
        ∃ out, t.files o = some out ∧ j.result env opts L = ⟨some 0, out⟩) ↔
      (opts.keep = false → ¬ j.Overflows env opts L o) := by
  have hcomplete := complete_iff (oneWay_script L opts j) (env.buffering j.infile) (env.room o)
  rw [Job.Overflows, result_eq_playback h]
  constructor
  · intro hcopy hkeep
    refine hcomplete.mp fun out hout => ?_
    obtain ⟨w, hw, rfl⟩ := (view_codec h ho).mp hout
    obtain ⟨t, ht⟩ := afterOpen_of_codec hkeep hw
    obtain ⟨w', hw', hgone, hfile⟩ := afterOpen_files h ho hkeep ht
    obtain ⟨out', hout', hresult⟩ := hcopy t (by rw [ht]; rfl) hgone
    rw [hw] at hw'
    cases hw'
    rw [hfile] at hout'
    cases hout'
    exact hresult
  · intro hno t ht hgone
    obtain ⟨hkeep, ht⟩ := afterOpen_deletes h ho ht hgone
    obtain ⟨w, hw, -, hfile⟩ := afterOpen_files h ho hkeep ht
    exact ⟨_, hfile, hcomplete.mpr (hno hkeep) _ ((view_codec h ho).mpr ⟨w, hw, rfl⟩)⟩

end Job

/-! ## Runs -/

/-- When an input is deleted, the file for its output holds all that the codec makes of it. -/
def DeletesOnlyCopied (env : Env) (opts : Options) (L : Library) (files : List Name) (s : Sys) :
    Prop :=
  ∀ fmt, namedFormat opts s.fmt = some fmt →
    ∀ j s', Reaches env opts L files { s with fmt := fmt } j s' →
      ∀ t, endState (afterOpen env opts L j s') = some t → t.files j.infile = none →
        ∀ o, j.outfile = some o →
          ∃ out, t.files o = some out ∧ j.result env opts L = ⟨some 0, out⟩

/-- **A run deletes only what has been copied exactly if no job overflows its device.** -/
theorem deletesOnlyCopied_iff (env : Env) (opts : Options) (L : Library) (files : List Name)
    (s : Sys) :
    DeletesOnlyCopied env opts L files s ↔ ∀ fmt, namedFormat opts s.fmt = some fmt →
      ∀ j s', Reaches env opts L files { s with fmt := fmt } j s' →
        ∀ o, j.outfile = some o → opts.keep = false → ¬ j.Overflows env opts L o := by
  unfold DeletesOnlyCopied
  constructor
  · intro h fmt hfmt j s' hr o ho
    obtain ⟨infile, s₀, hopen⟩ := hr.opens
    exact (copied_iff hopen ho).mp fun t ht hgone => h fmt hfmt j s' hr t ht hgone o ho
  · intro h fmt hfmt j s' hr t ht hgone o ho
    obtain ⟨infile, s₀, hopen⟩ := hr.opens
    exact (copied_iff hopen ho).mpr (h fmt hfmt j s' hr o ho) t ht hgone

/-- On a device with room for 3 bytes an empty file is compressed to 10 bytes, of which 3 are left,
and then deleted. -/
theorem not_deletesOnlyCopied :
    ¬ DeletesOnlyCopied ⟨fun _ => .stdio 4096, fun _ => false, fun _ => some 3, fun _ => true⟩
      ⟨false, false, false, none, 0#32⟩ ⟨literalSnappy, 0⟩ [['a']]
      (.initial fun n => if n = ['a'] then some [] else none) := by
  intro h
  obtain ⟨out, hout, hresult⟩ := h .framing2 rfl _ _ (.here (opens_of_openFiles rfl) rfl) _ rfl rfl
    (['a'] ++ '.' :: Format.framing2.suffix) rfl
  cases hout
  cases hresult

end Snzip
