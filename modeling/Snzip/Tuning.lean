import Snzip.Streaming

set_option autoImplicit false

/-!
# How the output is buffered

The size of a buffer and the library decide when bytes go to the device, and as long as the device
takes them that is all.

* **`oneSided_compress`**, **`oneSided_uncompress`**: a codec writes to its buffer or past it, and
  never changes over;
* `afterOpen_buffering`: a round with other buffers;
* **`mainFiles_buffering`**: a run with other buffers ends in the same way, with the same files.
-/

namespace Snzip

open CProg

/-! ## The sides of a codec -/

section Sides

variable {fault : Bool} {s : Bytes}

theorem oneSided_of_tracked {sc : Script} (h : ∀ w ∈ sc.writes, w.Tracked) : sc.OneSided :=
  Or.inl fun w hw => (h w hw).atBuffer

theorem oneSided_rawScript (client : Client) (bufsiz fuel : ℕ) (replies : List Reply)
    (src : FileSource) : (rawScript client bufsiz fault fuel replies src s).OneSided := by
  refine Or.inr ?_
  induction fuel generalizing replies src s with
  | zero => simp [rawScript]
  | succ fuel ih =>
    rw [rawScript]
    cases client replies with
    | available | peek | skip m => exact ih _ _
    | append bs =>
      simp only [appended]
      split
      · simp
      · exact List.forall_mem_cons.mpr ⟨trivial, ih _ _⟩
    | done ok => simp

/-- **A compressor writes to its buffer**, except that of the raw format. -/
theorem oneSided_compress (L : Library) (g : Globals) (stSize : Option (BitVec 64))
    (blockSize : BitVec 64) (f : Format) :
    (f.compressScript L g stSize blockSize fault s).OneSided := by
  cases f with
  | framing2 | framing =>
    refine Or.inl (List.forall_mem_append.mpr ⟨by simp [Write.AtBuffer], ?_⟩)
    exact List.forall_mem_append.mpr
      ⟨atBuffer_blocks fun d => tracked_putc_fwriteOk _ _, by simp⟩
  | comment43 =>
    refine Or.inl (List.forall_mem_append.mpr ⟨by simp [Write.AtBuffer], ?_⟩)
    refine List.forall_mem_append.mpr ⟨atBuffer_blocks fun d => tracked_putc_fwriteOk _ _, ?_⟩
    cases fault <;> simp [comment43Tail, Write.AtBuffer]
  | raw =>
    simp only [Format.compressScript, rawCompressScript]
    generalize (if blockSize = 0#64 then kBlockSize else blockSize) = b
    split
    · exact Or.inl (by simp)
    · split
      · exact Or.inl (by simp)
      · exact oneSided_rawScript _ _ _ _ _
  | iwa =>
    refine oneSided_of_tracked (tracked_after (tracked_blocks fun d => ?_) (by simp))
    exact tracked_putc_fwriteOk _ _
  | hadoopSnappy =>
    refine oneSided_of_tracked ?_
    simp only [Format.compressScript, hadoopScript]
    split
    · simp
    split
    · simp
    · exact tracked_after (tracked_blocks fun d => by simp [hadoopWrites, Write.Tracked]) (by simp)
  | snzip =>
    refine oneSided_of_tracked ?_
    simp only [Format.compressScript, snzScript]
    split
    · simp
    · refine tracked_after (by simp [Write.Tracked]) (tracked_after (tracked_blocks fun d => ?_) ?_)
      · exact tracked_putc_fwriteOk _ _
      · cases fault <;> simp [snzTail, Write.Tracked]
  | snappyJava =>
    refine oneSided_of_tracked (tracked_after (by simp [Write.Tracked]) ?_)
    exact tracked_blockScript fun d => tracked_putc_fwriteOk _ _
  | snappyInJava =>
    refine oneSided_of_tracked ?_
    simp only [Format.compressScript, snappyInJavaScript]
    generalize (if blockSize = 0#64 then snappyInJavaDefaultBlockSize else blockSize) = b
    split
    · simp
    · refine tracked_after (by simp [Write.Tracked]) (tracked_blockScript fun d => ?_)
      unfold snappyInJavaWrites
      split <;> exact tracked_putc_fwriteOk _ _

theorem oneSided_uncompress (L : Library) (g : Globals) (skipMagic : Bool) (f : Format) :
    (f.uncompressScript L g skipMagic fault s).OneSided := by
  by_cases hf : f = .raw
  · subst hf
    exact oneSided_rawScript _ _ _ _ _
  · exact oneSided_of_appends (appends_uncompress hf L g skipMagic fault s)

end Sides

/-! ## Runs -/

section Runs

variable {env : Env} {opts : Options} {L : Library} {infile : Name} {s s' : Sys} {j : Job}

theorem oneSided_script (L : Library) (opts : Options) (j : Job) : (j.script L opts).OneSided := by
  unfold Job.script
  split
  · exact oneSided_uncompress ..
  · exact oneSided_compress ..

theorem codec_buffering (h : Opens env opts infile s j s') (B B' : Buffering) :
    (j.codec L opts ⟨j.inp, OutFile.opened B none⟩).view (fun w => w.out.written) =
      (j.codec L opts ⟨j.inp, OutFile.opened B' none⟩).view fun w => w.out.written := by
  have hview : ∀ r : Outcome World ℕ, r.view (fun w => w.out.written) =
      (r.view World.out).view OutFile.written := by
    intro r
    cases r <;> rfl
  simp only [hview, codec_playback (L := L) h, view_playback (oneSided_script L opts j)]

theorem afterOpen_buffering (h : Opens env opts infile s j s') (hroom : ∀ o, env.room o = none)
    (hstd : opts.stdout = false) (buf : Name → Buffering) :
    afterOpen { env with buffering := buf } opts L j s' = afterOpen env opts L j s' := by
  obtain ⟨o, ho, -, -, hout⟩ := h.toFile hstd
  have hout' : j.outFile { env with buffering := buf } s' =
      OutFile.opened (buf j.infile) none := by
    rw [Job.outFile, ho]
    exact congrArg (OutFile.opened (buf j.infile)) (hroom o)
  have hcodec := codec_buffering (L := L) h (buf j.infile) (env.buffering j.infile)
  rw [afterOpen, afterOpen, hout', hout, hroom]
  cases h₁ : j.codec L opts ⟨j.inp, OutFile.opened (buf j.infile) none⟩ with
  | ret n w =>
    cases h₂ : j.codec L opts ⟨j.inp, OutFile.opened (env.buffering j.infile) none⟩ with
    | ret n' w' =>
      rw [h₁, h₂] at hcodec
      obtain ⟨rfl, hw⟩ := Outcome.ret.inj hcodec
      simp only [closeOutput, unlinkOutput, ho, hw]
    | exit n' w' => rw [h₁, h₂] at hcodec; cases hcodec
    | diverge => rw [h₁, h₂] at hcodec; cases hcodec
  | exit n w =>
    cases h₂ : j.codec L opts ⟨j.inp, OutFile.opened (env.buffering j.infile) none⟩ with
    | exit n' w' =>
      rw [h₁, h₂] at hcodec
      obtain ⟨rfl, hw⟩ := Outcome.exit.inj hcodec
      simp only [closeOutput, ho, hw]
    | ret n' w' => rw [h₁, h₂] at hcodec; cases hcodec
    | diverge => rw [h₁, h₂] at hcodec; cases hcodec
  | diverge =>
    cases h₂ : j.codec L opts ⟨j.inp, OutFile.opened (env.buffering j.infile) none⟩ with
    | diverge => rfl
    | ret n' w' => rw [h₁, h₂] at hcodec; cases hcodec
    | exit n' w' => rw [h₁, h₂] at hcodec; cases hcodec

theorem processFile_buffering (hroom : ∀ o, env.room o = none) (hstd : opts.stdout = false)
    (buf : Name → Buffering) (infile : Name) (s : Sys) :
    processFile { env with buffering := buf } opts L infile s =
      processFile env opts L infile s := by
  have hopen : openFiles { env with buffering := buf } opts infile s =
      openFiles env opts infile s := rfl
  cases h : openFiles env opts infile s with
  | ret r s' =>
    cases r with
    | none => simp only [processFile, bind_apply, hopen, h, Outcome.bind_ret, pure_apply]
    | some j =>
      rw [processFile_opened (opens_of_openFiles (hopen.trans h)) (hopen.trans h),
        processFile_opened (opens_of_openFiles h) h,
        afterOpen_buffering (opens_of_openFiles h) hroom hstd]
  | exit n s' => simp only [processFile, bind_apply, hopen, h, Outcome.bind_exit]
  | diverge => simp only [processFile, bind_apply, hopen, h, Outcome.bind_diverge]

/-- **A run with its outputs buffered in another way** ends in the same way, in the same state. -/
theorem mainFiles_buffering (hroom : ∀ o, env.room o = none) (hstd : opts.stdout = false)
    (buf : Name → Buffering) (names : List Name) (s : Sys) :
    mainFiles { env with buffering := buf } opts L names s = mainFiles env opts L names s := by
  have hrun : ∀ names s, runFiles { env with buffering := buf } opts L names s =
      runFiles env opts L names s := by
    intro names
    induction names with
    | nil => exact fun _ => rfl
    | cons n names ih =>
      intro s
      rw [runFiles_cons, runFiles_cons, processFile_buffering hroom hstd]
      congr 1
      funext r
      cases r with
      | none => exact funext ih
      | some k => rfl
  rw [mainFiles_eq, mainFiles_eq]
  cases namedFormat opts s.fmt with
  | none => rfl
  | some fmt => exact hrun names _

/-- Two files of one byte each, with buffers of one byte and of a page. -/
theorem mainFiles_buffering_one :
    ∃ t, mainFiles Env.ideal (compressing .snappyJava) ⟨literalSnappy, 0⟩ [['a'], ['b']]
        (.initial fun _ => some [0x61#8]) = .ret 0 t ∧
      mainFiles { Env.ideal with buffering := fun _ => .stdio 1 } (compressing .snappyJava)
        ⟨literalSnappy, 0⟩ [['a'], ['b']] (.initial fun _ => some [0x61#8]) = .ret 0 t ∧
      t.files (['b'] ++ '.' :: Format.snappyJava.suffix) =
        some (snappyJavaHeader ++ [0x00#8, 0x00#8, 0x00#8, 0x03#8, 0x01#8, 0x00#8, 0x61#8]) := by
  have hview : (mainFiles Env.ideal (compressing .snappyJava) ⟨literalSnappy, 0⟩ [['a'], ['b']]
      (.initial fun _ => some [0x61#8])).view
        (fun t => t.files (['b'] ++ '.' :: Format.snappyJava.suffix)) = .ret 0
          (some (snappyJavaHeader ++
            [0x00#8, 0x00#8, 0x00#8, 0x03#8, 0x01#8, 0x00#8, 0x61#8])) := by
    decide +kernel
  obtain ⟨t, hrun, hfile⟩ := Outcome.view_eq_ret.mp hview
  have hsame := @mainFiles_buffering Env.ideal (compressing .snappyJava) ⟨literalSnappy, 0⟩
    (fun _ => rfl) rfl (fun _ => .stdio 1) [['a'], ['b']] (.initial fun _ => some [0x61#8])
  exact ⟨t, hrun, hsame.trans hrun, hfile⟩

end Runs

end Snzip
