import Snzip.Debris
import Snzip.RoundTrip.Framing
import Snzip.RoundTrip.Snz
import Snzip.RoundTrip.Java
import Snzip.RoundTrip.Comment43

set_option autoImplicit false

/-!
# Round trip of a file

A file is compressed by one run of the program and decompressed by another, which is told nothing
about the format.

* `tells_append`, **`encoded`**: a compressed file tells its format, and is decoded to the data;
* `checkSuffix_append`, **`outputName_append`**: the name of the output is taken back;
* `Opens.ret`: a codec with status 0 returns;
* **`compress_then_uncompress`**: the second run undoes the first.
-/

namespace Snzip

open CProg

/-! ## The content -/

section Content

theorem tells_append {f : Format} {m : Bytes} (hm : f.magic = some m) (rest : Bytes)
    (hsnz : f = .snzip → byteAt (m ++ rest) 4 ≠ 0x00#8) : Tells (m ++ rest) f := by
  refine ⟨m, hm, ?_, hsnz⟩
  rw [slice_eq_take (by rw [List.length_append]; omega), List.take_left]

theorem encoded_framing {S : Snappy} (hS : S.Contract) (F : Framing) (B : Buffering) (x : Bytes) :
    Codec.run B (framingFormatUncompress F S false) (.opened (framingEncode F S x)) =
      ⟨some 0, x⟩ := by
  have h := (run_framingFormatUncompress (F := F) hS B (List.cons_ne_nil x [])).2
  rwa [List.flatMap_singleton, List.flatten_singleton] at h

/-- **A compressed file tells its format, and the decompressor gives the data back.** -/
theorem encoded {L : Library} (hS : L.snappy.Contract) {f : Format} (hf : f.magic ≠ none)
    (g : Globals) (stSize : Option (BitVec 64)) (B B' : Buffering) (x : Bytes) :
    ∃ out, Codec.run B (f.compress L g stSize (sizeOfInt 0#32)) (.opened x) = ⟨some 0, out⟩ ∧
      Tells out f ∧
      ∀ g', Codec.run B' (f.uncompress L g' false) (.opened out) = ⟨some 0, x⟩ := by
  cases f with
  | hadoopSnappy | raw | iwa => exact absurd rfl hf
  | framing2 =>
    exact ⟨_, run_framingFormatCompress (F := Snzip.framing2) hS B (sizeOfInt 0#32) x,
      tells_append rfl _ (by simp), fun _ => encoded_framing hS Snzip.framing2 B' x⟩
  | framing =>
    exact ⟨_, run_framingFormatCompress (F := Snzip.framing) hS B (sizeOfInt 0#32) x,
      tells_append rfl _ (by simp), fun _ => encoded_framing hS Snzip.framing B' x⟩
  | snzip =>
    have hb : snzBlockSize (sizeOfInt 0#32) = some (65536#64, 16) := by decide
    refine ⟨_, run_snzipCompress hS hb B x, ?_,
      fun g' => run_snzipUncompress hS (show 16 ≤ 27 by decide) g' B' x⟩
    exact tells_append (m := snzMagic ++ [snzFileVersion]) rfl _
      fun _ => show byteOf 16 ≠ 0x00#8 by decide
  | snappyJava =>
    have hb : snappyJavaBlockSize (sizeOfInt 0#32) = 32768 := by decide
    have hc : ∀ d ∈ blocks 32768 x, (L.snappy.compress d).length < 2 ^ 31 := by
      intro d hd
      have hlen := length_of_mem_blocks hd
      have := hS.compress_le d (by omega)
      omega
    have hrun := run_snappyJavaCompress hS (show snappyJavaBlockSize (sizeOfInt 0#32) < 2 ^ 31 by
      omega) B x
    rw [hb] at hrun
    refine ⟨_, hrun, ?_, fun _ => run_snappyJavaUncompress hS (by decide) (by decide) hc B'⟩
    rw [snappyJavaEncode, snappyJavaHeader, List.append_assoc]
    exact tells_append rfl _ (by simp)
  | snappyInJava =>
    have hb : snappyInJavaBlockSize (sizeOfInt 0#32) = 32768 := by decide
    have hrun := run_snappyInJavaCompress hS (show snappyInJavaBlockSize (sizeOfInt 0#32) ≤ 65535 by
      omega) B x
    rw [hb] at hrun
    exact ⟨_, hrun, tells_append rfl _ (by simp),
      fun _ => run_snappyInJavaUncompress hS (by decide) (by decide) B' x⟩
  | comment43 =>
    exact ⟨_, run_comment43Compress hS (sizeOfInt 0#32) B x, tells_append rfl _ (by simp),
      fun _ => run_comment43Uncompress hS B' x⟩

end Content

/-! ## The names -/

/-- `snzip -t F`. -/
def compressing (f : Format) : Options := ⟨false, false, false, some f.name, 0#32⟩

/-- `snzip -d`. -/
def uncompressing : Options := ⟨true, false, false, none, 0#32⟩

/-- The part after the last dot, if there is one, is not the suffix of a format. -/
def NoKnownSuffix (n : Name) : Prop :=
  ∀ p t, n = p ++ '.' :: t → '.' ∉ t → ∀ f : Format, f.suffix ≠ t

section Names

variable {f : Format} {n o : Name}

theorem checkSuffix_compressing (h : NoKnownSuffix n) : checkSuffix (compressing f) n = true := by
  unfold checkSuffix
  cases hs : strrchr '.' n with
  | none => rfl
  | some suffix =>
    obtain ⟨p, t, rfl, rfl, ht⟩ := strrchr_eq_some hs
    have hnone : findStreamFormatBySuffix t = none :=
      findStreamFormatBySuffix_eq_none.mpr (h p t rfl ht)
    simp only [List.tail_cons, hnone]
    rfl

theorem checkSuffix_append (f : Format) (n : Name) :
    checkSuffix uncompressing (n ++ '.' :: f.suffix) = true := by
  obtain ⟨f', hf', -⟩ := findStreamFormatBySuffix_suffix f
  simp only [checkSuffix, strrchr_append f.dot_not_mem_suffix, List.tail_cons, hf']
  rfl

theorem outputName_compressing (h : outputName (compressing f) f n = some o) :
    o = n ++ '.' :: f.suffix ∧ n.length + f.suffix.length + 2 < pathMax := by
  simp only [outputName, compressing, Bool.false_eq_true, if_false] at h
  split at h
  · cases h
  next hlt =>
  cases h
  exact ⟨rfl, Nat.lt_of_not_le hlt⟩

/-- **The suffix is taken off again**, and the name fits. -/
theorem outputName_append (h : n.length + f.suffix.length + 2 < pathMax) :
    outputName uncompressing f (n ++ '.' :: f.suffix) = some n := by
  have hmax : pathMax = 4096 := rfl
  have hlen : (n ++ '.' :: f.suffix).length = n.length + f.suffix.length + 1 := by
    rw [List.length_append, List.length_cons]
    omega
  have hsize : (BitVec.ofNat 64 (n ++ '.' :: f.suffix).length +
      -BitVec.ofNat 64 f.suffix.length).toNat = n.length + 1 := by
    rw [hlen, BitVec.toNat_add, BitVec.toNat_neg, BitVec.toNat_ofNat, BitVec.toNat_ofNat]
    omega
  have hfits : ¬ n.length + 1 ≥ pathMax := by omega
  simp only [outputName, uncompressing, if_true, removeSuffix_append, hsize, hfits, if_false,
    take_append_suffix]

end Names

/-! ## The runs -/

section Runs

variable {env : Env} {opts : Options} {L : Library} {infile : Name} {s s' t : Sys} {j : Job}

/-- A codec with status 0 has returned: no codec ends the process with it. -/
theorem Opens.codec_ret (h : Opens env opts infile s j s') {out : Bytes}
    (hres : j.result env opts L = ⟨some 0, out⟩) :
    ∃ w, j.codec L opts ⟨j.inp, OutFile.opened (env.buffering j.infile) none⟩ = .ret 0 w ∧
      w.out.written = out := by
  have hplay := codec_playback (L := L) h (OutFile.opened (env.buffering j.infile) none)
  rw [Job.result, Codec.run] at hres
  cases hc : j.codec L opts ⟨j.inp, OutFile.opened (env.buffering j.infile) none⟩ with
  | ret n w =>
    rw [hc] at hres
    cases hres
    exact ⟨w, rfl, rfl⟩
  | exit n w =>
    rw [hc] at hplay hres
    cases hres
    exact absurd rfl (ne_zero_of_exits ((exit_playback_iff _).mp ⟨w.out, hplay.symm⟩))
  | diverge =>
    rw [hc] at hres
    cases hres

theorem Opens.ret (h : Opens env opts infile s j s') (hroom : ∀ o, env.room o = none)
    (hstd : opts.stdout = false) {out : Bytes} (hres : j.result env opts L = ⟨some 0, out⟩) :
    ∃ t, afterOpen env opts L j s' = .ret none t := by
  obtain ⟨o, -, -, -, hout⟩ := h.toFile hstd
  obtain ⟨w, hc, -⟩ := h.codec_ret hres
  rw [afterOpen, hout, hroom, hc]
  cases hk : opts.keep with
  | true => exact ⟨_, rfl⟩
  | false => exact ⟨_, rfl⟩

theorem openFiles_found {content : Bytes} {f : Format} {p : Probe} {o : Name}
    (hsuffix : checkSuffix uncompressing infile = true) (hnil : infile ≠ [])
    (hcontent : s.files infile = some content)
    (hfound : findStreamFormatByFileHeader ⟨env.stream infile content, [], s.globals⟩ =
      .ret (some f) p)
    (ho : outputName uncompressing f infile = some o) (hne : o ≠ [])
    (hwritable : env.writable o = true) :
    ∃ s', openFiles env uncompressing infile s =
      .ret (some ⟨infile, content, p.inp, true, f, p.globals, some o⟩) s' := by
  have hskip : skipsMagic uncompressing = true := rfl
  have hfmt : findFormat uncompressing (env.stream infile content) { s with current := none } =
      .ret p.inp { s with current := none, fmt := f, globals := p.globals } := by
    simp only [findFormat, hskip, if_true, hfound]
  have hopen : ∀ t : Sys, t.fmt = f → openOutput env uncompressing infile t =
      .ret (some o) { t with files := Function.update t.files o (some []) } := by
    rintro t rfl
    rw [openOutput, ite_prog, if_neg (by decide), bind_apply, getSys_apply, Outcome.bind_ret, ho]
    simp only [hne, hwritable, decide_false, Bool.not_true, Bool.or_self, Bool.false_eq_true,
      if_false]
    rfl
  unfold openFiles
  simp only [bind_apply, setCurrent_apply, getSys_apply, Outcome.bind_ret, hsuffix, Bool.not_true,
    Bool.false_eq_true, if_false, hnil, hcontent]
  rw [hfmt, Outcome.bind_ret, bind_apply, hopen _ rfl, Outcome.bind_ret]
  exact ⟨_, rfl⟩

theorem processFile_of_runFiles (h : runFiles env opts L [infile] s = .ret 0 t) :
    processFile env opts L infile s = .ret none t := by
  rw [runFiles_cons] at h
  cases hp : processFile env opts L infile s with
  | ret r t' =>
    rw [hp] at h
    cases r with
    | none => cases h; rfl
    | some n =>
      cases h
      exact absurd (processFile_return hp) (by decide)
  | exit n t' => rw [hp] at h; cases h
  | diverge => rw [hp] at h; cases h

theorem compressed {f : Format} {n : Name} (hroom : ∀ o, env.room o = none)
    (hfault : ∀ i, env.fault i = false) (hn : NoKnownSuffix n)
    (h : mainFiles env (compressing f) L [n] s = .ret 0 t) :
    ∃ x out g, n ≠ [] ∧ n.length + f.suffix.length + 2 < pathMax ∧ s.files n = some x ∧
      Codec.run (env.buffering n) (f.compress L g (some (BitVec.ofNat 64 x.length))
        (sizeOfInt 0#32)) (.opened x) = ⟨some 0, out⟩ ∧
      t.files (n ++ '.' :: f.suffix) = some out ∧ t.files n = none ∧
      ∀ m, m ≠ n → m ≠ n ++ '.' :: f.suffix → t.files m = s.files m := by
  rw [mainFiles_eq, show namedFormat (compressing f) s.fmt = some f from
    findStreamFormatByName_name f] at h
  have hp := processFile_of_runFiles h
  have hround := processFile_cases env (compressing f) L n { s with fmt := f }
  rw [hp] at hround
  generalize hq : Outcome.ret none t = q at hround
  cases hround with
  | skipped hs =>
    rw [checkSuffix_compressing hn] at hs
    cases hs
  | refused => cases hq
  | @opened j t₁ ho hopen =>
    obtain ⟨o, out, he⟩ := ho.effect hroom rfl hq.symm
    have hskip : skipsMagic (compressing f) = false := rfl
    have hfinds := ho.finds
    rw [Finds, hskip, if_neg Bool.false_ne_true] at hfinds
    obtain ⟨hinp, hfmt, -⟩ := hfinds
    have hname : outputName (compressing f) f n = some o := by
      rcases ho.outfile with ⟨hstd, -⟩ | ⟨o', -, ho', hname, -⟩
      · cases hstd
      · rw [he.outfile] at ho'
        cases ho'
        rw [hfmt] at hname
        exact hname
    obtain ⟨rfl, hlen⟩ := outputName_compressing hname
    have hcodec : j.result env (compressing f) L = Codec.run (env.buffering n) (f.compress L
        j.globals (some (BitVec.ofNat 64 j.content.length)) (sizeOfInt 0#32))
          (.opened j.content) := by
      have hstream : j.inp = .opened j.content := by
        rw [hinp, Env.stream, hfault]
        rfl
      rw [Job.result, Job.codec, hstream, hfmt, ho.name]
      rfl
    exact ⟨j.content, out, j.globals, ho.ne_nil, hlen, ho.content, hcodec.symm.trans he.result,
      he.output, he.deleted rfl, fun m hm hm' => he.other m hm' (Or.inr hm)⟩

/-- **A file that was compressed comes back**: `snzip -d` finds the format by the header, makes the
name, and leaves the files as they were before `snzip -t F`. -/
theorem compress_then_uncompress (hroom : ∀ o, env.room o = none)
    (hfault : ∀ i, env.fault i = false) (hwritable : ∀ o, env.writable o = true)
    (hS : L.snappy.Contract) {f : Format} (hf : f.magic ≠ none) {n : Name} (hn : NoKnownSuffix n)
    {x : Bytes} (hx : s.files n = some x) {s₁ s₂ : Sys}
    (hrun : mainFiles env (compressing f) L [n] s = .ret 0 s₁) (hs₂ : s₂.files = s₁.files) :
    ∃ s₃ j, mainFiles env uncompressing L [n ++ '.' :: f.suffix] s₂ = .ret 0 s₃ ∧
      s₃.current = some j ∧ j.fmt = f ∧ j.skipMagic = true ∧ j.outfile = some n ∧
      s₃.files n = some x ∧ s₃.files (n ++ '.' :: f.suffix) = none ∧
      ∀ m, m ≠ n → m ≠ n ++ '.' :: f.suffix → s₃.files m = s.files m := by
  obtain ⟨x', out, g, hnil, hlen, hx', hcodec, hout, hgone, hother⟩ :=
    compressed hroom hfault hn hrun
  obtain rfl : x = x' := Option.some.inj (hx.symm.trans hx')
  obtain ⟨out', hcodec', htells, hback⟩ := encoded hS hf g
    (some (BitVec.ofNat 64 x.length)) (env.buffering n) (env.buffering (n ++ '.' :: f.suffix)) x
  obtain rfl : out' = out := by
    rw [hcodec] at hcodec'
    cases hcodec'
    rfl
  obtain ⟨p, hfound, hskip⟩ := found_of_tells L s₂.globals s₂.globals htells
    (env.buffering (n ++ '.' :: f.suffix))
  have hstream : env.stream (n ++ '.' :: f.suffix) out' = .opened out' := by
    rw [Env.stream, hfault]
    rfl
  have hcontent : s₂.files (n ++ '.' :: f.suffix) = some out' := by rw [hs₂, hout]
  have hheader : findStreamFormatByFileHeader
      ⟨env.stream (n ++ '.' :: f.suffix) out', [], s₂.globals⟩ = .ret (some f) p := by
    rw [hstream]
    exact hfound
  obtain ⟨t₁, hopen⟩ := openFiles_found (checkSuffix_append f n) (by simp) hcontent hheader
    (outputName_append hlen) hnil (hwritable n)
  have ho := opens_of_openFiles hopen
  obtain ⟨t, ht⟩ := ho.ret (L := L) hroom rfl (hskip.trans (hback s₂.globals))
  obtain ⟨o, out₂, he⟩ := ho.effect hroom rfl ht
  obtain rfl : n = o := Option.some.inj he.outfile
  obtain rfl : out₂ = x :=
    congrArg Result.written (he.result.symm.trans (hskip.trans (hback s₂.globals)))
  have hmain : mainFiles env uncompressing L [n ++ '.' :: f.suffix] s₂ = .ret 0 t := by
    have hp := (processFile_opened (L := L) ho hopen).trans ht
    have hnamed : namedFormat uncompressing s₂.fmt = some s₂.fmt := rfl
    rw [mainFiles_eq, hnamed]
    simp only
    rw [runFiles_cons, hp]
    rfl
  refine ⟨t, _, hmain, he.current, rfl, rfl, rfl, he.output, he.deleted rfl, fun m hm hm' => ?_⟩
  rw [he.other m hm (Or.inr hm'), hs₂, hother m hm hm']

end Runs

/-- Two bytes, and a name with a dot. -/
theorem compress_then_uncompress_dotted :
    ∃ s₁ s₃, mainFiles Env.ideal (compressing .snappyJava) ⟨literalSnappy, 0⟩ [['a', '.', 'b']]
        (.initial fun n => if n = ['a', '.', 'b'] then some [0x61#8, 0x62#8] else none) =
          .ret 0 s₁ ∧
      mainFiles Env.ideal uncompressing ⟨literalSnappy, 0⟩
        [['a', '.', 'b', '.', 's', 'n', 'a', 'p', 'p', 'y']] s₁ = .ret 0 s₃ ∧
      s₃.files ['a', '.', 'b'] = some [0x61#8, 0x62#8] := by
  have hn : NoKnownSuffix ['a', '.', 'b'] := by
    intro p t hp ht f
    have hs := strrchr_append ht p
    rw [← hp] at hs
    obtain rfl : ['b'] = t := by cases hs; rfl
    cases f <;> decide
  obtain ⟨s₁, hrun⟩ : ∃ s₁, mainFiles Env.ideal (compressing .snappyJava) ⟨literalSnappy, 0⟩
      [['a', '.', 'b']] (.initial fun n => if n = ['a', '.', 'b'] then some [0x61#8, 0x62#8]
        else none) = .ret 0 s₁ := ⟨_, rfl⟩
  obtain ⟨s₃, j, hmain, -, -, -, -, hback, -⟩ := compress_then_uncompress (fun _ => rfl)
    (fun _ => rfl) (fun _ => rfl) contract_literalSnappy (by decide) hn rfl hrun rfl
  exact ⟨s₁, s₃, hrun, hmain, hback⟩

end Snzip
