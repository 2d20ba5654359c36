import Snzip.FullDisk
import Snzip.RoundTrip.Files
import Snzip.Survival

set_option autoImplicit false

/-!
# Several files on the standard output

One run may decompress several files to the standard output. Four of the formats go through its
buffer and three past it, and the headers that have been read leave their lengths in globals.

* `toStdout`: the options; `Going`: the state between two files;
* **`appends_uncompress`**: how each decompressor writes;
* `Emits`, **`emits_of_round`**: what a round writes does not depend on the rounds before;
* `Alone`, **`stdout_concatenation`**: a run writes what its files give one by one.
-/

namespace Snzip

open CProg

/-! ## Decompressors -/

theorem appends_full {f : Format} (hf : WritesFull f) (L : Library) (g : Globals)
    (skipMagic fault : Bool) (s : Bytes) :
    (f.uncompressScript L g skipMagic fault s).Appends := by
  have hdevice : ∀ w ∈ (f.uncompressScript L g skipMagic fault s).writes, w.AtDevice :=
    fun w hw => ((full_uncompress hf L g skipMagic).1 w hw).atDevice
  have hsplit : (f.uncompressScript L g skipMagic fault s).writes = [] ∨
      ∃ ws, (f.uncompressScript L g skipMagic fault s).writes = .fflush :: ws := by
    cases f with
    | snzip =>
      rw [Format.uncompressScript, snzUnscript]
      split
      · exact Or.inl rfl
      split
      · exact Or.inl rfl
      · exact Or.inr ⟨_, rfl⟩
    | snappyJava =>
      rw [Format.uncompressScript, snappyJavaUnscript]
      split
      · exact Or.inl rfl
      · exact Or.inr ⟨_, rfl⟩
    | snappyInJava =>
      rw [Format.uncompressScript, snappyInJavaUnscript]
      split
      · exact Or.inl rfl
      · exact Or.inr ⟨_, rfl⟩
    | framing2 | framing | iwa | raw | hadoopSnappy | comment43 => exact hf.elim
  rcases hsplit with hnil | ⟨ws, hws⟩
  · refine Or.inl fun w hw => ?_
    rw [hnil] at hw
    cases hw
  · refine Or.inr ⟨ws, hws, fun w hw => hdevice w ?_⟩
    rw [hws]
    exact List.mem_cons_of_mem _ hw

/-- **How a decompressor writes.** -/
theorem appends_uncompress {f : Format} (hf : f ≠ .raw) (L : Library) (g : Globals)
    (skipMagic fault : Bool) (s : Bytes) :
    (f.uncompressScript L g skipMagic fault s).Appends := by
  have hchunks : ∀ (k : ℕ) (reading : Byte → Bytes → Reading) (t : Bytes),
      (unroll (chunkPass k reading fault) () t).Appends := by
    intro k reading t
    refine Or.inl (forall_writes_unroll (shrinks_chunkPass reading fault) ?_ ?_ () t)
    · intro r s ws r' rest h
      obtain ⟨b, c, -, -, rfl⟩ := (chunkPass_again_iff s ws rest).mp h
      cases c <;> simp [contentWrites, Write.AtBuffer]
    · intro r s sc h
      rcases chunkPass_finish h with rfl | ⟨rfl, -⟩ <;> simp
  have hframing : ∀ F : Framing, (framingUnscript F L.snappy skipMagic fault s).Appends := by
    intro F
    unfold framingUnscript
    split
    · exact hchunks _ _ _
    split
    · exact hchunks _ _ _
    · exact Or.inl (by simp)
  cases f with
  | raw => exact absurd rfl hf
  | framing2 => exact hframing Snzip.framing2
  | framing => exact hframing Snzip.framing
  | iwa => exact hchunks _ _ _
  | snzip => exact appends_full (f := .snzip) trivial L g skipMagic fault s
  | snappyJava => exact appends_full (f := .snappyJava) trivial L g skipMagic fault s
  | snappyInJava => exact appends_full (f := .snappyInJava) trivial L g skipMagic fault s
  | hadoopSnappy =>
    obtain ⟨ws, k, hsc, -, hws⟩ := hadoopUnscript_status (S := L.snappy) g skipMagic fault s
    rw [Format.uncompressScript, hsc]
    refine Or.inl fun w hw => ?_
    obtain ⟨u, -, rfl⟩ := hws w hw
    trivial
  | comment43 =>
    refine Or.inl (forall_writes_unroll shrinks_comment43PassOf ?_ ?_ _ s)
    · intro r s ws r' rest h
      obtain ⟨type, data, -, -, ⟨-, rfl⟩ | ⟨u, -, -, -, rfl⟩⟩ := comment43PassOf_again h
      · simp
      · simp [Write.AtBuffer]
    · intro r s sc h
      rcases comment43PassOf_finish h with rfl | ⟨rfl, -⟩ <;> simp

theorem found_ne_raw {i : InFile} {g : Globals} {f : Format} {p : Probe}
    (h : findStreamFormatByFileHeader ⟨i, [], g⟩ = .ret (some f) p) : f ≠ .raw := by
  rintro rfl
  obtain ⟨r, n, g', hrun, hd⟩ := findStreamFormatByFileHeader_spec i g
  obtain ⟨rfl, -⟩ := Outcome.ret.inj (hrun.symm.trans h)
  obtain ⟨m, hm, -⟩ := (hd.magic .raw (by decide)).mp rfl
  cases hm

/-! ## A round -/

/-- `snzip -dc`, with any `-b`. -/
def toStdout (blockSize : BitVec 32) : Options := ⟨true, true, true, none, blockSize⟩

/-- Between two files: they are all there, and nothing has failed on the standard output. -/
structure Going (files : Name → Option Bytes) (t : Sys) : Prop where
  files : t.files = files
  sound : t.stdout.Sound

/-- Wherever it comes in a run, a round for `n` goes on and appends `x`. -/
def Emits (env : Env) (L : Library) (b : BitVec 32) (files : Name → Option Bytes) (n : Name)
    (x : Bytes) : Prop :=
  ∀ t, Going files t → ∃ t', processFile env (toStdout b) L n t = .ret none t' ∧ Going files t' ∧
    t'.stdout.written = t.stdout.written ++ x

section Round

variable {env : Env} {L : Library} {b : BitVec 32} {files : Name → Option Bytes} {n : Name}
  {s s' t t' : Sys} {j : Job}

theorem openFiles_toStdout {content : Bytes} {f : Format} {p : Probe}
    (hsuffix : checkSuffix (toStdout b) n = true) (hnil : n ≠ [])
    (hcontent : t.files n = some content)
    (hfound : findStreamFormatByFileHeader ⟨env.stream n content, [], t.globals⟩ =
      .ret (some f) p) :
    ∃ t', openFiles env (toStdout b) n t =
      .ret (some ⟨n, content, p.inp, true, f, p.globals, none⟩) t' := by
  have hfmt : findFormat (toStdout b) (env.stream n content) { t with current := none } =
      .ret p.inp { t with current := none, fmt := f, globals := p.globals } := by
    simp only [findFormat, show skipsMagic (toStdout b) = true from rfl, if_true, hfound]
  unfold openFiles
  simp only [bind_apply, setCurrent_apply, getSys_apply, Outcome.bind_ret, hsuffix, Bool.not_true,
    Bool.false_eq_true, if_false, hnil, hcontent]
  rw [hfmt]
  exact ⟨_, rfl⟩

/-- The files of a job are opened in any other state too, for the same script. -/
theorem Opens.again (h : Opens env (toStdout b) n s j s') (ht : t.files n = some j.content) :
    ∃ j' t', openFiles env (toStdout b) n t = .ret (some j') t' ∧
      j'.script L (toStdout b) = j.script L (toStdout b) := by
  have hfinds := h.finds
  rw [Finds, show skipsMagic (toStdout b) = true from rfl, if_pos rfl] at hfinds
  obtain ⟨buf, hfound⟩ := hfinds
  obtain ⟨p, hagain, hinp, hscript⟩ := findStreamFormat_script (L := L) t.globals hfound
  have hmagic : j.skipMagic = true := h.skipMagic
  obtain ⟨t', hopen⟩ := openFiles_toStdout h.suffix h.ne_nil ht hagain
  refine ⟨_, t', hopen, ?_⟩
  change j.fmt.uncompressScript L p.globals true p.inp.fault p.inp.rest =
    j.fmt.uncompressScript L j.globals j.skipMagic j.inp.fault j.inp.rest
  rw [hmagic, hscript, hinp]

theorem Opens.ne_raw (h : Opens env (toStdout b) n s j s') : j.fmt ≠ .raw := by
  have hfinds := h.finds
  rw [Finds, show skipsMagic (toStdout b) = true from rfl, if_pos rfl] at hfinds
  obtain ⟨buf, hfound⟩ := hfinds
  exact found_ne_raw hfound

theorem Opens.appends (h : Opens env (toStdout b) n s j s') (L : Library) :
    (j.script L (toStdout b)).Appends := appends_uncompress h.ne_raw _ _ _ _ _

theorem Opens.stdoutFile (h : Opens env (toStdout b) n s j s') :
    j.outfile = none ∧ s'.files = s.files ∧ j.outFile env s' = s.stdout := by
  rcases h.outfile with ⟨-, hout, hfiles⟩ | ⟨o, hstd, -⟩
  · exact ⟨hout, hfiles, by rw [Job.outFile, hout, ← h.stdout]⟩
  · cases hstd

theorem Opens.accepts (h : Opens env (toStdout b) n s j s') (hs : s.stdout.Sound)
    (hround : afterOpen env (toStdout b) L j s' = .ret none t') :
    (j.script L (toStdout b)).Accepts := by
  have hplay := codec_playback (L := L) h (j.outFile env s')
  rw [h.stdoutFile.2.2] at hplay
  unfold afterOpen at hround
  rw [h.stdoutFile.2.2] at hround
  split at hround
  · next k w hw =>
    split at hround
    · cases hround
    next hk =>
    rw [hw, not_not.mp hk] at hplay
    exact Script.accepts_of_playback hs hplay.symm
  · cases hround
  · cases hround

/-- **A round whose script is accepted** goes on, and appends the bytes of the script. -/
theorem Opens.emits (h : Opens env (toStdout b) n s j s') (hs : Going files s)
    (ha : (j.script L (toStdout b)).Accepts) :
    ∃ t', afterOpen env (toStdout b) L j s' = .ret none t' ∧ Going files t' ∧
      t'.stdout.written = s.stdout.written ++ bytesOf (j.script L (toStdout b)).writes := by
  obtain ⟨hout, hfiles, hstdout⟩ := h.stdoutFile
  obtain ⟨o, ho, hsound, hwritten⟩ := ha.playback (h.appends L) hs.sound
  obtain ⟨w, hw, rfl⟩ := Outcome.view_eq_ret.mp ((codec_playback h s.stdout).trans ho)
  refine ⟨{ s' with stdout := w.out }, ?_, ⟨hfiles.trans hs.files, hsound⟩, hwritten⟩
  rw [afterOpen, hstdout, hw]
  simp only [closeOutput, hout]
  rfl

/-- A codec that gives `x` has a script that is accepted, with these bytes. -/
theorem Opens.accepts_of_result (h : Opens env (toStdout b) n s j s') {x : Bytes}
    (hres : j.result env (toStdout b) L = ⟨some 0, x⟩) :
    (j.script L (toStdout b)).Accepts ∧ bytesOf (j.script L (toStdout b)).writes = x := by
  have hsound : (OutFile.opened (env.buffering j.infile) none).Sound := ⟨rfl, rfl⟩
  have hplay := codec_playback (L := L) h (OutFile.opened (env.buffering j.infile) none)
  obtain ⟨w, hc, hx⟩ := h.codec_ret hres
  rw [hc] at hplay
  have haccepts := Script.accepts_of_playback hsound hplay.symm
  obtain ⟨o, ho, -, hwritten⟩ := haccepts.playback (h.appends L) hsound
  refine ⟨haccepts, ?_⟩
  rw [OutFile.written_opened, List.nil_append] at hwritten
  cases ho.symm.trans hplay.symm
  rw [← hwritten, ← hx]

/-- **What a round writes does not depend on the rounds before it.** -/
theorem emits_of_round (ht : Going files t)
    (hround : processFile env (toStdout b) L n t = .ret none t') :
    ∃ x, Emits env L b files n x := by
  have hcases := processFile_cases env (toStdout b) L n t
  rw [hround] at hcases
  generalize hq : Outcome.ret none t' = q at hcases
  cases hcases with
  | skipped hsuffix =>
    refine ⟨[], fun u hu => ⟨{ u with current := none }, ?_, ⟨hu.files, hu.sound⟩, by simp⟩⟩
    rw [processFile, bind_apply, openFiles]
    simp [hsuffix]
  | refused => cases hq
  | @opened j t₁ ho hopen =>
    have haccepts := ho.accepts (L := L) ht.sound hq.symm
    refine ⟨bytesOf (j.script L (toStdout b)).writes, fun u hu => ?_⟩
    have hcontent : u.files n = some j.content := by rw [hu.files, ← ht.files, ho.content]
    obtain ⟨j', u', hopen', hscript⟩ := ho.again (L := L) hcontent
    have ho' := opens_of_openFiles hopen'
    rw [processFile_opened ho' hopen', ← hscript]
    exact ho'.emits hu (hscript ▸ haccepts)

end Round

/-! ## Runs -/

/-- `snzip -dc n` decompresses the file to `x`. -/
def Alone (env : Env) (L : Library) (b : BitVec 32) (s : Sys) (n : Name) (x : Bytes) : Prop :=
  ∃ t, mainFiles env (toStdout b) L [n] s = .ret 0 t ∧ t.stdout.written = x

section Run

variable {env : Env} {L : Library} {b : BitVec 32} {files : Name → Option Bytes} {s t : Sys}

theorem mainFiles_toStdout (names : List Name) :
    mainFiles env (toStdout b) L names s = runFiles env (toStdout b) L names s := mainFiles_eq ..

theorem run_of_emits {names : List Name} {outs : List Bytes}
    (h : List.Forall₂ (Emits env L b files) names outs) (hs : Going files s) :
    ∃ t, runFiles env (toStdout b) L names s = .ret 0 t ∧
      t.stdout.written = s.stdout.written ++ outs.flatten := by
  induction h generalizing s with
  | nil => exact ⟨s, rfl, by simp⟩
  | cons hx _ ih =>
    obtain ⟨s₁, hround, hgoing, hwritten⟩ := hx s hs
    obtain ⟨t, hrun, ht⟩ := ih hgoing
    refine ⟨t, ?_, by rw [ht, hwritten, List.flatten_cons, List.append_assoc]⟩
    rw [runFiles_cons, hround, Outcome.bind_ret]
    exact hrun

theorem emits_of_run {names : List Name} (hs : Going files s)
    (hrun : runFiles env (toStdout b) L names s = .ret 0 t) :
    ∃ outs, List.Forall₂ (Emits env L b files) names outs := by
  induction names generalizing s with
  | nil => exact ⟨[], .nil⟩
  | cons n names ih =>
    rw [runFiles_cons] at hrun
    cases hround : processFile env (toStdout b) L n s with
    | ret r s₁ =>
      rw [hround] at hrun
      cases r with
      | none =>
        obtain ⟨x, hx⟩ := emits_of_round hs hround
        obtain ⟨s₂, hround₂, hgoing, -⟩ := hx s hs
        rw [hround] at hround₂
        cases hround₂
        obtain ⟨outs, houts⟩ := ih hgoing hrun
        exact ⟨x :: outs, .cons hx houts⟩
      | some k =>
        cases hrun
        exact absurd (processFile_return hround) (by decide)
    | exit k s₁ => rw [hround] at hrun; cases hrun
    | diverge => rw [hround] at hrun; cases hrun

theorem alone_iff_emits (hs : Going files s) (hempty : s.stdout.written = []) (n : Name)
    (x : Bytes) : Alone env L b s n x ↔ Emits env L b files n x := by
  constructor
  · rintro ⟨t, hrun, rfl⟩
    rw [mainFiles_toStdout] at hrun
    have hround := processFile_of_runFiles hrun
    obtain ⟨x, hx⟩ := emits_of_round hs hround
    obtain ⟨t', hround', -, hwritten⟩ := hx s hs
    rw [hround] at hround'
    cases hround'
    rwa [hwritten, hempty, List.nil_append]
  · intro hx
    obtain ⟨t, hrun, ht⟩ := run_of_emits (.cons hx .nil) hs
    refine ⟨t, (mainFiles_toStdout _).trans hrun, ?_⟩
    simpa [hempty] using ht

end Run

/-! ## Compressed files -/

section Compressed

variable {env : Env} {L : Library} {b : BitVec 32} {B : Buffering} {s : Sys} {n : Name} {f : Format}
  {x out : Bytes}

/-- **A file that a compressor has made** is decompressed to the data it was made from. -/
theorem alone_of_encoded (hS : L.snappy.Contract) (hs : s.stdout.Sound)
    (hempty : s.stdout.written = []) (hfault : env.fault n = false)
    (hsuffix : checkSuffix (toStdout b) n = true) (hnil : n ≠ []) (hf : f.magic ≠ none)
    (hout : Codec.run B (f.compress L .initial none (sizeOfInt 0#32)) (.opened x) =
      ⟨some 0, out⟩) (hcontent : s.files n = some out) : Alone env L b s n x := by
  obtain ⟨out', hout', htells, hback⟩ := encoded hS hf .initial none B (env.buffering n) x
  obtain rfl : out' = out := by
    rw [hout] at hout'
    cases hout'
    rfl
  obtain ⟨p, hfound, hskip⟩ := found_of_tells L s.globals s.globals htells (env.buffering n)
  have hstream : env.stream n out' = .opened out' := by
    rw [Env.stream, hfault]
    rfl
  rw [← hstream] at hfound
  obtain ⟨t, hopen⟩ := openFiles_toStdout (b := b) hsuffix hnil hcontent hfound
  have ho := opens_of_openFiles hopen
  obtain ⟨haccepts, hbytes⟩ := ho.accepts_of_result (L := L) (hskip.trans (hback s.globals))
  obtain ⟨t', hround, -, hwritten⟩ := ho.emits ⟨rfl, hs⟩ haccepts
  refine ⟨t', ?_, by rw [hwritten, hempty, hbytes, List.nil_append]⟩
  rw [mainFiles_toStdout, runFiles_cons, processFile_opened ho hopen, hround]
  rfl

end Compressed

/-! ## Many files -/

/-- **A run writes what its files give one by one**: `snzip -dc` accepts a list of files, of any of
the formats that a header tells, exactly if it accepts each of them on its own, and what it leaves
on the standard output are their contents one after the other. -/
theorem stdout_concatenation (env : Env) (L : Library) (b : BitVec 32) {s : Sys} {B : Buffering}
    (hs : s.stdout = OutFile.opened B none) (names : List Name) (y : Bytes) :
    (∃ t, mainFiles env (toStdout b) L names s = .ret 0 t ∧ t.stdout.written = y) ↔
      ∃ outs, List.Forall₂ (Alone env L b s) names outs ∧ y = outs.flatten := by
  have hgoing : Going s.files s := ⟨rfl, by rw [hs]; exact ⟨rfl, rfl⟩⟩
  have hempty : s.stdout.written = [] := by rw [hs, OutFile.written_opened]
  constructor
  · rintro ⟨t, hrun, rfl⟩
    rw [mainFiles_toStdout] at hrun
    obtain ⟨outs, houts⟩ := emits_of_run hgoing hrun
    obtain ⟨t', hrun', ht'⟩ := run_of_emits houts hgoing
    rw [hrun] at hrun'
    cases hrun'
    refine ⟨outs, houts.imp fun n x hx => (alone_iff_emits hgoing hempty n x).mpr hx, ?_⟩
    rw [ht', hempty, List.nil_append]
  · rintro ⟨outs, houts, rfl⟩
    obtain ⟨t, hrun, ht⟩ := run_of_emits
      (houts.imp fun n x hx => (alone_iff_emits hgoing hempty n x).mp hx) hgoing
    exact ⟨t, (mainFiles_toStdout names).trans hrun, by rw [ht, hempty, List.nil_append]⟩

/-- Two files that have been made by compressors: one is decompressed through the buffer, the other
past it. -/
def twoFormats (n : Name) : Option Bytes :=
  let encode (f : Format) (x : Bytes) := (Codec.run (.stdio 4096)
    (f.compress ⟨literalSnappy, 0⟩ .initial none (sizeOfInt 0#32)) (.opened x)).written
  if n = ['a'] then some (encode .framing2 [0x61#8])
  else if n = ['b'] then some (encode .snzip [0x62#8])
  else none

theorem stdout_concatenation_two :
    ∃ t, mainFiles Env.ideal (toStdout 0#32) ⟨literalSnappy, 0⟩ [['a'], ['b']]
      (.initial twoFormats) = .ret 0 t ∧ t.stdout.written = [0x61#8, 0x62#8] := by
  have halone : ∀ (f : Format) (n : Name) (x : Bytes), f.magic ≠ none → n ≠ [] →
      checkSuffix (toStdout 0#32) n = true →
      twoFormats n = some (Codec.run (.stdio 4096) (f.compress ⟨literalSnappy, 0⟩ .initial none
        (sizeOfInt 0#32)) (.opened x)).written →
      Alone Env.ideal ⟨literalSnappy, 0⟩ 0#32 (.initial twoFormats) n x := by
    intro f n x hf hnil hsuffix hcontent
    obtain ⟨out, hrun, -⟩ :=
      encoded (L := ⟨literalSnappy, 0⟩) contract_literalSnappy hf .initial none
      (.stdio 4096) (.stdio 4096) x
    rw [hrun] at hcontent
    exact alone_of_encoded contract_literalSnappy ⟨rfl, rfl⟩ rfl rfl hsuffix hnil hf hrun hcontent
  refine (stdout_concatenation Env.ideal ⟨literalSnappy, 0⟩ 0#32 rfl _ _).mpr
    ⟨[[0x61#8], [0x62#8]], .cons ?_ (.cons ?_ .nil), rfl⟩
  · exact halone .framing2 ['a'] [0x61#8] (by decide) (by decide) rfl rfl
  · exact halone .snzip ['b'] [0x62#8] (by decide) (by decide) rfl rfl

end Snzip
