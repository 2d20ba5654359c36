import Snzip.Main

set_option autoImplicit false

/-!
# What becomes of the inputs

`main` opens the output for writing without asking what is there, and deletes the input. The data of
an input is lost when its name, or the name of its output, is the output of another input.

* `jobOf`, `derivedOutput`: the job that an input makes, and the path of its output;
* `Moved`, `InputsSurvive`: what is left of the inputs after a run that returns 0;
* `Apart`: two inputs whose files do not get in each other's way;
* `Intact`, **`Intact.next`**: the invariant of the loop, and that a round keeps it;
* **`inputsSurvive`**: inputs that are apart survive.
-/

namespace Snzip

open CProg

/-! ## Jobs of the inputs -/

/-- The job that an input with this content makes, when it is read without an error. -/
def jobOf (opts : Options) (fmt : Format) (g : Globals) (infile : Name) (content : Bytes) :
    Option Job :=
  if skipsMagic opts then
    match findStreamFormatByFileHeader ⟨.opened content, [], g⟩ with
    | .ret (some f) p =>
      some ⟨infile, content, p.inp, true, f, p.globals, outputName opts f infile⟩
    | _ => none
  else some ⟨infile, content, .opened content, false, fmt, g, outputName opts fmt infile⟩

/-- The job that an input makes at the start of the loop; there is none if the input is skipped. -/
def initialJob (opts : Options) (fmt : Format) (s : Sys) (infile : Name) : Option Job :=
  if checkSuffix opts infile then (s.files infile).bind (jobOf opts fmt s.globals infile) else none

/-- The path of the output of an input. -/
def derivedOutput (opts : Options) (fmt : Format) (s : Sys) (infile : Name) : Option Name :=
  (initialJob opts fmt s infile).bind Job.outfile

/-- The input has been deleted, and its output holds what the codec has made of it. Its name may be
that of an output now. -/
structure Moved (env : Env) (opts : Options) (L : Library) (fmt : Format) (files : List Name)
    (s s' : Sys) (infile : Name) : Prop where
  keep : opts.keep = false
  gone : s'.files infile = none ∨ ∃ k ∈ files, derivedOutput opts fmt s k = some infile
  output : ∃ j o out, initialJob opts fmt s infile = some j ∧ j.outfile = some o ∧
    j.result env opts L = ⟨some 0, out⟩ ∧ s'.files o = some out

/-- After a run that returns 0, every input is as it was, or it has been moved to its output. -/
def InputsSurvive (env : Env) (opts : Options) (L : Library) (files : List Name) (s : Sys) : Prop :=
  ∀ fmt s', namedFormat opts s.fmt = some fmt → mainFiles env opts L files s = .ret 0 s' →
    ∀ i ∈ files, ∀ content, s.files i = some content →
      s'.files i = some content ∨ Moved env opts L fmt files s s' i

/-- An input `i` and a later input `k`: the output of `i` is not `k`; the output of `k` is not `i`
if `i` is still there; and if they are deleted, they have different outputs. -/
structure Apart (opts : Options) (fmt : Format) (s : Sys) (i k : Name) : Prop where
  ahead : derivedOutput opts fmt s i ≠ some k
  behind : opts.keep = true ∨ checkSuffix opts i = false → derivedOutput opts fmt s k ≠ some i
  outputs : opts.keep = false → i ≠ k → ∀ o, derivedOutput opts fmt s i = some o →
    derivedOutput opts fmt s k ≠ some o

section JobOf

variable {env : Env} {opts : Options} {L : Library} {fmt : Format} {infile : Name} {j : Job}

/-- What a decompressor does depends on the global variables of its format only. -/
theorem uncompressScript_congr {g g' : Globals} {f : Format} (skipMagic fault : Bool) (s : Bytes)
    (hsnz : f = .snzip → g.snzipFormatBlockSize = g'.snzipFormatBlockSize)
    (hhadoop : f = .hadoopSnappy →
      g.hadoopSnappySourceLength = g'.hadoopSnappySourceLength ∧
        g.hadoopSnappyCompressedLength = g'.hadoopSnappyCompressedLength) :
    f.uncompressScript L g skipMagic fault s = f.uncompressScript L g' skipMagic fault s := by
  cases f with
  | framing2 | framing | raw | iwa | snappyJava | snappyInJava | comment43 => rfl
  | snzip => simp only [Format.uncompressScript, snzUnscript, takeSnzHeader, hsnz rfl]
  | hadoopSnappy =>
    obtain ⟨h₁, h₂⟩ := hhadoop rfl
    simp only [Format.uncompressScript, hadoopUnscript, h₁, h₂]

/-- **The search for a format does not depend on the global variables**, nor does what the
decompressor does after it. -/
theorem findStreamFormat_script {i : InFile} {g : Globals} (g' : Globals) {f : Format} {p : Probe}
    (h : findStreamFormatByFileHeader ⟨i, [], g⟩ = .ret (some f) p) :
    ∃ p', findStreamFormatByFileHeader ⟨i, [], g'⟩ = .ret (some f) p' ∧ p'.inp = p.inp ∧
      ∀ fault s, f.uncompressScript L p'.globals true fault s =
        f.uncompressScript L p.globals true fault s := by
  obtain ⟨r, n, g₁, hrun, hd⟩ := findStreamFormatByFileHeader_spec i g
  obtain ⟨r', n', g₁', hrun', hd'⟩ := findStreamFormatByFileHeader_spec i g'
  obtain ⟨rfl, rfl⟩ : r = some f ∧ probed i g₁ n = p := Outcome.ret.inj (hrun.symm.trans h)
  have hr' : r' = some f := by
    by_cases hf : f = .hadoopSnappy
    · rw [hf] at hd ⊢
      exact hd'.hadoop.mpr (hd.hadoop.mp rfl)
    · exact (hd'.magic f hf).mpr ((hd.magic f hf).mp rfl)
  subst hr'
  have hn : n' = n := (hd'.reads f rfl).trans (hd.reads f rfl).symm
  have hsnz : f = .snzip → g₁'.snzipFormatBlockSize = g₁.snzipFormatBlockSize := by
    rintro rfl
    rw [hd'.blockSize rfl, hd.blockSize rfl]
  have hhadoop : f = .hadoopSnappy →
      g₁'.hadoopSnappySourceLength = g₁.hadoopSnappySourceLength ∧
        g₁'.hadoopSnappyCompressedLength = g₁.hadoopSnappyCompressedLength := by
    rintro rfl
    obtain ⟨h₁, h₂⟩ := hd.lengths rfl
    obtain ⟨h₁', h₂'⟩ := hd'.lengths rfl
    exact ⟨h₁'.trans h₁.symm, h₂'.trans h₂.symm⟩
  subst hn
  exact ⟨_, hrun', rfl, fun fault s => uncompressScript_congr true fault s hsnz hhadoop⟩

theorem findStreamFormat_ok {i : InFile} (hi : i.Ok) {g : Globals} {r : Option Format} {p : Probe}
    (h : findStreamFormatByFileHeader ⟨i, [], g⟩ = .ret r p) : p.inp.Ok := by
  obtain ⟨r, n, g₁, hrun, -⟩ := findStreamFormatByFileHeader_spec i g
  obtain ⟨-, rfl⟩ := Outcome.ret.inj (hrun.symm.trans h)
  exact ok_iterate_next n hi

theorem findStreamFormat_congr {i : InFile} (hi : i.Ok) {g : Globals} (g' : Globals) {f : Format}
    {p : Probe} (h : findStreamFormatByFileHeader ⟨i, [], g⟩ = .ret (some f) p) :
    ∃ p', findStreamFormatByFileHeader ⟨i, [], g'⟩ = .ret (some f) p' ∧ ∀ B,
      Codec.run B (f.uncompress L p'.globals true) p'.inp =
        Codec.run B (f.uncompress L p.globals true) p.inp := by
  obtain ⟨p', hrun', hinp, hscript⟩ := findStreamFormat_script (L := L) g' h
  refine ⟨p', hrun', fun B => ?_⟩
  have hok := findStreamFormat_ok hi h
  have h₁ := refines_uncompress L p'.globals true f ⟨p.inp, OutFile.opened B none⟩ hok
  have h₂ := refines_uncompress L p.globals true f ⟨p.inp, OutFile.opened B none⟩ hok
  rw [hscript] at h₁
  rw [Codec.run, Codec.run, hinp]
  exact congrArg Result.of (h₁.trans h₂.symm)

/-- **The job that a round has opened is that of its input**, whatever was done before. -/
theorem jobOf_of_opens {s s' : Sys} (h : Opens env opts infile s j s')
    (hstd : opts.stdout = false) (hfault : env.fault infile = false) {fmt : Format} {g : Globals}
    (hset : skipsMagic opts = false → s.fmt = fmt ∧ s.globals = g) :
    ∃ j₀, jobOf opts fmt g infile j.content = some j₀ ∧ j₀.outfile = j.outfile ∧
      j₀.result env opts L = j.result env opts L := by
  have hstream : env.stream infile j.content = .opened j.content := by
    rw [Env.stream, hfault]
    rfl
  have hout : j.outfile = outputName opts j.fmt infile := by
    rcases h.outfile with ⟨h', -⟩ | ⟨o, -, ho, hname, -⟩
    · rw [hstd] at h'
      cases h'
    · rw [ho, hname]
  have hfinds := h.finds
  rw [hstream] at hfinds
  unfold Finds at hfinds
  unfold jobOf
  cases hskip : skipsMagic opts with
  | false =>
    rw [hskip] at hfinds
    obtain ⟨hinp, hfmt, hg⟩ : j.inp = .opened j.content ∧ j.fmt = s.fmt ∧ j.globals = s.globals :=
      hfinds
    obtain ⟨rfl, rfl⟩ := hset hskip
    refine ⟨_, rfl, by rw [hout, hfmt], ?_⟩
    have hm := h.skipMagic
    rw [hskip] at hm
    simp only [Job.result, Job.codec, hinp, hfmt, hg, hm, h.name]
  | true =>
    rw [hskip] at hfinds
    obtain ⟨buf, hrun⟩ : ∃ buf, _ = _ := hfinds
    obtain ⟨p', hrun', hcodec⟩ :=
      findStreamFormat_congr (L := L) (InFile.ok_opened j.content) g hrun
    have hu : opts.uncompress = true := (Bool.and_eq_true_iff.mp hskip).1
    rw [if_pos rfl, hrun']
    refine ⟨_, rfl, hout.symm, ?_⟩
    have hm := h.skipMagic
    rw [hskip] at hm
    simp only [Job.result, Job.codec, hu, if_true, hm, h.name]
    exact hcodec (env.buffering infile)

end JobOf

/-! ## The invariant of the loop -/

/-- The files after the rounds for the inputs `done`, with `rest` to come. -/
structure Intact (env : Env) (opts : Options) (L : Library) (fmt : Format) (s : Sys)
    (done rest : List Name) (t : Sys) : Prop where
  settings : skipsMagic opts = false → t.fmt = fmt ∧ t.globals = s.globals
  ahead : ∀ i ∈ rest, t.files i = s.files i ∨ t.files i = none ∧ checkSuffix opts i = true
  kept : ∀ i ∈ done, opts.keep = true ∨ checkSuffix opts i = false → t.files i = s.files i
  moved : ∀ i ∈ done, opts.keep = false → checkSuffix opts i = true →
    Moved env opts L fmt done s t i

section Loop

variable {env : Env} {opts : Options} {L : Library} {fmt : Format} {s t t' : Sys}
  {done rest : List Name} {k : Name}

theorem Intact.start : Intact env opts L fmt s [] rest { s with fmt := fmt } :=
  ⟨fun _ => ⟨rfl, rfl⟩, fun _ _ => Or.inl rfl, by simp, by simp⟩

theorem Intact.skip (h : Intact env opts L fmt s done (k :: rest) t)
    (hk : checkSuffix opts k = false) :
    Intact env opts L fmt s (done ++ [k]) rest { t with current := none } := by
  have hkeep : t.files k = s.files k := by
    rcases h.ahead k List.mem_cons_self with h' | ⟨-, h'⟩
    · exact h'
    · rw [hk] at h'
      cases h'
  refine ⟨h.settings, fun i hi => h.ahead i (List.mem_cons_of_mem _ hi), fun i hi hc => ?_,
    fun i hi hc hs => ?_⟩
  · rcases List.mem_append.mp hi with hi | hi
    · exact h.kept i hi hc
    · rw [List.mem_singleton.mp hi]
      exact hkeep
  · rcases List.mem_append.mp hi with hi | hi
    · have hm := h.moved i hi hc hs
      exact ⟨hm.keep, hm.gone.imp_right fun ⟨k, hk, hd⟩ => ⟨k, List.mem_append_left _ hk, hd⟩,
        hm.output⟩
    · rw [List.mem_singleton.mp hi, hk] at hs
      cases hs

/-- **A round keeps the invariant.** -/
theorem Intact.next (h : Intact env opts L fmt s done (k :: rest) t)
    (hroom : ∀ o, env.room o = none) (hfault : ∀ i, env.fault i = false)
    (hstd : opts.stdout = false) (happart : (done ++ k :: rest).Pairwise (Apart opts fmt s))
    (hrun : processFile env opts L k t = .ret none t') :
    Intact env opts L fmt s (done ++ [k]) rest t' := by
  have hround := processFile_cases env opts L k t
  rw [hrun] at hround
  generalize hq : Outcome.ret none t' = q at hround
  cases hround with
  | skipped hk => cases hq; exact h.skip hk
  | refused => cases hq
  | @opened j t₁ ho hopen =>
    obtain ⟨o, out, he⟩ := ho.effect hroom hstd hq.symm
    have hcontent : s.files k = some j.content := by
      rcases h.ahead k List.mem_cons_self with h' | ⟨h', -⟩
      · rw [← h', ho.content]
      · rw [ho.content] at h'
        cases h'
    obtain ⟨j₀, hj₀, hout₀, hresult₀⟩ := jobOf_of_opens (L := L) ho hstd (hfault k) h.settings
    have hinitial : initialJob opts fmt s k = some j₀ := by
      rw [initialJob, if_pos ho.suffix, hcontent]
      exact hj₀
    have hderived : derivedOutput opts fmt s k = some o := by
      rw [derivedOutput, hinitial, ← he.outfile, ← hout₀]
      rfl
    obtain ⟨-, hrest, hdone⟩ := List.pairwise_append.mp happart
    have hrest := (List.pairwise_cons.mp hrest).1
    have hdone : ∀ i ∈ done, Apart opts fmt s i k := fun i hi => hdone i hi k List.mem_cons_self
    refine ⟨fun hskip => ?_, fun i hi => ?_, fun i hi hc => ?_, fun i hi hc hs => ?_⟩
    · obtain ⟨hfmt, hg⟩ := h.settings hskip
      obtain ⟨hfmt', hg'⟩ := he.settings hskip
      exact ⟨hfmt'.trans hfmt, hg'.trans hg⟩
    · -- the output is not an input to come
      have hio : i ≠ o := fun h' => (hrest i hi).ahead (h' ▸ hderived)
      by_cases hik : opts.keep = true ∨ i ≠ k
      · rw [he.other i hio hik]
        exact h.ahead i (List.mem_cons_of_mem _ hi)
      · obtain ⟨hkeep, hik⟩ := not_or.mp hik
        rw [not_not.mp hik]
        exact Or.inr ⟨he.deleted (Bool.eq_false_iff.mpr hkeep), ho.suffix⟩
    · rcases List.mem_append.mp hi with hi | hi
      · -- the output is not an input that is still there
        have hio : i ≠ o := fun h' => (hdone i hi).behind hc (h' ▸ hderived)
        rw [he.other i hio (hc.imp_right fun hs h' => by rw [h', ho.suffix] at hs; cases hs)]
        exact h.kept i hi hc
      · rw [List.mem_singleton.mp hi] at hc ⊢
        have hkeep : opts.keep = true := hc.resolve_right (by rw [ho.suffix]; decide)
        rw [he.other k he.ne.symm (Or.inl hkeep), ho.content, hcontent]
    · rcases List.mem_append.mp hi with hi | hi
      · obtain ⟨-, hgone', j', o', out', hj', ho', hresult', hfile'⟩ := h.moved i hi hc hs
        have hd' : derivedOutput opts fmt s i = some o' := by rw [derivedOutput, hj']; exact ho'
        have hik : i ≠ k := by
          -- an input that has been deleted is not opened again
          rintro rfl
          rcases hgone' with hnone | ⟨m, hm, hdm⟩
          · rw [ho.content] at hnone
            cases hnone
          · exact (hdone m hm).ahead hdm
        have ho'k : o' ≠ k := fun h' => (hdone i hi).ahead (h' ▸ hd')
        have ho'o : o' ≠ o := fun h' => (hdone i hi).outputs hc hik o' hd' (h' ▸ hderived)
        refine ⟨hc, ?_, j', o', out', hj', ho', hresult', ?_⟩
        · by_cases hio : i = o
          · exact Or.inr ⟨k, List.mem_append_right _ List.mem_cons_self, hio ▸ hderived⟩
          · rw [he.other i hio (Or.inr hik)]
            exact hgone'.imp_right fun ⟨m, hm, hdm⟩ => ⟨m, List.mem_append_left _ hm, hdm⟩
        · rw [he.other o' ho'o (Or.inr ho'k)]
          exact hfile'
      · rw [List.mem_singleton.mp hi]
        exact ⟨hc, Or.inl (he.deleted hc), j₀, o, out, hinitial, hout₀.trans he.outfile,
          hresult₀.trans he.result, he.output⟩

/-- **A run keeps the invariant.** -/
theorem Intact.run (h : Intact env opts L fmt s done rest t)
    (hroom : ∀ o, env.room o = none) (hfault : ∀ i, env.fault i = false)
    (hstd : opts.stdout = false) (happart : (done ++ rest).Pairwise (Apart opts fmt s))
    (hrun : runFiles env opts L rest t = .ret 0 t') :
    Intact env opts L fmt s (done ++ rest) [] t' := by
  induction rest generalizing done t with
  | nil =>
    cases hrun
    rw [List.append_nil]
    exact h
  | cons k rest ih =>
    rw [runFiles_cons] at hrun
    cases hp : processFile env opts L k t with
    | ret r t₁ =>
      rw [hp] at hrun
      cases r with
      | none =>
        have hnext := h.next hroom hfault hstd happart hp
        have happend : done ++ k :: rest = done ++ [k] ++ rest := List.append_cons done k rest
        rw [happend] at happart ⊢
        exact ih hnext happart hrun
      | some n =>
        cases hrun
        exact absurd (processFile_return hp) (by decide)
    | exit n t₁ => rw [hp] at hrun; cases hrun
    | diverge => rw [hp] at hrun; cases hrun

end Loop

/-! ## Whole runs -/

/-- **The inputs survive** a run in which nothing fails, when their files are apart. -/
theorem inputsSurvive {env : Env} {opts : Options} {L : Library} {files : List Name} {s : Sys}
    (hroom : ∀ o, env.room o = none) (hfault : ∀ i, env.fault i = false)
    (hstd : opts.stdout = false)
    (happart : ∀ fmt, namedFormat opts s.fmt = some fmt → files.Pairwise (Apart opts fmt s)) :
    InputsSurvive env opts L files s := by
  intro fmt t hfmt hrun i hi content hcontent
  rw [mainFiles_eq, hfmt] at hrun
  have h := Intact.start.run hroom hfault hstd (happart fmt hfmt) hrun
  by_cases hc : opts.keep = true ∨ checkSuffix opts i = false
  · exact Or.inl ((h.kept i hi hc).trans hcontent)
  · obtain ⟨hkeep, hsuffix⟩ := not_or.mp hc
    exact Or.inr (h.moved i hi (Bool.eq_false_iff.mpr hkeep) (by simpa using hsuffix))

/-- Two files that have nothing to do with each other. -/
theorem inputsSurvive_two :
    InputsSurvive Env.ideal ⟨false, false, false, none, 0#32⟩ ⟨literalSnappy, 0⟩ [['a'], ['b']]
      (.initial fun n => if n = ['a'] ∨ n = ['b'] then some [0x61#8] else none) := by
  refine inputsSurvive (fun _ => rfl) (fun _ => rfl) rfl fun fmt hfmt => ?_
  cases hfmt
  rw [List.pairwise_pair]
  exact ⟨by decide, fun _ => by decide, fun _ _ o ho => by cases ho; decide⟩

/-- `snzip a a.sz`: the second input is skipped, but it is the output of the first. -/
theorem not_inputsSurvive :
    ¬ InputsSurvive Env.ideal ⟨false, false, false, none, 0#32⟩ ⟨literalSnappy, 0⟩
      [['a'], ['a', '.', 's', 'z']] (.initial fun n =>
        if n = ['a'] then some []
        else if n = ['a', '.', 's', 'z'] then some [0x61#8] else none) := by
  intro h
  rcases h .framing2 _ rfl rfl ['a', '.', 's', 'z'] (by decide) [0x61#8] rfl with hkept | hmoved
  · revert hkept
    decide
  · obtain ⟨j, o, out, hj, -⟩ := hmoved.output
    cases hj

end Snzip
