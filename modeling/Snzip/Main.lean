import Snzip.SkipMagic
import Mathlib.Logic.Function.Basic

set_option autoImplicit false

/-!
# The files on the command line

`main` of `snzip.c` after the options have been read: the names are taken one after the other, and
each goes through the checks of its name and its header, through a codec, and through the clean-up.

* `Options`, `Env`, `Sys`, `Job`: the options, what the system allows, the state, the open files;
* `checkSuffix`, `outputName`: the checks of a name and the name made from it;
* `openFiles`, `runCodec`, `processFile`, `runFiles`: the loop;
* **`processFile_cases`**: what one round of the loop does;
* `Reaches`, **`runFiles_cases`**: how the program ends.
-/

namespace Snzip

open CProg

/-- What the command line sets. -/
structure Options where
  uncompress : Bool
  keep : Bool
  stdout : Bool
  formatName : Option Name
  blockSize : BitVec 32
  deriving DecidableEq

/-- What the system does: how the output made from a file is buffered, the files whose reading fails
at the end, the room that a file finds on its device, and the names that may be opened for writing.
-/
structure Env where
  buffering : Name → Buffering
  fault : Name → Bool
  room : Name → Option ℕ
  writable : Name → Bool

/-- Two files that are open, as the local variables of the loop have them; `outfile` is `none` for
the standard output. -/
structure Job where
  infile : Name
  content : Bytes
  inp : InFile
  skipMagic : Bool
  fmt : Format
  globals : Globals
  outfile : Option Name

/-- The files, the standard output, the global variables, `fmt`, and the files that are open. A file
has one name: there are no links, and no second spelling of a path. -/
structure Sys where
  files : Name → Option Bytes
  stdout : OutFile
  globals : Globals
  fmt : Format
  current : Option Job

/-- A system on which nothing fails. -/
def Env.ideal : Env := ⟨fun _ => .stdio 4096, fun _ => false, fun _ => none, fun _ => true⟩

/-- The state at the start of the program. -/
def Sys.initial (files : Name → Option Bytes) : Sys :=
  ⟨files, OutFile.opened (.stdio 4096) none, .initial, .framing2, none⟩

/-! ## Names -/

/-- The string from the last `c` on. -/
def strrchr (c : Char) : Name → Option Name
  | [] => none
  | x :: xs => (strrchr c xs).or (if x = c then some (x :: xs) else none)

/-- The check of the suffix; `false` to go on with the next file. -/
def checkSuffix (opts : Options) (infile : Name) : Bool :=
  match strrchr '.' infile with
  | none => true
  | some suffix => (findStreamFormatBySuffix suffix.tail).isSome == opts.uncompress

/-- `PATH_MAX`. -/
def pathMax : ℕ := 4096

/-- `suffix != NULL && strcmp(suffix + 1, fmt->suffix) == 0`. -/
def removeSuffix (fmt : Format) (infile : Name) : Bool :=
  match strrchr '.' infile with
  | none => false
  | some suffix => decide (suffix.tail = fmt.suffix)

/-- The name of the output, unless it is too long. -/
def outputName (opts : Options) (fmt : Format) (infile : Name) : Option Name :=
  let infilelen := infile.length
  let suffixlen := fmt.suffix.length
  if opts.uncompress then
    let newSize := BitVec.ofNat 64 infilelen +
      (if removeSuffix fmt infile then -BitVec.ofNat 64 suffixlen else 4#64)
    if newSize.toNat ≥ pathMax then none
    else if removeSuffix fmt infile then some (infile.take (infilelen - suffixlen - 1))
    else some ((infile ++ ['.', 'o', 'u', 't']).take (pathMax - 1))
  else if infilelen + suffixlen + 2 ≥ pathMax then none
  else some (infile ++ '.' :: fmt.suffix)

/-! ## One file -/

/-- The state. -/
def getSys : Prog Sys Sys := fun s => .ret s s

/-- A change of the state. -/
def modifySys (f : Sys → Sys) : Prog Sys Unit := fun s => .ret () (f s)

/-- A file is made, written or deleted. -/
def setFile (name : Name) (content : Option Bytes) : Prog Sys Unit :=
  modifySys fun s => { s with files := Function.update s.files name content }

/-- The files that are open. -/
def setCurrent (j : Option Job) : Prog Sys Unit := modifySys fun s => { s with current := j }

section

variable (s : Sys)

@[simp] theorem getSys_apply : getSys s = .ret s s := rfl

@[simp] theorem modifySys_apply (f : Sys → Sys) : modifySys f s = .ret () (f s) := rfl

@[simp] theorem setFile_apply (name : Name) (content : Option Bytes) :
    setFile name content s =
      .ret () { s with files := Function.update s.files name content } := rfl

@[simp] theorem setCurrent_apply (j : Option Job) :
    setCurrent j s = .ret () { s with current := j } := rfl

end

/-- `infp`, on an input that has just been opened. -/
def Env.stream (env : Env) (infile : Name) (content : Bytes) : InFile :=
  ⟨content, env.fault infile, false, false⟩

/-- `skip_magic` is set if the header is what the format is found by. -/
def skipsMagic (opts : Options) : Bool := opts.uncompress && opts.formatName.isNone

/-- Determine the file format. -/
def findFormat (opts : Options) (inp : InFile) : Prog Sys InFile := fun s =>
  if skipsMagic opts then
    match findStreamFormatByFileHeader ⟨inp, [], s.globals⟩ with
    | .ret (some fmt) p => .ret p.inp { s with fmt := fmt, globals := p.globals }
    | .ret none p => .exit 1 { s with globals := p.globals }
    | .exit n p => .exit n { s with globals := p.globals }
    | .diverge => .diverge
  else .ret inp s

/-- Check the output file and open it. -/
def openOutput (env : Env) (opts : Options) (infile : Name) : Prog Sys (Option Name) := do
  if opts.stdout then return none
  match outputName opts (← getSys).fmt infile with
  | none => exit 1
  | some outfile =>
    if outfile = [] || !env.writable outfile then exit 1
    setFile outfile (some [])
    return some outfile

/-- The part of the loop body up to the codec; `none` to go on with the next file. There is no file
with an empty name. -/
def openFiles (env : Env) (opts : Options) (infile : Name) : Prog Sys (Option Job) := do
  setCurrent none
  if !checkSuffix opts infile then return none
  if infile = [] then exit 1
  match (← getSys).files infile with
  | none => exit 1
  | some content =>
    let inp ← findFormat opts (env.stream infile content)
    let outfile ← openOutput env opts infile
    let s ← getSys
    let j : Job := ⟨infile, content, inp, skipsMagic opts, s.fmt, s.globals, outfile⟩
    setCurrent (some j)
    return some j

/-- The codec of a job; `fstat` reports the length of the input. -/
def Job.codec (L : Library) (opts : Options) (j : Job) : Io ℕ :=
  if opts.uncompress then j.fmt.uncompress L j.globals j.skipMagic
  else j.fmt.compress L j.globals (some (BitVec.ofNat 64 j.content.length))
    (sizeOfInt opts.blockSize)

/-- The stream that a job writes. -/
def Job.outFile (env : Env) (j : Job) (s : Sys) : OutFile :=
  match j.outfile with
  | none => s.stdout
  | some outfile => OutFile.opened (env.buffering j.infile) (env.room outfile)

/-- `fflush(outfp)` and `fclose(outfp)`, whose results are not looked at. -/
def closeOutput (j : Job) (out : OutFile) (s : Sys) : Sys :=
  match j.outfile with
  | none => { s with stdout := out }
  | some outfile => { s with files := Function.update s.files outfile (some out.written) }

/-- `if (outfp != stdout) { unlink(outfile); }`. -/
def unlinkOutput (j : Job) (out : OutFile) (s : Sys) : Sys :=
  match j.outfile with
  | none => { s with stdout := out }
  | some outfile => { s with files := Function.update s.files outfile none }

/-- The codec returns a status, with the stream as it is then. `exit` closes the stream. -/
def runCodec (env : Env) (opts : Options) (L : Library) (j : Job) : Prog Sys (ℕ × OutFile) :=
  fun s =>
    match j.codec L opts ⟨j.inp, j.outFile env s⟩ with
    | .ret n w => .ret (n, w.out) s
    | .exit n w => .exit n (closeOutput j w.out s)
    | .diverge => .diverge

/-- A round of the loop; a status for a `return`. -/
def processFile (env : Env) (opts : Options) (L : Library) (infile : Name) :
    Prog Sys (Option ℕ) := do
  match ← openFiles env opts infile with
  | none => return none
  | some j =>
    let r ← runCodec env opts L j
    if r.1 ≠ 0 then
      modifySys (unlinkOutput j r.2)
      return some 1
    modifySys (closeOutput j r.2)
    if !opts.keep then setFile infile none
    return none

/-- `while (optind < argc)`. -/
def runFiles (env : Env) (opts : Options) (L : Library) : List Name → Prog Sys ℕ
  | [] => return 0
  | infile :: files => do
    match ← processFile env opts L infile with
    | some n => return n
    | none => runFiles env opts L files

/-- `fmt` after the options have been read: the default format, or the format that is named. -/
def namedFormat (opts : Options) (fmt : Format) : Option Format :=
  match opts.formatName with
  | none => some fmt
  | some name => findStreamFormatByName name

/-- `main` with file arguments, after the options have been read. -/
def mainFiles (env : Env) (opts : Options) (L : Library) (files : List Name) : Prog Sys ℕ := do
  match namedFormat opts (← getSys).fmt with
  | none => return 1
  | some fmt =>
    modifySys fun s => { s with fmt := fmt }
    runFiles env opts L files

/-! ## Names, cut and put together -/

section Names

variable {c : Char}

theorem strrchr_cons (c x : Char) (xs : Name) :
    strrchr c (x :: xs) = (strrchr c xs).or (if x = c then some (x :: xs) else none) := rfl

theorem strrchr_eq_none {n : Name} : strrchr c n = none ↔ c ∉ n := by
  induction n with
  | nil => simp [strrchr]
  | cons x xs ih =>
    rw [strrchr_cons, Option.or_eq_none_iff, ih, List.mem_cons, not_or]
    constructor
    · rintro ⟨hxs, hx⟩
      refine ⟨fun he => ?_, hxs⟩
      rw [if_pos he.symm] at hx
      cases hx
    · rintro ⟨hx, hxs⟩
      exact ⟨hxs, if_neg fun he => hx he.symm⟩

/-- **A name is cut at its last `c`.** -/
theorem strrchr_eq_some {n suffix : Name} (h : strrchr c n = some suffix) :
    ∃ p s, n = p ++ c :: s ∧ suffix = c :: s ∧ c ∉ s := by
  induction n with
  | nil => cases h
  | cons x xs ih =>
    rw [strrchr_cons] at h
    cases hr : strrchr c xs with
    | some t =>
      rw [hr] at h
      cases h
      obtain ⟨p, s, rfl, hs, hc⟩ := ih hr
      exact ⟨x :: p, s, rfl, hs, hc⟩
    | none =>
      rw [hr, Option.none_or] at h
      split at h
      · next hx =>
        cases h
        exact ⟨[], xs, by rw [hx]; rfl, by rw [hx], strrchr_eq_none.mp hr⟩
      · cases h

theorem strrchr_append {s : Name} (hs : c ∉ s) (p : Name) :
    strrchr c (p ++ c :: s) = some (c :: s) := by
  induction p with
  | nil => rw [List.nil_append, strrchr_cons, strrchr_eq_none.mpr hs, if_pos rfl]; rfl
  | cons x p ih => rw [List.cons_append, strrchr_cons, ih]; rfl

theorem removeSuffix_eq_true {f : Format} {n : Name} (h : removeSuffix f n = true) :
    ∃ p, n = p ++ '.' :: f.suffix := by
  unfold removeSuffix at h
  cases hs : strrchr '.' n with
  | none => rw [hs] at h; cases h
  | some suffix =>
    rw [hs] at h
    obtain ⟨p, t, rfl, rfl, -⟩ := strrchr_eq_some hs
    exact ⟨p, by rw [← of_decide_eq_true h]; rfl⟩

theorem removeSuffix_append (f : Format) (p : Name) :
    removeSuffix f (p ++ '.' :: f.suffix) = true := by
  rw [removeSuffix, strrchr_append f.dot_not_mem_suffix]
  exact decide_eq_true rfl

theorem take_append_suffix (f : Format) (p : Name) :
    (p ++ '.' :: f.suffix).take ((p ++ '.' :: f.suffix).length - f.suffix.length - 1) = p := by
  rw [List.length_append, List.length_cons,
    show p.length + (f.suffix.length + 1) - f.suffix.length - 1 = p.length by omega,
    List.take_left']
  rfl

/-- **The output is never the input.** -/
theorem outputName_ne {opts : Options} {f : Format} {n o : Name}
    (h : outputName opts f n = some o) : o ≠ n := by
  have hmax : pathMax = 4096 := rfl
  intro he
  have hlen := congrArg List.length he
  unfold outputName at h
  simp only at h
  cases hu : opts.uncompress with
  | false =>
    rw [hu, if_neg Bool.false_ne_true] at h
    split at h
    · cases h
    · cases h
      simp only [List.length_append, List.length_cons] at hlen
      omega
  | true =>
    rw [hu, if_pos rfl] at h
    cases hr : removeSuffix f n with
    | true =>
      rw [hr] at h
      simp only [if_true] at h
      obtain ⟨p, rfl⟩ := removeSuffix_eq_true hr
      split at h
      · cases h
      · cases h
        rw [take_append_suffix, List.length_append, List.length_cons] at hlen
        omega
    | false =>
      rw [hr] at h
      simp only [Bool.false_eq_true, if_false] at h
      split at h
      · cases h
      next hsize =>
      cases h
      simp only [List.length_take, List.length_append, List.length_cons, List.length_nil] at hlen
      -- the name fills the buffer, and the check of its length has failed
      rw [show n.length = 4095 by omega] at hsize
      exact hsize (by decide)

end Names

/-! ## Opening the files -/

/-- What the search for a format comes to on the stream `i`, from the format and the global
variables as they are. -/
def Finds (opts : Options) (i : InFile) (fmt : Format) (g : Globals) (inp : InFile) (fmt' : Format)
    (g' : Globals) : Prop :=
  if skipsMagic opts then
    ∃ buf, findStreamFormatByFileHeader ⟨i, [], g⟩ = .ret (some fmt') ⟨inp, buf, g'⟩
  else inp = i ∧ fmt' = fmt ∧ g' = g

/-- The files of the job `j` have been opened. -/
structure Opens (env : Env) (opts : Options) (infile : Name) (s : Sys) (j : Job) (s' : Sys) :
    Prop where
  name : j.infile = infile
  suffix : checkSuffix opts infile = true
  ne_nil : infile ≠ []
  content : s.files infile = some j.content
  skipMagic : j.skipMagic = skipsMagic opts
  finds : Finds opts (env.stream infile j.content) s.fmt s.globals j.inp j.fmt j.globals
  outfile : opts.stdout = true ∧ j.outfile = none ∧ s'.files = s.files ∨
    ∃ o, opts.stdout = false ∧ j.outfile = some o ∧ outputName opts j.fmt infile = some o ∧
      o ≠ [] ∧ env.writable o = true ∧ s'.files = Function.update s.files o (some [])
  stdout : s'.stdout = s.stdout
  globals : s'.globals = j.globals
  fmt : s'.fmt = j.fmt
  current : s'.current = some j

/-- What opening the files comes to. -/
inductive OpenResult (env : Env) (opts : Options) (infile : Name) (s : Sys) :
    Outcome Sys (Option Job) → Prop
  | skipped (h : checkSuffix opts infile = false) :
      OpenResult env opts infile s (.ret none { s with current := none })
  | refused {s'} (hfiles : s'.files = s.files) (hcurrent : s'.current = none) :
      OpenResult env opts infile s (.exit 1 s')
  | opened {j s'} (h : Opens env opts infile s j s') :
      OpenResult env opts infile s (.ret (some j) s')

section Open

theorem findFormat_cases (opts : Options) (i : InFile) (s : Sys) :
    (∃ inp fmt g, findFormat opts i s = .ret inp { s with fmt := fmt, globals := g } ∧
        Finds opts i s.fmt s.globals inp fmt g) ∨
      ∃ g, findFormat opts i s = .exit 1 { s with globals := g } := by
  unfold findFormat Finds
  cases hskip : skipsMagic opts with
  | false => exact Or.inl ⟨i, s.fmt, s.globals, rfl, rfl, rfl, rfl⟩
  | true =>
    obtain ⟨r, n, g', hrun, -⟩ := findStreamFormatByFileHeader_spec i s.globals
    have hrun : findStreamFormatByFileHeader ⟨i, [], s.globals⟩ = .ret r (probed i g' n) := hrun
    simp only [if_true, hrun]
    cases r with
    | none => exact Or.inr ⟨g', rfl⟩
    | some fmt => exact Or.inl ⟨_, fmt, g', rfl, _, rfl⟩

theorem openOutput_cases (env : Env) (opts : Options) (infile : Name) (s : Sys) :
    (opts.stdout = true ∧ openOutput env opts infile s = .ret none s) ∨
      (∃ o, opts.stdout = false ∧ outputName opts s.fmt infile = some o ∧ o ≠ [] ∧
        env.writable o = true ∧ openOutput env opts infile s =
          .ret (some o) { s with files := Function.update s.files o (some []) }) ∨
      openOutput env opts infile s = .exit 1 s := by
  unfold openOutput
  rw [ite_prog]
  cases hstd : opts.stdout with
  | true => exact Or.inl ⟨rfl, rfl⟩
  | false =>
    refine Or.inr ?_
    rw [if_neg Bool.false_ne_true, bind_apply, getSys_apply, Outcome.bind_ret]
    cases hname : outputName opts s.fmt infile with
    | none => exact Or.inr rfl
    | some o =>
      by_cases hok : (decide (o = []) || !env.writable o) = true
      · exact Or.inr (by simp only [if_pos hok]; rfl)
      · have hok' : o ≠ [] ∧ env.writable o = true := by simpa using hok
        exact Or.inl ⟨o, rfl, rfl, hok'.1, hok'.2, by simp only [if_neg hok]; rfl⟩

/-- **Opening the files of a round**: a file may be skipped, or the program ends, and then every
file is as it was; or the output is empty now. -/
theorem openFiles_cases (env : Env) (opts : Options) (infile : Name) (s : Sys) :
    OpenResult env opts infile s (openFiles env opts infile s) := by
  unfold openFiles
  simp only [bind_apply, setCurrent_apply, getSys_apply, Outcome.bind_ret, ite_prog]
  cases hsuffix : checkSuffix opts infile with
  | false => exact .skipped hsuffix
  | true =>
    simp only [Bool.not_true, Bool.false_eq_true, if_false]
    by_cases hnil : infile = []
    · rw [if_pos hnil]
      exact .refused rfl rfl
    rw [if_neg hnil]
    cases hcontent : s.files infile with
    | none => exact .refused rfl rfl
    | some content =>
      simp only [bind_apply]
      rcases findFormat_cases opts (env.stream infile content) { s with current := none }
        with ⟨inp, fmt, g, hrun, hfinds⟩ | ⟨g, hrun⟩
      · rw [hrun, Outcome.bind_ret, bind_apply]
        rcases openOutput_cases env opts infile
            { s with current := none, fmt := fmt, globals := g } with
          ⟨hstd, hout⟩ | ⟨o, hstd, hname, hne, hw, hout⟩ | hout
        · rw [hout]
          exact .opened ⟨rfl, hsuffix, hnil, hcontent, rfl, hfinds, Or.inl ⟨hstd, rfl, rfl⟩,
            rfl, rfl,
            rfl, rfl⟩
        · rw [hout]
          exact .opened ⟨rfl, hsuffix, hnil, hcontent, rfl, hfinds,
            Or.inr ⟨o, hstd, rfl, hname, hne, hw, rfl⟩, rfl, rfl, rfl, rfl⟩
        · rw [hout]
          exact .refused rfl rfl
      · rw [hrun]
        exact .refused rfl rfl

theorem opens_of_openFiles {env : Env} {opts : Options} {infile : Name} {s s' : Sys} {j : Job}
    (h : openFiles env opts infile s = .ret (some j) s') : Opens env opts infile s j s' := by
  have hres := openFiles_cases env opts infile s
  rw [h] at hres
  cases hres with
  | opened ho => exact ho

end Open

/-! ## Jobs -/

section Job

variable {env : Env} {opts : Options} {L : Library} {infile : Name} {s s' : Sys} {j : Job}

/-- The stream of a job tells the truth about its end, and a compressor has all of it. -/
theorem Opens.inp (h : Opens env opts infile s j s') :
    j.inp.Ok ∧ (opts.uncompress = false → j.inp.err = false) := by
  have hok : (env.stream infile j.content).Ok :=
    ⟨fun h => Bool.noConfusion h, fun h => Bool.noConfusion h⟩
  have hfinds := h.finds
  unfold Finds at hfinds
  cases hskip : skipsMagic opts with
  | false =>
    rw [hskip] at hfinds
    obtain ⟨hinp, -⟩ : j.inp = env.stream infile j.content ∧ _ := hfinds
    rw [hinp]
    exact ⟨hok, fun _ => rfl⟩
  | true =>
    rw [hskip] at hfinds
    obtain ⟨buf, hrun⟩ : ∃ buf, _ = _ := hfinds
    obtain ⟨r, n, g', hrun', -⟩ := findStreamFormatByFileHeader_spec
      (env.stream infile j.content) s.globals
    have hp := (Outcome.ret.inj (hrun'.symm.trans hrun)).2
    have hinp : InFile.next^[n] (env.stream infile j.content) = j.inp := congrArg Probe.inp hp
    refine ⟨?_, fun hu => ?_⟩
    · rw [← hinp]
      exact ok_iterate_next n hok
    · rw [skipsMagic, hu] at hskip
      cases hskip

/-- The script of a job. -/
def Job.script (L : Library) (opts : Options) (j : Job) : Script :=
  if opts.uncompress then
    j.fmt.uncompressScript L j.globals j.skipMagic j.inp.fault j.inp.rest
  else
    j.fmt.compressScript L j.globals (some (BitVec.ofNat 64 j.content.length))
      (sizeOfInt opts.blockSize) j.inp.fault j.inp.rest

/-- **The codec of a job plays its script.** -/
theorem codec_playback (h : Opens env opts infile s j s') (out : OutFile) :
    (j.codec L opts ⟨j.inp, out⟩).view World.out = (j.script L opts).playback out := by
  unfold Job.codec Job.script
  cases hu : opts.uncompress with
  | true => exact refines_uncompress L j.globals j.skipMagic j.fmt ⟨j.inp, out⟩ h.inp.1
  | false =>
    exact refines_compress L j.globals _ (sizeOfInt opts.blockSize) j.fmt ⟨j.inp, out⟩ h.inp.1
      (h.inp.2 hu)

theorem Opens.toFile (h : Opens env opts infile s j s') (hstd : opts.stdout = false) :
    ∃ o, j.outfile = some o ∧ o ≠ infile ∧ s'.files = Function.update s.files o (some []) ∧
      j.outFile env s' = OutFile.opened (env.buffering j.infile) (env.room o) := by
  rcases h.outfile with ⟨h', -⟩ | ⟨o, -, ho, hname, -, -, hfiles⟩
  · rw [hstd] at h'
    cases h'
  · exact ⟨o, ho, outputName_ne hname, hfiles, by rw [Job.outFile, ho]⟩

end Job

/-! ## A round -/

/-- A round whose job is `j`, from the codec on. -/
def afterOpen (env : Env) (opts : Options) (L : Library) (j : Job) (s : Sys) :
    Outcome Sys (Option ℕ) :=
  match j.codec L opts ⟨j.inp, j.outFile env s⟩ with
  | .ret n w =>
    if n ≠ 0 then .ret (some 1) (unlinkOutput j w.out s)
    else if opts.keep then .ret none (closeOutput j w.out s)
    else .ret none { closeOutput j w.out s with
      files := Function.update (closeOutput j w.out s).files j.infile none }
  | .exit n w => .exit n (closeOutput j w.out s)
  | .diverge => .diverge

/-- **A round after which the loop goes on**: the codec has returned 0, the output is there, and the
input is deleted unless it is kept. -/
theorem afterOpen_next {env : Env} {opts : Options} {L : Library} {j : Job} {o : Name} {s t : Sys}
    (ho : j.outfile = some o) (h : afterOpen env opts L j s = .ret none t) :
    ∃ w, j.codec L opts ⟨j.inp, j.outFile env s⟩ = .ret 0 w ∧ t.globals = s.globals ∧
      t.fmt = s.fmt ∧ t.current = s.current ∧
      t.files = if opts.keep then Function.update s.files o (some w.out.written)
        else Function.update (Function.update s.files o (some w.out.written)) j.infile none := by
  have hclose : ∀ out, closeOutput j out s =
      { s with files := Function.update s.files o (some out.written) } := fun out => by
    rw [closeOutput, ho]
  unfold afterOpen at h
  split at h
  · next n w hw =>
    split at h
    · cases h
    next hn =>
    obtain rfl : n = 0 := not_not.mp hn
    rw [hclose] at h
    cases hk : opts.keep with
    | true =>
      rw [hk] at h
      cases h
      exact ⟨w, hw, rfl, rfl, rfl, rfl⟩
    | false =>
      rw [hk] at h
      cases h
      exact ⟨w, hw, rfl, rfl, rfl, rfl⟩
  · cases h
  · cases h

/-- What the codec of a job makes of its input. -/
def Job.result (env : Env) (opts : Options) (L : Library) (j : Job) : Result :=
  Codec.run (env.buffering j.infile) (j.codec L opts) j.inp

/-- The state after such a round, when nothing fails. -/
structure Effect (env : Env) (opts : Options) (L : Library) (infile : Name) (s : Sys) (j : Job)
    (o : Name) (out : Bytes) (t : Sys) : Prop where
  outfile : j.outfile = some o
  ne : o ≠ infile
  result : j.result env opts L = ⟨some 0, out⟩
  output : t.files o = some out
  other : ∀ i, i ≠ o → (opts.keep = true ∨ i ≠ infile) → t.files i = s.files i
  deleted : opts.keep = false → t.files infile = none
  settings : skipsMagic opts = false → t.fmt = s.fmt ∧ t.globals = s.globals
  current : t.current = some j

theorem Opens.effect {env : Env} {opts : Options} {L : Library} {infile : Name} {s s' t : Sys}
    {j : Job} (h : Opens env opts infile s j s') (hroom : ∀ o, env.room o = none)
    (hstd : opts.stdout = false) (ht : afterOpen env opts L j s' = .ret none t) :
    ∃ o out, Effect env opts L infile s j o out t := by
  obtain ⟨o, ho, hne, hfiles', hout⟩ := h.toFile hstd
  obtain ⟨w, hw, hg, hf, hcurrent, hfiles⟩ := afterOpen_next ho ht
  rw [hout, hroom] at hw
  rw [hfiles', Function.update_idem] at hfiles
  refine ⟨o, w.out.written, ho, hne, ?_, ?_, fun i hi hk => ?_, fun hk => ?_, fun hskip => ?_,
    hcurrent.trans h.current⟩
  · rw [Job.result, Codec.run, hw]
    rfl
  · rw [hfiles]
    split
    · exact Function.update_self _ _ _
    · rw [h.name, Function.update_of_ne hne, Function.update_self]
  · rw [hfiles]
    split
    · exact Function.update_of_ne hi _ _
    · next hkeep =>
      have hne' : i ≠ j.infile := h.name ▸ hk.resolve_left hkeep
      rw [Function.update_of_ne hne', Function.update_of_ne hi]
  · rw [hfiles, if_neg (by rw [hk]; decide), h.name]
    exact Function.update_self _ _ _
  · have hfinds := h.finds
    rw [Finds, hskip, if_neg Bool.false_ne_true] at hfinds
    rw [hf, hg, h.fmt, h.globals]
    exact hfinds.2

/-- What a round comes to. -/
inductive Round (env : Env) (opts : Options) (L : Library) (infile : Name) (s : Sys) :
    Outcome Sys (Option ℕ) → Prop
  | skipped (h : checkSuffix opts infile = false) :
      Round env opts L infile s (.ret none { s with current := none })
  | refused {s' : Sys} (hfiles : s'.files = s.files) (hcurrent : s'.current = none) :
      Round env opts L infile s (.exit 1 s')
  | opened {j : Job} {s' : Sys} (h : Opens env opts infile s j s')
      (hopen : openFiles env opts infile s = .ret (some j) s') :
      Round env opts L infile s (afterOpen env opts L j s')

@[simp] theorem current_closeOutput (j : Job) (out : OutFile) (s : Sys) :
    (closeOutput j out s).current = s.current := by
  unfold closeOutput
  split <;> rfl

@[simp] theorem current_unlinkOutput (j : Job) (out : OutFile) (s : Sys) :
    (unlinkOutput j out s).current = s.current := by
  unfold unlinkOutput
  split <;> rfl

theorem files_closeOutput {j : Job} {o : Name} (h : j.outfile = some o) (out : OutFile) (s : Sys) :
    (closeOutput j out s).files = Function.update s.files o (some out.written) := by
  rw [closeOutput, h]

theorem files_unlinkOutput {j : Job} {o : Name} (h : j.outfile = some o) (out : OutFile) (s : Sys) :
    (unlinkOutput j out s).files = Function.update s.files o none := by
  rw [unlinkOutput, h]

section Round

variable {env : Env} {opts : Options} {L : Library} {infile : Name} {s s' : Sys} {j : Job}

theorem processFile_opened (h : Opens env opts infile s j s')
    (hopen : openFiles env opts infile s = .ret (some j) s') :
    processFile env opts L infile s = afterOpen env opts L j s' := by
  unfold processFile afterOpen
  rw [bind_apply, hopen, Outcome.bind_ret]
  simp only [bind_apply, runCodec, h.name]
  cases hc : j.codec L opts ⟨j.inp, j.outFile env s'⟩ with
  | exit n w => rfl
  | diverge => rfl
  | ret n w =>
    by_cases hn : n = 0
    · cases hk : opts.keep <;> simp [hn]
    · simp [hn]

/-- **A round of the loop.** -/
theorem processFile_cases (env : Env) (opts : Options) (L : Library) (infile : Name) (s : Sys) :
    Round env opts L infile s (processFile env opts L infile s) := by
  have hres := openFiles_cases env opts infile s
  cases hopen : openFiles env opts infile s with
  | ret r s' =>
    rw [hopen] at hres
    cases hres with
    | skipped h =>
      rw [processFile, bind_apply, hopen]
      exact .skipped h
    | opened h =>
      rw [processFile_opened h hopen]
      exact .opened h hopen
  | exit n s' =>
    rw [hopen] at hres
    cases hres with
    | refused hfiles hcurrent =>
      rw [processFile, bind_apply, hopen]
      exact .refused hfiles hcurrent
  | diverge =>
    rw [hopen] at hres
    cases hres

theorem processFile_return {t : Sys} {n : ℕ}
    (h : processFile env opts L infile s = .ret (some n) t) : n = 1 := by
  have hround := processFile_cases env opts L infile s
  rw [h] at hround
  generalize hq : Outcome.ret (some n) t = q at hround
  cases hround with
  | skipped => cases hq
  | refused => cases hq
  | opened =>
    unfold afterOpen at hq
    split at hq
    · split at hq
      · cases hq
        rfl
      · split at hq <;> cases hq
    · cases hq
    · cases hq

end Round

/-! ## A run -/

/-- The status with which the program ends, and the state at the end. -/
def ending : Outcome Sys ℕ → Option (ℕ × Sys)
  | .ret n s | .exit n s => some (n, s)
  | .diverge => none

/-- The loop comes to the codec of the job `j`. -/
inductive Reaches (env : Env) (opts : Options) (L : Library) : List Name → Sys → Job → Sys → Prop
  | here {infile files s j s'} (h : Opens env opts infile s j s')
      (hopen : openFiles env opts infile s = .ret (some j) s') :
      Reaches env opts L (infile :: files) s j s'
  | later {infile files s s' j s''} (h : processFile env opts L infile s = .ret none s')
      (ht : Reaches env opts L files s' j s'') : Reaches env opts L (infile :: files) s j s''

section Run

variable {env : Env} {opts : Options} {L : Library}

theorem runFiles_cons (infile : Name) (files : List Name) (s : Sys) :
    runFiles env opts L (infile :: files) s =
      (processFile env opts L infile s).bind fun r => match r with
        | some n => fun s' => .ret n s'
        | none => runFiles env opts L files := by
  rw [runFiles, bind_apply]
  cases processFile env opts L infile s with
  | ret r s' => cases r <;> rfl
  | exit n s' => rfl
  | diverge => rfl

/-- A round that ends the program, or a `return` in it, is the end of the run. -/
theorem ending_runFiles_cons {infile : Name} {files : List Name} {s s' : Sys} {n : ℕ}
    (h : ending (runFiles env opts L (infile :: files) s) = some (n, s')) :
    (∃ s₁, processFile env opts L infile s = .ret none s₁ ∧
        ending (runFiles env opts L files s₁) = some (n, s')) ∨
      processFile env opts L infile s = .ret (some n) s' ∨
      processFile env opts L infile s = .exit n s' := by
  rw [runFiles_cons] at h
  cases hp : processFile env opts L infile s with
  | ret r s₁ =>
    rw [hp] at h
    cases r with
    | none => exact Or.inl ⟨s₁, rfl, h⟩
    | some m => cases h; exact Or.inr (Or.inl rfl)
  | exit m s₁ => rw [hp] at h; cases h; exact Or.inr (Or.inr rfl)
  | diverge => rw [hp] at h; cases h

/-- **How a run fails**: with no files open, or at the codec of some job. -/
theorem runFiles_cases {files : List Name} {s s' : Sys} {n : ℕ}
    (h : ending (runFiles env opts L files s) = some (n, s')) (hn : n ≠ 0) :
    s'.current = none ∨ ∃ j s₁, Reaches env opts L files s j s₁ ∧
      (afterOpen env opts L j s₁ = .ret (some n) s' ∨ afterOpen env opts L j s₁ = .exit n s') := by
  induction files generalizing s with
  | nil => cases h; exact absurd rfl hn
  | cons infile files ih =>
    rcases ending_runFiles_cons h with ⟨s₁, hp, hrest⟩ | hp
    · exact (ih hrest).imp_right fun ⟨j, s₂, hr, hend⟩ => ⟨j, s₂, .later hp hr, hend⟩
    have hround := processFile_cases env opts L infile s
    generalize hq : processFile env opts L infile s = q at hp hround
    cases hround with
    | skipped hs => rcases hp with hp | hp <;> cases hp
    | refused hfiles hcurrent =>
      rcases hp with hp | hp <;> cases hp
      exact Or.inl hcurrent
    | opened ho hopen => exact Or.inr ⟨_, _, .here ho hopen, hp⟩

theorem runFiles_exit {files : List Name} {s s₁ s' : Sys} {j : Job} {n : ℕ}
    (hr : Reaches env opts L files s j s₁) (h : afterOpen env opts L j s₁ = .exit n s') :
    runFiles env opts L files s = .exit n s' := by
  induction hr with
  | here ho hopen => rw [runFiles_cons, processFile_opened ho hopen, h]; rfl
  | later hp _ ih => rw [runFiles_cons, hp, Outcome.bind_ret]; exact ih h

theorem Reaches.opens {files : List Name} {s s' : Sys} {j : Job}
    (h : Reaches env opts L files s j s') : ∃ infile s₀, Opens env opts infile s₀ j s' := by
  induction h with
  | here ho _ => exact ⟨_, _, ho⟩
  | later _ _ ih => exact ih

theorem mainFiles_eq (env : Env) (opts : Options) (L : Library) (files : List Name) (s : Sys) :
    mainFiles env opts L files s =
      match namedFormat opts s.fmt with
      | none => .ret 1 s
      | some fmt => runFiles env opts L files { s with fmt := fmt } := by
  rw [mainFiles, bind_apply, getSys_apply, Outcome.bind_ret]
  cases namedFormat opts s.fmt <;> rfl

end Run

end Snzip
