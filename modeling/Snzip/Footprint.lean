import Mathlib.Data.Finset.Piecewise
import Snzip.Main

set_option autoImplicit false

/-!
# What a run touches

A run of `main` looks at the files that are named and writes the files whose names are made from
these. There may be anything else in the system, and whatever fails, it stays as it is.

* `Sys.overlay`, `Local`: a program that does the same whatever the files outside a set are;
* `local_processFile`, **`mainFiles_overlay`**: a run is such a program, for the names in `cover`;
* `Footprint`, `processFile_footprint`, **`mainFiles_footprint`**: what may have become of a file.
-/

namespace Snzip

open CProg

/-! ## What is not looked at -/

/-- The files of a system, and its standard output. -/
structure Surroundings where
  files : Name → Option Bytes
  stdout : OutFile

/-- The files of `s` in `A`, and those of `r` outside; and the standard output of `r` where the
program does not write to its own. -/
def Sys.overlay (opts : Options) (A : Finset Name) (r : Surroundings) (s : Sys) : Sys :=
  { s with files := A.piecewise s.files r.files
           stdout := if opts.stdout then s.stdout else r.stdout }

/-- The program does not see what is around it, and leaves it alone. -/
def Local {α : Type} (opts : Options) (A : Finset Name) (r : Surroundings) (m : Prog Sys α) :
    Prop :=
  ∀ s, m (s.overlay opts A r) = (m s).view (Sys.overlay opts A r)

section Local

variable {α β : Type} {opts : Options} {A : Finset Name} {r : Surroundings}

theorem Sys.files_overlay {n : Name} (hn : n ∈ A) (s : Sys) :
    (s.overlay opts A r).files n = s.files n := A.piecewise_eq_of_mem s.files r.files hn

theorem Sys.overlay_self (opts : Options) (A : Finset Name) (s : Sys) :
    s.overlay opts A ⟨s.files, s.stdout⟩ = s := by
  rw [overlay, Finset.piecewise_same, ite_self]

theorem Sys.overlay_update {n : Name} (hn : n ∈ A) (c : Option Bytes) (s : Sys) :
    { s.overlay opts A r with files := Function.update (s.overlay opts A r).files n c } =
      Sys.overlay opts A r { s with files := Function.update s.files n c } := by
  simp only [overlay]
  rw [A.update_piecewise_of_mem _ _ hn]

theorem Local.pure (a : α) : Local opts A r (pure a : Prog Sys α) := fun _ => rfl

theorem Local.exit (k : ℕ) : Local opts A r (CProg.exit k : Prog Sys α) := fun _ => rfl

theorem Local.ite {c : Prop} [Decidable c] {m m' : Prog Sys α} (hm : Local opts A r m)
    (hm' : Local opts A r m') : Local opts A r (if c then m else m') := by
  split
  · exact hm
  · exact hm'

/-- Programs one after the other, where the first one promises something about its value. -/
theorem Local.bind {m : Prog Sys α} {k : α → Prog Sys β} (hm : Local opts A r m)
    (hk : ∀ a s t, m s = .ret a t → Local opts A r (k a)) : Local opts A r (m >>= k) := by
  intro s
  rw [bind_apply, bind_apply, hm s]
  cases h : m s with
  | ret a t => exact hk a s t h t
  | exit n t => rfl
  | diverge => rfl

theorem Local.getSys {k : Sys → Prog Sys α} (hk : ∀ s, Local opts A r (k s))
    (hsame : ∀ s, k (s.overlay opts A r) = k s) : Local opts A r (getSys >>= k) := by
  intro s
  rw [bind_apply, bind_apply, getSys_apply, getSys_apply, Outcome.bind_ret, Outcome.bind_ret,
    hsame]
  exact hk s s

theorem local_setCurrent (j : Option Job) : Local opts A r (setCurrent j) := fun _ => rfl

theorem local_setFile {n : Name} (hn : n ∈ A) (c : Option Bytes) :
    Local opts A r (setFile n c) := by
  intro s
  rw [setFile_apply, setFile_apply, Sys.overlay_update hn]
  rfl

end Local

/-- The set has every input and every name that an output may get. -/
structure Covers (opts : Options) (names : List Name) (A : Finset Name) : Prop where
  inputs : ∀ n ∈ names, n ∈ A
  outputs : opts.stdout = false → ∀ n ∈ names, ∀ f o, outputName opts f n = some o → o ∈ A

/-- The names that a run may have to do with. -/
def cover (opts : Options) (names : List Name) : Finset Name :=
  (names ++ names.flatMap fun n => streamFormats.filterMap fun f => outputName opts f n).toFinset

theorem covers_cover (opts : Options) (names : List Name) :
    Covers opts names (cover opts names) := by
  refine ⟨fun n hn => ?_, fun _ n hn f o ho => ?_⟩
  · exact List.mem_toFinset.mpr (List.mem_append_left _ hn)
  · refine List.mem_toFinset.mpr (List.mem_append_right _ (List.mem_flatMap.mpr ⟨n, hn, ?_⟩))
    exact List.mem_filterMap.mpr ⟨f, mem_streamFormats f, ho⟩

section Round

variable {env : Env} {opts : Options} {L : Library} {A : Finset Name} {r : Surroundings}
  {names : List Name} {n : Name} {j : Job}

theorem local_findFormat (i : InFile) : Local opts A r (findFormat opts i) := by
  intro s
  have hg : (s.overlay opts A r).globals = s.globals := rfl
  unfold findFormat
  rw [hg]
  cases skipsMagic opts with
  | false => rfl
  | true =>
    simp only [if_true]
    cases findStreamFormatByFileHeader ⟨i, [], s.globals⟩ with
    | ret r p => cases r <;> rfl
    | exit k p => rfl
    | diverge => rfl

theorem local_openOutput (hA : Covers opts names A) (hn : n ∈ names) :
    Local opts A r (openOutput env opts n) := by
  unfold openOutput
  cases hstd : opts.stdout with
  | true => exact .pure none
  | false =>
    refine .getSys (fun s => ?_) fun s => rfl
    cases ho : outputName opts s.fmt n with
    | none => exact .exit 1
    | some o =>
      refine .ite (.exit 1) ?_
      exact (local_setFile (hA.outputs hstd n hn s.fmt o ho) _).bind fun _ _ _ _ => .pure _

theorem local_openFiles (hA : Covers opts names A) (hn : n ∈ names) :
    Local opts A r (openFiles env opts n) := by
  unfold openFiles
  refine (local_setCurrent none).bind fun _ _ _ _ => .ite (.pure none) (.ite (.exit 1) ?_)
  refine .getSys (fun s => ?_) fun s => by rw [Sys.files_overlay (hA.inputs n hn)]
  cases s.files n with
  | none => exact .exit 1
  | some content =>
    refine (local_findFormat _).bind fun inp _ _ _ => ?_
    refine (local_openOutput hA hn).bind fun o _ _ _ => ?_
    exact .getSys (fun s => (local_setCurrent _).bind fun _ _ _ _ => .pure _) fun _ => rfl

/-- The output of the job is in the set, or it is the standard output. -/
def Job.WritesTo (opts : Options) (A : Finset Name) (j : Job) : Prop :=
  match j.outfile with
  | none => opts.stdout = true
  | some o => o ∈ A

theorem overlay_closeOutput (hj : j.WritesTo opts A) (out : OutFile) (s : Sys) :
    closeOutput j out (s.overlay opts A r) = (closeOutput j out s).overlay opts A r := by
  unfold Job.WritesTo at hj
  unfold closeOutput
  cases ho : j.outfile with
  | none =>
    rw [ho] at hj
    simp only [Sys.overlay, if_pos hj]
  | some o =>
    rw [ho] at hj
    exact Sys.overlay_update hj _ s

theorem overlay_unlinkOutput (hj : j.WritesTo opts A) (out : OutFile) (s : Sys) :
    unlinkOutput j out (s.overlay opts A r) = (unlinkOutput j out s).overlay opts A r := by
  unfold Job.WritesTo at hj
  unfold unlinkOutput
  cases ho : j.outfile with
  | none =>
    rw [ho] at hj
    simp only [Sys.overlay, if_pos hj]
  | some o =>
    rw [ho] at hj
    exact Sys.overlay_update hj _ s

theorem local_runCodec (hj : j.WritesTo opts A) : Local opts A r (runCodec env opts L j) := by
  intro s
  have hout : j.outFile env (s.overlay opts A r) = j.outFile env s := by
    unfold Job.WritesTo at hj
    unfold Job.outFile
    cases ho : j.outfile with
    | none =>
      rw [ho] at hj
      exact if_pos hj
    | some o => rfl
  unfold runCodec
  rw [hout]
  cases j.codec L opts ⟨j.inp, j.outFile env s⟩ with
  | ret k w => rfl
  | exit k w => exact congrArg (Outcome.exit k) (overlay_closeOutput hj w.out s)
  | diverge => rfl

theorem Opens.writesTo {s s' : Sys} (h : Opens env opts n s j s') (hA : Covers opts names A)
    (hn : n ∈ names) : j.WritesTo opts A := by
  unfold Job.WritesTo
  rcases h.outfile with ⟨hstd, ho, -⟩ | ⟨o, hstd, ho, hname, -⟩
  · rw [ho]
    exact hstd
  · rw [ho]
    exact hA.outputs hstd n hn j.fmt o hname

/-- **A round** does the same whatever is around it. -/
theorem local_processFile (hA : Covers opts names A) (hn : n ∈ names) :
    Local opts A r (processFile env opts L n) := by
  unfold processFile
  refine (local_openFiles hA hn).bind fun r s t hopen => ?_
  cases r with
  | none => exact .pure none
  | some j =>
    have hopens := opens_of_openFiles hopen
    have hj := hopens.writesTo hA hn
    refine (local_runCodec hj).bind fun q _ _ _ => .ite ?_ ?_
    · exact Local.bind (fun s => congrArg (Outcome.ret ()) (overlay_unlinkOutput hj q.2 s))
        fun _ _ _ _ => .pure _
    · refine Local.bind (fun s => congrArg (Outcome.ret ()) (overlay_closeOutput hj q.2 s))
        fun _ _ _ _ => ?_
      refine .ite ?_ (.pure none)
      exact (local_setFile (hA.inputs n hn) none).bind fun _ _ _ _ => .pure none

theorem local_runFiles (hA : Covers opts names A) {files : List Name} (hsub : files ⊆ names) :
    Local opts A r (runFiles env opts L files) := by
  induction files with
  | nil => exact .pure 0
  | cons n files ih =>
    obtain ⟨hn, hfiles⟩ := List.cons_subset.mp hsub
    rw [runFiles]
    refine (local_processFile hA hn).bind fun r _ _ _ => ?_
    cases r with
    | none => exact ih hfiles
    | some k => exact .pure k

theorem overlay_mainFiles (hA : Covers opts names A) (r : Surroundings) (s : Sys) :
    mainFiles env opts L names (s.overlay opts A r) =
      (mainFiles env opts L names s).view (Sys.overlay opts A r) := by
  have hfmt : (s.overlay opts A r).fmt = s.fmt := rfl
  rw [mainFiles_eq, mainFiles_eq, hfmt]
  cases namedFormat opts s.fmt with
  | none => rfl
  | some fmt => exact local_runFiles hA (List.Subset.refl names) { s with fmt := fmt }

/-- **A run neither sees nor touches anything else**: with other files in the place of those that it
does not use, and another standard output, it does the same, with the same status, and these are
there in the end. -/
theorem mainFiles_overlay (opts : Options) (names : List Name) (r : Surroundings) (s : Sys) :
    let A := cover opts names
    mainFiles env opts L names (s.overlay opts A r) =
      (mainFiles env opts L names s).view (Sys.overlay opts A r) :=
  overlay_mainFiles (covers_cover opts names) r s

end Round

/-! ## What becomes of a file -/

/-- What may have become of the file `i`. -/
inductive Footprint (opts : Options) (names : List Name) (files files' : Name → Option Bytes)
    (i : Name) : Prop
  | same (h : files' i = files i)
  | deleted (hkeep : opts.keep = false) (hi : i ∈ names) (h : files' i = none)
  | output {n : Name} {f : Format} (hstd : opts.stdout = false) (hn : n ∈ names)
      (hsuffix : checkSuffix opts n = true) (ho : outputName opts f n = some i)

section Footprint

variable {env : Env} {opts : Options} {L : Library} {names : List Name} {n i : Name} {s t : Sys}

theorem Footprint.mono {names' : List Name} {files files' : Name → Option Bytes}
    (h : Footprint opts names files files' i) (hsub : names ⊆ names') :
    Footprint opts names' files files' i := by
  cases h with
  | same h => exact .same h
  | deleted hkeep hi h => exact .deleted hkeep (hsub hi) h
  | output hstd hn hsuffix ho => exact .output hstd (hsub hn) hsuffix ho

theorem Footprint.trans {files files' files'' : Name → Option Bytes}
    (h : Footprint opts names files files' i) (h' : Footprint opts names files' files'' i) :
    Footprint opts names files files'' i := by
  cases h' with
  | same he =>
    cases h with
    | same h => exact .same (he.trans h)
    | deleted hkeep hi h => exact .deleted hkeep hi (he.trans h)
    | output hstd hn hsuffix ho => exact .output hstd hn hsuffix ho
  | deleted hkeep hi h => exact .deleted hkeep hi h
  | output hstd hn hsuffix ho => exact .output hstd hn hsuffix ho

theorem closeOutput_untouched {j : Job} (h : j.outfile ≠ some i) (out : OutFile) (s : Sys) :
    (closeOutput j out s).files i = s.files i := by
  unfold closeOutput
  split
  · rfl
  · next o ho =>
    have hio : i ≠ o := fun he => h (ho.trans (congrArg some he.symm))
    exact Function.update_of_ne hio _ _

theorem unlinkOutput_untouched {j : Job} (h : j.outfile ≠ some i) (out : OutFile) (s : Sys) :
    (unlinkOutput j out s).files i = s.files i := by
  unfold unlinkOutput
  split
  · rfl
  · next o ho =>
    have hio : i ≠ o := fun he => h (ho.trans (congrArg some he.symm))
    exact Function.update_of_ne hio _ _

theorem Opens.untouched {s' : Sys} {j : Job} (h : Opens env opts n s j s')
    (hi : j.outfile ≠ some i) :
    s'.files i = s.files i := by
  rcases h.outfile with ⟨-, -, hfiles⟩ | ⟨o, -, ho, -, -, -, hfiles⟩
  · rw [hfiles]
  · have hio : i ≠ o := fun he => hi (ho.trans (congrArg some he.symm))
    rw [hfiles, Function.update_of_ne hio]

/-- What a round does to the file `i`: nothing, or it deletes its input, or it opens its output. -/
theorem processFile_touched {r : Option ℕ} {k : ℕ} (i : Name)
    (h : processFile env opts L n s = .ret r t ∨ processFile env opts L n s = .exit k t) :
    t.files i = s.files i ∨ (opts.keep = false ∧ i = n ∧ t.files i = none) ∨
      ∃ j s', Opens env opts n s j s' ∧ j.outfile = some i := by
  have hround := processFile_cases env opts L n s
  generalize processFile env opts L n s = q at hround h
  cases hround with
  | skipped =>
    rcases h with h | h <;> cases h
    exact Or.inl rfl
  | refused hfiles =>
    rcases h with h | h <;> cases h
    exact Or.inl (congrFun hfiles i)
  | @opened j s' ho hopen =>
    by_cases hi : j.outfile = some i
    · exact Or.inr (Or.inr ⟨j, s', ho, hi⟩)
    have hfiles := ho.untouched hi
    have hclose : ∀ out, (closeOutput j out s').files i = s.files i := fun out =>
      (closeOutput_untouched hi out s').trans hfiles
    have hunlink : ∀ out, (unlinkOutput j out s').files i = s.files i := fun out =>
      (unlinkOutput_untouched hi out s').trans hfiles
    unfold afterOpen at h
    split at h
    · next w hw =>
      split at h
      · rcases h with h | h <;> cases h
        exact Or.inl (hunlink _)
      split at h
      · rcases h with h | h <;> cases h
        exact Or.inl (hclose _)
      · next hkeep =>
        rcases h with h | h <;> cases h
        by_cases hin : i = j.infile
        · exact Or.inr (Or.inl ⟨Bool.eq_false_iff.mpr hkeep, hin.trans ho.name,
            hin ▸ Function.update_self _ _ _⟩)
        · exact Or.inl ((Function.update_of_ne hin _ _).trans (hclose _))
    · rcases h with h | h <;> cases h
      exact Or.inl (hclose _)
    · rcases h with h | h <;> cases h

/-- **A round** touches its output, and it deletes its input. -/
theorem processFile_footprint {r : Option ℕ} {k : ℕ} (i : Name)
    (h : processFile env opts L n s = .ret r t ∨ processFile env opts L n s = .exit k t) :
    Footprint opts [n] s.files t.files i := by
  rcases processFile_touched i h with hsame | ⟨hkeep, hi, hnone⟩ | ⟨j, s', ho, hi⟩
  · exact .same hsame
  · exact .deleted hkeep (List.mem_singleton.mpr hi) hnone
  · rcases ho.outfile with ⟨-, hnone, -⟩ | ⟨o, hstd, ho', hname, -⟩
    · rw [hnone] at hi
      cases hi
    · rw [ho'] at hi
      cases hi
      exact .output hstd (List.mem_singleton.mpr rfl) ho.suffix hname

theorem runFiles_footprint {k : ℕ} (i : Name)
    (h : ending (runFiles env opts L names s) = some (k, t)) :
    Footprint opts names s.files t.files i := by
  induction names generalizing s with
  | nil =>
    cases h
    exact .same rfl
  | cons n names ih =>
    have hn : [n] ⊆ n :: names := by simp
    rcases ending_runFiles_cons h with ⟨s₁, hp, hrest⟩ | hp | hp
    · exact ((processFile_footprint (k := k) i (Or.inl hp)).mono hn).trans
        ((ih hrest).mono (List.subset_cons_self n names))
    · exact (processFile_footprint (k := k) i (Or.inl hp)).mono hn
    · exact (processFile_footprint i (r := none) (Or.inr hp)).mono hn

theorem footprint_of_ending {k : ℕ}
    (h : ending (mainFiles env opts L names s) = some (k, t)) (i : Name) :
    Footprint opts names s.files t.files i := by
  rw [mainFiles_eq] at h
  cases hfmt : namedFormat opts s.fmt with
  | none =>
    rw [hfmt] at h
    cases h
    exact .same rfl
  | some fmt =>
    rw [hfmt] at h
    exact runFiles_footprint (s := { s with fmt := fmt }) i h

/-- **Whatever happens, a run has touched no file but its outputs**, and the inputs that it has
deleted; and nothing has come to the standard output unless the outputs go there. -/
theorem mainFiles_footprint {k : ℕ}
    (h : ending (mainFiles env opts L names s) = some (k, t)) :
    (∀ i, Footprint opts names s.files t.files i) ∧
      (opts.stdout = false → t.stdout = s.stdout) := by
  refine ⟨footprint_of_ending h, fun hstd => ?_⟩
  -- the standard output is one of the surroundings
  have hrun : mainFiles env opts L names (s.overlay opts (cover opts names) ⟨s.files, s.stdout⟩) =
      (mainFiles env opts L names s).view
        (Sys.overlay opts (cover opts names) ⟨s.files, s.stdout⟩) :=
    overlay_mainFiles (covers_cover opts names) ⟨s.files, s.stdout⟩ s
  rw [Sys.overlay_self] at hrun
  have hview : t = t.overlay opts (cover opts names) ⟨s.files, s.stdout⟩ := by
    cases hm : mainFiles env opts L names s with
    | ret n u | exit n u =>
      rw [hm] at h hrun
      cases h
      simpa using hrun
    | diverge =>
      rw [hm] at h
      cases h
  rw [hview, Sys.overlay, hstd]
  rfl

end Footprint

section Examples

/-- `-t snappy-java -k`. -/
def keeping : Options := ⟨false, true, false, some Format.snappyJava.name, 0#32⟩

/-- One file with one byte, and another one that is not named. -/
def besides : Sys := .initial fun n =>
  if n = ['a'] then some [0x61#8] else if n = ['b'] then some [] else none

theorem mainFiles_footprint_one :
    ∃ k t, ending (mainFiles Env.ideal keeping ⟨literalSnappy, 0⟩ [['a']] besides) = some (k, t) ∧
      (∀ i, Footprint keeping [['a']] besides.files t.files i) ∧ t.stdout = besides.stdout := by
  obtain ⟨k, t, h⟩ : ∃ k t, ending (mainFiles Env.ideal keeping ⟨literalSnappy, 0⟩ [['a']]
      besides) = some (k, t) := ⟨_, _, rfl⟩
  obtain ⟨hfiles, hstd⟩ := mainFiles_footprint h
  exact ⟨k, t, h, hfiles, hstd rfl⟩

end Examples

end Snzip
