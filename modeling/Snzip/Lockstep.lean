import Snzip.Lib.Coupled
import Snzip.Main

set_option autoImplicit false

/-!
# Two runs of the loop side by side

Two runs over the same file, with other global variables or with other options, go the same way if
the streams and the scripts that they come to are the same.

* `Shared`: what every two runs are to have in common; `Same`: and the settings, up to a relation;
* `SameFormat`, `SameJob`: two searches and two jobs that come to the same;
* `coupled_openFiles`, **`coupled_runCodec`**, **`coupled_processFile`**: a round.
-/

namespace Snzip

open CProg

/-- The files and the standard output are the same. -/
structure Shared (s t : Sys) : Prop where
  files : s.files = t.files
  stdout : s.stdout = t.stdout

/-- So are they, and the settings are related. -/
structure Same (R : Format → Globals → Format → Globals → Prop) (s t : Sys) : Prop
    extends Shared s t where
  settings : R s.fmt s.globals t.fmt t.globals

/-- The stream tells the truth about its end, and a compressor has all of it. -/
structure Fresh (opts : Options) (inp : InFile) : Prop where
  ok : inp.Ok
  err : opts.uncompress = false → inp.err = false

/-- Two jobs that write the same. -/
structure SameJob (opts opts' : Options) (L : Library) (j j' : Job) : Prop where
  infile : j.infile = j'.infile
  outfile : j.outfile = j'.outfile
  fresh : Fresh opts j.inp
  fresh' : Fresh opts' j'.inp
  script : j.script L opts = j'.script L opts'

/-- The format has been determined, and the codec will do the same in both runs. -/
structure SameFormat (R : Format → Globals → Format → Globals → Prop) (opts opts' : Options)
    (L : Library) (inp inp' : InFile) (s t : Sys) : Prop extends Same R s t where
  fmt : s.fmt = t.fmt
  fresh : Fresh opts inp
  fresh' : Fresh opts' inp'
  script : ∀ infile content outfile,
    (Job.mk infile content inp (skipsMagic opts) s.fmt s.globals outfile).script L opts =
      (Job.mk infile content inp' (skipsMagic opts') t.fmt t.globals outfile).script L opts'

section Round

variable {env : Env} {opts opts' : Options} {L : Library} {infile : Name} {α β : Type}
  {R : Format → Globals → Format → Globals → Prop} {I : Sys → Sys → Prop}
  {V : α → β → Sys → Sys → Prop} {j j' : Job} {s t : Sys}

theorem coupled_modifySys {f f' : Sys → Sys} {V : Unit → Unit → Sys → Sys → Prop}
    (h : ∀ s t, I s t → V () () (f s) (f' t)) :
    Coupled Shared I (modifySys f) (modifySys f') V := fun s t hs => .ret (h s t hs)

theorem coupled_getSys {k : Sys → Prog Sys α} {k' : Sys → Prog Sys β}
    (h : ∀ s t, I s t → Alike Shared V (k s s) (k' t t)) :
    Coupled Shared I (getSys >>= k) (getSys >>= k') V := fun s t hs => h s t hs

/-! ## Opening the files -/

theorem outputName_congr (hu : opts.uncompress = opts'.uncompress) (f : Format) (infile : Name) :
    outputName opts f infile = outputName opts' f infile := by
  simp only [outputName, hu]

theorem coupled_openOutput (hu : opts.uncompress = opts'.uncompress)
    (hstd : opts.stdout = opts'.stdout) {inp inp' : InFile} :
    Coupled Shared (SameFormat R opts opts' L inp inp') (openOutput env opts infile)
      (openOutput env opts' infile) fun o o' s t =>
        o = o' ∧ SameFormat R opts opts' L inp inp' s t := by
  unfold openOutput
  rw [hstd]
  refine .ite (fun _ => .pure fun _ _ h => ⟨rfl, h⟩) fun _ => ?_
  refine coupled_getSys fun s t hs => ?_
  rw [hs.fmt, outputName_congr hu]
  cases outputName opts' t.fmt infile with
  | none => exact .exit hs.toShared
  | some o =>
    simp only
    split
    · exact .exit hs.toShared
    · refine .ret ⟨rfl, ⟨⟨?_, hs.stdout⟩, hs.settings⟩, hs.fmt, hs.fresh, hs.fresh', hs.script⟩
      simp only [hs.files]

/-- **Opening the files**, where the searches for the format come to the same on a content like
this. -/
theorem coupled_openFiles {P : Bytes → Prop} (hu : opts.uncompress = opts'.uncompress)
    (hstd : opts.stdout = opts'.stdout)
    (hfind : ∀ x, P x → Coupled Shared (Same R) (findFormat opts (env.stream infile x))
      (findFormat opts' (env.stream infile x)) (SameFormat R opts opts' L)) :
    Coupled Shared (fun s t => Same R s t ∧ ∀ x, s.files infile = some x → P x)
      (openFiles env opts infile) (openFiles env opts' infile)
      fun r r' s t => Option.Rel (SameJob opts opts' L) r r' ∧ Same R s t := by
  have hsuffix : checkSuffix opts infile = checkSuffix opts' infile := by
    simp only [checkSuffix, hu]
  unfold openFiles
  rw [hsuffix]
  refine .bind (V := fun _ _ s t => Same R s t ∧ ∀ x, s.files infile = some x → P x)
    (coupled_modifySys fun s t hs => ⟨⟨⟨hs.1.files, hs.1.stdout⟩, hs.1.settings⟩, hs.2⟩)
      fun _ _ => ?_
  refine .ite (fun _ => .pure fun _ _ h => ⟨.none, h.1⟩) fun _ => ?_
  refine .ite (fun _ => .exit fun _ _ h => h.1.toShared) fun _ => ?_
  refine coupled_getSys fun s t ⟨hs, hP⟩ => ?_
  rw [← hs.files]
  cases hx : s.files infile with
  | none => exact .exit hs.toShared
  | some content =>
    refine (hfind content (hP content hx)).bind (fun inp inp' => ?_) s t hs
    refine (coupled_openOutput hu hstd).bind fun o o' => ?_
    intro s t ⟨ho, hs⟩
    subst ho
    exact .ret ⟨.some ⟨rfl, rfl, hs.fresh, hs.fresh', hs.script _ _ _⟩,
      ⟨⟨hs.files, hs.stdout⟩, hs.settings⟩⟩

/-! ## The codec -/

theorem Fresh.playback (h : Fresh opts j.inp) (out : OutFile) :
    (j.codec L opts ⟨j.inp, out⟩).view World.out = (j.script L opts).playback out := by
  unfold Job.codec Job.script
  cases hu : opts.uncompress with
  | true => exact refines_uncompress L j.globals j.skipMagic j.fmt ⟨j.inp, out⟩ h.ok
  | false =>
    exact refines_compress L j.globals _ (sizeOfInt opts.blockSize) j.fmt ⟨j.inp, out⟩ h.ok
      (h.err hu)

theorem Same.closeOutput (hs : Same R s t) (hj : j.outfile = j'.outfile) (out : OutFile) :
    Same R (closeOutput j out s) (closeOutput j' out t) := by
  unfold Snzip.closeOutput
  rw [hj]
  cases j'.outfile with
  | none => exact ⟨⟨hs.files, rfl⟩, hs.settings⟩
  | some o => exact ⟨⟨by rw [hs.files], hs.stdout⟩, hs.settings⟩

theorem Same.unlinkOutput (hs : Same R s t) (hj : j.outfile = j'.outfile) (out : OutFile) :
    Same R (unlinkOutput j out s) (unlinkOutput j' out t) := by
  unfold Snzip.unlinkOutput
  rw [hj]
  cases j'.outfile with
  | none => exact ⟨⟨hs.files, rfl⟩, hs.settings⟩
  | some o => exact ⟨⟨by rw [hs.files], hs.stdout⟩, hs.settings⟩

/-- **Two jobs with one script.** -/
theorem coupled_runCodec (hj : SameJob opts opts' L j j') :
    Coupled Shared (Same R) (runCodec env opts L j) (runCodec env opts' L j')
      fun r r' s t => r = r' ∧ Same R s t := by
  intro s t hs
  have hout : j.outFile env s = j'.outFile env t := by
    rw [Job.outFile, Job.outFile, hj.outfile, hj.infile, hs.stdout]
  have hplay := (hj.fresh.playback (L := L) (j.outFile env s)).trans (by rw [hj.script, hout])
  replace hplay := hplay.trans (hj.fresh'.playback (L := L) (j'.outFile env t)).symm
  unfold runCodec
  cases hc : j.codec L opts ⟨j.inp, j.outFile env s⟩ with
  | ret n w =>
    cases hc' : j'.codec L opts' ⟨j'.inp, j'.outFile env t⟩ with
    | ret n' w' =>
      rw [hc, hc'] at hplay
      obtain ⟨rfl, hw⟩ := Outcome.ret.inj hplay
      exact .ret ⟨by rw [hw], hs⟩
    | exit | diverge => rw [hc, hc'] at hplay; cases hplay
  | exit n w =>
    cases hc' : j'.codec L opts' ⟨j'.inp, j'.outFile env t⟩ with
    | exit n' w' =>
      rw [hc, hc'] at hplay
      obtain ⟨rfl, hw⟩ := Outcome.exit.inj hplay
      simp only [hw]
      exact .exit (hs.closeOutput hj.outfile w'.out).toShared
    | ret | diverge => rw [hc, hc'] at hplay; cases hplay
  | diverge =>
    cases hc' : j'.codec L opts' ⟨j'.inp, j'.outFile env t⟩ with
    | diverge => exact .diverge
    | ret | exit => rw [hc, hc'] at hplay; cases hplay

/-- **A round of the loop.** -/
theorem coupled_processFile (hkeep : opts.keep = opts'.keep)
    (hopen : Coupled Shared I (openFiles env opts infile) (openFiles env opts' infile)
      fun r r' s t => Option.Rel (SameJob opts opts' L) r r' ∧ Same R s t) :
    Coupled Shared I (processFile env opts L infile) (processFile env opts' L infile)
      fun r r' s t => r = r' ∧ Same R s t := by
  unfold processFile
  rw [hkeep]
  refine hopen.bind fun r r' => ?_
  intro s t ⟨hr, hs⟩
  cases hr with
  | none => exact .ret ⟨rfl, hs⟩
  | some hj =>
    refine (coupled_runCodec hj).bind (fun q q' => ?_) s t hs
    intro s t ⟨hq, hs⟩
    subst hq
    refine Coupled.ite (fun _ => ?_) (fun _ => ?_) s t hs
    · exact (coupled_modifySys fun s t hs => hs.unlinkOutput hj.outfile q.2).bind
        fun _ _ => .pure fun _ _ h => ⟨rfl, h⟩
    · refine Coupled.bind (V := fun _ _ s t => Same R s t)
        (coupled_modifySys fun s t hs => hs.closeOutput hj.outfile q.2) fun _ _ => ?_
      refine .ite (fun _ => ?_) fun _ => .pure fun _ _ h => ⟨rfl, h⟩
      refine Coupled.bind (V := fun _ _ s t => Same R s t)
        (coupled_modifySys fun s t hs => ⟨⟨by rw [hs.files], hs.stdout⟩, hs.settings⟩) fun _ _ => ?_
      exact .pure fun _ _ h => ⟨rfl, h⟩

end Round

/-- What a run leaves. -/
def Sys.left (s : Sys) : (Name → Option Bytes) × OutFile := (s.files, s.stdout)

theorem Shared.left {s t : Sys} (h : Shared s t) : s.left = t.left := Prod.ext h.files h.stdout

end Snzip
