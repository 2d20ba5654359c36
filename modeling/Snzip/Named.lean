import Snzip.SkipMagic
import Snzip.Footprint
import Snzip.Lockstep

set_option autoImplicit false

/-!
# A format that is named

`snzip -d` finds the format of a file by its header, and the decompressor goes on behind it; `snzip
-d -t F` takes the format from the command line, and the decompressor reads the header itself.

* `naming`: the options with the format in them; `Told`: files whose headers tell the format;
* `coupled_named`: a search, and no search;
* **`mainFiles_named`**: it does not matter whether the format is named.
-/

namespace Snzip

open CProg

/-- The options with `-t F`. -/
def naming (f : Format) (opts : Options) : Options := { opts with formatName := some f.name }

section Named

variable {env : Env} {opts : Options} {L : Library} {f : Format} {names : List Name} {infile : Name}

/-- The format is the one that is named, in the run where it is. -/
def NamedSettings (f : Format) (_ : Format) (_ : Globals) (f' : Format) (_ : Globals) : Prop :=
  f' = f

/-- **A search that finds the format comes to the same as naming it.** -/
theorem coupled_named (hu : opts.uncompress = true) (hname : opts.formatName = none) {i : InFile}
    (hi : i.Ok) (h : Tells i.rest f) :
    Coupled Shared (Same (NamedSettings f)) (findFormat opts i) (findFormat (naming f opts) i)
      (SameFormat (NamedSettings f) opts (naming f opts) L) := by
  intro s t hs
  have hskip : skipsMagic opts = true := by rw [skipsMagic, hu, hname]; rfl
  have hskip' : skipsMagic (naming f opts) = false := by rw [skipsMagic, naming, hu]; rfl
  have hne : f ≠ .hadoopSnappy := fun he => not_tells_hadoopSnappy (he ▸ h)
  obtain ⟨r, n, g, hrun, hd⟩ := findStreamFormatByFileHeader_spec i s.globals
  obtain rfl := (hd.magic f hne).mpr h
  have hrun : findStreamFormatByFileHeader ⟨i, [], s.globals⟩ = .ret (some f) (probed i g n) := hrun
  simp only [findFormat, hskip, hskip', if_true, if_false, Bool.false_eq_true, hrun]
  refine .ret ⟨⟨⟨hs.files, hs.stdout⟩, hs.settings⟩, hs.settings.symm, ⟨ok_iterate_next n hi, ?_⟩,
    ⟨hi, ?_⟩, fun infile content outfile => ?_⟩
  · exact fun h => absurd (hu.symm.trans h) (by decide)
  · exact fun h => absurd (hu.symm.trans h) (by decide)
  · have hn : n = f.headerLength := hd.reads f rfl
    have hscript := uncompressScript_skipMagic L t.globals g h (fun he => hd.blockSize (he ▸ rfl))
      i.fault
    have htf : t.fmt = f := hs.settings
    have hu' : (naming f opts).uncompress = true := hu
    simp only [Job.script, hu, hu', if_true, hskip, hskip', htf]
    rw [← hscript, ← hn]
    simp only [probed, rest_iterate_next, fault_iterate_next]

/-- Every input that is there has the header of the format. -/
def Told (f : Format) (names : List Name) (s : Sys) : Prop :=
  ∀ n ∈ names, ∀ x, s.files n = some x → Tells x f

/-- No output is among the inputs. -/
def Clear (opts : Options) (f : Format) (names : List Name) : Prop :=
  opts.stdout = false → ∀ n ∈ names, ∀ o, outputName opts f n = some o → o ∉ names

theorem Told.of_files {s t : Sys} (h : Told f names s) (ht : s.files = t.files) : Told f names t :=
  fun n hn x hx => h n hn x (by rw [ht, hx])

theorem Told.processFile {all : List Name} {s t : Sys} {r : Option ℕ}
    (hname : opts.formatName = some f.name) (hclear : Clear opts f all) (hfmt : s.fmt = f)
    (h : Told f all s) (hn : infile ∈ all) (hrun : processFile env opts L infile s = .ret r t) :
    Told f all t := by
  intro n hn' x hx
  have hskip : skipsMagic opts = false := by
    rw [skipsMagic, hname, Option.isNone_some, Bool.and_false]
  rcases processFile_touched (k := 0) n (Or.inl hrun) with hsame | ⟨-, -, hnone⟩ | ⟨j, s', ho, hj⟩
  · exact h n hn' x (hsame ▸ hx)
  · rw [hnone] at hx
    cases hx
  · rcases ho.outfile with ⟨-, hout, -⟩ | ⟨o, hstd, ho', hout, -⟩
    · rw [hout] at hj
      cases hj
    · have hfinds := ho.finds
      rw [Finds, hskip, if_neg Bool.false_ne_true] at hfinds
      rw [hfinds.2.1, hfmt] at hout
      rw [ho'] at hj
      cases hj
      exact absurd hn' (hclear hstd infile hn n hout)

theorem coupled_runFiles_named (hu : opts.uncompress = true) (hname : opts.formatName = none)
    {all : List Name} (hclear : Clear opts f all) (names : List Name) (hsub : names ⊆ all) :
    Coupled Shared (fun s t => Same (NamedSettings f) s t ∧ Told f all s)
      (runFiles env opts L names) (runFiles env (naming f opts) L names)
      fun n n' s t => n = n' ∧ Shared s t := by
  induction names with
  | nil => exact .pure fun _ _ h => ⟨rfl, h.1.toShared⟩
  | cons infile names ih =>
    obtain ⟨hinfile, hnames⟩ := List.cons_subset.mp hsub
    have hopen : Coupled Shared
        (fun s t => Same (NamedSettings f) s t ∧ ∀ x, s.files infile = some x → Tells x f)
        (openFiles env opts infile) (openFiles env (naming f opts) infile) fun r r' s t =>
          Option.Rel (SameJob opts (naming f opts) L) r r' ∧ Same (NamedSettings f) s t :=
      coupled_openFiles rfl rfl fun x hx => coupled_named hu hname
        ⟨fun h => Bool.noConfusion h, fun h => Bool.noConfusion h⟩ hx
    intro s t ⟨hs, htold⟩
    have hkeep : opts.keep = (naming f opts).keep := rfl
    have hround := coupled_processFile (L := L) hkeep hopen s t ⟨hs, htold infile hinfile⟩
    rw [runFiles_cons, runFiles_cons]
    generalize hp : processFile env opts L infile s = o,
      hp' : processFile env (naming f opts) L infile t = o' at hround
    cases hround with
    | exit h => exact .exit h
    | diverge => exact .diverge
    | @ret r r' s' t' h =>
      obtain ⟨rfl, hs'⟩ := h
      cases r with
      | some n => exact .ret ⟨rfl, hs'.toShared⟩
      | none =>
        have hclear' : Clear (naming f opts) f all := hclear
        have htold' : Told f all t' := (htold.of_files hs.files).processFile rfl hclear' hs.settings
          hinfile hp'
        exact ih hnames s' t' ⟨hs', htold'.of_files hs'.files.symm⟩

/-- **It does not matter whether the format is named**: if every input has the header of the format
`f`, and no output is among the inputs, `snzip -d` does what `snzip -d -t f` does, however the files
go on, and whatever fails. -/
theorem mainFiles_named (hu : opts.uncompress = true) (hname : opts.formatName = none) {s : Sys}
    (htold : Told f names s) (hclear : Clear opts f names) :
    (mainFiles env opts L names s).view Sys.left =
      (mainFiles env (naming f opts) L names s).view Sys.left := by
  have hsame : Same (NamedSettings f) s { s with fmt := f } := ⟨⟨rfl, rfl⟩, rfl⟩
  have hruns : Alike Shared (fun n n' s t => n = n' ∧ Shared s t) (runFiles env opts L names s)
      (runFiles env (naming f opts) L names { s with fmt := f }) :=
    coupled_runFiles_named hu hname hclear names (List.Subset.refl names) s _ ⟨hsame, htold⟩
  rw [mainFiles_eq, mainFiles_eq, namedFormat, hname, namedFormat, naming]
  simp only [findStreamFormatByName_name]
  exact hruns.view (fun _ _ h => h.left) fun _ _ _ _ h => ⟨h.1, h.2.left⟩

/-- A snappy-in-java file with one block. -/
theorem mainFiles_named_one :
    let opts : Options := ⟨true, false, false, none, 0#32⟩
    let s : Sys := .initial fun n =>
      if n = ['a'] then
        some (snappyInJavaMagic ++
          [0x00#8, 0x00#8, 0x01#8] ++ beBytes 4 (maskedCrc32c [0x61#8]).toNat ++ [0x61#8])
      else none
    ∃ t, mainFiles Env.ideal opts ⟨literalSnappy, 0⟩ [['a']] s = .ret 0 t ∧
      t.files ['a', '.', 'o', 'u', 't'] = some [0x61#8] ∧
      (mainFiles Env.ideal (naming .snappyInJava opts) ⟨literalSnappy, 0⟩ [['a']] s).view Sys.left =
        .ret 0 t.left := by
  intro opts s
  have htold : Told .snappyInJava [['a']] s := by
    intro n hn x hx
    obtain rfl : n = ['a'] := List.mem_singleton.mp hn
    obtain rfl := Option.some.inj hx
    exact tells_snappyInJava.mpr (by decide)
  have hclear : Clear opts .snappyInJava [['a']] := by
    intro _ n hn o ho hmem
    obtain rfl : n = ['a'] := List.mem_singleton.mp hn
    exact outputName_ne ho (List.mem_singleton.mp hmem)
  have hview : (mainFiles Env.ideal opts ⟨literalSnappy, 0⟩ [['a']] s).view
      (fun t => t.files ['a', '.', 'o', 'u', 't']) = .ret 0 (some [0x61#8]) := by decide +kernel
  obtain ⟨t, hrun, hfile⟩ := Outcome.view_eq_ret.mp hview
  refine ⟨t, hrun, hfile, (mainFiles_named rfl rfl htold hclear).symm.trans ?_⟩
  rw [hrun]
  rfl

end Named

end Snzip
