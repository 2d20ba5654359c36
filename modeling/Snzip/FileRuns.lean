import Snzip.Lib.Moves
import Snzip.RoundTrip.Files
import Snzip.Survival

set_option autoImplicit false

/-!
# Runs over many files

A run of `main` over files is a list of moves: each input that is not skipped is moved to its
output. Which move that is can be read off the files as they were at the start.

* `moveOf`, `Completes`: the move of an input, and when its round succeeds;
* `openFiles_ret`, **`completes_iff_round`**: a round succeeds as its input promises;
* `Untangled`: no input is the output of another one;
* **`mainFiles_moves`**: a run ends with the moves of the inputs up to the first that fails;
* **`mainFiles_perm`**: the order of the inputs does not matter.
-/

namespace Snzip

open CProg

/-! ## The move of an input -/

/-- The move that the round for an input makes, as far as the files at the start tell. -/
def moveOf (env : Env) (opts : Options) (L : Library) (fmt : Format) (s : Sys) (infile : Name) :
    Option (Move Name Bytes) :=
  (initialJob opts fmt s infile).bind fun j =>
    j.outfile.map fun o => ⟨infile, o, (j.result env opts L).written⟩

/-- The round for this input goes on to the next one. -/
inductive Completes (env : Env) (opts : Options) (L : Library) (fmt : Format) (s : Sys)
    (infile : Name) : Prop
  | skipped (h : checkSuffix opts infile = false)
  | moved {j : Job} {o : Name} (hj : initialJob opts fmt s infile = some j)
      (ho : j.outfile = some o) (hnil : infile ≠ []) (hne : o ≠ []) (hw : env.writable o = true)
      (hstatus : (j.result env opts L).status = some 0)

theorem result_of_status {r : Result} (h : r.status = some 0) : r = ⟨some 0, r.written⟩ := by
  cases r with
  | mk status written =>
    cases h
    rfl

/-- `fmt` and the global variables are as at the start, as far as they are looked at. -/
def Settled (opts : Options) (fmt : Format) (s t : Sys) : Prop :=
  skipsMagic opts = false → t.fmt = fmt ∧ t.globals = s.globals

section Round

variable {env : Env} {opts : Options} {L : Library} {fmt : Format} {infile : Name} {s t t' : Sys}

theorem initialJob_eq_some {j : Job} (h : initialJob opts fmt s infile = some j) :
    checkSuffix opts infile = true ∧ ∃ content, s.files infile = some content ∧
      jobOf opts fmt s.globals infile content = some j := by
  unfold initialJob at h
  split at h
  · next hs => exact ⟨hs, Option.bind_eq_some_iff.mp h⟩
  · cases h

theorem moveOf_eq_some {m : Move Name Bytes} (h : moveOf env opts L fmt s infile = some m) :
    m.src = infile ∧ derivedOutput opts fmt s infile = some m.dst := by
  unfold moveOf at h
  obtain ⟨j, hj, hm⟩ := Option.bind_eq_some_iff.mp h
  obtain ⟨o, ho, rfl⟩ := Option.map_eq_some_iff.mp hm
  exact ⟨rfl, by rw [derivedOutput, hj]; exact ho⟩

theorem moveOf_skipped (h : checkSuffix opts infile = false) :
    moveOf env opts L fmt s infile = none := by
  rw [moveOf, initialJob, h]
  rfl

theorem outputName_of_derivedOutput {o : Name} (h : derivedOutput opts fmt s infile = some o) :
    ∃ f, outputName opts f infile = some o := by
  unfold derivedOutput at h
  obtain ⟨j, hj, ho⟩ := Option.bind_eq_some_iff.mp h
  obtain ⟨-, content, -, hj⟩ := initialJob_eq_some hj
  unfold jobOf at hj
  split at hj
  · split at hj
    · next f p _ =>
      cases hj
      exact ⟨f, ho⟩
    · cases hj
  · cases hj
    exact ⟨fmt, ho⟩

theorem derivedOutput_ne {o : Name} (h : derivedOutput opts fmt s infile = some o) :
    o ≠ infile := by
  obtain ⟨f, hf⟩ := outputName_of_derivedOutput h
  exact outputName_ne hf

theorem openFiles_ret {content : Bytes} {f : Format} {g : Globals} {inp : InFile} {o : Name}
    (hsuffix : checkSuffix opts infile = true) (hnil : infile ≠ [])
    (hcontent : t.files infile = some content) (hstd : opts.stdout = false)
    (hfinds : Finds opts (env.stream infile content) t.fmt t.globals inp f g)
    (ho : outputName opts f infile = some o) (hne : o ≠ []) (hw : env.writable o = true) :
    ∃ t', openFiles env opts infile t =
      .ret (some ⟨infile, content, inp, skipsMagic opts, f, g, some o⟩) t' := by
  have hfmt : findFormat opts (env.stream infile content) { t with current := none } =
      .ret inp { t with current := none, fmt := f, globals := g } := by
    unfold Finds at hfinds
    unfold findFormat
    cases hskip : skipsMagic opts with
    | true =>
      rw [hskip, if_pos rfl] at hfinds
      obtain ⟨buf, hrun⟩ := hfinds
      simp only [if_true, hrun]
    | false =>
      rw [hskip, if_neg Bool.false_ne_true] at hfinds
      obtain ⟨rfl, rfl, rfl⟩ := hfinds
      rfl
  have hopen : ∀ u : Sys, u.fmt = f → openOutput env opts infile u =
      .ret (some o) { u with files := Function.update u.files o (some []) } := by
    rintro u rfl
    rw [openOutput, ite_prog, hstd, if_neg Bool.false_ne_true, bind_apply, getSys_apply,
      Outcome.bind_ret, ho]
    simp only [hne, hw, decide_false, Bool.not_true, Bool.or_self, Bool.false_eq_true, if_false]
    rfl
  unfold openFiles
  simp only [bind_apply, setCurrent_apply, getSys_apply, Outcome.bind_ret, hsuffix, Bool.not_true,
    Bool.false_eq_true, if_false, hnil, hcontent]
  rw [hfmt, Outcome.bind_ret, bind_apply, hopen _ rfl, Outcome.bind_ret]
  exact ⟨_, rfl⟩

theorem exists_finds {j : Job} {content : Bytes} (hfault : env.fault infile = false)
    (hset : Settled opts fmt s t) (h : jobOf opts fmt s.globals infile content = some j) :
    ∃ inp f g, Finds opts (env.stream infile content) t.fmt t.globals inp f g ∧
      j.outfile = outputName opts f infile := by
  have hstream : env.stream infile content = .opened content := by
    rw [Env.stream, hfault]
    rfl
  rw [hstream]
  unfold jobOf at h
  unfold Finds
  cases hskip : skipsMagic opts with
  | true =>
    rw [hskip, if_pos rfl] at h
    split at h
    · next f p hrun =>
      cases h
      obtain ⟨p', hrun', -⟩ := findStreamFormat_script (L := ⟨literalSnappy, 0⟩) t.globals hrun
      exact ⟨p'.inp, f, p'.globals, ⟨p'.buf, hrun'⟩, rfl⟩
    · cases h
  | false =>
    rw [hskip, if_neg Bool.false_ne_true] at h
    cases h
    obtain ⟨hfmt, hg⟩ := hset hskip
    exact ⟨.opened content, fmt, s.globals, ⟨rfl, hfmt.symm, hg.symm⟩, rfl⟩

theorem Opens.initialJob {s' : Sys} {j : Job} (h : Opens env opts infile t j s')
    (hstd : opts.stdout = false) (hfault : env.fault infile = false) (hset : Settled opts fmt s t)
    (hfile : t.files infile = s.files infile) :
    ∃ j₀, Snzip.initialJob opts fmt s infile = some j₀ ∧ j₀.outfile = j.outfile ∧
      j₀.result env opts L = j.result env opts L := by
  obtain ⟨j₀, hj₀, hout, hres⟩ := jobOf_of_opens (L := L) h hstd hfault hset
  refine ⟨j₀, ?_, hout, hres⟩
  rw [Snzip.initialJob, if_pos h.suffix, ← hfile, h.content]
  exact hj₀

variable (hroom : ∀ o, env.room o = none) (hstd : opts.stdout = false)
  (hfault : env.fault infile = false) (hset : Settled opts fmt s t)
  (hfile : t.files infile = s.files infile)

include hroom hstd hfault hset hfile

/-- **A round that goes on** has made the move of its input. -/
theorem completes_of_round (h : processFile env opts L infile t = .ret none t') :
    Completes env opts L fmt s infile ∧ Settled opts fmt s t' ∧
      t'.files = Move.applyAll opts.keep t.files (moveOf env opts L fmt s infile).toList := by
  have hround := processFile_cases env opts L infile t
  rw [h] at hround
  generalize hq : Outcome.ret none t' = q at hround
  cases hround with
  | refused => cases hq
  | skipped hsuffix =>
    cases hq
    rw [moveOf_skipped hsuffix]
    exact ⟨.skipped hsuffix, hset, rfl⟩
  | @opened j t₁ ho hopen =>
    obtain ⟨o, out, he⟩ := ho.effect hroom hstd hq.symm
    obtain ⟨j₀, hj₀, hout, hres⟩ := ho.initialJob (L := L) hstd hfault hset hfile
    have hresult : j₀.result env opts L = ⟨some 0, out⟩ := hres.trans he.result
    have hmove : moveOf env opts L fmt s infile = some ⟨infile, o, out⟩ := by
      rw [moveOf, hj₀, Option.bind_some, hout, he.outfile, Option.map_some, hresult]
    have hwritable : o ≠ [] ∧ env.writable o = true := by
      rcases ho.outfile with ⟨h', -⟩ | ⟨o', -, ho', -, hne, hw, -⟩
      · rw [hstd] at h'
        cases h'
      · rw [he.outfile] at ho'
        cases ho'
        exact ⟨hne, hw⟩
    refine ⟨.moved hj₀ (hout.trans he.outfile) ho.ne_nil hwritable.1 hwritable.2
      (by rw [hresult]), fun hskip => ?_, ?_⟩
    · obtain ⟨hfmt, hg⟩ := hset hskip
      obtain ⟨hfmt', hg'⟩ := he.settings hskip
      exact ⟨hfmt'.trans hfmt, hg'.trans hg⟩
    · rw [hmove]
      change t'.files = Move.apply opts.keep t.files ⟨infile, o, out⟩
      funext i
      by_cases hio : i = o
      · rw [hio, he.output, Move.apply_dst _ _ _ he.ne]
      by_cases hi : opts.keep = true ∨ i ≠ infile
      · rw [he.other i hio hi, Move.apply_untouched _ _ _ hio hi]
      · obtain ⟨hkeep, hi⟩ := not_or.mp hi
        have hkeep : opts.keep = false := Bool.eq_false_iff.mpr hkeep
        rw [not_not.mp hi, he.deleted hkeep, hkeep]
        exact (Move.apply_src t.files ⟨infile, o, out⟩).symm

/-- **A round goes on exactly if its input promises it.** -/
theorem completes_iff_round :
    Completes env opts L fmt s infile ↔ ∃ t', processFile env opts L infile t = .ret none t' := by
  constructor
  · rintro (hsuffix | ⟨hj, ho, hnil, hne, hw, hstatus⟩)
    · refine ⟨{ t with current := none }, ?_⟩
      rw [processFile, bind_apply, openFiles]
      simp [hsuffix]
    · obtain ⟨hsuffix, content, hcontent, hjob⟩ := initialJob_eq_some hj
      obtain ⟨inp, f, g, hfinds, hname⟩ := exists_finds hfault hset hjob
      obtain ⟨t₁, hopen⟩ := openFiles_ret hsuffix hnil (hfile.trans hcontent) hstd hfinds
        (hname.symm.trans ho) hne hw
      have hopens := opens_of_openFiles hopen
      obtain ⟨j₀, hj₀, -, hres⟩ := hopens.initialJob (L := L) hstd hfault hset hfile
      rw [hj] at hj₀
      cases hj₀
      obtain ⟨t', ht'⟩ := hopens.ret (L := L) hroom hstd
        (hres.symm.trans (result_of_status hstatus))
      exact ⟨t', (processFile_opened hopens hopen).trans ht'⟩
  · rintro ⟨t', h⟩
    exact (completes_of_round hroom hstd hfault hset hfile h).1

/-- **A round that ends the program** has touched no file but its output, and its status is not
0. -/
theorem round_stops {k : ℕ} (h : processFile env opts L infile t = .ret (some k) t' ∨
    processFile env opts L infile t = .exit k t') :
    k ≠ 0 ∧ ∀ i, derivedOutput opts fmt s infile ≠ some i → t'.files i = t.files i := by
  have hround := processFile_cases env opts L infile t
  generalize hq : processFile env opts L infile t = q at hround h
  cases hround with
  | skipped => rcases h with h | h <;> cases h
  | refused hfiles hcurrent =>
    rcases h with h | h <;> cases h
    exact ⟨by decide, fun i _ => congrFun hfiles i⟩
  | @opened j t₁ ho hopen =>
    obtain ⟨o, hout, -, hfiles, hstream⟩ := ho.toFile hstd
    obtain ⟨j₀, hj₀, hout₀, -⟩ := ho.initialJob (L := L) hstd hfault hset hfile
    have hderived : derivedOutput opts fmt s infile = some o := by
      rw [derivedOutput, hj₀, Option.bind_some, hout₀, hout]
    have hother : ∀ (c : Option Bytes) (i : Name), derivedOutput opts fmt s infile ≠ some i →
        Function.update t₁.files o c i = t.files i := by
      intro c i hi
      have hio : i ≠ o := fun he => hi (he ▸ hderived)
      rw [Function.update_of_ne hio, hfiles, Function.update_of_ne hio]
    have hplay := codec_playback (L := L) ho (j.outFile env t₁)
    rw [hstream, hroom] at hplay
    unfold afterOpen at h
    rw [hstream, hroom] at h
    cases hcodec : j.codec L opts ⟨j.inp, OutFile.opened (env.buffering j.infile) none⟩ with
    | diverge =>
      rw [hcodec] at h
      rcases h with h | h <;> cases h
    | exit n w =>
      rw [hcodec] at h hplay
      rcases h with h | h <;> cases h
      refine ⟨ne_zero_of_exits
        ((exit_playback_iff (env.buffering j.infile)).mp ⟨w.out, hplay.symm⟩), ?_⟩
      rw [files_closeOutput hout]
      exact hother _
    | ret n w =>
      rw [hcodec] at h
      simp only at h
      split at h
      · rcases h with h | h <;> cases h
        refine ⟨by decide, ?_⟩
        rw [files_unlinkOutput hout]
        exact hother _
      · split at h <;> rcases h with h | h <;> cases h

end Round

/-! ## The moves of a run -/

/-- No input is named twice, and none is the output of another one. -/
structure Untangled (opts : Options) (fmt : Format) (s : Sys) (names : List Name) : Prop where
  nodup : names.Nodup
  outputs : ∀ n ∈ names, ∀ o, derivedOutput opts fmt s n = some o → o ∉ names

/-- How a run over these inputs ends: all of them are moved, or those before the first that fails,
and then no file but the output of that one is touched any more. -/
inductive Ends (env : Env) (opts : Options) (L : Library) (fmt : Format) (s : Sys)
    (names : List Name) (files : Name → Option Bytes) : ℕ → (Name → Option Bytes) → Prop
  | all (h : ∀ n ∈ names, Completes env opts L fmt s n) :
      Ends env opts L fmt s names files 0
        (Move.applyAll opts.keep files (names.filterMap (moveOf env opts L fmt s)))
  | stopped {done : List Name} {n : Name} {rest : List Name} {k : ℕ}
      {files' : Name → Option Bytes} (hnames : names = done ++ n :: rest)
      (h : ∀ m ∈ done, Completes env opts L fmt s m) (hn : ¬ Completes env opts L fmt s n)
      (hk : k ≠ 0) (hfiles : ∀ i, derivedOutput opts fmt s n ≠ some i → files' i =
        Move.applyAll opts.keep files (done.filterMap (moveOf env opts L fmt s)) i) :
      Ends env opts L fmt s names files k files'

section Run

variable {env : Env} {opts : Options} {L : Library} {fmt : Format} {s t t' : Sys}
  {names : List Name} {n : Name}

theorem Ends.of_zero {files files' : Name → Option Bytes}
    (h : Ends env opts L fmt s names files 0 files') :
    (∀ n ∈ names, Completes env opts L fmt s n) ∧
      files' = Move.applyAll opts.keep files (names.filterMap (moveOf env opts L fmt s)) := by
  cases h with
  | all h => exact ⟨h, rfl⟩
  | stopped _ _ _ hk => exact absurd rfl hk

theorem Untangled.tail (h : Untangled opts fmt s (n :: names)) : Untangled opts fmt s names :=
  ⟨(List.nodup_cons.mp h.nodup).2, fun m hm o ho hmem =>
    h.outputs m (List.mem_cons_of_mem _ hm) o ho (List.mem_cons_of_mem _ hmem)⟩

theorem Untangled.perm {names' : List Name} (h : Untangled opts fmt s names)
    (hp : names.Perm names') : Untangled opts fmt s names' :=
  ⟨hp.nodup_iff.mp h.nodup, fun m hm o ho hmem =>
    h.outputs m (hp.mem_iff.mpr hm) o ho (hp.mem_iff.mpr hmem)⟩

/-- **The move of one input** leaves the others as they are. -/
theorem Untangled.ahead (h : Untangled opts fmt s (n :: names)) (keep : Bool)
    (files : Name → Option Bytes) {m : Name} (hm : m ∈ names) :
    Move.applyAll keep files (moveOf env opts L fmt s n).toList m = files m := by
  refine Move.applyAll_untouched fun v hv => ?_
  obtain ⟨hsrc, hdst⟩ := moveOf_eq_some (Option.mem_toList.mp hv)
  refine ⟨fun he => ?_, Or.inr fun he => ?_⟩
  · exact h.outputs n List.mem_cons_self m (he ▸ hdst) (List.mem_cons_of_mem _ hm)
  · exact (List.nodup_cons.mp h.nodup).1 ((he.trans hsrc) ▸ hm)

theorem filterMap_moveOf_cons (n : Name) (names : List Name) (files : Name → Option Bytes) :
    Move.applyAll opts.keep files ((n :: names).filterMap (moveOf env opts L fmt s)) =
      Move.applyAll opts.keep
        (Move.applyAll opts.keep files (moveOf env opts L fmt s n).toList)
        (names.filterMap (moveOf env opts L fmt s)) := by
  rw [List.filterMap_cons]
  cases moveOf env opts L fmt s n <;> rfl

section

variable (hroom : ∀ o, env.room o = none) (hstd : opts.stdout = false)
  (hfault : ∀ n ∈ names, env.fault n = false) (hU : Untangled opts fmt s names)
  (hset : Settled opts fmt s t) (hfiles : ∀ n ∈ names, t.files n = s.files n)

include hroom hstd hfault hU hset hfiles

/-- **The loop makes the moves of its inputs**, up to the first that fails. -/
theorem runFiles_ends {k : ℕ} (h : ending (runFiles env opts L names t) = some (k, t')) :
    Ends env opts L fmt s names t.files k t'.files := by
  induction names generalizing t with
  | nil =>
    cases h
    exact .all fun n hn => by cases hn
  | cons n names ih =>
    have hn := hfiles n List.mem_cons_self
    have hf := hfault n List.mem_cons_self
    rcases ending_runFiles_cons h with ⟨t₁, hp, hrest⟩ | hp
    · obtain ⟨hcompletes, hset₁, hmove⟩ := completes_of_round hroom hstd hf hset hn hp
      have hfiles₁ : ∀ m ∈ names, t₁.files m = s.files m := fun m hm => by
        rw [hmove, hU.ahead _ _ hm, hfiles m (List.mem_cons_of_mem _ hm)]
      have hends := ih (fun m hm => hfault m (List.mem_cons_of_mem _ hm)) hU.tail hset₁ hfiles₁
        hrest
      rw [hmove] at hends
      generalize hfinal : t'.files = final at hends
      cases hends with
      | all hall =>
        rw [← filterMap_moveOf_cons]
        exact .all (List.forall_mem_cons.mpr ⟨hcompletes, hall⟩)
      | @stopped done m rest _ _ hnames hdone hm hk hfinal' =>
        have hnames' : n :: names = (n :: done) ++ m :: rest := by rw [hnames]; rfl
        refine .stopped hnames' (List.forall_mem_cons.mpr ⟨hcompletes, hdone⟩) hm hk
          fun i hi => ?_
        rw [filterMap_moveOf_cons]
        exact hfinal' i hi
    · obtain ⟨hk, hother⟩ := round_stops hroom hstd hf hset hn hp
      refine .stopped (List.nil_append (n :: names)).symm (by simp) (fun hc => ?_) hk hother
      obtain ⟨t₁, hp₁⟩ := (completes_iff_round hroom hstd hf hset hn).mp hc
      rw [hp₁] at hp
      rcases hp with hp | hp <;> cases hp

theorem runFiles_completes (h : ∀ n ∈ names, Completes env opts L fmt s n) :
    ∃ t', runFiles env opts L names t = .ret 0 t' := by
  induction names generalizing t with
  | nil => exact ⟨t, rfl⟩
  | cons n names ih =>
    have hn := hfiles n List.mem_cons_self
    have hf := hfault n List.mem_cons_self
    obtain ⟨t₁, hp⟩ := (completes_iff_round hroom hstd hf hset hn).mp (h n List.mem_cons_self)
    obtain ⟨-, hset₁, hmove⟩ := completes_of_round hroom hstd hf hset hn hp
    rw [runFiles_cons, hp, Outcome.bind_ret]
    exact ih (fun m hm => hfault m (List.mem_cons_of_mem _ hm)) hU.tail hset₁
      (fun m hm => by rw [hmove, hU.ahead _ _ hm, hfiles m (List.mem_cons_of_mem _ hm)])
      fun m hm => h m (List.mem_cons_of_mem _ hm)

end

section Main

variable (hroom : ∀ o, env.room o = none) (hstd : opts.stdout = false)
  (hfault : ∀ n ∈ names, env.fault n = false) (hfmt : namedFormat opts s.fmt = some fmt)
  (hU : Untangled opts fmt s names)

include hroom hstd hfault hfmt hU

theorem ends_of_ending {k : ℕ} (h : ending (mainFiles env opts L names s) = some (k, t)) :
    Ends env opts L fmt s names s.files k t.files := by
  rw [mainFiles_eq, hfmt] at h
  exact runFiles_ends (t := { s with fmt := fmt }) hroom hstd hfault hU (fun _ => ⟨rfl, rfl⟩)
    (fun _ _ => rfl) h

theorem files_mainFiles (h : mainFiles env opts L names s = .ret 0 t) :
    (∀ n ∈ names, Completes env opts L fmt s n) ∧ t.files =
      Move.applyAll opts.keep s.files (names.filterMap (moveOf env opts L fmt s)) :=
  (ends_of_ending (L := L) hroom hstd hfault hfmt hU (k := 0) (by rw [h]; rfl)).of_zero

theorem returns_iff_completes :
    (∃ t, mainFiles env opts L names s = .ret 0 t) ↔
      ∀ n ∈ names, Completes env opts L fmt s n := by
  constructor
  · rintro ⟨t, ht⟩
    exact (files_mainFiles (L := L) hroom hstd hfault hfmt hU ht).1
  · intro h
    rw [mainFiles_eq, hfmt]
    exact runFiles_completes (t := { s with fmt := fmt }) hroom hstd hfault hU (fun _ => ⟨rfl, rfl⟩)
      (fun _ _ => rfl) h

/-- **A run of `main`** returns 0 exactly if every input completes; and it ends with the moves of
the inputs before the first that does not. -/
theorem mainFiles_moves :
    ((∃ t, mainFiles env opts L names s = .ret 0 t) ↔
      ∀ n ∈ names, Completes env opts L fmt s n) ∧
    ∀ k t, ending (mainFiles env opts L names s) = some (k, t) →
      Ends env opts L fmt s names s.files k t.files :=
  ⟨returns_iff_completes (L := L) hroom hstd hfault hfmt hU,
    fun _ _ => ends_of_ending hroom hstd hfault hfmt hU⟩

end Main

theorem pairwise_moves (hU : Untangled opts fmt s names)
    (hd : names.Pairwise fun i k => ∀ o, derivedOutput opts fmt s i = some o →
      derivedOutput opts fmt s k ≠ some o) :
    (names.filterMap (moveOf env opts L fmt s)).Pairwise Move.Apart := by
  refine List.pairwise_filterMap.mpr ((hU.nodup.and hd).imp_of_mem ?_)
  rintro i k hi hk ⟨hne, hdst⟩ m hm m' hm'
  obtain ⟨hsrc, ho⟩ := moveOf_eq_some hm
  obtain ⟨hsrc', ho'⟩ := moveOf_eq_some hm'
  refine ⟨by rw [hsrc, hsrc']; exact hne, fun he => hdst m.dst ho (he ▸ ho'), fun he => ?_,
    fun he => ?_⟩
  · exact hU.outputs i hi m.dst ho (by rw [he, hsrc']; exact hk)
  · exact hU.outputs k hk m'.dst ho' (by rw [← he, hsrc]; exact hi)

/-- **The order of the inputs does not matter**: a run that returns 0 returns 0 on the same inputs
in any other order, and leaves the same files. -/
theorem mainFiles_perm (hroom : ∀ o, env.room o = none) (hstd : opts.stdout = false)
    (hfault : ∀ n ∈ names, env.fault n = false) (hfmt : namedFormat opts s.fmt = some fmt)
    (hU : Untangled opts fmt s names)
    (hd : names.Pairwise fun i k => ∀ o, derivedOutput opts fmt s i = some o →
      derivedOutput opts fmt s k ≠ some o)
    (hrun : mainFiles env opts L names s = .ret 0 t) {names' : List Name}
    (hp : names.Perm names') :
    ∃ t', mainFiles env opts L names' s = .ret 0 t' ∧ t'.files = t.files := by
  obtain ⟨hall, hfiles⟩ := files_mainFiles hroom hstd hfault hfmt hU hrun
  have hfault' : ∀ n ∈ names', env.fault n = false := fun n hn => hfault n (hp.mem_iff.mpr hn)
  have hU' := hU.perm hp
  obtain ⟨t', ht'⟩ := (returns_iff_completes (L := L) hroom hstd hfault' hfmt hU').mpr
    fun n hn => hall n (hp.mem_iff.mpr hn)
  refine ⟨t', ht', ?_⟩
  rw [(files_mainFiles hroom hstd hfault' hfmt hU' ht').2, hfiles]
  exact (Move.applyAll_perm (hp.filterMap _) (pairwise_moves hU hd)).symm

end Run

section Two

/-- Two files, one of them empty. -/
def twoFiles : Sys := .initial fun n =>
  if n = ['a'] then some [0x61#8] else if n = ['b'] then some [] else none

theorem untangled_two : Untangled (compressing .snappyJava) .snappyJava twoFiles [['a'], ['b']] :=
  ⟨by decide, by decide⟩

theorem mainFiles_moves_two :
    Completes Env.ideal (compressing .snappyJava) ⟨literalSnappy, 0⟩ .snappyJava twoFiles ['a'] ∧
      Completes Env.ideal (compressing .snappyJava) ⟨literalSnappy, 0⟩ .snappyJava twoFiles
        ['b'] := by
  have h : ∀ n ∈ [['a'], ['b']], Completes Env.ideal (compressing .snappyJava) ⟨literalSnappy, 0⟩
      .snappyJava twoFiles n :=
    (mainFiles_moves (fun _ => rfl) rfl (fun _ _ => rfl) rfl untangled_two).1.mp ⟨_, rfl⟩
  exact ⟨h _ (by decide), h _ (by decide)⟩

theorem mainFiles_perm_two :
    ∃ t t', mainFiles Env.ideal (compressing .snappyJava) ⟨literalSnappy, 0⟩ [['a'], ['b']]
        twoFiles = .ret 0 t ∧
      mainFiles Env.ideal (compressing .snappyJava) ⟨literalSnappy, 0⟩ [['b'], ['a']] twoFiles =
        .ret 0 t' ∧ t'.files = t.files := by
  obtain ⟨t, hrun⟩ : ∃ t, mainFiles Env.ideal (compressing .snappyJava) ⟨literalSnappy, 0⟩
      [['a'], ['b']] twoFiles = .ret 0 t := ⟨_, rfl⟩
  obtain ⟨t', ht', hfiles⟩ := mainFiles_perm (fun _ => rfl) rfl (fun _ _ => rfl) rfl untangled_two
    (by decide) hrun (.swap ['b'] ['a'] [])
  exact ⟨t, t', hrun, ht', hfiles⟩

end Two

end Snzip
