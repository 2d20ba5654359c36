import Snzip.Restart
import Snzip.ThereAndBack

set_option autoImplicit false

/-!
# A run that is killed

The input is deleted when its output is complete, and an output is opened for writing without asking
what is there. So a run that is killed can be taken up again with the inputs that are left.

* `Moment`: the moments of a run, and the inputs that are left;
* `openFiles_again`: opening the files once more, over whatever the output holds;
* **`mainFiles_resume`**: started again on the inputs that are left, the program ends as the run
  would have;
* `moment_moves`, **`moment_intact`**: at every moment an input is as it was, or its output
  complete;
* **`killed_compressing`**, **`killed_uncompressing`**: what that says of the data.
-/

namespace Snzip

open CProg

/-- A moment of a run over `names` from the state `s`, the state of the files then, and the inputs
that are left: between two inputs, or while the codec works, when its output file may hold anything.
Of a run to the standard output there are only the moments in between. -/
inductive Moment (env : Env) (opts : Options) (L : Library) :
    List Name → Sys → Sys → List Name → Prop
  | between {names s} : Moment env opts L names s s names
  | working {n names s j s' o} (h : openFiles env opts n s = .ret (some j) s')
      (ho : j.outfile = some o) (c : Option Bytes) :
      Moment env opts L (n :: names) s
        { s' with files := Function.update s'.files o c } (n :: names)
  | later {n names s s' m left} (h : processFile env opts L n s = .ret none s')
      (ht : Moment env opts L names s' m left) : Moment env opts L (n :: names) s m left

section Again

variable {env : Env} {opts : Options} {L : Library} {n : Name} {names left : List Name}
  {s s' m : Sys} {j : Job} {o : Name}

theorem findFormat_files (i : InFile) (fs : Name → Option Bytes) (s : Sys) :
    findFormat opts i { s with files := fs } =
      (findFormat opts i s).view fun t => { t with files := fs } := by
  unfold findFormat
  cases skipsMagic opts with
  | false => rfl
  | true =>
    simp only [if_true]
    cases findStreamFormatByFileHeader ⟨i, [], s.globals⟩ with
    | ret r p => cases r <;> rfl
    | exit k p => rfl
    | diverge => rfl

theorem openOutput_again (h : openOutput env opts n s = .ret (some o) s') (c : Option Bytes) :
    openOutput env opts n { s with files := Function.update s.files o c } = .ret (some o) s' := by
  rcases openOutput_cases env opts n s with ⟨-, hrun⟩ | ⟨o', hstd, hname, hne, hw, hrun⟩ | hrun
  · cases h.symm.trans hrun
  · cases h.symm.trans hrun
    rw [openOutput, ite_prog, hstd, if_neg Bool.false_ne_true, bind_apply, getSys_apply,
      Outcome.bind_ret, hname]
    simp only [hne, hw, decide_false, Bool.not_true, Bool.or_self, Bool.false_eq_true, if_false]
    simp only [bind_apply, setFile_apply, Outcome.bind_ret, pure_apply, Function.update_idem]
  · cases h.symm.trans hrun

/-- **Opening the files once more**: the output is made empty, whatever it holds. -/
theorem openFiles_again (h : openFiles env opts n s = .ret (some j) s') (ho : j.outfile = some o)
    (c : Option Bytes) :
    openFiles env opts n { s with files := Function.update s.files o c } = .ret (some j) s' := by
  have hopens := opens_of_openFiles h
  have hne : n ≠ o := by
    rcases hopens.outfile with ⟨-, hnone, -⟩ | ⟨o', -, ho', hname, -⟩
    · rw [hnone] at ho
      cases ho
    · cases ho.symm.trans ho'
      exact (outputName_ne hname).symm
  unfold openFiles at h ⊢
  simp only [bind_apply, setCurrent_apply, getSys_apply, Outcome.bind_ret, hopens.suffix,
    Bool.not_true, Bool.false_eq_true, if_false, hopens.ne_nil, Function.update_of_ne hne,
    hopens.content] at h ⊢
  have hfind := @findFormat_files opts (env.stream n j.content)
    (Function.update s.files o c) { s with current := none }
  simp only at hfind
  rw [hfind]
  cases hrun : findFormat opts (env.stream n j.content) { s with current := none } with
  | exit | diverge => rw [hrun] at h; cases h
  | ret inp t =>
    rw [hrun, Outcome.bind_ret, bind_apply] at h
    rw [Outcome.view_ret, Outcome.bind_ret, bind_apply]
    have hfiles : t.files = s.files := by
      have hself := @findFormat_files opts (env.stream n j.content) s.files
        { s with current := none }
      rw [show { ({ s with current := none } : Sys) with files := s.files } =
        ({ s with current := none } : Sys) from rfl, hrun] at hself
      have ht : t = { t with files := s.files } := (Outcome.ret.inj hself).2
      have hfiles := congrArg Sys.files ht
      exact hfiles
    rw [← hfiles]
    cases hout : openOutput env opts n t with
    | exit | diverge => rw [hout] at h; cases h
    | ret r u =>
      rw [hout] at h
      obtain rfl : r = some o := by
        rw [← ho]
        exact congrArg (fun q => q.bind Job.outfile) (Outcome.ret.inj h).1
      rw [openOutput_again hout c]
      exact h

/-- A round that has opened its files does the same over whatever its output holds. -/
theorem processFile_again (h : openFiles env opts n s = .ret (some j) s') (ho : j.outfile = some o)
    (c : Option Bytes) :
    processFile env opts L n { s with files := Function.update s.files o c } =
      processFile env opts L n s := by
  rw [processFile, bind_apply, bind_apply, openFiles_again h ho c, h]

variable {s₀ : Sys} {fmt : Format}

theorem runFiles_resume (h : Moment env opts L names s m left)
    (hset : skipsMagic opts = false → s.fmt = s₀.fmt ∧ s.globals = s₀.globals) :
    (runFiles env opts L left { s₀ with files := m.files, stdout := m.stdout }).view Sys.left =
      (runFiles env opts L names s).view Sys.left := by
  have hsame : ∀ (names : List Name) {u : Sys},
      (skipsMagic opts = false → u.fmt = s₀.fmt ∧ u.globals = s₀.globals) →
      (runFiles env opts L names { s₀ with files := u.files, stdout := u.stdout }).view Sys.left =
        (runFiles env opts L names u).view Sys.left := by
    intro names u hu
    have hu' : Same (SameSettings opts) { s₀ with files := u.files, stdout := u.stdout } u :=
      ⟨⟨rfl, rfl⟩, fun hskip => ⟨(hu hskip).1.symm, (hu hskip).2.symm⟩⟩
    exact (coupled_runFiles names _ _ hu').view (fun _ _ h => h.left)
      fun _ _ _ _ h => ⟨h.1, h.2.left⟩
  induction h with
  | between => exact hsame _ hset
  | @later n names s s' m left h _ ih =>
    rw [ih fun hskip => ?_, runFiles_cons, h, Outcome.bind_ret]
    obtain ⟨hf, hg⟩ := processFile_settings hskip h
    exact ⟨hf.trans (hset hskip).1, hg.trans (hset hskip).2⟩
  | @working n names s j s' o h ho c =>
    have hopens := opens_of_openFiles h
    have hfiles : Function.update s'.files o c = Function.update s.files o c := by
      rcases hopens.outfile with ⟨-, hnone, -⟩ | ⟨o', -, ho', -, -, -, hfiles⟩
      · rw [hnone] at ho
        cases ho
      · cases ho.symm.trans ho'
        rw [hfiles, Function.update_idem]
    have hagain := hsame (n :: names) (u := { s with files := Function.update s.files o c }) hset
    rw [runFiles_cons n names { s with files := Function.update s.files o c },
      processFile_again h ho c, ← runFiles_cons] at hagain
    rw [← hagain, hfiles, hopens.stdout]

/-- **A run that was killed can be taken up again.** At whatever moment the program is killed, it
ends as it would have, with the same status and the same files, when it is started again on the
inputs that are left: on the one it was at, with whatever its output holds, and on those behind. -/
theorem mainFiles_resume (hstd : opts.stdout = false) (hfmt : namedFormat opts s₀.fmt = some fmt)
    (h : Moment env opts L names { s₀ with fmt := fmt } m left) :
    (mainFiles env opts L left (s₀.restart m)).view Sys.seen =
      (mainFiles env opts L names s₀).view Sys.seen := by
  let u : Sys := { s₀ with files := m.files, stdout := m.stdout }
  rw [show s₀.restart m = { u with stdout := m.stdout.reopened } from rfl,
    mainFiles_seen (s := u) hstd (OutFile.written_reopened m.stdout), mainFiles_eq, mainFiles_eq,
    show u.fmt = s₀.fmt from rfl, hfmt]
  exact view_seen_of_left (@runFiles_resume env opts L names left _ m { s₀ with fmt := fmt } h
    fun _ => ⟨rfl, rfl⟩)

/-- Two files, and one byte of the first output has been written. -/
theorem mainFiles_resume_two :
    ∃ m : Sys, m.files ['a', '.', 's', 'n', 'a', 'p', 'p', 'y'] = some [0x82#8] ∧
      (mainFiles Env.ideal (compressing .snappyJava) ⟨literalSnappy, 0⟩ [['a'], ['b']]
          (twoFiles.restart m)).view Sys.seen =
        (mainFiles Env.ideal (compressing .snappyJava) ⟨literalSnappy, 0⟩ [['a'], ['b']]
          twoFiles).view Sys.seen := by
  obtain ⟨s', hopen⟩ : ∃ s', openFiles Env.ideal (compressing .snappyJava) ['a']
      { twoFiles with fmt := .snappyJava } = .ret (some ⟨['a'], [0x61#8], .opened [0x61#8], false,
        .snappyJava, .initial, some ['a', '.', 's', 'n', 'a', 'p', 'p', 'y']⟩) s' :=
    openFiles_ret rfl (by decide) rfl rfl ⟨rfl, rfl, rfl⟩ (by decide) (by decide) rfl
  exact ⟨{ s' with files := Function.update s'.files _ (some [0x82#8]) }, Function.update_self ..,
    mainFiles_resume rfl rfl (.working hopen rfl (some [0x82#8]))⟩

end Again

/-! ## What is there at each moment -/

section Intact

variable {env : Env} {opts : Options} {L : Library} {fmt f : Format} {n i : Name}
  {names left : List Name} {s t m : Sys}

/-- **The files at a moment** are those after the moves of the inputs that are done, except for the
outputs of those that are left. -/
theorem moment_moves (hroom : ∀ o, env.room o = none) (hstd : opts.stdout = false)
    (hfault : ∀ n ∈ names, env.fault n = false) (hU : Untangled opts fmt s names)
    (hset : Settled opts fmt s t) (hfiles : ∀ n ∈ names, t.files n = s.files n)
    (h : Moment env opts L names t m left) :
    ∃ done, names = done ++ left ∧ (∀ n ∈ done, Completes env opts L fmt s n) ∧
      ∀ i, (∀ n ∈ left, derivedOutput opts fmt s n ≠ some i) → m.files i =
        Move.applyAll opts.keep t.files (done.filterMap (moveOf env opts L fmt s)) i := by
  induction h with
  | between => exact ⟨[], rfl, by simp, fun _ _ => rfl⟩
  | @working n names t j t' o h ho c =>
    refine ⟨[], rfl, by simp, fun i hi => ?_⟩
    have hopens := opens_of_openFiles h
    obtain ⟨o', ho', -, hopened, -⟩ := hopens.toFile hstd
    cases ho.symm.trans ho'
    obtain ⟨j₀, hj₀, hout, -⟩ := hopens.initialJob (L := L) hstd (hfault n List.mem_cons_self) hset
      (hfiles n List.mem_cons_self)
    have hio : i ≠ o := by
      rintro rfl
      exact hi n List.mem_cons_self (by rw [derivedOutput, hj₀, Option.bind_some, hout, ho])
    change Function.update t'.files o c i = t.files i
    rw [Function.update_of_ne hio, hopened, Function.update_of_ne hio]
  | @later n names t t' m left h _ ih =>
    obtain ⟨hcompletes, hset', hmove⟩ := completes_of_round hroom hstd
      (hfault n List.mem_cons_self) hset (hfiles n List.mem_cons_self) h
    have hfiles' : ∀ k ∈ names, t'.files k = s.files k := fun k hk => by
      rw [hmove, hU.ahead _ _ hk, hfiles k (List.mem_cons_of_mem _ hk)]
    obtain ⟨done, rfl, hdone, hm⟩ := ih (fun k hk => hfault k (List.mem_cons_of_mem _ hk)) hU.tail
      hset' hfiles'
    refine ⟨n :: done, rfl, List.forall_mem_cons.mpr ⟨hcompletes, hdone⟩, fun i hi => ?_⟩
    rw [hm i hi, hmove, filterMap_moveOf_cons]

/-- **At every moment** an input is as it was, or its output is complete. -/
theorem moment_intact (hroom : ∀ o, env.room o = none) (hstd : opts.stdout = false)
    (hfault : ∀ n ∈ names, env.fault n = false) (hU : Untangled opts fmt s names)
    (hd : names.Pairwise fun i k => ∀ o, derivedOutput opts fmt s i = some o →
      derivedOutput opts fmt s k ≠ some o)
    (h : Moment env opts L names { s with fmt := fmt } m left) (hi : i ∈ names) :
    m.files i = s.files i ∨ ∃ v, moveOf env opts L fmt s i = some v ∧
      Completes env opts L fmt s i ∧ m.files v.dst = some v.made := by
  obtain ⟨done, rfl, hdone, hm⟩ := moment_moves (s := s) (t := { s with fmt := fmt }) hroom hstd
    hfault hU (fun _ => ⟨rfl, rfl⟩) (fun _ _ => rfl) h
  obtain ⟨-, -, hnodup⟩ := List.nodup_append.mp hU.nodup
  -- no input is an output
  have hsame : moveOf env opts L fmt s i = none ∨ i ∉ done → m.files i = s.files i := by
    intro hstill
    rw [hm i fun n hn ho => hU.outputs n (List.mem_append_right _ hn) i ho hi]
    refine Move.applyAll_untouched fun v hv => ?_
    obtain ⟨n, hn, hv⟩ := List.mem_filterMap.mp hv
    obtain ⟨hsrc, hdst⟩ := moveOf_eq_some hv
    refine ⟨fun he => ?_, Or.inr fun he => ?_⟩
    · exact hU.outputs n (List.mem_append_left _ hn) i (he ▸ hdst) hi
    · rw [he, hsrc] at hstill
      rcases hstill with hnone | hout
      · rw [hnone] at hv
        cases hv
      · exact hout hn
  by_cases hdone_i : i ∈ done
  · cases hmove : moveOf env opts L fmt s i with
    | none => exact Or.inl (hsame (Or.inl hmove))
    | some v =>
      obtain ⟨hsrc, hdst⟩ := moveOf_eq_some hmove
      refine Or.inr ⟨v, rfl, hdone i hdone_i, ?_⟩
      have hother : ∀ n ∈ left, derivedOutput opts fmt s n ≠ some v.dst := fun n hn =>
        (List.pairwise_append.mp hd).2.2 i hdone_i n hn v.dst hdst
      have hapart : (done.filterMap (moveOf env opts L fmt s)).Pairwise Move.Apart :=
        (pairwise_moves hU hd).sublist ((List.sublist_append_left done left).filterMap _)
      rw [hm _ hother]
      exact Move.applyAll_dst hapart (List.mem_filterMap.mpr ⟨i, hdone_i, hmove⟩)
        (hsrc ▸ derivedOutput_ne hdst)
  · exact Or.inl (hsame (Or.inr hdone_i))

/-- **No data is lost when the program is killed**: at every moment of `snzip -t F -b N` over any
files, each of them that comes back is as it was, or its output is there and is decoded to what it
was. -/
theorem killed_compressing (hroom : ∀ o, env.room o = none) (hfault : ∀ i, env.fault i = false)
    (hS : L.snappy.Contract) (hf : f ≠ .raw) {b : BitVec 32} (hnodup : names.Nodup)
    (hn : ∀ n ∈ names, NoKnownSuffix n)
    (h : Moment env (compressingBy f b) L names { s with fmt := f } m left) (hi : i ∈ names)
    {x : Bytes} (hx : s.files i = some x) (hback : f.ComesBack L.snappy b x) :
    m.files i = some x ∨ ∃ out, m.files (i ++ '.' :: f.suffix) = some out ∧
      (f.magic ≠ none → Tells out f) ∧
      ∀ B g, Codec.run B (f.uncompress L g false) (.opened out) = ⟨some 0, x⟩ := by
  rw [← hx]
  refine (moment_intact hroom rfl (fun n _ => hfault n) (untangled_compressing hnodup hn)
    (derivedOutputs_compressing hnodup) h hi).imp_right ?_
  rintro ⟨v, hv, hcompletes, hfile⟩
  obtain ⟨y, out, hmade⟩ := hcompletes.made (hn i hi)
  cases hx.symm.trans hmade.file
  cases hv.symm.trans hmade.move
  exact ⟨out, hfile, fun hmagic => tells_compressed hS hmagic hmade.run,
    fun B g => (comesBack_iff hS hf g B hmade.run).mpr hback⟩

/-- The first of two files has been moved. -/
theorem killed_compressing_two :
    ∃ m, Moment Env.ideal (compressingBy .hadoopSnappy 39#32) ⟨literalSnappy, 0⟩ [['a'], ['b']]
        { twoFiles with fmt := .hadoopSnappy } m [['b']] ∧
      (m.files ['a'] = some [0x61#8] ∨ ∃ out,
        m.files (['a'] ++ '.' :: Format.hadoopSnappy.suffix) = some out ∧
        (Format.hadoopSnappy.magic ≠ none → Tells out .hadoopSnappy) ∧
        ∀ B g, Codec.run B (Format.hadoopSnappy.uncompress ⟨literalSnappy, 0⟩ g false)
          (.opened out) = ⟨some 0, [0x61#8]⟩) := by
  obtain ⟨s', hround⟩ : ∃ s', processFile Env.ideal (compressingBy .hadoopSnappy 39#32)
      ⟨literalSnappy, 0⟩ ['a'] { twoFiles with fmt := .hadoopSnappy } = .ret none s' := ⟨_, rfl⟩
  exact ⟨s', .later hround .between, killed_compressing (fun _ => rfl) (fun _ => rfl)
    contract_literalSnappy (by decide) (by decide) noKnownSuffix_two (.later hround .between)
    (by decide) rfl (Or.inl (by decide))⟩

/-- **Nor is anything deleted that was not a file of its format**: at every moment of `snzip -d`
each file with a magic is as it was, or it was in the language of its format, and its output is
there and holds its contents. -/
theorem killed_uncompressing (hroom : ∀ o, env.room o = none) (hfault : ∀ i, env.fault i = false)
    (hU : Untangled uncompressing s.fmt s names)
    (hd : names.Pairwise fun i k => ∀ o, derivedOutput uncompressing s.fmt s i = some o →
      derivedOutput uncompressing s.fmt s k ≠ some o)
    (h : Moment env uncompressing L names s m left) (hi : i ∈ names) {x : Bytes}
    (hx : s.files i = some x) (hf : Tells x f) :
    m.files i = some x ∨ ∃ o us, derivedOutput uncompressing s.fmt s i = some o ∧
      m.files o = some us.flatten ∧ Language L.snappy f x us := by
  rw [← hx]
  refine (moment_intact hroom rfl (fun n _ => hfault n) hU hd h hi).imp_right ?_
  rintro ⟨v, hv, hcompletes, hfile⟩
  cases hcompletes with
  | skipped hs =>
    rw [moveOf_skipped hs] at hv
    cases hv
  | @moved j o hj ho _ _ _ hstatus =>
    obtain ⟨p, hfound, hrun⟩ := found_of_tells L s.globals s.globals hf (env.buffering i)
    obtain ⟨-, x', hx', hjob⟩ := initialJob_eq_some hj
    cases hx.symm.trans hx'
    have hjob : jobOf uncompressing s.fmt s.globals i x = some j := hjob
    rw [jobOf, if_pos (show skipsMagic uncompressing = true from rfl), hfound] at hjob
    cases hjob
    obtain ⟨-, hdst⟩ := moveOf_eq_some hv
    rw [moveOf, hj, Option.bind_some, ho] at hv
    cases hv
    have hraw : f ≠ .raw := fun he => not_tells_raw (he ▸ hf)
    have hhadoop : f ≠ .hadoopSnappy := fun he => not_tells_hadoopSnappy (he ▸ hf)
    -- the status is 0 on the whole file, and then it is in the language
    change (Codec.run (env.buffering i) (f.uncompress L p.globals true) p.inp).status = some 0
      at hstatus
    change m.files o =
      some (Codec.run (env.buffering i) (f.uncompress L p.globals true) p.inp).written at hfile
    rw [hrun] at hstatus hfile
    obtain ⟨us, hus, hwritten⟩ := language_of_run hraw hhadoop hstatus
    exact ⟨o, us, hdst, by rw [hfile, hwritten], hus⟩

/-- A file of snappy-java with one block. -/
theorem killed_uncompressing_one :
    let n : Name := ['a'] ++ '.' :: Format.snappyJava.suffix
    let s : Sys := .initial fun i => if i = n then some oneBlockJava else none
    ∃ m, Moment Env.ideal uncompressing ⟨literalSnappy, 0⟩ [n] s m [] ∧
      (m.files n = some oneBlockJava ∨ ∃ o us, derivedOutput uncompressing s.fmt s n = some o ∧
        m.files o = some us.flatten ∧ Language literalSnappy .snappyJava oneBlockJava us) := by
  intro n s
  have htells : Tells oneBlockJava .snappyJava := tells_snappyJava.mpr (by decide)
  have hfile : s.files n = some oneBlockJava :=
    show (if n = n then some oneBlockJava else none) = _ from if_pos rfl
  have hback : ∀ g, Codec.run (.stdio 4096)
      (Format.snappyJava.uncompress ⟨literalSnappy, 0⟩ g false) (.opened oneBlockJava) =
        ⟨some 0, [0x61#8]⟩ := by
    intro g
    refine (run_uncompress_zero_iff (by decide) g false (InFile.ok_opened _) _).mpr ?_
    exact (yields_uncompress_iff (by decide) (by decide) g _ _).mpr
      ⟨[[0x61#8]], ⟨_, rfl, .single snappyJavaBlock_one, by decide⟩, rfl⟩
  have hmakes : Makes Env.ideal uncompressing ⟨literalSnappy, 0⟩ s.fmt s n ['a'] (Codec.run
      (.stdio 4096) (Format.snappyJava.uncompress ⟨literalSnappy, 0⟩ s.globals false)
        (.opened oneBlockJava)) := makes_uncompressing (by decide) htells hfile
  have hcompletes := (hmakes.completes_iff (by decide) (by decide) rfl).mpr
    (congrArg Result.status (hback s.globals))
  obtain ⟨s', hround⟩ := (completes_iff_round (t := s) (fun _ => rfl) rfl rfl
    (fun _ => ⟨rfl, rfl⟩) rfl).mp hcompletes
  have hU : Untangled uncompressing s.fmt s [n] := by
    refine ⟨List.nodup_singleton _, fun k hk o ho hmem => ?_⟩
    obtain rfl : k = n := List.mem_singleton.mp hk
    exact derivedOutput_ne ho (List.mem_singleton.mp hmem)
  exact ⟨s', .later hround .between, killed_uncompressing (fun _ => rfl) (fun _ => rfl) hU
    (List.pairwise_singleton _ _) (.later hround .between) (by decide) hfile htells⟩

end Intact

end Snzip
