import Snzip.ComesBack
import Snzip.CommandLine

set_option autoImplicit false

/-!
# The standard input

Without file arguments the program reads the standard input. Everything it can then be told apart
by is its status and its standard output.

* `mainStdin_opens`, **`runConfig_stdin`**: it does to its input what it does with `-c` to a file;
* `mainStdin_ends`, **`snzipMain_ends`**: it comes to an end, as a run over files does;
* `ending_onStdout_iff`, **`pipe_roundTrip`**: two programs behind one another give the data back.
-/

namespace Snzip

open CProg

section Stdin

variable {env : Env} {con : Console} {opts : Options} {L : Library} {n : Name} {x : Bytes}
  {s s' : Sys} {j : Job} {fmt : Format} {c : Config}

/-- The program ends with this status, and the standard output is like this then. -/
def Shows (o : Outcome Sys ℕ) (k : ℕ) (out : OutFile) : Prop :=
  ∃ t, ending o = some (k, t) ∧ t.stdout = out

/-! ## A file and the standard input -/

theorem compress_stSize {f : Format} (hf : f ≠ .raw) (g : Globals) (st st' : Option (BitVec 64))
    (blockSize : BitVec 64) : f.compress L g st blockSize = f.compress L g st' blockSize := by
  cases f with
  | raw => exact absurd rfl hf
  | _ => rfl

theorem openFiles_stdout (env : Env) (hstd : opts.stdout = true)
    (hsuffix : checkSuffix opts n = true)
    (hnil : n ≠ []) (hx : s.files n = some x) :
    (∃ j s', openFiles env opts n s = .ret (some j) s' ∧ j.content = x) ∨
      ∃ g, findFormat opts (env.stream n x) { s with current := none } =
          .exit 1 { s with current := none, globals := g } ∧
        openFiles env opts n s = .exit 1 { s with current := none, globals := g } := by
  unfold openFiles
  simp only [bind_apply, setCurrent_apply, getSys_apply, Outcome.bind_ret, hsuffix, Bool.not_true,
    Bool.false_eq_true, if_false, hnil, hx]
  rcases findFormat_cases opts (env.stream n x) { s with current := none } with
    ⟨inp, fmt, g, hrun, -⟩ | ⟨g, hrun⟩
  · let j : Job := ⟨n, x, inp, skipsMagic opts, fmt, g, none⟩
    refine Or.inl ⟨j, { s with current := some j, fmt := fmt, globals := g }, ?_, rfl⟩
    rw [hrun, Outcome.bind_ret, bind_apply, openOutput, ite_prog, if_pos hstd]
    rfl
  · exact Or.inr ⟨g, hrun, by rw [hrun]; rfl⟩

/-- **The job of a file is the job of the standard input.** -/
theorem mainStdin_opens (hfmt : namedFormat opts s.fmt = some fmt)
    (hopens : Opens env opts n { s with fmt := fmt } j s') (hraw : j.fmt ≠ .raw)
    (hstdin : con.stdin = env.stream n j.content) (htty : con.isatty = false) :
    ∃ t : Sys, t.stdout = s.stdout ∧
      mainStdin con opts L s = onStdout (j.codec L opts) j.inp t := by
  have hfinds := hopens.finds
  rw [← hstdin, Finds, ← hopens.skipMagic] at hfinds
  unfold mainStdin Job.codec
  rw [hfmt]
  cases hu : opts.uncompress with
  | true =>
    have hskip : j.skipMagic = opts.formatName.isNone := by
      rw [hopens.skipMagic, skipsMagic, hu, Bool.true_and]
    rw [hskip] at hfinds ⊢
    simp only [if_true]
    split
    · next hnone =>
      rw [if_pos hnone] at hfinds
      obtain ⟨buf, hfound⟩ := hfinds
      rw [hfound, hnone]
      exact ⟨{ s with globals := j.globals }, rfl, rfl⟩
    · next hsome =>
      rw [if_neg hsome] at hfinds
      obtain ⟨hinp, hf, hg⟩ := hfinds
      rw [Bool.not_eq_true] at hsome
      rw [hinp, hf, hg, hsome]
      exact ⟨s, rfl, rfl⟩
  | false =>
    have hskip : j.skipMagic = false := by rw [hopens.skipMagic, skipsMagic, hu, Bool.false_and]
    rw [hskip, if_neg Bool.false_ne_true] at hfinds
    obtain ⟨hinp, hf, hg⟩ := hfinds
    rw [hf] at hraw
    simp only [Bool.false_eq_true, if_false, htty, hinp, hf, hg]
    exact ⟨s, rfl, by rw [compress_stSize hraw]⟩

theorem mainStdin_refused {g : Globals} (hfmt : namedFormat opts s.fmt = some fmt)
    (hfind : findFormat opts con.stdin { s with fmt := fmt, current := none } =
      .exit 1 { s with fmt := fmt, current := none, globals := g }) :
    ∃ t : Sys, t.stdout = s.stdout ∧ mainStdin con opts L s = .ret 1 t := by
  unfold findFormat at hfind
  split at hfind
  · next hskip =>
    obtain ⟨hu, hnone⟩ : opts.uncompress = true ∧ opts.formatName.isNone = true := by
      simpa [skipsMagic] using hskip
    obtain ⟨r, m, g', hrun, -⟩ := findStreamFormatByFileHeader_spec con.stdin s.globals
    have hrun : findStreamFormatByFileHeader ⟨con.stdin, [], s.globals⟩ =
      .ret r (probed con.stdin g' m) := hrun
    unfold mainStdin
    rw [hfmt]
    simp only [hu, hnone, if_true, hrun] at hfind ⊢
    cases r with
    | none => exact ⟨{ s with globals := g' }, rfl, rfl⟩
    | some f => cases hfind
  · cases hfind

theorem shows_onStdout {m : Io ℕ} {inp : InFile} {k : ℕ} {w : World}
    (h : m ⟨inp, s.stdout⟩ = .ret k w ∨ m ⟨inp, s.stdout⟩ = .exit k w) :
    Shows (onStdout m inp s) k w.out := by
  unfold onStdout
  rcases h with h | h <;> rw [h] <;> exact ⟨_, rfl, rfl⟩

theorem shows_runFiles (hopens : Opens env opts n s j s') (hstd : opts.stdout = true)
    (hopen : openFiles env opts n s = .ret (some j) s') {k : ℕ} {w : World} (hk : k ≤ 1)
    (h : j.codec L opts ⟨j.inp, s.stdout⟩ = .ret k w ∨
      j.codec L opts ⟨j.inp, s.stdout⟩ = .exit k w) :
    Shows (runFiles env opts L [n] s) k w.out := by
  have hnone : j.outfile = none := by
    rcases hopens.outfile with ⟨-, hnone, -⟩ | ⟨o, hfalse, -⟩
    · exact hnone
    · exact absurd (hfalse.symm.trans hstd) Bool.false_ne_true
  have hout : j.outFile env s' = s.stdout := by
    rw [Job.outFile, hnone]
    exact hopens.stdout
  rw [runFiles_cons, processFile_opened hopens hopen, afterOpen, hout]
  rcases h with h | h
  · rw [h]
    rcases Nat.le_one_iff_eq_zero_or_eq_one.mp hk with rfl | rfl
    · cases opts.keep <;> exact ⟨_, rfl, by rw [closeOutput, hnone]⟩
    · exact ⟨_, rfl, by rw [unlinkOutput, hnone]⟩
  · rw [h]
    exact ⟨_, rfl, by rw [closeOutput, hnone]⟩

/-- **The standard input is as good as a file with `-c`**, whatever it holds, and wherever its
reading fails: the status is the same, and so is what comes to the standard output. -/
theorem runConfig_stdin (hstd : c.optStdout = true)
    (hraw : namedFormat c.options s.fmt ≠ some .raw) (hsuffix : checkSuffix c.options n = true)
    (hnil : n ≠ []) (hx : s.files n = some x) (hstdin : con.stdin = env.stream n x)
    (htty : con.isatty = false) :
    ∃ k out, k ≤ 1 ∧ Shows (runConfig env con L c [n] s) k out ∧
      Shows (runConfig env con L c [] s) k out := by
  let u : Sys :=
    { s with globals := { s.globals with uncompressedSourceLen := c.uncompressedSourceLen } }
  have hfile : runConfig env con L c [n] s = mainFiles env c.options L [n] u := rfl
  have hpipe : runConfig env con L c [] s = mainStdin con c.options L u := rfl
  rw [hfile, hpipe]
  cases hfmt : namedFormat c.options u.fmt with
  | none =>
    have hfile : mainFiles env c.options L [n] u = .ret 1 u := by rw [mainFiles_eq, hfmt]
    have hpipe : mainStdin con c.options L u = .ret 1 u := by rw [mainStdin, hfmt]
    rw [hfile, hpipe]
    exact ⟨1, u.stdout, Nat.le_refl 1, ⟨u, rfl, rfl⟩, ⟨u, rfl, rfl⟩⟩
  | some fmt =>
    have hmain : mainFiles env c.options L [n] u =
        runFiles env c.options L [n] { u with fmt := fmt } := by rw [mainFiles_eq, hfmt]
    rw [hmain]
    have hne : fmt ≠ .raw := by
      rintro rfl
      exact hraw hfmt
    rcases openFiles_stdout (s := { u with fmt := fmt }) env hstd hsuffix hnil hx with
      ⟨j, s', hopen, rfl⟩ | ⟨g, hfind, hopen⟩
    · have hopens := opens_of_openFiles hopen
      have hjne := hopens.fmt_ne_raw hne
      obtain ⟨k, w, hk, hcodec⟩ := codec_ends (L := L) hopens hjne u.stdout
      obtain ⟨t, ht, hrun⟩ := mainStdin_opens (L := L) hfmt hopens hjne hstdin htty
      rw [← ht] at hcodec
      refine ⟨k, w.out, hk, shows_runFiles hopens hstd hopen hk ?_, ?_⟩
      · rw [ht] at hcodec
        exact hcodec
      · rw [hrun]
        exact shows_onStdout hcodec
    · rw [← hstdin] at hfind
      obtain ⟨t, ht, hrun⟩ := mainStdin_refused (L := L) hfmt hfind
      have hfile : runFiles env c.options L [n] { u with fmt := fmt } =
          .exit 1 { u with fmt := fmt, current := none, globals := g } := by
        simp only [runFiles_cons, processFile, bind_apply, hopen]
        rfl
      rw [hfile, hrun]
      exact ⟨1, s.stdout, Nat.le_refl 1, ⟨_, rfl, rfl⟩, ⟨t, rfl, ht⟩⟩

/-- A block of snappy-java, and a read error in the next one. -/
def brokenJava : Bytes :=
  snappyJavaHeader ++ [0x00#8, 0x00#8, 0x00#8, 0x03#8, 0x01#8, 0x00#8, 0x61#8] ++
    [0x00#8, 0x00#8, 0x00#8, 0x03#8, 0x01#8]

/-- `snzcat`. -/
theorem runConfig_stdin_broken :
    let env : Env := { Env.ideal with fault := fun _ => true }
    let con : Console := ⟨brokenJava, true, none, false, false⟩
    let c := progConfig ['s', 'n', 'z', 'c', 'a', 't']
    let s : Sys := .initial fun _ => some brokenJava
    ∃ k out, k ≤ 1 ∧ Shows (runConfig env con ⟨literalSnappy, 0⟩ c [['a']] s) k out ∧
      Shows (runConfig env con ⟨literalSnappy, 0⟩ c [] s) k out ∧ out.written = [0x61#8] := by
  intro env con c s
  obtain ⟨k, out, hk, hfile, t, ht, hstdout⟩ := @runConfig_stdin env con ⟨literalSnappy, 0⟩ ['a']
    brokenJava s c (by decide) (by decide) (by decide) (by decide) rfl rfl rfl
  have hwritten : (ending (runConfig env con ⟨literalSnappy, 0⟩ c [] s)).map
      (fun p => p.2.stdout.written) = some [0x61#8] := by
    decide +kernel
  rw [ht] at hwritten
  exact ⟨k, out, hk, hfile, ⟨t, ht, hstdout⟩, hstdout ▸ Option.some.inj hwritten⟩

/-! ## It ends -/

/-- **A run on the standard input ends** with a status of 0 or 1. -/
theorem mainStdin_ends (con : Console) (L : Library)
    (hraw : namedFormat opts s.fmt ≠ some .raw) :
    ∃ k t, k ≤ 1 ∧ ending (mainStdin con opts L s) = some (k, t) := by
  have hok : con.stdin.Ok := ⟨fun h => Bool.noConfusion h, fun h => Bool.noConfusion h⟩
  have hends : ∀ (m : Io ℕ) (i : InFile) (t : Sys),
      (∃ k w, k ≤ 1 ∧ (m ⟨i, t.stdout⟩ = .ret k w ∨ m ⟨i, t.stdout⟩ = .exit k w)) →
        ∃ k t', k ≤ 1 ∧ ending (onStdout m i t) = some (k, t') := by
    rintro m i t ⟨k, w, hk, h⟩
    obtain ⟨t', ht', -⟩ := shows_onStdout h
    exact ⟨k, t', hk, ht'⟩
  unfold mainStdin
  cases hfmt : namedFormat opts s.fmt with
  | none => exact ⟨1, s, Nat.le_refl 1, rfl⟩
  | some fmt =>
    have hne : fmt ≠ .raw := by
      rintro rfl
      exact hraw hfmt
    simp only
    split
    · split
      · obtain ⟨r, m, g, hrun, -⟩ := findStreamFormatByFileHeader_spec con.stdin s.globals
        have hrun : findStreamFormatByFileHeader ⟨con.stdin, [], s.globals⟩ =
          .ret r (probed con.stdin g m) := hrun
        rw [hrun]
        cases r with
        | none => exact ⟨1, { s with globals := g }, Nat.le_refl 1, rfl⟩
        | some f =>
          refine hends _ _ _ (ends_of_playback
            (refines_uncompress L g true f ⟨_, s.stdout⟩ (ok_iterate_next m hok)) ?_)
          exact ends_uncompress (found_ne_raw hrun) g true _ _
      · exact hends _ _ _ (ends_of_playback
          (refines_uncompress L s.globals false fmt ⟨con.stdin, s.stdout⟩ hok)
          (ends_uncompress hne _ _ _ _))
    split
    · exact ⟨1, s, Nat.le_refl 1, rfl⟩
    · exact hends _ _ _ (ends_of_playback
        (refines_compress L s.globals con.stSize (sizeOfInt opts.blockSize) fmt
          ⟨con.stdin, s.stdout⟩ hok rfl) (ends_compress hne _ _ _ _ _))

/-- The state of a program that has just been started, when the options have been read. -/
def started (files : Name → Option Bytes) (c : Config) : Sys :=
  { Sys.initial files with globals :=
    { Globals.initial with uncompressedSourceLen := c.uncompressedSourceLen } }

theorem snzipMain_stdin {argv0 : Name} {args : List Name}
    (hread : (scan optstring con.posix args).read setOption (progConfig (progname argv0)) =
      some (.inr (c, []))) :
    snzipMain env con L (argv0 :: args) s = some (mainStdin con c.options L { s with globals :=
      { s.globals with uncompressedSourceLen := c.uncompressedSourceLen } }) := by
  rw [snzipMain_eq, hread]
  rfl

/-- An option ends the program with a status of 0 or 1, or leaves the format or names it. -/
theorem setOption_format {o : Char} {a : Option Name} {r : ℕ ⊕ Config}
    (h : setOption o a c = some r) : r.elim (· ≤ 1) fun c' =>
      c'.formatName = c.formatName ∨ o = 't' ∧ c'.formatName = a := by
  unfold setOption at h
  split at h
  · cases h; exact Or.inl rfl
  · cases h; exact Or.inl rfl
  · cases h; exact Or.inl rfl
  · cases h; exact Or.inr ⟨rfl, rfl⟩
  · cases h; exact Nat.zero_le 1
  · obtain ⟨x, -, hx⟩ := Option.map_eq_some_iff.mp h
    split at hx <;> cases hx
    · exact Or.inl rfl
    · exact Nat.le_refl 1
  · obtain ⟨x, -, hx⟩ := Option.map_eq_some_iff.mp h
    cases hx
    exact Or.inl rfl
  · obtain ⟨x, -, hx⟩ := Option.bind_eq_some_iff.mp h
    simp only at hx
    split at hx <;> cases hx
    exact Or.inl rfl
  · cases h; exact Nat.le_refl 1
  · cases h; exact Or.inl rfl

theorem readItems_format {is : List OptItem} {r : ℕ ⊕ Config}
    (h : readItems setOption is c = some r) : r.elim (· ≤ 1) fun c' =>
      c'.formatName = c.formatName ∨ .opt 't' c'.formatName ∈ is := by
  induction is generalizing c with
  | nil =>
    cases h
    exact Or.inl rfl
  | cons i is ih =>
    cases i with
    | bad d =>
      cases h
      exact Nat.le_refl 1
    | opt d a =>
      rw [readItems] at h
      obtain ⟨q, hq, h⟩ := Option.bind_eq_some_iff.mp h
      have hstep := setOption_format hq
      cases q with
      | inl k =>
        cases h
        exact hstep
      | inr c₁ =>
        have hrest := ih h
        cases r with
        | inl k => exact hrest
        | inr c' =>
          rcases hrest with hrest | hrest
          · rcases hstep with hstep | ⟨rfl, hstep⟩
            · exact Or.inl (hrest.trans hstep)
            · refine Or.inr (List.mem_cons.mpr (Or.inl ?_))
              rw [← hstep, ← hrest]
          · exact Or.inr (List.mem_cons_of_mem _ hrest)

theorem setOption_defined {o : Char} {a : Option Name}
    (ha : optKind optstring o = .required → a ≠ none)
    (hshift : ∀ x, o = 'B' → a = some x → 0 ≤ (atoi x).toInt ∧ (atoi x).toInt < 64) (c : Config) :
    ∃ r, setOption o a c = some r := by
  have harg : optKind optstring o = .required → ∃ x, a = some x := fun h =>
    Option.ne_none_iff_exists'.mp (ha h)
  unfold setOption
  split
  case h_6 | h_7 =>
    obtain ⟨x, rfl⟩ := harg (by decide)
    exact ⟨_, rfl⟩
  case h_8 =>
    obtain ⟨x, rfl⟩ := harg (by decide)
    exact ⟨_, if_pos (hshift x rfl rfl)⟩
  all_goals exact ⟨_, rfl⟩

theorem readItems_defined {is : List OptItem}
    (hargs : ∀ o a, .opt o a ∈ is → optKind optstring o = .required → a ≠ none)
    (hshift : ∀ x, .opt 'B' (some x) ∈ is → 0 ≤ (atoi x).toInt ∧ (atoi x).toInt < 64) (c : Config) :
    ∃ r, readItems setOption is c = some r ∧ ((∃ d, .bad d ∈ is) → ∃ k, r = .inl k) := by
  induction is generalizing c with
  | nil =>
    refine ⟨.inr c, rfl, ?_⟩
    rintro ⟨d, hd⟩
    exact absurd hd List.not_mem_nil
  | cons i is ih =>
    cases i with
    | bad d => exact ⟨.inl 1, rfl, fun _ => ⟨1, rfl⟩⟩
    | opt o a =>
      obtain ⟨q, hq⟩ := setOption_defined (hargs o a List.mem_cons_self)
        (fun x ho ha => hshift x (by rw [ho, ha]; exact List.mem_cons_self)) c
      rw [readItems, hq, Option.bind_some]
      cases q with
      | inl k => exact ⟨.inl k, rfl, fun _ => ⟨k, rfl⟩⟩
      | inr c₁ =>
        obtain ⟨r, hr, hbad⟩ := ih (fun o a h => hargs o a (List.mem_cons_of_mem _ h))
          (fun x h => hshift x (List.mem_cons_of_mem _ h)) c₁
        refine ⟨r, hr, ?_⟩
        rintro ⟨d, hd⟩
        rcases List.mem_cons.mp hd with h | hd
        · cases h
        · exact hbad ⟨d, hd⟩

/-- **Every run of the program ends with a status of 0 or 1**, over files or on the standard input,
whatever these hold, whatever the system refuses, and whatever the command line says, as long as it
does not name the raw format, and means something: a hyphen alone is not read, and a shift by more
than 63 bits or by less than none is not defined. -/
theorem snzipMain_ends {argv0 : Name} {args : List Name} (hfmt : s.fmt ≠ .raw)
    (hraw : .opt 't' (some Format.raw.name) ∉ (scan optstring con.posix args).items)
    (hhyphen : (scan optstring con.posix args).NoHyphen)
    (hshift : ∀ a, .opt 'B' (some a) ∈ (scan optstring con.posix args).items →
      0 ≤ (atoi a).toInt ∧ (atoi a).toInt < 64) :
    ∃ out k t, snzipMain env con L (argv0 :: args) s = some out ∧ k ≤ 1 ∧
      ending out = some (k, t) := by
  obtain ⟨q, hitems, hbad⟩ := readItems_defined (fun _ _ => scan_argument) hshift
    (progConfig (progname argv0))
  have hformat := readItems_format hitems
  rw [snzipMain_eq, Scan.read, hitems, Option.bind_some]
  cases q with
  | inl k => exact ⟨.exit k s, k, s, rfl, hformat, rfl⟩
  | inr c =>
    cases hoperands : (scan optstring con.posix args).operands with
    | none =>
      obtain ⟨k, hk⟩ := hbad (hhyphen hoperands)
      cases hk
    | some operands =>
      have hnamed : namedFormat c.options s.fmt ≠ some .raw := by
        intro hnamed
        rcases hformat with hnone | hopt
        · rw [namedFormat, Config.options, hnone] at hnamed
          exact hfmt (Option.some.inj hnamed)
        · cases hname : c.formatName with
          | none =>
            rw [namedFormat, Config.options, hname] at hnamed
            exact hfmt (Option.some.inj hnamed)
          | some a =>
            rw [namedFormat, Config.options, hname] at hnamed
            have hfound : Format.raw.name = a := by simpa using List.find?_some hnamed
            rw [hname, ← hfound] at hopt
            exact hraw hopt
      let u : Sys := { s with globals :=
        { s.globals with uncompressedSourceLen := c.uncompressedSourceLen } }
      have hends : ∃ k t, k ≤ 1 ∧ ending (runConfig env con L c operands s) = some (k, t) := by
        unfold runConfig
        split
        · exact mainStdin_ends (s := u) con L hnamed
        · obtain ⟨k, t, hend, hk⟩ := @mainFiles_ends c.options u env L operands hnamed
          exact ⟨k, t, hk, hend⟩
      obtain ⟨k, t, hk, hend⟩ := hends
      exact ⟨_, k, t, rfl, hk, hend⟩

/-- `snzip -tsnappy-java` with one byte on its standard input. -/
theorem snzipMain_ends_one :
    let con : Console := ⟨[0x61#8], false, none, false, false⟩
    ∃ out k t, snzipMain Env.ideal con ⟨literalSnappy, 0⟩
        [['s', 'n', 'z', 'i', 'p'], '-' :: 't' :: Format.snappyJava.name] (.initial fun _ => none) =
          some out ∧ k ≤ 1 ∧ ending out = some (k, t) ∧ t.stdout.written =
        snappyJavaHeader ++ [0x00#8, 0x00#8, 0x00#8, 0x03#8, 0x01#8, 0x00#8, 0x61#8] := by
  intro con
  have hscan : scan optstring con.posix ['-' :: 't' :: Format.snappyJava.name] =
      ⟨[.opt 't' (some Format.snappyJava.name)], some [], false⟩ := by
    have ht : optKind optstring 't' = .required := by decide
    rw [scan_word (by decide) (by decide), scanWord_attached ht (by decide), scan_nil]
    rfl
  have hitems := congrArg Scan.items hscan
  obtain ⟨out, k, t, hrun, hk, hend⟩ := @snzipMain_ends Env.ideal con ⟨literalSnappy, 0⟩
    (.initial fun _ => none) ['s', 'n', 'z', 'i', 'p'] ['-' :: 't' :: Format.snappyJava.name]
    (by decide) (by rw [hitems]; decide) (noHyphen_scan (by decide)) (by rw [hitems]; simp)
  refine ⟨out, k, t, hrun, hk, hend, ?_⟩
  -- the same run, step by step
  let c : Config :=
    { progConfig ['s', 'n', 'z', 'i', 'p'] with formatName := some Format.snappyJava.name }
  have hread : (scan optstring con.posix ['-' :: 't' :: Format.snappyJava.name]).read setOption
      (progConfig (progname ['s', 'n', 'z', 'i', 'p'])) = some (.inr (c, [])) := by
    rw [hscan]
    rfl
  have hwritten :
    (ending (mainStdin con c.options ⟨literalSnappy, 0⟩ (started (fun _ => none) c))).map
      (fun p => p.2.stdout.written) = some
        (snappyJavaHeader ++ [0x00#8, 0x00#8, 0x00#8, 0x03#8, 0x01#8, 0x00#8, 0x61#8]) := by
    decide +kernel
  rw [← Option.some.inj ((snzipMain_stdin hread).symm.trans hrun)] at hend
  rw [show ending (mainStdin con c.options ⟨literalSnappy, 0⟩ (started (fun _ => none) c)) = _
    from hend] at hwritten
  exact Option.some.inj hwritten

/-! ## A pipe -/

theorem ending_onStdout_iff {m : Io ℕ} {inp : InFile} {B : Buffering} {k : ℕ} {out : Bytes}
    (hs : s.stdout = OutFile.opened B none) :
    (∃ t, ending (onStdout m inp s) = some (k, t) ∧ t.stdout.written = out) ↔
      Codec.run B m inp = ⟨some k, out⟩ := by
  unfold onStdout
  rw [hs, Codec.run]
  cases m ⟨inp, OutFile.opened B none⟩ with
  | ret n w | exit n w =>
    constructor
    · rintro ⟨t, hend, hout⟩
      cases hend
      exact congrArg (Result.mk _) hout
    · intro h
      cases h
      exact ⟨_, rfl, rfl⟩
  | diverge =>
    refine iff_of_false ?_ ?_
    · rintro ⟨t, hend, -⟩
      cases hend
    · intro h
      cases h

theorem mainStdin_compress {f : Format} {t : Sys} (hu : c.optUncompress = false)
    (hfmt : namedFormat c.options t.fmt = some f) (hfault : con.fault = false)
    (htty : con.isatty = false) :
    mainStdin con c.options L t =
      onStdout (f.compress L t.globals con.stSize (sizeOfInt c.blockSize)) (.opened con.content)
        t := by
  have hopts : c.options.uncompress = false := hu
  have hsize : c.options.blockSize = c.blockSize := rfl
  have hstdin : con.stdin = .opened con.content := by
    rw [Console.stdin, hfault]
    rfl
  simp only [mainStdin, hfmt, hopts, Bool.false_eq_true, if_false, htty, hsize, hstdin]

/-- The second program of a pipe: `snzip -d -t F`, or `snzip -d` for a format with a magic. -/
theorem mainStdin_uncompress {f : Format} {t : Sys} {content x : Bytes}
    (hu : c.optUncompress = true)
    (hname : c.formatName = some f.name ∨ c.formatName = none ∧ Tells content f)
    (hfault : con.fault = false) (hcontent : con.content = content)
    (ht : t.stdout = OutFile.opened (.stdio 4096) none) :
    (∃ t', ending (mainStdin con c.options L t) = some (0, t') ∧ t'.stdout.written = x) ↔
      Codec.run (.stdio 4096) (f.uncompress L t.globals false) (.opened content) = ⟨some 0, x⟩ := by
  have hstdin : con.stdin = .opened content := by
    rw [Console.stdin, hfault, hcontent]
    rfl
  have hopts : c.options.uncompress = true := hu
  rcases hname with hname | ⟨hname, htells⟩
  · have hformat : c.options.formatName = some f.name := hname
    simp only [mainStdin, namedFormat, hformat, findStreamFormatByName_name, hopts,
      Option.isNone_some, if_true, if_false, Bool.false_eq_true, hstdin]
    exact ending_onStdout_iff ht
  · have hformat : c.options.formatName = none := hname
    obtain ⟨p, hfound, hskip⟩ := found_of_tells L t.globals t.globals htells (.stdio 4096)
    simp only [mainStdin, namedFormat, hformat, hopts, Option.isNone_none, if_true, hstdin, hfound]
    rw [← hskip]
    exact ending_onStdout_iff ht

/-- **A pipe gives the data back**: if `snzip` takes its standard input, what it writes is turned
into what it was by `snzip -d -t F`, and with a magic by `snzip -d` as well, exactly if the data is
such that a file with it would come back. -/
theorem pipe_roundTrip {con' : Console} {c' : Config} {argv0 argv0' : Name} {args args' : List Name}
    {f : Format} {o : Outcome Sys ℕ} {t : Sys} (hS : L.snappy.Contract) (hf : f ≠ .raw)
    (files files' : Name → Option Bytes)
    (hread : (scan optstring con.posix args).read setOption (progConfig (progname argv0)) =
      some (.inr (c, [])))
    (hu : c.optUncompress = false) (hfmt : namedFormat c.options .framing2 = some f)
    (hfault : con.fault = false) (htty : con.isatty = false)
    (hrun : snzipMain env con L (argv0 :: args) (.initial files) = some o)
    (hend : ending o = some (0, t))
    (hread' : (scan optstring con'.posix args').read setOption (progConfig (progname argv0')) =
      some (.inr (c', [])))
    (hu' : c'.optUncompress = true)
    (hname : c'.formatName = some f.name ∨ c'.formatName = none ∧ f.magic ≠ none)
    (hfault' : con'.fault = false) :
    (∃ o' t', snzipMain env { con' with content := t.stdout.written } L (argv0' :: args')
        (.initial files') = some o' ∧
      ending o' = some (0, t') ∧ t'.stdout.written = con.content) ↔
        f.ComesBack L.snappy c.blockSize con.content := by
  have hfirst : some (mainStdin con c.options L (started files c)) = some o :=
    (snzipMain_stdin hread).symm.trans hrun
  rw [← Option.some.inj hfirst, mainStdin_compress hu hfmt hfault htty] at hend
  have hout := (ending_onStdout_iff (s := started files c) rfl).mp ⟨t, hend, rfl⟩
  rw [← comesBack_iff hS hf (started files' c').globals (.stdio 4096) hout]
  -- what the second program is
  have hsecond : snzipMain env { con' with content := t.stdout.written } L (argv0' :: args')
      (.initial files') = some (mainStdin { con' with content := t.stdout.written } c'.options L
        (started files' c')) := snzipMain_stdin hread'
  have hback : (∃ t', ending (mainStdin { con' with content := t.stdout.written } c'.options L
      (started files' c')) = some (0, t') ∧ t'.stdout.written = con.content) ↔
        Codec.run (.stdio 4096) (f.uncompress L (started files' c').globals false)
          (.opened t.stdout.written) = ⟨some 0, con.content⟩ :=
    mainStdin_uncompress hu' (hname.imp_right (And.imp_right fun hmagic =>
      tells_compressed hS hmagic hout)) hfault' rfl rfl
  simp only [← hback, hsecond, Option.some.injEq, exists_eq_left', exists_and_left]

/-- `snzip -t snappy-java | unsnzip`. -/
theorem pipe_roundTrip_one :
    ∃ o t o' t', snzipMain Env.ideal ⟨[0x61#8], false, none, false, false⟩ ⟨literalSnappy, 0⟩
        [['s', 'n', 'z', 'i', 'p'], ['-', 't'], Format.snappyJava.name] (.initial fun _ => none) =
          some o ∧ ending o = some (0, t) ∧
      snzipMain Env.ideal ⟨t.stdout.written, false, none, false, false⟩ ⟨literalSnappy, 0⟩
        [['u', 'n', 's', 'n', 'z', 'i', 'p']] (.initial fun _ => none) = some o' ∧
      ending o' = some (0, t') ∧ t'.stdout.written = [0x61#8] := by
  have hread : (scan optstring false [['-', 't'], Format.snappyJava.name]).read setOption
      (progConfig (progname ['s', 'n', 'z', 'i', 'p'])) =
        some (.inr ({ progConfig ['s', 'n', 'z', 'i', 'p'] with
          formatName := some Format.snappyJava.name }, [])) := by
    have ht : optKind optstring 't' = .required := by decide
    rw [scan_word (by decide) (by decide), scanWord_separate ht, scan_nil, Scan.read_opt]
    rfl
  have hread' : (scan optstring false []).read setOption
      (progConfig (progname ['u', 'n', 's', 'n', 'z', 'i', 'p'])) =
        some (.inr (progConfig ['u', 'n', 's', 'n', 'z', 'i', 'p'], [])) := by
    rw [scan_nil]
    rfl
  let con : Console := ⟨[0x61#8], false, none, false, false⟩
  let c : Config := { progConfig ['s', 'n', 'z', 'i', 'p'] with
    formatName := some Format.snappyJava.name }
  obtain ⟨out, hout, -⟩ := encoded (L := ⟨literalSnappy, 0⟩) contract_literalSnappy
    (f := .snappyJava) (by decide) (started (fun _ => none) c).globals none (.stdio 4096)
    (.stdio 4096) [0x61#8]
  obtain ⟨t, hend, -⟩ := (ending_onStdout_iff (s := started (fun _ => none) c) rfl).mpr hout
  have hfmt : namedFormat c.options .framing2 = some .snappyJava :=
    findStreamFormatByName_name .snappyJava
  have hmain : mainStdin con c.options ⟨literalSnappy, 0⟩ (started (fun _ => none) c) =
      onStdout (Format.snappyJava.compress ⟨literalSnappy, 0⟩
        (started (fun _ => none) c).globals none
        (sizeOfInt 0#32)) (.opened [0x61#8]) (started (fun _ => none) c) :=
    mainStdin_compress rfl hfmt rfl rfl
  rw [← hmain] at hend
  have hback : Format.snappyJava.ComesBack literalSnappy c.blockSize [0x61#8] := by
    change ∀ d ∈ blocks 32768 [0x61#8], (literalSnappy.compress d).length < 2 ^ 31
    rw [blocks_of_length_le (by decide) (by decide)]
    decide
  obtain ⟨o', t', hrun', hend', hout⟩ := (@pipe_roundTrip Env.ideal con ⟨literalSnappy, 0⟩ c con _
    _ _ _ _ .snappyJava _ t contract_literalSnappy (by decide) (fun _ => none) (fun _ => none) hread
    rfl hfmt rfl rfl (snzipMain_stdin hread) hend hread' rfl (Or.inr ⟨rfl, by decide⟩) rfl).mpr
      hback
  exact ⟨_, t, o', t', snzipMain_stdin hread, hend, hrun', hend', hout⟩

end Stdin

end Snzip
