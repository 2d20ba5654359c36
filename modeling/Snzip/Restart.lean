import Snzip.Survival
import Snzip.CommandLine
import Snzip.Lockstep

set_option autoImplicit false

/-!
# One run and many

The search for a format leaves the format and some lengths in global variables, where the next file
finds them. Nothing comes of it.

* `coupled_searched`, **`coupled_runFiles`**: a run does not depend on what was found before;
* **`mainFiles_append`**: a run goes on as a new one;
* `inTurn`, **`snzipMain_inTurn`**: a command line with many files, and command lines with some
  each.
-/

namespace Snzip

open CProg

/-! ## Settings that are left behind -/

/-- The settings are the same, unless the next file is searched for its format. -/
def SameSettings (opts : Options) (f : Format) (g : Globals) (f' : Format) (g' : Globals) : Prop :=
  skipsMagic opts = false → f = f' ∧ g = g'

section Round

variable {env : Env} {opts : Options} {L : Library}

/-- **The search for a format does not depend on what was found before.** -/
theorem coupled_searched {i : InFile} (hi : i.Ok) (herr : i.err = false) :
    Coupled Shared (Same (SameSettings opts)) (findFormat opts i) (findFormat opts i)
      (SameFormat (SameSettings opts) opts opts L) := by
  intro s t hs
  unfold findFormat
  by_cases hskip : skipsMagic opts = true
  · rw [if_pos hskip, if_pos hskip]
    have hu : opts.uncompress = true := (Bool.and_eq_true_iff.mp hskip).1
    have hsettings : ∀ f g f' g', SameSettings opts f g f' g' := fun _ _ _ _ h => by
      rw [hskip] at h
      cases h
    obtain ⟨r, n, g, hrun, -⟩ := findStreamFormatByFileHeader_spec i s.globals
    obtain ⟨r', n', g', hrun', -⟩ := findStreamFormatByFileHeader_spec i t.globals
    rw [show findStreamFormatByFileHeader ⟨i, [], s.globals⟩ = _ from hrun,
      show findStreamFormatByFileHeader ⟨i, [], t.globals⟩ = _ from hrun']
    cases r with
    | none =>
      cases r' with
      | none => exact .exit ⟨hs.files, hs.stdout⟩
      | some f =>
        obtain ⟨p, hp, -⟩ := findStreamFormat_script (L := L) s.globals hrun'
        cases hrun.symm.trans hp
    | some f =>
      obtain ⟨p, hp, hinp, hscript⟩ := findStreamFormat_script (L := L) t.globals hrun
      obtain ⟨rfl, rfl⟩ := Outcome.ret.inj (hrun'.symm.trans hp)
      have hfresh : ∀ n, Fresh opts (InFile.next^[n] i) := fun n =>
        ⟨ok_iterate_next n hi, fun h => by rw [hu] at h; cases h⟩
      refine .ret ⟨⟨⟨hs.files, hs.stdout⟩, hsettings _ _ _ _⟩, rfl, hfresh n, hfresh n',
        fun infile content outfile => ?_⟩
      simp only [Job.script, hu, if_true, hinp, hskip]
      exact (hscript _ _).symm
  · rw [if_neg hskip, if_neg hskip]
    rw [Bool.not_eq_true] at hskip
    obtain ⟨hf, hg⟩ := hs.settings hskip
    exact .ret ⟨hs, hf, ⟨hi, fun _ => herr⟩, ⟨hi, fun _ => herr⟩, fun _ _ _ => by rw [hf, hg]⟩

/-- **A run does not depend on what was found before it.** -/
theorem coupled_runFiles (names : List Name) :
    Coupled Shared (Same (SameSettings opts)) (runFiles env opts L names)
      (runFiles env opts L names) fun n n' s t => n = n' ∧ Same (SameSettings opts) s t := by
  induction names with
  | nil => exact .pure fun _ _ h => ⟨rfl, h⟩
  | cons infile names ih =>
    have hopen : Coupled Shared
        (fun s t => Same (SameSettings opts) s t ∧ ∀ x, s.files infile = some x → True)
        (openFiles env opts infile) (openFiles env opts infile)
        fun r r' s t => Option.Rel (SameJob opts opts L) r r' ∧ Same (SameSettings opts) s t :=
      coupled_openFiles rfl rfl fun x _ => coupled_searched
        ⟨fun h => Bool.noConfusion h, fun h => Bool.noConfusion h⟩ rfl
    refine (coupled_processFile rfl (hopen.mono fun s t h => ⟨h, fun _ _ => trivial⟩)).bind
      fun r r' => ?_
    intro s t ⟨hr, hs⟩
    subst hr
    cases r with
    | none => exact ih s t hs
    | some n => exact .ret ⟨rfl, hs⟩

end Round

/-! ## A new run -/

/-- The program is started anew on what a run has left, behind a buffer of its own. -/
def Sys.restart (s t : Sys) : Sys := { s with files := t.files, stdout := t.stdout.reopened }

/-- What is seen of a system when the program has ended: the files, and what has come to the
standard output. -/
def Sys.seen (s : Sys) : (Name → Option Bytes) × Bytes := (s.files, s.stdout.written)

section Run

variable {env : Env} {opts : Options} {L : Library} {infile : Name} {names : List Name} {s t : Sys}

/-- Where no file is searched for its format, the settings stay as they are. -/
theorem processFile_settings {r : Option ℕ} (hskip : skipsMagic opts = false)
    (h : processFile env opts L infile s = .ret r t) : t.fmt = s.fmt ∧ t.globals = s.globals := by
  have hround := processFile_cases env opts L infile s
  rw [h] at hround
  generalize hq : Outcome.ret r t = q at hround
  cases hround with
  | skipped hs =>
    cases hq
    exact ⟨rfl, rfl⟩
  | refused => cases hq
  | @opened j s' ho _ =>
    have hfinds := ho.finds
    rw [Finds, hskip, if_neg Bool.false_ne_true] at hfinds
    obtain ⟨-, hfmt, hg⟩ := hfinds
    have hset : s'.fmt = s.fmt ∧ s'.globals = s.globals :=
      ⟨ho.fmt.trans hfmt, ho.globals.trans hg⟩
    have hclose : ∀ out, (closeOutput j out s').fmt = s'.fmt ∧
        (closeOutput j out s').globals = s'.globals := by
      intro out
      unfold closeOutput
      split <;> exact ⟨rfl, rfl⟩
    have hunlink : ∀ out, (unlinkOutput j out s').fmt = s'.fmt ∧
        (unlinkOutput j out s').globals = s'.globals := by
      intro out
      unfold unlinkOutput
      split <;> exact ⟨rfl, rfl⟩
    unfold afterOpen at hq
    split at hq
    · next n w hw =>
      split at hq
      · cases hq
        exact ⟨(hunlink _).1.trans hset.1, (hunlink _).2.trans hset.2⟩
      split at hq
      all_goals
        cases hq
        exact ⟨(hclose _).1.trans hset.1, (hclose _).2.trans hset.2⟩
    · cases hq
    · cases hq

theorem runFiles_settings {n : ℕ} (hskip : skipsMagic opts = false)
    (h : runFiles env opts L names s = .ret n t) : t.fmt = s.fmt ∧ t.globals = s.globals := by
  induction names generalizing s with
  | nil =>
    cases h
    exact ⟨rfl, rfl⟩
  | cons infile names ih =>
    rw [runFiles_cons] at h
    cases hp : processFile env opts L infile s with
    | ret r u =>
      rw [hp] at h
      obtain ⟨hf, hg⟩ := processFile_settings hskip hp
      cases r with
      | none =>
        obtain ⟨hf', hg'⟩ := ih h
        exact ⟨hf'.trans hf, hg'.trans hg⟩
      | some m =>
        cases h
        exact ⟨hf, hg⟩
    | exit | diverge => rw [hp] at h; cases h

theorem runFiles_append (a b : List Name) (s : Sys) :
    runFiles env opts L (a ++ b) s =
      (runFiles env opts L a s).bind fun n =>
        if n = 0 then runFiles env opts L b else pure n := by
  induction a generalizing s with
  | nil => rfl
  | cons infile a ih =>
    rw [List.cons_append, runFiles_cons, runFiles_cons]
    cases hp : processFile env opts L infile s with
    | ret r u =>
      cases r with
      | none => exact ih u
      | some m =>
        rw [processFile_return hp]
        rfl
    | exit | diverge => rfl

theorem mainFiles_stdout (hstd : opts.stdout = false) (o : OutFile) (s : Sys) :
    mainFiles env opts L names { s with stdout := o } =
      (mainFiles env opts L names s).view fun t => { t with stdout := o } := by
  have hoverlay : ∀ r, Sys.overlay opts (cover opts names) ⟨s.files, r⟩ s =
    { s with stdout := r } := by
    intro r
    rw [Sys.overlay, Finset.piecewise_same, hstd, if_neg Bool.false_ne_true]
  have hrun := @overlay_mainFiles env opts L _ names (covers_cover opts names)
  have hself := hrun ⟨s.files, s.stdout⟩ s
  rw [hoverlay] at hself
  replace hrun := hrun ⟨s.files, o⟩ s
  rw [hoverlay] at hrun
  rw [hrun]
  -- outside the names of the run the files are as they were
  have hfiles : ∀ t, t = Sys.overlay opts (cover opts names) ⟨s.files, s.stdout⟩ t →
      Sys.overlay opts (cover opts names) ⟨s.files, o⟩ t = { t with stdout := o } := by
    intro t ht
    have hsame : (cover opts names).piecewise t.files s.files = t.files :=
      (congrArg Sys.files ht).symm
    rw [Sys.overlay, hsame, hstd, if_neg Bool.false_ne_true]
  cases hm : mainFiles env opts L names s with
  | ret n t =>
    rw [hm] at hself
    exact congrArg (Outcome.ret n) (hfiles t (Outcome.ret.inj hself).2)
  | exit n t =>
    rw [hm] at hself
    exact congrArg (Outcome.exit n) (hfiles t (Outcome.exit.inj hself).2)
  | diverge => rfl

theorem mainFiles_seen (hstd : opts.stdout = false) {o : OutFile}
    (ho : o.written = s.stdout.written) :
    (mainFiles env opts L names { s with stdout := o }).view Sys.seen =
      (mainFiles env opts L names s).view Sys.seen := by
  have hself := @mainFiles_stdout env opts L names hstd s.stdout s
  rw [mainFiles_stdout hstd]
  -- a run that puts nothing out leaves the standard output of its start
  have hkept : ∀ t : Sys, t = { t with stdout := s.stdout } →
      ({ t with stdout := o } : Sys).seen = t.seen := by
    intro t ht
    have hstdout := congrArg Sys.stdout ht
    simp only at hstdout
    simp only [Sys.seen, hstdout, ho]
  cases hm : mainFiles env opts L names s with
  | ret n t =>
    rw [hm] at hself
    exact congrArg (Outcome.ret n) (hkept t (Outcome.ret.inj hself).2)
  | exit n t =>
    rw [hm] at hself
    exact congrArg (Outcome.exit n) (hkept t (Outcome.exit.inj hself).2)
  | diverge => rfl

theorem view_seen_of_left {q r : Outcome Sys ℕ} (h : q.view Sys.left = r.view Sys.left) :
    q.view Sys.seen = r.view Sys.seen := by
  have hview : ∀ q : Outcome Sys ℕ, q.view Sys.seen =
      (q.view Sys.left).view fun p => (p.1, p.2.written) := by
    intro q
    cases q <;> rfl
  rw [hview, hview, h]

/-- **A run goes on as a new one**: over the files `a` and then `b` the program does what it does
over `a`, and if the status is 0 what it does over `b` when it is started anew. -/
theorem mainFiles_append (hstd : opts.stdout = false) (a b : List Name) (s : Sys) :
    (mainFiles env opts L (a ++ b) s).view Sys.seen =
      ((mainFiles env opts L a s).bind fun n t =>
        if n = 0 then mainFiles env opts L b (s.restart t) else .ret n t).view Sys.seen := by
  have hmain : ∀ {fmt u} names, namedFormat opts u.fmt = some fmt →
      mainFiles env opts L names u = runFiles env opts L names { u with fmt := fmt } :=
    fun names hfmt => by rw [mainFiles_eq, hfmt]
  cases hfmt : namedFormat opts s.fmt with
  | none =>
    simp only [mainFiles_eq, hfmt]
    rfl
  | some fmt =>
    rw [hmain (a ++ b) hfmt, hmain a hfmt, runFiles_append]
    cases hrun : runFiles env opts L a { s with fmt := fmt } with
    | exit | diverge => rfl
    | ret n t =>
      cases n with
      | succ n => rfl
      | zero =>
        -- the settings are those of the start, and the standard output has been flushed
        let u : Sys := { s with files := t.files, stdout := t.stdout }
        change (runFiles env opts L b t).view Sys.seen =
          (mainFiles env opts L b { u with stdout := t.stdout.reopened }).view Sys.seen
        rw [mainFiles_seen (s := u) hstd (OutFile.written_reopened t.stdout),
          hmain b (show namedFormat opts u.fmt = some fmt from hfmt)]
        have hsame : Same (SameSettings opts) t { u with fmt := fmt } :=
          ⟨⟨rfl, rfl⟩, fun hskip => by
            obtain ⟨hf, hg⟩ := runFiles_settings hskip hrun
            exact ⟨hf, hg⟩⟩
        exact view_seen_of_left ((coupled_runFiles b t _ hsame).view (fun _ _ h => h.left)
          fun m m' s t h => ⟨h.1, h.2.left⟩)

end Run

/-! ## One command after the other -/

/-- What a shell does with `line && line && …`: a new process for each command line, as long as the
status is 0. -/
def inTurn (env : Env) (con : Console) (L : Library) (s₀ : Sys) :
    List (List Name) → Sys → Option (Outcome Sys ℕ)
  | [], s => some (.ret 0 s)
  | argv :: lines, s =>
    (snzipMain env con L argv (s₀.restart s)).bind fun o => match o with
      | .ret 0 t => inTurn env con L s₀ lines t
      | o => some o

section Main

variable {env : Env} {con : Console} {L : Library} {argv0 : Name} {s s₀ : Sys}

theorem snzipMain_line (hposix : con.posix = false) {parts : List Part}
    (h : ∀ p ∈ parts, p.Ok optstring) (s : Sys) :
    snzipMain env con L (argv0 :: parts.flatMap Part.words) s =
      (readItems setOption (parts.flatMap Part.items) (progConfig (progname argv0))).map fun r =>
        match r with
        | .inl k => .exit k s
        | .inr c => runConfig env con L c (parts.flatMap Part.operands) s := by
  have hscan := scan_parts h []
  rw [List.append_nil, scan_nil] at hscan
  rw [snzipMain_eq, hposix, hscan]
  simp only [Scan.read, Scan.after, Scan.behind, List.append_nil, Option.map_some]
  cases readItems setOption (parts.flatMap Part.items) (progConfig (progname argv0)) with
  | none => rfl
  | some r => cases r <;> rfl

/-- A command line with the options `items` and at least one operand. -/
structure IsLine (items : List OptItem) (parts : List Part) : Prop where
  ok : ∀ p ∈ parts, p.Ok optstring
  items : parts.flatMap Part.items = items
  operands : parts.flatMap Part.operands ≠ []

/-- With the options read, the command lines are runs of the loop over the files. -/
theorem inTurn_config (hposix : con.posix = false) {items : List OptItem} {c : Config}
    {fmt : Format}
    (hitems : readItems setOption items (progConfig (progname argv0)) = some (.inr c))
    (hstd : c.optStdout = false) (hfmt : namedFormat c.options s₀.fmt = some fmt)
    {lines : List (List Part)} (h : ∀ l ∈ lines, IsLine items l) (s : Sys) :
    (inTurn env con L s₀ (lines.map fun l => argv0 :: l.flatMap Part.words) s).map
        (Outcome.view Sys.seen) =
      some ((mainFiles env c.options L (lines.flatMap fun l => l.flatMap Part.operands)
        { s₀.restart s with globals :=
          { s₀.globals with uncompressedSourceLen := c.uncompressedSourceLen } }).view
            Sys.seen) := by
  induction lines generalizing s with
  | nil =>
    rw [List.flatMap_nil, mainFiles_eq]
    simp only [show (s₀.restart s).fmt = s₀.fmt from rfl, hfmt]
    have hseen : (s₀.restart s).seen = s.seen := by
      simp only [Sys.seen, Sys.restart, OutFile.written_reopened]
    exact congrArg (fun p => some (Outcome.ret 0 p)) hseen.symm
  | cons l lines ih =>
    obtain ⟨hl, hlines⟩ := List.forall_mem_cons.mp h
    set u : Sys := { s₀.restart s with globals :=
      { s₀.globals with uncompressedSourceLen := c.uncompressedSourceLen } } with hu
    have hrun : runConfig env con L c (l.flatMap Part.operands) (s₀.restart s) =
        mainFiles env c.options L (l.flatMap Part.operands) u := if_neg hl.operands
    rw [List.map_cons, inTurn, snzipMain_line hposix hl.ok, hl.items, hitems, Option.map_some,
      Option.bind_some, List.flatMap_cons, mainFiles_append hstd]
    simp only [hrun]
    cases mainFiles env c.options L (l.flatMap Part.operands) u with
    | exit | diverge => rfl
    | ret n t =>
      cases n with
      | succ n => rfl
      | zero => exact ih hlines t

/-- **One run is as good as many**: on a command line with many files and without `-c` the program
does what it does on command lines with the same options and some of the files each, one after the
other, as long as the status is 0: it ends with the same status and the same files. -/
theorem snzipMain_inTurn (hposix : con.posix = false) {parts : List Part}
    (h : ∀ p ∈ parts, p.Ok optstring)
    (hstd : ∀ c, readItems setOption (parts.flatMap Part.items) (progConfig (progname argv0)) =
      some (.inr c) → c.optStdout = false)
    {lines : List (List Part)} (hne : lines ≠ [])
    (hlines : ∀ l ∈ lines, IsLine (parts.flatMap Part.items) l)
    (hoperands : lines.flatMap (fun l => l.flatMap Part.operands) = parts.flatMap Part.operands)
    (s : Sys) :
    (snzipMain env con L (argv0 :: parts.flatMap Part.words) s).map (Outcome.view Sys.seen) =
      (inTurn env con L s (lines.map fun l => argv0 :: l.flatMap Part.words) s).map
        (Outcome.view Sys.seen) := by
  obtain ⟨l, rest, rfl⟩ := List.exists_cons_of_ne_nil hne
  have hl := hlines l List.mem_cons_self
  have hfirst : ∀ o, snzipMain env con L (argv0 :: l.flatMap Part.words) (s.restart s) = o →
      inTurn env con L s ((l :: rest).map fun l => argv0 :: l.flatMap Part.words) s =
        o.bind fun o => match o with
          | .ret 0 t => inTurn env con L s (rest.map fun l => argv0 :: l.flatMap Part.words) t
          | o => some o := fun o ho => ho ▸ rfl
  have hline := @snzipMain_line env con L argv0 hposix l hl.ok (s.restart s)
  rw [hl.items] at hline
  have hseen : (s.restart s).seen = s.seen := by
    simp only [Sys.seen, Sys.restart, OutFile.written_reopened]
  rw [snzipMain_line hposix h]
  cases hitems : readItems setOption (parts.flatMap Part.items) (progConfig (progname argv0)) with
  | none =>
    rw [hitems] at hline
    rw [hfirst _ hline]
    rfl
  | some r =>
    rw [hitems] at hline
    cases r with
    | inl k =>
      rw [hfirst _ hline]
      exact congrArg (fun p => some (Outcome.exit k p)) hseen.symm
    | inr c =>
      have hops : parts.flatMap Part.operands ≠ [] := by
        rw [← hoperands, List.flatMap_cons]
        exact fun he => hl.operands (List.append_eq_nil_iff.mp he).1
      cases hfmt : namedFormat c.options s.fmt with
      | some fmt =>
        rw [inTurn_config hposix hitems (hstd c hitems) hfmt hlines, hoperands]
        simp only [Option.map_some, runConfig, if_neg hops]
        let u : Sys := { s with globals :=
          { s.globals with uncompressedSourceLen := c.uncompressedSourceLen } }
        exact congrArg some (mainFiles_seen (s := u) (hstd c hitems)
          (OutFile.written_reopened s.stdout)).symm
      | none =>
        rw [hfirst _ hline]
        simp only [Option.map_some, runConfig, if_neg hops, if_neg hl.operands, mainFiles_eq, hfmt,
          show (s.restart s).fmt = s.fmt from rfl]
        exact congrArg (fun p => some (Outcome.ret 1 p)) hseen.symm

/-- `x -tsnappy-java a b` and `x -tsnappy-java a && x b -tsnappy-java`. -/
theorem snzipMain_inTurn_two :
    let s : Sys := .initial fun _ => some [0x61#8]
    let java : Name := '-' :: 't' :: Format.snappyJava.name
    let run := (snzipMain Env.ideal quiet ⟨literalSnappy, 0⟩ [['x'], java, ['a'], ['b']] s).map
      (Outcome.view Sys.seen)
    run = (inTurn Env.ideal quiet ⟨literalSnappy, 0⟩ s [[['x'], java, ['a']], [['x'], ['b'], java]]
        s).map (Outcome.view Sys.seen) ∧
      ∃ p, run = some (.ret 0 p) ∧ p.1 (['b'] ++ '.' :: Format.snappyJava.suffix) =
        some (snappyJavaHeader ++ [0x00#8, 0x00#8, 0x00#8, 0x03#8, 0x01#8, 0x00#8, 0x61#8]) := by
  intro s java run
  let t : Part := .options [java] [.opt 't' (some Format.snappyJava.name)]
  have ht : t.Ok optstring := says_word (by decide) (by decide) (by decide)
  have ha : (Part.operand ['a']).Ok optstring := (by decide : Operand ['a'])
  have hb : (Part.operand ['b']).Ok optstring := (by decide : Operand ['b'])
  have h : ∀ p ∈ [t, .operand ['a'], .operand ['b']], p.Ok optstring := by
    simpa using ⟨ht, ha, hb⟩
  have hitems : [t, .operand ['a'], .operand ['b']].flatMap Part.items =
      [.opt 't' (some Format.snappyJava.name)] := rfl
  have hlines : ∀ l ∈ [[t, .operand ['a']], [.operand ['b'], t]],
      IsLine [.opt 't' (some Format.snappyJava.name)] l := by
    simp only [List.mem_cons, List.not_mem_nil, or_false]
    rintro l (rfl | rfl)
    · exact ⟨by simpa using ⟨ht, ha⟩, rfl, by decide⟩
    · exact ⟨by simpa using ⟨hb, ht⟩, rfl, by decide⟩
  refine ⟨snzipMain_inTurn rfl h (fun c hc => ?_) (List.cons_ne_nil _ _) hlines rfl s, ?_⟩
  · rw [hitems] at hc
    cases hc
    rfl
  · let c : Config := { progConfig ['x'] with formatName := some Format.snappyJava.name }
    have hline : snzipMain Env.ideal quiet ⟨literalSnappy, 0⟩ [['x'], java, ['a'], ['b']] s =
        some (runConfig Env.ideal quiet ⟨literalSnappy, 0⟩ c [['a'], ['b']] s) :=
      snzipMain_line rfl h s
    have hview : (runConfig Env.ideal quiet ⟨literalSnappy, 0⟩ c [['a'], ['b']] s).view
        (fun t => t.files (['b'] ++ '.' :: Format.snappyJava.suffix)) = .ret 0
          (some (snappyJavaHeader ++
            [0x00#8, 0x00#8, 0x00#8, 0x03#8, 0x01#8, 0x00#8, 0x61#8])) := by
      decide +kernel
    obtain ⟨u, hrun, hfile⟩ := Outcome.view_eq_ret.mp hview
    exact ⟨u.seen,
      congrArg (Option.map (Outcome.view Sys.seen)) (hline.trans (congrArg some hrun)), hfile⟩

end Main

end Snzip
