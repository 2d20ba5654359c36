import Mathlib.Data.List.Infix
import Snzip.Getopt
import Snzip.Termination

set_option autoImplicit false

/-!
# The whole program

`main` of `snzip.c` from the command line on: the name of the program and the options say what to
do, and then there are files to be taken one after the other, or the standard input.

* `numeral`, `strtoul`, `atoi`: the numbers of the C library;
* `Config`, `setOption`, `progConfig`, `mainStdin`, `snzipMain`: the program;
* `snzipMain_eq`: it does what its command line says;
* **`snzipMain_parts`**: options may stand anywhere; **`snzipMain_progname`**: names for options;
* **`snzipMain_readonly`**: with `-c` no file is ever changed.
-/

namespace Snzip

open CProg

/-! ## Numbers -/

/-- `isspace` in the C locale. -/
def isspace (c : Char) : Bool := c = ' ' || ('\t' ≤ c && c ≤ '\r')

/-- What `strtol` and its like find in a string: a number with its sign, and what is behind it. -/
structure Numeral where
  negative : Bool
  value : ℕ
  rest : Name
  deriving DecidableEq

/-- White space, a sign, digits. Without digits there is no number. -/
def numeral (s : Name) : Numeral :=
  let t := s.dropWhile isspace
  let u := if t.head? = some '-' ∨ t.head? = some '+' then t.tail else t
  let digits := u.takeWhile Char.isDigit
  if digits = [] then ⟨false, 0, s⟩
  else ⟨t.head? = some '-', digits.foldl (fun n c => 10 * n + (c.toNat - '0'.toNat)) 0,
    u.dropWhile Char.isDigit⟩

/-- `strtoul` and `strtoull`, to base 10. -/
def strtoul (s : Name) : BitVec 64 :=
  let n := numeral s
  if n.value ≥ 2 ^ 64 then -1#64
  else if n.negative then -BitVec.ofNat 64 n.value
  else BitVec.ofNat 64 n.value

/-- `strtol(s, NULL, 10)`, which stops at the ends of the range. -/
def strtol (s : Name) : BitVec 64 :=
  let n := numeral s
  if n.negative then -BitVec.ofNat 64 (min n.value (2 ^ 63))
  else BitVec.ofNat 64 (min n.value (2 ^ 63 - 1))

/-- `atoi`: the low 32 bits of `strtol`. -/
def atoi (s : Name) : BitVec 32 := (strtol s).setWidth 32

/-! ## Options -/

/-- The variables of `main`, and `uncompressed_source_len`. The trace changes nothing that is
modelled. The sizes of `-R` and `-W` go to `setvbuf` without a buffer, and what it makes of them is
left to the library: `Env.buffering` is any. -/
structure Config where
  optUncompress : Bool
  optKeep : Bool
  optStdout : Bool
  formatName : Option Name
  blockSize : BitVec 32
  uncompressedSourceLen : BitVec 64
  deriving DecidableEq

/-- The third argument of `getopt` in `main`. -/
def optstring : List Char :=
  ['c', 'd', 'k', 't', ':', 'h', 's', ':', 'b', ':', 'B', ':', 'R', ':', 'W', ':', 'T']

/-- The body of the loop over the options; a status for `return` and for `show_usage`. A shift by
the width of the type or more is not defined. -/
def setOption (opt : Char) (optarg : Option Name) (c : Config) : Option (ℕ ⊕ Config) :=
  match opt with
  | 'c' => some (.inr { c with optStdout := true, optKeep := true })
  | 'd' => some (.inr { c with optUncompress := true })
  | 'k' => some (.inr { c with optKeep := true })
  | 't' => some (.inr { c with formatName := optarg })
  | 'h' => some (.inl 0)
  | 's' => optarg.map fun a =>
      if (numeral a).rest = [] then .inr { c with uncompressedSourceLen := strtoul a } else .inl 1
  | 'b' => optarg.map fun a => .inr { c with blockSize := atoi a }
  | 'B' => optarg.bind fun a =>
      let n := (atoi a).toInt
      if 0 ≤ n ∧ n < 64 then some (.inr { c with blockSize := (1#64 <<< n.toNat).setWidth 32 })
      else none
  | '?' => some (.inl 1)
  -- `-R` and `-W` set the sizes of buffers, with which the library does what it likes; `-T` traces
  | _ => some (.inr c)

/-- The name of the program without its directory. -/
def progname (argv0 : Name) : Name :=
  match strrchr '/' argv0 with
  | some p => p.tail
  | none => argv0

/-- The variables before the options: the program may be called `unsnzip` or `snzcat`. -/
def progConfig (progname : Name) : Config where
  optUncompress := decide (['u', 'n'] <:+: progname) || decide (['c', 'a', 't'] <:+: progname)
  optKeep := decide (['c', 'a', 't'] <:+: progname)
  optStdout := decide (['c', 'a', 't'] <:+: progname)
  formatName := none
  blockSize := 0#32
  uncompressedSourceLen := -1#64

namespace Config

/-- What the loop over the files looks at. -/
def options (c : Config) : Options :=
  ⟨c.optUncompress, c.optKeep, c.optStdout, c.formatName, c.blockSize⟩

end Config

/-! ## The program -/

/-- What there is besides the files: the standard input, whether its reading fails at the end, its
size for `fstat`, whether the standard output is a terminal, and whether `POSIXLY_CORRECT` is set.
-/
structure Console where
  content : Bytes
  fault : Bool
  stSize : Option (BitVec 64)
  isatty : Bool
  posix : Bool

/-- `stdin`, of which nothing has been read. -/
def Console.stdin (con : Console) : InFile := ⟨con.content, con.fault, false, false⟩

/-- A codec from `inp` to the standard output. -/
def onStdout (m : Io ℕ) (inp : InFile) : Prog Sys ℕ := fun s =>
  match m ⟨inp, s.stdout⟩ with
  | .ret n w => .ret n { s with stdout := w.out }
  | .exit n w => .exit n { s with stdout := w.out }
  | .diverge => .diverge

/-- `main` without file arguments, after the options have been read. -/
def mainStdin (con : Console) (opts : Options) (L : Library) : Prog Sys ℕ := fun s =>
  match namedFormat opts s.fmt with
  | none => .ret 1 s
  | some fmt =>
    if opts.uncompress then
      if opts.formatName.isNone then
        match findStreamFormatByFileHeader ⟨con.stdin, [], s.globals⟩ with
        | .ret none p => .ret 1 { s with globals := p.globals }
        | .ret (some fmt) p =>
          onStdout (fmt.uncompress L p.globals true) p.inp { s with globals := p.globals }
        | .exit n p => .exit n { s with globals := p.globals }
        | .diverge => .diverge
      else onStdout (fmt.uncompress L s.globals false) con.stdin s
    else if con.isatty then .ret 1 s
    else onStdout (fmt.compress L s.globals con.stSize (sizeOfInt opts.blockSize)) con.stdin s

/-- `main` after the options have been read. -/
def runConfig (env : Env) (con : Console) (L : Library) (c : Config) (operands : List Name) :
    Prog Sys ℕ := fun s =>
  let s := { s with globals := { s.globals with uncompressedSourceLen := c.uncompressedSourceLen } }
  if operands = [] then mainStdin con c.options L s
  else mainFiles env c.options L operands s

/-- `main`; `none` where the command line makes it do what is not defined. -/
def snzipMain (env : Env) (con : Console) (L : Library) (argv : List Name) (s : Sys) :
    Option (Outcome Sys ℕ) :=
  match argv with
  | [] => none
  | argv0 :: args =>
    (optionLoop con.posix optstring setOption (weight args + 1) (.initial argv)
      (progConfig (progname argv0))).map fun r => match r with
        | .inl k => .exit k s
        | .inr (c, operands) => runConfig env con L c operands s

section Main

variable {env : Env} {con : Console} {L : Library} {argv0 : Name} {args : List Name} {s : Sys}

/-- What the program does when the command line has been read. -/
def afterOptions (env : Env) (con : Console) (L : Library) (s : Sys)
    (r : ℕ ⊕ (Config × List Name)) : Outcome Sys ℕ :=
  match r with
  | .inl k => .exit k s
  | .inr (c, operands) => runConfig env con L c operands s

/-- **The program does what its command line says.** -/
theorem snzipMain_eq (env : Env) (con : Console) (L : Library) (argv0 : Name) (args : List Name)
    (s : Sys) :
    snzipMain env con L (argv0 :: args) s =
      ((scan optstring con.posix args).read setOption (progConfig (progname argv0))).map
        (afterOptions env con L s) := by
  have hbad : ∀ (a : Option Name) (c c' : Config), setOption '?' a c ≠ some (.inr c') := by
    intro a c c' h
    cases h
  rw [snzipMain, optionLoop_eq hbad (by decide) (by decide) argv0 args _ (Nat.lt_succ_self _)]
  rfl

/-- Nothing to be read, and not a terminal. -/
def quiet : Console := ⟨[], false, none, false, false⟩

/-! ## Words in any order -/

/-- **Options may stand anywhere**: two command lines with the same options in the same order, and
the same operands in the same order, make the program do the same. -/
theorem snzipMain_parts (hposix : con.posix = false) {parts parts' : List Part}
    (h : ∀ p ∈ parts, p.Ok optstring) (h' : ∀ p ∈ parts', p.Ok optstring)
    (hitems : parts.flatMap Part.items = parts'.flatMap Part.items)
    (hoperands : parts.flatMap Part.operands = parts'.flatMap Part.operands) (args : List Name) :
    snzipMain env con L (argv0 :: (parts.flatMap Part.words ++ args)) s =
      snzipMain env con L (argv0 :: (parts'.flatMap Part.words ++ args)) s := by
  rw [snzipMain_eq, snzipMain_eq, hposix, scan_parts h, scan_parts h', hitems, hoperands]

/-- `a -k -dc` and `-k -d -c a`. -/
theorem snzipMain_parts_two :
    let s : Sys := .initial fun _ => some [0x61#8]
    snzipMain Env.ideal quiet ⟨literalSnappy, 0⟩ [['x'], ['a'], ['-', 'k'], ['-', 'd', 'c']] s =
      snzipMain Env.ideal quiet ⟨literalSnappy, 0⟩
        [['x'], ['-', 'k'], ['-', 'd'], ['-', 'c'], ['a']] s := by
  intro s
  let k : Part := .options [['-', 'k']] [.opt 'k' none]
  let d : Part := .options [['-', 'd']] [.opt 'd' none]
  let c : Part := .options [['-', 'c']] [.opt 'c' none]
  let dc : Part := .options [['-', 'd', 'c']] [.opt 'd' none, .opt 'c' none]
  have hk : k.Ok optstring := says_word (by decide) (by decide) (by decide)
  have hd : d.Ok optstring := says_word (by decide) (by decide) (by decide)
  have hc : c.Ok optstring := says_word (by decide) (by decide) (by decide)
  have hdc : dc.Ok optstring := says_word (by decide) (by decide) (by decide)
  have ha : (Part.operand ['a']).Ok optstring := (by decide : Operand ['a'])
  have h : ∀ p ∈ [.operand ['a'], k, dc], p.Ok optstring := by
    simpa using ⟨ha, hk, hdc⟩
  have h' : ∀ p ∈ [k, d, c, .operand ['a']], p.Ok optstring := by
    simpa using ⟨hk, hd, hc, ha⟩
  exact snzipMain_parts rfl h h' rfl rfl []

/-- **Operands in front of a double hyphen are passed over**, and the options there are not. -/
theorem snzipMain_stop (hposix : con.posix = false) {parts : List Part}
    (h : ∀ p ∈ parts, p.Ok optstring) (args : List Name) :
    snzipMain env con L (argv0 :: (parts.flatMap Part.words ++ ['-', '-'] :: args)) s =
      (readItems setOption (parts.flatMap Part.items) (progConfig (progname argv0))).map fun r =>
        match r with
        | .inl k => .exit k s
        | .inr c => runConfig env con L c args s := by
  rw [snzipMain_eq, hposix, scan_parts h, scan_stop]
  simp only [Scan.read, Scan.after, Scan.behind, List.append_nil, if_true]
  cases readItems setOption (parts.flatMap Part.items) (progConfig (progname argv0)) with
  | none => rfl
  | some r => cases r <;> rfl

/-- `a -k -- -d`. -/
theorem snzipMain_stop_one :
    let s : Sys := .initial fun _ => some [0x61#8]
    snzipMain Env.ideal quiet ⟨literalSnappy, 0⟩ [['x'], ['a'], ['-', 'k'], ['-', '-'], ['-', 'd']]
        s =
      some (runConfig Env.ideal quiet ⟨literalSnappy, 0⟩
        { progConfig ['x'] with optKeep := true } [['-', 'd']] s) := by
  intro s
  let k : Part := .options [['-', 'k']] [.opt 'k' none]
  have hk : k.Ok optstring := says_word (by decide) (by decide) (by decide)
  have ha : (Part.operand ['a']).Ok optstring := (by decide : Operand ['a'])
  have h : ∀ p ∈ [.operand ['a'], k], p.Ok optstring := by
    simpa using ⟨ha, hk⟩
  exact snzipMain_stop rfl h [['-', 'd']]

/-! ## The name of the program -/

/-- The options that the name of the program stands for. -/
def nameOptions (p : Name) : List Name :=
  if ['c', 'a', 't'] <:+: p then [['-', 'c', 'd']]
  else if ['u', 'n'] <:+: p then [['-', 'd']]
  else []

/-- **A name is as good as options**: `snzcat` is `snzip -cd`, and `unsnzip` is `snzip -d`. -/
theorem snzipMain_progname {argv0' : Name} (hun : ¬ ['u', 'n'] <:+: progname argv0')
    (hcat : ¬ ['c', 'a', 't'] <:+: progname argv0') :
    snzipMain env con L (argv0 :: args) s =
      snzipMain env con L (argv0' :: (nameOptions (progname argv0) ++ args)) s := by
  rw [snzipMain_eq, snzipMain_eq]
  congr 1
  have hflagc : optKind optstring 'c' = .flag := by decide
  have hflagd : optKind optstring 'd' = .flag := by decide
  unfold nameOptions
  by_cases hc : ['c', 'a', 't'] <:+: progname argv0
  · rw [if_pos hc, List.singleton_append, scan_word (by simp) (by simp),
      scanWord_flag hflagc, scanWord_flag hflagd, scanWord_nil,
      Scan.read_opt]
    simp [setOption, Scan.read_opt, progConfig, hun, hcat, hc]
  by_cases hu : ['u', 'n'] <:+: progname argv0
  · rw [if_neg hc, if_pos hu, List.singleton_append, scan_word (by simp) (by simp),
      scanWord_flag hflagd, scanWord_nil, Scan.read_opt]
    simp [setOption, progConfig, hun, hcat, hc, hu]
  · rw [if_neg hc, if_neg hu]
    simp [progConfig, hun, hcat, hc, hu]

/-- `snzcat` and `snzip`. -/
theorem snzipMain_progname_cat :
    let s : Sys := .initial fun _ => some [0x61#8]
    snzipMain Env.ideal quiet ⟨literalSnappy, 0⟩ [['s', 'n', 'z', 'c', 'a', 't'], ['a']] s =
      snzipMain Env.ideal quiet ⟨literalSnappy, 0⟩
        [['s', 'n', 'z', 'i', 'p'], ['-', 'c', 'd'], ['a']] s := by
  intro s
  have hun : ¬ ['u', 'n'] <:+: progname ['s', 'n', 'z', 'i', 'p'] := by decide
  have hcat : ¬ ['c', 'a', 't'] <:+: progname ['s', 'n', 'z', 'i', 'p'] := by decide
  exact snzipMain_progname hun hcat

/-! ## Files that are kept -/

/-- The command line asks for the standard output. -/
def AsksStdout (posix : Bool) (argv0 : Name) (args : List Name) : Prop :=
  ['c', 'a', 't'] <:+: progname argv0 ∨ .opt 'c' none ∈ (scan optstring posix args).items

theorem setOption_output {c c' : Config} {o : Char} {a : Option Name}
    (h : setOption o a c = some (.inr c')) :
    c'.optStdout = (c.optStdout || o = 'c') ∧ c'.optKeep = (c.optKeep || o = 'c' || o = 'k') := by
  unfold setOption at h
  split at h
  · cases h; simp
  · cases h; simp
  · cases h; simp
  · cases h; simp
  · cases h
  · obtain ⟨x, -, hx⟩ := Option.map_eq_some_iff.mp h
    split at hx <;> cases hx
    simp
  · obtain ⟨x, -, hx⟩ := Option.map_eq_some_iff.mp h
    cases hx
    simp
  · obtain ⟨x, -, hx⟩ := Option.bind_eq_some_iff.mp h
    simp only at hx
    split at hx <;> cases hx
    simp
  · cases h
  · next hc _ hk _ _ _ _ _ _ =>
    cases h
    simp_all

theorem setOption_stdout {c c' : Config} {o : Char} {a : Option Name}
    (h : setOption o a c = some (.inr c')) (hc : c.optStdout = true → c.optKeep = true) :
    (c'.optStdout = true → c'.optKeep = true) ∧
      (c.optStdout = true ∨ o = 'c' → c'.optStdout = true) := by
  obtain ⟨hstd, hkeep⟩ := setOption_output h
  rw [hstd, hkeep]
  by_cases ho : o = 'c' <;> simp_all

theorem readItems_stdout {is : List OptItem} {c c' : Config}
    (h : readItems setOption is c = some (.inr c')) (hc : c.optStdout = true → c.optKeep = true) :
    (c'.optStdout = true → c'.optKeep = true) ∧
      (c.optStdout = true ∨ .opt 'c' none ∈ is → c'.optStdout = true) := by
  induction is generalizing c with
  | nil =>
    cases h
    exact ⟨hc, fun h => h.resolve_right (by simp)⟩
  | cons i is ih =>
    cases i with
    | bad d => cases h
    | opt d a =>
      rw [readItems] at h
      obtain ⟨r, hr, h⟩ := Option.bind_eq_some_iff.mp h
      cases r with
      | inl k => cases h
      | inr c₁ =>
        obtain ⟨hkeep, hstd⟩ := setOption_stdout hr hc
        obtain ⟨hkeep', hstd'⟩ := ih h hkeep
        refine ⟨hkeep', fun ho => hstd' ?_⟩
        rcases ho with ho | ho
        · exact Or.inl (hstd (Or.inl ho))
        rcases List.mem_cons.mp ho with ho | ho
        · cases ho
          exact Or.inl (hstd (Or.inr rfl))
        · exact Or.inr ho

theorem files_onStdout (m : Io ℕ) (inp : InFile) {k : ℕ} {s t : Sys}
    (h : ending (onStdout m inp s) = some (k, t)) : t.files = s.files := by
  unfold onStdout at h
  split at h <;> cases h <;> rfl

theorem files_mainStdin (opts : Options) {k : ℕ} {t : Sys}
    (h : ending (mainStdin con opts L s) = some (k, t)) : t.files = s.files := by
  unfold mainStdin at h
  split at h
  · cases h
    rfl
  split at h
  · split at h
    · split at h
      · cases h
        rfl
      · exact (files_onStdout _ _ h).trans rfl
      · cases h
        rfl
      · cases h
    · exact files_onStdout _ _ h
  split at h
  · cases h
    rfl
  · exact files_onStdout _ _ h

/-- **With `-c` no file is ever changed**, made or deleted, whatever else is on the command line,
whatever the files hold, and however the program ends. -/
theorem snzipMain_readonly {out : Outcome Sys ℕ} {k : ℕ} {t : Sys}
    (hrun : snzipMain env con L (argv0 :: args) s = some out) (hend : ending out = some (k, t))
    (hc : AsksStdout con.posix argv0 args) : t.files = s.files := by
  rw [snzipMain_eq] at hrun
  obtain ⟨r, hr, rfl⟩ := Option.map_eq_some_iff.mp hrun
  cases r with
  | inl k =>
    cases hend
    rfl
  | inr q =>
    obtain ⟨c, operands⟩ := q
    obtain ⟨r, hitems, hr⟩ := Option.bind_eq_some_iff.mp hr
    cases r with
    | inl k => cases hr
    | inr c' =>
      obtain ⟨ops, -, hq⟩ := Option.map_eq_some_iff.mp hr
      cases hq
      obtain ⟨hkeep, hstd⟩ := readItems_stdout hitems fun h => h
      have hstd : c.optStdout = true := by
        refine hstd (hc.imp_left fun h => ?_)
        simpa [progConfig] using h
      simp only [afterOptions, runConfig] at hend
      split at hend
      · exact (files_mainStdin c.options hend).trans rfl
      · funext i
        cases footprint_of_ending hend i with
        | same h => exact h
        | deleted hk => exact absurd (hk.symm.trans (hkeep hstd)) Bool.false_ne_true
        | output ho => exact absurd (ho.symm.trans hstd) Bool.false_ne_true

/-- `a -t snappy-java -c`, where `a` has one byte. -/
theorem snzipMain_readonly_one :
    ∃ out k t, snzipMain Env.ideal quiet ⟨literalSnappy, 0⟩
        [['x'], ['a'], ['-', 't'], Format.snappyJava.name, ['-', 'c']] besides = some out ∧
      ending out = some (k, t) ∧ t.files = besides.files := by
  have hscan : scan optstring quiet.posix
      [['a'], ['-', 't'], Format.snappyJava.name, ['-', 'c']] =
        ⟨[.opt 't' (some Format.snappyJava.name), .opt 'c' none], some [['a']], false⟩ := by
    have ht : optKind optstring 't' = .required := by decide
    have hk : optKind optstring 'c' = .flag := by decide
    rw [show quiet.posix = false from rfl, scan_operand (by decide),
      scan_word (by decide) (by decide), scanWord_separate ht, scan_word (by decide) (by decide),
      scanWord_flag hk, scanWord_nil, scan_nil]
    rfl
  let c : Config := { progConfig ['x'] with
    optStdout := true, optKeep := true, formatName := some Format.snappyJava.name }
  have hrun : snzipMain Env.ideal quiet ⟨literalSnappy, 0⟩
      [['x'], ['a'], ['-', 't'], Format.snappyJava.name, ['-', 'c']] besides =
        some (runConfig Env.ideal quiet ⟨literalSnappy, 0⟩ c [['a']] besides) := by
    rw [snzipMain_eq, hscan]
    rfl
  obtain ⟨k, t, hfiles, -⟩ := runFiles_terminates (s := { besides with
    fmt := .snappyJava, globals := { Globals.initial with uncompressedSourceLen := -1#64 } })
    Env.ideal c.options ⟨literalSnappy, 0⟩ [['a']] (by decide)
  have hend : ending (runConfig Env.ideal quiet ⟨literalSnappy, 0⟩ c [['a']] besides) =
      some (k, t) := by
    rw [← hfiles]
    have hfmt : namedFormat c.options .framing2 = some .snappyJava := by decide
    simp only [runConfig, mainFiles_eq, besides, Sys.initial, hfmt]
    rfl
  have hc : AsksStdout quiet.posix ['x']
      [['a'], ['-', 't'], Format.snappyJava.name, ['-', 'c']] := by
    rw [AsksStdout, hscan]
    decide
  exact ⟨_, k, t, hrun, hend, snzipMain_readonly hrun hend hc⟩

end Main

end Snzip
