import Snzip.Lib.ShortOptions
import Snzip.StreamFormat

set_option autoImplicit false

/-!
# The reader of the command line

`ya_getopt` of `win32/ya_getopt.c` gives one option at each call. It looks for options behind the
operands too, and at the next call it moves the operands behind the options that it has read.

* `Getopt`, `rotate`, `yaGetoptInternal`, `yaGetoptShortopts`: the reader, without long options;
* `rotate_eq`: the words are moved as a whole; `Pending`, `AtOption`: the state between two calls;
* **`optionLoop_eq`**: calls up to the end read what the command line says.
-/

namespace Snzip

open CProg

/-- The variables of `ya_getopt.c`, and the words of the command line, which are moved. -/
structure Getopt where
  argv : List Name
  optarg : Option Name
  optind : ℕ
  optopt : Char
  charidx : ℕ
  start : ℕ
  stop : ℕ

/-- At the start of the program. -/
def Getopt.initial (argv : List Name) : Getopt := ⟨argv, none, 1, '?', 1, 0, 0⟩

/-- The character that ends a string of C. -/
def nul : Char := Char.ofNat 0

/-- `arg[i]`, which is `none` for the zero at the end; nothing is to be read behind that. -/
def charAt (arg : Name) (i : ℕ) : Option (Option Char) :=
  if i ≤ arg.length then some arg[i]? else none

/-! ## Words that are moved -/

/-- `for (i = end; i < last_pos; i++) argv[i] = argv[i + 1];`, with the number of passes. -/
def shiftDown : ℕ → ℕ → List Name → List Name
  | 0, _, argv => argv
  | n + 1, i, argv => shiftDown n (i + 1) (argv.set i (argv.getD (i + 1) []))

/-- The word at `pos` is put at `last`, and those behind it move up. -/
def moveBack (pos last : ℕ) (argv : List Name) : List Name :=
  (shiftDown (last - pos) pos argv).set last (argv.getD pos [])

/-- `while (start < end--)`. -/
def rotate (start : ℕ) : ℕ → ℕ → List Name → List Name × ℕ
  | 0, _, argv => (argv, 0)
  | e + 1, last, argv =>
    if start < e + 1 then rotate start e (last - 1) (moveBack e last argv) else (argv, e)

/-- The operands from `start` to `stop` are moved behind the options that follow them. -/
def Getopt.permute (g : Getopt) : Getopt :=
  if g.charidx = 1 ∧ g.start ≠ 0 then
    let r := rotate g.start g.stop (g.optind - 1) g.argv
    { g with argv := r.1, stop := r.2, optind := g.optind - (g.stop - g.start), start := 0 }
  else g

/-! ## Calls -/

/-- `optstarts`. -/
def optstarts (opt : Char) : List Char → Bool
  | [] => false
  | o :: os => if o = ':' ∨ o = '+' ∨ o = '-' then o = opt || optstarts opt os else false

/-- The options without what may be in front of them. -/
def skipMode : List Char → List Char
  | [] => []
  | o :: os => if o = '+' ∨ o = '-' ∨ o = ':' then os else o :: os

/-- The rest of the options from `opt` on. -/
def findOpt (opt : Option Char) (os : List Char) : List Char :=
  match opt with
  | none => []
  | some c => os.dropWhile (· ≠ c)

/-- `ya_getopt_shortopts`, without `long_only`; `none` where it reads behind the end of a word. -/
def yaGetoptShortopts (optstring : List Char) (g : Getopt) : Option (Char × Getopt) := do
  let arg ← g.argv[g.optind]?
  let opt ← charAt arg g.charidx
  let next := charAt arg (g.charidx + 1)
  let opt' := opt.getD nul
  match findOpt opt (skipMode optstring) with
  | [] =>
    let g := { g with optarg := none, optopt := opt', charidx := g.charidx + 1 }
    if (← next) = none then
      return ('?', { g with optind := g.optind + 1, charidx := 1 })
    else return ('?', g)
  | _ :: os =>
    if os.head? = some ':' then
      if (← next) = none then
        let g := { g with optind := g.optind + 1 }
        if os.tail.head? = some ':' then
          return (opt', { g with optarg := none, charidx := 1 })
        else if g.optind = g.argv.length then
          return (if optstarts ':' optstring then ':' else '?',
            { g with optarg := none, optopt := opt' })
        else return (opt', { g with
          optarg := some (← g.argv[g.optind]?), optind := g.optind + 1, charidx := 1 })
      else return (opt', { g with
        optarg := some (arg.drop (g.charidx + 1)), optind := g.optind + 1, charidx := 1 })
    else if (← next) = none then
      return (opt', { g with optarg := none, charidx := 1, optind := g.optind + 1 })
    else return (opt', { g with optarg := none, charidx := g.charidx + 1 })

/-- The first word from `i` on that starts with a hyphen. -/
def findWord (argv : List Name) (i : ℕ) : Option ℕ :=
  ((argv.drop i).findIdx? fun a => a.head? = some '-').map (i + ·)

/-- The operands that stand where an option may be: the option behind them, or the value that is
returned. -/
def passOperands (posix : Bool) (optstring : List Char) (arg : Name) (g : Getopt) :
    Option Char × Getopt ⊕ Getopt :=
  if arg.head? = some '-' then .inr g
  else if optstring.head? = some '-' then
    .inl (some (Char.ofNat 1), { g with optarg := some arg, optind := g.optind + 1, start := 0 })
  else if optstring.head? ≠ some '+' ∧ posix = false then
    match findWord g.argv (g.optind + 1) with
    | none => .inl (none, { g with start := g.optind, optarg := none })
    | some i => .inr { g with start := g.optind, stop := i, optind := i }
  else .inl (none, { g with optarg := none })

/-- The call, when the operands have been moved. -/
def getoptWord (posix : Bool) (optstring : List Char) (g : Getopt) :
    Option (Option Char × Getopt) :=
  if g.optind ≥ g.argv.length then some (none, { g with optarg := none })
  else if g.charidx = 1 then
    match passOperands posix optstring (g.argv.getD g.optind []) g with
    | .inl r => some r
    | .inr g =>
      if g.argv[g.optind]? = some ['-', '-'] then some (none, { g with optind := g.optind + 1 })
      else (yaGetoptShortopts optstring g).map fun r => (some r.1, r.2)
  else (yaGetoptShortopts optstring g).map fun r => (some r.1, r.2)

/-- `ya_getopt_internal`, without long options; the value `none` is -1. With `posix` the variable
`POSIXLY_CORRECT` is set. -/
def yaGetoptInternal (posix : Bool) (optstring : List Char) (g : Getopt) :
    Option (Option Char × Getopt) :=
  let g := if g.optopt = '?' then { g with optopt := nul } else g
  getoptWord posix optstring g.permute

/-- `ya_getopt`. -/
def yaGetopt (posix : Bool) (optstring : List Char) (g : Getopt) :
    Option (Option Char × Getopt) :=
  yaGetoptInternal posix optstring g

/-- `while ((opt = getopt(argc, argv, optstring)) != -1)`, with a body that goes on or ends with a
status, and then the operands. The number of passes is bounded. -/
def optionLoop {σ : Type} (posix : Bool) (optstring : List Char)
    (body : Char → Option Name → σ → Option (ℕ ⊕ σ)) :
    ℕ → Getopt → σ → Option (ℕ ⊕ (σ × List Name))
  | 0, _, _ => none
  | n + 1, g, s => do
    let (opt, g) ← yaGetopt posix optstring g
    match opt with
    | none => return .inr (s, g.argv.drop g.optind)
    | some c =>
      match ← body c g.optarg s with
      | .inl k => return .inl k
      | .inr s => optionLoop posix optstring body n g s

/-! ## Moving words -/

section Rotate

theorem shiftDown_eq (cur : List Name) (pre : List Name) (o : Name) (rest : List Name) :
    ∃ x, shiftDown cur.length pre.length (pre ++ o :: (cur ++ rest)) =
      pre ++ (cur ++ x :: rest) := by
  induction cur generalizing pre o with
  | nil => exact ⟨o, rfl⟩
  | cons c cur ih =>
    have hget : (pre ++ o :: (c :: cur ++ rest)).getD (pre.length + 1) [] = c := by simp
    have hset : (pre ++ o :: (c :: cur ++ rest)).set pre.length c =
        (pre ++ [c]) ++ c :: (cur ++ rest) := by simp
    obtain ⟨x, hx⟩ := ih (pre ++ [c]) c
    refine ⟨x, ?_⟩
    rw [List.length_cons, shiftDown, hget, hset]
    simpa using hx

/-- **One word is put behind others.** -/
theorem moveBack_eq (pre : List Name) (o : Name) (cur rest : List Name) :
    moveBack pre.length (pre.length + cur.length) (pre ++ o :: (cur ++ rest)) =
      pre ++ (cur ++ o :: rest) := by
  obtain ⟨x, hx⟩ := shiftDown_eq cur pre o rest
  rw [moveBack, Nat.add_sub_cancel_left, hx]
  simp

/-- **The operands are put behind the options**, in the order that they have. -/
theorem rotate_eq {pre cur : List Name} (hpre : pre ≠ []) (hcur : cur ≠ []) (ops rest : List Name) :
    rotate pre.length (pre.length + ops.length) (pre.length + ops.length + cur.length - 1)
      (pre ++ (ops ++ (cur ++ rest))) = (pre ++ (cur ++ (ops ++ rest)), pre.length - 1) := by
  have hpre := List.length_pos_iff.mpr hpre
  have hcur := List.length_pos_iff.mpr hcur
  induction ops using List.reverseRecOn generalizing rest with
  | nil =>
    obtain ⟨e, he⟩ := Nat.exists_eq_succ_of_ne_zero hpre.ne'
    simp [he, rotate]
  | append_singleton ops o ih =>
    have hmove := moveBack_eq (pre ++ ops) o cur rest
    have hlast : pre.length + (ops ++ [o]).length + cur.length - 1 =
        (pre ++ ops).length + cur.length := by
      simp only [List.length_append, List.length_singleton]
      omega
    have hargv : pre ++ (ops ++ [o] ++ (cur ++ rest)) =
      (pre ++ ops) ++ o :: (cur ++ rest) := by simp
    rw [hlast, hargv, @List.length_append _ ops, List.length_singleton, ← Nat.add_assoc, rotate,
      if_pos (by omega), ← List.length_append, hmove, List.length_append]
    have := ih (o :: rest)
    simpa using this

end Rotate

/-! ## Between two calls -/

/-- The words `pre` have been read, the operands `ops` are still in front of the options `cur` that
have been read since, and `args` are to come. -/
structure Pending (pre ops cur args : List Name) (g : Getopt) : Prop where
  argv : g.argv = pre ++ (ops ++ (cur ++ args))
  optind : g.optind = pre.length + ops.length + cur.length
  ne_nil : pre ≠ []
  operands : ∀ o ∈ ops, Operand o
  marked : ops = [] ∧ g.start = 0 ∨
    ops ≠ [] ∧ g.start = pre.length ∧ g.stop = pre.length + ops.length

section Pending

variable {posix : Bool} {optstring : List Char} {pre ops cur args : List Name} {g : Getopt}

theorem Pending.initial (name : Name) (args : List Name) :
    Pending [name] [] [] args (.initial (name :: args)) :=
  ⟨rfl, rfl, List.cons_ne_nil _ _, by simp, Or.inl ⟨rfl, rfl⟩⟩

/-- **At the next call** the operands are behind the options, and they are to be read again. -/
theorem Pending.permute (h : Pending pre ops cur args g) (hidx : g.charidx = 1)
    (hcur : ops ≠ [] → cur ≠ []) :
    Pending (pre ++ cur) [] [] (ops ++ args) g.permute ∧ g.permute.charidx = 1 := by
  have hpre : pre ++ cur ≠ [] := fun h0 => h.ne_nil (List.append_eq_nil_iff.mp h0).1
  unfold Getopt.permute
  rcases h.marked with ⟨rfl, hstart⟩ | ⟨hops, hstart, hstop⟩
  · rw [if_neg fun hc => hc.2 hstart]
    refine ⟨⟨?_, ?_, hpre, by simp, Or.inl ⟨rfl, hstart⟩⟩, hidx⟩
    · rw [h.argv]
      simp
    · rw [h.optind]
      simp
  · have hlen := List.length_pos_iff.mpr h.ne_nil
    rw [if_pos ⟨hidx, by omega⟩]
    have hrotate := rotate_eq h.ne_nil (hcur hops) ops args
    rw [← h.argv, ← h.optind, ← hstop, ← hstart] at hrotate
    simp only [hrotate]
    refine ⟨⟨?_, ?_, hpre, by simp, Or.inl ⟨rfl, rfl⟩⟩, hidx⟩
    · simp
    · simp only [h.optind, hstart, hstop, List.length_append, List.length_nil]
      omega

theorem Pending.drop (h : Pending pre ops cur args g) : g.argv.drop g.optind = args := by
  rw [h.argv, h.optind, ← List.append_assoc, ← List.append_assoc, ← List.length_append,
    ← List.length_append, List.drop_left]

theorem Pending.get (h : Pending pre ops [] args g) (i : ℕ) : g.argv[g.optind + i]? = args[i]? := by
  rw [h.argv, h.optind, List.nil_append, ← List.append_assoc, List.getElem?_append_right] <;> simp

theorem Pending.length (h : Pending pre ops [] args g) :
    g.argv.length = g.optind + args.length := by
  rw [h.argv, h.optind]
  simp
  omega

theorem Pending.next {w : Name} {more rest : List Name}
    (h : Pending pre ops [] (w :: (more ++ rest)) g)
    {g' : Getopt} (hargv : g'.argv = g.argv) (hoptind : g'.optind = g.optind + 1 + more.length)
    (hstart : g'.start = g.start) (hstop : g'.stop = g.stop) :
    Pending pre ops (w :: more) rest g' := by
  refine ⟨?_, ?_, h.ne_nil, h.operands, ?_⟩
  · rw [hargv, h.argv]
    simp
  · rw [hoptind, h.optind]
    simp only [List.length_nil, List.length_cons]
    omega
  · rw [hstart, hstop]
    exact h.marked

end Pending

/-! ## One option -/

section Shortopts

variable {os : List Char} {pre ops args : List Name} {u : Name} {c : Char} {cs : List Char}
  {g : Getopt}

/-- The options do not begin with a mode. -/
def Plain (os : List Char) : Prop := skipMode os = os ∧ os.head? ≠ some '-' ∧ os.head? ≠ some '+'

instance (os : List Char) : Decidable (Plain os) := inferInstanceAs (Decidable (_ ∧ _ ∧ _))

/-- The reader is at the character `c` of a word, behind `u` and in front of `cs`. -/
structure AtOption (pre ops : List Name) (u : Name) (c : Char) (cs : List Char) (args : List Name)
    (g : Getopt) : Prop where
  pending : Pending pre ops [] ((u ++ c :: cs) :: args) g
  charidx : g.charidx = u.length

namespace AtOption

theorem get (h : AtOption pre ops u c cs args g) : g.argv[g.optind]? = some (u ++ c :: cs) :=
  h.pending.get 0

theorem char (h : AtOption pre ops u c cs args g) :
    charAt (u ++ c :: cs) g.charidx = some (some c) := by
  rw [charAt, h.charidx, if_pos (by simp)]
  simp

theorem next (h : AtOption pre ops u c cs args g) :
    charAt (u ++ c :: cs) (g.charidx + 1) = some cs.head? := by
  rw [charAt, h.charidx, if_pos (by simp)]
  simp [List.getElem?_append_right, List.head?_eq_getElem?]

theorem drop (h : AtOption pre ops u c cs args g) : (u ++ c :: cs).drop (g.charidx + 1) = cs := by
  rw [h.charidx, List.drop_append, List.drop_eq_nil_of_le (Nat.le_succ _)]
  simp

theorem findOpt_eq (hos : Plain os) :
    findOpt (some c) (skipMode os) = os.dropWhile (· ≠ c) := by
  rw [hos.1]
  rfl

/-- **An unknown option.** -/
theorem invalid (h : AtOption pre ops u c cs args g) (hos : Plain os)
    (hk : optKind os c = .invalid) :
    ∃ g', yaGetoptShortopts os g = some ('?', g') ∧ g'.optarg = none := by
  have hd : os.dropWhile (· ≠ c) = [] := by
    unfold optKind at hk
    split at hk
    · assumption
    · split at hk
      · split at hk <;> cases hk
      · cases hk
  unfold yaGetoptShortopts
  simp only [h.get, h.char, h.next, findOpt_eq hos, hd, Option.bind_eq_bind, Option.bind_some]
  split <;> exact ⟨_, rfl, rfl⟩

theorem flag (h : AtOption pre ops u c cs args g) (hos : Plain os) (hk : optKind os c = .flag) :
    yaGetoptShortopts os g = some (c, if cs = [] then
      { g with optarg := none, charidx := 1, optind := g.optind + 1 }
      else { g with optarg := none, charidx := g.charidx + 1 }) := by
  have hvalid : optKind os c ≠ .invalid := by rw [hk]; decide
  obtain ⟨o, os', hd, hkind⟩ := optKind_eq hvalid
  have hcolon : os'.head? ≠ some ':' := by
    intro hcolon
    rw [hk, if_pos hcolon] at hkind
    split at hkind <;> cases hkind
  unfold yaGetoptShortopts
  simp only [h.get, h.char, h.next, findOpt_eq hos, hd, Option.bind_eq_bind, Option.bind_some,
    if_neg hcolon, List.head?_eq_none_iff]
  split <;> rfl

/-- **An argument in the same word**, if there may be one. -/
theorem attached (h : AtOption pre ops u c cs args g) (hos : Plain os)
    (hk : optKind os c = .optional ∨ optKind os c = .required) (hcs : cs ≠ []) :
    yaGetoptShortopts os g =
      some (c, { g with optarg := some cs, optind := g.optind + 1, charidx := 1 }) := by
  have hvalid : optKind os c ≠ .invalid := by rcases hk with hk | hk <;> simp [hk]
  obtain ⟨o, os', hd, hkind⟩ := optKind_eq hvalid
  have hcolon : os'.head? = some ':' := by
    by_contra hcolon
    rw [if_neg hcolon] at hkind
    rcases hk with hk | hk <;> rw [hk] at hkind <;> cases hkind
  have hne : ¬ cs.head? = none := by rwa [List.head?_eq_none_iff]
  unfold yaGetoptShortopts
  simp only [h.get, h.char, h.next, h.drop, findOpt_eq hos, hd, Option.bind_eq_bind,
    Option.bind_some, if_pos hcolon, if_neg hne]
  rfl

theorem noArgument (h : AtOption pre ops u c [] args g) (hos : Plain os)
    (hk : optKind os c = .optional) :
    yaGetoptShortopts os g =
      some (c, { g with optarg := none, optind := g.optind + 1, charidx := 1 }) := by
  have hvalid : optKind os c ≠ .invalid := by rw [hk]; decide
  obtain ⟨o, os', hd, hkind⟩ := optKind_eq hvalid
  rw [hk] at hkind
  split at hkind
  · next hcolon =>
    split at hkind
    · next hcolon' =>
      unfold yaGetoptShortopts
      simp only [h.get, h.char, h.next, findOpt_eq hos, hd, Option.bind_eq_bind, Option.bind_some,
        if_pos hcolon, if_pos hcolon', List.head?_nil, if_true]
      rfl
    · cases hkind
  · cases hkind

/-- **An argument in the next word**, if there is one. -/
theorem separate (h : AtOption pre ops u c [] args g) (hos : Plain os)
    (hmode : optstarts ':' os = false)
    (hk : optKind os c = .required) :
    (args = [] ∧ ∃ g', yaGetoptShortopts os g = some ('?', g') ∧ g'.optarg = none) ∨
      ∃ a rest, args = a :: rest ∧ yaGetoptShortopts os g =
        some (c, { g with optarg := some a, optind := g.optind + 2, charidx := 1 }) := by
  have hvalid : optKind os c ≠ .invalid := by rw [hk]; decide
  obtain ⟨o, os', hd, hkind⟩ := optKind_eq hvalid
  rw [hk] at hkind
  split at hkind
  · next hcolon =>
    split at hkind
    · cases hkind
    · next hcolon' =>
      have hlen := h.pending.length
      have hnext := h.pending.get 1
      unfold yaGetoptShortopts
      simp only [h.get, h.char, h.next, findOpt_eq hos, hd, Option.bind_eq_bind, Option.bind_some,
        if_pos hcolon, if_neg hcolon', List.head?_nil, if_true, hlen, hnext, hmode]
      cases args with
      | nil => exact Or.inl ⟨rfl, by simp⟩
      | cons a rest => exact Or.inr ⟨a, rest, rfl, by simp⟩
  · cases hkind

end AtOption

/-- What a call at the character `c` comes to: the option is bad, or there are more in the word, or
it is the last one of it. -/
inductive WordStep (posix : Bool) (os : List Char) (pre ops : List Name) (u : Name) (c : Char)
    (cs : List Char) (args : List Name) : Option (Char × Getopt) → Prop
  | bad {g' : Getopt} (harg : g'.optarg = none)
      (hscan : scanWord os posix (c :: cs) args = ⟨[.bad c], none, true⟩) :
      WordStep posix os pre ops u c cs args (some ('?', g'))
  | more {g' : Getopt} {d : Char} {ds : List Char} (hcs : cs = d :: ds)
      (h : AtOption pre ops (u ++ [c]) d ds args g')
      (hscan : scanWord os posix (c :: cs) args =
        (scanWord os posix cs args).after [.opt c g'.optarg]) :
      WordStep posix os pre ops u c cs args (some (c, g'))
  | last {g' : Getopt} {cur rest : List Name} (h : Pending pre ops cur rest g') (hcur : cur ≠ [])
      (hidx : g'.charidx = 1) (hrest : rest <:+ args)
      (hscan : scanWord os posix (c :: cs) args = (scan os posix rest).after [.opt c g'.optarg]) :
      WordStep posix os pre ops u c cs args (some (c, g'))

/-- **One call, one option.** -/
theorem AtOption.step (h : AtOption pre ops u c cs args g) (posix : Bool) (hos : Plain os)
    (hmode : optstarts ':' os = false) :
    WordStep posix os pre ops u c cs args (yaGetoptShortopts os g) := by
  have hlast : ∀ a : Option Name, Pending pre ops [u ++ c :: cs] args
      { g with optarg := a, optind := g.optind + 1, charidx := 1 } := by
    intro a
    have hnext := @Pending.next _ _ _ (u ++ c :: cs) [] args h.pending
    exact hnext rfl rfl rfl rfl
  have hone : ∀ w : Name, [w] ≠ [] := fun w => List.cons_ne_nil w []
  cases hk : optKind os c with
  | invalid =>
    obtain ⟨g', hg', harg⟩ := h.invalid hos hk
    rw [hg']
    exact .bad harg (scanWord_invalid hk)
  | flag =>
    rw [h.flag hos hk]
    cases cs with
    | nil =>
      rw [if_pos rfl]
      exact .last (hlast none) (hone _) rfl (List.suffix_refl _) (scanWord_flag hk)
    | cons d ds =>
      rw [if_neg (List.cons_ne_nil d ds)]
      refine .more rfl ⟨?_, ?_⟩ (scanWord_flag hk)
      · rw [List.append_assoc]
        exact ⟨h.pending.argv, h.pending.optind, h.pending.ne_nil, h.pending.operands,
          h.pending.marked⟩
      · simp [h.charidx]
  | optional =>
    have hscan : scanWord os posix (c :: cs) args =
        (scan os posix args).after [.opt c (if cs = [] then none else some cs)] :=
      scanWord_optional hk
    by_cases hcs : cs = []
    · subst hcs
      rw [h.noArgument hos hk]
      exact .last (hlast none) (hone _) rfl (List.suffix_refl _) hscan
    · rw [h.attached hos (Or.inl hk) hcs]
      rw [if_neg hcs] at hscan
      exact .last (hlast (some cs)) (hone _) rfl (List.suffix_refl _) hscan
  | required =>
    by_cases hcs : cs = []
    · subst hcs
      rcases h.separate hos hmode hk with ⟨rfl, g', hg', harg⟩ | ⟨a, rest, rfl, hg'⟩
      · rw [hg']
        exact .bad harg (scanWord_missing hk)
      · rw [hg']
        have hnext : Pending pre ops [u ++ [c], a] rest
            { g with optarg := some a, optind := g.optind + 2, charidx := 1 } :=
          @Pending.next _ _ _ (u ++ [c]) [a] rest h.pending _ rfl rfl rfl rfl
        exact .last hnext (List.cons_ne_nil _ _) rfl (List.suffix_cons a rest)
          (scanWord_separate hk)
    · rw [h.attached hos (Or.inr hk) hcs]
      exact .last (hlast (some cs)) (hone _) rfl (List.suffix_refl _) (scanWord_attached hk hcs)

end Shortopts

/-! ## Calls -/

section Calls

variable {posix : Bool} {os : List Char} {pre args : List Name} {g : Getopt}

/-- How many options there may be. -/
def weight (args : List Name) : ℕ := (args.map fun a => if Operand a then 0 else a.length).sum

theorem weight_append (as bs : List Name) : weight (as ++ bs) = weight as + weight bs := by
  simp [weight]

theorem weight_operands {ops : List Name} (h : ∀ o ∈ ops, Operand o) : weight ops = 0 := by
  induction ops with
  | nil => rfl
  | cons o ops ih =>
    obtain ⟨ho, hops⟩ := List.forall_mem_cons.mp h
    rw [weight, List.map_cons, List.sum_cons, if_pos ho, Nat.zero_add]
    exact ih hops

theorem weight_word (cs : List Char) (args : List Name) :
    weight (('-' :: cs) :: args) = cs.length + 1 + weight args := by
  rw [weight, List.map_cons, List.sum_cons, if_neg (not_operand cs)]
  rfl

theorem weight_suffix {rest : List Name} (h : rest <:+ args) : weight rest ≤ weight args := by
  obtain ⟨p, rfl⟩ := h
  rw [weight_append]
  exact Nat.le_add_left _ _

/-- What a call between two words comes to: the end, a hyphen alone, or a word of options. -/
inductive GetoptCall (posix : Bool) (os : List Char) (pre args : List Name) :
    Option (Option Char × Getopt) → Prop
  | done {g' : Getopt} {b : Bool}
      (hscan : scan os posix args = ⟨[], some (g'.argv.drop g'.optind), b⟩) :
      GetoptCall posix os pre args (some (none, g'))
  | hyphen (hscan : scan os posix args = ⟨[], none, true⟩) : GetoptCall posix os pre args none
  | word {ops rest : List Name} {c : Char} {cs : List Char} {g' : Getopt}
      (h : AtOption pre ops ['-'] c cs rest g') (hposix : posix = true → ops = [])
      (hweight : cs.length + 2 + weight rest ≤ weight args)
      (hscan : scan os posix args = (scanWord os posix (c :: cs) rest).behind ops) :
      GetoptCall posix os pre args ((yaGetoptShortopts os g').map fun r => (some r.1, r.2))

theorem findIdx_hyphen (args : List Name) :
    (∀ a ∈ args, Operand a) ∧ (args.findIdx? fun a => a.head? = some '-') = none ∨
      ∃ ops cs rest, args = ops ++ ('-' :: cs) :: rest ∧ (∀ o ∈ ops, Operand o) ∧
        (args.findIdx? fun a => a.head? = some '-') = some ops.length := by
  induction args with
  | nil => exact Or.inl ⟨by simp, rfl⟩
  | cons a args ih =>
    by_cases ha : a.head? = some '-'
    · obtain ⟨cs, rfl⟩ := List.head?_eq_some_iff.mp ha
      exact Or.inr ⟨[], cs, args, rfl, by simp, by simp [List.findIdx?_cons]⟩
    · rcases ih with ⟨hall, hidx⟩ | ⟨ops, cs, rest, rfl, hops, hidx⟩
      · refine Or.inl ⟨List.forall_mem_cons.mpr ⟨ha, hall⟩, ?_⟩
        rw [List.findIdx?_cons, hidx]
        simp [ha]
      · refine Or.inr ⟨a :: ops, cs, rest, rfl, List.forall_mem_cons.mpr ⟨ha, hops⟩, ?_⟩
        rw [List.findIdx?_cons, hidx]
        simp [ha]

/-- **A word that begins with a hyphen**, behind some operands. -/
theorem call_word {ops : List Name} {cs : List Char} {rest : List Name}
    (h : Pending pre ops [] (('-' :: cs) :: rest) g) (hidx : g.charidx = 1)
    (hposix : posix = true → ops = []) (hargs : args = ops ++ ('-' :: cs) :: rest) :
    GetoptCall posix os pre args
      (if g.argv[g.optind]? = some ['-', '-'] then some (none, { g with optind := g.optind + 1 })
        else (yaGetoptShortopts os g).map fun r => (some r.1, r.2)) := by
  have hget : g.argv[g.optind]? = some ('-' :: cs) := h.get 0
  have hscan : scan os posix args = (scan os posix (('-' :: cs) :: rest)).behind ops := by
    rw [hargs]
    cases posix with
    | true => rw [hposix rfl, List.nil_append, Scan.behind_nil]
    | false => exact scan_operands h.operands _
  rw [hget]
  by_cases hstop : cs = ['-']
  · subst hstop
    rw [if_pos rfl]
    refine GetoptCall.done (b := true) ?_
    have hdrop : g.argv.drop (g.optind + 1) = rest := by
      rw [← List.drop_drop, h.drop]
      rfl
    rw [hscan, scan_stop, hdrop]
    rfl
  rw [if_neg (by simpa using hstop)]
  cases cs with
  | nil =>
    have hnone : yaGetoptShortopts os g = none := by
      unfold yaGetoptShortopts
      simp [hget, charAt, hidx, findOpt]
    rw [hnone]
    refine .hyphen ?_
    rw [hscan, scan_hyphen]
    rfl
  | cons c cs =>
    have hat : AtOption pre ops ['-'] c cs rest g := ⟨h, hidx⟩
    refine .word hat hposix ?_ ?_
    · rw [hargs, weight_append, weight_operands h.operands, weight_word, List.length_cons]
      omega
    · rw [hscan, scan_word (List.cons_ne_nil c cs) hstop]

/-- **A call between two words**, when the operands have been moved. -/
theorem getoptWord_call (h : Pending pre [] [] args g) (hidx : g.charidx = 1) (hos : Plain os) :
    GetoptCall posix os pre args (getoptWord posix os g) := by
  unfold getoptWord
  have hlen := h.length
  cases args with
  | nil =>
    rw [if_pos (by rw [hlen]; exact Nat.le_refl _)]
    refine GetoptCall.done (b := false) ?_
    rw [scan_nil, h.drop]
  | cons a rest =>
    have hget : g.argv.getD g.optind [] = a := by
      have := h.get 0
      rw [List.getD_eq_getElem?_getD, ← Nat.add_zero g.optind, this]
      rfl
    rw [if_neg (by rw [hlen, List.length_cons]; omega), if_pos hidx, hget]
    by_cases ha : a.head? = some '-'
    · obtain ⟨cs, rfl⟩ := List.head?_eq_some_iff.mp ha
      rw [passOperands, if_pos ha]
      exact call_word h hidx (fun _ => rfl) rfl
    rw [passOperands, if_neg ha, if_neg hos.2.1]
    cases posix with
    | true =>
      rw [if_neg (by simp)]
      refine GetoptCall.done (b := true) ?_
      rw [scan_operand_posix ha, h.drop]
    | false =>
      rw [if_pos ⟨hos.2.2, rfl⟩]
      have hdrop : g.argv.drop (g.optind + 1) = rest := by
        rw [← List.drop_drop, h.drop]
        rfl
      rw [findWord, hdrop]
      rcases findIdx_hyphen rest with ⟨hall, hnone⟩ | ⟨ops, cs, rest', rfl, hops, hsome⟩
      · rw [hnone]
        refine GetoptCall.done (b := false) ?_
        have hscan : scan os false (a :: rest ++ []) = (scan os false []).behind (a :: rest) :=
          scan_operands (List.forall_mem_cons.mpr ⟨ha, hall⟩) []
        rw [List.append_nil] at hscan
        rw [hscan, scan_nil, h.drop]
        simp [Scan.behind]
      · rw [hsome]
        have hpending : Pending pre (a :: ops) [] (('-' :: cs) :: rest')
            { g with start := g.optind, stop := g.optind + 1 + ops.length,
                     optind := g.optind + 1 + ops.length } := by
          refine ⟨h.argv, ?_, h.ne_nil, List.forall_mem_cons.mpr ⟨ha, hops⟩,
            Or.inr ⟨List.cons_ne_nil a ops, ?_, ?_⟩⟩
          · simp only [h.optind, List.length_nil, List.length_cons]
            omega
          · simp [h.optind]
          · simp only [h.optind, List.length_nil, List.length_cons]
            omega
        exact call_word hpending hidx (fun h => Bool.noConfusion h) rfl

end Calls

/-! ## The loop -/

section Loop

variable {posix : Bool} {os : List Char} {σ : Type} {body : Char → Option Name → σ → Option (ℕ ⊕ σ)}
  {pre ops cur args : List Name} {g g' : Getopt} {s : σ} {n : ℕ}

theorem optionLoop_done (h : yaGetopt posix os g = some (none, g')) :
    optionLoop posix os body (n + 1) g s = some (.inr (s, g'.argv.drop g'.optind)) := by
  simp [optionLoop, h]

theorem optionLoop_undefined (h : yaGetopt posix os g = none) :
    optionLoop posix os body (n + 1) g s = none := by
  simp [optionLoop, h]

theorem optionLoop_opt {c : Char} (h : yaGetopt posix os g = some (some c, g')) :
    optionLoop posix os body (n + 1) g s = (body c g'.optarg s).bind fun r => match r with
      | .inl k => some (.inl k)
      | .inr s => optionLoop posix os body n g' s := by
  simp only [optionLoop, h, Option.bind_eq_bind, Option.bind_some]
  cases body c g'.optarg s with
  | none => rfl
  | some r => cases r <;> rfl

/-- The loop between two words reads what is to come. -/
def LoopReads (posix : Bool) (os : List Char) (body : Char → Option Name → σ → Option (ℕ ⊕ σ))
    (n : ℕ) : Prop :=
  ∀ {pre ops cur args g s}, Pending pre ops cur args g → g.charidx = 1 → (ops ≠ [] → cur ≠ []) →
    (posix = true → ops = []) → weight args < n →
    optionLoop posix os body n g s = ((scan os posix args).behind ops).read body s

/-- And so does the loop in a word. -/
def LoopReadsWord (posix : Bool) (os : List Char) (body : Char → Option Name → σ → Option (ℕ ⊕ σ))
    (n : ℕ) : Prop :=
  ∀ {pre ops u c cs args g s}, AtOption pre ops u c cs args g → 2 ≤ u.length →
    (posix = true → ops = []) → cs.length + 1 + weight args < n →
    optionLoop posix os body n g s = ((scanWord os posix (c :: cs) args).behind ops).read body s

variable (hbad : ∀ a s s', body '?' a s ≠ some (.inr s'))

include hbad

theorem optionLoop_step {u : Name} {c : Char} {cs : List Char} {r : Option (Char × Getopt)}
    (hP : LoopReads posix os body n) (hQ : LoopReadsWord posix os body n)
    (hstep : WordStep posix os pre ops u c cs args r) (hu : 1 ≤ u.length)
    (hposix : posix = true → ops = []) (hn : cs.length + weight args < n)
    (hcall : yaGetopt posix os g = r.map fun r => (some r.1, r.2)) :
    optionLoop posix os body (n + 1) g s =
      ((scanWord os posix (c :: cs) args).behind ops).read body s := by
  cases hstep with
  | @bad g' harg hscan =>
    rw [optionLoop_opt hcall, hscan, harg]
    unfold Scan.read Scan.behind
    simp only [readItems]
    cases hb : body '?' none s with
    | none => rfl
    | some r =>
      cases r with
      | inl k => rfl
      | inr s' => exact absurd hb (hbad none s s')
  | @more g' d ds hcs h hscan =>
    rw [optionLoop_opt hcall, hscan, Scan.behind_after, Scan.read_opt]
    subst hcs
    have hlen : (d :: ds).length = ds.length + 1 := rfl
    refine Option.bind_congr fun r _ => ?_
    cases r with
    | inl k => rfl
    | inr s' => exact hQ h (by simp; omega) hposix (by omega)
  | @last g' cur rest h hcur hidx hrest hscan =>
    rw [optionLoop_opt hcall, hscan, Scan.behind_after, Scan.read_opt]
    have hweight := weight_suffix hrest
    refine Option.bind_congr fun r _ => ?_
    cases r with
    | inl k => rfl
    | inr s' => exact hP h hidx (fun _ => hcur) hposix (by omega)

/-- **The calls read the command line**, word by word and option by option. -/
theorem loopReads (hos : Plain os) (hmode : optstarts ':' os = false) (n : ℕ) :
    LoopReads posix os body n ∧ LoopReadsWord posix os body n := by
  induction n with
  | zero => exact ⟨fun _ _ _ _ hn => absurd hn (Nat.not_lt_zero _),
      fun _ _ _ hn => absurd hn (Nat.not_lt_zero _)⟩
  | succ n ih =>
    obtain ⟨hP, hQ⟩ := ih
    have hopt : ∀ {pre ops cur args g}, Pending pre ops cur args g →
        Pending pre ops cur args (if g.optopt = '?' then { g with optopt := nul } else g) := by
      intro pre ops cur args g h
      split
      · exact ⟨h.argv, h.optind, h.ne_nil, h.operands, h.marked⟩
      · exact h
    have hidx' : ∀ g : Getopt,
        (if g.optopt = '?' then { g with optopt := nul } else g).charidx = g.charidx := by
      intro g
      split <;> rfl
    constructor
    · intro pre ops cur args g s h hidx hcur hposix hn
      obtain ⟨h', hidx''⟩ := (hopt h).permute ((hidx' g).trans hidx) hcur
      have hscan : scan os posix (ops ++ args) = (scan os posix args).behind ops := by
        cases posix with
        | true => rw [hposix rfl, List.nil_append, Scan.behind_nil]
        | false => exact scan_operands h.operands args
      have hweight : weight (ops ++ args) < n + 1 := by
        rw [weight_append, weight_operands h.operands]
        omega
      rw [← hscan]
      have hcall : GetoptCall posix os _ (ops ++ args) (getoptWord posix os _) :=
        getoptWord_call h' hidx'' hos
      generalize hr : getoptWord posix os _ = r at hcall
      have hr : yaGetopt posix os g = r := hr
      cases hcall with
      | done hdone =>
        rw [optionLoop_done hr, hdone]
        rfl
      | hyphen hnone =>
        rw [optionLoop_undefined hr, hnone]
        rfl
      | word hat hops hw hscan' =>
        rw [hscan']
        exact optionLoop_step hbad hP hQ (hat.step posix hos hmode) (Nat.le_refl 1) hops
          (by omega) hr
    · intro pre ops u c cs args g s h hu hposix hn
      have hat : AtOption pre ops u c cs args
          (if g.optopt = '?' then { g with optopt := nul } else g) :=
        ⟨hopt h.pending, (hidx' g).trans h.charidx⟩
      refine optionLoop_step hbad hP hQ (hat.step posix hos hmode) (by omega) hposix (by omega) ?_
      have hne : (if g.optopt = '?' then { g with optopt := nul } else g).charidx ≠ 1 := by
        rw [hat.charidx]
        omega
      have hlen := hat.pending.length
      rw [yaGetopt, yaGetoptInternal, Getopt.permute, if_neg fun hc => hne hc.1, getoptWord, if_neg,
        if_neg hne]
      rw [hlen, List.length_cons]
      omega

/-- **The loop over the calls reads what the command line says.** -/
theorem optionLoop_eq (hos : Plain os) (hmode : optstarts ':' os = false) (name : Name)
    (args : List Name) (s : σ) (hn : weight args < n) :
    optionLoop posix os body n (.initial (name :: args)) s = (scan os posix args).read body s := by
  obtain ⟨hloop, -⟩ : LoopReads posix os body n ∧ LoopReadsWord posix os body n :=
    loopReads hbad hos hmode n
  rw [hloop (.initial name args) rfl (fun h => absurd rfl h) (fun _ => rfl) hn, Scan.behind_nil]

end Loop

end Snzip
