import Mathlib.Data.List.Basic

set_option autoImplicit false

/-!
# Command lines with short options

A command line is read from left to right. A word with a hyphen holds options, the last of which may
take an argument, from the word itself or the next one; the other words are operands.

* `OptKind`, `optKind`: what a list of options says about a character;
* `OptItem`, `cluster`: the options of one word;
* `Scan`, `scan`: what a command line says; `scan_operands`: operands in front of it;
* `scanWord`: what a word of options says, one option after the other;
* `readItems`, `Scan.read`: what a program makes of it;
* `Part`, **`scan_parts`**: options and operands are read apart from each other, in whatever way
  they are mixed.
-/

namespace CProg

/-- A word of a command line. -/
abbrev Arg : Type := List Char

/-- What is known of a character. -/
inductive OptKind where
  | invalid
  | flag
  | required
  | optional
  deriving DecidableEq

/-- In the list of options a colon stands behind those that take an argument, and two behind those
that may take one. -/
def optKind (os : List Char) (c : Char) : OptKind :=
  match os.dropWhile (· ≠ c) with
  | [] => .invalid
  | _ :: os =>
    if os.head? = some ':' then if os.tail.head? = some ':' then .optional else .required
    else .flag

theorem optKind_eq {os : List Char} {c : Char} (h : optKind os c ≠ .invalid) :
    ∃ o os', os.dropWhile (· ≠ c) = o :: os' ∧ optKind os c =
      if os'.head? = some ':' then if os'.tail.head? = some ':' then .optional else .required
      else .flag := by
  unfold optKind at h ⊢
  split at h
  · exact absurd rfl h
  · next o os' hd => exact ⟨o, os', hd, rfl⟩

/-- An option of a command line; a bad one is unknown, or has no argument and needs one. -/
inductive OptItem where
  | opt (c : Char) (arg : Option Arg)
  | bad (c : Char)
  deriving DecidableEq

/-- An option with an argument: the rest `cs` of its word, or the next one. -/
def withArgument (c : Char) (cs : List Char) (args : List Arg) : List OptItem × Option (List Arg) :=
  if cs ≠ [] then ([.opt c (some cs)], some args)
  else match args with
    | [] => ([.bad c], none)
    | a :: args => ([.opt c (some a)], some args)

/-- A word of options, behind its hyphen: its options up to a bad one, and the words that are left
if none is bad. -/
def cluster (os : List Char) : List Char → List Arg → List OptItem × Option (List Arg)
  | [], args => ([], some args)
  | c :: cs, args =>
    match optKind os c with
    | .invalid => ([.bad c], none)
    | .flag => (.opt c none :: (cluster os cs args).1, (cluster os cs args).2)
    | .optional => ([.opt c (if cs = [] then none else some cs)], some args)
    | .required => withArgument c cs args

/-- What a command line says: its options, and its operands unless there is a bad option or a hyphen
alone. It is stopped by these, and by a double hyphen, and then the operands in front are not
counted. -/
structure Scan where
  items : List OptItem
  operands : Option (List Arg)
  stopped : Bool
  deriving DecidableEq

/-- More options in front. -/
def Scan.after (is : List OptItem) (t : Scan) : Scan := { t with items := is ++ t.items }

/-- More operands in front. -/
def Scan.behind (ops : List Arg) (t : Scan) : Scan :=
  { t with operands := if t.stopped then t.operands else t.operands.map (ops ++ ·) }

theorem Scan.after_after (is js : List OptItem) (t : Scan) :
    (t.after js).after is = t.after (is ++ js) := by
  simp only [Scan.after, List.append_assoc]

theorem Scan.behind_after (is : List OptItem) (ops : List Arg) (t : Scan) :
    (t.after is).behind ops = (t.behind ops).after is := rfl

theorem Scan.behind_behind (ops ops' : List Arg) (t : Scan) :
    (t.behind ops').behind ops = t.behind (ops ++ ops') := by
  obtain ⟨is, o, stopped⟩ := t
  cases stopped <;> cases o <;> simp [Scan.behind]

@[simp] theorem Scan.after_nil (t : Scan) : t.after [] = t := rfl

@[simp] theorem Scan.behind_nil (t : Scan) : t.behind [] = t := by
  obtain ⟨is, o, stopped⟩ := t
  cases stopped <;> cases o <;> rfl

/-- No options can be in this word. -/
def Operand (a : Arg) : Prop := a.head? ≠ some '-'

instance (a : Arg) : Decidable (Operand a) := inferInstanceAs (Decidable (_ ≠ _))

theorem not_operand (cs : List Char) : ¬ Operand ('-' :: cs) := fun h => h rfl

theorem cluster_suffix (os : List Char) (cs : List Char) (args : List Arg) {rest : List Arg}
    (h : (cluster os cs args).2 = some rest) : rest <:+ args := by
  induction cs with
  | nil =>
    cases h
    exact List.suffix_refl _
  | cons c cs ih =>
    unfold cluster at h
    split at h
    · cases h
    · exact ih h
    · cases h
      exact List.suffix_refl _
    · unfold withArgument at h
      split at h
      · cases h
        exact List.suffix_refl _
      split at h
      · cases h
      · cases h
        exact List.suffix_cons _ _

/-- Words from left to right; with `posix` up to the first operand. -/
def scan (os : List Char) (posix : Bool) (args : List Arg) : Scan :=
  match args with
  | [] => ⟨[], some [], false⟩
  | a :: args =>
    if Operand a then
      if posix then ⟨[], some (a :: args), true⟩ else (scan os posix args).behind [a]
    else if a.tail = ['-'] then ⟨[], some args, true⟩
    else if a.tail = [] then ⟨[], none, true⟩
    else match h : cluster os a.tail args with
      | (is, none) => ⟨is, none, true⟩
      | (is, some rest) =>
        have : rest.length ≤ args.length :=
          (cluster_suffix os a.tail args (congrArg Prod.snd h)).length_le
        (scan os posix rest).after is
  termination_by args.length

/-- The options of a word, and what comes behind it. -/
def scanWord (os : List Char) (posix : Bool) (cs : List Char) (args : List Arg) : Scan :=
  match (cluster os cs args).2 with
  | none => ⟨(cluster os cs args).1, none, true⟩
  | some rest => (scan os posix rest).after (cluster os cs args).1

section Scan

variable {os : List Char} {posix : Bool} {a : Arg} {args : List Arg}

@[simp] theorem scan_nil : scan os posix [] = ⟨[], some [], false⟩ := by rw [scan]

theorem scan_operand (h : Operand a) :
    scan os false (a :: args) = (scan os false args).behind [a] := by
  rw [scan, if_pos h, if_neg Bool.false_ne_true]

theorem scan_operand_posix (h : Operand a) :
    scan os true (a :: args) = ⟨[], some (a :: args), true⟩ := by
  rw [scan, if_pos h, if_pos rfl]

theorem scan_stop : scan os posix (['-', '-'] :: args) = ⟨[], some args, true⟩ := by
  rw [scan]
  simp [not_operand]

theorem scan_hyphen : scan os posix (['-'] :: args) = ⟨[], none, true⟩ := by
  rw [scan]
  simp [not_operand]

/-- **A word of options.** -/
theorem scan_word {cs : List Char} (hcs : cs ≠ []) (hstop : cs ≠ ['-']) :
    scan os posix (('-' :: cs) :: args) = scanWord os posix cs args := by
  rw [scan, if_neg (not_operand cs), scanWord]
  split
  · next h => exact absurd h hstop
  split
  · next h => exact absurd h hcs
  split
  · next h =>
    rw [List.tail_cons] at h
    rw [h]
  · next h =>
    rw [List.tail_cons] at h
    rw [h]

/-- **Operands in front.** -/
theorem scan_operands {ops : List Arg} (h : ∀ o ∈ ops, Operand o) (args : List Arg) :
    scan os false (ops ++ args) = (scan os false args).behind ops := by
  induction ops with
  | nil => rw [List.nil_append, Scan.behind_nil]
  | cons o ops ih =>
    obtain ⟨ho, hops⟩ := List.forall_mem_cons.mp h
    rw [List.cons_append, scan_operand ho, ih hops, Scan.behind_behind, List.singleton_append]

/-! ## One option after the other -/

variable {c : Char} {cs : List Char}

theorem scanWord_nil : scanWord os posix [] args = scan os posix args := rfl

theorem scanWord_invalid (h : optKind os c = .invalid) :
    scanWord os posix (c :: cs) args = ⟨[.bad c], none, true⟩ := by
  rw [scanWord, cluster, h]

theorem scanWord_flag (h : optKind os c = .flag) :
    scanWord os posix (c :: cs) args = (scanWord os posix cs args).after [.opt c none] := by
  rw [scanWord, cluster, h]
  simp only [scanWord]
  cases (cluster os cs args).2 with
  | none => rfl
  | some rest => rw [Scan.after_after]; rfl

theorem scanWord_optional (h : optKind os c = .optional) :
    scanWord os posix (c :: cs) args =
      (scan os posix args).after [.opt c (if cs = [] then none else some cs)] := by
  rw [scanWord, cluster, h]

theorem scanWord_attached (h : optKind os c = .required) (hcs : cs ≠ []) :
    scanWord os posix (c :: cs) args = (scan os posix args).after [.opt c (some cs)] := by
  rw [scanWord, cluster, h]
  simp only [withArgument, if_pos hcs]

theorem scanWord_separate (h : optKind os c = .required) :
    scanWord os posix [c] (a :: args) = (scan os posix args).after [.opt c (some a)] := by
  rw [scanWord, cluster, h]
  rfl

theorem scanWord_missing (h : optKind os c = .required) :
    scanWord os posix [c] [] = ⟨[.bad c], none, true⟩ := by
  rw [scanWord, cluster, h]
  rfl

end Scan

/-! ## What may be wrong -/

section Wrong

variable {os : List Char} {posix : Bool} {c : Char} {a : Option Arg} {cs : List Char}
  {args : List Arg}

theorem cluster_argument (h : .opt c a ∈ (cluster os cs args).1) (hk : optKind os c = .required) :
    a ≠ none := by
  induction cs with
  | nil => cases h
  | cons d cs ih =>
    unfold cluster at h
    split at h
    · simp at h
    · next hd =>
      rcases List.mem_cons.mp h with he | h
      · cases he
        cases hk.symm.trans hd
      · exact ih h
    · next hd =>
      cases List.mem_singleton.mp h
      cases hk.symm.trans hd
    · unfold withArgument at h
      split at h
      · cases List.mem_singleton.mp h
        exact Option.some_ne_none _
      split at h
      · simp at h
      · cases List.mem_singleton.mp h
        exact Option.some_ne_none _

theorem scan_argument (h : .opt c a ∈ (scan os posix args).items) (hk : optKind os c = .required) :
    a ≠ none := by
  fun_induction scan os posix args with
  | case1 | case2 | case4 | case5 => simp at h
  | case3 _ _ _ _ ih => exact ih h
  | case6 _ _ _ _ _ is hc => exact cluster_argument (by rw [hc]; exact h) hk
  | case7 _ _ _ _ _ is rest hc _ ih =>
    rcases List.mem_append.mp h with h | h
    · exact cluster_argument (by rw [hc]; exact h) hk
    · exact ih h

theorem cluster_bad (h : (cluster os cs args).2 = none) : ∃ d, .bad d ∈ (cluster os cs args).1 := by
  induction cs with
  | nil => cases h
  | cons d cs ih =>
    unfold cluster at h ⊢
    split
    · exact ⟨d, List.mem_singleton.mpr rfl⟩
    · next hd =>
      rw [hd] at h
      obtain ⟨e, he⟩ := ih h
      exact ⟨e, List.mem_cons_of_mem _ he⟩
    · next hd =>
      rw [hd] at h
      cases h
    · next hd =>
      rw [hd] at h
      unfold withArgument at h ⊢
      simp only at h
      split at h
      · cases h
      split at h
      · rw [if_neg ‹_›]
        exact ⟨d, List.mem_singleton.mpr rfl⟩
      · cases h

/-- No hyphen stands alone where an option or an operand may stand, or a bad option comes first. -/
def Scan.NoHyphen (t : Scan) : Prop := t.operands = none → ∃ d, .bad d ∈ t.items

theorem noHyphen_scan (h : ['-'] ∉ args) : (scan os posix args).NoHyphen := by
  fun_induction scan os posix args with
  | case1 | case2 | case4 => exact fun h => by simp at h
  | case3 a args ha hp ih =>
    intro hnone
    refine ih (fun hm => h (List.mem_cons_of_mem _ hm)) ?_
    revert hnone
    unfold Scan.behind
    split
    · exact id
    · simp
  | case5 a args ha hs ht =>
    refine absurd (List.mem_cons.mpr (Or.inl ?_)) h
    obtain ⟨_, rfl⟩ := List.head?_eq_some_iff.mp (not_not.mp ha)
    rw [List.tail_cons] at ht
    rw [ht]
  | case6 _ _ _ _ _ is hc =>
    intro _
    obtain ⟨d, hd⟩ := cluster_bad (congrArg Prod.snd hc)
    exact ⟨d, by rwa [hc] at hd⟩
  | case7 a args _ _ _ is rest hc _ ih =>
    intro hnone
    have hsuffix := cluster_suffix os _ _ (congrArg Prod.snd hc)
    obtain ⟨d, hd⟩ := ih (fun hm => h (List.mem_cons_of_mem _ (hsuffix.subset hm))) hnone
    exact ⟨d, List.mem_append_right _ hd⟩

end Wrong

/-! ## A program that takes the options -/

section Read

variable {σ : Type} (body : Char → Option Arg → σ → Option (ℕ ⊕ σ))

/-- The options one by one. The program ends with a status or goes on with its state; a bad option
is shown to it as a question mark, and it has to end there. -/
def readItems : List OptItem → σ → Option (ℕ ⊕ σ)
  | [], s => some (.inr s)
  | .bad _ :: _, s => body '?' none s
  | .opt c a :: is, s =>
    (body c a s).bind fun r => match r with
      | .inl k => some (.inl k)
      | .inr s => readItems is s

/-- The options, and then the operands. -/
def Scan.read (t : Scan) (s : σ) : Option (ℕ ⊕ (σ × List Arg)) :=
  (readItems body t.items s).bind fun r => match r with
    | .inl k => some (.inl k)
    | .inr s => t.operands.map fun ops => .inr (s, ops)

variable {body}

theorem Scan.read_opt (c : Char) (a : Option Arg) (t : Scan) (s : σ) :
    (t.after [.opt c a]).read body s = (body c a s).bind fun r => match r with
      | .inl k => some (.inl k)
      | .inr s => t.read body s := by
  unfold Scan.read Scan.after
  rw [List.singleton_append, readItems]
  cases body c a s with
  | none => rfl
  | some r => cases r <;> rfl

end Read

/-! ## Words in any order -/

section Words

variable {os : List Char}

/-- These words are read as options, whatever is behind them. -/
def Says (os : List Char) (w : List Arg) (is : List OptItem) : Prop :=
  ∀ args, scan os false (w ++ args) = (scan os false args).after is

/-- A part of a command line: an operand, or words that are read as options. -/
inductive Part where
  | operand (a : Arg)
  | options (w : List Arg) (is : List OptItem)

namespace Part

/-- The words of a part. -/
def words : Part → List Arg
  | operand a => [a]
  | options w _ => w

/-- The options in it. -/
def items : Part → List OptItem
  | operand _ => []
  | options _ is => is

/-- The operands in it. -/
def operands : Part → List Arg
  | operand a => [a]
  | options _ _ => []

/-- The part is read as what it is said to be. -/
def Ok (os : List Char) : Part → Prop
  | operand a => Operand a
  | options w is => Says os w is

end Part

theorem cluster_args {cs : List Char} {is : List OptItem} (h : cluster os cs [] = (is, some []))
    (args : List Arg) : cluster os cs args = (is, some args) := by
  induction cs generalizing is with
  | nil =>
    cases h
    rfl
  | cons c cs ih =>
    unfold cluster at h ⊢
    cases hk : optKind os c with
    | invalid =>
      rw [hk] at h
      cases h
    | flag =>
      rw [hk] at h
      simp only [Prod.mk.injEq] at h ⊢
      obtain ⟨rfl, hrest⟩ := h
      have := ih (Prod.ext rfl hrest)
      exact ⟨by rw [this], by rw [this]⟩
    | optional =>
      rw [hk] at h
      cases h
      rfl
    | required =>
      rw [hk] at h
      simp only [withArgument] at h ⊢
      split at h
      · next hcs =>
        cases h
        exact if_pos hcs
      · cases h

theorem says_word {cs : List Char} {is : List OptItem} (hcs : cs ≠ []) (hstop : cs ≠ ['-'])
    (h : cluster os cs [] = (is, some [])) : Says os ['-' :: cs] is := by
  intro args
  rw [List.singleton_append, scan_word hcs hstop, scanWord, cluster_args h args]

/-- **Options and operands are read apart from each other**, whatever is behind them. -/
theorem scan_parts {parts : List Part} (h : ∀ p ∈ parts, p.Ok os) (args : List Arg) :
    scan os false (parts.flatMap Part.words ++ args) =
      ((scan os false args).behind (parts.flatMap Part.operands)).after
        (parts.flatMap Part.items) := by
  induction parts with
  | nil => simp
  | cons p parts ih =>
    obtain ⟨hp, hparts⟩ := List.forall_mem_cons.mp h
    rw [List.flatMap_cons, List.append_assoc]
    cases p with
    | operand a =>
      rw [Part.words, List.singleton_append, scan_operand hp, ih hparts, Scan.behind_after,
        Scan.behind_behind]
      rfl
    | options w is =>
      rw [Part.words, hp, ih hparts, Scan.after_after]
      rfl

end Words

end CProg
