import Snzip.StreamFormat

set_option autoImplicit false

/-!
# Detection by the file header

`find_stream_format_by_file_header`: a decision tree over the first bytes, and a guess from two
lengths where the tree ends without a format.

* `Probe`, `getchar`, `chk`: the stream and the ten bytes of `u.buf`;
* `findMagic`, `guessHadoop`, `findStreamFormatByFileHeader`;
* `byteAt`, `slice`, `probed`: the bytes that calls of `getc` store, and the state after them;
* `FindsMagic`, **`findMagic_spec`**: the decision tree;
* `Detects`, **`findStreamFormatByFileHeader_spec`**: what is found, after how many calls.
-/

namespace Snzip

open CProg

/-- What the function works on: the stream, the bytes stored in `u.buf`, of which there are `idx`,
and the globals. -/
structure Probe where
  inp : InFile
  buf : Bytes
  globals : Globals

/-- The character as a `uint8_t`; `EOF` becomes `0xff`. -/
def chrByte (c : Chr) : Byte := (chrInt c).setWidth 8

/-- `GETCHAR()`. -/
def getchar : Prog Probe Byte := fun p =>
  .ret (chrByte p.inp.getc.1)
    { p with inp := p.inp.getc.2, buf := p.buf ++ [chrByte p.inp.getc.1] }

/-- `CHK` after `CHK`; `false` for the jump to `error`. -/
def chk : Bytes → Prog Probe Bool
  | [] => return true
  | c :: cs => do
    if (← getchar) ≠ c then return false
    chk cs

/-- The rest of a magic; `none` for the jump to `error`. -/
def chkFormat (cs : Bytes) (f : Format) : Prog Probe (Option Format) := do
  if ← chk cs then return some f else return none

/-- After `{0xff, 0x06, 0x00}`. -/
def findFraming : Prog Probe (Option Format) := do
  let c ← getchar
  if c = 0x73#8 then
    let c ← getchar
    if c = 0x4e#8 then chkFormat [0x61#8, 0x50#8, 0x70#8, 0x59#8] .framing
    else if c = 0x6e#8 then chkFormat [0x61#8, 0x70#8, 0x70#8, 0x79#8] .comment43
    else return none
  else if c = 0x00#8 then
    chkFormat [0x73#8, 0x4e#8, 0x61#8, 0x50#8, 0x70#8, 0x59#8] .framing2
  else return none

/-- The assignment to `snzip_format_block_size`. -/
def setSnzipFormatBlockSize (b : BitVec 32) : Prog Probe Unit := fun p =>
  .ret () { p with globals := { p.globals with snzipFormatBlockSize := b } }

/-- After `'S'`. -/
def findSnzip : Prog Probe (Option Format) := do
  if ← chk [0x4e#8, 0x5a#8, 0x01#8] then
    let c ← getchar
    setSnzipFormatBlockSize (c.setWidth 32)
    if BitVec.sle (c.setWidth 32) 0#32 then return none else return some .snzip
  else return none

/-- The decision tree; `none` at the label `error`. -/
def findMagic : Prog Probe (Option Format) := do
  let c ← getchar
  if c = 0xff#8 then
    if ← chk [0x06#8, 0x00#8] then findFraming else return none
  else if c = 0x53#8 then findSnzip
  else if c = 0x82#8 then
    chkFormat [0x53#8, 0x4e#8, 0x41#8, 0x50#8, 0x50#8, 0x59#8, 0x00#8] .snappyJava
  else if c = 0x73#8 then
    chkFormat [0x6e#8, 0x61#8, 0x70#8, 0x70#8, 0x79#8, 0x00#8] .snappyInJava
  else return none

/-- How many bytes have been stored. -/
def idx : Prog Probe ℕ := fun p => .ret p.buf.length p

/-- `while (idx < sizeof(u.len)) { GETCHAR(); }`. -/
def fillLengths : Prog Probe Unit :=
  loop (fun _ p => 8 - p.buf.length) (fun (_ : Unit) => do
    if (← idx) < 8 then
      let _ ← getchar
      return .inl ()
    else return .inr ()) ()

/-- The assignments to the two lengths of hadoop-snappy. -/
def setHadoopSnappyLengths (source compressed : BitVec 32) : Prog Probe Unit := fun p =>
  .ret () { p with globals := { p.globals with
    hadoopSnappySourceLength := source, hadoopSnappyCompressedLength := compressed } }

/-- `u.len`. -/
def getLengths : Prog Probe (BitVec 32 × BitVec 32) := fun p =>
  .ret (BitVec.ofNat 32 (beVal (p.buf.take 4)), BitVec.ofNat 32 (beVal ((p.buf.drop 4).take 4))) p

/-- The bound on the compressed length of a first block. -/
def maxCompressedLength : ℕ := snappyMaxCompressedLength (hadoopSnappyMaxInputSize 0#64).toNat

/-- From the label `error` on. -/
def guessHadoop : Prog Probe (Option Format) := do
  fillLengths
  let lengths ← getLengths
  setHadoopSnappyLengths lengths.1 lengths.2
  if lengths.2.toNat ≤ maxCompressedLength then return some .hadoopSnappy else return none

/-- `find_stream_format_by_file_header`. -/
def findStreamFormatByFileHeader : Prog Probe (Option Format) := do
  match ← findMagic with
  | some f => return some f
  | none => guessHadoop

/-! ## The bytes of a header -/

/-- The byte that the call of `getc` number `n` stores. -/
def byteAt (s : Bytes) (n : ℕ) : Byte := s.getD n 0xff#8

/-- The bytes of `k` calls from number `n` on. -/
def slice (s : Bytes) (n : ℕ) : ℕ → Bytes
  | 0 => []
  | k + 1 => byteAt s n :: slice s (n + 1) k

/-- The state after `n` calls of `getc` on the stream `i`. -/
def probed (i : InFile) (g : Globals) (n : ℕ) : Probe := ⟨InFile.next^[n] i, slice i.rest 0 n, g⟩

section Slice

variable {s : Bytes} {n : ℕ}

@[simp] theorem length_slice (s : Bytes) (n k : ℕ) : (slice s n k).length = k := by
  induction k generalizing n with
  | zero => rfl
  | succ k ih => rw [slice, List.length_cons, ih]

theorem slice_add (s : Bytes) (n j k : ℕ) :
    slice s n (j + k) = slice s n j ++ slice s (n + j) k := by
  induction j generalizing n with
  | zero => simp [slice]
  | succ j ih =>
    rw [Nat.succ_add, slice, slice, ih, List.cons_append, Nat.succ_add]
    rfl

theorem slice_succ (s : Bytes) (n k : ℕ) : slice s n (k + 1) = slice s n k ++ [byteAt s (n + k)] :=
  slice_add s n k 1

theorem slice_eq_take {k : ℕ} (h : k ≤ s.length) : slice s 0 k = s.take k := by
  induction k with
  | zero => rfl
  | succ k ih =>
    have hk : k < s.length := by omega
    rw [slice_succ, ih (by omega), List.take_succ_eq_append_getElem hk, Nat.zero_add, byteAt,
      List.getD_eq_getElem?_getD, List.getElem?_eq_getElem hk, Option.getD_some]

theorem lt_length_of_byteAt (h : byteAt s n ≠ 0xff#8) : n < s.length := by
  by_contra hn
  refine h ?_
  rw [byteAt, List.getD_eq_getElem?_getD, List.getElem?_eq_none (by omega), Option.getD_none]

end Slice

@[simp] theorem chrByte_none : chrByte none = 0xff#8 := rfl

@[simp] theorem chrByte_some (b : Byte) : chrByte (some b) = b := by
  simp [chrByte, chrInt]

section Probed

variable {i : InFile} {g : Globals}

theorem rest_iterate_next (n : ℕ) (i : InFile) : (InFile.next^[n] i).rest = i.rest.drop n := by
  rcases Nat.lt_or_ge i.rest.length n with h | h
  · rw [InFile.iterate_next_short n h, List.drop_of_length_le (by omega)]
    rfl
  · rw [InFile.iterate_next h]

theorem fault_iterate_next (n : ℕ) (i : InFile) : (InFile.next^[n] i).fault = i.fault := by
  rcases Nat.lt_or_ge i.rest.length n with h | h
  · rw [InFile.iterate_next_short n h]
    rfl
  · rw [InFile.iterate_next h]

theorem ok_iterate_next (n : ℕ) {i : InFile} (h : i.Ok) : (InFile.next^[n] i).Ok := by
  rcases Nat.lt_or_ge i.rest.length n with hn | hn
  · rw [InFile.iterate_next_short n hn]
    exact h.hitEnd
  · rw [InFile.iterate_next hn]
    by_cases hr : i.rest = []
    · obtain ⟨rest, fault, eof, err⟩ := i
      simp only at hr
      subst hr
      simpa using h
    · exact h.drop hr _

theorem getchar_probed (n : ℕ) :
    getchar (probed i g n) = .ret (byteAt i.rest n) (probed i g (n + 1)) := by
  have hc : chrByte (InFile.next^[n] i).getc.1 = byteAt i.rest n := by
    rw [byteAt, List.getD_eq_getElem?_getD, ← List.head?_drop, ← rest_iterate_next n i,
      InFile.getc]
    cases (InFile.next^[n] i).rest with
    | nil => exact chrByte_none
    | cons b t => exact chrByte_some b
  unfold getchar probed
  rw [hc, slice_succ, Nat.zero_add, Function.iterate_succ_apply']
  rfl

theorem chk_ok (cs : Bytes) {n : ℕ} (h : slice i.rest n cs.length = cs) :
    chk cs (probed i g n) = .ret true (probed i g (n + cs.length)) := by
  induction cs generalizing n with
  | nil => rfl
  | cons c cs ih =>
    rw [List.length_cons, slice, List.cons.injEq] at h
    rw [chk, bind_apply, getchar_probed, Outcome.bind_ret, if_neg (not_not.mpr h.1), ih h.2,
      List.length_cons, Nat.add_assoc, Nat.add_comm 1]

theorem chk_fail (cs : Bytes) {n : ℕ} (h : slice i.rest n cs.length ≠ cs) :
    ∃ j < cs.length, slice i.rest n j = cs.take j ∧
      chk cs (probed i g n) = .ret false (probed i g (n + j + 1)) := by
  induction cs generalizing n with
  | nil => exact absurd rfl h
  | cons c cs ih =>
    by_cases hc : byteAt i.rest n = c
    · obtain ⟨j, hj, htake, hrun⟩ := ih (n := n + 1) fun he => h (by
        rw [List.length_cons, slice, hc, he])
      refine ⟨j + 1, Nat.succ_lt_succ hj, by rw [slice, hc, htake, List.take_succ_cons], ?_⟩
      rw [chk, bind_apply, getchar_probed, Outcome.bind_ret, if_neg (not_not.mpr hc), hrun,
        Nat.add_right_comm n 1 j, Nat.add_assoc n j 1]
    · refine ⟨0, Nat.succ_pos _, rfl, ?_⟩
      rw [chk, bind_apply, getchar_probed, Outcome.bind_ret, if_pos hc]
      rfl

theorem fillLengths_probed (n : ℕ) :
    fillLengths (probed i g n) = .ret () (probed i g (max n 8)) := by
  have hlen : ∀ m, (probed i g m).buf.length = m := fun m => length_slice i.rest 0 m
  have hidx : ∀ m, idx (probed i g m) = .ret m (probed i g m) := fun m => by
    rw [idx, hlen]
  induction hk : 8 - n using Nat.strong_induction_on generalizing n with
  | _ k ih =>
    unfold fillLengths
    by_cases h8 : n < 8
    · have hstep : (do
          if (← idx) < 8 then
            let _ ← getchar
            return .inl ()
          else return .inr () : Prog Probe (Unit ⊕ Unit)) (probed i g n) =
            .ret (.inl ()) (probed i g (n + 1)) := by
        rw [bind_apply, hidx, Outcome.bind_ret, if_pos h8, bind_apply, getchar_probed]
        rfl
      rw [loop_inl (I := fun _ _ => True) ?_ trivial hstep]
      · rw [show max n 8 = max (n + 1) 8 by omega]
        exact ih _ (by omega) (n + 1) rfl
      · intro t p t' p' _ hb
        refine ⟨trivial, ?_⟩
        simp only [bind_apply, idx, Outcome.bind_ret, ite_prog, pure_apply, getchar] at hb
        split at hb
        · cases hb
          simp only [List.length_append, List.length_singleton]
          omega
        · cases hb
    · rw [Nat.max_eq_left (by omega)]
      refine loop_inr ?_
      rw [bind_apply, hidx, Outcome.bind_ret, if_neg h8]
      rfl

/-! ## The decision tree -/

theorem chkFormat_probed (cs : Bytes) (f : Format) (n : ℕ) :
    (slice i.rest n cs.length = cs ∧
      chkFormat cs f (probed i g n) = .ret (some f) (probed i g (n + cs.length))) ∨
    (slice i.rest n cs.length ≠ cs ∧ ∃ j < cs.length, slice i.rest n j = cs.take j ∧
      chkFormat cs f (probed i g n) = .ret none (probed i g (n + j + 1))) := by
  unfold chkFormat
  by_cases h : slice i.rest n cs.length = cs
  · refine Or.inl ⟨h, ?_⟩
    rw [bind_apply, chk_ok cs h]
    rfl
  · obtain ⟨j, hj, htake, hrun⟩ := chk_fail (g := g) cs h
    refine Or.inr ⟨h, j, hj, htake, ?_⟩
    rw [bind_apply, hrun]
    rfl

end Probed

/-- The bytes by which a format is told, without the block size of snzip. -/
def Format.magic : Format → Option Bytes
  | framing2 => some Snzip.framing2.streamHeader
  | framing => some Snzip.framing.streamHeader
  | snzip => some (snzMagic ++ [snzFileVersion])
  | snappyJava => some snappyJavaMagic
  | snappyInJava => some snappyInJavaMagic
  | comment43 => some (0xff#8 :: (leBytes 2 6 ++ comment43Magic))
  | hadoopSnappy | raw | iwa => none

/-- How many calls of `getc` it takes to find a format. -/
def Format.headerLength : Format → ℕ
  | framing2 => 10
  | framing | comment43 => 9
  | snappyJava | hadoopSnappy => 8
  | snappyInJava => 7
  | snzip => 5
  | raw | iwa => 0

/-- The bytes of `s` tell the format. -/
def Tells (s : Bytes) (f : Format) : Prop :=
  ∃ m, f.magic = some m ∧ slice s 0 m.length = m ∧ (f = .snzip → byteAt s 4 ≠ 0x00#8)

section Tells

variable {s : Bytes}

@[simp] theorem tells_framing2 : Tells s .framing2 ↔ byteAt s 0 = 0xff#8 ∧ byteAt s 1 = 0x06#8 ∧
    byteAt s 2 = 0x00#8 ∧ byteAt s 3 = 0x00#8 ∧ byteAt s 4 = 0x73#8 ∧ byteAt s 5 = 0x4e#8 ∧
    byteAt s 6 = 0x61#8 ∧ byteAt s 7 = 0x50#8 ∧ byteAt s 8 = 0x70#8 ∧ byteAt s 9 = 0x59#8 := by
  simp [Tells, Format.magic, framing2, slice]

@[simp] theorem tells_framing : Tells s .framing ↔ byteAt s 0 = 0xff#8 ∧ byteAt s 1 = 0x06#8 ∧
    byteAt s 2 = 0x00#8 ∧ byteAt s 3 = 0x73#8 ∧ byteAt s 4 = 0x4e#8 ∧ byteAt s 5 = 0x61#8 ∧
    byteAt s 6 = 0x50#8 ∧ byteAt s 7 = 0x70#8 ∧ byteAt s 8 = 0x59#8 := by
  simp [Tells, Format.magic, framing, slice]

@[simp] theorem tells_comment43 : Tells s .comment43 ↔ byteAt s 0 = 0xff#8 ∧ byteAt s 1 = 0x06#8 ∧
    byteAt s 2 = 0x00#8 ∧ byteAt s 3 = 0x73#8 ∧ byteAt s 4 = 0x6e#8 ∧ byteAt s 5 = 0x61#8 ∧
    byteAt s 6 = 0x70#8 ∧ byteAt s 7 = 0x70#8 ∧ byteAt s 8 = 0x79#8 := by
  simp [Tells, Format.magic, comment43Magic, slice, leBytes, byteOf]

@[simp] theorem tells_snzip : Tells s .snzip ↔ byteAt s 0 = 0x53#8 ∧ byteAt s 1 = 0x4e#8 ∧
    byteAt s 2 = 0x5a#8 ∧ byteAt s 3 = 0x01#8 ∧ byteAt s 4 ≠ 0x00#8 := by
  simp [Tells, Format.magic, snzMagic, snzFileVersion, slice, and_assoc]

@[simp] theorem tells_snappyJava : Tells s .snappyJava ↔ byteAt s 0 = 0x82#8 ∧ byteAt s 1 = 0x53#8 ∧
    byteAt s 2 = 0x4e#8 ∧ byteAt s 3 = 0x41#8 ∧ byteAt s 4 = 0x50#8 ∧ byteAt s 5 = 0x50#8 ∧
    byteAt s 6 = 0x59#8 ∧ byteAt s 7 = 0x00#8 := by
  simp [Tells, Format.magic, snappyJavaMagic, slice]

@[simp] theorem tells_snappyInJava : Tells s .snappyInJava ↔
    byteAt s 0 = 0x73#8 ∧ byteAt s 1 = 0x6e#8 ∧
    byteAt s 2 = 0x61#8 ∧ byteAt s 3 = 0x70#8 ∧ byteAt s 4 = 0x70#8 ∧ byteAt s 5 = 0x79#8 ∧
    byteAt s 6 = 0x00#8 := by
  simp [Tells, Format.magic, snappyInJavaMagic, slice]

@[simp] theorem not_tells_hadoopSnappy : ¬ Tells s .hadoopSnappy := by simp [Tells, Format.magic]

@[simp] theorem not_tells_raw : ¬ Tells s .raw := by simp [Tells, Format.magic]

@[simp] theorem not_tells_iwa : ¬ Tells s .iwa := by simp [Tells, Format.magic]

theorem Tells.unique {f f' : Format} (h : Tells s f) (h' : Tells s f') : f = f' := by
  cases f <;> cases f' <;> simp_all

end Tells

/-- What the decision tree comes to on `s`, after `m` calls of `getc`. -/
structure FindsMagic (s : Bytes) (r : Option Format) (m : ℕ) (g : Globals) : Prop where
  found : ∀ f, r = some f ↔ Tells s f
  reads : ∀ f, r = some f → m = f.headerLength
  le_ten : m ≤ 10
  le_eight : byteAt s 4 = 0x00#8 → m ≤ 8
  blockSize : r = some .snzip → g.snzipFormatBlockSize = (byteAt s 4).setWidth 32

theorem FindsMagic.of_tells {s : Bytes} {f : Format} {g : Globals} (h : Tells s f)
    (hg : f = .snzip → g.snzipFormatBlockSize = (byteAt s 4).setWidth 32) :
    FindsMagic s (some f) f.headerLength g := by
  refine ⟨fun f' => ⟨fun he => Option.some.inj he ▸ h, fun h' => congrArg some (h.unique h')⟩,
    fun f' he => by rw [Option.some.inj he], ?_, fun h4 => ?_, fun he => hg (Option.some.inj he)⟩
  · cases f <;> decide
  · cases f <;> simp_all

theorem FindsMagic.of_none {s : Bytes} {m : ℕ} (g : Globals) (h : ∀ f, ¬ Tells s f) (hm : m ≤ 10)
    (h4 : byteAt s 4 = 0x00#8 → m ≤ 8) : FindsMagic s none m g := by
  refine ⟨fun f => ⟨fun he => ?_, fun hf => absurd hf (h f)⟩, fun f he => ?_, hm, h4, fun he => ?_⟩
  · cases he
  · cases he
  · cases he

section FindMagic

variable {i : InFile}

theorem finds_chkFormat {c : Bytes} {f : Format} {n : ℕ} (g : Globals)
    (hn : n + c.length = f.headerLength) (hf : f ≠ .snzip)
    (hok : slice i.rest n c.length = c → Tells i.rest f)
    (hbad : slice i.rest n c.length ≠ c → ∀ f, ¬ Tells i.rest f)
    (h4 : ∀ j < c.length, slice i.rest n j = c.take j → byteAt i.rest 4 = 0x00#8 →
      n + j + 1 ≤ 8) :
    ∃ r m, chkFormat c f (probed i g n) = .ret r (probed i g m) ∧ FindsMagic i.rest r m g := by
  rcases chkFormat_probed (i := i) (g := g) c f n with ⟨h, hrun⟩ | ⟨h, j, hj, htake, hrun⟩
  · exact ⟨_, _, hrun, hn ▸ .of_tells (hok h) fun he => absurd he hf⟩
  · refine ⟨_, _, hrun, .of_none g (hbad h) ?_ (h4 j hj htake)⟩
    have : f.headerLength ≤ 10 := by cases f <;> decide
    omega

theorem finds_framing (g : Globals) (h0 : byteAt i.rest 0 = 0xff#8)
    (h1 : byteAt i.rest 1 = 0x06#8) (h2 : byteAt i.rest 2 = 0x00#8) :
    ∃ r m, findFraming (probed i g 3) = .ret r (probed i g m) ∧ FindsMagic i.rest r m g := by
  unfold findFraming
  rw [bind_apply, getchar_probed, Outcome.bind_ret]
  by_cases h3 : byteAt i.rest 3 = 0x73#8
  · rw [if_pos h3, bind_apply, getchar_probed, Outcome.bind_ret]
    by_cases hN : byteAt i.rest 4 = 0x4e#8
    · rw [if_pos hN]
      refine finds_chkFormat g rfl (by decide) (fun h => ?_) (fun h f hf => ?_) fun j hj _ h4 => ?_
      · simp_all [slice]
      · cases f <;> simp_all [slice]
      · rw [hN] at h4
        cases h4
    rw [if_neg hN]
    by_cases hn : byteAt i.rest 4 = 0x6e#8
    · rw [if_pos hn]
      refine finds_chkFormat g rfl (by decide) (fun h => ?_) (fun h f hf => ?_) fun j hj _ h4 => ?_
      · simp_all [slice]
      · cases f <;> simp_all [slice]
      · rw [hn] at h4
        cases h4
    · rw [if_neg hn]
      exact ⟨_, _, rfl, .of_none g (fun f hf => by cases f <;> simp_all) (by decide)
        fun _ => by decide⟩
  rw [if_neg h3]
  by_cases h3' : byteAt i.rest 3 = 0x00#8
  · rw [if_pos h3']
    refine finds_chkFormat g rfl (by decide) (fun h => ?_) (fun h f hf => ?_) fun j hj hs h4 => ?_
    · simp_all [slice]
    · cases f <;> simp_all [slice]
    · -- the first character after the length is not NUL
      cases j with
      | zero => decide
      | succ j =>
        rw [slice, h4, List.take_succ_cons, List.cons.injEq] at hs
        cases hs.1
  · rw [if_neg h3']
    exact ⟨_, _, rfl, .of_none g (fun f hf => by cases f <;> simp_all) (by decide)
      fun _ => by decide⟩

theorem finds_snzip (g : Globals) (h0 : byteAt i.rest 0 = 0x53#8) :
    ∃ r m g', findSnzip (probed i g 1) = .ret r (probed i g' m) ∧ FindsMagic i.rest r m g' := by
  unfold findSnzip
  by_cases hs : slice i.rest 1 3 = [0x4e#8, 0x5a#8, 0x01#8]
  · have hchk : chk [0x4e#8, 0x5a#8, 0x01#8] (probed i g 1) = .ret true (probed i g 4) :=
      chk_ok _ hs
    rw [bind_apply, hchk, Outcome.bind_ret, if_pos rfl, bind_apply, getchar_probed,
      Outcome.bind_ret, bind_apply]
    simp only [slice, List.cons.injEq, and_true] at hs
    have hsle : BitVec.sle ((byteAt i.rest 4).setWidth 32) 0#32 = true ↔
        byteAt i.rest 4 = 0x00#8 := by
      generalize byteAt i.rest 4 = b
      revert b
      decide
    rw [setSnzipFormatBlockSize, Outcome.bind_ret, ite_prog]
    by_cases hb : byteAt i.rest 4 = 0x00#8
    · rw [if_pos (hsle.mpr hb)]
      exact ⟨_, 5, { g with snzipFormatBlockSize := (byteAt i.rest 4).setWidth 32 }, rfl,
        .of_none _ (fun f hf => by cases f <;> simp_all) (by decide) fun _ => by decide⟩
    · rw [if_neg fun h => hb (hsle.mp h)]
      exact ⟨_, 5, { g with snzipFormatBlockSize := (byteAt i.rest 4).setWidth 32 }, rfl,
        .of_tells (f := .snzip) (by simp_all) fun _ => rfl⟩
  · obtain ⟨j, hj, -, hrun⟩ := chk_fail (i := i) (g := g) [0x4e#8, 0x5a#8, 0x01#8] (n := 1) hs
    have hj : j < 3 := hj
    rw [bind_apply, hrun]
    refine ⟨_, _, g, rfl, .of_none g (fun f hf => ?_) (by omega) fun _ => by omega⟩
    cases f <;> simp_all [slice]

/-- **The decision tree.** -/
theorem findMagic_spec (g : Globals) :
    ∃ r m g', findMagic (probed i g 0) = .ret r (probed i g' m) ∧ FindsMagic i.rest r m g' := by
  unfold findMagic
  rw [bind_apply, getchar_probed, Outcome.bind_ret]
  by_cases hff : byteAt i.rest 0 = 0xff#8
  · rw [if_pos hff]
    by_cases hs : slice i.rest 1 2 = [0x06#8, 0x00#8]
    · rw [bind_apply, chk_ok (g := g) [0x06#8, 0x00#8] hs, Outcome.bind_ret, if_pos rfl]
      simp only [slice, List.cons.injEq, and_true] at hs
      obtain ⟨r, m, hrun, hf⟩ := finds_framing g hff hs.1 hs.2
      exact ⟨r, m, g, hrun, hf⟩
    · obtain ⟨j, hj, -, hrun⟩ := chk_fail (i := i) (g := g) [0x06#8, 0x00#8] (n := 1) hs
      have hj : j < 2 := hj
      rw [bind_apply, hrun]
      refine ⟨_, _, g, rfl, .of_none g (fun f hf => ?_) (by omega) fun _ => by omega⟩
      cases f <;> simp_all [slice]
  rw [if_neg hff]
  by_cases hS : byteAt i.rest 0 = 0x53#8
  · rw [if_pos hS]
    exact finds_snzip g hS
  rw [if_neg hS]
  by_cases h82 : byteAt i.rest 0 = 0x82#8
  · rw [if_pos h82]
    obtain ⟨r, m, hrun, hf⟩ := finds_chkFormat (i := i) (f := .snappyJava) (n := 1) g
      (c := [0x53#8, 0x4e#8, 0x41#8, 0x50#8, 0x50#8, 0x59#8, 0x00#8]) rfl (by decide)
      (fun h => by simp_all [slice]) (fun h f hf => by cases f <;> simp_all [slice])
      fun j (hj : j < 7) _ _ => by omega
    exact ⟨r, m, g, hrun, hf⟩
  rw [if_neg h82]
  by_cases hs : byteAt i.rest 0 = 0x73#8
  · rw [if_pos hs]
    obtain ⟨r, m, hrun, hf⟩ := finds_chkFormat (i := i) (f := .snappyInJava) (n := 1) g
      (c := [0x6e#8, 0x61#8, 0x70#8, 0x70#8, 0x79#8, 0x00#8]) rfl (by decide)
      (fun h => by simp_all [slice]) (fun h f hf => by cases f <;> simp_all [slice])
      fun j (hj : j < 6) _ _ => by omega
    exact ⟨r, m, g, hrun, hf⟩
  · rw [if_neg hs]
    exact ⟨_, _, g, rfl, .of_none g (fun f hf => by cases f <;> simp_all) (by decide)
      fun _ => by decide⟩

end FindMagic

/-! ## The guess -/

/-- What is found on `s`, after `n` calls of `getc`. -/
structure Detects (s : Bytes) (r : Option Format) (n : ℕ) (g : Globals) : Prop where
  magic : ∀ f, f ≠ .hadoopSnappy → (r = some f ↔ Tells s f)
  hadoop : r = some .hadoopSnappy ↔
    (∀ f, ¬ Tells s f) ∧ beVal (slice s 4 4) ≤ maxCompressedLength
  reads : ∀ f, r = some f → n = f.headerLength
  le_ten : n ≤ 10
  blockSize : r = some .snzip → g.snzipFormatBlockSize = (byteAt s 4).setWidth 32
  lengths : r = some .hadoopSnappy →
    g.hadoopSnappySourceLength = BitVec.ofNat 32 (beVal (slice s 0 4)) ∧
    g.hadoopSnappyCompressedLength = BitVec.ofNat 32 (beVal (slice s 4 4))

theorem maxCompressedLength_eq : maxCompressedLength = 254857 := by decide

theorem byteAt_eq_zero {s : Bytes} (h : beVal (slice s 4 4) ≤ maxCompressedLength) :
    byteAt s 4 = 0x00#8 := by
  rw [maxCompressedLength_eq] at h
  simp only [slice, beVal, List.reverse_cons, List.reverse_nil, List.nil_append, List.cons_append,
    leVal] at h
  exact BitVec.eq_of_toNat_eq (by rw [BitVec.toNat_ofNat]; omega)

theorem guessHadoop_probed {i : InFile} {g : Globals} {n : ℕ} (hn : n ≤ 10)
    (hf : ∀ f, ¬ Tells i.rest f) (h8 : byteAt i.rest 4 = 0x00#8 → n ≤ 8) :
    ∃ r m g', guessHadoop (probed i g n) = .ret r (probed i g' m) ∧ Detects i.rest r m g' := by
  have hbuf : (probed i g (max n 8)).buf = slice i.rest 0 4 ++ (slice i.rest 4 4 ++
      slice i.rest 8 (max n 8 - 8)) := by
    have hsum : max n 8 = 4 + (4 + (max n 8 - 8)) := by omega
    change slice i.rest 0 (max n 8) = _
    conv_lhs => rw [hsum, slice_add, slice_add]
  have hs : (slice i.rest 0 4).length = 4 := length_slice _ _ _
  have hc : (slice i.rest 4 4).length = 4 := length_slice _ _ _
  have hlengths : getLengths (probed i g (max n 8)) =
      .ret (BitVec.ofNat 32 (beVal (slice i.rest 0 4)), BitVec.ofNat 32 (beVal (slice i.rest 4 4)))
        (probed i g (max n 8)) := by
    rw [getLengths, hbuf, List.take_left' hs, List.drop_left' hs, List.take_left' hc]
  have hto : (BitVec.ofNat 32 (beVal (slice i.rest 4 4))).toNat = beVal (slice i.rest 4 4) := by
    have := beVal_lt (slice i.rest 4 4)
    rw [hc] at this
    rw [BitVec.toNat_ofNat]
    omega
  unfold guessHadoop
  rw [bind_apply, fillLengths_probed, Outcome.bind_ret, bind_apply, hlengths, Outcome.bind_ret,
    bind_apply, setHadoopSnappyLengths, Outcome.bind_ret, ite_prog, hto]
  by_cases hle : beVal (slice i.rest 4 4) ≤ maxCompressedLength
  · have hn8 := h8 (byteAt_eq_zero hle)
    rw [if_pos hle]
    refine ⟨_, 8, { g with
      hadoopSnappySourceLength := BitVec.ofNat 32 (beVal (slice i.rest 0 4))
      hadoopSnappyCompressedLength := BitVec.ofNat 32 (beVal (slice i.rest 4 4)) },
      by rw [Nat.max_eq_right hn8]; rfl, ?_⟩
    refine ⟨fun f hne => ⟨fun he => absurd (Option.some.inj he).symm hne, fun h => absurd h (hf f)⟩,
      ⟨fun _ => ⟨hf, hle⟩, fun _ => rfl⟩, fun f he => ?_, by decide, fun he => ?_,
      fun _ => ⟨rfl, rfl⟩⟩
    · rw [← Option.some.inj he]
      rfl
    · cases he
  · rw [if_neg hle]
    refine ⟨_, max n 8, { g with
      hadoopSnappySourceLength := BitVec.ofNat 32 (beVal (slice i.rest 0 4))
      hadoopSnappyCompressedLength := BitVec.ofNat 32 (beVal (slice i.rest 4 4)) }, rfl, ?_⟩
    refine ⟨fun f _ => ⟨fun he => ?_, fun h => absurd h (hf f)⟩,
      ⟨fun he => ?_, fun h => absurd h.2 hle⟩, fun f he => ?_,
      Nat.max_le.mpr ⟨hn, by decide⟩, fun he => ?_, fun he => ?_⟩
    all_goals cases he

/-- **What the function finds.** -/
theorem findStreamFormatByFileHeader_spec (i : InFile) (g : Globals) :
    ∃ r n g', findStreamFormatByFileHeader (probed i g 0) = .ret r (probed i g' n) ∧
      Detects i.rest r n g' := by
  obtain ⟨r, m, g', hrun, h⟩ := findMagic_spec (i := i) g
  unfold findStreamFormatByFileHeader
  rw [bind_apply, hrun, Outcome.bind_ret]
  cases r with
  | none =>
    have hf : ∀ f, ¬ Tells i.rest f := fun f hf => by cases (h.found f).mpr hf
    exact guessHadoop_probed h.le_ten hf h.le_eight
  | some f =>
    refine ⟨_, m, g', rfl, fun f' _ => h.found f', ?_, h.reads, h.le_ten, h.blockSize, ?_⟩
    · have hf := (h.found f).mp rfl
      refine ⟨fun he => ?_, fun hn => absurd hf (hn.1 f)⟩
      rw [Option.some.inj he] at hf
      exact absurd hf not_tells_hadoopSnappy
    · intro he
      have hf := (h.found f).mp rfl
      rw [Option.some.inj he] at hf
      exact absurd hf not_tells_hadoopSnappy

end Snzip
