import Snzip.Codec
import Snzip.Crc32.Checksum

set_option autoImplicit false

/-!
# Chunked streams

The framing formats and the iwa format are sequences of chunks: an identifier, a little-endian
length, and that many bytes. Their decoders read them with the same statements.

* `getLength`, `skipBytes`: the length field, and a chunk that is passed over;
* `splitChunk`, `Reading`, `chunkPass`: a pass of the decoders as a function of the bytes;
* `follows_writeContent`, `follows_eof`, `follows_bad`: the ways in which a pass ends;
* `ReadsChunks`, **`refines_chunkLoop`**: a decoder's loop plays the script of its chunks.
-/

namespace Snzip

open CProg

/-- The checks of both streams at the end of a codec. -/
def checkStreamErrors : Io ℕ := do
  if ← ferrorIn then return 1
  if ← ferrorOut then return 1
  return 0

/-- `data_len = getc(infp); data_len |= getc(infp) << 8; ...`, `k` times in all. -/
def getLengthFrom (n : BitVec 64) (shift : ℕ) : ℕ → Io (BitVec 64)
  | 0 => pure n
  | k + 1 => do
    let c ← getc
    getLengthFrom (orChr n c shift) (shift + 8) k

/-- A length field of `k` bytes. -/
def getLength (k : ℕ) : Io (BitVec 64) := getLengthFrom 0#64 0 k

/-- A pass of the loop that skips a chunk. -/
def skipPass (n : ℕ) : Io (ℕ ⊕ Bool) := do
  if n = 0 then return .inr true
  if (← getc) = none then return .inr false
  return .inl (n - 1)

/-- `while (data_len-- > 0) { if (getc(infp) == EOF) ... }`. -/
def skipBytes (dataLen : BitVec 64) : Io Bool := loop (fun n _ => n) skipPass dataLen.toNat

/-! ## Reading -/

theorem getLengthFrom_nil {w : World} (hw : w.inp.rest = []) {n : BitVec 64} {j : ℕ} (k : ℕ)
    (hn : n ≠ 0#64) :
    ∃ n' i, n' ≠ 0#64 ∧ i.rest = [] ∧ getLengthFrom n j k w = .ret n' { w with inp := i } := by
  induction k generalizing w n j with
  | zero => exact ⟨n, w.inp, hn, hw, rfl⟩
  | succ k ih =>
    obtain ⟨n', i, hn', hi, he⟩ :=
      ih (w := { w with inp := w.inp.hitEnd }) rfl (orChr_ne_zero_of_left hn none j)
    exact ⟨n', i, hn', hi, by rw [getLengthFrom, bind_apply, getc_nil hw, Outcome.bind_ret, he]⟩

theorem getLengthFrom_short {w : World} {n : BitVec 64} {j k : ℕ}
    (hs : j + 8 * k ≤ 32) (h : w.inp.rest.length < k) :
    ∃ n' i, n' ≠ 0#64 ∧ i.rest = [] ∧ getLengthFrom n j k w = .ret n' { w with inp := i } := by
  induction k generalizing w n j with
  | zero => omega
  | succ k ih =>
    cases hr : w.inp.rest with
    | nil =>
      obtain ⟨n', i, hn', hi, he⟩ := getLengthFrom_nil (w := { w with inp := w.inp.hitEnd }) rfl
        (j := j + 8) k (orChr_eof_ne_zero n (show j < 32 by omega))
      exact ⟨n', i, hn', hi, by rw [getLengthFrom, bind_apply, getc_nil hr, Outcome.bind_ret, he]⟩
    | cons b s =>
      rw [hr, List.length_cons] at h
      obtain ⟨n', i, hn', hi, he⟩ := ih (w := { w with inp := { w.inp with rest := s } })
        (n := orChr n (some b) j) (j := j + 8) (by omega) (by simpa using h)
      exact ⟨n', i, hn', hi, by rw [getLengthFrom, bind_apply, getc_cons hr, Outcome.bind_ret, he]⟩

/-- **A complete length field.** -/
theorem getLengthFrom_eq {w : World} {n : BitVec 64} {j k : ℕ} (hs : j + 8 * k ≤ 31)
    (hn : n.toNat < 2 ^ j) (h : k ≤ w.inp.rest.length) :
    ∃ n', n'.toNat = n.toNat + leVal (w.inp.rest.take k) * 2 ^ j ∧
      getLengthFrom n j k w =
        .ret n' { w with inp := { w.inp with rest := w.inp.rest.drop k } } := by
  induction k generalizing w n j with
  | zero => exact ⟨n, by simp [leVal], rfl⟩
  | succ k ih =>
    cases hr : w.inp.rest with
    | nil => rw [hr, List.length_nil] at h; omega
    | cons b s =>
      have hb : b.toNat < 256 := b.isLt
      have hpow : 2 ^ (j + 8) = 256 * 2 ^ j := by rw [Nat.pow_add, Nat.mul_comm]
      have hle : 2 ^ (j + 8) ≤ 2 ^ 31 := Nat.pow_le_pow_right (by decide) (by omega)
      have hbs : b.toNat * 2 ^ j + 2 ^ j ≤ 2 ^ (j + 8) := by
        rw [hpow, ← Nat.succ_mul]
        exact Nat.mul_le_mul_right _ hb
      have hpos : 0 < 2 ^ j := Nat.two_pow_pos j
      have hor := toNat_orChr_lt hn (show b.toNat * 2 ^ j < 2 ^ 31 by omega)
      rw [hr, List.length_cons] at h
      obtain ⟨n', hn', he⟩ := ih (w := { w with inp := { w.inp with rest := s } })
        (n := orChr n (some b) j) (j := j + 8) (by omega) (by omega) (by simpa using h)
      refine ⟨n', ?_, by rw [getLengthFrom, bind_apply, getc_cons hr, Outcome.bind_ret, he]; rfl⟩
      rw [hn', hor, hpow, List.take_succ_cons, leVal]
      ring

theorem getLength_short {w : World} {k : ℕ} (hk : k ≤ 3) (h : w.inp.rest.length < k) :
    ∃ n i, n ≠ 0#64 ∧ i.rest = [] ∧ getLength k w = .ret n { w with inp := i } :=
  getLengthFrom_short (by omega) h

theorem getLength_eq {w : World} {k : ℕ} (hk : k ≤ 3) (h : k ≤ w.inp.rest.length) :
    ∃ n, n.toNat = leVal (w.inp.rest.take k) ∧
      getLength k w = .ret n { w with inp := { w.inp with rest := w.inp.rest.drop k } } := by
  obtain ⟨n, hn, he⟩ := getLengthFrom_eq (n := 0#64) (j := 0) (w := w) (by omega) (by simp) h
  exact ⟨n, by simpa using hn, he⟩

theorem lowers_skipPass : Lowers (fun _ (_ : World) => True) (fun n _ => n) skipPass := by
  intro n w n' w' _ h
  refine ⟨trivial, ?_⟩
  simp only [skipPass, ite_prog, pure_apply, bind_apply, getc_apply, Outcome.bind_ret] at h
  split at h
  · cases h
  split at h <;> cases h
  exact Nat.sub_lt (by omega) Nat.one_pos

theorem skipPass_loop (n : ℕ) (w : World) :
    if n ≤ w.inp.rest.length then
      loop (fun n _ => n) skipPass n w =
        .ret true { w with inp := { w.inp with rest := w.inp.rest.drop n } }
    else ∃ i, loop (fun n _ => n) skipPass n w = .ret false { w with inp := i } := by
  induction n generalizing w with
  | zero =>
    rw [if_pos (Nat.zero_le _),
      loop_inr (show skipPass 0 w = .ret (.inr true) w by simp [skipPass])]
    rfl
  | succ n ih =>
    cases hr : w.inp.rest with
    | nil =>
      rw [if_neg (by simp)]
      exact ⟨w.inp.hitEnd, loop_inr (by simp [skipPass, InFile.getc, hr])⟩
    | cons b s =>
      have hpass : skipPass (n + 1) w =
        .ret (.inl n) { w with inp := { w.inp with rest := s } } := by
        simp [skipPass, InFile.getc, hr]
      rw [loop_inl lowers_skipPass trivial hpass, List.length_cons, List.drop_succ_cons]
      simp only [Nat.add_le_add_iff_right]
      exact ih { w with inp := { w.inp with rest := s } }

theorem skipBytes_eq {w : World} {dataLen : BitVec 64} (h : dataLen.toNat ≤ w.inp.rest.length) :
    skipBytes dataLen w =
      .ret true { w with inp := { w.inp with rest := w.inp.rest.drop dataLen.toNat } } := by
  have := skipPass_loop dataLen.toNat w
  rwa [if_pos h] at this

theorem skipBytes_short {w : World} {dataLen : BitVec 64}
    (h : w.inp.rest.length < dataLen.toNat) :
    ∃ i, skipBytes dataLen w = .ret false { w with inp := i } := by
  have := skipPass_loop dataLen.toNat w
  rwa [if_neg (by omega)] at this

/-! ## A pass -/

/-- What a decoder makes of a chunk. -/
inductive Reading where
  | bad
  | skip
  | content (c : Bytes)
  deriving DecidableEq

/-- The identifier and the data of the first chunk, and the bytes after it. -/
def splitChunk (k : ℕ) : Bytes → Option (Byte × Bytes × Bytes)
  | [] => none
  | id :: s =>
    if k ≤ s.length ∧ leVal (s.take k) ≤ (s.drop k).length then
      some (id, (s.drop k).take (leVal (s.take k)), (s.drop k).drop (leVal (s.take k)))
    else none

/-- A pass of a decoder. The `break` after a failed `fwrite` is taken for an empty content too. -/
def chunkPass (k : ℕ) (reading : Byte → Bytes → Reading) (fault : Bool) (_ : Unit) (s : Bytes) :
    Pass Unit :=
  if s = [] then .finish ⟨[], if fault then .status 1 else .checked 0⟩
  else match splitChunk k s with
    | none => .finish ⟨[], .status 1⟩
    | some (id, data, rest) =>
      match reading id data with
      | .bad => .finish ⟨[], .status 1⟩
      | .skip => .again [] () rest
      | .content c =>
        if c = [] then .finish ⟨[], .checked 0⟩ else .again [.fwriteOk c] () rest

/-- `if (fwrite(...) != 1) break;` at the end of a pass. -/
def writeContent (c : Bytes) : Io (Unit ⊕ Bool) := do
  if ← fwrite c then return .inl ()
  return .inr true

/-- After the loop: `false` jumps to the clean-up. -/
def afterChunks (ok : Bool) : Io ℕ := do
  if !ok then return 1
  checkStreamErrors

theorem afterChunks_true (w : World) :
    afterChunks true w = .ret (if w.inp.err || w.out.err then 1 else 0) w := by
  cases hi : w.inp.err <;> cases ho : w.out.err <;> simp [afterChunks, checkStreamErrors, hi, ho]

theorem afterChunks_refines {w : World} {fault : Bool} (h : w.inp.err = fault) :
    (afterChunks true w).view World.out =
      (Script.mk [] (if fault then .status 1 else .checked 0)).playback w.out := by
  rw [afterChunks_true, h]
  cases fault <;> cases ho : w.out.err <;> simp [Script.playback, playAll, Verdict.close, ho]

section Follows

variable {w : World}

theorem follows_eof (hw : w.inp.Ok) :
    Follows (ρ := Unit) (τ := Unit) (fun _ _ => True) afterChunks w
      (.finish ⟨[], if w.inp.fault then .status 1 else .checked 0⟩)
      (.ret (.inr true) { w with inp := w.inp.hitEnd }) := by
  refine .finish ?_
  rw [afterChunks_true, hw.err_hitEnd]
  cases w.inp.fault <;> cases ho : w.out.err <;>
    simp [Script.playback, playAll, Verdict.close, ho]

theorem follows_bad (w' : World) (h : w'.out = w.out) :
    Follows (ρ := Unit) (τ := Unit) (fun _ _ => True) afterChunks w (.finish ⟨[], .status 1⟩)
      (.ret (.inr false) w') := by
  refine .finish ?_
  simp [afterChunks, Script.playback, playAll, Verdict.close, h]

theorem playAll_fwriteOk (c : Bytes) (o : OutFile) : playAll [.fwriteOk c] o = o.fwrite c := by
  cases h : o.fwrite c with
  | mk ok o' => cases ok <;> simp [playAll, Write.play, h]

/-- **The content of a chunk is written**, and the pass goes round again unless that fails or there
was nothing to write. -/
theorem follows_writeContent (hw : w.inp.Ok) (hne : w.inp.rest ≠ []) {rest : Bytes}
    (hlt : rest.length < w.inp.rest.length) (c : Bytes) :
    Follows (ρ := Unit) (fun _ _ => True) afterChunks w
      (if c = [] then .finish ⟨[], .checked 0⟩ else .again [.fwriteOk c] () rest)
      (writeContent c { w with inp := { w.inp with rest := rest } }) := by
  have herr := (hw.flags hne).2
  cases hf : w.out.fwrite c with
  | mk ok o =>
    have hrun : writeContent c { w with inp := { w.inp with rest := rest } } =
        .ret (if ok then .inl () else .inr true) ⟨{ w.inp with rest := rest }, o⟩ := by
      cases ok <;> simp [writeContent, hf]
    have hplay : playAll [.fwriteOk c] w.out = (ok, o) := by rw [playAll_fwriteOk, hf]
    rw [hrun]
    by_cases hc : c = []
    · -- nothing is written, and the stream looks fine
      have hok : ok = false ∧ o = w.out := by simpa [hc, OutFile.fwrite, eq_comm] using hf
      rw [if_pos hc, hok.1, hok.2]
      refine .finish ?_
      rw [afterChunks_true, herr]
      rfl
    · rw [if_neg hc]
      cases ok with
      | true =>
        have := Follows.again (R := fun (_ _ : Unit) => True) (k := afterChunks) (w := w)
          (v := [.fwriteOk c]) (r := ()) (t := ()) trivial (hw.drop hne rest) rfl rfl hlt
          (by rw [hplay])
        rwa [hplay] at this
      | false =>
        have herr' : o.err = true := by
          have := OutFile.err_of_fwrite hc (congrArg Prod.fst hf)
          rwa [hf] at this
        refine .stuck hlt (by rw [hplay]) ?_
        rw [afterChunks_true, hplay]
        simp [herr']

end Follows

/-- The loop body of a decoder, from what it does with an identifier. -/
def passOf (chunk : Byte → Io (Unit ⊕ Bool)) (_ : Unit) : Io (Unit ⊕ Bool) := do
  match ← getc with
  | none => return .inr true
  | some id => chunk id

/-- What a pass does about a chunk, from the world `w` with `rest` left after it. -/
def Acts (w : World) (rest : Bytes) (o : Outcome World (Unit ⊕ Bool)) : Reading → Prop
  | .bad => ∃ i, o = .ret (.inr false) { w with inp := i }
  | .skip => o = .ret (.inl ()) { w with inp := { w.inp with rest := rest } }
  | .content c => o = writeContent c { w with inp := { w.inp with rest := rest } }

theorem Acts.ite {w : World} {rest : Bytes} {p : Prop} [Decidable p] {m m' : Io (Unit ⊕ Bool)}
    {r r' : Reading} (ht : p → Acts w rest (m w) r) (he : ¬p → Acts w rest (m' w) r') :
    Acts w rest ((if p then m else m') w) (if p then r else r') := by
  by_cases h : p
  · rw [if_pos h, if_pos h]
    exact ht h
  · rw [if_neg h, if_neg h]
    exact he h

/-- `chunk` reads the length and the data of a chunk and acts on what `reading` makes of it. -/
structure ReadsChunks (k : ℕ) (reading : Byte → Bytes → Reading)
    (chunk : Byte → Io (Unit ⊕ Bool)) : Prop where
  short : ∀ id w, splitChunk k (id :: w.inp.rest) = none →
    ∃ i, chunk id w = .ret (.inr false) { w with inp := i }
  whole : ∀ id w data rest, splitChunk k (id :: w.inp.rest) = some (id, data, rest) →
    Acts w rest (chunk id w) (reading id data)

theorem splitChunk_cons {k : ℕ} {id : Byte} {s : Bytes} {p : Byte × Bytes × Bytes}
    (h : splitChunk k (id :: s) = some p) :
    k ≤ s.length ∧ leVal (s.take k) ≤ (s.drop k).length ∧
      p = (id, (s.drop k).take (leVal (s.take k)), (s.drop k).drop (leVal (s.take k))) := by
  rw [splitChunk] at h
  split at h
  · next hc => exact ⟨hc.1, hc.2, (Option.some.inj h).symm⟩
  · cases h

theorem length_splitChunk {k : ℕ} {s : Bytes} {id : Byte} {data rest : Bytes}
    (h : splitChunk k s = some (id, data, rest)) : rest.length < s.length := by
  cases s with
  | nil => cases h
  | cons b s =>
    obtain ⟨-, -, hp⟩ := splitChunk_cons h
    simp only [Prod.mk.injEq] at hp
    rw [hp.2.2, List.length_drop, List.length_drop, List.length_cons]
    omega

section Data

variable {k : ℕ} {data : BitVec 64 → Io (Unit ⊕ Bool)} {id : Byte} {w : World}

/-- A chunk that is cut short, from what the decoder does after the length field. -/
theorem short_of_data (hk : k ≤ 3)
    (hdata : ∀ n (w : World), w.inp.rest.length < n.toNat →
      ∃ i, data n w = .ret (.inr false) { w with inp := i })
    (h : splitChunk k (id :: w.inp.rest) = none) :
    ∃ i, (getLength k >>= data) w = .ret (.inr false) { w with inp := i } := by
  by_cases hlen : k ≤ w.inp.rest.length
  · obtain ⟨n, hn, he⟩ := getLength_eq hk hlen
    have hs : (w.inp.rest.drop k).length < n.toNat := by
      rw [splitChunk] at h
      split at h
      · cases h
      · next hc =>
        rw [hn]
        by_contra hle
        exact hc ⟨hlen, by omega⟩
    obtain ⟨i, hi⟩ := hdata n { w with inp := { w.inp with rest := w.inp.rest.drop k } } hs
    exact ⟨i, by rw [bind_apply, he, Outcome.bind_ret, hi]⟩
  · obtain ⟨n, i, hn, hi, he⟩ := getLength_short hk (Nat.lt_of_not_le hlen)
    have hs : i.rest.length < n.toNat := by
      rw [hi, List.length_nil]
      exact Nat.pos_of_ne_zero fun h0 => hn (BitVec.eq_of_toNat_eq h0)
    obtain ⟨i', hi'⟩ := hdata n { w with inp := i } hs
    exact ⟨i', by rw [bind_apply, he, Outcome.bind_ret, hi']⟩

theorem acts_of_data (hk : k ≤ 3) {reading : Byte → Bytes → Reading} {bytes rest : Bytes}
    (hdata : ∀ n (w : World), n.toNat < 2 ^ 24 → n.toNat ≤ w.inp.rest.length →
      Acts w (w.inp.rest.drop n.toNat) (data n w) (reading id (w.inp.rest.take n.toNat)))
    (h : splitChunk k (id :: w.inp.rest) = some (id, bytes, rest)) :
    Acts w rest ((getLength k >>= data) w) (reading id bytes) := by
  obtain ⟨h₁, h₂, hp⟩ := splitChunk_cons h
  simp only [Prod.mk.injEq, true_and] at hp
  obtain ⟨n, hn, he⟩ := getLength_eq hk h₁
  have hlt : n.toNat < 2 ^ 24 := by
    have h3 := leVal_lt (w.inp.rest.take k)
    rw [List.length_take_of_le h₁] at h3
    have := Nat.pow_le_pow_right (show 0 < 256 by decide) hk
    omega
  have hact := hdata n { w with inp := { w.inp with rest := w.inp.rest.drop k } } hlt
    (by rw [hn]; exact h₂)
  rw [bind_apply, he, Outcome.bind_ret]
  simp only [hn, ← hp.1, ← hp.2] at hact
  exact hact

end Data

/-- **A pass of a decoder** is as `chunkPass` says. -/
theorem follows_chunkPass {k : ℕ} {reading : Byte → Bytes → Reading}
    {chunk : Byte → Io (Unit ⊕ Bool)} (h : ReadsChunks k reading chunk) {w : World}
    (hw : w.inp.Ok) :
    Follows (fun _ _ => True) afterChunks w (chunkPass k reading w.inp.fault () w.inp.rest)
      (passOf chunk () w) := by
  unfold chunkPass
  cases hr : w.inp.rest with
  | nil =>
    rw [if_pos rfl, passOf, bind_apply, getc_nil hr]
    exact follows_eof hw
  | cons b s =>
    have hne : w.inp.rest ≠ [] := by rw [hr]; exact List.cons_ne_nil b s
    rw [if_neg (List.cons_ne_nil b s), passOf, bind_apply, getc_cons hr]
    simp only [Outcome.bind_ret]
    generalize hv : ({ w with inp := { w.inp with rest := s } } : World) = v
    have hvr : v.inp.rest = s := by rw [← hv]
    have hvo : v.out = w.out := by rw [← hv]
    rw [← hvr]
    cases hs : splitChunk k (b :: v.inp.rest) with
    | none =>
      obtain ⟨i, hi⟩ := h.short b v hs
      rw [hi]
      exact follows_bad _ hvo
    | some p =>
      obtain ⟨id, data, rest⟩ := p
      have hid : id = b := by
        have := (splitChunk_cons hs).2.2
        simp only [Prod.mk.injEq] at this
        exact this.1
      subst hid
      have hlt : rest.length < w.inp.rest.length := by
        rw [hr, ← hvr]
        exact length_splitChunk hs
      simp only
      have hact := h.whole id v data rest hs
      cases hd : reading id data with
      | bad =>
        rw [hd] at hact
        obtain ⟨i, hi⟩ := hact
        rw [hi]
        exact follows_bad _ hvo
      | skip =>
        rw [hd] at hact
        rw [show chunk id v = _ from hact, ← hv]
        exact .again trivial (hw.drop hne rest) rfl rfl hlt rfl
      | content c =>
        rw [hd] at hact
        rw [show chunk id v = _ from hact, ← hv]
        exact follows_writeContent hw hne hlt c

/-- `for (;;) { ... }` and the checks after it. -/
def chunkLoop (chunk : Byte → Io (Unit ⊕ Bool)) : Io ℕ :=
  loop (fun _ w => w.inp.rest.length) (passOf chunk) () >>= afterChunks

/-- **A decoder's loop plays the script of its chunks.** -/
theorem refines_chunkLoop {k : ℕ} {reading : Byte → Bytes → Reading}
    {chunk : Byte → Io (Unit ⊕ Bool)} (h : ReadsChunks k reading chunk) :
    Refines (chunkLoop chunk) fun fault s => unroll (chunkPass k reading fault) () s := by
  intro w hw
  exact loop_follows (p := chunkPass k reading) (fun _ _ w _ hw => follows_chunkPass h hw)
    trivial hw

end Snzip
