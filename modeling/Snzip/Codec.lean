import Snzip.Io
import Snzip.Lib.Blocks

set_option autoImplicit false

/-!
# The loops that the codecs share

Every compressor reads its input in blocks, `while ((n = fread(buf, 1, max, infp)) > 0)`, and writes
something for each. Every decoder reads a chunk at a time, `for (;;)`.

* `Plays`, `Refines`: a program makes certain writes, a codec is the playback of a script;
* `whileFread`, **`whileFread_plays`**: the loop makes the writes of each block in turn;
* `Pass`, `unroll`, `Follows`, **`loop_follows`**: a decoder's loop, pass by pass;
* `Codec.run`: a codec on a file, with no write failing; **`run_of_refines`**.
-/

namespace Snzip

open CProg

/-- The program makes these writes and does nothing else; it returns `false` when one of them
stopped it. -/
def Plays (m : Io Bool) (ws : List Write) : Prop :=
  ∀ w, m w = .ret (playAll ws w.out).1 { w with out := (playAll ws w.out).2 }

theorem plays_putcs_fwrite (a b : Bytes) :
    Plays (do putcs a; fwrite b) [.putc a, .fwriteOk b] := by
  intro w
  cases h : (w.out.putcs a).fwrite b with
  | mk ok o => cases ok <;> simp [playAll, Write.play, h]

/-- The codec, on a stream of which these bytes are left and which then ends or fails, is the
playback of a script. -/
def Refines (m : Io ℕ) (sc : Bool → Bytes → Script) : Prop :=
  ∀ w, w.inp.Ok → (m w).view World.out = (sc w.inp.fault w.inp.rest).playback w.out

/-- The same, on a stream that has not failed yet. -/
def RefinesFresh (m : Io ℕ) (sc : Bool → Bytes → Script) : Prop :=
  ∀ w, w.inp.Ok → w.inp.err = false →
    (m w).view World.out = (sc w.inp.fault w.inp.rest).playback w.out

theorem Refines.fresh {m : Io ℕ} {sc : Bool → Bytes → Script} (h : Refines m sc) :
    RefinesFresh m sc := fun w hw _ => h w hw

theorem refines_fwriteOk {bs : Bytes} {m : Io ℕ} {sc : Bool → Bytes → Script} (hm : Refines m sc) :
    Refines (do if !(← fwrite bs) then return 1
                m) fun fault s => (sc fault s).after [.fwriteOk bs] := by
  intro w hw
  rw [Script.playback_after]
  cases h : w.out.fwrite bs with
  | mk ok o =>
    cases ok with
    | false => simp [h, playAll, Write.play]
    | true =>
      have := hm ⟨w.inp, o⟩ hw
      simpa [h, playAll, Write.play] using this

/-- `read_data`: it returns the data, or reports that the stream has ended or failed. -/
def readData (buflen : ℕ) : Io (Option Bytes) := fread buflen

theorem readData_eq {w : World} {n : ℕ} (hn : n ≠ 0) (h : n ≤ w.inp.rest.length) :
    readData n w = .ret (some (w.inp.rest.take n))
      { w with inp := { w.inp with rest := w.inp.rest.drop n } } := fread_eq hn h

theorem readData_short {w : World} {n : ℕ} (h : w.inp.rest.length < n) :
    readData n w = .ret none { w with inp := w.inp.hitEnd } := fread_short h

/-- A header of `n` bytes with its checks, which may be passed with a value. -/
def readHeader {α : Type} (n : ℕ) (check : Bytes → Option α) : Io (Option α) := do
  match ← fread n with
  | none => return none
  | some header => return check header

/-- The value that a header is passed with, and the bytes after it. -/
def takeHeader {α : Type} (n : ℕ) (check : Bytes → Option α) (s : Bytes) : Option (α × Bytes) :=
  if s.length < n then none else (check (s.take n)).map fun a => (a, s.drop n)

section Header

variable {α : Type} {n : ℕ} {check : Bytes → Option α} {w : World}

theorem readHeader_none (hn : n ≠ 0) (h : takeHeader n check w.inp.rest = none) :
    ∃ i, readHeader n check w = .ret none { w with inp := i } := by
  unfold takeHeader at h
  unfold readHeader
  rw [bind_apply]
  by_cases hlen : w.inp.rest.length < n
  · rw [fread_short hlen]
    exact ⟨_, rfl⟩
  · rw [if_neg hlen, Option.map_eq_none_iff] at h
    rw [fread_eq hn (Nat.le_of_not_lt hlen), Outcome.bind_ret]
    exact ⟨{ w.inp with rest := w.inp.rest.drop n }, by simp only [h]; rfl⟩

theorem readHeader_some (hn : n ≠ 0) (hw : w.inp.Ok) {a : α} {rest : Bytes}
    (h : takeHeader n check w.inp.rest = some (a, rest)) :
    ({ w.inp with rest := rest } : InFile).Ok ∧
      readHeader n check w = .ret (some a) { w with inp := { w.inp with rest := rest } } := by
  unfold takeHeader at h
  unfold readHeader
  rw [bind_apply]
  by_cases hlen : w.inp.rest.length < n
  · rw [if_pos hlen] at h
    cases h
  · rw [if_neg hlen, Option.map_eq_some_iff] at h
    obtain ⟨a', ha, he⟩ := h
    cases he
    rw [fread_eq hn (Nat.le_of_not_lt hlen), Outcome.bind_ret]
    refine ⟨hw.drop (fun h0 => hlen ?_) _, ?_⟩
    · rw [h0, List.length_nil]
      omega
    · simp only [ha]
      rfl

end Header

/-- `while ((n = fread(buf, 1, max, infp)) > 0) { ... }`, where the body answers `false` to jump to
the clean-up. -/
def whileFread (max : ℕ) (body : Bytes → Io Bool) : Io Bool :=
  loop (fun _ w => w.inp.rest.length) (fun (_ : Unit) => do
    let data ← freadBytes max
    if data = [] then return .inr true
    if ← body data then return .inl ()
    return .inr false) ()

section WhileFread

variable {max : ℕ} {body : Bytes → Io Bool} {ws : Bytes → List Write}

theorem whileFread_nil (w : World) (h : (w.inp.freadBytes max).1 = []) :
    whileFread max body w = .ret true { w with inp := (w.inp.freadBytes max).2 } := by
  refine loop_inr ?_
  simp [h]

theorem lowers_whileFread (hb : ∀ d, Plays (body d) (ws d)) :
    Lowers (fun _ _ => True) (fun (_ : Unit) (w : World) => w.inp.rest.length)
      (fun (_ : Unit) => do
        let data ← freadBytes max
        if data = [] then return .inr true
        if ← body data then return .inl ()
        return (.inr false : Unit ⊕ Bool)) := by
  intro t w t' w' _ h
  refine ⟨trivial, ?_⟩
  simp only [bind_apply, freadBytes_apply, Outcome.bind_ret, ite_prog, pure_apply] at h
  split at h
  · cases h
  next hne =>
  rw [hb _ _, Outcome.bind_ret, ite_prog] at h
  split at h
  · cases h
    have h0 : max ≠ 0 ∧ w.inp.rest ≠ [] := by
      constructor <;> intro h0 <;> exact hne (by simp [InFile.freadBytes, h0])
    simp only [InFile.freadBytes]
    split
    · exact length_drop_lt (by omega) h0.2
    · exact List.length_pos_iff.mpr h0.2
  · cases h

theorem whileFread_cons (hb : ∀ d, Plays (body d) (ws d)) {w : World}
    (h : (w.inp.freadBytes max).1 ≠ []) :
    whileFread max body w =
      if (playAll (ws (w.inp.freadBytes max).1) w.out).1 then
        whileFread max body ⟨(w.inp.freadBytes max).2,
          (playAll (ws (w.inp.freadBytes max).1) w.out).2⟩
      else .ret false ⟨(w.inp.freadBytes max).2,
        (playAll (ws (w.inp.freadBytes max).1) w.out).2⟩ := by
  split
  · next hp =>
    refine loop_inl (lowers_whileFread hb) trivial ?_
    simp [h, hb _ _, hp]
  · next hp =>
    refine loop_inr ?_
    simp [h, hb _ _, hp]

/-- **The loop makes the writes of each block in turn**, and reads up to the end. -/
theorem whileFread_plays (hb : ∀ d, Plays (body d) (ws d)) (hmax : 0 < max) {w : World}
    (hw : w.inp.Ok) :
    ∃ i, whileFread max body w =
        .ret (playAll ((blocks max w.inp.rest).flatMap ws) w.out).1
          ⟨i, (playAll ((blocks max w.inp.rest).flatMap ws) w.out).2⟩ ∧
      ((playAll ((blocks max w.inp.rest).flatMap ws) w.out).1 = true →
        i.err = w.inp.fault ∧ i.eof = !w.inp.fault) := by
  obtain ⟨inp, out⟩ := w
  induction hk : inp.rest.length using Nat.strong_induction_on generalizing inp out with
  | _ k ih =>
    by_cases hr : inp.rest = []
    · have hf := InFile.freadBytes_nil hmax hr
      rw [whileFread_nil _ (congrArg Prod.fst hf), hr, hf]
      exact ⟨inp.hitEnd, by simp [playAll], fun _ => ⟨hw.err_hitEnd, hw.eof_hitEnd⟩⟩
    · have hne : (inp.freadBytes max).1 ≠ [] := by
        simp only [InFile.freadBytes, ne_eq, List.take_eq_nil_iff, hr, or_false]
        omega
      have hrest := InFile.rest_freadBytes max inp
      rw [whileFread_cons hb hne, blocks_of_ne_nil hmax hr, List.flatMap_cons, playAll_append]
      change ∃ i, (if (playAll (ws (inp.rest.take max)) out).1 = true then _ else _) = _ ∧ _
      split
      · obtain ⟨i, hi, he⟩ := ih _ (by rw [hrest, ← hk]; exact length_drop_lt hmax hr)
          (inp.freadBytes max).2 (playAll (ws (inp.rest.take max)) out).2 (hw.freadBytes max) rfl
        rw [hrest] at hi he
        exact ⟨i, hi, fun h => InFile.fault_freadBytes max inp ▸ he h⟩
      · exact ⟨_, rfl, fun h => Bool.noConfusion h⟩

/-- **A compressor's loop and what comes after it**: after the writes of the blocks, the writes and
the verdict of `g`. -/
theorem whileFread_bind (hb : ∀ d, Plays (body d) (ws d)) (hmax : 0 < max) {k : Bool → Io ℕ}
    {g : Bool → Script} (hfalse : ∀ w, (k false w).view World.out = .ret 1 w.out)
    (htrue : ∀ w fault, w.inp.err = fault → w.inp.eof = !fault →
      (k true w).view World.out = (g fault).playback w.out) :
    Refines (whileFread max body >>= k) fun fault s =>
      (g fault).after ((blocks max s).flatMap ws) := by
  intro w hw
  obtain ⟨i, hi, hend⟩ := whileFread_plays hb hmax hw
  rw [bind_apply, hi, Outcome.bind_ret, Script.playback_after]
  generalize playAll ((blocks max w.inp.rest).flatMap ws) w.out = p at hend ⊢
  obtain ⟨ok, o⟩ := p
  cases ok with
  | true => exact htrue ⟨i, o⟩ _ (hend rfl).1 (hend rfl).2
  | false => exact hfalse ⟨i, o⟩

end WhileFread

/-! ### Compressors with a work buffer -/

/-- The end of a compressor that looks at `feof` only. -/
def finishAtEof (ok : Bool) : Io ℕ := do
  if !ok then return 1
  if !(← feofIn) then return 1
  return 0

/-- The script after the header, with this block size. -/
def blockScript (ws : Bytes → List Write) (n : ℕ) (fault : Bool) (s : Bytes) : Script :=
  if !(malloc n && malloc (snappyMaxCompressedLength n)) then ⟨[], .exit 1⟩
  else (Script.mk [] (.status (if fault then 1 else 0))).after ((blocks n s).flatMap ws)

theorem finishAtEof_refines {w : World} {fault : Bool} (h : w.inp.eof = !fault) :
    (finishAtEof true w).view World.out =
      (Script.mk [] (.status (if fault then 1 else 0))).playback w.out := by
  cases fault <;> simp_all [finishAtEof, Script.playback, playAll, Verdict.close]

theorem refines_blockScript {body : WorkBuffer → Bytes → Io Bool} {f : Bytes → List Write}
    (hb : ∀ wb d, Plays (body wb d) (f d)) {b : BitVec 64} (h0 : b ≠ 0#64) :
    Refines (do
      let wb ← workBufferInit b
      whileFread wb.uclen (body wb) >>= finishAtEof) (blockScript f b.toNat) := by
  intro w hw
  unfold blockScript
  rw [bind_apply]
  by_cases hm : (malloc b.toNat && malloc (snappyMaxCompressedLength b.toNat)) = true
  · rw [workBufferInit_ok hm, Outcome.bind_ret]
    simp only [hm, Bool.not_true, Bool.false_eq_true, if_false]
    exact whileFread_bind (k := finishAtEof)
      (g := fun fault => ⟨[], .status (if fault then 1 else 0)⟩) (hb _)
      (Nat.pos_of_ne_zero fun hz => h0 (BitVec.eq_of_toNat_eq hz)) (fun w => rfl)
      (fun w fault _ h => finishAtEof_refines h) w hw
  · rw [workBufferInit_fail hm]
    simp [hm, Script.playback, playAll, Verdict.close]

/-! ## Decoders -/

/-- What a pass of a decoder's loop does with the bytes that are left: it makes some writes and
goes round again on what it did not read, or it comes to the end. -/
inductive Pass (ρ : Type) where
  | again (ws : List Write) (r : ρ) (rest : Bytes)
  | finish (sc : Script)

/-- The script of a loop. A pass that reads nothing and goes round again never ends. -/
def unroll {ρ : Type} (pass : ρ → Bytes → Pass ρ) (r : ρ) (s : Bytes) : Script :=
  match pass r s with
  | .again ws r' rest =>
    if rest.length < s.length then (unroll pass r' rest).after ws else ⟨ws, .diverge⟩
  | .finish sc => sc
termination_by s.length

section Decoders

variable {ρ τ α : Type}

theorem unroll_again {pass : ρ → Bytes → Pass ρ} {r r' : ρ} {s rest : Bytes} {ws : List Write}
    (h : pass r s = .again ws r' rest) (hlt : rest.length < s.length) :
    unroll pass r s = (unroll pass r' rest).after ws := by
  rw [unroll, h]
  exact if_pos hlt

theorem unroll_finish {pass : ρ → Bytes → Pass ρ} {r : ρ} {s : Bytes} {c : Script}
    (h : pass r s = .finish c) : unroll pass r s = c := by
  rw [unroll, h]

/-- **Records in a row are read one after the other**, whatever follows them. -/
theorem unroll_flatMap {γ : Type} {p : ρ → Bytes → Pass ρ} {r : ρ} {e : γ → Bytes}
    {f : γ → List Write} {l : List γ}
    (h : ∀ d ∈ l, ∀ rest, unroll p r (e d ++ rest) = (unroll p r rest).after (f d))
    (rest : Bytes) :
    unroll p r (l.flatMap e ++ rest) = (unroll p r rest).after (l.flatMap f) := by
  induction l with
  | nil => rfl
  | cons d l ih =>
    rw [List.flatMap_cons, List.append_assoc, h d List.mem_cons_self,
      ih fun d hd => h d (List.mem_cons_of_mem _ hd), Script.after_append]
    rfl

/-- A run of a loop body from the world `w` is as the pass says; `k` is what the program does after
the loop, and `R` relates the loop's variables to the state of the pass. -/
inductive Follows (R : ρ → τ → Prop) (k : α → Io ℕ) (w : World) :
    Pass ρ → Outcome World (τ ⊕ α) → Prop
  | again {v r t rest i} (hR : R r t) (hi : i.Ok) (hrest : i.rest = rest)
      (hfault : i.fault = w.inp.fault) (hlt : rest.length < w.inp.rest.length)
      (hws : (playAll v w.out).1 = true) :
      Follows R k w (.again v r rest) (.ret (.inl t) ⟨i, (playAll v w.out).2⟩)
  | stuck {ws r rest a w'} (hlt : rest.length < w.inp.rest.length)
      (hws : (playAll ws w.out).1 = false)
      (hk : (k a w').view World.out = .ret 1 (playAll ws w.out).2) :
      Follows R k w (.again ws r rest) (.ret (.inr a) w')
  | finish {sc a w'} (hk : (k a w').view World.out = sc.playback w.out) :
      Follows R k w (.finish sc) (.ret (.inr a) w')
  | exit {sc c w'} (hk : sc.playback w.out = .exit c w'.out) :
      Follows R k w (.finish sc) (.exit c w')

variable {R : ρ → τ → Prop} {k : α → Io ℕ} {b : τ → Io (τ ⊕ α)} {p : Bool → ρ → Bytes → Pass ρ}

theorem lowers_of_follows (h : ∀ r t w, R r t → w.inp.Ok →
      Follows R k w (p w.inp.fault r w.inp.rest) (b t w)) :
    Lowers (fun t w => w.inp.Ok ∧ ∃ r, R r t) (fun _ w => w.inp.rest.length) b := by
  rintro t w t' w' ⟨hw, r, hR⟩ hb
  have hf := h r t w hR hw
  rw [hb] at hf
  generalize p w.inp.fault r w.inp.rest = q at hf
  cases hf with
  | again hR' hi hrest hfault hlt hws => exact ⟨⟨hi, _, hR'⟩, by simpa only [hrest] using hlt⟩

/-- **A loop whose every pass is as described plays the script of the passes.** -/
theorem loop_follows (h : ∀ r t w, R r t → w.inp.Ok →
      Follows R k w (p w.inp.fault r w.inp.rest) (b t w))
    {r : ρ} {t : τ} {w : World} (hR : R r t) (hw : w.inp.Ok) :
    ((loop (fun _ w => w.inp.rest.length) b t w).bind k).view World.out =
      (unroll (p w.inp.fault) r w.inp.rest).playback w.out := by
  induction hn : w.inp.rest.length using Nat.strong_induction_on generalizing r t w with
  | _ n ih =>
    have hf := h r t w hR hw
    cases hp : p w.inp.fault r w.inp.rest with
    | again ws r' rest =>
      rw [hp] at hf
      generalize hb : b t w = o at hf
      cases hf with
      | again hR' hi hrest hfault hlt hws =>
        rw [unroll_again hp hlt, Script.playback_after, if_pos hws,
          loop_inl (lowers_of_follows h) ⟨hw, r, hR⟩ hb, ih _ (by simpa [hrest, ← hn]) hR' hi rfl,
          hrest, hfault]
      | stuck hlt hws hk =>
        rw [unroll_again hp hlt, Script.playback_after, hws, loop_inr hb]
        exact hk
    | finish sc =>
      rw [hp] at hf
      rw [unroll_finish hp]
      generalize hb : b t w = o at hf
      cases hf with
      | finish hk => rw [loop_inr hb]; exact hk
      | exit hk => rw [loop_exit hb, hk]; rfl

theorem loop_follows_pure {R : ρ → τ → Prop} {b : τ → Io (τ ⊕ ℕ)}
    {p : Bool → ρ → Bytes → Pass ρ}
    (h : ∀ r t w, R r t → w.inp.Ok →
      Follows R (fun n => pure n) w (p w.inp.fault r w.inp.rest) (b t w))
    {r : ρ} {t : τ} {w : World} (hR : R r t) (hw : w.inp.Ok) :
    (loop (fun _ w => w.inp.rest.length) b t w).view World.out =
      (unroll (p w.inp.fault) r w.inp.rest).playback w.out := by
  rw [← loop_follows h hR hw]
  cases loop (fun _ w => w.inp.rest.length) b t w <;> rfl

/-- What a pass comes to, with the passes after it. -/
def Pass.script (pass : ρ → Bytes → Pass ρ) : Pass ρ → Script
  | .again ws r rest => (unroll pass r rest).after ws
  | .finish sc => sc

/-- After a pass: round again, or to the clean-up. -/
def resume (body : τ → Io (τ ⊕ ℕ)) : τ ⊕ ℕ → Io ℕ
  | .inl t => loop (fun _ w => w.inp.rest.length) body t
  | .inr n => pure n

/-- **A loop that is entered in the middle of a pass.** -/
theorem follows_resume {R : ρ → τ → Prop} {body : τ → Io (τ ⊕ ℕ)}
    {pass : Bool → ρ → Bytes → Pass ρ}
    (h : ∀ r t w, R r t → w.inp.Ok →
      Follows R (fun n => pure n) w (pass w.inp.fault r w.inp.rest) (body t w))
    {w : World} {p : Pass ρ} {m : Io (τ ⊕ ℕ)} (hp : Follows R (fun n => pure n) w p (m w)) :
    ((m >>= resume body) w).view World.out = (p.script (pass w.inp.fault)).playback w.out := by
  rw [bind_apply]
  generalize m w = o at hp ⊢
  cases hp with
  | again hR hi hrest hfault hlt hws =>
    rw [Outcome.bind_ret, Pass.script, Script.playback_after, if_pos hws, resume,
      loop_follows_pure h hR hi, hrest, hfault]
  | stuck hlt hws hk =>
    rw [Outcome.bind_ret, Pass.script, Script.playback_after, hws]
    exact hk
  | finish hk => exact hk
  | exit hk => rw [Pass.script, hk]; rfl

theorem follows_status {R : ρ → τ → Prop} {w w' : World} {n : ℕ} (h : w'.out = w.out) :
    Follows R (fun n => pure n) w (.finish ⟨[], .status n⟩) (.ret (.inr n) w') := by
  refine .finish ?_
  simp [Script.playback, playAll, Verdict.close, h]

/-- `if (write_full(...) != ...) goto cleanup;` at the end of a pass. -/
def writeBlock {τ : Type} (t : τ) (u : Bytes) : Io (τ ⊕ ℕ) := do
  if !wroteAll (← writeFull u) u.length then return .inr 1
  return .inl t

theorem follows_fwriteOk {R : ρ → τ → Prop} {w : World} (hw : w.inp.Ok)
    (hne : w.inp.rest ≠ []) {rest : Bytes} (hlt : rest.length < w.inp.rest.length) {r : ρ} {t : τ}
    (hR : R r t) (u : Bytes) :
    Follows R (fun n => pure n) w
      (if u = [] then .finish ⟨[], .status 1⟩ else .again [.fwriteOk u] r rest)
      ((do
        if !(← fwrite u) then return .inr 1
        return .inl t : Io (τ ⊕ ℕ)) { w with inp := { w.inp with rest := rest } }) := by
  cases hf : w.out.fwrite u with
  | mk ok o =>
    have hplay : playAll [.fwriteOk u] w.out = (ok, o) := by
      cases ok <;> simp [playAll, Write.play, hf]
    have hrun : (do
        if !(← fwrite u) then return .inr 1
        return .inl t : Io (τ ⊕ ℕ)) { w with inp := { w.inp with rest := rest } } =
          .ret (if ok then .inl t else .inr 1) ⟨{ w.inp with rest := rest }, o⟩ := by
      cases ok <;> simp [hf]
    rw [hrun]
    by_cases hu : u = []
    · have hok : ok = false ∧ o = w.out := by simpa [hu, OutFile.fwrite, eq_comm] using hf
      rw [if_pos hu, hok.1, hok.2]
      exact follows_status rfl
    · rw [if_neg hu]
      cases ok with
      | true =>
        have := Follows.again (R := R) (k := fun n => pure n) (w := w) (v := [.fwriteOk u]) hR
          (hw.drop hne rest) rfl rfl hlt (by rw [hplay])
        rwa [hplay] at this
      | false =>
        refine .stuck hlt (by rw [hplay]) ?_
        rw [hplay]
        rfl

theorem follows_writeBlock {R : ρ → τ → Prop} {w : World} (hw : w.inp.Ok)
    (hne : w.inp.rest ≠ []) {rest : Bytes} (hlt : rest.length < w.inp.rest.length) {r : ρ} {t : τ}
    (hR : R r t) {u : Bytes} (hu : u.length < 2 ^ 32) :
    Follows R (fun n => pure n) w (.again [.writeFull u] r rest)
      (writeBlock t u { w with inp := { w.inp with rest := rest } }) := by
  obtain ⟨rv, hrv, hall⟩ := writeFull_wroteAll hu { w with inp := { w.inp with rest := rest } }
  cases hp : (Write.writeFull u).play w.out with
  | mk ok o =>
    simp only [hp] at hrv hall
    have hplay : playAll [.writeFull u] w.out = (ok, o) := by
      cases ok <;> simp [playAll, hp]
    have hrun : writeBlock t u { w with inp := { w.inp with rest := rest } } =
        .ret (if ok then .inl t else .inr 1) ⟨{ w.inp with rest := rest }, o⟩ := by
      rw [writeBlock, bind_apply, hrv, Outcome.bind_ret, hall]
      cases ok <;> rfl
    rw [hrun]
    cases ok with
    | true =>
      have := Follows.again (R := R) (k := fun n => pure n) (w := w) (v := [.writeFull u]) hR
        (hw.drop hne rest) rfl rfl hlt (by rw [hplay])
      rwa [hplay] at this
    | false =>
      refine .stuck hlt (by rw [hplay]) ?_
      rw [hplay]
      rfl

end Decoders

/-! ## Runs without failure -/

/-- A codec reading from `i`, with nothing failing on the output side, behind a buffer as `B` says.
-/
def Codec.run (B : Buffering) (m : Io ℕ) (i : InFile) : Result :=
  Result.of ((m ⟨i, OutFile.opened B none⟩).view World.out)

/-- **A codec that plays a script has the result of the script.** -/
theorem run_of_refines {m : Io ℕ} {sc : Bool → Bytes → Script} (hm : Refines m sc) {i : InFile}
    (hi : i.Ok) (h : (sc i.fault i.rest).Uniform) (B : Buffering) :
    Codec.run B m i = (sc i.fault i.rest).result := by
  rw [Codec.run, hm ⟨i, OutFile.opened B none⟩ hi]
  exact playback_opened h B

theorem run_opened {m : Io ℕ} {sc : Bool → Bytes → Script} (hm : RefinesFresh m sc) {s : Bytes}
    (h : (sc false s).Uniform) (B : Buffering) :
    Codec.run B m (.opened s) = (sc false s).result := by
  rw [Codec.run, hm ⟨.opened s, OutFile.opened B none⟩ (InFile.ok_opened s) rfl]
  exact playback_opened h B

theorem run_fwriteOk {m : Io ℕ} {sc : Bool → Bytes → Script} (hm : Refines m sc) {s : Bytes}
    {ds : List Bytes} {v : Verdict} {k : ℕ} (h : sc false s = ⟨ds.map .fwriteOk, v⟩)
    (hv : v = .status k ∨ v = .checked k) (hds : ∀ d ∈ ds, d ≠ []) (B : Buffering) :
    Codec.run B m (.opened s) = ⟨some k, ds.flatten⟩ := by
  have hbuffered : ∀ w ∈ (sc false s).writes, w.Buffered := by
    rw [h]
    simp only [List.mem_map]
    rintro w ⟨d, hd, rfl⟩
    exact hds d hd
  have hbytes : bytesOf (ds.map .fwriteOk) = ds.flatten := bytesOf_map (fun _ => rfl) ds
  rw [run_opened hm.fresh (Or.inl hbuffered), h, Script.result]
  rcases hv with rfl | rfl <;> simp only [hbytes]

theorem run_refused {m : Io ℕ} {sc : Bool → Bytes → Script} (hm : Refines m sc) {s : Bytes}
    {k : ℕ} (h : sc false s = ⟨[], .status k⟩) (B : Buffering) :
    Codec.run B m (.opened s) = ⟨some k, []⟩ :=
  @run_fwriteOk m sc hm s [] _ k h (Or.inl rfl) (by simp) B

theorem run_writeFull {m : Io ℕ} {sc : Bool → Bytes → Script} (hm : Refines m sc) {s : Bytes}
    {ds : List Bytes} {k : ℕ} (h : sc false s = ⟨.fflush :: ds.map .writeFull, .status k⟩)
    (hds : ∀ d ∈ ds, d.length < 2 ^ 31) (B : Buffering) :
    Codec.run B m (.opened s) = ⟨some k, ds.flatten⟩ := by
  have hdirect : ∀ w ∈ (sc false s).writes, w.Direct := by
    rw [h]
    simp only [List.mem_cons, List.mem_map]
    rintro w (rfl | ⟨d, hd, rfl⟩)
    · trivial
    · exact hds d hd
  rw [run_opened hm.fresh (Or.inr hdirect), h, Script.result, bytesOf_cons,
    bytesOf_map fun _ => rfl]
  rfl

end Snzip
