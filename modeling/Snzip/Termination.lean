import Snzip.Footprint
import Snzip.StandardOutput

set_option autoImplicit false

/-!
# Every run comes to an end

The loops of the codecs are bounded by what is left of their input, so that no input, however
malformed, keeps the program busy for ever. Raw is left out: what it does is up to snappy.

* `Verdict.Ends`, `ends_uncompress`, `ends_compress`: every script ends with a status of 0 or 1;
* `processFile_ends`, **`mainFiles_ends`**: and so does every run over files.
-/

namespace Snzip

open CProg

/-- A status of 0 or 1, by `return` or by `exit`. -/
def Verdict.Ends : Verdict → Prop
  | .status n | .checked n | .exit n => n ≤ 1
  | .diverge => False

section Scripts

variable {L : Library} {S : Snappy} {f : Format}

theorem playback_ends {sc : Script} (h : Verdict.Ends sc.verdict) (o : OutFile) :
    ∃ n o', n ≤ 1 ∧ (sc.playback o = .ret n o' ∨ sc.playback o = .exit n o') := by
  obtain ⟨ws, v⟩ := sc
  unfold Script.playback
  split
  · cases v with
    | status n => exact ⟨n, _, h, Or.inl rfl⟩
    | checked n => exact ⟨_, _, by split <;> [exact Nat.le_refl 1; exact h], Or.inl rfl⟩
    | exit n => exact ⟨n, _, h, Or.inr rfl⟩
    | diverge => exact h.elim
  · exact ⟨1, _, Nat.le_refl 1, Or.inl rfl⟩

theorem ends_chunks (k : ℕ) (reading : Byte → Bytes → Reading) (fault : Bool) (s : Bytes) :
    Verdict.Ends (unroll (chunkPass k reading fault) () s).verdict := by
  refine verdict_unroll (P := Verdict.Ends) (shrinks_chunkPass reading fault) ?_ () s
  intro r s sc h
  rcases chunkPass_finish h with rfl | ⟨rfl, -⟩ <;> simp [Verdict.Ends]

theorem ends_framing (F : Framing) (skipMagic fault : Bool) (s : Bytes) :
    Verdict.Ends (framingUnscript F S skipMagic fault s).verdict := by
  unfold framingUnscript
  split
  · exact ends_chunks _ _ _ _
  split
  · exact ends_chunks _ _ _ _
  · exact Nat.le_refl 1

/-- **Every decoder ends**, whatever it reads. -/
theorem ends_uncompress (hf : f ≠ .raw) (g : Globals) (skipMagic fault : Bool) (s : Bytes) :
    Verdict.Ends (f.uncompressScript L g skipMagic fault s).verdict := by
  cases f with
  | raw => exact absurd rfl hf
  | framing2 => exact ends_framing Snzip.framing2 skipMagic fault s
  | framing => exact ends_framing Snzip.framing skipMagic fault s
  | iwa => exact ends_chunks _ _ _ _
  | hadoopSnappy =>
    obtain ⟨ws, k, hsc, hk, -⟩ := hadoopUnscript_status (S := L.snappy) g skipMagic fault s
    rw [Format.uncompressScript, hsc]
    exact hk
  | snzip =>
    rw [Format.uncompressScript, snzUnscript]
    split
    · exact Nat.le_refl 1
    split
    · exact Nat.le_refl 1
    refine verdict_unroll (P := Verdict.Ends) shrinks_snzPassOf ?_ () _
    intro r s sc h
    rcases snzPassOf_finish h with rfl | ⟨rfl, -⟩ <;> simp [Verdict.Ends]
  | comment43 =>
    refine verdict_unroll (P := Verdict.Ends) shrinks_comment43PassOf ?_ _ s
    intro r s sc h
    rcases comment43PassOf_finish h with rfl | ⟨rfl, -⟩ <;> simp [Verdict.Ends]
  | snappyJava =>
    rw [Format.uncompressScript, snappyJavaUnscript]
    split
    · exact Nat.le_refl 1
    refine verdict_unroll (P := Verdict.Ends) shrinks_snappyJavaPassOf ?_ () _
    intro r s sc h
    rcases snappyJavaPassOf_finish h with rfl | rfl | ⟨rfl, -⟩ <;> simp [Verdict.Ends]
  | snappyInJava =>
    rw [Format.uncompressScript, snappyInJavaUnscript]
    split
    · exact Nat.le_refl 1
    refine verdict_unroll (P := Verdict.Ends) shrinks_snappyInJavaPassOf ?_ () _
    intro r s sc h
    rcases snappyInJavaPassOf_finish h with rfl | ⟨rfl, -⟩ <;> simp [Verdict.Ends]

theorem ends_blockScript (ws : Bytes → List Write) (n : ℕ) (fault : Bool) (s : Bytes) :
    Verdict.Ends (blockScript ws n fault s).verdict := by
  unfold blockScript
  split
  · exact Nat.le_refl 1
  · cases fault <;> simp [Script.after, Verdict.Ends]

/-- **Every compressor ends**, with any block size. -/
theorem ends_compress (hf : f ≠ .raw) (g : Globals) (stSize : Option (BitVec 64))
    (blockSize : BitVec 64) (fault : Bool) (s : Bytes) :
    Verdict.Ends (f.compressScript L g stSize blockSize fault s).verdict := by
  cases f with
  | raw => exact absurd rfl hf
  | framing2 | framing | iwa | comment43 => cases fault <;> exact Nat.le_of_ble_eq_true rfl
  | hadoopSnappy =>
    simp only [Format.compressScript, hadoopScript]
    split
    · exact Nat.le_refl 1
    split
    · exact Nat.zero_le 1
    · cases fault <;> simp [Script.after, Verdict.Ends]
  | snzip =>
    simp only [Format.compressScript, snzScript]
    split
    · exact Nat.le_refl 1
    · cases fault <;> simp [Script.after, snzTail, Verdict.Ends]
  | snappyJava => exact ends_blockScript ..
  | snappyInJava =>
    simp only [Format.compressScript, snappyInJavaScript]
    generalize (if blockSize = 0#64 then snappyInJavaDefaultBlockSize else blockSize) = b
    split
    · exact Nat.le_refl 1
    · exact ends_blockScript ..

theorem ends_of_playback {q : Outcome World ℕ} {sc : Script} {o : OutFile}
    (hplay : q.view World.out = sc.playback o) (h : Verdict.Ends sc.verdict) :
    ∃ k w, k ≤ 1 ∧ (q = .ret k w ∨ q = .exit k w) := by
  obtain ⟨k, o', hk, hends⟩ := playback_ends h o
  rw [← hplay] at hends
  cases q with
  | ret m w =>
    rcases hends with hends | hends <;> cases hends
    exact ⟨_, w, hk, Or.inl rfl⟩
  | exit m w =>
    rcases hends with hends | hends <;> cases hends
    exact ⟨_, w, hk, Or.inr rfl⟩
  | diverge => rcases hends with hends | hends <;> cases hends

end Scripts

/-! ## Rounds and runs -/

section Runs

variable {env : Env} {opts : Options} {L : Library} {n : Name} {names : List Name} {s : Sys}
  {j : Job}

/-- **The codec of a job ends.** -/
theorem codec_ends {s' : Sys} (h : Opens env opts n s j s') (hf : j.fmt ≠ .raw) (out : OutFile) :
    ∃ k w, k ≤ 1 ∧
      (j.codec L opts ⟨j.inp, out⟩ = .ret k w ∨ j.codec L opts ⟨j.inp, out⟩ = .exit k w) := by
  have hscript : Verdict.Ends (j.script L opts).verdict := by
    unfold Job.script
    split
    · exact ends_uncompress hf _ _ _ _
    · exact ends_compress hf _ _ _ _ _
  exact ends_of_playback (codec_playback h out) hscript

theorem Opens.fmt_ne_raw {s' : Sys} (h : Opens env opts n s j s') (hs : s.fmt ≠ .raw) :
    j.fmt ≠ .raw := by
  have hfinds := h.finds
  unfold Finds at hfinds
  split at hfinds
  · obtain ⟨buf, hrun⟩ := hfinds
    exact found_ne_raw hrun
  · rw [hfinds.2.1]
    exact hs

theorem fmt_closeOutput (j : Job) (out : OutFile) (s : Sys) :
    (closeOutput j out s).fmt = s.fmt := by
  unfold closeOutput
  split <;> rfl

/-- **A round ends**: with the next one, or with a status of 0 or 1. -/
theorem processFile_ends (env : Env) (opts : Options) (L : Library) (n : Name) (hs : s.fmt ≠ .raw) :
    (∃ t, processFile env opts L n s = .ret none t ∧ t.fmt ≠ .raw) ∨
      ∃ k t, k ≤ 1 ∧
        (processFile env opts L n s = .ret (some k) t ∨
          processFile env opts L n s = .exit k t) := by
  have hround := processFile_cases env opts L n s
  generalize processFile env opts L n s = q at hround ⊢
  cases hround with
  | skipped => exact Or.inl ⟨_, rfl, hs⟩
  | @refused t => exact Or.inr ⟨1, t, Nat.le_refl 1, Or.inr rfl⟩
  | @opened j s' ho hopen =>
    have hj := ho.fmt_ne_raw hs
    have hfmt : ∀ out, (closeOutput j out s').fmt ≠ .raw := fun out => by
      rw [fmt_closeOutput, ho.fmt]
      exact hj
    obtain ⟨k, w, hk, hc | hc⟩ := codec_ends (L := L) ho hj (j.outFile env s')
    · simp only [afterOpen, hc]
      split
      · exact Or.inr ⟨1, _, Nat.le_refl 1, Or.inl rfl⟩
      split
      · exact Or.inl ⟨_, rfl, hfmt _⟩
      · exact Or.inl ⟨_, rfl, hfmt _⟩
    · simp only [afterOpen, hc]
      exact Or.inr ⟨k, _, hk, Or.inr rfl⟩

theorem runFiles_terminates (env : Env) (opts : Options) (L : Library) (names : List Name)
    (hs : s.fmt ≠ .raw) : ∃ k t, ending (runFiles env opts L names s) = some (k, t) ∧ k ≤ 1 := by
  induction names generalizing s with
  | nil => exact ⟨0, s, rfl, Nat.zero_le 1⟩
  | cons n names ih =>
    rw [runFiles_cons]
    rcases processFile_ends env opts L n hs with ⟨t, hp, ht⟩ | ⟨k, t, hk, hp | hp⟩
    · rw [hp]
      exact ih ht
    · exact ⟨k, t, by rw [hp]; rfl, hk⟩
    · exact ⟨k, t, by rw [hp]; rfl, hk⟩

/-- **A run over files ends with a status of 0 or 1**, whatever the files hold, whatever the system
refuses, and however little room there is. -/
theorem mainFiles_ends (env : Env) (L : Library) (names : List Name)
    (hraw : namedFormat opts s.fmt ≠ some .raw) :
    ∃ k t, ending (mainFiles env opts L names s) = some (k, t) ∧ k ≤ 1 := by
  rw [mainFiles_eq]
  cases hfmt : namedFormat opts s.fmt with
  | none => exact ⟨1, s, rfl, Nat.le_refl 1⟩
  | some fmt =>
    have hne : ({ s with fmt := fmt } : Sys).fmt ≠ .raw := by
      intro h
      rw [hfmt] at hraw
      exact hraw (congrArg some h)
    exact runFiles_terminates env opts L names hne

/-- A device that is full from the start. -/
example : ∃ k t, ending
    (mainFiles ⟨fun _ => .stdio 4096, fun _ => true, fun _ => some 0, fun _ => true⟩ keeping
      ⟨literalSnappy, 0⟩ [['a'], ['b']] besides) = some (k, t) ∧ k ≤ 1 :=
  mainFiles_ends _ _ _ (by decide)

end Runs

end Snzip
