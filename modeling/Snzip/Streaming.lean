import Snzip.Comment43Streams
import Snzip.HadoopStreams
import Snzip.Lib.Sent
import Snzip.ReadError
import Snzip.StandardOutput

set_option autoImplicit false

/-!
# Decoders read from the front

A decoder writes a block when it has read it, and never takes anything back. So what it has written
at any time depends on the bytes read up to then: not on those to come, and not on how the file
ends.

* `Online`: the passes of a loop do not look ahead; **`writes_prefix_unroll`**;
* `online_chunkPass` and its likes: no decoder looks ahead;
* **`writes_prefix_uncompress`**: the script of a decoder on the beginning of a file;
* `run_uncompress`, **`written_prefix`**: what a run on the beginning of a file writes.
-/

namespace Snzip

open CProg

/-! ## Passes that do not look ahead -/

section Online

variable {ρ : Type} {pass pass' : ρ → Bytes → Pass ρ}

/-- A pass that goes round again does so whatever follows; the last pass writes nothing. -/
structure Online (pass pass' : ρ → Bytes → Pass ρ) : Prop where
  again : ∀ {r s ws r' rest}, pass r s = .again ws r' rest →
    ∀ t, pass' r (s ++ t) = .again ws r' (rest ++ t)
  finish : ∀ {r s sc}, pass r s = .finish sc → sc.writes = []

theorem Online.steps (h : Online pass pass') {r r' : ρ} {s s' : Bytes} {ws : List Write}
    (hst : Steps pass r s ws r' s') (t : Bytes) : Steps pass' r (s ++ t) ws r' (s' ++ t) := by
  induction hst with
  | refl => exact .refl
  | head hp _ ih => exact .head (h.again hp t) ih

/-- **What a loop writes on the beginning of a stream** it writes first on the whole of it. -/
theorem writes_prefix_unroll (hp : Shrinks pass) (hp' : Shrinks pass') (h : Online pass pass')
    (r : ρ) (s t : Bytes) : (unroll pass r s).writes <+: (unroll pass' r (s ++ t)).writes := by
  obtain ⟨ws, r', s', sc, hst, hf, hu⟩ := exists_steps hp r s
  rw [hu, unroll_steps hp' (h.steps hst t), Script.after, h.finish hf, List.append_nil]
  exact List.prefix_append ..

end Online

section Passes

variable {S : Snappy} {k clen uclen : ℕ}

theorem online_chunkPass (reading : Byte → Bytes → Reading) (fault fault' : Bool) :
    Online (chunkPass k reading fault) (chunkPass k reading fault') where
  again := by
    intro r s ws r' rest h t
    obtain ⟨b, c, hb, rfl, rfl⟩ := (chunkPass_again_iff s ws rest).mp h
    exact (chunkPass_again_iff _ _ _).mpr ⟨b, c, hb, List.append_assoc .., rfl⟩
  finish := by
    intro r s sc h
    rcases chunkPass_finish h with rfl | ⟨rfl, -⟩ <;> rfl

theorem online_snzPass : Online (snzPassOf S clen uclen) (snzPassOf S clen uclen) where
  again := by
    intro r s ws r' rest h t
    obtain ⟨b, u, hb, rfl, rfl⟩ := (snzPassOf_again_iff s ws rest).mp h
    exact (snzPassOf_again_iff _ _ _).mpr ⟨b, u, hb, List.append_assoc .., rfl⟩
  finish := by
    intro r s sc h
    rcases snzPassOf_finish h with rfl | ⟨rfl, -⟩ <;> rfl

theorem online_snappyJavaPass : Online (snappyJavaPassOf S) (snappyJavaPassOf S) where
  again := by
    intro r s ws r' rest h t
    obtain ⟨b, u, hb, rfl, rfl⟩ := (snappyJavaPassOf_again_iff s ws rest).mp h
    exact (snappyJavaPassOf_again_iff _ _ _).mpr ⟨b, u, hb, List.append_assoc .., rfl⟩
  finish := by
    intro r s sc h
    rcases snappyJavaPassOf_finish h with rfl | rfl | ⟨rfl, -⟩ <;> rfl

theorem online_snappyInJavaPass :
    Online (snappyInJavaPassOf S snappyInJavaMaxBlockSize.toNat)
      (snappyInJavaPassOf S snappyInJavaMaxBlockSize.toNat) where
  again := by
    intro r s ws r' rest h t
    obtain ⟨b, u, hb, rfl, rfl⟩ := (snappyInJavaPassOf_again_iff s ws rest).mp h
    exact (snappyInJavaPassOf_again_iff _ _ _).mpr ⟨b, u, hb, List.append_assoc .., rfl⟩
  finish := by
    intro r s sc h
    rcases snappyInJavaPassOf_finish h with rfl | ⟨rfl, -⟩ <;> rfl

theorem online_comment43Pass : Online (comment43PassOf S) (comment43PassOf S) where
  again := by
    intro r s ws r' rest h t
    obtain ⟨type, data, hlt, rfl, hact⟩ := comment43PassOf_again h
    have hs : splitChunk 2 (type :: (leBytes 2 data.length ++ data) ++ (rest ++ t)) =
        some (type, data, rest ++ t) := splitChunk_append hlt type (rest ++ t)
    rw [List.append_assoc, comment43PassOf_split hs]
    rcases hact with ⟨hact, rfl⟩ | ⟨u, hact, hu, rfl, rfl⟩
    · rw [hact]
    · rw [hact]
      exact if_neg hu
  finish := by
    intro r s sc h
    rcases comment43PassOf_finish h with rfl | ⟨rfl, -⟩ <;> rfl

theorem online_hadoopPass (fault fault' : Bool) :
    Online (hadoopPassOf S fault) (hadoopPassOf S fault') where
  again := by
    intro r s ws r' rest h t
    refine hadoopPassOf_again_iff.mpr ((hadoopPassOf_again_iff.mp h).imp ?_ ?_)
    · rintro ⟨hr, c, u, rfl, hu⟩
      exact ⟨hr, c, u, by rw [List.append_assoc, List.append_assoc], hu⟩
    · rintro ⟨hr, hlt, rfl, hws⟩
      exact ⟨hr, hlt, List.append_assoc .., hws⟩
  finish := by
    intro r s sc h
    rcases hadoopPassOf_finish h with rfl | ⟨rfl, -⟩ <;> rfl

end Passes

/-! ## Scripts -/

section Scripts

variable {L : Library} {p : Bytes}

theorem takeHeader_some_append {α : Type} {n : ℕ} {check : Bytes → Option α} {a : α} {rest : Bytes}
    (h : takeHeader n check p = some (a, rest)) (t : Bytes) :
    takeHeader n check (p ++ t) = some (a, rest ++ t) := by
  unfold takeHeader at h ⊢
  split at h
  · cases h
  next hlen =>
  have hlen : n ≤ p.length := Nat.le_of_not_lt hlen
  rw [if_neg (by rw [List.length_append]; omega), List.take_append_of_le_length hlen,
    List.drop_append_of_le_length hlen]
  obtain ⟨b, hb, he⟩ := Option.map_eq_some_iff.mp h
  cases he
  rw [hb, Option.map_some]

theorem takeSnzHeader_some_append {g : Globals} {skipMagic : Bool} {b : Byte} {rest : Bytes}
    (h : takeSnzHeader g skipMagic p = some (b, rest)) (t : Bytes) :
    takeSnzHeader g skipMagic (p ++ t) = some (b, rest ++ t) := by
  cases skipMagic with
  | true => cases h; rfl
  | false => exact takeHeader_some_append h t

theorem takeSnappyJavaHeader_some_append {skipMagic : Bool} {rest : Bytes}
    (h : takeSnappyJavaHeader skipMagic p = some ((), rest)) (t : Bytes) :
    takeSnappyJavaHeader skipMagic (p ++ t) = some ((), rest ++ t) := by
  cases skipMagic with
  | true => exact takeHeader_some_append h t
  | false => exact takeHeader_some_append h t

theorem takeSnappyInJavaHeader_some_append {skipMagic : Bool} {rest : Bytes}
    (h : takeSnappyInJavaHeader skipMagic p = some ((), rest)) (t : Bytes) :
    takeSnappyInJavaHeader skipMagic (p ++ t) = some ((), rest ++ t) := by
  cases skipMagic with
  | true => cases h; rfl
  | false => exact takeHeader_some_append h t

theorem writes_prefix_framing (F : Framing) (S : Snappy) (skipMagic fault fault' : Bool)
    (t : Bytes) : (framingUnscript F S skipMagic fault p).writes <+:
      (framingUnscript F S skipMagic fault' (p ++ t)).writes := by
  have hchunks : ∀ s, (framingChunks F S fault s).writes <+:
      (framingChunks F S fault' (s ++ t)).writes := fun s =>
    writes_prefix_unroll (shrinks_chunkPass _ fault) (shrinks_chunkPass _ fault')
      (online_chunkPass _ fault fault') () s t
  cases skipMagic with
  | true => exact hchunks p
  | false =>
    unfold framingUnscript
    rw [if_neg Bool.false_ne_true, if_neg Bool.false_ne_true]
    split
    · next h =>
      obtain ⟨rest, rfl⟩ := List.prefix_iff_eq_take.mpr h.symm
      rw [List.append_assoc, List.take_left, List.drop_left, List.drop_left, if_pos rfl]
      exact hchunks rest
    · exact List.nil_prefix

theorem writes_prefix_after {sc sc' : Script} (ws : List Write) (h : sc.writes <+: sc'.writes) :
    (sc.after ws).writes <+: (sc'.after ws).writes := (List.prefix_append_right_inj ws).mpr h

/-- **The script of a decoder on the beginning of a file** has the first writes of its script on the
whole of it, however the two end. -/
theorem writes_prefix_uncompress {f : Format} (hf : f ≠ .raw) (g : Globals)
    (skipMagic fault fault' : Bool) (p t : Bytes) :
    (f.uncompressScript L g skipMagic fault p).writes <+:
      (f.uncompressScript L g skipMagic fault' (p ++ t)).writes := by
  cases f with
  | raw => exact absurd rfl hf
  | framing2 => exact writes_prefix_framing framing2 L.snappy skipMagic fault fault' t
  | framing => exact writes_prefix_framing framing L.snappy skipMagic fault fault' t
  | iwa =>
    exact writes_prefix_unroll (shrinks_chunkPass _ fault) (shrinks_chunkPass _ fault')
      (online_chunkPass _ fault fault') () p t
  | comment43 =>
    exact writes_prefix_unroll shrinks_comment43PassOf shrinks_comment43PassOf online_comment43Pass
      _ p t
  | hadoopSnappy =>
    rw [Format.uncompressScript, hadoopUnscript, hadoopUnscript]
    have hloop : ∀ n s, (unroll (hadoopPassOf L.snappy fault) n s).writes <+:
        (unroll (hadoopPassOf L.snappy fault') n (s ++ t)).writes := fun n s =>
      writes_prefix_unroll (shrinks_hadoopPassOf fault) (shrinks_hadoopPassOf fault')
        (online_hadoopPass fault fault') n s t
    cases skipMagic with
    | false => exact hloop 0 p
    | true =>
      rw [if_pos rfl, if_pos rfl]
      cases h : subBlock L.snappy g.hadoopSnappySourceLength.toNat
          g.hadoopSnappyCompressedLength.toNat p with
      | finish sc =>
        rw [subBlock_finish h]
        exact List.nil_prefix
      | again ws n rest =>
        obtain ⟨c, u, rfl, hc⟩ := subBlock_again_iff.mp h
        rw [List.append_assoc, subBlock_again_iff.mpr ⟨c, u, rfl, hc⟩]
        exact writes_prefix_after ws (hloop n rest)
  | snzip =>
    rw [Format.uncompressScript, snzUnscript, snzUnscript]
    cases h : takeSnzHeader g skipMagic p with
    | none => exact List.nil_prefix
    | some q =>
      obtain ⟨b, rest⟩ := q
      rw [takeSnzHeader_some_append h]
      simp only
      split
      · exact List.nil_prefix
      · exact writes_prefix_after _
          (writes_prefix_unroll shrinks_snzPassOf shrinks_snzPassOf online_snzPass () rest t)
  | snappyJava =>
    rw [Format.uncompressScript, snappyJavaUnscript, snappyJavaUnscript]
    cases h : takeSnappyJavaHeader skipMagic p with
    | none => exact List.nil_prefix
    | some q =>
      obtain ⟨⟨⟩, rest⟩ := q
      rw [takeSnappyJavaHeader_some_append h]
      exact writes_prefix_after _ (writes_prefix_unroll shrinks_snappyJavaPassOf
        shrinks_snappyJavaPassOf online_snappyJavaPass () rest t)
  | snappyInJava =>
    rw [Format.uncompressScript, snappyInJavaUnscript, snappyInJavaUnscript]
    cases h : takeSnappyInJavaHeader skipMagic p with
    | none => exact List.nil_prefix
    | some q =>
      obtain ⟨⟨⟩, rest⟩ := q
      rw [takeSnappyInJavaHeader_some_append h]
      exact writes_prefix_after _ (writes_prefix_unroll shrinks_snappyInJavaPassOf
        shrinks_snappyInJavaPassOf online_snappyInJavaPass () rest t)

end Scripts

/-! ## Runs -/

section Runs

variable {L : Library} {f : Format}

theorem oneSided_of_appends {sc : Script} (h : sc.Appends) : sc.OneSided := by
  refine h.imp_right ?_
  rintro ⟨ws, hws, h⟩ w hw
  rw [hws] at hw
  rcases List.mem_cons.mp hw with rfl | hw
  · trivial
  · exact h w hw

/-- **The result of a decoder** on any stream. -/
theorem run_uncompress (hf : f ≠ .raw) (g : Globals) (skipMagic : Bool) {i : InFile} (hi : i.Ok)
    (B : Buffering) :
    Codec.run B (f.uncompress L g skipMagic) i =
      ⟨if (∀ w ∈ (f.uncompressScript L g skipMagic i.fault i.rest).writes, w.Goes) then
          (f.uncompressScript L g skipMagic i.fault i.rest).result.status else some 1,
        sent (f.uncompressScript L g skipMagic i.fault i.rest).writes⟩ := by
  rw [Codec.run, refines_uncompress L g skipMagic f ⟨i, OutFile.opened B none⟩ hi]
  exact result_playback (oneSided_of_appends (appends_uncompress hf L g skipMagic _ _))
    (verdict_uncompress hf g skipMagic _ _) B

/-- **What a decoder has written does not depend on what comes later**: on a file that is cut off,
at its end or by a read error, it writes the beginning of what it writes on any longer file. -/
theorem written_prefix (hf : f ≠ .raw) (g : Globals) (skipMagic : Bool) {i i' : InFile}
    (hi : i.Ok) (hi' : i'.Ok) (h : i.rest <+: i'.rest) (B B' : Buffering) :
    (Codec.run B (f.uncompress L g skipMagic) i).written <+:
      (Codec.run B' (f.uncompress L g skipMagic) i').written := by
  rw [run_uncompress hf g skipMagic hi, run_uncompress hf g skipMagic hi']
  obtain ⟨t, ht⟩ := h
  rw [← ht]
  exact sent_prefix (writes_prefix_uncompress hf g skipMagic i.fault i'.fault i.rest t)

/-- Two chunks of iwa with two bytes each. -/
def twoChunksIwa : Bytes :=
  [0x00#8, 0x04#8, 0x00#8, 0x00#8, 0x02#8, 0x04#8, 0x61#8, 0x62#8] ++
    [0x00#8, 0x04#8, 0x00#8, 0x00#8, 0x02#8, 0x04#8, 0x63#8, 0x64#8]

/-- A read error in the second chunk. -/
theorem written_prefix_two :
    let m := Format.iwa.uncompress ⟨literalSnappy, 0⟩ .initial false
    let cut := Codec.run (.stdio 4096) m (.failing (twoChunksIwa.take 13))
    let whole := Codec.run (.stdio 1) m (.opened twoChunksIwa)
    cut.written <+: whole.written ∧ cut = ⟨some 1, [0x61#8, 0x62#8]⟩ ∧
      whole = ⟨some 0, [0x61#8, 0x62#8, 0x63#8, 0x64#8]⟩ := by
  intro m cut whole
  refine ⟨?_, by decide +kernel, by decide +kernel⟩
  exact written_prefix (by decide) .initial false (InFile.ok_failing _) (InFile.ok_opened _)
    (List.take_prefix 13 _) (.stdio 4096) (.stdio 1)

end Runs

end Snzip
