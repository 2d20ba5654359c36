import Snzip.Comment43Streams
import Snzip.Format.EmptyContent
import Snzip.HadoopDetection
import Snzip.StreamFormat

set_option autoImplicit false

/-!
# Read errors

`getc` and `fread` report a read error as they report the end of the file. A decoder that does not
ask which of them it was takes a file that cannot be read any further for a file that has ended.

* `EndsEarly`: the bytes after which a decoder stops with status 0, although the next read fails;
* **`readError_iff`**: a read error is reported unless the bytes before it are such;
* `not_readError`: a snappy-java file that cannot be read to its end.
-/

namespace Snzip

open CProg

variable {S : Snappy}

/-! ## The ends of the loops -/

theorem succeeds_snz_iff {clen uclen : ℕ} (h31 : uclen < 2 ^ 31) {s : Bytes} :
    (unroll (snzPassOf S clen uclen) () s).Succeeds ↔ ∃ b us e left,
      Records (SnzBlock S clen uclen) b us ∧ s = b ++ (e ++ left) ∧ IsLength e 0#64 := by
  rw [succeeds_unroll_iff shrinks_snzPassOf]
  constructor
  · rintro ⟨ws, r, t, sc, hst, hf, -, hsc⟩
    obtain ⟨b, us, hb, rfl, -⟩ := (steps_iff_records snzPassOf_again_iff).mp hst
    rcases snzPassOf_finish hf with rfl | ⟨rfl, e, left, rfl, he⟩
    · simp [Script.succeeds_mk] at hsc
    · exact ⟨b, us, e, left, hb, rfl, he⟩
  · rintro ⟨b, us, e, left, hb, rfl, he⟩
    have hst : Steps (snzPassOf S clen uclen) () (b ++ (e ++ left))
        (us.flatMap fun u => [.writeFull u]) () (e ++ left) :=
      (steps_iff_records snzPassOf_again_iff).mpr ⟨b, us, hb, rfl, rfl⟩
    refine ⟨_, (), _, _, hst, snzPassOf_zero he left, ?_, Script.succeeds_mk.mpr (Or.inl rfl)⟩
    intro w hw
    obtain ⟨u, hu, hw⟩ := List.mem_flatMap.mp hw
    rw [List.mem_singleton.mp hw]
    refine hb.forall_mem (P := fun u => u.length < 2 ^ 31) ?_ u hu
    rintro - v ⟨-, -, c, -, -, -, -, -, hv⟩
    obtain ⟨n, -, hn, hv⟩ := S.uncompressWithin_some hv
    have := S.uncompress_le hv
    omega

theorem goes_writeFull_iff {us : List Bytes} :
    (∀ w ∈ us.flatMap fun u => [Write.writeFull u], w.Goes) ↔ ∀ u ∈ us, u.length < 2 ^ 31 := by
  simp only [List.mem_flatMap, List.mem_singleton]
  exact ⟨fun h u hu => h _ ⟨u, hu, rfl⟩, fun h w ⟨u, hu, hw⟩ => hw ▸ h u hu⟩

theorem succeeds_snappyJava_iff {s : Bytes} :
    (unroll (snappyJavaPassOf S) () s).Succeeds ↔
      ∃ us, Records (SnappyJavaBlock S) s us ∧ ∀ u ∈ us, u.length < 2 ^ 31 := by
  rw [succeeds_unroll_iff shrinks_snappyJavaPassOf]
  constructor
  · rintro ⟨ws, r, t, sc, hst, hf, hws, hsc⟩
    obtain ⟨b, us, hb, rfl, rfl⟩ := (steps_iff_records snappyJavaPassOf_again_iff).mp hst
    rcases snappyJavaPassOf_finish hf with rfl | rfl | ⟨rfl, rfl⟩
    · simp [Script.succeeds_mk] at hsc
    · simp [Script.succeeds_mk] at hsc
    · rw [List.append_nil]
      exact ⟨us, hb, goes_writeFull_iff.mp hws⟩
  · rintro ⟨us, hb, hus⟩
    have hst := (steps_iff_records snappyJavaPassOf_again_iff).mpr
      ⟨s, us, hb, (List.append_nil s).symm, rfl⟩
    exact ⟨_, (), [], _, hst, rfl, goes_writeFull_iff.mpr hus, Script.succeeds_mk.mpr (Or.inl rfl)⟩

theorem succeeds_snappyInJava_iff {s : Bytes} :
    (unroll (snappyInJavaPassOf S snappyInJavaMaxBlockSize.toNat) () s).Succeeds ↔
      ∃ us, Records (SnappyInJavaBlock S) s us := by
  rw [succeeds_unroll_iff shrinks_snappyInJavaPassOf]
  constructor
  · rintro ⟨ws, r, t, sc, hst, hf, -, hsc⟩
    obtain ⟨b, us, hb, rfl, rfl⟩ := (steps_iff_records snappyInJavaPassOf_again_iff).mp hst
    rcases snappyInJavaPassOf_finish hf with rfl | ⟨rfl, rfl⟩
    · simp [Script.succeeds_mk] at hsc
    · rw [List.append_nil]
      exact ⟨us, hb⟩
  · rintro ⟨us, hb⟩
    have hst := (steps_iff_records snappyInJavaPassOf_again_iff).mpr
      ⟨s, us, hb, (List.append_nil s).symm, rfl⟩
    refine ⟨_, (), [], _, hst, rfl, ?_, Script.succeeds_mk.mpr (Or.inl rfl)⟩
    intro w hw
    obtain ⟨u, hu, hw⟩ := List.mem_flatMap.mp hw
    rw [List.mem_singleton.mp hw]
    refine hb.forall_mem (P := fun u => u.length < 2 ^ 31) (fun _ _ h => ?_) u hu
    exact Nat.lt_trans h.length_lt (by decide)

theorem succeeds_comment43_iff {state : StreamState} {s : Bytes} :
    (unroll (comment43PassOf S) state s).Succeeds ↔ ∃ cs, Comment43Ahead S state s cs := by
  rw [succeeds_unroll_iff shrinks_comment43PassOf]
  constructor
  · rintro ⟨ws, r, t, sc, hst, hf, -, hsc⟩
    rcases comment43PassOf_finish hf with rfl | ⟨rfl, rfl, rfl⟩
    · simp [Script.succeeds_mk] at hsc
    · obtain ⟨cs, hcs, -⟩ := steps_comment43_iff.mp hst
      exact ⟨cs, hcs⟩
  · rintro ⟨cs, hcs⟩
    have hst := steps_comment43_iff.mpr ⟨cs, hcs, rfl⟩
    have hbuffered := hst.forall_writes comment43PassOf_writes
    refine ⟨_, _, _, _, hst, rfl, fun w hw => ?_, Script.succeeds_mk.mpr (Or.inl rfl)⟩
    obtain ⟨c, -, rfl⟩ := List.mem_map.mp hw
    exact hbuffered _ hw

theorem not_succeeds_hadoop (n : ℕ) (s : Bytes) :
    ¬ (unroll (hadoopPassOf S true) n s).Succeeds := by
  rw [succeeds_unroll_iff (shrinks_hadoopPassOf true)]
  rintro ⟨ws, r, t, sc, -, hf, -, hsc⟩
  rcases hadoopPassOf_finish hf with rfl | ⟨rfl, -⟩ <;> simp [Script.succeeds_mk] at hsc

theorem not_succeeds_refused : ¬ (Script.mk [] (.status 1)).Succeeds := by simp [Script.succeeds_mk]

theorem succeeds_fflush_iff (sc : Script) : (sc.after [.fflush]).Succeeds ↔ sc.Succeeds := by
  rw [Script.succeeds_after]
  simp [Write.Goes]

theorem not_succeeds_hadoopUnscript (g : Globals) (skipMagic : Bool) (s : Bytes) :
    ¬ (hadoopUnscript S g skipMagic true s).Succeeds := by
  cases skipMagic with
  | false => exact not_succeeds_hadoop 0 s
  | true =>
    rw [hadoopUnscript, if_pos rfl]
    cases hp : subBlock S _ _ s with
    | again ws n t =>
      rw [Pass.script, Script.succeeds_after]
      exact fun h => not_succeeds_hadoop n t h.2
    | finish sc =>
      rw [Pass.script, subBlock_finish hp]
      exact not_succeeds_refused

theorem succeeds_snzUnscript_iff (g : Globals) (skipMagic : Bool) (s : Bytes) :
    (snzUnscript S g skipMagic true s).Succeeds ↔ ∃ blockSize t b us e left,
      takeSnzHeader g skipMagic s = some (blockSize, t) ∧ blockSize.toNat ≤ snzMaxBlockSize ∧
      Records (SnzBlock S (snappyMaxCompressedLength (2 ^ blockSize.toNat))
        (2 ^ blockSize.toNat)) b us ∧ t = b ++ (e ++ left) ∧ IsLength e 0#64 := by
  rw [snzUnscript]
  cases takeSnzHeader g skipMagic s with
  | none => simp [not_succeeds_refused]
  | some p =>
    obtain ⟨blockSize, t⟩ := p
    simp only [Option.some.injEq, Prod.mk.injEq]
    by_cases hb : blockSize.toNat > snzMaxBlockSize
    · rw [if_pos hb]
      refine iff_of_false not_succeeds_refused ?_
      rintro ⟨b', t', b, us, e, left, ⟨rfl, rfl⟩, hle, -⟩
      exact absurd hle (Nat.not_le.mpr hb)
    · have hle : blockSize.toNat ≤ snzMaxBlockSize := Nat.le_of_not_lt hb
      have hpow : 2 ^ blockSize.toNat ≤ 2 ^ 27 := Nat.pow_le_pow_right (by decide) hle
      rw [if_neg hb, snzBody, succeeds_fflush_iff, succeeds_snz_iff (by omega)]
      constructor
      · rintro ⟨b, us, e, left, h⟩
        exact ⟨blockSize, t, b, us, e, left, ⟨rfl, rfl⟩, hle, h⟩
      · rintro ⟨b', t', b, us, e, left, ⟨rfl, rfl⟩, -, h⟩
        exact ⟨b, us, e, left, h⟩

theorem succeeds_behindHeader_iff {pass : Unit → Bytes → Pass Unit} {P : Bytes → List Bytes → Prop}
    (hpass : ∀ t, (unroll pass () t).Succeeds ↔ ∃ us, P t us) {h : Option (Unit × Bytes)}
    {sc : Script} (hnone : h = none → sc = ⟨[], .status 1⟩)
    (hsome : ∀ t, h = some ((), t) → sc = (unroll pass () t).after [.fflush]) :
    sc.Succeeds ↔ ∃ t us, h = some ((), t) ∧ P t us := by
  cases h with
  | none =>
    rw [hnone rfl]
    simp [not_succeeds_refused]
  | some p =>
    obtain ⟨⟨⟩, t⟩ := p
    simp only [hsome t rfl, succeeds_fflush_iff, hpass, Option.some.injEq, Prod.mk.injEq, true_and]
    constructor
    · rintro ⟨us, hus⟩
      exact ⟨t, us, rfl, hus⟩
    · rintro ⟨_, us, rfl, hus⟩
      exact ⟨us, hus⟩

/-! ## The formats -/

/-- The bytes after which a read error is not asked for: in the chunked formats a data chunk with an
empty content, and in the others the end of a block or of a stream. -/
def EndsEarly (S : Snappy) (g : Globals) (skipMagic : Bool) : Format → Bytes → Prop
  | .framing2, s => ∃ b cs rest, Records (Chunk 3 (framingReading Snzip.framing2 S)) b cs ∧
      s = Chunked.framing2.header skipMagic ++ (b ++ rest) ∧
      EmptyContent 3 (framingReading Snzip.framing2 S) rest
  | .framing, s => ∃ b cs rest, Records (Chunk 2 (framingReading Snzip.framing S)) b cs ∧
      s = Chunked.framing.header skipMagic ++ (b ++ rest) ∧
      EmptyContent 2 (framingReading Snzip.framing S) rest
  | .iwa, s => ∃ b cs rest, Records (Chunk 3 (iwaReading S)) b cs ∧ s = b ++ rest ∧
      EmptyContent 3 (iwaReading S) rest
  | .snzip, s => ∃ blockSize t b us e left, takeSnzHeader g skipMagic s = some (blockSize, t) ∧
      blockSize.toNat ≤ snzMaxBlockSize ∧
      Records (SnzBlock S (snappyMaxCompressedLength (2 ^ blockSize.toNat))
        (2 ^ blockSize.toNat)) b us ∧ t = b ++ (e ++ left) ∧ IsLength e 0#64
  | .comment43, s => ∃ cs, Comment43Ahead S (if skipMagic then .processing else .initial) s cs
  | .snappyJava, s => ∃ t us, takeSnappyJavaHeader skipMagic s = some ((), t) ∧
      Records (SnappyJavaBlock S) t us ∧ ∀ u ∈ us, u.length < 2 ^ 31
  | .snappyInJava, s => ∃ t us, takeSnappyInJavaHeader skipMagic s = some ((), t) ∧
      Records (SnappyInJavaBlock S) t us
  | .hadoopSnappy, _ | .raw, _ => False

theorem succeeds_framing_iff (F : Framing) (skipMagic : Bool) (s : Bytes) :
    (framingUnscript F S skipMagic true s).Succeeds ↔
      ∃ b cs rest, Records (Chunk F.lengthBytes (framingReading F S)) b cs ∧
        s = (if skipMagic then [] else F.streamHeader) ++ (b ++ rest) ∧
        EmptyContent F.lengthBytes (framingReading F S) rest := by
  have hloop : ∀ t, (framingChunks F S true t).Succeeds ↔
      ∃ b cs rest, Records (Chunk F.lengthBytes (framingReading F S)) b cs ∧ t = b ++ rest ∧
        EmptyContent F.lengthBytes (framingReading F S) rest := by
    intro t
    rw [framingChunks, succeeds_chunks_iff]
    simp
  cases skipMagic with
  | true => exact hloop s
  | false =>
    simp only [framingUnscript, Bool.false_eq_true, if_false]
    split
    · next hpre =>
      rw [hloop]
      have hs := List.take_append_drop F.streamHeader.length s
      rw [hpre] at hs
      constructor
      · rintro ⟨b, cs, rest, hb, ht, hempty⟩
        exact ⟨b, cs, rest, hb, by rw [← ht, hs], hempty⟩
      · rintro ⟨b, cs, rest, hb, rfl, hempty⟩
        exact ⟨b, cs, rest, hb, List.drop_left, hempty⟩
    · next hpre =>
      rw [Script.succeeds_mk]
      refine ⟨fun h => by simp at h, ?_⟩
      rintro ⟨b, cs, rest, -, rfl, -⟩
      exact absurd List.take_left hpre

/-- **When a decoder returns 0 although the input fails.** -/
theorem succeeds_uncompress_iff {L : Library} {f : Format} (hf : f ≠ .raw) (g : Globals)
    (skipMagic : Bool) (s : Bytes) :
    (f.uncompressScript L g skipMagic true s).Succeeds ↔ EndsEarly L.snappy g skipMagic f s := by
  cases f with
  | framing2 => cases skipMagic <;> exact succeeds_framing_iff Snzip.framing2 _ s
  | framing => cases skipMagic <;> exact succeeds_framing_iff Snzip.framing _ s
  | raw => exact absurd rfl hf
  | iwa =>
    refine succeeds_chunks_iff.trans ?_
    simp [EndsEarly]
  | hadoopSnappy => exact iff_of_false (not_succeeds_hadoopUnscript g skipMagic s) fun h => h
  | snzip => exact succeeds_snzUnscript_iff g skipMagic s
  | comment43 => exact succeeds_comment43_iff
  | snappyJava =>
    refine succeeds_behindHeader_iff (fun _ => succeeds_snappyJava_iff)
      (h := takeSnappyJavaHeader skipMagic s) (fun h => ?_) fun t h => ?_
    · rw [Format.uncompressScript, snappyJavaUnscript, h]
    · rw [Format.uncompressScript, snappyJavaUnscript, h]
  | snappyInJava =>
    refine succeeds_behindHeader_iff (fun _ => succeeds_snappyInJava_iff)
      (h := takeSnappyInJavaHeader skipMagic s) (fun h => ?_) fun t h => ?_
    · rw [Format.uncompressScript, snappyInJavaUnscript, h]
    · rw [Format.uncompressScript, snappyInJavaUnscript, h]

/-! ## The status -/

theorem returns_chunks (k : ℕ) (reading : Byte → Bytes → Reading) (fault : Bool) (s : Bytes) :
    (unroll (chunkPass k reading fault) () s).verdict.Returns := by
  refine verdict_unroll (P := Verdict.Returns) (shrinks_chunkPass reading fault) ?_ () s
  intro r s sc h
  rcases chunkPass_finish h with rfl | ⟨rfl, -⟩ <;> trivial

theorem returns_framing (F : Framing) (skipMagic fault : Bool) (s : Bytes) :
    (framingUnscript F S skipMagic fault s).verdict.Returns := by
  unfold framingUnscript
  split
  · exact returns_chunks _ _ _ _
  split
  · exact returns_chunks _ _ _ _
  · trivial

theorem returns_uncompress {L : Library} {f : Format} (hf : f ≠ .raw) (hj : f ≠ .snappyJava)
    (g : Globals) (skipMagic fault : Bool) (s : Bytes) :
    (f.uncompressScript L g skipMagic fault s).verdict.Returns := by
  cases f with
  | framing2 => exact returns_framing Snzip.framing2 skipMagic fault s
  | framing => exact returns_framing Snzip.framing skipMagic fault s
  | raw => exact absurd rfl hf
  | snappyJava => exact absurd rfl hj
  | iwa => exact returns_chunks _ _ _ _
  | hadoopSnappy =>
    obtain ⟨ws, k, hsc, -⟩ := hadoopUnscript_status (S := L.snappy) g skipMagic fault s
    rw [Format.uncompressScript, hsc]
    trivial
  | snzip =>
    rw [Format.uncompressScript, snzUnscript]
    split
    · trivial
    split
    · trivial
    refine verdict_unroll (P := Verdict.Returns) shrinks_snzPassOf ?_ () _
    intro r s sc h
    rcases snzPassOf_finish h with rfl | ⟨rfl, -⟩ <;> trivial
  | comment43 =>
    refine verdict_unroll (P := Verdict.Returns) shrinks_comment43PassOf ?_ _ s
    intro r s sc h
    rcases comment43PassOf_finish h with rfl | ⟨rfl, -⟩ <;> trivial
  | snappyInJava =>
    rw [Format.uncompressScript, snappyInJavaUnscript]
    split
    · trivial
    refine verdict_unroll (P := Verdict.Returns) shrinks_snappyInJavaPassOf ?_ () _
    intro r s sc h
    rcases snappyInJavaPassOf_finish h with rfl | ⟨rfl, -⟩ <;> trivial

theorem verdict_uncompress {L : Library} {f : Format} (hf : f ≠ .raw) (g : Globals)
    (skipMagic fault : Bool) (s : Bytes) :
    (f.uncompressScript L g skipMagic fault s).verdict ≠ .diverge := by
  by_cases hj : f = .snappyJava
  · subst hj
    rw [Format.uncompressScript, snappyJavaUnscript]
    split
    · simp
    refine verdict_unroll (P := (· ≠ .diverge)) shrinks_snappyJavaPassOf ?_ () _
    intro r s sc h
    rcases snappyJavaPassOf_finish h with rfl | rfl | ⟨rfl, -⟩ <;> simp
  · intro hv
    have := returns_uncompress (L := L) hf hj g skipMagic fault s
    rw [hv] at this
    exact this

/-- **A read error is reported**, unless the bytes before it end where it is not asked for. -/
theorem readError_iff (L : Library) {f : Format} (hf : f ≠ .raw) (g : Globals) (skipMagic : Bool)
    (B : Buffering) (s : Bytes) :
    (∃ n, (Codec.run B (f.uncompress L g skipMagic) (.failing s)).status = some n ∧ n ≠ 0) ↔
      ¬ EndsEarly L.snappy g skipMagic f s := by
  rw [← succeeds_uncompress_iff hf]
  exact fails_run_iff (refines_uncompress L g skipMagic f) (InFile.ok_failing s)
    (verdict_uncompress hf g skipMagic true s) B

/-- A block with one byte and half of the next one. -/
theorem readError_half :
    let s := snappyJavaHeader ++ snappyJavaBlockBytes literalSnappy [0x61#8] ++
      [0x00#8, 0x00#8, 0x00#8, 0x03#8, 0x01#8]
    Codec.run (.stdio 4096) (Format.snappyJava.uncompress ⟨literalSnappy, 0⟩ .initial false)
        (.failing s) = ⟨some 1, [0x61#8]⟩ ∧
      ¬ EndsEarly literalSnappy .initial false .snappyJava s := by
  intro s
  have hrun : Codec.run (.stdio 4096)
      (Format.snappyJava.uncompress ⟨literalSnappy, 0⟩ .initial false) (.failing s) =
        ⟨some 1, [0x61#8]⟩ := by decide +kernel
  exact ⟨hrun, (readError_iff ⟨literalSnappy, 0⟩ (f := .snappyJava) (by decide) .initial false
    (.stdio 4096) s).mp ⟨1, congrArg Result.status hrun, by decide⟩⟩

/-- The header of a snappy-java file, a block with one byte, and then nothing can be read any
more. -/
theorem not_readError :
    Codec.run (.stdio 4096) (Format.snappyJava.uncompress ⟨literalSnappy, 0⟩ .initial false)
        (.failing (snappyJavaHeader ++ snappyJavaBlockBytes literalSnappy [0x61#8])) =
      ⟨some 0, [0x61#8]⟩ := by
  decide

end Snzip
