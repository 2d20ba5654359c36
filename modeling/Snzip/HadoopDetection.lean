import Snzip.Header
import Snzip.Steps
import Snzip.RoundTrip.Hadoop

set_option autoImplicit false

/-!
# Detection of the hadoop-snappy format

The format has no magic. A stream that has none either is taken for hadoop-snappy when its second
word, as a length, is not too large; the decoder then starts behind the two words.

* `detects_hadoop_iff`: the streams that are taken for hadoop-snappy;
* **`hadoopSnappy_detected_iff`**: the compressed files among them;
* `hadoopUnscript_skipMagic`, **`hadoopSnappy_skipMagic_iff`**: when it makes no difference that the
  decoder starts behind the first two lengths.
-/

namespace Snzip

open CProg

variable {S : Snappy}

/-! ## The passes -/

theorem shrinks_hadoopPassOf (fault : Bool) : Shrinks (hadoopPassOf S fault) := by
  intro n s ws n' rest h
  rcases hadoopPassOf_again_iff.mp h with ⟨-, c, u, rfl, -⟩ | ⟨-, -, rfl, -⟩ <;>
    simp only [List.length_append, length_beBytes] <;> omega

theorem hadoopPassOf_writes {fault : Bool} (n : ℕ) (s : Bytes) (ws : List Write) (n' : ℕ)
    (rest : Bytes) (h : hadoopPassOf S fault n s = .again ws n' rest) :
    ∀ w ∈ ws, ∃ u, u ≠ [] ∧ w = .fwriteOk u := by
  rcases hadoopPassOf_again_iff.mp h with ⟨-, c, u, -, -, -, -, hu, rfl, -⟩ | ⟨-, -, -, rfl⟩
  · intro w hw
    exact ⟨u, hu, List.mem_singleton.mp hw⟩
  · simp

/-- **The script of the loop on any stream.** -/
theorem unroll_hadoop (fault : Bool) (n : ℕ) (s : Bytes) :
    ∃ ws k, unroll (hadoopPassOf S fault) n s = ⟨ws, .status k⟩ ∧ k ≤ 1 ∧
      ∀ w ∈ ws, ∃ u, u ≠ [] ∧ w = .fwriteOk u := by
  obtain ⟨ws, n', s', sc, hst, hf, hu⟩ := exists_steps (shrinks_hadoopPassOf (S := S) fault) n s
  have hws := hst.forall_writes hadoopPassOf_writes
  rcases hadoopPassOf_finish hf with rfl | ⟨rfl, -⟩
  · exact ⟨ws, 1, by rw [hu, Script.after, List.append_nil], Nat.le_refl 1, hws⟩
  · refine ⟨ws, _, by rw [hu, Script.after, List.append_nil], ?_, hws⟩
    cases fault <;> decide

theorem hadoopUnscript_status (g : Globals) (skipMagic fault : Bool) (s : Bytes) :
    ∃ ws k, hadoopUnscript S g skipMagic fault s = ⟨ws, .status k⟩ ∧ k ≤ 1 ∧
      ∀ w ∈ ws, ∃ u, u ≠ [] ∧ w = .fwriteOk u := by
  cases skipMagic with
  | false => exact unroll_hadoop fault 0 s
  | true =>
    rw [hadoopUnscript, if_pos rfl]
    cases hp : subBlock S _ _ s with
    | finish sc =>
      rw [subBlock_finish hp]
      exact ⟨[], 1, rfl, Nat.le_refl 1, by simp⟩
    | again ws n rest =>
      obtain ⟨c, u, -, -, -, -, hu, rfl, -⟩ := subBlock_again_iff.mp hp
      obtain ⟨ws, k, hrun, hk, hws⟩ := unroll_hadoop (S := S) fault n rest
      exact ⟨.fwriteOk u :: ws, k, by rw [Pass.script, hrun]; rfl, hk,
        List.forall_mem_cons.mpr ⟨⟨u, hu, rfl⟩, hws⟩⟩

theorem run_hadoopUnscript (g : Globals) (skipMagic : Bool) {i : InFile} (hi : i.Ok)
    (B : Buffering) :
    Codec.run B (hadoopSnappyFormatUncompress S g skipMagic) i =
      (hadoopUnscript S g skipMagic i.fault i.rest).result := by
  obtain ⟨ws, k, hsc, -, hws⟩ := hadoopUnscript_status (S := S) g skipMagic i.fault i.rest
  refine run_of_refines (refines_hadoopSnappyFormatUncompress S g skipMagic) hi (Or.inl ?_) B
  rw [hsc]
  intro w hw
  obtain ⟨u, hu, rfl⟩ := hws w hw
  exact hu

theorem run_hadoopUnscript_opened (g : Globals) (skipMagic : Bool) (B : Buffering) (s : Bytes) :
    Codec.run B (hadoopSnappyFormatUncompress S g skipMagic) (.opened s) =
      (hadoopUnscript S g skipMagic false s).result :=
  run_hadoopUnscript g skipMagic (InFile.ok_opened s) B

/-! ## The first eight bytes -/

/-- **Entering the loop behind the first two lengths** comes to the same as reading them, unless the
first of them is 0. -/
theorem hadoopUnscript_skipMagic (g g' : Globals) (fault : Bool) {s : Bytes} (h8 : 8 ≤ s.length)
    (h0 : beVal (s.take 4) ≠ 0)
    (hg : g.hadoopSnappySourceLength = BitVec.ofNat 32 (beVal (s.take 4)) ∧
      g.hadoopSnappyCompressedLength = BitVec.ofNat 32 (beVal ((s.drop 4).take 4))) :
    hadoopUnscript S g true fault (s.drop 8) = hadoopUnscript S g' false fault s := by
  have hto : ∀ t : Bytes, (BitVec.ofNat 32 (beVal (t.take 4))).toNat = beVal (t.take 4) :=
    fun t => by
      rw [BitVec.toNat_ofNat]
      exact Nat.mod_eq_of_lt (beVal_take_lt t)
  have hlen : (s.drop 4).length = s.length - 4 := List.length_drop
  have hhead : hadoopPassOf S fault 0 s = .again [] (beVal (s.take 4)) (s.drop 4) := by
    rw [hadoopPassOf, if_neg (Nat.lt_irrefl 0), if_neg (by omega)]
  have hsub : hadoopPassOf S fault (beVal (s.take 4)) (s.drop 4) =
      subBlock S (beVal (s.take 4)) (beVal ((s.drop 4).take 4)) (s.drop 8) := by
    rw [hadoopPassOf, if_pos (Nat.pos_of_ne_zero h0), if_neg (by omega), List.drop_drop]
  rw [hadoopUnscript, hadoopUnscript, if_pos rfl, if_neg (by decide), hg.1, hg.2, hto, hto,
    unroll_again hhead (by omega), Script.after_nil]
  cases hp : subBlock S (beVal (s.take 4)) (beVal ((s.drop 4).take 4)) (s.drop 8) with
  | finish sc => rw [unroll_finish (hsub.trans hp), Pass.script]
  | again ws r rest =>
    have hpass := hsub.trans hp
    rw [unroll_again hpass (shrinks_hadoopPassOf fault _ _ _ _ _ hpass), Pass.script]

theorem Tells.byteAt_four {s : Bytes} {f : Format} (h : Tells s f) : byteAt s 4 ≠ 0x00#8 := by
  cases f <;> simp_all

/-- **Detection of any stream of eight bytes or more.** -/
theorem detects_hadoop_iff {s : Bytes} {r : Option Format} {n : ℕ} {g : Globals}
    (h : Detects s r n g) :
    r = some .hadoopSnappy ↔ beVal (slice s 4 4) ≤ maxCompressedLength := by
  rw [h.hadoop]
  exact ⟨fun h => h.2, fun hle => ⟨fun f hf => hf.byteAt_four (byteAt_eq_zero hle), hle⟩⟩

theorem slice_four {s : Bytes} (h : 8 ≤ s.length) : slice s 4 4 = (s.drop 4).take 4 := by
  have h8 : slice s 0 (4 + 4) = s.take 8 := slice_eq_take h
  rw [slice_add, slice_eq_take (show 4 ≤ s.length by omega)] at h8
  have h4 : s.take (4 + 4) = s.take 4 ++ (s.drop 4).take 4 := List.take_add
  rw [h4] at h8
  exact List.append_cancel_left h8

theorem found_hadoop_iff {s : Bytes} (h8 : 8 ≤ s.length) (g : Globals) :
    (∃ p, findStreamFormatByFileHeader ⟨.opened s, [], g⟩ = .ret (some .hadoopSnappy) p) ↔
      beVal ((s.drop 4).take 4) ≤ maxCompressedLength := by
  obtain ⟨r, n, g', hrun, hd⟩ := findStreamFormatByFileHeader_spec (InFile.opened s) g
  have hiff : r = some .hadoopSnappy ↔ beVal (slice s 4 4) ≤ maxCompressedLength :=
    detects_hadoop_iff hd
  rw [← slice_four h8, ← hiff]
  constructor
  · rintro ⟨p, hp⟩
    have : Outcome.ret r _ = Outcome.ret (some .hadoopSnappy) p := hrun.symm.trans hp
    cases this
    rfl
  · rintro rfl
    exact ⟨_, hrun⟩

theorem found_hadoop {s : Bytes} (h8 : 8 ≤ s.length) {g : Globals} {p : Probe}
    (h : findStreamFormatByFileHeader ⟨.opened s, [], g⟩ = .ret (some .hadoopSnappy) p) :
    p.inp = .opened (s.drop 8) ∧ p.buf.length = 8 ∧
      p.globals.hadoopSnappySourceLength = BitVec.ofNat 32 (beVal (s.take 4)) ∧
      p.globals.hadoopSnappyCompressedLength = BitVec.ofNat 32 (beVal ((s.drop 4).take 4)) := by
  obtain ⟨r, n, g', hrun, hd⟩ := findStreamFormatByFileHeader_spec (InFile.opened s) g
  have : Outcome.ret r _ = Outcome.ret (some .hadoopSnappy) p := hrun.symm.trans h
  cases this
  obtain rfl : n = 8 := hd.reads _ rfl
  obtain ⟨hl₁, hl₂⟩ := hd.lengths rfl
  refine ⟨InFile.iterate_next (i := .opened s) h8, length_slice _ _ _, ?_, ?_⟩
  · rw [← slice_eq_take (show 4 ≤ s.length by omega)]
    exact hl₁
  · rw [← slice_four h8]
    exact hl₂

/-! ## Compressed files -/

theorem hadoopEncode_head {n : ℕ} (hn : n ≠ 0) {x : Bytes} (hx : x ≠ []) :
    hadoopEncode S n x = beBytes 4 (x.take n).length ++ (beBytes 4 (S.compress (x.take n)).length ++
      (S.compress (x.take n) ++ hadoopEncode S n (x.drop n))) := by
  rw [hadoopEncode, blocks_of_ne_nil (Nat.pos_of_ne_zero hn) hx, List.flatMap_cons]
  simp only [hadoopBlockBytes, List.append_assoc]
  rfl

theorem not_found_nil (g : Globals) :
    ¬ ∃ p, findStreamFormatByFileHeader ⟨.opened [], [], g⟩ = .ret (some .hadoopSnappy) p := by
  obtain ⟨r, n, g', hrun, hd⟩ := findStreamFormatByFileHeader_spec (InFile.opened []) g
  rintro ⟨p, hp⟩
  have : Outcome.ret r _ = Outcome.ret (some .hadoopSnappy) p := hrun.symm.trans hp
  cases this
  have hle := (detects_hadoop_iff hd).mp rfl
  revert hle
  decide

/-- **The files that are told by their first eight bytes**: those that are not empty and whose first
block does not get too long. -/
theorem hadoopSnappy_detected_iff (hS : S.Contract) (g : Globals) (B : Buffering) (i : BitVec 32)
    (x : Bytes) :
    let compressed := Codec.run B (hadoopSnappyFormatCompress S (sizeOfInt i)) (.opened x)
    compressed.status = some 0 → (i ≠ 38#32 ∨ x = []) →
    ((∃ p, findStreamFormatByFileHeader ⟨.opened compressed.written, [], g⟩ =
          .ret (some .hadoopSnappy) p ∧
        p.buf.length = 8 ∧ p.inp = .opened (compressed.written.drop 8) ∧
        Codec.run B (hadoopSnappyFormatUncompress S p.globals true) p.inp = ⟨some 0, x⟩) ↔
      x ≠ [] ∧ (S.compress (x.take (hadoopSnappyMaxInputSize (sizeOfInt i)).toNat)).length ≤
        maxCompressedLength) := by
  intro compressed hstatus hall
  by_cases hx : x = []
  · -- nothing is written
    have hnil : compressed.written = [] := by
      subst hx
      rcases maxInputSize_int i with ⟨h31, -⟩ | ⟨hlarge, -⟩
      · by_cases h0 : (hadoopSnappyMaxInputSize (sizeOfInt i)).toNat = 0
        · simp only [compressed, run_hadoop_of_zero h0]
        · simp only [compressed, run_hadoopSnappyFormatCompress hS h0 h31, hadoopEncode, blocks_nil,
            List.flatMap_nil]
      · simp only [compressed, run_hadoop_of_large hlarge]
    rw [hnil]
    refine ⟨?_, fun h => absurd hx h.1⟩
    rintro ⟨p, hp, -⟩
    exact absurd ⟨p, hp⟩ (not_found_nil g)
  have h38 : i ≠ 38#32 := hall.resolve_right hx
  obtain ⟨h31, h0⟩ : (hadoopSnappyMaxInputSize (sizeOfInt i)).toNat < 2 ^ 31 ∧
      (hadoopSnappyMaxInputSize (sizeOfInt i)).toNat ≠ 0 := by
    rcases maxInputSize_int i with ⟨h31, h⟩ | ⟨hlarge, -⟩
    · exact ⟨h31, fun h0 => h38 (h.mp h0)⟩
    · simp only [compressed, run_hadoop_of_large hlarge] at hstatus
      cases hstatus
  have hwritten : compressed.written =
      hadoopEncode S (hadoopSnappyMaxInputSize (sizeOfInt i)).toNat x := by
    simp only [compressed, run_hadoopSnappyFormatCompress hS h0 h31]
  rw [hwritten]
  generalize (hadoopSnappyMaxInputSize (sizeOfInt i)).toNat = n at h0 h31 ⊢
  have hd : (x.take n).length < 2 ^ 31 := by
    rw [List.length_take]
    omega
  have hhead := hadoopEncode_head (S := S) h0 hx
  have hlen : ∀ k, (beBytes 4 k).length = 4 := length_beBytes 4
  have h8 : 8 ≤ (hadoopEncode S n x).length := by
    rw [hhead]
    simp only [List.length_append, hlen]
    omega
  obtain ⟨-, h₁, h₂⟩ := take_beBytes (show (x.take n).length < 2 ^ 32 by omega)
    (beBytes 4 (S.compress (x.take n)).length ++
      (S.compress (x.take n) ++ hadoopEncode S n (x.drop n)))
  obtain ⟨-, h₃, -⟩ := take_beBytes (length_compress_lt_pow hS hd)
    (S.compress (x.take n) ++ hadoopEncode S n (x.drop n))
  rw [← hhead] at h₁ h₂
  rw [← h₂] at h₃
  have hfound := found_hadoop_iff h8 g
  rw [h₃] at hfound
  constructor
  · rintro ⟨p, hp, -⟩
    exact ⟨hx, hfound.mp ⟨p, hp⟩⟩
  · rintro ⟨-, hle⟩
    obtain ⟨p, hp⟩ := hfound.mpr hle
    obtain ⟨hinp, hbuf, hsource, hcompressed⟩ := found_hadoop h8 hp
    refine ⟨p, hp, hbuf, hinp, ?_⟩
    have hpos : beVal ((hadoopEncode S n x).take 4) ≠ 0 := by
      rw [h₁]
      exact fun hz => hx ((List.take_eq_nil_iff.mp (List.length_eq_zero_iff.mp hz)).resolve_left h0)
    have hskip := hadoopUnscript_skipMagic p.globals g false h8 hpos ⟨hsource, hcompressed⟩ (S := S)
    rw [hinp, run_hadoopUnscript_opened, hskip, ← run_hadoopUnscript_opened g false B]
    exact run_hadoopSnappyFormatUncompress hS h0 h31 g B x

/-- One byte, with the literal snappy. -/
theorem hadoopSnappy_detected_literal :
    let compressed :=
      Codec.run (.stdio 4096) (hadoopSnappyFormatCompress literalSnappy (sizeOfInt 0#32))
      (.opened [0x61#8])
    ∃ p, findStreamFormatByFileHeader ⟨.opened compressed.written, [], .initial⟩ =
        .ret (some .hadoopSnappy) p ∧
      p.buf.length = 8 ∧ p.inp = .opened (compressed.written.drop 8) ∧
      Codec.run (.stdio 4096) (hadoopSnappyFormatUncompress literalSnappy p.globals true) p.inp =
        ⟨some 0, [0x61#8]⟩ :=
  (hadoopSnappy_detected_iff contract_literalSnappy .initial (.stdio 4096) 0#32 [0x61#8] (by decide)
    (Or.inl (by decide))).mpr ⟨by decide, by decide⟩

/-- An empty file is compressed to nothing, and nothing is not found. -/
theorem not_hadoopSnappy_detected_nil :
    let compressed :=
      Codec.run (.stdio 4096) (hadoopSnappyFormatCompress literalSnappy (sizeOfInt 0#32))
      (.opened [])
    literalSnappy.Contract ∧ compressed.status = some 0 ∧
      ¬ ∃ p, findStreamFormatByFileHeader ⟨.opened compressed.written, [], .initial⟩ =
        .ret (some .hadoopSnappy) p := by
  intro compressed
  have hrun : compressed = ⟨some 0, []⟩ := by decide
  rw [hrun]
  exact ⟨contract_literalSnappy, rfl, not_found_nil .initial⟩

/-! ## Streams that start with a length of 0 -/

/-- A sub-block that can be decompressed, at the front of `s`, in a block with `n` bytes to go. -/
def SubBlockAt (S : Snappy) (n : ℕ) (s : Bytes) : Prop :=
  ∃ c u rest, s = beBytes 4 c.length ++ (c ++ rest) ∧ c ≠ [] ∧ c.length < 2 ^ 32 ∧
    S.uncompressWithin c n = some u ∧ u ≠ []

/-- The first block, after empty ones, has no sub-block that can be decompressed. -/
def FirstBlockBad (S : Snappy) (s : Bytes) : Prop :=
  ∃ k t, s = List.replicate (4 * k) 0x00#8 ++ t ∧ 4 ≤ t.length ∧ beVal (t.take 4) ≠ 0 ∧
    ¬ SubBlockAt S (beVal (t.take 4)) (t.drop 4)

theorem take_of_beVal_zero {s : Bytes} (h4 : 4 ≤ s.length) :
    beVal (s.take 4) = 0 ↔ s = List.replicate 4 0x00#8 ++ s.drop 4 := by
  have hlen : (s.take 4).length = 4 := List.length_take_of_le h4
  constructor
  · intro h
    have htake := beBytes_beVal (s.take 4)
    rw [hlen, h] at htake
    conv_lhs => rw [← List.take_append_drop 4 s, ← htake]
    rfl
  · intro h
    have htake : s.take 4 = List.replicate 4 0x00#8 := by
      rw [h]
      exact List.take_left' rfl
    rw [htake]
    rfl

theorem subBlock_zero (m : ℕ) (s : Bytes) : subBlock S 0 m s = .finish ⟨[], .status 1⟩ := by
  cases hp : subBlock S 0 m s with
  | finish sc => rw [subBlock_finish hp]
  | again ws n rest =>
    obtain ⟨c, u, -, -, -, hu, hne, -⟩ := subBlock_again_iff.mp hp
    obtain ⟨l, -, hl, hu⟩ := S.uncompressWithin_some hu
    have hle := S.uncompress_le hu
    exact absurd (List.length_eq_zero_iff.mp (by omega)) hne

theorem unroll_inner {n : ℕ} (hn : 0 < n) (s : Bytes) :
    (SubBlockAt S n s →
      ∃ u rest, u ≠ [] ∧ unroll (hadoopPassOf S false) n s =
        (unroll (hadoopPassOf S false) (n - u.length) rest).after [.fwriteOk u]) ∧
    (¬ SubBlockAt S n s → unroll (hadoopPassOf S false) n s = ⟨[], .status 1⟩) := by
  constructor
  · rintro ⟨c, u, rest, hs, hc, hlt, hu, hne⟩
    have hpass : hadoopPassOf S false n s = .again [.fwriteOk u] (n - u.length) rest :=
      hadoopPassOf_again_iff.mpr (Or.inl ⟨hn, c, u, hs, hc, hlt, hu, hne, rfl, rfl⟩)
    exact ⟨u, rest, hne, unroll_again hpass (shrinks_hadoopPassOf false _ _ _ _ _ hpass)⟩
  · intro h
    refine unroll_finish ?_
    cases hp : hadoopPassOf S false n s with
    | finish sc =>
      rcases hadoopPassOf_finish hp with rfl | ⟨-, h0, -⟩
      · rfl
      · omega
    | again ws n' rest =>
      rcases hadoopPassOf_again_iff.mp hp with ⟨-, c, u, hs, hc, hlt, hu, hne, -⟩ | ⟨h0, -⟩
      · exact absurd ⟨c, u, rest, hs, hc, hlt, hu, hne⟩ h
      · omega

/-- **The script on a whole stream fails without a write exactly if its first block is bad.** -/
theorem unroll_bad_iff (s : Bytes) :
    unroll (hadoopPassOf S false) 0 s = ⟨[], .status 1⟩ ↔ FirstBlockBad S s := by
  induction hk : s.length using Nat.strong_induction_on generalizing s with
  | _ k ih =>
    by_cases h4 : s.length < 4
    · have hend : unroll (hadoopPassOf S false) 0 s = ⟨[], .status 0⟩ := by
        refine unroll_finish ?_
        rw [hadoopPassOf, if_neg (Nat.lt_irrefl 0), if_pos h4]
        rfl
      rw [hend]
      refine ⟨fun h => ?_, ?_⟩
      · cases h
      · rintro ⟨j, t, rfl, ht, -⟩
        rw [List.length_append] at h4
        omega
    have hle : 4 ≤ s.length := Nat.le_of_not_lt h4
    have hhead : hadoopPassOf S false 0 s = .again [] (beVal (s.take 4)) (s.drop 4) := by
      rw [hadoopPassOf, if_neg (Nat.lt_irrefl 0), if_neg h4]
    have hlt : (s.drop 4).length < s.length := by
      rw [List.length_drop]
      omega
    rw [unroll_again hhead hlt, Script.after_nil]
    by_cases h0 : beVal (s.take 4) = 0
    · -- an empty block is skipped
      rw [h0, ih _ (hk ▸ hlt) (s.drop 4) rfl]
      have hs := (take_of_beVal_zero hle).mp h0
      constructor
      · rintro ⟨j, t, ht, h⟩
        refine ⟨j + 1, t, ?_, h⟩
        rw [hs, ht, ← List.append_assoc, List.replicate_append_replicate,
          show 4 * (j + 1) = 4 + 4 * j by omega]
      · rintro ⟨j, t, ht, htl, hne, hbad⟩
        cases j with
        | zero => exact absurd (by rw [← h0, ht]; rfl) hne
        | succ j =>
          refine ⟨j, t, ?_, htl, hne, hbad⟩
          rw [ht, show 4 * (j + 1) = 4 + 4 * j by omega, ← List.replicate_append_replicate,
            List.append_assoc, List.drop_left' (List.length_replicate ..)]
    · have hiff : FirstBlockBad S s ↔ ¬ SubBlockAt S (beVal (s.take 4)) (s.drop 4) := by
        constructor
        · rintro ⟨j, t, ht, htl, -, hbad⟩
          cases j with
          | zero =>
            rw [show s = t from ht]
            exact hbad
          | succ j =>
            refine absurd ((take_of_beVal_zero hle).mpr ?_) h0
            rw [ht, show 4 * (j + 1) = 4 + 4 * j by omega, ← List.replicate_append_replicate,
              List.append_assoc, List.drop_left' (List.length_replicate ..)]
        · exact fun hbad => ⟨0, s, rfl, hle, h0, hbad⟩
      rw [hiff]
      have hinner := unroll_inner (S := S) (Nat.pos_of_ne_zero h0) (s.drop 4)
      refine ⟨fun h hsub => ?_, hinner.2⟩
      obtain ⟨u, rest, -, hu⟩ := hinner.1 hsub
      rw [hu] at h
      exact List.cons_ne_nil _ _ (congrArg Script.writes h)

/-- **When the decoder does behind the first two lengths what it does on the whole stream**: when
the first length is not 0, and also when the decoder fails without a write. -/
theorem hadoopSnappy_skipMagic_iff (g g' : Globals) (B : Buffering) {s : Bytes} (h8 : 8 ≤ s.length)
    {p : Probe}
    (hp : findStreamFormatByFileHeader ⟨.opened s, [], g⟩ = .ret (some .hadoopSnappy) p) :
    let whole := Codec.run B (hadoopSnappyFormatUncompress S g' false) (.opened s)
    let skipped := Codec.run B (hadoopSnappyFormatUncompress S p.globals true)
      (.opened (s.drop 8))
    (skipped.written = whole.written ∧ (skipped.status = some 0 ↔ whole.status = some 0)) ↔
      beVal (s.take 4) ≠ 0 ∨ FirstBlockBad S s := by
  intro whole skipped
  obtain ⟨-, -, hsource, hcompressed⟩ := found_hadoop h8 hp
  have hwhole : whole = (hadoopUnscript S g' false false s).result :=
    run_hadoopUnscript_opened g' false B s
  have hskipped : skipped = (hadoopUnscript S p.globals true false (s.drop 8)).result :=
    run_hadoopUnscript_opened p.globals true B (s.drop 8)
  by_cases h0 : beVal (s.take 4) = 0
  · have hzero : skipped = ⟨some 1, []⟩ := by
      rw [hskipped, hadoopUnscript, if_pos rfl, hsource, h0, BitVec.toNat_ofNat, Nat.zero_mod,
        subBlock_zero]
      rfl
    obtain ⟨ws, k, hws, hk, hgood⟩ := unroll_hadoop (S := S) false 0 s
    have hres : whole = ⟨some k, bytesOf ws⟩ := by
      rw [hwhole, hadoopUnscript, if_neg (by decide), hws]
      rfl
    rw [hzero, hres, ← unroll_bad_iff, hws]
    constructor
    · rintro ⟨hbytes, hstatus⟩
      have hk1 : k = 1 := by
        have : k ≠ 0 := fun h => absurd (hstatus.mpr (congrArg some h)) (by decide)
        omega
      refine Or.inr (congrArg₂ Script.mk ?_ (by rw [hk1]))
      cases ws with
      | nil => rfl
      | cons w ws =>
        obtain ⟨u, hu, rfl⟩ := hgood w List.mem_cons_self
        exact absurd (List.append_eq_nil_iff.mp hbytes.symm).1 hu
    · intro h
      have hsc := h.resolve_left fun hne => hne h0
      cases hsc
      exact ⟨rfl, Iff.rfl⟩
  · refine ⟨fun _ => Or.inl h0, fun _ => ?_⟩
    have hskip := hadoopUnscript_skipMagic p.globals g' false h8 h0 ⟨hsource, hcompressed⟩ (S := S)
    rw [hskipped, hwhole, hskip]
    exact ⟨rfl, Iff.rfl⟩

/-- One byte in one block, with the literal snappy. -/
theorem hadoopSnappy_skipMagic_literal :
    let s : Bytes := [0x00#8, 0x00#8, 0x00#8, 0x01#8, 0x00#8, 0x00#8, 0x00#8, 0x03#8, 0x01#8,
      0x00#8, 0x61#8]
    ∃ p, findStreamFormatByFileHeader ⟨.opened s, [], .initial⟩ = .ret (some .hadoopSnappy) p ∧
      let whole :=
        Codec.run (.stdio 4096) (hadoopSnappyFormatUncompress literalSnappy .initial false)
        (.opened s)
      let skipped :=
        Codec.run (.stdio 4096) (hadoopSnappyFormatUncompress literalSnappy p.globals true)
        (.opened (s.drop 8))
      skipped.written = whole.written ∧ (skipped.status = some 0 ↔ whole.status = some 0) := by
  intro s
  obtain ⟨p, hp⟩ := (found_hadoop_iff (s := s) (by decide) .initial).mpr (by decide)
  exact ⟨p, hp, (hadoopSnappy_skipMagic_iff .initial .initial (.stdio 4096) (by decide) hp).mpr
    (Or.inl (by decide))⟩

/-- An empty block in front: eight bytes of value 0 are a stream, but not behind its lengths. -/
theorem not_hadoopSnappy_skipMagic :
    let s : Bytes := List.replicate 8 0x00#8
    ∃ p, findStreamFormatByFileHeader ⟨.opened s, [], .initial⟩ = .ret (some .hadoopSnappy) p ∧
      Codec.run (.stdio 4096) (hadoopSnappyFormatUncompress literalSnappy .initial false)
        (.opened s) =
        ⟨some 0, []⟩ ∧
      Codec.run (.stdio 4096) (hadoopSnappyFormatUncompress literalSnappy p.globals true)
        (.opened (s.drop 8)) = ⟨some 1, []⟩ := by
  intro s
  obtain ⟨p, hp⟩ := (found_hadoop_iff (s := s) (by decide) .initial).mpr (by decide)
  obtain ⟨-, -, hsource, -⟩ := found_hadoop (by decide) hp
  refine ⟨p, hp, by decide, ?_⟩
  have hzero : p.globals.hadoopSnappySourceLength.toNat = 0 := by
    rw [hsource]
    decide
  rw [run_hadoopUnscript_opened, hadoopUnscript, if_pos rfl, hzero, subBlock_zero]
  rfl

end Snzip
