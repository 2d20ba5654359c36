import Snzip.Verified
import Snzip.ReadError
import Snzip.Streaming

set_option autoImplicit false

/-!
# What the decoders accept

For every format there is a set of files that its decoder accepts, and what it writes for such a
file is the contents of the blocks. Files of the formats without a length of their own may be put
one behind the other.

* `Yields`, `yields_unroll_iff`: a script that succeeds, with the bytes that it writes;
* `Language`, **`accepts_iff`**: the accepted files of seven formats, with their contents;
* **`accepted_once`**: no file is accepted by two of these decoders;
* `Complete`, **`run_complete_append`**: what a decoder makes of a file in front of anything else.
-/

namespace Snzip

open CProg

/-- The script succeeds, and these are its bytes. -/
def Yields (sc : Script) (x : Bytes) : Prop := sc.Succeeds ∧ bytesOf sc.writes = x

section Yields

variable {ρ : Type} {pass : ρ → Bytes → Pass ρ} {r : ρ} {s x : Bytes}

theorem yields_after_iff {ws : List Write} {sc : Script} :
    Yields (sc.after ws) x ↔ (∀ w ∈ ws, w.Goes) ∧ ∃ y, Yields sc y ∧ x = bytesOf ws ++ y := by
  rw [Yields, Script.succeeds_after, Script.after, bytesOf_append]
  constructor
  · rintro ⟨⟨hws, hsc⟩, rfl⟩
    exact ⟨hws, _, ⟨hsc, rfl⟩, rfl⟩
  · rintro ⟨hws, y, ⟨hsc, rfl⟩, rfl⟩
    exact ⟨⟨hws, hsc⟩, rfl⟩

theorem yields_mk {v : Verdict} :
    Yields (Script.mk [] v) x ↔ (v = .status 0 ∨ v = .checked 0 ∨ v = .exit 0) ∧ x = [] := by
  rw [Yields, Script.succeeds_mk]
  exact and_congr_right fun _ => eq_comm

theorem not_yields_refused : ¬ Yields (Script.mk [] (.status 1)) x := by simp [yields_mk]

theorem yields_fflush_iff {sc : Script} : Yields (sc.after [.fflush]) x ↔ Yields sc x := by
  rw [yields_after_iff]
  simp [Write.Goes, Write.bytes]

/-- **How a loop succeeds**, and with which bytes. -/
theorem yields_unroll_iff (hp : Shrinks pass) :
    Yields (unroll pass r s) x ↔ ∃ ws r' s' sc y, Steps pass r s ws r' s' ∧
      pass r' s' = .finish sc ∧ (∀ w ∈ ws, w.Goes) ∧ Yields sc y ∧ x = bytesOf ws ++ y := by
  constructor
  · intro h
    obtain ⟨ws, r', s', sc, hst, hf, hu⟩ := exists_steps hp r s
    rw [hu] at h
    obtain ⟨hws, y, hy, hx⟩ := yields_after_iff.mp h
    exact ⟨ws, r', s', sc, y, hst, hf, hws, hy, hx⟩
  · rintro ⟨ws, r', s', sc, y, hst, hf, hws, hy, hx⟩
    rw [unroll_steps hp hst, unroll_finish hf]
    exact yields_after_iff.mpr ⟨hws, y, hy, hx⟩

theorem run_uncompress_zero_iff {L : Library} {f : Format} (hf : f ≠ .raw) (g : Globals)
    (skipMagic : Bool) {i : InFile} (hi : i.Ok) (B : Buffering) :
    Codec.run B (f.uncompress L g skipMagic) i = ⟨some 0, x⟩ ↔
      Yields (f.uncompressScript L g skipMagic i.fault i.rest) x := by
  rw [run_uncompress hf g skipMagic hi, Yields, Script.Succeeds]
  by_cases hgo : ∀ w ∈ (f.uncompressScript L g skipMagic i.fault i.rest).writes, w.Goes
  · rw [if_pos hgo, sent_of_goes hgo, Result.mk.injEq, and_iff_right hgo]
  · rw [if_neg hgo]
    simp [hgo]

end Yields

/-! ## Loops over blocks -/

section Loops

variable {S : Snappy} {k clen uclen : ℕ} {s x : Bytes}

theorem bytesOf_writeFull (us : List Bytes) :
    bytesOf (us.flatMap fun u => [.writeFull u]) = us.flatten := by
  rw [← List.map_eq_flatMap]
  exact bytesOf_map (fun _ => rfl) us

theorem goes_chunks {reading : Byte → Bytes → Reading} {b : Bytes} {cs : List (Option Bytes)}
    (h : Records (Chunk k reading) b cs) : ∀ w ∈ cs.flatMap contentWrites, w.Goes := by
  intro w hw
  obtain ⟨c, hc, hwc⟩ := List.mem_flatMap.mp hw
  exact h.forall_mem (P := fun c => ∀ w ∈ contentWrites c, w.Goes) (fun _ _ => Chunk.goes) c hc w
    hwc

/-- Chunks up to the end, or up to a data chunk with an empty content. -/
def ChunkedFile (k : ℕ) (reading : Byte → Bytes → Reading) (s : Bytes) (us : List Bytes) : Prop :=
  ∃ b cs rest, Records (Chunk k reading) b cs ∧ s = b ++ rest ∧ us = cs.reduceOption ∧
    (rest = [] ∨ EmptyContent k reading rest)

theorem yields_chunks_iff {reading : Byte → Bytes → Reading} :
    Yields (unroll (chunkPass k reading false) () s) x ↔
      ∃ us, ChunkedFile k reading s us ∧ x = us.flatten := by
  rw [yields_unroll_iff (shrinks_chunkPass reading false)]
  constructor
  · rintro ⟨ws, r, t, sc, y, hst, hf, -, hy, rfl⟩
    obtain ⟨b, cs, hb, rfl, rfl⟩ := (steps_iff_records chunkPass_again_iff).mp hst
    rcases chunkPass_finish hf with rfl | ⟨rfl, hend⟩
    · exact absurd hy not_yields_refused
    · refine ⟨_, ⟨b, cs, t, hb, rfl, rfl, hend.imp_left And.left⟩, ?_⟩
      rw [(yields_mk.mp hy).2, List.append_nil, bytesOf_contentWrites]
  · rintro ⟨us, ⟨b, cs, rest, hb, rfl, rfl, hend⟩, rfl⟩
    refine ⟨_, (), rest, ⟨[], .checked 0⟩, [],
      (steps_iff_records chunkPass_again_iff).mpr ⟨b, cs, hb, rfl, rfl⟩, ?_, goes_chunks hb,
      yields_mk.mpr ⟨Or.inr (Or.inl rfl), rfl⟩, ?_⟩
    · rcases hend with rfl | hempty
      · rfl
      · exact chunkPass_emptyContent false hempty
    · rw [List.append_nil, bytesOf_contentWrites]

theorem yields_snz_iff (h31 : uclen < 2 ^ 31) :
    Yields (unroll (snzPassOf S clen uclen) () s) x ↔ ∃ us, (∃ b e left,
      Records (SnzBlock S clen uclen) b us ∧ s = b ++ (e ++ left) ∧ IsLength e 0#64) ∧
        x = us.flatten := by
  rw [yields_unroll_iff shrinks_snzPassOf]
  constructor
  · rintro ⟨ws, r, t, sc, y, hst, hf, -, hy, rfl⟩
    obtain ⟨b, us, hb, rfl, rfl⟩ := (steps_iff_records snzPassOf_again_iff).mp hst
    rcases snzPassOf_finish hf with rfl | ⟨rfl, e, left, rfl, he⟩
    · exact absurd hy not_yields_refused
    · refine ⟨us, ⟨b, e, left, hb, rfl, he⟩, ?_⟩
      rw [(yields_mk.mp hy).2, List.append_nil, bytesOf_writeFull]
  · rintro ⟨us, ⟨b, e, left, hb, rfl, he⟩, rfl⟩
    have hst : Steps (snzPassOf S clen uclen) () (b ++ (e ++ left))
        (us.flatMap fun u => [.writeFull u]) () (e ++ left) :=
      (steps_iff_records snzPassOf_again_iff).mpr ⟨b, us, hb, rfl, rfl⟩
    refine ⟨_, (), _, _, [], hst, snzPassOf_zero he left, goes_writeFull_iff.mpr ?_,
      yields_mk.mpr ⟨Or.inl rfl, rfl⟩, ?_⟩
    · refine hb.forall_mem (P := fun u => u.length < 2 ^ 31) ?_
      rintro - v ⟨-, -, c, -, -, -, -, -, hv⟩
      obtain ⟨n, -, hn, hv⟩ := S.uncompressWithin_some hv
      have := S.uncompress_le hv
      omega
    · rw [List.append_nil, bytesOf_writeFull]

theorem yields_blocks_iff {pass : Unit → Bytes → Pass Unit} {B : Bytes → Bytes → Prop}
    (hp : Shrinks pass) (hagain : ∀ s ws rest, pass () s = .again ws () rest ↔
      ∃ b u, B b u ∧ s = b ++ rest ∧ ws = [.writeFull u])
    (hfinish : ∀ {s sc}, pass () s = .finish sc →
      sc = ⟨[], .status 1⟩ ∨ sc = ⟨[], .exit 1⟩ ∨ sc = ⟨[], .status 0⟩ ∧ s = [])
    (hnil : pass () [] = .finish ⟨[], .status 0⟩) :
    Yields (unroll pass () s) x ↔
      ∃ us, (Records B s us ∧ ∀ u ∈ us, u.length < 2 ^ 31) ∧ x = us.flatten := by
  rw [yields_unroll_iff hp]
  constructor
  · rintro ⟨ws, r, t, sc, y, hst, hf, hws, hy, rfl⟩
    obtain ⟨b, us, hb, rfl, rfl⟩ := (steps_iff_records hagain).mp hst
    rcases hfinish hf with rfl | rfl | ⟨rfl, rfl⟩
    · exact absurd hy not_yields_refused
    · simp [yields_mk] at hy
    · refine ⟨us, ⟨by rwa [List.append_nil], goes_writeFull_iff.mp hws⟩, ?_⟩
      rw [(yields_mk.mp hy).2, List.append_nil, bytesOf_writeFull]
  · rintro ⟨us, ⟨hb, hus⟩, rfl⟩
    have hst := (steps_iff_records hagain).mpr ⟨s, us, hb, (List.append_nil s).symm, rfl⟩
    refine ⟨_, (), [], _, [], hst, hnil, goes_writeFull_iff.mpr hus,
      yields_mk.mpr ⟨Or.inl rfl, rfl⟩, ?_⟩
    rw [List.append_nil, bytesOf_writeFull]

end Loops

/-! ## Languages -/

/-- The files that are accepted, with the contents of their blocks. Behind a data chunk with an
empty content and behind the end mark of snzip there may be anything. -/
def Language (S : Snappy) : Format → Bytes → List Bytes → Prop
  | .framing2, s, us => ∃ t, s = Snzip.framing2.streamHeader ++ t ∧
      ChunkedFile 3 (framingReading Snzip.framing2 S) t us
  | .framing, s, us => ∃ t, s = Snzip.framing.streamHeader ++ t ∧
      ChunkedFile 2 (framingReading Snzip.framing S) t us
  | .iwa, s, us => ChunkedFile 3 (iwaReading S) s us
  | .snzip, s, us => ∃ shift b e left,
      s = snzMagic ++ snzFileVersion :: shift :: (b ++ (e ++ left)) ∧
      shift.toNat ≤ snzMaxBlockSize ∧
      Records (SnzBlock S (snappyMaxCompressedLength (2 ^ shift.toNat)) (2 ^ shift.toNat)) b us ∧
      IsLength e 0#64
  | .snappyJava, s, us => ∃ t, s = snappyJavaMagic ++ (snappyJavaVersions ++ t) ∧
      Records (SnappyJavaBlock S) t us ∧ ∀ u ∈ us, u.length < 2 ^ 31
  | .snappyInJava, s, us => ∃ t, s = snappyInJavaMagic ++ t ∧ Records (SnappyInJavaBlock S) t us
  | .comment43, s, us => ∃ css, css ≠ [] ∧ Records (Comment43Stream S) s css ∧ us = css.flatten
  | .hadoopSnappy, _, _ | .raw, _, _ => False

section Accepts

variable {L : Library} {S : Snappy} {s x : Bytes}

theorem yields_framing_iff (F : Framing) :
    Yields (framingUnscript F S false false s) x ↔ ∃ us, (∃ t, s = F.streamHeader ++ t ∧
      ChunkedFile F.lengthBytes (framingReading F S) t us) ∧ x = us.flatten := by
  unfold framingUnscript
  rw [if_neg Bool.false_ne_true]
  split
  · next h =>
    obtain ⟨t, rfl⟩ := List.prefix_iff_eq_take.mpr h.symm
    rw [List.drop_left]
    simp only [framingChunks, yields_chunks_iff, List.append_cancel_left_eq, exists_eq_left']
  · next h =>
    refine iff_of_false not_yields_refused ?_
    rintro ⟨us, ⟨t, rfl, -⟩, -⟩
    exact h List.take_left

theorem goes_comment43Steps {ws : List Write} {state state' : StreamState} {t : Bytes}
    (h : Steps (comment43PassOf S) state s ws state' t) : ∀ w ∈ ws, w.Goes := by
  intro w hw
  refine (buffered_comment43 (S := S) state s w ?_).goes
  rw [unroll_steps shrinks_comment43PassOf h]
  exact List.mem_append_left _ hw

theorem yields_comment43_iff :
    Yields (comment43Unscript S false false s) x ↔
      ∃ us, Language S .comment43 s us ∧ x = us.flatten := by
  rw [comment43Unscript, if_neg Bool.false_ne_true, yields_unroll_iff shrinks_comment43PassOf]
  have hbytes : ∀ cs : List Bytes, bytesOf (cs.map .fwriteOk) = cs.flatten :=
    bytesOf_map fun _ => rfl
  constructor
  · rintro ⟨ws, r, t, sc, y, hst, hf, -, hy, rfl⟩
    rcases comment43PassOf_finish hf with rfl | ⟨rfl, rfl, rfl⟩
    · exact absurd hy not_yields_refused
    · obtain ⟨cs, hahead, rfl⟩ := steps_comment43_iff.mp hst
      exact ⟨cs, hahead, by rw [(yields_mk.mp hy).2, List.append_nil, hbytes]⟩
  · rintro ⟨us, hahead, rfl⟩
    have hst : Steps (comment43PassOf S) .initial s (us.map .fwriteOk) .endOfStream [] :=
      steps_comment43_iff.mpr ⟨us, hahead, rfl⟩
    have hend : comment43PassOf S .endOfStream [] = .finish ⟨[], .status 0⟩ := rfl
    refine ⟨_, _, _, _, [], hst, hend, goes_comment43Steps hst, yields_mk.mpr ⟨Or.inl rfl, rfl⟩, ?_⟩
    rw [List.append_nil, hbytes]

theorem takeHeader_eq_some_iff {m : Bytes} {n : ℕ} (hn : m.length = n) {check : Bytes → Option Unit}
    (hcheck : ∀ h, h.length = n → (check h = some () ↔ h = m)) {rest : Bytes} :
    takeHeader n check s = some ((), rest) ↔ s = m ++ rest := by
  subst hn
  unfold takeHeader
  constructor
  · intro h
    split at h
    · cases h
    next hlen =>
    obtain ⟨⟨⟩, hc, he⟩ := Option.map_eq_some_iff.mp h
    cases he
    have hm := (hcheck _ (List.length_take_of_le (Nat.le_of_not_lt hlen))).mp hc
    exact (List.take_append_drop m.length s).symm.trans (congrArg (· ++ _) hm)
  · rintro rfl
    rw [if_neg (by rw [List.length_append]; omega), List.take_left, List.drop_left,
      (hcheck m rfl).mpr rfl]
    rfl

theorem checkSnappyJavaHeader_iff {h : Bytes} (hlen : h.length = 16) :
    checkSnappyJavaHeader h = some () ↔ h = snappyJavaMagic ++ snappyJavaVersions := by
  constructor
  · intro hc
    unfold checkSnappyJavaHeader checkVersions at hc
    split at hc
    · cases hc
    next hmagic =>
    split at hc
    · cases hc
    next hversion =>
    split at hc
    · cases hc
    next hcompatible =>
    have h₁ := beBytes_beVal ((h.drop 8).take 4)
    have h₂ := beBytes_beVal ((h.drop 8).drop 4)
    rw [not_not.mp hversion, List.length_take_of_le (by rw [List.length_drop]; omega)] at h₁
    rw [not_not.mp hcompatible, List.length_drop, List.length_drop, hlen] at h₂
    rw [snappyJavaVersions]
    calc h = h.take 8 ++ h.drop 8 := (List.take_append_drop 8 h).symm
      _ = h.take 8 ++ ((h.drop 8).take 4 ++ (h.drop 8).drop 4) :=
        congrArg (h.take 8 ++ ·) (List.take_append_drop 4 (h.drop 8)).symm
      _ = _ := by rw [not_not.mp hmagic, ← h₁, ← h₂]
  · rintro rfl
    decide

theorem takeSnappyJavaHeader_iff {t : Bytes} :
    takeSnappyJavaHeader false s = some ((), t) ↔
      s = snappyJavaMagic ++ (snappyJavaVersions ++ t) := by
  rw [← List.append_assoc]
  exact takeHeader_eq_some_iff (by decide) fun h => checkSnappyJavaHeader_iff

theorem takeSnappyInJavaHeader_iff {t : Bytes} :
    takeSnappyInJavaHeader false s = some ((), t) ↔ s = snappyInJavaMagic ++ t :=
  takeHeader_eq_some_iff (by decide) fun h _ => by
    unfold checkSnappyInJavaHeader
    split <;> simp_all

theorem takeSnzHeader_iff {g : Globals} {shift : Byte} {t : Bytes} :
    takeSnzHeader g false s = some (shift, t) ↔ s = snzMagic ++ snzFileVersion :: shift :: t := by
  unfold takeSnzHeader takeHeader
  rw [if_neg Bool.false_ne_true]
  constructor
  · intro h
    split at h
    · cases h
    next hlen =>
    obtain ⟨b, hb, he⟩ := Option.map_eq_some_iff.mp h
    cases he
    obtain ⟨a₀, a₁, a₂, a₃, a₄, t, rfl⟩ : ∃ a₀ a₁ a₂ a₃ a₄ t,
        s = a₀ :: a₁ :: a₂ :: a₃ :: a₄ :: t := by
      match s, hlen with
      | a₀ :: a₁ :: a₂ :: a₃ :: a₄ :: t, _ => exact ⟨a₀, a₁, a₂, a₃, a₄, t, rfl⟩
      | [_, _, _, _], h | [_, _, _], h | [_, _], h | [_], h | [], h => simp at h
    unfold checkSnzHeader at hb
    split at hb
    · cases hb
    next hmagic =>
    split at hb
    · cases hb
    next hversion =>
    cases hb
    have hmagic : [a₀, a₁, a₂] = snzMagic := not_not.mp hmagic
    have hversion : a₃ = snzFileVersion := not_not.mp hversion
    rw [← hmagic, ← hversion]
    rfl
  · rintro rfl
    rfl

theorem yields_snzUnscript_iff {g : Globals} {x : Bytes} :
    Yields (snzUnscript L.snappy g false false s) x ↔
      ∃ us, Language L.snappy .snzip s us ∧ x = us.flatten := by
  unfold snzUnscript Language
  split
  · next h =>
    refine iff_of_false not_yields_refused ?_
    rintro ⟨us, ⟨shift, b, e, left, rfl, -⟩, -⟩
    rw [takeSnzHeader_iff.mpr rfl] at h
    cases h
  · next shift rest h =>
    obtain rfl := takeSnzHeader_iff.mp h
    split
    · next hbig =>
      refine iff_of_false not_yields_refused ?_
      rintro ⟨us, ⟨shift', b, e, left, hs, hle, -⟩, -⟩
      simp only [List.append_cancel_left_eq, List.cons.injEq, true_and] at hs
      rw [hs.1] at hbig
      omega
    · next hle =>
      have hlt : 2 ^ shift.toNat < 2 ^ 31 :=
        Nat.pow_lt_pow_right (by decide) (Nat.lt_of_le_of_lt (Nat.le_of_not_lt hle) (by decide))
      rw [snzBody, yields_fflush_iff, yields_snz_iff hlt]
      refine exists_congr fun us => and_congr_left fun _ => ?_
      constructor
      · rintro ⟨b, e, left, hb, rfl, he⟩
        exact ⟨shift, b, e, left, rfl, Nat.le_of_not_lt hle, hb, he⟩
      · rintro ⟨shift', b, e, left, hs, -, hb, he⟩
        simp only [List.append_cancel_left_eq, List.cons.injEq, true_and] at hs
        obtain ⟨rfl, rfl⟩ := hs
        exact ⟨b, e, left, hb, rfl, he⟩

theorem yields_snappyJavaUnscript_iff {x : Bytes} :
    Yields (snappyJavaUnscript L.snappy false false s) x ↔
      ∃ us, Language L.snappy .snappyJava s us ∧ x = us.flatten := by
  unfold snappyJavaUnscript Language
  split
  · next h =>
    refine iff_of_false not_yields_refused ?_
    rintro ⟨us, ⟨t, hs, -⟩, -⟩
    rw [takeSnappyJavaHeader_iff.mpr hs] at h
    cases h
  · next rest h =>
    obtain rfl := takeSnappyJavaHeader_iff.mp h
    rw [yields_fflush_iff, yields_blocks_iff shrinks_snappyJavaPassOf snappyJavaPassOf_again_iff
      snappyJavaPassOf_finish rfl]
    simp only [List.append_cancel_left_eq, exists_eq_left']

theorem yields_snappyInJavaUnscript_iff {x : Bytes} :
    Yields (snappyInJavaUnscript L.snappy false false s) x ↔
      ∃ us, Language L.snappy .snappyInJava s us ∧ x = us.flatten := by
  unfold snappyInJavaUnscript Language
  split
  · next h =>
    refine iff_of_false not_yields_refused ?_
    rintro ⟨us, ⟨t, hs, -⟩, -⟩
    rw [takeSnappyInJavaHeader_iff.mpr hs] at h
    cases h
  · next rest h =>
    obtain rfl := takeSnappyInJavaHeader_iff.mp h
    rw [yields_fflush_iff, yields_blocks_iff shrinks_snappyInJavaPassOf
      snappyInJavaPassOf_again_iff (fun h => (snappyInJavaPassOf_finish h).imp_right Or.inr) rfl]
    simp only [List.append_cancel_left_eq, exists_eq_left']
    refine exists_congr fun us => and_congr_left fun _ => and_iff_left_of_imp fun hb => ?_
    exact hb.forall_mem (P := fun u => u.length < 2 ^ 31)
      (fun _ _ h => Nat.lt_trans h.length_lt (by decide))

/-- **The scripts that succeed** are those of the files of the format. -/
theorem yields_uncompress_iff {f : Format} (hf : f ≠ .raw) (hh : f ≠ .hadoopSnappy) (g : Globals)
    (s x : Bytes) :
    Yields (f.uncompressScript L g false false s) x ↔
      ∃ us, Language L.snappy f s us ∧ x = us.flatten := by
  cases f with
  | raw => exact absurd rfl hf
  | hadoopSnappy => exact absurd rfl hh
  | framing2 => exact yields_framing_iff Snzip.framing2
  | framing => exact yields_framing_iff Snzip.framing
  | iwa => exact yields_chunks_iff
  | comment43 => exact yields_comment43_iff
  | snzip => exact yields_snzUnscript_iff
  | snappyJava => exact yields_snappyJavaUnscript_iff
  | snappyInJava => exact yields_snappyInJavaUnscript_iff

/-- **What a decoder accepts**: it returns 0 exactly on the files of its format, and then it has
written the contents of their blocks. -/
theorem accepts_iff {f : Format} (hf : f ≠ .raw) (hh : f ≠ .hadoopSnappy) (g : Globals)
    (B : Buffering) (s x : Bytes) :
    Codec.run B (f.uncompress L g false) (.opened s) = ⟨some 0, x⟩ ↔
      ∃ us, Language L.snappy f s us ∧ x = us.flatten := by
  rw [run_uncompress_zero_iff hf g false (InFile.ok_opened s)]
  exact yields_uncompress_iff hf hh g s x

theorem Language.begins {f : Format} {m : Bytes} {us : List Bytes} (h : Language S f s us)
    (hm : f.magic = some m) : m <+: s := by
  cases f with
  | raw | hadoopSnappy => exact h.elim
  | iwa => cases hm
  | framing2 | framing =>
    cases hm
    obtain ⟨t, rfl, -⟩ := h
    exact List.prefix_append _ _
  | snzip =>
    cases hm
    obtain ⟨shift, b, e, left, rfl, -⟩ := h
    exact ⟨shift :: (b ++ (e ++ left)), rfl⟩
  | snappyJava =>
    cases hm
    obtain ⟨t, rfl, -⟩ := h
    exact List.prefix_append _ _
  | snappyInJava =>
    cases hm
    obtain ⟨t, rfl, -⟩ := h
    exact List.prefix_append _ _
  | comment43 =>
    cases hm
    obtain ⟨css, hne, hrec, -⟩ := h
    cases hrec with
    | nil => exact absurd rfl hne
    | cons hstream _ =>
      obtain ⟨body, bcs, -, rfl, -⟩ := hstream
      exact ⟨_, by rw [List.append_assoc]; rfl⟩

theorem Language.iwa_begins {us : List Bytes} (h : Language S .iwa s us) :
    s = [] ∨ [0x00#8] <+: s := by
  have hid : ∀ {id : Byte} {data u : Bytes}, iwaReading S id data = .content u → id = 0x00#8 := by
    intro id data u hread
    unfold iwaReading at hread
    split at hread
    · cases hread
    · next hgood => exact not_not.mp fun hne => hgood (Or.inl hne)
  have hskip : ∀ {id : Byte} {data : Bytes}, iwaReading S id data ≠ .skip := by
    intro id data hread
    unfold iwaReading at hread
    split at hread
    · cases hread
    · split at hread <;> cases hread
  obtain ⟨b, cs, rest, hb, rfl, -, hend⟩ := h
  cases hb with
  | cons hc _ =>
    obtain ⟨id, data, -, rfl, ⟨hread, -⟩ | ⟨u, hread, -⟩⟩ := hc
    · exact absurd hread hskip
    · rw [hid hread]
      exact Or.inr ⟨_, rfl⟩
  | nil =>
    rcases hend with rfl | ⟨id, data, left, -, rfl, hread⟩
    · exact Or.inl rfl
    · rw [hid hread]
      exact Or.inr ⟨_, rfl⟩

/-- What every file of a format begins with that is not empty. -/
def Format.start (f : Format) : Option Bytes := if f = .iwa then some [0x00#8] else f.magic

theorem Language.starts {f : Format} {us : List Bytes} (h : Language S f s us) :
    f = .iwa ∧ s = [] ∨ ∃ m, f.start = some m ∧ m ≠ [] ∧ m <+: s := by
  by_cases hf : f = .iwa
  · subst hf
    exact h.iwa_begins.imp (⟨rfl, ·⟩) fun hpre => ⟨_, rfl, List.cons_ne_nil _ _, hpre⟩
  · have hmagic : ∃ m, f.magic = some m ∧ m ≠ [] := by
      cases f with
      | raw | hadoopSnappy => exact h.elim
      | iwa => exact absurd rfl hf
      | _ => exact ⟨_, rfl, by decide⟩
    obtain ⟨m, hm, hne⟩ := hmagic
    exact Or.inr ⟨m, (if_neg hf).trans hm, hne, h.begins hm⟩

theorem Format.start_unique {f f' : Format} {m m' : Bytes} (h : f.start = some m)
    (h' : f'.start = some m') (hpre : m <+: m' ∨ m' <+: m) : f = f' := by
  have hall : ∀ f ∈ streamFormats, ∀ f' ∈ streamFormats, ∀ m ∈ f.start.toList,
      ∀ m' ∈ f'.start.toList, m <+: m' ∨ m' <+: m → f = f' := by decide
  exact hall f (mem_streamFormats f) f' (mem_streamFormats f') m (Option.mem_toList.mpr h) m'
    (Option.mem_toList.mpr h') hpre

theorem Language.unique {f f' : Format} {us us' : List Bytes} (h : Language S f s us)
    (h' : Language S f' s us') : f = f' := by
  rcases h.starts with ⟨rfl, rfl⟩ | ⟨m, hm, hne, hpre⟩
  · rcases h'.starts with ⟨rfl, -⟩ | ⟨m', -, hne', hpre'⟩
    · rfl
    · exact absurd (List.prefix_nil.mp hpre') hne'
  · rcases h'.starts with ⟨-, rfl⟩ | ⟨m', hm', -, hpre'⟩
    · exact absurd (List.prefix_nil.mp hpre) hne
    · exact Format.start_unique hm hm' (List.prefix_or_prefix_of_prefix hpre hpre')

/-- A file on which the decoder returns 0 is in the language, with what has been written. -/
theorem language_of_run {f : Format} (hf : f ≠ .raw) (hh : f ≠ .hadoopSnappy) {g : Globals}
    {B : Buffering} (h : (Codec.run B (f.uncompress L g false) (.opened s)).status = some 0) :
    ∃ us, Language L.snappy f s us ∧
      (Codec.run B (f.uncompress L g false) (.opened s)).written = us.flatten := by
  generalize hr : Codec.run B (f.uncompress L g false) (.opened s) = r at h
  obtain ⟨status, x⟩ := r
  obtain rfl : status = some 0 := h
  rw [run_uncompress_zero_iff hf g false (InFile.ok_opened s)] at hr
  exact (yields_uncompress_iff hf hh g s x).mp hr

/-- **No file is accepted by two decoders** of the seven. -/
theorem accepted_once {f f' : Format} (hf : f ≠ .raw) (hh : f ≠ .hadoopSnappy) (hf' : f' ≠ .raw)
    (hh' : f' ≠ .hadoopSnappy) (hne : f ≠ f') (g g' : Globals) (B B' : Buffering)
    (h : (Codec.run B (f.uncompress L g false) (.opened s)).status = some 0) :
    (Codec.run B' (f'.uncompress L g' false) (.opened s)).status ≠ some 0 := by
  intro h'
  obtain ⟨us, hus, -⟩ := language_of_run hf hh h
  obtain ⟨us', hus', -⟩ := language_of_run hf' hh' h'
  exact hne (hus.unique hus')

/-- A file of snappy-java with one block of one byte. -/
def oneBlockJava : Bytes :=
  snappyJavaMagic ++ (snappyJavaVersions ++ (beBytes 4 3 ++ [0x01#8, 0x00#8, 0x61#8]))

theorem snappyJavaBlock_one :
    SnappyJavaBlock literalSnappy (beBytes 4 3 ++ [0x01#8, 0x00#8, 0x61#8]) [0x61#8] :=
  ⟨[0x01#8, 0x00#8, 0x61#8], by decide, by decide, rfl, by decide⟩

theorem accepts_iff_one :
    Codec.run (.stdio 4096) (Format.snappyJava.uncompress ⟨literalSnappy, 0⟩ .initial false)
      (.opened oneBlockJava) = ⟨some 0, [0x61#8]⟩ :=
  (accepts_iff (by decide) (by decide) .initial (.stdio 4096) oneBlockJava [0x61#8]).mpr
    ⟨[[0x61#8]], ⟨_, rfl, .single snappyJavaBlock_one, by decide⟩, rfl⟩

/-- It is refused as a file of iwa. -/
theorem accepted_once_one :
    (Codec.run (.stdio 4096) (Format.iwa.uncompress ⟨literalSnappy, 0⟩ .initial false)
      (.opened oneBlockJava)).status ≠ some 0 := by
  have hyields : Yields (Format.snappyJava.uncompressScript ⟨literalSnappy, 0⟩ .initial false false
      oneBlockJava) [0x61#8] := (yields_uncompress_iff (by decide) (by decide) .initial _ _).mpr
    ⟨[[0x61#8]], ⟨_, rfl, .single snappyJavaBlock_one, by decide⟩, rfl⟩
  have hrun :
    Codec.run (.stdio 4096) (Format.snappyJava.uncompress ⟨literalSnappy, 0⟩ .initial false)
      (.opened oneBlockJava) = ⟨some 0, [0x61#8]⟩ :=
    (run_uncompress_zero_iff (by decide) .initial false (InFile.ok_opened _) (.stdio 4096)).mpr
      hyields
  exact accepted_once (by decide) (by decide) (by decide) (by decide) (by decide) .initial .initial
    (.stdio 4096) (.stdio 4096) (congrArg Result.status hrun)

end Accepts

/-! ## One file behind another -/

/-- The files that come to their end with the last block, with the contents of their blocks. -/
def Complete (S : Snappy) : Format → Bytes → List Bytes → Prop
  | .framing2, s, us => ∃ b cs, s = Snzip.framing2.streamHeader ++ b ∧
      Records (Chunk 3 (framingReading Snzip.framing2 S)) b cs ∧ us = cs.reduceOption
  | .framing, s, us => ∃ b cs, s = Snzip.framing.streamHeader ++ b ∧
      Records (Chunk 2 (framingReading Snzip.framing S)) b cs ∧ us = cs.reduceOption
  | .iwa, s, us => ∃ cs, Records (Chunk 3 (iwaReading S)) s cs ∧ us = cs.reduceOption
  | .comment43, s, us => ∃ css, css ≠ [] ∧ Records (Comment43Stream S) s css ∧ us = css.flatten
  | .hadoopSnappy, s, us => ∃ bs, Records (HadoopBlock S.EncodesExactly) s bs ∧
      us = hadoopContents bs
  | .snzip, _, _ | .snappyJava, _, _ | .snappyInJava, _, _ | .raw, _, _ => False

/-- What may stand behind such a file: the framing formats expect their header once more, and
comment-43 takes the end of the file for an error where no stream has been. -/
def Format.Continues : Format → Bytes → Prop
  | .framing2, t => Snzip.framing2.streamHeader <+: t
  | .framing, t => Snzip.framing.streamHeader <+: t
  | .comment43, t => t ≠ []
  | _, _ => True

section Complete

variable {L : Library} {S : Snappy} {f : Format} {fault : Bool} {s t : Bytes} {us : List Bytes}

/-- Outside a stream it does not matter whether there has been one, except at the end. -/
theorem unroll_comment43_outside (ht : t ≠ []) :
    unroll (comment43PassOf S) .endOfStream t = unroll (comment43PassOf S) .initial t := by
  have hpass : comment43PassOf S .endOfStream t = comment43PassOf S .initial t := by
    rw [comment43PassOf, if_neg ht, comment43PassOf, if_neg ht]
    cases splitChunk 2 t with
    | none => rfl
    | some p =>
      simp only [blockAction_header (S := S) (Or.inl rfl), blockAction_header (S := S) (Or.inr rfl)]
  cases h : comment43PassOf S .initial t with
  | finish sc => rw [unroll_finish h, unroll_finish (hpass.trans h)]
  | again ws r rest =>
    have hlt := shrinks_comment43PassOf _ _ _ _ _ h
    rw [unroll_again h hlt, unroll_again (hpass.trans h) hlt]

theorem unroll_chunks_append {k : ℕ} {reading : Byte → Bytes → Reading}
    {cs : List (Option Bytes)} (h : Records (Chunk k reading) s cs) (t : Bytes) :
    unroll (chunkPass k reading fault) () (s ++ t) =
      (unroll (chunkPass k reading fault) () t).after (cs.reduceOption.map .fwriteOk) := by
  have hst : Steps (chunkPass k reading fault) () (s ++ t) (cs.flatMap contentWrites) () t :=
    (steps_iff_records chunkPass_again_iff).mpr ⟨s, cs, h, rfl, rfl⟩
  rw [unroll_steps (shrinks_chunkPass reading fault) hst, flatMap_contentWrites]

/-- **The script of a complete file with something behind it.** -/
theorem script_complete_append (h : Complete L.snappy f s us) (ht : f.Continues t) (g : Globals)
    (fault : Bool) :
    f.uncompressScript L g false fault (s ++ t) =
      (f.uncompressScript L g false fault t).after (us.map .fwriteOk) := by
  have hframing : ∀ (F : Framing) b cs, F.streamHeader <+: t → s = F.streamHeader ++ b →
      Records (Chunk F.lengthBytes (framingReading F L.snappy)) b cs → us = cs.reduceOption →
      framingUnscript F L.snappy false fault (s ++ t) =
        (framingUnscript F L.snappy false fault t).after (us.map .fwriteOk) := by
    rintro F b cs hpre rfl hb rfl
    rw [framingUnscript_of_header fault hpre, List.append_assoc,
      framingUnscript_of_header fault (List.prefix_append ..), framingChunks,
      unroll_skip (splitChunk_header F (b ++ t)) (framingReading_header F L.snappy),
      unroll_chunks_append hb]
    rfl
  cases f with
  | framing2 =>
    obtain ⟨b, cs, hs, hb, hus⟩ := h
    exact hframing Snzip.framing2 b cs ht hs hb hus
  | framing =>
    obtain ⟨b, cs, hs, hb, hus⟩ := h
    exact hframing Snzip.framing b cs ht hs hb hus
  | iwa =>
    obtain ⟨cs, hb, rfl⟩ := h
    exact unroll_chunks_append hb t
  | comment43 =>
    have hst : Steps (comment43PassOf L.snappy) .initial s (us.map .fwriteOk) .endOfStream [] :=
      steps_comment43_iff.mpr ⟨us, h, rfl⟩
    have := unroll_steps shrinks_comment43PassOf (online_comment43Pass.steps hst t)
    rwa [List.nil_append, unroll_comment43_outside ht] at this
  | hadoopSnappy =>
    obtain ⟨bs, hb, rfl⟩ := h
    have hst : Steps (hadoopPassOf L.snappy fault) 0 _ ((hadoopContents bs).map .fwriteOk) 0 [] :=
      steps_hadoopBlocks hb
    exact unroll_steps (shrinks_hadoopPassOf fault) ((online_hadoopPass fault fault).steps hst t)
  | snzip | snappyJava | snappyInJava | raw => exact h.elim

theorem Complete.continues (h : Complete S f s us) (t : Bytes) : f.Continues (s ++ t) := by
  cases f with
  | framing2 =>
    obtain ⟨b, cs, rfl, -⟩ := h
    exact ⟨b ++ t, (List.append_assoc ..).symm⟩
  | framing =>
    obtain ⟨b, cs, rfl, -⟩ := h
    exact ⟨b ++ t, (List.append_assoc ..).symm⟩
  | comment43 =>
    obtain ⟨css, hne, hcss, -⟩ := h
    cases hcss with
    | nil => exact absurd rfl hne
    | cons hb _ =>
      obtain ⟨body, bcs, -, rfl, -⟩ := hb
      exact List.cons_ne_nil _ _
  | iwa | hadoopSnappy | snzip | snappyJava | snappyInJava | raw => trivial

theorem Complete.goes (h : Complete S f s us) : ∀ w ∈ us.map Write.fwriteOk, w.Goes := by
  cases f with
  | framing2 =>
    obtain ⟨b, cs, -, hb, rfl⟩ := h
    exact flatMap_contentWrites cs ▸ goes_chunks hb
  | framing =>
    obtain ⟨b, cs, -, hb, rfl⟩ := h
    exact flatMap_contentWrites cs ▸ goes_chunks hb
  | iwa =>
    obtain ⟨cs, hb, rfl⟩ := h
    exact flatMap_contentWrites cs ▸ goes_chunks hb
  | comment43 =>
    have hahead : Comment43Ahead S .initial s us := h
    exact goes_comment43Steps (steps_comment43_iff.mpr ⟨us, hahead, rfl⟩)
  | hadoopSnappy =>
    obtain ⟨bs, hb, rfl⟩ := h
    have hsub : ∀ b ∈ bs, ∀ u ∈ b.2, u ≠ [] := by
      refine hb.forall_mem (P := fun b => ∀ u ∈ b.2, u ≠ []) ?_
      rintro - b ⟨subs, -, -, hsubs, -⟩
      refine hsubs.forall_mem (P := fun u => u ≠ []) ?_
      rintro - u ⟨e, -, -, -, hu, -⟩
      exact hu
    intro w hw
    obtain ⟨u, hu, rfl⟩ := List.mem_map.mp hw
    obtain ⟨b, hb, hub⟩ := List.mem_flatMap.mp hu
    exact hsub b hb u hub
  | snzip | snappyJava | snappyInJava | raw => exact h.elim

/-- A chunk of iwa with two bytes. -/
def oneChunkIwa : Bytes := [0x00#8, 0x04#8, 0x00#8, 0x00#8, 0x02#8, 0x04#8, 0x61#8, 0x62#8]

theorem complete_oneChunkIwa : Complete literalSnappy .iwa oneChunkIwa [[0x61#8, 0x62#8]] := by
  have hread : iwaReading literalSnappy 0x00#8 [0x02#8, 0x04#8, 0x61#8, 0x62#8] =
      .content [0x61#8, 0x62#8] := by decide
  have hchunk : Chunk 3 (iwaReading literalSnappy) oneChunkIwa (some [0x61#8, 0x62#8]) :=
    ⟨0x00#8, [0x02#8, 0x04#8, 0x61#8, 0x62#8], by decide, rfl, Or.inr ⟨_, hread, by decide, rfl⟩⟩
  exact ⟨[some [0x61#8, 0x62#8]], .single hchunk, rfl⟩

/-- **Files one behind the other.** What a decoder makes of complete files and then anything at all,
malformed or cut off, is the contents of these files and then what it makes of the rest alone. -/
theorem run_complete_append (hf : f ≠ .raw) {files : List (Bytes × List Bytes)}
    (h : ∀ q ∈ files, Complete L.snappy f q.1 q.2) (ht : f.Continues t) (g : Globals) (fault : Bool)
    (B : Buffering) :
    let r := Codec.run B (f.uncompress L g false) ⟨t, fault, false, false⟩
    Codec.run B (f.uncompress L g false)
        ⟨files.flatMap Prod.fst ++ t, fault, false, false⟩ =
      ⟨r.status, (files.flatMap Prod.snd).flatten ++ r.written⟩ := by
  intro r
  have hok : ∀ s : Bytes, (InFile.mk s fault false false).Ok :=
    fun s => ⟨fun h => Bool.noConfusion h, fun h => Bool.noConfusion h⟩
  suffices hscript : f.Continues (files.flatMap Prod.fst ++ t) ∧
      (∀ w ∈ (files.flatMap Prod.snd).map Write.fwriteOk, w.Goes) ∧
      f.uncompressScript L g false fault (files.flatMap Prod.fst ++ t) =
        (f.uncompressScript L g false fault t).after
          ((files.flatMap Prod.snd).map .fwriteOk) by
    obtain ⟨-, hgoes, hscript⟩ := hscript
    have hbytes : bytesOf ((files.flatMap Prod.snd).map .fwriteOk) =
        (files.flatMap Prod.snd).flatten := bytesOf_map (fun _ => rfl) _
    rw [run_uncompress hf g false (hok _), hscript, Script.after, sent_append hgoes, hbytes]
    simp only [r, run_uncompress hf g false (hok t), List.forall_mem_append, and_iff_right hgoes]
    cases hv : (f.uncompressScript L g false fault t).verdict <;> simp [Script.result, hv]
  induction files with
  | nil => exact ⟨ht, by simp, rfl⟩
  | cons q files ih =>
    obtain ⟨hq, hfiles⟩ := List.forall_mem_cons.mp h
    obtain ⟨hcont, hgoes, hscript⟩ := ih hfiles
    rw [List.flatMap_cons, List.flatMap_cons, List.append_assoc, List.map_append]
    refine ⟨hq.continues _, List.forall_mem_append.mpr ⟨hq.goes, hgoes⟩, ?_⟩
    rw [script_complete_append hq hcont, hscript, Script.after_append]

/-- A chunk of iwa twice, and a chunk that is cut off. -/
theorem run_complete_append_two :
    let r := Codec.run (.stdio 4096) (Format.iwa.uncompress ⟨literalSnappy, 0⟩ .initial false)
      ⟨[0x00#8], false, false, false⟩
    Codec.run (.stdio 4096) (Format.iwa.uncompress ⟨literalSnappy, 0⟩ .initial false)
        ⟨oneChunkIwa ++ (oneChunkIwa ++ [0x00#8]), false, false, false⟩ =
      ⟨r.status, [0x61#8, 0x62#8, 0x61#8, 0x62#8] ++ r.written⟩ := by
  have h : ∀ q ∈ [(oneChunkIwa, [[0x61#8, 0x62#8]]), (oneChunkIwa, [[0x61#8, 0x62#8]])],
      Complete literalSnappy .iwa q.1 q.2 := by simpa using complete_oneChunkIwa
  exact run_complete_append (L := ⟨literalSnappy, 0⟩) (f := .iwa) (by decide) h trivial .initial
    false (.stdio 4096)

end Complete

end Snzip
