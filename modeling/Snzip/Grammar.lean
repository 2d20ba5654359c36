import Snzip.RoundTrip.Comment43
import Snzip.RoundTrip.Java
import Snzip.RoundTrip.Snz
import Snzip.Steps

set_option autoImplicit false

/-!
# What the decoders read

A pass of a decoder goes round again when there is a complete and correct block, and then it has
read just that block. So what a decoder has read at any time is a list of blocks.

* `Chunk`, `Comment43Block`, `SnzBlock`, `SnappyJavaBlock`, `SnappyInJavaBlock`: the blocks;
* **`chunkPass_again_iff`** and its likes: a pass that goes round again is a block;
* **`chunkPass_finish`** and its likes: what the last pass comes to.
-/

namespace Snzip

open CProg

variable {S : Snappy} {k : ℕ}

/-! ## Chunks -/

/-- **A chunk in front of a stream.** -/
theorem splitChunk_eq_some_iff {s : Bytes} {id : Byte} {data rest : Bytes} :
    splitChunk k s = some (id, data, rest) ↔
      data.length < 256 ^ k ∧ s = id :: (leBytes k data.length ++ data) ++ rest := by
  constructor
  · intro h
    cases s with
    | nil => cases h
    | cons b s =>
      obtain ⟨hk, hle, hp⟩ := splitChunk_cons h
      simp only [Prod.mk.injEq] at hp
      obtain ⟨rfl, rfl, rfl⟩ := hp
      have htake : (s.take k).length = k := List.length_take_of_le hk
      have hlen : ((s.drop k).take (leVal (s.take k))).length = leVal (s.take k) :=
        List.length_take_of_le hle
      have hlt := leVal_lt (s.take k)
      rw [htake] at hlt
      have hfield := leBytes_leVal (s.take k)
      rw [htake] at hfield
      refine ⟨hlen.symm ▸ hlt, ?_⟩
      rw [hlen, hfield, List.cons_append, List.append_assoc, List.take_append_drop,
        List.take_append_drop]
  · rintro ⟨hlt, rfl⟩
    exact splitChunk_append hlt id rest

/-- A chunk that the decoder accepts: it is skipped, or it has a content that is not empty. -/
def Chunk (k : ℕ) (reading : Byte → Bytes → Reading) (bs : Bytes) (c : Option Bytes) : Prop :=
  ∃ id data, data.length < 256 ^ k ∧ bs = id :: (leBytes k data.length ++ data) ∧
    (reading id data = .skip ∧ c = none ∨
      ∃ u, reading id data = .content u ∧ u ≠ [] ∧ c = some u)

/-- What is written for a block. -/
def contentWrites : Option Bytes → List Write
  | none => []
  | some u => [.fwriteOk u]

theorem Chunk.goes {reading : Byte → Bytes → Reading} {b : Bytes} {c : Option Bytes}
    (h : Chunk k reading b c) : ∀ w ∈ contentWrites c, w.Goes := by
  obtain ⟨-, -, -, -, ⟨-, rfl⟩ | ⟨u, -, hu, rfl⟩⟩ := h
  · simp [contentWrites]
  · simpa [contentWrites, Write.Goes] using hu

theorem shrinks_chunkPass (reading : Byte → Bytes → Reading) (fault : Bool) :
    Shrinks (chunkPass k reading fault) := by
  intro r s ws r' rest h
  unfold chunkPass at h
  split at h
  · cases h
  split at h
  · cases h
  next hs =>
  have hlt := length_splitChunk hs
  split at h
  · cases h
  · cases h
    exact hlt
  split at h
  · cases h
  · cases h
    exact hlt

theorem chunkPass_again_iff {reading : Byte → Bytes → Reading} {fault : Bool} (s : Bytes)
    (ws : List Write) (rest : Bytes) :
    chunkPass k reading fault () s = .again ws () rest ↔
      ∃ b c, Chunk k reading b c ∧ s = b ++ rest ∧ ws = contentWrites c := by
  constructor
  · intro h
    unfold chunkPass at h
    split at h
    · cases h
    split at h
    · cases h
    next id data rest' hs =>
    obtain ⟨hlt, hbytes⟩ := splitChunk_eq_some_iff.mp hs
    split at h
    · cases h
    · next hr =>
      cases h
      exact ⟨_, none, ⟨id, data, hlt, rfl, Or.inl ⟨hr, rfl⟩⟩, hbytes, rfl⟩
    · next u hr =>
      split at h
      · cases h
      · next hu =>
        cases h
        exact ⟨_, some u, ⟨id, data, hlt, rfl, Or.inr ⟨u, hr, hu, rfl⟩⟩, hbytes, rfl⟩
  · rintro ⟨b, c, ⟨id, data, hlt, rfl, hc⟩, rfl, rfl⟩
    have hs : splitChunk k (id :: (leBytes k data.length ++ data) ++ rest) =
      some (id, data, rest) :=
      splitChunk_append hlt id rest
    rw [chunkPass, if_neg (by simp), hs]
    rcases hc with ⟨hr, rfl⟩ | ⟨u, hr, hu, rfl⟩
    · simp only [hr]
      rfl
    · simp only [hr, if_neg hu]
      rfl

/-- A data chunk with an empty content is in front. -/
def EmptyContent (k : ℕ) (reading : Byte → Bytes → Reading) (s : Bytes) : Prop :=
  ∃ id data left, data.length < 256 ^ k ∧ s = id :: (leBytes k data.length ++ data) ++ left ∧
    reading id data = .content []

/-- What the last pass comes to: status 0 at the end of the stream and in front of a chunk with an
empty content. -/
theorem chunkPass_finish {reading : Byte → Bytes → Reading} {fault : Bool} {s : Bytes} {sc : Script}
    (h : chunkPass k reading fault () s = .finish sc) :
    sc = ⟨[], .status 1⟩ ∨
      sc = ⟨[], .checked 0⟩ ∧ (s = [] ∧ fault = false ∨ EmptyContent k reading s) := by
  unfold chunkPass at h
  split at h
  · next hs =>
    cases h
    cases fault with
    | true => exact Or.inl rfl
    | false => exact Or.inr ⟨rfl, Or.inl ⟨hs, rfl⟩⟩
  split at h
  · cases h
    exact Or.inl rfl
  next id data rest hs =>
  obtain ⟨hlt, hbytes⟩ := splitChunk_eq_some_iff.mp hs
  split at h
  · cases h
    exact Or.inl rfl
  · cases h
  · next u hr =>
    split at h
    · next hu =>
      cases h
      exact Or.inr ⟨rfl, Or.inr ⟨id, data, rest, hlt, hbytes, hu ▸ hr⟩⟩
    · cases h

theorem chunkPass_emptyContent {reading : Byte → Bytes → Reading} (fault : Bool) {s : Bytes}
    (h : EmptyContent k reading s) : chunkPass k reading fault () s = .finish ⟨[], .checked 0⟩ := by
  obtain ⟨id, data, left, hlt, rfl, hr⟩ := h
  have hs : splitChunk k (id :: (leBytes k data.length ++ data) ++ left) = some (id, data, left) :=
    splitChunk_append hlt id left
  rw [chunkPass, if_neg (by simp), hs]
  simp only [hr, if_true]

/-- **When the decoder of a chunked stream succeeds.** -/
theorem succeeds_chunks_iff {reading : Byte → Bytes → Reading} {fault : Bool} {s : Bytes} :
    (unroll (chunkPass k reading fault) () s).Succeeds ↔
      ∃ b cs rest, Records (Chunk k reading) b cs ∧
      s = b ++ rest ∧ (rest = [] ∧ fault = false ∨ EmptyContent k reading rest) := by
  have hgoes : ∀ {b : Bytes} {cs : List (Option Bytes)}, Records (Chunk k reading) b cs →
      ∀ w ∈ cs.flatMap contentWrites, w.Goes := by
    intro b cs hb w hw
    obtain ⟨c, hc, hwc⟩ := List.mem_flatMap.mp hw
    exact hb.forall_mem (P := fun c => ∀ w ∈ contentWrites c, w.Goes) (fun _ _ => Chunk.goes) c hc w
      hwc
  rw [succeeds_unroll_iff (shrinks_chunkPass reading fault)]
  constructor
  · rintro ⟨ws, r, s', sc, hst, hf, -, hsc⟩
    obtain ⟨b, cs, hb, rfl, rfl⟩ := (steps_iff_records chunkPass_again_iff).mp hst
    rcases chunkPass_finish hf with rfl | ⟨rfl, hend⟩
    · simp [Script.succeeds_mk] at hsc
    · exact ⟨b, cs, s', hb, rfl, hend⟩
  · rintro ⟨b, cs, rest, hb, rfl, hend⟩
    refine ⟨_, (), rest, ⟨[], .checked 0⟩,
      (steps_iff_records chunkPass_again_iff).mpr ⟨b, cs, hb, rfl, rfl⟩, ?_, hgoes hb,
      Script.succeeds_mk.mpr (Or.inr (Or.inl rfl))⟩
    rcases hend with ⟨rfl, rfl⟩ | hempty
    · rfl
    · exact chunkPass_emptyContent fault hempty

/-! ## Blocks with a length of 32 bits -/

/-- A block of the snappy-java format. -/
def SnappyJavaBlock (S : Snappy) (bs u : Bytes) : Prop :=
  ∃ c, c ≠ [] ∧ c.length < 2 ^ 31 ∧ bs = beBytes 4 c.length ++ c ∧
    S.uncompressWithin c (2 ^ 32) = some u

theorem snappyJavaPassOf_again_iff (s : Bytes) (ws : List Write) (rest : Bytes) :
    snappyJavaPassOf S () s = .again ws () rest ↔
      ∃ b u, SnappyJavaBlock S b u ∧ s = b ++ rest ∧ ws = [.writeFull u] := by
  constructor
  · intro h
    unfold snappyJavaPassOf at h
    split at h
    · cases h
    split at h
    · cases h
    next h4 =>
    split at h
    · cases h
    next h31 =>
    split at h
    · cases h
    next hlen =>
    split at h
    · cases h
    next u hu =>
    cases h
    have h4' : (s.take 4).length = 4 := List.length_take_of_le (by omega)
    have hc : ((s.drop 4).take (beVal (s.take 4))).length = beVal (s.take 4) :=
      List.length_take_of_le (by omega)
    have hfield := beBytes_beVal (s.take 4)
    rw [h4'] at hfield
    refine ⟨s.take 4 ++ (s.drop 4).take (beVal (s.take 4)), u,
      ⟨(s.drop 4).take (beVal (s.take 4)), ?_, by omega, by rw [hc, hfield], hu⟩, ?_, rfl⟩
    · exact fun h0 => h4 (Or.inr (hc.symm.trans (congrArg List.length h0)))
    · rw [List.append_assoc, List.take_append_drop, List.take_append_drop]
  · rintro ⟨b, u, ⟨c, hc, hlt, rfl, hu⟩, rfl, rfl⟩
    have hpos := List.length_pos_iff.mpr hc
    obtain ⟨h₁, h₂, h₃⟩ := take_beBytes (show c.length < 2 ^ 32 by omega) (c ++ rest)
    rw [List.append_assoc, snappyJavaPassOf, if_neg (fun h0 => h₁ (by rw [h0]; decide)), h₂, h₃,
      if_neg (by omega), if_neg (by omega), if_neg (by rw [List.length_append]; omega),
      List.take_left, List.drop_left, hu]

theorem shrinks_snappyJavaPassOf : Shrinks (snappyJavaPassOf S) := by
  intro r s ws r' rest h
  obtain ⟨b, u, ⟨c, -, -, rfl, -⟩, rfl, -⟩ := (snappyJavaPassOf_again_iff s ws rest).mp h
  simp only [List.length_append, length_beBytes]
  omega

theorem snappyJavaPassOf_finish {s : Bytes} {sc : Script}
    (h : snappyJavaPassOf S () s = .finish sc) :
    sc = ⟨[], .status 1⟩ ∨ sc = ⟨[], .exit 1⟩ ∨ sc = ⟨[], .status 0⟩ ∧ s = [] := by
  unfold snappyJavaPassOf at h
  split at h
  · next hs =>
    cases h
    exact Or.inr (Or.inr ⟨rfl, hs⟩)
  split at h
  · cases h
    exact Or.inl rfl
  split at h
  · cases h
    exact Or.inr (Or.inl rfl)
  split at h
  · cases h
    exact Or.inl rfl
  split at h
  · cases h
    exact Or.inl rfl
  · cases h

/-! ## Blocks with a flag -/

/-- A block of the snappy-in-java format. -/
def SnappyInJavaBlock (S : Snappy) (bs u : Bytes) : Prop :=
  ∃ flag c, c ≠ [] ∧ c.length < 2 ^ 16 ∧
    bs = flag :: (beBytes 2 c.length ++ (beBytes 4 (maskedCrc32c u).toNat ++ c)) ∧
    (flag = compressedFlag ∧ S.uncompressWithin c snappyInJavaMaxBlockSize.toNat = some u ∨
      flag = uncompressedFlag ∧ u = c)

theorem beBytes_crc {f : Bytes} (h4 : f.length = 4) {u : Bytes}
    (h : maskedCrc32c u = BitVec.ofNat 32 (beVal f)) : f = beBytes 4 (maskedCrc32c u).toNat := by
  have hlt := beVal_lt f
  have hf := beBytes_beVal f
  rw [h4] at hlt hf
  rw [h, BitVec.toNat_ofNat, Nat.mod_eq_of_lt (by omega), hf]

theorem fields_eq {s : Bytes} (h6 : 6 ≤ s.length) :
    s = s.take 2 ++ ((s.drop 2).take 4 ++ s.drop 6) ∧ (s.take 2).length = 2 ∧
      ((s.drop 2).take 4).length = 4 := by
  refine ⟨?_, List.length_take_of_le (by omega), List.length_take_of_le ?_⟩
  · have hdrop : s.drop 6 = (s.drop 2).drop 4 := by rw [List.drop_drop]
    rw [hdrop, List.take_append_drop, List.take_append_drop]
  · rw [List.length_drop]
    omega

theorem snappyInJavaPassOf_again_iff (s : Bytes) (ws : List Write) (rest : Bytes) :
    snappyInJavaPassOf S snappyInJavaMaxBlockSize.toNat () s = .again ws () rest ↔
      ∃ b u, SnappyInJavaBlock S b u ∧ s = b ++ rest ∧ ws = [.writeFull u] := by
  constructor
  · intro h
    cases s with
    | nil => cases h
    | cons flag s =>
      rw [snappyInJavaPassOf] at h
      by_cases hflag : flag = compressedFlag ∨ flag = uncompressedFlag
      swap
      · rw [if_neg hflag] at h
        cases h
      rw [if_pos hflag, snappyInJavaFlaggedOf] at h
      by_cases h6 : s.length < 6 ∨ beVal (s.take 2) = 0 ∨ (s.drop 6).length < beVal (s.take 2)
      · rw [if_pos h6] at h
        cases h
      rw [if_neg h6] at h
      obtain ⟨hs, h2, h4⟩ := fields_eq (s := s) (by omega)
      have hc : ((s.drop 6).take (beVal (s.take 2))).length = beVal (s.take 2) :=
        List.length_take_of_le (by omega)
      have hne : (s.drop 6).take (beVal (s.take 2)) ≠ [] := fun h0 =>
        h6 (Or.inr (Or.inl (hc.symm.trans (congrArg List.length h0))))
      have hlt := beVal_lt (s.take 2)
      have hfield := beBytes_beVal (s.take 2)
      rw [h2] at hlt hfield
      have hblock : ∀ u, checkAndWriteOf u (BitVec.ofNat 32 (beVal ((s.drop 2).take 4)))
          ((s.drop 6).drop (beVal (s.take 2))) = .again ws () rest →
          (flag = compressedFlag ∧ S.uncompressWithin ((s.drop 6).take (beVal (s.take 2)))
              snappyInJavaMaxBlockSize.toNat = some u ∨
            flag = uncompressedFlag ∧ u = (s.drop 6).take (beVal (s.take 2))) →
          ∃ b u, SnappyInJavaBlock S b u ∧ flag :: s = b ++ rest ∧ ws = [.writeFull u] := by
        intro u hcheck hu
        unfold checkAndWriteOf at hcheck
        split at hcheck
        · cases hcheck
        next hcrc =>
        cases hcheck
        have hcrc := beBytes_crc h4 (not_not.mp hcrc)
        refine ⟨_, u, ⟨flag, (s.drop 6).take (beVal (s.take 2)), hne, by omega, rfl, hu⟩, ?_, rfl⟩
        rw [hc, hfield, ← hcrc, List.cons_append, List.append_assoc, List.append_assoc,
          List.take_append_drop, ← hs]
      by_cases hf : flag = compressedFlag
      · rw [if_pos hf] at h
        split at h
        · cases h
        · next u hu => exact hblock u h (Or.inl ⟨hf, hu⟩)
      · rw [if_neg hf] at h
        exact hblock _ h (Or.inr ⟨hflag.resolve_left hf, rfl⟩)
  · rintro ⟨b, u, ⟨flag, c, hc, hlt, rfl, hu⟩, rfl, rfl⟩
    have hcheck : checkAndWriteOf u (maskedCrc32c u) rest = .again [.writeFull u] () rest :=
      if_neg fun h => h rfl
    have hblock := snappyInJavaFlaggedOf_eq (S := S) hc hlt snappyInJavaMaxBlockSize.toNat flag
      (maskedCrc32c u) rest
    rw [List.cons_append, List.append_assoc, List.append_assoc, snappyInJavaPassOf,
      if_pos (hu.imp And.left And.left), hblock]
    rcases hu with ⟨rfl, hu⟩ | ⟨rfl, rfl⟩
    · rw [if_pos rfl, hu]
      exact hcheck
    · rw [if_neg (by decide)]
      exact hcheck

theorem SnappyInJavaBlock.length_lt {bs u : Bytes} (h : SnappyInJavaBlock S bs u) :
    u.length < 2 ^ 16 := by
  obtain ⟨flag, c, -, hlt, -, ⟨-, hu⟩ | ⟨-, rfl⟩⟩ := h
  · obtain ⟨n, -, hn, hu⟩ := S.uncompressWithin_some hu
    have hmax : snappyInJavaMaxBlockSize.toNat = 65535 := rfl
    have := S.uncompress_le hu
    omega
  · exact hlt

theorem shrinks_snappyInJavaPassOf :
    Shrinks (snappyInJavaPassOf S snappyInJavaMaxBlockSize.toNat) := by
  intro r s ws r' rest h
  obtain ⟨b, u, ⟨flag, c, -, -, rfl, -⟩, rfl, -⟩ := (snappyInJavaPassOf_again_iff s ws rest).mp h
  rw [List.length_append, List.length_cons]
  omega

theorem snappyInJavaPassOf_finish {uclen : ℕ} {s : Bytes} {sc : Script}
    (h : snappyInJavaPassOf S uclen () s = .finish sc) :
    sc = ⟨[], .status 1⟩ ∨ sc = ⟨[], .status 0⟩ ∧ s = [] := by
  have hcheck : ∀ {buffer : Bytes} {crc32c : BitVec 32} {rest : Bytes},
      checkAndWriteOf buffer crc32c rest = .finish sc → sc = ⟨[], .status 1⟩ := by
    intro buffer crc32c rest h
    unfold checkAndWriteOf at h
    split at h <;> cases h
    rfl
  cases s with
  | nil =>
    cases h
    exact Or.inr ⟨rfl, rfl⟩
  | cons flag s =>
    refine Or.inl ?_
    rw [snappyInJavaPassOf, snappyInJavaFlaggedOf] at h
    split at h
    · split at h
      · cases h
        rfl
      split at h
      · split at h
        · cases h
          rfl
        · exact hcheck h
      · exact hcheck h
    · cases h
      rfl


/-! ## Blocks with a length in base 128 -/

/-- A block of the snzip format. -/
def SnzBlock (S : Snappy) (clen uclen : ℕ) (bs u : Bytes) : Prop :=
  ∃ e n c, IsLength e n ∧ n ≠ 0#64 ∧ n.toNat ≤ clen ∧ c.length = n.toNat ∧ bs = e ++ c ∧
    S.uncompressWithin c uclen = some u

variable {clen uclen : ℕ}

theorem snzPassOf_again_iff (s : Bytes) (ws : List Write) (rest : Bytes) :
    snzPassOf S clen uclen () s = .again ws () rest ↔
      ∃ b u, SnzBlock S clen uclen b u ∧ s = b ++ rest ∧ ws = [.writeFull u] := by
  constructor
  · intro h
    unfold snzPassOf at h
    split at h
    · cases h
    next n idx t ht =>
    obtain ⟨e, rfl, he⟩ := exists_takeLength ht
    split at h
    · cases h
    next hidx =>
    split at h
    · cases h
    next hn =>
    split at h
    · cases h
    next hlen =>
    split at h
    · cases h
    next u hu =>
    cases h
    have hc : (t.take n.toNat).length = n.toNat := List.length_take_of_le (by omega)
    refine ⟨e ++ t.take n.toNat, u, ⟨e, n, t.take n.toNat, ⟨idx, he, hidx⟩, hn, by omega, hc, rfl,
      hu⟩, ?_, rfl⟩
    rw [List.append_assoc, List.take_append_drop]
  · rintro ⟨b, u, ⟨e, n, c, ⟨idx, he, hidx⟩, hn, hle, hlen, rfl, hu⟩, rfl, rfl⟩
    have htake := takeLength_append (c ++ rest) he
    rw [List.nil_append] at htake
    rw [List.append_assoc, snzPassOf, htake]
    simp only
    rw [if_neg hidx, if_neg hn, if_neg (by rw [List.length_append]; omega), List.take_left' hlen,
      List.drop_left' hlen, hu]

theorem shrinks_snzPassOf : Shrinks (snzPassOf S clen uclen) := by
  intro r s ws r' rest h
  obtain ⟨b, u, ⟨e, n, c, he, -, -, -, rfl, -⟩, rfl, -⟩ := (snzPassOf_again_iff s ws rest).mp h
  have := List.length_pos_iff.mpr he.ne_nil
  simp only [List.length_append]
  omega

theorem snzPassOf_finish {s : Bytes} {sc : Script} (h : snzPassOf S clen uclen () s = .finish sc) :
    sc = ⟨[], .status 1⟩ ∨ sc = ⟨[], .status 0⟩ ∧ ∃ e left, s = e ++ left ∧ IsLength e 0#64 := by
  unfold snzPassOf at h
  split at h
  · cases h
    exact Or.inl rfl
  next n idx t ht =>
  split at h
  · cases h
    exact Or.inl rfl
  next hidx =>
  split at h
  · next hn =>
    cases h
    obtain ⟨e, rfl, he⟩ := exists_takeLength ht
    exact Or.inr ⟨rfl, e, t, rfl, idx, hn ▸ he, hidx⟩
  split at h
  · cases h
    exact Or.inl rfl
  split at h
  · cases h
    exact Or.inl rfl
  · cases h

theorem snzPassOf_zero {e : Bytes} (h : IsLength e 0#64) (left : Bytes) :
    snzPassOf S clen uclen () (e ++ left) = .finish ⟨[], .status 0⟩ := by
  obtain ⟨idx, he, hidx⟩ := h
  rw [snzPassOf, takeLength_append left he]
  simp only [hidx, if_false, if_true]

/-! ## The blocks of comment-43 -/

/-- A block between the header and the end of a stream, with its content if it has one. -/
def Comment43Block (S : Snappy) (bs : Bytes) (c : Option Bytes) : Prop :=
  ∃ type data, data.length < 256 ^ 2 ∧ bs = type :: (leBytes 2 data.length ++ data) ∧
    (type = 0x00#8 ∧ 4 < data.length ∧ (∃ u, S.uncompress (data.drop 4) comment43WorkLen = some u ∧
        u ≠ [] ∧ leWord data = maskedCrc32c u ∧ c = some u) ∨
      type = 0x01#8 ∧ 4 < data.length ∧ leWord data = maskedCrc32c (data.drop 4) ∧
        c = some (data.drop 4) ∨
      0x80 ≤ type.toNat ∧ type.toNat ≤ 0xfd ∧ c = none)

theorem Comment43Block.goes {b : Bytes} {c : Option Bytes} (h : Comment43Block S b c) :
    ∀ w ∈ contentWrites c, w.Goes := by
  obtain ⟨type, data, -, -, ⟨-, -, u, -, hu, -, rfl⟩ | ⟨-, h4, -, rfl⟩ | ⟨-, -, rfl⟩⟩ := h
  · simpa [contentWrites, Write.Goes] using hu
  · have hne : data.drop 4 ≠ [] := fun h0 => by
      have := List.drop_eq_nil_iff.mp h0
      omega
    simpa [contentWrites, Write.Goes] using hne
  · simp [contentWrites]

theorem comment43PassOf_again {state state' : StreamState} {s : Bytes} {ws : List Write}
    {rest : Bytes} (h : comment43PassOf S state s = .again ws state' rest) :
    ∃ type data, data.length < 256 ^ 2 ∧ s = type :: (leBytes 2 data.length ++ data) ++ rest ∧
      (blockAction S state type data = .next state' ∧ ws = [] ∨
        ∃ u, blockAction S state type data = .write u ∧ u ≠ [] ∧ state' = .processing ∧
          ws = [.fwriteOk u]) := by
  unfold comment43PassOf at h
  split at h
  · cases h
  split at h
  · cases h
  next type data rest' hs =>
  obtain ⟨hlt, hbytes⟩ := splitChunk_eq_some_iff.mp hs
  split at h
  · cases h
  · next hact =>
    cases h
    exact ⟨type, data, hlt, hbytes, Or.inl ⟨hact, rfl⟩⟩
  · next u hact =>
    split at h
    · cases h
    · next hu =>
      cases h
      exact ⟨type, data, hlt, hbytes, Or.inr ⟨u, hact, hu, rfl, rfl⟩⟩

theorem shrinks_comment43PassOf : Shrinks (comment43PassOf S) := by
  intro r s ws r' rest h
  obtain ⟨type, data, -, rfl, -⟩ := comment43PassOf_again h
  rw [List.length_append, List.length_cons]
  omega

theorem comment43PassOf_finish {state : StreamState} {s : Bytes} {sc : Script}
    (h : comment43PassOf S state s = .finish sc) :
    sc = ⟨[], .status 1⟩ ∨ sc = ⟨[], .status 0⟩ ∧ s = [] ∧ state = .endOfStream := by
  unfold comment43PassOf at h
  split at h
  · next hs =>
    cases h
    by_cases hst : state = .endOfStream
    · exact Or.inr ⟨by rw [if_pos hst], hs, hst⟩
    · exact Or.inl (by rw [if_neg hst])
  split at h
  · cases h
    exact Or.inl rfl
  split at h
  · cases h
    exact Or.inl rfl
  · cases h
  split at h
  · cases h
    exact Or.inl rfl
  · cases h

/-- **In a stream**, a pass that goes round again has read a block or the end. -/
theorem comment43PassOf_processing_iff {state : StreamState} (s : Bytes) (ws : List Write)
    (rest : Bytes) :
    comment43PassOf S .processing s = .again ws state rest ↔
      (state = .processing ∧
          ∃ b c, Comment43Block S b c ∧ s = b ++ rest ∧ ws = contentWrites c) ∨
        state = .endOfStream ∧ s = comment43End ++ rest ∧ ws = [] := by
  constructor
  · intro h
    obtain ⟨type, data, hlt, rfl, ⟨hact, rfl⟩ | ⟨u, hact, hu, rfl, rfl⟩⟩ := comment43PassOf_again h
    · rcases blockAction_next_iff.mp hact with ⟨rfl, rfl, rfl⟩ | ⟨⟨h₁, h₂⟩, rfl⟩
      · exact Or.inr ⟨rfl, rfl, rfl⟩
      · exact Or.inl ⟨rfl, _, none, ⟨type, data, hlt, rfl, Or.inr (Or.inr ⟨h₁, h₂, rfl⟩)⟩, rfl, rfl⟩
    · rcases blockAction_write_iff.mp hact with ⟨h0, h4, hun, hcrc⟩ | ⟨h1, h4, hcrc, rfl⟩
      · exact Or.inl ⟨rfl, _, some u,
          ⟨type, data, hlt, rfl, Or.inl ⟨h0, h4, u, hun, hu, hcrc, rfl⟩⟩, rfl, rfl⟩
      · exact Or.inl ⟨rfl, _, some (data.drop 4),
          ⟨type, data, hlt, rfl, Or.inr (Or.inl ⟨h1, h4, hcrc, rfl⟩)⟩, rfl, rfl⟩
  · rintro (⟨rfl, b, c, ⟨type, data, hlt, rfl, hblock⟩, rfl, rfl⟩ | ⟨rfl, rfl, rfl⟩)
    · have hs : splitChunk 2 (type :: (leBytes 2 data.length ++ data) ++ rest) =
          some (type, data, rest) := splitChunk_append hlt type rest
      rw [comment43PassOf_split hs]
      rcases hblock with ⟨h0, h4, u, hun, hu, hcrc, rfl⟩ | ⟨h1, h4, hcrc, rfl⟩ | ⟨h₁, h₂, rfl⟩
      · rw [blockAction_write_iff.mpr (Or.inl ⟨h0, h4, hun, hcrc⟩)]
        exact if_neg hu
      · have hne : data.drop 4 ≠ [] := fun h0 => by
          have := List.drop_eq_nil_iff.mp h0
          omega
        rw [blockAction_write_iff.mpr (Or.inr ⟨h1, h4, hcrc, rfl⟩)]
        exact if_neg hne
      · rw [blockAction_next_iff.mpr (Or.inr ⟨⟨h₁, h₂⟩, rfl⟩)]
        rfl
    · exact comment43PassOf_end rest

/-- **Outside a stream**, it has read a header. -/
theorem comment43PassOf_outside_iff {state state' : StreamState}
    (hst : state = .initial ∨ state = .endOfStream) (s : Bytes) (ws : List Write) (rest : Bytes) :
    comment43PassOf S state s = .again ws state' rest ↔
      state' = .processing ∧ s = comment43Header ++ rest ∧ ws = [] := by
  constructor
  · intro h
    obtain ⟨type, data, hlt, rfl, hcase⟩ := comment43PassOf_again h
    rw [blockAction_header hst] at hcase
    by_cases hh : type = 0xff#8 ∧ data = comment43Magic
    · rw [if_pos hh] at hcase
      obtain ⟨rfl, rfl⟩ := hh
      rcases hcase with ⟨hact, rfl⟩ | ⟨u, hact, -⟩
      · cases hact
        exact ⟨rfl, rfl, rfl⟩
      · cases hact
    · rw [if_neg hh] at hcase
      rcases hcase with ⟨hact, -⟩ | ⟨u, hact, -⟩ <;> cases hact
  · rintro ⟨rfl, rfl, rfl⟩
    have hs : splitChunk 2 (comment43Header ++ rest) = some (0xff#8, comment43Magic, rest) :=
      splitChunk_append (show comment43Magic.length < 256 ^ 2 by decide) 0xff#8 rest
    rw [comment43PassOf_split hs, blockAction_header hst, if_pos ⟨rfl, rfl⟩]

end Snzip
