import Snzip.ReadError

set_option autoImplicit false

/-!
# Checksums

Four decoders compare each content with a checksum before they write it. Whatever the input is, and
however a run of them ends, what they have written has been compared.

* `VerifiedChunk`: a complete chunk whose content has its checksum, or which is no data chunk;
* `Checksummed`: the formats with checksums;
* **`written_verified`**: what is written are the contents of the first chunks of the input.
-/

namespace Snzip

open CProg

variable {S : Snappy}

/-- A complete chunk, with a length field of `k` bytes: one with compressed or with stored data,
whose content has the checksum in front of the data, or one without data. -/
def VerifiedChunk (k maxLen : ℕ) (S : Snappy) (bs : Bytes) (c : Option Bytes) : Prop :=
  ∃ id data, data.length < 256 ^ k ∧ bs = id :: (leBytes k data.length ++ data) ∧
    (id = 0x00#8 ∧ 4 ≤ data.length ∧ (∃ u, S.uncompress (data.drop 4) maxLen = some u ∧
        maskedCrc32c u = leWord data ∧ c = some u) ∨
      id = 0x01#8 ∧ 4 ≤ data.length ∧ maskedCrc32c (data.drop 4) = leWord data ∧
        c = some (data.drop 4) ∨
      id ≠ 0x00#8 ∧ id ≠ 0x01#8 ∧ c = none)

/-- The formats with checksums. -/
inductive Checksummed where
  | framing2
  | framing
  | comment43
  | snappyInJava
  deriving DecidableEq

namespace Checksummed

/-- The format itself. -/
def format : Checksummed → Format
  | framing2 => .framing2
  | framing => .framing
  | comment43 => .comment43
  | snappyInJava => .snappyInJava

/-- What the decoder wants to see in front of the chunks; the headers of comment-43 are blocks. -/
def magic : Checksummed → Bool → Bytes
  | framing2, false => Snzip.framing2.streamHeader
  | framing, false => Snzip.framing.streamHeader
  | snappyInJava, false => snappyInJavaMagic
  | _, _ => []

/-- A complete chunk or block with its content, which has its checksum. -/
def Block (S : Snappy) : Checksummed → Bytes → Option Bytes → Prop
  | framing2 => VerifiedChunk 3 65536 S
  | framing => VerifiedChunk 2 32768 S
  | comment43 => VerifiedChunk 2 comment43WorkLen S
  | snappyInJava => fun bs c => ∃ u, SnappyInJavaBlock S bs u ∧ c = some u

end Checksummed

/-! ## Chunks that are read -/

theorem Chunk.verified {F : Framing} {bs : Bytes} {c : Option Bytes}
    (h : Chunk F.lengthBytes (framingReading F S) bs c) :
    VerifiedChunk F.lengthBytes F.maxUncompressedDataLen S bs c := by
  obtain ⟨id, data, hlt, rfl, hc⟩ := h
  refine ⟨id, data, hlt, rfl, ?_⟩
  rcases hc with ⟨hr, rfl⟩ | ⟨u, hr, -, rfl⟩
  · have hid := framingReading_skip_iff.mp hr
    exact Or.inr (Or.inr ⟨fun h0 => absurd (h0 ▸ hid) (by decide),
      fun h1 => absurd (h1 ▸ hid) (by decide), rfl⟩)
  · obtain ⟨h4, hcrc, ⟨h0, hu⟩ | ⟨h1, rfl⟩⟩ := framingReading_content_iff.mp hr
    · exact Or.inl ⟨h0, h4, u, hu, hcrc, rfl⟩
    · exact Or.inr (Or.inl ⟨h1, h4, hcrc, rfl⟩)

theorem comment43PassOf_verified (state : StreamState) (s : Bytes) (ws : List Write)
    (state' : StreamState) (rest : Bytes)
    (h : comment43PassOf S state s = .again ws state' rest) :
    ∃ b c, VerifiedChunk 2 comment43WorkLen S b c ∧ s = b ++ rest ∧ ws = contentWrites c := by
  obtain ⟨type, data, hlt, rfl, hcase⟩ := comment43PassOf_again h
  have hnone : type ≠ 0x00#8 → type ≠ 0x01#8 →
      VerifiedChunk 2 comment43WorkLen S (type :: (leBytes 2 data.length ++ data)) none :=
    fun h0 h1 => ⟨type, data, hlt, rfl, Or.inr (Or.inr ⟨h0, h1, rfl⟩)⟩
  by_cases hst : state = .processing
  · subst hst
    rcases hcase with ⟨hact, rfl⟩ | ⟨u, hact, -, -, rfl⟩
    · refine ⟨_, none, ?_, rfl, rfl⟩
      rcases blockAction_next_iff.mp hact with ⟨rfl, -, -⟩ | ⟨⟨h80, -⟩, -⟩
      · exact hnone (by decide) (by decide)
      · refine hnone ?_ ?_ <;> rintro rfl <;> exact absurd h80 (by decide)
    · refine ⟨_, some u, ⟨type, data, hlt, rfl, ?_⟩, rfl, rfl⟩
      rcases blockAction_write_iff.mp hact with ⟨h0, h4, hu, hcrc⟩ | ⟨h1, h4, hcrc, rfl⟩
      · exact Or.inl ⟨h0, Nat.le_of_lt h4, u, hu, hcrc.symm, rfl⟩
      · exact Or.inr (Or.inl ⟨h1, Nat.le_of_lt h4, hcrc.symm, rfl⟩)
  · -- outside a stream, a header block
    have hheader : type = 0xff#8 ∧ ws = [] := by
      have hout : state = .error ∨ state = .initial ∨ state = .endOfStream := by
        cases state <;> simp_all
      rcases hout with rfl | hout
      · rcases hcase with ⟨hact, -⟩ | ⟨u, hact, -⟩ <;> cases hact
      rw [blockAction_header hout] at hcase
      by_cases hh : type = 0xff#8 ∧ data = comment43Magic
      · rw [if_pos hh] at hcase
        rcases hcase with ⟨-, rfl⟩ | ⟨u, hact, -⟩
        · exact ⟨hh.1, rfl⟩
        · cases hact
      · rw [if_neg hh] at hcase
        rcases hcase with ⟨hact, -⟩ | ⟨u, hact, -⟩ <;> cases hact
    obtain ⟨rfl, rfl⟩ := hheader
    exact ⟨_, none, hnone (by decide) (by decide), rfl, rfl⟩

/-! ## What is written -/

theorem bytesOf_contentWrites (cs : List (Option Bytes)) :
    bytesOf (cs.flatMap contentWrites) = cs.reduceOption.flatten := by
  rw [flatMap_contentWrites]
  exact bytesOf_map (fun _ => rfl) _

theorem writes_chunks (F : Framing) (fault : Bool) (s : Bytes) :
    ∃ b cs rest, Records (VerifiedChunk F.lengthBytes F.maxUncompressedDataLen S) b cs ∧
      s = b ++ rest ∧
      (unroll (chunkPass F.lengthBytes (framingReading F S) fault) () s).writes =
        cs.flatMap contentWrites := by
  refine writes_unroll (shrinks_chunkPass _ _) ?_ ?_ () s
  · intro r s ws r' rest h
    obtain ⟨b, c, hb, hs, hws⟩ := (chunkPass_again_iff s ws rest).mp h
    exact ⟨b, c, hb.verified, hs, hws⟩
  · intro r s sc h
    rcases chunkPass_finish h with rfl | ⟨rfl, -⟩ <;> rfl

theorem writes_framing (F : Framing) (skipMagic fault : Bool) (s : Bytes) :
    (¬ (if skipMagic then [] else F.streamHeader) <+: s ∧
        (framingUnscript F S skipMagic fault s).writes = []) ∨
      ∃ b cs rest, s = (if skipMagic then [] else F.streamHeader) ++ (b ++ rest) ∧
        Records (VerifiedChunk F.lengthBytes F.maxUncompressedDataLen S) b cs ∧
        (framingUnscript F S skipMagic fault s).writes = cs.flatMap contentWrites := by
  cases skipMagic with
  | true =>
    obtain ⟨b, cs, rest, hb, rfl, hws⟩ := writes_chunks (S := S) F fault s
    exact Or.inr ⟨b, cs, rest, rfl, hb, hws⟩
  | false =>
    simp only [framingUnscript, Bool.false_eq_true, if_false]
    split
    · next hpre =>
      obtain ⟨b, cs, rest, hb, hs, hws⟩ :=
        writes_chunks (S := S) F fault (s.drop F.streamHeader.length)
      have htake := List.take_append_drop F.streamHeader.length s
      rw [hpre, hs] at htake
      exact Or.inr ⟨b, cs, rest, htake.symm, hb, hws⟩
    · next hpre => exact Or.inl ⟨fun h => hpre (List.prefix_iff_eq_take.mp h).symm, rfl⟩

theorem writes_comment43 (skipMagic fault : Bool) (s : Bytes) :
    ∃ b cs rest, Records (VerifiedChunk 2 comment43WorkLen S) b cs ∧ s = b ++ rest ∧
      (comment43Unscript S skipMagic fault s).writes = cs.flatMap contentWrites := by
  refine writes_unroll shrinks_comment43PassOf comment43PassOf_verified ?_ _ s
  intro r s sc h
  rcases comment43PassOf_finish h with rfl | ⟨rfl, -⟩ <;> rfl

theorem writes_snappyInJava (skipMagic fault : Bool) (s : Bytes) :
    (¬ (if skipMagic then [] else snappyInJavaMagic) <+: s ∧
        (snappyInJavaUnscript S skipMagic fault s).writes = []) ∨
      ∃ b us rest, s = (if skipMagic then [] else snappyInJavaMagic) ++ (b ++ rest) ∧
        Records (SnappyInJavaBlock S) b us ∧
        (snappyInJavaUnscript S skipMagic fault s).writes = .fflush :: us.map .writeFull := by
  have hloop : ∀ t, ∃ b us rest, Records (SnappyInJavaBlock S) b us ∧ t = b ++ rest ∧
      (unroll (snappyInJavaPassOf S snappyInJavaMaxBlockSize.toNat) () t).writes =
        us.flatMap fun u => [.writeFull u] := by
    intro t
    refine writes_unroll shrinks_snappyInJavaPassOf ?_ ?_ () t
    · exact fun _ s ws _ rest => (snappyInJavaPassOf_again_iff s ws rest).mp
    · intro r s sc h
      rcases snappyInJavaPassOf_finish h with rfl | ⟨rfl, -⟩ <;> rfl
  have hafter : ∀ {us : List Bytes} {t : Bytes},
      (unroll (snappyInJavaPassOf S snappyInJavaMaxBlockSize.toNat) () t).writes =
        (us.flatMap fun u => [.writeFull u]) →
      ((unroll (snappyInJavaPassOf S snappyInJavaMaxBlockSize.toNat) () t).after
        [.fflush]).writes = .fflush :: us.map .writeFull := by
    intro us t h
    rw [Script.after, h, List.map_eq_flatMap]
    rfl
  rw [snappyInJavaUnscript]
  cases skipMagic with
  | true =>
    obtain ⟨b, us, rest, hb, rfl, hws⟩ := hloop s
    exact Or.inr ⟨b, us, rest, rfl, hb, hafter hws⟩
  | false =>
    by_cases hpre : snappyInJavaMagic <+: s
    · obtain ⟨t, rfl⟩ := hpre
      obtain ⟨b, us, rest, hb, rfl, hws⟩ := hloop t
      rw [takeSnappyInJavaHeader_header]
      exact Or.inr ⟨b, us, rest, rfl, hb, hafter hws⟩
    · refine Or.inl ⟨hpre, ?_⟩
      have hnone : takeSnappyInJavaHeader false s = none := by
        simp only [takeSnappyInJavaHeader, takeHeader, Bool.false_eq_true, if_false]
        split
        · rfl
        · have hne : s.take 7 ≠ snappyInJavaMagic := fun h => hpre (h ▸ List.take_prefix 7 s)
          rw [checkSnappyInJavaHeader, if_pos hne]
          rfl
      rw [hnone]

theorem uniform_checksummed (f : Checksummed) (L : Library) (g : Globals) (skipMagic fault : Bool)
    (s : Bytes) : (f.format.uncompressScript L g skipMagic fault s).Uniform := by
  have hframing : ∀ F : Framing, (framingUnscript F L.snappy skipMagic fault s).Uniform := by
    intro F
    refine Or.inl ?_
    unfold framingUnscript
    split
    · exact uniform_unroll fault s
    split
    · exact uniform_unroll fault _
    · simp
  cases f with
  | framing2 => exact hframing Snzip.framing2
  | framing => exact hframing Snzip.framing
  | comment43 => exact Or.inl (buffered_comment43 _ _)
  | snappyInJava =>
    refine Or.inr ?_
    change ∀ w ∈ (snappyInJavaUnscript L.snappy skipMagic fault s).writes, w.Direct
    rcases writes_snappyInJava (S := L.snappy) skipMagic fault s with
      ⟨-, hws⟩ | ⟨b, us, rest, -, hb, hws⟩
    · simp [hws]
    · rw [hws]
      simp only [List.mem_cons, List.mem_map]
      rintro w (rfl | ⟨u, hu, rfl⟩)
      · trivial
      · exact hb.forall_mem (P := fun u => u.length < 2 ^ 31)
          (fun _ _ h => Nat.lt_trans h.length_lt (by decide)) u hu

theorem written_run {L : Library} {f : Format} (hf : f ≠ .raw) (g : Globals) (skipMagic : Bool)
    {i : InFile} (hi : i.Ok) (h : (f.uncompressScript L g skipMagic i.fault i.rest).Uniform)
    (B : Buffering) :
    (Codec.run B (f.uncompress L g skipMagic) i).written =
      bytesOf (f.uncompressScript L g skipMagic i.fault i.rest).writes := by
  have hv := verdict_uncompress (L := L) hf g skipMagic i.fault i.rest
  rw [run_of_refines (refines_uncompress L g skipMagic f) hi h, Script.result]
  cases hw : (f.uncompressScript L g skipMagic i.fault i.rest).verdict <;> simp_all

/-- **No unverified byte is written.** The bytes are the contents of the first chunks of the input,
each of them complete and with its checksum. -/
theorem written_verified (f : Checksummed) (L : Library) (g : Globals) (skipMagic fault : Bool)
    (B : Buffering) (s : Bytes) :
    let r := Codec.run B (f.format.uncompress L g skipMagic) ⟨s, fault, false, false⟩
    (¬ f.magic skipMagic <+: s ∧ r.written = []) ∨
      ∃ b cs rest, s = f.magic skipMagic ++ (b ++ rest) ∧ Records (f.Block L.snappy) b cs ∧
        r.written = cs.reduceOption.flatten := by
  intro r
  have hi : (InFile.mk s fault false false).Ok :=
    ⟨fun h => Bool.noConfusion h, fun h => Bool.noConfusion h⟩
  have hr : r.written = bytesOf (f.format.uncompressScript L g skipMagic fault s).writes :=
    written_run (by cases f <;> decide) g skipMagic hi (uniform_checksummed f L g skipMagic fault s)
      B
  cases f with
  | framing2 =>
    have hmagic : Checksummed.framing2.magic skipMagic =
        if skipMagic then [] else Snzip.framing2.streamHeader := by cases skipMagic <;> rfl
    rw [hmagic]
    rcases writes_framing (S := L.snappy) Snzip.framing2 skipMagic fault s with
      ⟨hpre, hws⟩ | ⟨b, cs, rest, hs, hb, hws⟩
    · exact Or.inl ⟨hpre, hr.trans (congrArg bytesOf hws)⟩
    · exact Or.inr ⟨b, cs, rest, hs, hb,
        hr.trans ((congrArg bytesOf hws).trans (bytesOf_contentWrites cs))⟩
  | framing =>
    have hmagic : Checksummed.framing.magic skipMagic =
        if skipMagic then [] else Snzip.framing.streamHeader := by cases skipMagic <;> rfl
    rw [hmagic]
    rcases writes_framing (S := L.snappy) Snzip.framing skipMagic fault s with
      ⟨hpre, hws⟩ | ⟨b, cs, rest, hs, hb, hws⟩
    · exact Or.inl ⟨hpre, hr.trans (congrArg bytesOf hws)⟩
    · exact Or.inr ⟨b, cs, rest, hs, hb,
        hr.trans ((congrArg bytesOf hws).trans (bytesOf_contentWrites cs))⟩
  | comment43 =>
    obtain ⟨b, cs, rest, hb, rfl, hws⟩ := writes_comment43 (S := L.snappy) skipMagic fault s
    exact Or.inr ⟨b, cs, rest, rfl, hb,
      hr.trans ((congrArg bytesOf hws).trans (bytesOf_contentWrites cs))⟩
  | snappyInJava =>
    have hmagic : Checksummed.snappyInJava.magic skipMagic =
        if skipMagic then [] else snappyInJavaMagic := by cases skipMagic <;> rfl
    rw [hmagic]
    rcases writes_snappyInJava (S := L.snappy) skipMagic fault s with
      ⟨hpre, hws⟩ | ⟨b, us, rest, hs, hb, hws⟩
    · exact Or.inl ⟨hpre, hr.trans (congrArg bytesOf hws)⟩
    · refine Or.inr ⟨b, us.map some, rest, hs, ?_, ?_⟩
      · exact hb.map some fun _ u h => ⟨u, h, rfl⟩
      · have hcontents : (us.map some).reduceOption = us := by
          rw [List.reduceOption, List.filterMap_map]
          exact List.filterMap_some
        refine hr.trans ((congrArg bytesOf hws).trans ?_)
        rw [bytesOf_cons, bytesOf_map fun _ => rfl, hcontents]
        rfl

end Snzip
