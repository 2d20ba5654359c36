import Snzip.Skippable

set_option autoImplicit false

/-!
# The two forms of a data chunk

The content of a data chunk is stored as it is, or compressed. The decoders give snappy a buffer of
`MAX_UNCOMPRESSED_DATA_LEN` bytes for the content of a compressed chunk; that of a stored chunk may
be as long as the length field allows.

* `Encodes`, `TwoForms`: a content with an encoding of it, and the chunks of both;
* `reading_stored`, `reading_compressed`: what the decoder makes of the two;
* **`interchange_iff`**: one may stand for the other, except where the limit is met.
-/

namespace Snzip

open CProg

/-- `e` is a snappy encoding of `c`: it is decoded to `c` in every buffer that has room for `c`, and
refused in any other. -/
def Encodes (S : Snappy) (e c : Bytes) : Prop :=
  ∀ n, S.uncompress e n = if c.length ≤ n then some c else none

/-- A content with four bytes for its checksum, right or wrong, and an encoding of it, such that
both forms of the chunk fit the length field. -/
structure TwoForms (F : Framing) (S : Snappy) where
  checksum : Bytes
  content : Bytes
  encoded : Bytes
  length_checksum : checksum.length = 4
  content_ne : content ≠ []
  encodes : Encodes S encoded content
  stored_fits : (checksum ++ content).length < 256 ^ F.lengthBytes
  compressed_fits : (checksum ++ encoded).length < 256 ^ F.lengthBytes

namespace TwoForms

variable {F : Framing} {S : Snappy} (d : TwoForms F S)

/-- The chunk with the content as it is. -/
def stored : WholeChunk F.lengthBytes := ⟨0x01#8, d.checksum ++ d.content, d.stored_fits⟩

/-- The chunk with the content compressed. -/
def compressed : WholeChunk F.lengthBytes := ⟨0x00#8, d.checksum ++ d.encoded, d.compressed_fits⟩

/-- The content, if the checksum is that of the content. -/
def checked : Reading :=
  if maskedCrc32c d.content = leWord d.checksum then .content d.content else .bad

theorem checkedReading_checksum (payload : Bytes) :
    checkedReading d.content (d.checksum ++ payload) = d.checked := by
  have hword : leWord (d.checksum ++ payload) = leWord d.checksum := by
    rw [leWord, leWord, List.take_left' d.length_checksum,
      List.take_of_length_le (Nat.le_of_eq d.length_checksum)]
  simp only [checkedReading, checkCrc32c, hword, checked, decide_eq_true_eq]

theorem four_le_length (payload : Bytes) : ¬ (d.checksum ++ payload).length < 4 := by
  rw [List.length_append, d.length_checksum]
  omega

theorem reading_stored : framingReading F S d.stored.id d.stored.data = d.checked := by
  have h01 : (0x01#8 : Byte) ≠ 0x00#8 := by decide
  rw [stored, framingReading, if_neg h01, if_pos rfl, if_neg (d.four_le_length _),
    List.drop_left' d.length_checksum, d.checkedReading_checksum]

/-- A compressed content is checked as well, if the buffer has room for it. -/
theorem reading_compressed : framingReading F S d.compressed.id d.compressed.data =
    if d.content.length ≤ F.maxUncompressedDataLen then d.checked else .bad := by
  rw [compressed, framingReading, if_pos rfl, if_neg (d.four_le_length _),
    List.drop_left' d.length_checksum, d.encodes]
  by_cases hle : d.content.length ≤ F.maxUncompressedDataLen
  · rw [if_pos hle, if_pos hle]
    exact d.checkedReading_checksum _
  · rw [if_neg hle, if_neg hle]

end TwoForms

section Loop

variable {k : ℕ} {reading : Byte → Bytes → Reading} {fault : Bool}

theorem unroll_congr {a b : WholeChunk k} (h : reading a.id a.data = reading b.id b.data)
    (q : Bytes) : unroll (chunkPass k reading fault) () (a.bytes ++ q) =
      unroll (chunkPass k reading fault) () (b.bytes ++ q) := by
  have hhalts : a.Halts reading ↔ b.Halts reading := by
    rw [WholeChunk.Halts, WholeChunk.Halts, h]
  by_cases ha : a.Halts reading
  · rw [unroll_halts ha, unroll_halts (hhalts.mp ha), h]
  · rw [unroll_wholeChunk ha, unroll_wholeChunk fun hb => ha (hhalts.mpr hb), WholeChunk.writes,
      WholeChunk.writes, h]

theorem written_chunks (s : Bytes) : (unroll (chunkPass k reading fault) () s).result.written =
    bytesOf (unroll (chunkPass k reading fault) () s).writes := by
  have hret := returns_chunks k reading fault s
  rw [Script.result]
  cases hv : (unroll (chunkPass k reading fault) () s).verdict with
  | status n | checked n => rfl
  | exit n => exact (hv ▸ hret : (Verdict.exit n).Returns).elim
  | diverge => exact (hv ▸ hret : Verdict.diverge.Returns).elim

/-- **A chunk that is written and one that is refused**, after chunks at which the loop goes on. -/
theorem result_ne {p : List (WholeChunk k)} (hp : ∀ d ∈ p, ¬ d.Halts reading)
    {a b : WholeChunk k} {c : Bytes} (ha : reading a.id a.data = .content c) (hc : c ≠ [])
    (hb : reading b.id b.data = .bad) (q : Bytes) :
    (unroll (chunkPass k reading fault) () (p.flatMap WholeChunk.bytes ++ (a.bytes ++ q))).result ≠
      (unroll (chunkPass k reading fault) ()
        (p.flatMap WholeChunk.bytes ++ (b.bytes ++ q))).result := by
  intro h
  have hwritten := congrArg (fun r => r.written.length) h
  have hgoes : ¬ a.Halts reading := by
    rintro (h0 | h0)
    · cases ha.symm.trans h0
    · exact hc (Reading.content.inj (ha.symm.trans h0))
  simp only [written_chunks] at hwritten
  rw [unroll_passed hp, unroll_passed hp, unroll_wholeChunk hgoes, unroll_halts (Or.inl hb),
    WholeChunk.writes, ha] at hwritten
  simp only [Script.after, List.append_nil, bytesOf_append, bytesOf_cons, bytesOf_nil,
    List.length_append, Write.bytes] at hwritten
  have hpos := List.length_pos_iff.mpr hc
  omega

end Loop

/-- The two forms of the chunk give the same output and the same status. -/
def Interchangeable (F : Framing) (S : Snappy) (skipMagic : Bool) (B : Buffering)
    (p : List (WholeChunk F.lengthBytes)) (d : TwoForms F S) (q : Bytes) : Prop :=
  Codec.run B (framingFormatUncompress F S skipMagic)
      (.opened (F.magic skipMagic ++ (p.flatMap WholeChunk.bytes ++ (d.stored.bytes ++ q)))) =
    Codec.run B (framingFormatUncompress F S skipMagic)
      (.opened (F.magic skipMagic ++ (p.flatMap WholeChunk.bytes ++ (d.compressed.bytes ++ q))))

/-- A content beyond the limit, with its checksum, in a chunk that the decoder comes to. -/
theorem not_interchangeable {F : Framing} {S : Snappy} {p : List (WholeChunk F.lengthBytes)}
    {d : TwoForms F S} (hlen : ¬ d.content.length ≤ F.maxUncompressedDataLen)
    (hcrc : maskedCrc32c d.content = leWord d.checksum)
    (hp : ∀ c ∈ p, ¬ c.Halts (framingReading F S)) (skipMagic : Bool) (B : Buffering) (q : Bytes) :
    ¬ Interchangeable F S skipMagic B p d q := by
  intro h
  rw [Interchangeable, run_magic, run_magic] at h
  refine result_ne hp ?_ d.content_ne ?_ q h
  · rw [d.reading_stored, TwoForms.checked, if_pos hcrc]
  · rw [d.reading_compressed, if_neg hlen]

/-- **Stored and compressed chunks are interchangeable**, except for contents beyond the limit that
have their checksum and that the decoder comes to. -/
theorem interchange_iff (F : Framing) (S : Snappy) (skipMagic : Bool) (B : Buffering)
    (p : List (WholeChunk F.lengthBytes)) (d : TwoForms F S) (q : Bytes) :
    Interchangeable F S skipMagic B p d q ↔
      d.content.length ≤ F.maxUncompressedDataLen ∨ maskedCrc32c d.content ≠ leWord d.checksum ∨
        ∃ c ∈ p, c.Halts (framingReading F S) := by
  constructor
  · intro h
    by_contra hno
    simp only [not_or, not_exists, not_and, ne_eq, not_not] at hno
    exact not_interchangeable hno.1 hno.2.1 hno.2.2 skipMagic B q h
  · intro h
    have hsame : unroll (chunkPass F.lengthBytes (framingReading F S) false) ()
          (p.flatMap WholeChunk.bytes ++ (d.stored.bytes ++ q)) =
        unroll (chunkPass F.lengthBytes (framingReading F S) false) ()
          (p.flatMap WholeChunk.bytes ++ (d.compressed.bytes ++ q)) := by
      rcases h with hlen | hcrc | hhalts
      · refine unroll_wholeChunks_congr p (unroll_congr ?_ q)
        rw [d.reading_stored, d.reading_compressed, if_pos hlen]
      · refine unroll_wholeChunks_congr p (unroll_congr ?_ q)
        rw [d.reading_stored, d.reading_compressed, TwoForms.checked, if_neg hcrc, ite_self]
      · obtain ⟨sc, hsc⟩ := unroll_halted false hhalts
        rw [hsc, hsc]
    rw [Interchangeable, run_magic, run_magic, framingChunks, framingChunks, hsame]

/-! ## A content beyond the limit -/

theorem encodes_literalSnappy {c : Bytes} (h : c.length < 2 ^ 32) :
    Encodes literalSnappy (literalSnappy.compress c) c := by
  intro n
  have hr := readVarint_varint (k := 4) (show c.length < 128 ^ 5 by omega) (literal c)
  simp only [literalSnappy, hr, readLiteral_literal h]
  by_cases hn : c.length ≤ n <;> simp [Option.filter, hn]

/-- One byte more than the old framing format allows. -/
def longContent : TwoForms framing literalSnappy where
  checksum := leBytes 4 (maskedCrc32c (List.replicate 32769 0x61#8)).toNat
  content := List.replicate 32769 0x61#8
  encoded := literalSnappy.compress (List.replicate 32769 0x61#8)
  length_checksum := length_leBytes _ _
  content_ne := by
    rw [ne_eq, List.replicate_eq_nil_iff]
    omega
  encodes := encodes_literalSnappy (by rw [List.length_replicate]; omega)
  stored_fits := by
    rw [List.length_append, length_leBytes, List.length_replicate]
    decide
  compressed_fits := by
    have hle := contract_literalSnappy.compress_le (List.replicate 32769 0x61#8)
      (by rw [List.length_replicate]; omega)
    rw [List.length_replicate] at hle
    have h16 : 256 ^ framing.lengthBytes = 65536 := by decide
    rw [List.length_append, length_leBytes, h16]
    omega

theorem not_interchangeable_long :
    ¬ Interchangeable framing literalSnappy false (.stdio 4096) [] longContent [] := by
  apply not_interchangeable
  · rw [longContent, List.length_replicate]
    decide
  · have hword := leWord_leBytes (maskedCrc32c longContent.content) []
    rw [List.append_nil] at hword
    exact hword.symm
  · simp

end Snzip
