import Snzip.RoundTrip.Comment43
import Snzip.RoundTrip.Framing
import Snzip.Verified

set_option autoImplicit false

/-!
# How much a file can grow

The compressors with checksums store a block as it is unless snappy saves an eighth of it. So no
chunk has more payload than its block, whatever snappy makes of it, and every length fits its field.

* `WritesChunks`, **`playAll_blocks`**: what is written for blocks, up to one with an empty payload;
* `Checksummed.Carries`, **`carries_chunk`**: the chunk of a block;
* **`expansion`**: the chunks of a compressed file, and its length.
-/

namespace Snzip

open CProg

/-! ## Blocks that are written -/

section Blocks

/-- **What is written for blocks**: whole chunks, for the blocks up to one with an empty payload. -/
theorem playAll_blocks (head payload : Bytes → Bytes) (bs : List Bytes) {o : OutFile}
    (ho : o.room = none) :
    ∃ ds, ds <+: bs ∧
      (playAll (bs.flatMap fun d => [.putc (head d), .fwriteOk (payload d)]) o).2.room = none ∧
      (playAll (bs.flatMap fun d => [.putc (head d), .fwriteOk (payload d)]) o).2.written =
        o.written ++ ds.flatMap fun d => head d ++ payload d := by
  induction bs generalizing o with
  | nil => exact ⟨[], List.nil_prefix, by simpa [playAll] using ho, by simp [playAll]⟩
  | cons d bs ih =>
    obtain ⟨h₁, -, h₂⟩ := OutFile.putcs_of_room (head d) ho
    obtain ⟨hok, h₃, -, h₄⟩ := OutFile.fwrite_of_room (payload d) h₁
    have hwritten : ((o.putcs (head d)).fwrite (payload d)).2.written =
        o.written ++ (head d ++ payload d) := by
      rw [h₄, h₂, List.append_assoc]
    have hplay : ∀ ws, playAll (.putc (head d) :: .fwriteOk (payload d) :: ws) o =
        if payload d ≠ [] then playAll ws ((o.putcs (head d)).fwrite (payload d)).2
        else (false, ((o.putcs (head d)).fwrite (payload d)).2) := by
      intro ws
      simp only [playAll, Write.play, if_true, hok, decide_eq_true_eq]
    rw [List.flatMap_cons, List.cons_append, List.cons_append, List.nil_append, hplay]
    by_cases hne : payload d ≠ []
    · obtain ⟨ds, hds, hroom, hw⟩ := ih h₃
      refine ⟨d :: ds, List.cons_prefix_cons.mpr ⟨rfl, hds⟩, ?_⟩
      rw [if_pos hne, List.flatMap_cons, hw, hwritten]
      exact ⟨hroom, by simp⟩
    · refine ⟨[d], List.cons_prefix_cons.mpr ⟨rfl, List.nil_prefix⟩, ?_⟩
      rw [if_neg hne]
      exact ⟨h₃, by simpa using hwritten⟩

/-- The script writes a header, a chunk for each of the blocks, and a trailer. -/
def WritesChunks (sc : Script) (bs : List Bytes) (header trailer : Bytes)
    (chunk : Bytes → Bytes) : Prop :=
  ∃ (pre post : List Write) (v : Verdict) (head payload : Bytes → Bytes),
    sc = ⟨pre ++ ((bs.flatMap fun d => [.putc (head d), .fwriteOk (payload d)]) ++ post), v⟩ ∧
      (∀ w ∈ pre, w.Buffered) ∧ (∀ w ∈ post, w.Buffered) ∧ v.Returns ∧
      bytesOf pre = header ∧ bytesOf post = trailer ∧ ∀ d, head d ++ payload d = chunk d

theorem WritesChunks.written {sc : Script} {bs : List Bytes} {header trailer : Bytes}
    {chunk : Bytes → Bytes} (h : WritesChunks sc bs header trailer chunk) (B : Buffering) :
    ∃ ds tail, ds <+: bs ∧ (tail = [] ∨ tail = trailer) ∧
      (Result.of (sc.playback (OutFile.opened B none))).written =
        header ++ (ds.flatMap chunk ++ tail) := by
  obtain ⟨pre, post, v, head, payload, rfl, hpre, hpost, hv, rfl, rfl, hchunk⟩ := h
  have hclose : ∀ o, (Result.of (v.close o)).written = o.written := by
    intro o
    cases v with
    | status n | checked n => rfl
    | exit n | diverge => exact hv.elim
  obtain ⟨h₁, h₂, -, h₃⟩ := playAll_of_room hpre (o := OutFile.opened B none) rfl
  obtain ⟨ds, hds, h₄, h₅⟩ := playAll_blocks head payload bs h₂
  obtain ⟨h₆, -, -, h₇⟩ := playAll_of_room hpost h₄
  rw [h₃, OutFile.written_opened, List.nil_append] at h₅
  rw [h₅] at h₇
  simp only [hchunk] at h₅ h₇
  simp only [Script.playback, playAll_append, if_pos h₁]
  split
  · refine ⟨ds, bytesOf post, hds, Or.inr rfl, ?_⟩
    rw [hclose, h₇, List.append_assoc]
  · refine ⟨ds, [], hds, Or.inl rfl, ?_⟩
    rw [List.append_nil]
    exact h₅

end Blocks

/-! ## Chunks -/

namespace Checksummed

/-- What is written before the chunks. -/
def header : Checksummed → Bytes
  | framing2 => Snzip.framing2.streamHeader
  | framing => Snzip.framing.streamHeader
  | comment43 => comment43Header
  | snappyInJava => snappyInJavaMagic

/-- What the compressor writes at the end of the input. -/
def trailer : Checksummed → Bytes
  | comment43 => comment43End
  | _ => []

/-- The size of the blocks; only that of snappy-in-java can be chosen. -/
def blockLen (blockSize : BitVec 64) : Checksummed → ℕ
  | framing2 => Snzip.framing2.maxUncompressedDataLen
  | framing => Snzip.framing.maxUncompressedDataLen
  | comment43 => comment43MaxRawDataLen
  | snappyInJava => snappyInJavaBlockSize blockSize

/-- The chunk for some data. -/
def chunk (S : Snappy) : Checksummed → Bytes → Bytes
  | framing2 => chunkBytes Snzip.framing2 S
  | framing => chunkBytes Snzip.framing S
  | comment43 => comment43BlockBytes S
  | snappyInJava => snappyInJavaBlockBytes S

/-- The width of the length field. -/
def lengthBytes : Checksummed → ℕ
  | framing2 => 3
  | _ => 2

/-- The value of a length field. -/
def lengthVal : Checksummed → Bytes → ℕ
  | snappyInJava => beVal
  | _ => leVal

/-- The length field counts the checksum too, except in snappy-in-java. -/
def counted : Checksummed → ℕ
  | snappyInJava => 0
  | _ => 4

/-- The bytes that a chunk has besides its payload. -/
def perChunk : Checksummed → ℕ
  | framing2 => 8
  | _ => 7

/-- The bytes that a file has besides its chunks. -/
def perFile : Checksummed → ℕ
  | framing2 => 10
  | framing => 9
  | comment43 => 12
  | snappyInJava => 7

/-- `bs` is a chunk with the block `d`: its payload is the block, or what snappy makes of it, it is
no longer than the block, and the length field holds its length. -/
def Carries (S : Snappy) (f : Checksummed) (d bs : Bytes) : Prop :=
  ∃ type field checksum payload, bs = type :: (field ++ (checksum ++ payload)) ∧
    field.length = f.lengthBytes ∧ checksum.length = 4 ∧ (payload = d ∨ payload = S.compress d) ∧
    payload.length ≤ d.length ∧ f.lengthVal field = payload.length + f.counted

end Checksummed

section Chunks

variable {S : Snappy} {f : Checksummed} {d : Bytes}

theorem chooseData_eq (S : Snappy) (d : Bytes) :
    (chooseData S d).2 = d ∨ (chooseData S d).2 = S.compress d := by
  unfold chooseData
  split
  · exact Or.inl rfl
  · exact Or.inr rfl

theorem chooseFlagged_eq (S : Snappy) (d : Bytes) :
    (chooseFlagged S d).2 = d ∨ (chooseFlagged S d).2 = S.compress d := by
  unfold chooseFlagged
  split
  · exact Or.inl rfl
  · exact Or.inr rfl

theorem exists_chunkHead {k : ℕ} (hd : d.length + 4 < 256 ^ k) :
    ∃ type field checksum payload,
      chunkHead S k d ++ (chooseData S d).2 = type :: (field ++ (checksum ++ payload)) ∧
      field.length = k ∧ checksum.length = 4 ∧ (payload = d ∨ payload = S.compress d) ∧
      payload.length ≤ d.length ∧ leVal field = payload.length + 4 := by
  have hle := length_chooseData_le S d
  refine ⟨(chooseData S d).1, leBytes k ((chooseData S d).2.length + 4),
    leBytes 4 (maskedCrc32c d).toNat, (chooseData S d).2, ?_, length_leBytes _ _,
    length_leBytes _ _, chooseData_eq S d, hle, ?_⟩
  · rw [chunkHead, List.cons_append, List.append_assoc]
  · exact leVal_leBytes (by omega)

/-- **The chunk of a block.** -/
theorem carries_chunk {b : BitVec 64} (hb : f = .snappyInJava → b.toNat ≤ 65535)
    (hd : d.length ≤ f.blockLen b) : f.Carries S d (f.chunk S d) := by
  cases f with
  | framing2 =>
    exact exists_chunkHead (Nat.lt_of_le_of_lt (Nat.add_le_add_right hd 4) Snzip.framing2.max_lt)
  | framing =>
    exact exists_chunkHead (Nat.lt_of_le_of_lt (Nat.add_le_add_right hd 4) Snzip.framing.max_lt)
  | comment43 =>
    have hmax : comment43MaxRawDataLen + 4 < 256 ^ 2 := by decide
    exact exists_chunkHead (Nat.lt_of_le_of_lt (Nat.add_le_add_right hd 4) hmax)
  | snappyInJava =>
    have hle := length_chooseFlagged_le S d
    have h16 : d.length < 256 ^ 2 :=
      Nat.lt_of_le_of_lt (Nat.le_trans hd (snappyInJavaBlockSize_le (hb rfl))) (by decide)
    exact ⟨_, beBytes 2 (chooseFlagged S d).2.length, beBytes 4 (maskedCrc32c d).toNat,
      (chooseFlagged S d).2, rfl, length_beBytes _ _, length_beBytes _ _, chooseFlagged_eq S d,
      hle, beVal_beBytes (by omega)⟩

theorem Checksummed.Carries.length_le {bs : Bytes} (h : f.Carries S d bs) :
    bs.length ≤ d.length + f.perChunk := by
  obtain ⟨type, field, checksum, payload, rfl, hf, hc, -, hle, -⟩ := h
  simp only [List.length_cons, List.length_append, hf, hc]
  cases f <;> simp only [lengthBytes, perChunk] <;> omega

end Chunks

theorem length_chunks_le {f : Bytes → Bytes} {c : ℕ} {ds bs : List Bytes} (hds : ds <+: bs)
    (h : ∀ d ∈ ds, (f d).length ≤ d.length + c) :
    (ds.flatMap f).length ≤ bs.flatten.length + c * bs.length := by
  obtain ⟨es, rfl⟩ := hds
  rw [List.flatten_append, List.length_append, List.length_append, Nat.mul_add]
  have hsum : (ds.flatMap f).length ≤ ds.flatten.length + c * ds.length := by
    induction ds with
    | nil => simp
    | cons d ds ih =>
      have hd := h d List.mem_cons_self
      have hrest := ih fun e he => h e (List.mem_cons_of_mem _ he)
      rw [List.flatMap_cons, List.flatten_cons, List.length_append, List.length_append,
        List.length_cons, Nat.mul_succ]
      omega
  omega

/-! ## Compressed files -/

theorem writesChunks_framing (F : Framing) (S : Snappy) (x : Bytes) :
    WritesChunks (framingScript F S false x) (blocks F.maxUncompressedDataLen x) F.streamHeader []
      (chunkBytes F S) := by
  refine ⟨[.fwrite F.streamHeader], [], .checked 0, chunkHead S F.lengthBytes,
    fun d => (chooseData S d).2, rfl, by simp [Write.Buffered], by simp, trivial, ?_, rfl,
    fun _ => rfl⟩
  simp [Write.bytes]

theorem writesChunks_comment43 (S : Snappy) (x : Bytes) :
    WritesChunks (comment43Script S false x) (blocks comment43MaxRawDataLen x) comment43Header
      comment43End (comment43BlockBytes S) := by
  refine ⟨[.putc (0xff#8 :: leBytes 2 6), .fwrite comment43Magic], [.putc comment43End],
    .checked 0, chunkHead S 2, fun d => (chooseData S d).2, ?_, by simp [Write.Buffered],
    by simp [Write.Buffered], trivial, rfl, rfl, fun _ => rfl⟩
  rw [comment43Script, comment43Tail, if_neg Bool.false_ne_true]
  rfl

theorem writesChunks_snappyInJava (S : Snappy) {b : BitVec 64}
    (hb : snappyInJavaBlockSize b ≤ 65535) (x : Bytes) :
    WritesChunks (snappyInJavaScript S b false x) (blocks (snappyInJavaBlockSize b) x)
      snappyInJavaMagic [] (snappyInJavaBlockBytes S) := by
  refine ⟨[.fwriteOk snappyInJavaMagic], [], .status 0,
    fun d => (chooseFlagged S d).1 :: (beBytes 2 (chooseFlagged S d).2.length ++
      beBytes 4 (maskedCrc32c d).toNat), fun d => (chooseFlagged S d).2, ?_, ?_, by simp,
    trivial, ?_, rfl, fun d => ?_⟩
  · rw [snappyInJavaScript_eq hb, List.append_nil]
    congr 2
    exact congrArg (List.flatMap · _) (funext fun d => snappyInJavaWrites_eq d)
  · intro w hw
    rw [List.mem_singleton.mp hw]
    exact List.cons_ne_nil _ _
  · exact List.append_nil _
  · rw [snappyInJavaBlockBytes, List.cons_append, List.append_assoc]

/-- **What the compressors with checksums write.** -/
theorem writesChunks (f : Checksummed) (L : Library) (g : Globals) (stSize : Option (BitVec 64))
    {b : BitVec 64} (hb : f = .snappyInJava → b.toNat ≤ 65535) (x : Bytes) :
    WritesChunks (f.format.compressScript L g stSize b false x) (blocks (f.blockLen b) x) f.header
      f.trailer (f.chunk L.snappy) := by
  cases f with
  | framing2 => exact writesChunks_framing Snzip.framing2 L.snappy x
  | framing => exact writesChunks_framing Snzip.framing L.snappy x
  | comment43 => exact writesChunks_comment43 L.snappy x
  | snappyInJava => exact writesChunks_snappyInJava L.snappy (snappyInJavaBlockSize_le (hb rfl)) x

/-- **A file grows by its header and trailer, and by the heads of its chunks**: no chunk has more
payload than its block, and its length field holds its length. -/
theorem expansion (f : Checksummed) (L : Library) (g : Globals) (stSize : Option (BitVec 64))
    {b : BitVec 64} (hb : f = .snappyInJava → b.toNat ≤ 65535) (B : Buffering) (x : Bytes) :
    ∃ ds tail, ds <+: blocks (f.blockLen b) x ∧ (tail = [] ∨ tail = f.trailer) ∧
      (Codec.run B (f.format.compress L g stSize b) (.opened x)).written =
        f.header ++ (ds.flatMap (f.chunk L.snappy) ++ tail) ∧
      (∀ d ∈ ds, f.Carries L.snappy d (f.chunk L.snappy d)) ∧
      (Codec.run B (f.format.compress L g stSize b) (.opened x)).written.length ≤
        x.length + (f.perFile + f.perChunk * (x.length ⌈/⌉ f.blockLen b)) := by
  obtain ⟨ds, tail, hds, htail, hwritten⟩ := (writesChunks f L g stSize hb x).written B
  have hpos : 0 < f.blockLen b := by
    cases f with
    | framing2 | framing => exact Framing.max_pos _
    | comment43 => exact Nat.succ_pos _
    | snappyInJava => exact snappyInJavaBlockSize_pos b
  have hcarries : ∀ d ∈ ds, f.Carries L.snappy d (f.chunk L.snappy d) := fun d hd =>
    carries_chunk hb (length_of_mem_blocks (hds.subset hd))
  have hrun : (Codec.run B (f.format.compress L g stSize b) (.opened x)).written =
      f.header ++ (ds.flatMap (f.chunk L.snappy) ++ tail) := by
    rw [Codec.run, refines_compress L g stSize b f.format ⟨.opened x, _⟩ (InFile.ok_opened x) rfl]
    exact hwritten
  have hends : f.header.length + tail.length ≤ f.perFile := by
    rcases htail with rfl | rfl <;> cases f <;> decide
  have hlen := length_chunks_le hds fun d hd => (hcarries d hd).length_le
  rw [flatten_blocks hpos, length_blocks hpos] at hlen
  refine ⟨ds, tail, hds, htail, hrun, hcarries, ?_⟩
  rw [hrun, List.length_append, List.length_append]
  omega

/-- Blocks of one byte, which literals make longer. -/
theorem expansion_one :
    (Codec.run (.stdio 4096)
      (Checksummed.snappyInJava.format.compress ⟨literalSnappy, 0⟩ .initial none 1#64)
      (.opened [0x61#8, 0x62#8])).written.length ≤ 2 + (7 + 7 * (2 ⌈/⌉ 1)) := by
  obtain ⟨-, -, -, -, -, -, hlen⟩ := expansion .snappyInJava ⟨literalSnappy, 0⟩ .initial none
    (b := 1#64) (fun _ => by decide) (.stdio 4096) [0x61#8, 0x62#8]
  exact hlen

end Snzip
