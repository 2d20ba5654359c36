import Snzip.Format.Iwa

set_option autoImplicit false

/-!
# Chunks with an empty content

`fwrite` of an item of size 0 returns 0, and the decoders of chunked streams take that for the end:
they leave the loop with status 0 and never look at the bytes that follow.

* `Chunked`: the three chunked formats;
* `ConsumesAll`: status 0 stands for the whole input, read as complete chunks and written out;
* **`consumesAll_iff`**: the decoders keep to that except where a data chunk with an empty content
  has bytes after it;
* `not_consumesAll`: a stream of which the last chunk is dropped.
-/

namespace Snzip

open CProg

/-- The formats that are sequences of chunks. -/
inductive Chunked where
  | framing2
  | framing
  | iwa
  deriving DecidableEq

namespace Chunked

/-- The decoder of the format. -/
def uncompress (S : Snappy) : Chunked → Bool → Io ℕ
  | framing2 => framingFormatUncompress Snzip.framing2 S
  | framing => framingFormatUncompress Snzip.framing S
  | iwa => iwaUncompress S

/-- The width of the length field. -/
def lengthBytes : Chunked → ℕ
  | framing2 | iwa => 3
  | framing => 2

/-- What the decoder makes of a chunk. -/
def reading (S : Snappy) : Chunked → Byte → Bytes → Reading
  | framing2 => framingReading Snzip.framing2 S
  | framing => framingReading Snzip.framing S
  | iwa => iwaReading S

/-- What the decoder wants to see first. -/
def header : Chunked → Bool → Bytes
  | framing2, false => Snzip.framing2.streamHeader
  | framing, false => Snzip.framing.streamHeader
  | _, _ => []

end Chunked

/-- If the program returns 0 on `s`, it has read all of `s`, which is a sequence of complete chunks,
and it has written the contents of all of them. -/
def ConsumesAll (k : ℕ) (reading : Byte → Bytes → Reading) (B : Buffering) (m : Io ℕ) (s : Bytes) :
    Prop :=
  ∀ w, m ⟨InFile.opened s, OutFile.opened B none⟩ = .ret 0 w →
    w.inp.rest = [] ∧ ∃ cs, Chunks k reading s cs ∧ w.out.written = cs.flatten

/-- After chunks with contents comes a data chunk without one, and after that there are bytes. -/
def EmptyContentInside (k : ℕ) (reading : Byte → Bytes → Reading) (s : Bytes) : Prop :=
  ∃ cs s' id data left, Accepts k reading s cs s' ∧ (∀ c ∈ cs, c ≠ []) ∧
    splitChunk k s' = some (id, data, left) ∧ reading id data = .content [] ∧ left ≠ []

theorem clean_opened (s : Bytes) (B : Buffering) :
    Clean ⟨InFile.opened s, OutFile.opened B none⟩ :=
  ⟨InFile.ok_opened s, rfl, rfl, rfl⟩

section Loop

variable {k : ℕ} {reading : Byte → Bytes → Reading} {chunk : Byte → Io (Unit ⊕ Bool)}

theorem consumesAll_chunkLoop (hc : ReadsChunks k reading chunk) (B : Buffering) (s : Bytes) :
    ConsumesAll k reading B (chunkLoop chunk) s ↔ ¬ EmptyContentInside k reading s := by
  constructor
  · rintro h ⟨cs, s', id, data, left, hacc, hcs, hs, hr, hleft⟩
    obtain ⟨w, hw, hrest, -⟩ := chunkLoop_stops hc hacc hcs hs hr (clean_opened s B) rfl
    exact hleft (hrest.symm.trans (h w hw).1)
  · intro h w hw
    obtain ⟨n, w', hrun, hn⟩ := chunkLoop_run hc (clean_opened s B)
    rw [hw] at hrun
    cases hrun
    rcases hn with hn | ⟨-, cs, hstop, hwr⟩
    · cases hn
    rw [OutFile.written_opened, List.nil_append] at hwr
    change Stops k reading s cs w.inp.rest at hstop
    generalize w.inp.rest = left at hstop ⊢
    cases hstop with
    | eof hacc => exact ⟨rfl, cs, hacc, hwr⟩
    | empty hacc hcs hs hr =>
      have hleft : left = [] := by
        by_contra hleft
        exact h ⟨cs, _, _, _, left, hacc, hcs, hs, hr, hleft⟩
      subst hleft
      exact ⟨rfl, cs ++ [[]], hacc.append (.content hs hr .done), by simpa using hwr⟩

end Loop

/-! ## Skipped chunks in front -/

section Skip

variable {k : ℕ} {reading : Byte → Bytes → Reading} {s s' : Bytes} {id : Byte} {data : Bytes}

theorem chunks_skip (h : splitChunk k s = some (id, data, s')) (hr : reading id data = .skip)
    (cs : List Bytes) : Chunks k reading s cs ↔ Chunks k reading s' cs := by
  refine ⟨fun hs => ?_, fun hs => .skip h hr hs⟩
  obtain ⟨es, he, hs'⟩ := (Accepts.skip h hr .done : Accepts k reading s [] s').chunks_rest hs
  rwa [he, List.nil_append]

theorem emptyContentInside_skip (h : splitChunk k s = some (id, data, s'))
    (hr : reading id data = .skip) :
    EmptyContentInside k reading s ↔ EmptyContentInside k reading s' := by
  constructor
  · rintro ⟨cs, t, id', data', left, hacc, hcs, hs, hr', hleft⟩
    cases hacc with
    | done =>
      rw [h, Option.some.injEq, Prod.mk.injEq, Prod.mk.injEq] at hs
      obtain ⟨rfl, rfl, rfl⟩ := hs
      rw [hr] at hr'
      cases hr'
    | skip h' hr'' ht =>
      rw [h, Option.some.injEq, Prod.mk.injEq, Prod.mk.injEq] at h'
      obtain ⟨rfl, rfl, rfl⟩ := h'
      exact ⟨cs, t, id', data', left, ht, hcs, hs, hr', hleft⟩
    | content h' hr'' ht =>
      rw [h, Option.some.injEq, Prod.mk.injEq, Prod.mk.injEq] at h'
      obtain ⟨rfl, rfl, rfl⟩ := h'
      rw [hr] at hr''
      cases hr''
  · rintro ⟨cs, t, id', data', left, hacc, hcs, hs, hr', hleft⟩
    exact ⟨cs, t, id', data', left, .skip h hr hacc, hcs, hs, hr', hleft⟩

end Skip

/-- The decoder of a framing format, which checks the stream header first. -/
theorem consumesAll_framing (F : Framing) (S : Snappy) (B : Buffering) (s : Bytes) :
    ConsumesAll F.lengthBytes (framingReading F S) B (framingFormatUncompress F S false) s ↔
      ¬ (F.streamHeader <+: s ∧ EmptyContentInside F.lengthBytes (framingReading F S) s) := by
  by_cases hpre : F.streamHeader <+: s
  · obtain ⟨rest, rfl⟩ := hpre
    have hsplit := splitChunk_header F rest
    have hskip := framingReading_header F S
    have hloop := consumesAll_chunkLoop (readsChunks_framingChunk (F := F) (S := S)) B rest
    rw [emptyContentInside_skip hsplit hskip, and_iff_right (List.prefix_append _ _), ← hloop]
    unfold ConsumesAll
    rw [framingFormatUncompress_of_header (t := rest) rfl]
    simp only [chunks_skip hsplit hskip]
    rfl
  · obtain ⟨i, hi⟩ := framingFormatUncompress_of_not (F := F) (S := S)
      (w := ⟨InFile.opened s, OutFile.opened B none⟩) hpre
    refine ⟨fun _ h => hpre h.1, fun _ w hw => ?_⟩
    rw [hi] at hw
    cases hw

theorem consumesAll_framing_skipMagic (F : Framing) (S : Snappy) (B : Buffering) (s : Bytes) :
    ConsumesAll F.lengthBytes (framingReading F S) B (framingFormatUncompress F S true) s ↔
      ¬ ([] <+: s ∧ EmptyContentInside F.lengthBytes (framingReading F S) s) := by
  have hloop := consumesAll_chunkLoop (readsChunks_framingChunk (F := F) (S := S)) B s
  rw [and_iff_right List.nil_prefix, ← hloop]
  unfold ConsumesAll
  rw [framingFormatUncompress_true]

theorem consumesAll_iwa (S : Snappy) (skipMagic : Bool) (B : Buffering) (s : Bytes) :
    ConsumesAll 3 (iwaReading S) B (iwaUncompress S skipMagic) s ↔
      ¬ ([] <+: s ∧ EmptyContentInside 3 (iwaReading S) s) := by
  have hloop := consumesAll_chunkLoop (readsChunks_iwaChunk (S := S)) B s
  rw [and_iff_right List.nil_prefix, ← hloop, iwaUncompress_eq]

/-- **The decoders of chunked streams consume and write everything, except where a data chunk with
an empty content has bytes after it.** -/
theorem consumesAll_iff (f : Chunked) (S : Snappy) (skipMagic : Bool) (B : Buffering) (s : Bytes) :
    ConsumesAll f.lengthBytes (f.reading S) B (f.uncompress S skipMagic) s ↔
      ¬ (f.header skipMagic <+: s ∧ EmptyContentInside f.lengthBytes (f.reading S) s) := by
  cases f with
  | framing2 =>
    cases skipMagic with
    | false => exact consumesAll_framing Snzip.framing2 S B s
    | true => exact consumesAll_framing_skipMagic Snzip.framing2 S B s
  | framing =>
    cases skipMagic with
    | false => exact consumesAll_framing Snzip.framing S B s
    | true => exact consumesAll_framing_skipMagic Snzip.framing S B s
  | iwa =>
    cases skipMagic with
    | false => exact consumesAll_iwa S false B s
    | true => exact consumesAll_iwa S true B s

/-- A stored chunk without content, then one that holds a byte. -/
def droppedTail : Bytes :=
  framing2.streamHeader ++ [0x01#8, 0x04#8, 0x00#8, 0x00#8, 0xd8#8, 0xea#8, 0x82#8, 0xa2#8] ++
    [0x01#8, 0x05#8, 0x00#8, 0x00#8, 0x78#8, 0x6e#8, 0xe4#8, 0x28#8, 0x61#8]

/-- The second of its chunks is dropped. -/
theorem not_consumesAll :
    ¬ ConsumesAll 3 (framingReading framing2 literalSnappy) (.stdio 4096)
      (framingFormatUncompress framing2 literalSnappy false) droppedTail := by
  intro h
  have hrun : (framingFormatUncompress framing2 literalSnappy false
      ⟨InFile.opened droppedTail, OutFile.opened (.stdio 4096) none⟩).view (fun w => w.inp.rest) =
        .ret 0 (droppedTail.drop 18) := by
    decide +kernel
  obtain ⟨w, hw, hrest⟩ := Outcome.view_eq_ret.mp hrun
  rw [(h w hw).1] at hrest
  exact absurd hrest (by decide)

end Snzip
