import Snzip.ReadError

set_option autoImplicit false

/-!
# Chunks that are passed over

A framing stream may hold chunks that the decoder reads past without a look at what is in them.

* `WholeChunk`: a chunk that is there in full; `WholeChunk.Halts`: the loop ends at it;
* `unroll_passed`, `unroll_halted`: what the loop does on whole chunks, whatever follows them;
* **`skippable_transparent`**: a skippable chunk may stand anywhere between the others;
* `Accepted`, `Alien`, **`checksIdentifiers_iff`**: stream identifiers inside a stream are taken for
  skippable chunks, and not looked at.
-/

namespace Snzip

open CProg

/-! ## Whole chunks -/

/-- A chunk that is there in full, with any identifier and any data. -/
structure WholeChunk (k : ℕ) where
  id : Byte
  data : Bytes
  fits : data.length < 256 ^ k

namespace WholeChunk

variable {k : ℕ}

/-- The bytes of the chunk. -/
def bytes (c : WholeChunk k) : Bytes := c.id :: (leBytes k c.data.length ++ c.data)

/-- The decoder leaves its loop at this chunk. -/
def Halts (reading : Byte → Bytes → Reading) (c : WholeChunk k) : Prop :=
  reading c.id c.data = .bad ∨ reading c.id c.data = .content []

/-- The writes for a chunk. -/
def writes (reading : Byte → Bytes → Reading) (c : WholeChunk k) : List Write :=
  match reading c.id c.data with
  | .content u => [.fwriteOk u]
  | .skip | .bad => []

theorem split (c : WholeChunk k) (rest : Bytes) :
    splitChunk k (c.bytes ++ rest) = some (c.id, c.data, rest) :=
  splitChunk_append c.fits c.id rest

end WholeChunk

section Loop

variable {k : ℕ} {reading : Byte → Bytes → Reading} {fault : Bool}

/-- **A chunk where the loop does not end** is read, whatever follows it. -/
theorem unroll_wholeChunk {c : WholeChunk k} (h : ¬ c.Halts reading) (rest : Bytes) :
    unroll (chunkPass k reading fault) () (c.bytes ++ rest) =
      (unroll (chunkPass k reading fault) () rest).after (c.writes reading) := by
  cases hr : reading c.id c.data with
  | bad => exact absurd (Or.inl hr) h
  | skip => rw [unroll_skip (c.split rest) hr, WholeChunk.writes, hr, Script.after_nil]
  | content u =>
    have hu : u ≠ [] := fun h0 => h (Or.inr (h0 ▸ hr))
    rw [unroll_content (c.split rest) hr hu, WholeChunk.writes, hr]

theorem unroll_halts {c : WholeChunk k} (h : c.Halts reading) (rest : Bytes) :
    unroll (chunkPass k reading fault) () (c.bytes ++ rest) =
      ⟨[], if reading c.id c.data = .bad then .status 1 else .checked 0⟩ := by
  apply unroll_finish
  have hne : c.bytes ++ rest ≠ [] := List.cons_ne_nil _ _
  rw [chunkPass, if_neg hne, c.split rest]
  rcases h with hr | hr <;> simp [hr]

theorem unroll_passed {cs : List (WholeChunk k)} (h : ∀ c ∈ cs, ¬ c.Halts reading) (rest : Bytes) :
    unroll (chunkPass k reading fault) () (cs.flatMap WholeChunk.bytes ++ rest) =
      (unroll (chunkPass k reading fault) () rest).after
        (cs.flatMap (WholeChunk.writes reading)) :=
  unroll_flatMap (fun c hc => unroll_wholeChunk (h c hc)) rest

variable (fault) in
/-- **After a chunk where the loop ends, the rest of the stream does not matter.** -/
theorem unroll_halted {cs : List (WholeChunk k)} (h : ∃ c ∈ cs, c.Halts reading) :
    ∃ sc, ∀ rest, unroll (chunkPass k reading fault) () (cs.flatMap WholeChunk.bytes ++ rest) =
      sc := by
  induction cs with
  | nil =>
    obtain ⟨c, hc, -⟩ := h
    cases hc
  | cons d cs ih =>
    simp only [List.flatMap_cons, List.append_assoc]
    by_cases hd : d.Halts reading
    · exact ⟨_, fun rest => unroll_halts hd _⟩
    · obtain ⟨c, hc, hhalts⟩ := h
      have hcs : c ∈ cs := by
        rcases List.mem_cons.mp hc with rfl | hc
        · exact absurd hhalts hd
        · exact hc
      obtain ⟨sc, hsc⟩ := ih ⟨c, hcs, hhalts⟩
      exact ⟨_, fun rest => by rw [unroll_wholeChunk hd, hsc rest]⟩

theorem unroll_wholeChunks_congr (cs : List (WholeChunk k)) {s t : Bytes}
    (h : unroll (chunkPass k reading fault) () s = unroll (chunkPass k reading fault) () t) :
    unroll (chunkPass k reading fault) () (cs.flatMap WholeChunk.bytes ++ s) =
      unroll (chunkPass k reading fault) () (cs.flatMap WholeChunk.bytes ++ t) := by
  by_cases hcs : ∃ c ∈ cs, c.Halts reading
  · obtain ⟨sc, hsc⟩ := unroll_halted fault hcs
    rw [hsc s, hsc t]
  · have hpass : ∀ c ∈ cs, ¬ c.Halts reading := fun c hc hh => hcs ⟨c, hc, hh⟩
    rw [unroll_passed hpass, unroll_passed hpass, h]

theorem exists_wholeChunks {b : Bytes} {us : List (Option Bytes)}
    (h : Records (Chunk k reading) b us) :
    ∃ cs : List (WholeChunk k), b = cs.flatMap WholeChunk.bytes ∧
      ∀ c ∈ cs, ¬ c.Halts reading := by
  induction h with
  | nil => exact ⟨[], rfl, by simp⟩
  | cons hb _ ih =>
    obtain ⟨cs, rfl, hcs⟩ := ih
    obtain ⟨id, data, hlt, rfl, hr⟩ := hb
    refine ⟨⟨id, data, hlt⟩ :: cs, rfl, List.forall_mem_cons.mpr ⟨?_, hcs⟩⟩
    rcases hr with ⟨hr, -⟩ | ⟨u, hr, hu, -⟩ <;> simp_all [WholeChunk.Halts]

theorem records_wholeChunks {cs : List (WholeChunk k)} (h : ∀ c ∈ cs, ¬ c.Halts reading) :
    ∃ us, Records (Chunk k reading) (cs.flatMap WholeChunk.bytes) us := by
  induction cs with
  | nil => exact ⟨[], .nil⟩
  | cons c cs ih =>
    obtain ⟨us, hus⟩ := ih fun d hd => h d (List.mem_cons_of_mem _ hd)
    have hc := h c List.mem_cons_self
    cases hr : reading c.id c.data with
    | bad => exact absurd (Or.inl hr) hc
    | skip => exact ⟨none :: us, .cons ⟨c.id, c.data, c.fits, rfl, Or.inl ⟨hr, rfl⟩⟩ hus⟩
    | content u =>
      have hu : u ≠ [] := fun h0 => hc (Or.inr (h0 ▸ hr))
      exact ⟨some u :: us, .cons ⟨c.id, c.data, c.fits, rfl, Or.inr ⟨u, hr, hu, rfl⟩⟩ hus⟩

end Loop

/-! ## The decoders -/

/-- What a decoder reads before its loop. -/
def Framing.magic (F : Framing) (skipMagic : Bool) : Bytes :=
  if skipMagic then [] else F.streamHeader

variable {F : Framing} {S : Snappy}

theorem framingUnscript_magic (skipMagic fault : Bool) (t : Bytes) :
    framingUnscript F S skipMagic fault (F.magic skipMagic ++ t) = framingChunks F S fault t := by
  cases skipMagic with
  | true => rfl
  | false => simp [framingUnscript, Framing.magic]

theorem run_magic (skipMagic : Bool) (B : Buffering) (t : Bytes) :
    Codec.run B (framingFormatUncompress F S skipMagic) (.opened (F.magic skipMagic ++ t)) =
      (framingChunks F S false t).result := by
  have hscript := framingUnscript_magic (F := F) (S := S) skipMagic false t
  rw [run_opened (refines_framingFormatUncompress F S skipMagic).fresh, hscript]
  rw [hscript]
  exact Or.inl (uniform_unroll false t)

/-- **A skippable chunk may stand anywhere between the others.** -/
theorem skippable_transparent (F : Framing) (S : Snappy) (skipMagic : Bool) (B : Buffering)
    (p : List (WholeChunk F.lengthBytes)) {k : WholeChunk F.lengthBytes}
    (hk : 0x80 ≤ k.id.toNat ∧ k.id.toNat ≤ 0xfe) (q : Bytes) :
    Codec.run B (framingFormatUncompress F S skipMagic)
        (.opened (F.magic skipMagic ++ (p.flatMap WholeChunk.bytes ++ (k.bytes ++ q)))) =
      Codec.run B (framingFormatUncompress F S skipMagic)
        (.opened (F.magic skipMagic ++ (p.flatMap WholeChunk.bytes ++ q))) := by
  have hskip : framingReading F S k.id k.data = .skip := framingReading_skip_iff.mpr hk.1
  rw [run_magic, run_magic, framingChunks, framingChunks,
    unroll_wholeChunks_congr p (unroll_skip (k.split q) hskip)]

/-- A stored chunk with one byte. -/
def storedChunk (b : Byte) : WholeChunk framing2.lengthBytes :=
  ⟨0x01#8, leBytes 4 (maskedCrc32c [b]).toNat ++ [b], by
    rw [List.length_append, length_leBytes, List.length_singleton]
    decide⟩

/-- A skippable chunk with two bytes. -/
def twoSkippable : WholeChunk framing2.lengthBytes := ⟨0xfe#8, [0x01#8, 0x02#8], by decide⟩

/-- It stands between two chunks that are decoded. -/
theorem skippable_transparent_between :
    let before := [storedChunk 0x61#8]
    let behind := (storedChunk 0x62#8).bytes
    let run := fun s => Codec.run (.stdio 4096)
      (framingFormatUncompress framing2 literalSnappy false) (.opened (framing2.magic false ++ s))
    run (before.flatMap WholeChunk.bytes ++ behind) = ⟨some 0, [0x61#8, 0x62#8]⟩ ∧
      run (before.flatMap WholeChunk.bytes ++ (twoSkippable.bytes ++ behind)) =
        run (before.flatMap WholeChunk.bytes ++ behind) := by
  intro before behind run
  exact ⟨by decide +kernel, skippable_transparent framing2 literalSnappy false (.stdio 4096) before
    (k := twoSkippable) (by decide) behind⟩

/-! ## Stream identifiers inside a stream -/

/-- Whole chunks at which the loop goes on, up to the end of the stream or to a data chunk with an
empty content. -/
def Accepted (F : Framing) (S : Snappy) (t : Bytes) : Prop :=
  ∃ (cs : List (WholeChunk F.lengthBytes)) (rest : Bytes),
    t = cs.flatMap WholeChunk.bytes ++ rest ∧ (∀ c ∈ cs, ¬ c.Halts (framingReading F S)) ∧
      (rest = [] ∨ ∃ (c : WholeChunk F.lengthBytes) (left : Bytes), rest = c.bytes ++ left ∧
        framingReading F S c.id c.data = .content [])

/-- A whole chunk of type 0xff that is not the stream identifier of the format. -/
def Alien (F : Framing) (c : WholeChunk F.lengthBytes) : Prop :=
  c.id = 0xff#8 ∧ c.bytes ≠ F.streamHeader

/-- If the decoder returns 0, every chunk of type 0xff is the stream identifier, and every chunk it
has passed over, apart from those, has a type from 0x80 to 0xfe. -/
def ChecksIdentifiers (F : Framing) (S : Snappy) (skipMagic : Bool) (B : Buffering) (s : Bytes) :
    Prop :=
  (Codec.run B (framingFormatUncompress F S skipMagic) (.opened s)).status = some 0 →
    ∀ (cs : List (WholeChunk F.lengthBytes)) (c : WholeChunk F.lengthBytes) (rest : Bytes),
      s = F.magic skipMagic ++ (cs.flatMap WholeChunk.bytes ++ (c.bytes ++ rest)) →
      (c.id = 0xff#8 → c.bytes = F.streamHeader) ∧
        ((∀ d ∈ cs, ¬ d.Halts (framingReading F S)) → framingReading F S c.id c.data = .skip →
          c.bytes ≠ F.streamHeader → 0x80 ≤ c.id.toNat ∧ c.id.toNat ≤ 0xfe)

section Identifiers

variable {F : Framing} {S : Snappy}

/-- **When the decoder returns 0.** -/
theorem status_magic_iff (skipMagic : Bool) (B : Buffering) (t : Bytes) :
    (Codec.run B (framingFormatUncompress F S skipMagic)
      (.opened (F.magic skipMagic ++ t))).status = some 0 ↔ Accepted F S t := by
  have hstatus : (framingChunks F S false t).result.status = some 0 ↔
      (framingChunks F S false t).Succeeds := by
    rw [Script.Succeeds, and_iff_right fun w hw => (uniform_unroll false t w hw : w.Buffered).goes]
  rw [run_magic, hstatus, framingChunks, succeeds_chunks_iff]
  constructor
  · rintro ⟨b, us, rest, hb, rfl, hend⟩
    obtain ⟨cs, rfl, hcs⟩ := exists_wholeChunks hb
    refine ⟨cs, rest, rfl, hcs, ?_⟩
    rcases hend with ⟨h, -⟩ | ⟨id, data, left, hlt, h, hr⟩
    · exact Or.inl h
    · exact Or.inr ⟨⟨id, data, hlt⟩, left, h, hr⟩
  · rintro ⟨cs, rest, rfl, hcs, hend⟩
    obtain ⟨us, hb⟩ := records_wholeChunks hcs
    refine ⟨_, us, rest, hb, rfl, ?_⟩
    rcases hend with h | ⟨c, left, h, hr⟩
    · exact Or.inl ⟨h, rfl⟩
    · exact Or.inr ⟨c.id, c.data, left, c.fits, h, hr⟩

end Identifiers

/-- **The decoder checks the identifiers in the streams that it does not accept, and in those where
every chunk of type 0xff is the stream identifier.** -/
theorem checksIdentifiers_iff (F : Framing) (S : Snappy) (skipMagic : Bool) (B : Buffering)
    (s : Bytes) :
    ChecksIdentifiers F S skipMagic B s ↔
      ¬ ∃ t, s = F.magic skipMagic ++ t ∧ Accepted F S t ∧
        ∃ (cs : List (WholeChunk F.lengthBytes)) (c : WholeChunk F.lengthBytes) (rest : Bytes),
          t = cs.flatMap WholeChunk.bytes ++ (c.bytes ++ rest) ∧ Alien F c := by
  constructor
  · rintro h ⟨t, rfl, hacc, cs, c, rest, rfl, hff, hne⟩
    exact hne ((h ((status_magic_iff skipMagic B _).mpr hacc) cs c rest rfl).1 hff)
  · rintro h hrun cs c rest rfl
    have hacc := (status_magic_iff skipMagic B _).mp hrun
    have hid : c.id = 0xff#8 → c.bytes = F.streamHeader := by
      intro hff
      by_contra hne
      exact h ⟨_, rfl, hacc, cs, c, rest, rfl, hff, hne⟩
    refine ⟨hid, fun _ hskip hne => ⟨framingReading_skip_iff.mp hskip, ?_⟩⟩
    have hlt : c.id.toNat < 256 := c.id.isLt
    have hff : c.id.toNat ≠ 0xff := fun h0 => hne (hid (BitVec.eq_of_toNat_eq h0))
    omega

/-- An empty chunk of type 0xff. -/
def emptyIdentifier : WholeChunk framing2.lengthBytes := ⟨0xff#8, [], by decide⟩

/-- After the stream header it is passed over as any other. -/
theorem not_checksIdentifiers :
    ¬ ChecksIdentifiers framing2 literalSnappy false (.stdio 4096)
      (framing2.magic false ++ emptyIdentifier.bytes) := by
  intro h
  have hpass : ¬ emptyIdentifier.Halts (framingReading framing2 literalSnappy) := by
    rintro (hr | hr) <;> cases hr
  have hacc : Accepted framing2 literalSnappy emptyIdentifier.bytes :=
    ⟨[emptyIdentifier], [], rfl, by simpa using hpass, Or.inl rfl⟩
  have hid :=
    (h ((status_magic_iff false (.stdio 4096) _).mpr hacc) [] emptyIdentifier [] rfl).1 rfl
  cases hid

end Snzip
