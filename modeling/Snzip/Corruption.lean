import Snzip.Crc32.Paths
import Snzip.Verified

set_option autoImplicit false

/-!
# Corrupted data

Where a decoder compares checksums, a change of up to four bytes in a row of stored data does not go
unnoticed.

* `masked_burst`: the change shows in the masked checksum;
* `RawChunk`, `Checksummed.bytes`, `Checksummed.content`: chunks that may have any data;
* **`corruption_detected`**: the decoder fails at the changed chunk, and has written what is before
  it.
-/

namespace Snzip

open CProg

/-! ## The checksum -/

/-- The rotation and the constant of the masked checksum. -/
def maskCrc (crc : BitVec 32) : BitVec 32 := ((crc >>> 15) ||| (crc <<< 17)) + maskDelta

theorem maskCrc_injective : Function.Injective maskCrc := by
  have hback : ∀ x : BitVec 32,
      (((x >>> 15) ||| (x <<< 17)) <<< 15) ||| (((x >>> 15) ||| (x <<< 17)) >>> 17) = x := by
    intro x
    apply BitVec.eq_of_getLsbD_eq
    intro i hi
    simp only [BitVec.getLsbD_or, BitVec.getLsbD_shiftLeft, BitVec.getLsbD_ushiftRight]
    have hout : x.getLsbD (15 + (17 + i)) = false := BitVec.getLsbD_of_ge x _ (by omega)
    by_cases h : i < 15
    · have h₁ : 17 + i < 32 := by omega
      simp [h, h₁, hout]
    · have h₁ : i - 15 < 17 := by omega
      have h₂ : 15 + (i - 15) = i := by omega
      simp [hi, h, h₁, h₂, hout]
  intro x y h
  have hrot := (BitVec.add_left_inj maskDelta).mp h
  rw [← hback x, ← hback y, hrot]

theorem maskedCrc32c_eq {buf : Bytes} (h : buf.length < 2 ^ 32) :
    maskedCrc32c buf = maskCrc (~~~ bitwiseCrc32c 0xffffffff#32 buf) := by
  unfold maskedCrc32c
  rw [Nat.mod_eq_of_lt h, List.take_length, calculateCrc32c_eq]
  rfl

/-- **A change of up to four bytes in a row** shows in the masked checksum. -/
theorem masked_burst {l m n r : Bytes} (hlen : m.length = n.length) (h4 : m.length ≤ 4)
    (hlt : (l ++ m ++ r).length < 2 ^ 32)
    (h : maskedCrc32c (l ++ m ++ r) = maskedCrc32c (l ++ n ++ r)) : m = n := by
  have hlt' : (l ++ n ++ r).length < 2 ^ 32 := by
    simp only [List.length_append] at hlt ⊢
    omega
  rw [maskedCrc32c_eq hlt, maskedCrc32c_eq hlt'] at h
  have hcrc := BitVec.not_inj.mp (maskCrc_injective h)
  have hmsb : crc32cPoly.msb = true := rfl
  exact burst_detected crc32cPoly hmsb (Nat.le_add_left 8 24) hlen (by omega) hcrc

/-! ## Chunks with any data -/

/-- A chunk as it is stored: its identifier or flag, and its data. The data of a data chunk are a
checksum of four bytes and the payload. -/
structure RawChunk where
  type : Byte
  data : Bytes
  deriving DecidableEq

/-- An identifier, a length field of `k` bytes, and the data. -/
def framedBytes (k : ℕ) (c : RawChunk) : Bytes :=
  c.type :: (leBytes k c.data.length ++ c.data)

/-- The content of a chunk, if it is a data chunk. -/
def framedContent (S : Snappy) (maxLen : ℕ) (c : RawChunk) : Option Bytes :=
  if c.type = 0x01#8 then some (c.data.drop 4)
  else if c.type = 0x00#8 then S.uncompress (c.data.drop 4) maxLen
  else none

namespace Checksummed

/-- The type of the chunks whose payload is not compressed. -/
def storedType : Checksummed → Byte
  | snappyInJava => uncompressedFlag
  | _ => 0x01#8

/-- The length field can hold the length. -/
def Fits : Checksummed → RawChunk → Prop
  | framing2, c => c.data.length < 256 ^ 3
  | snappyInJava, c => 4 ≤ c.data.length ∧ c.data.length - 4 < 256 ^ 2
  | _, c => c.data.length < 256 ^ 2

/-- The bytes of a chunk. -/
def bytes : Checksummed → RawChunk → Bytes
  | framing2, c => framedBytes 3 c
  | snappyInJava, c => c.type :: (beBytes 2 (c.data.length - 4) ++ c.data)
  | _, c => framedBytes 2 c

/-- The content of a chunk, if it is a data chunk. -/
def content (S : Snappy) : Checksummed → RawChunk → Option Bytes
  | framing2, c => framedContent S 65536 c
  | framing, c => framedContent S 32768 c
  | comment43, c => framedContent S comment43WorkLen c
  | snappyInJava, c =>
    if c.type = uncompressedFlag then some (c.data.drop 4)
    else if c.type = compressedFlag then
      S.uncompressWithin (c.data.drop 4) snappyInJavaMaxBlockSize.toNat
    else none

/-- The checksum in front of the payload. -/
def sum : Checksummed → Bytes → BitVec 32
  | snappyInJava, data => BitVec.ofNat 32 (beVal (data.take 4))
  | _, data => leWord data

/-- No data chunk of the stream has an empty content. -/
def NonEmptyContents (S : Snappy) (f : Checksummed) (skipMagic : Bool) (s : Bytes) : Prop :=
  ∀ (a : List RawChunk) (c : RawChunk) (z : Bytes), (∀ d ∈ a, f.Fits d) → f.Fits c →
    s = f.magic skipMagic ++ (a.flatMap f.bytes ++ (f.bytes c ++ z)) → f.content S c ≠ some []

end Checksummed

/-! ## Streams of chunks -/

section Streams

variable {S : Snappy} {f : Checksummed}

theorem Checksummed.bytes_append_inj {c c' : RawChunk} (hc : f.Fits c) (hc' : f.Fits c')
    {z z' : Bytes} (h : f.bytes c ++ z = f.bytes c' ++ z') : c = c' ∧ z = z' := by
  have hframed : ∀ k, c.data.length < 256 ^ k → c'.data.length < 256 ^ k →
      framedBytes k c ++ z = framedBytes k c' ++ z' → c = c' ∧ z = z' := by
    intro k hk hk' h
    have hs : splitChunk k (framedBytes k c ++ z) = some (c.type, c.data, z) :=
      splitChunk_append hk c.type z
    have hs' : splitChunk k (framedBytes k c' ++ z') = some (c'.type, c'.data, z') :=
      splitChunk_append hk' c'.type z'
    rw [h, hs'] at hs
    simp only [Option.some.injEq, Prod.mk.injEq] at hs
    obtain ⟨htype, hdata, hz⟩ := hs
    cases c
    cases c'
    simp_all
  cases f with
  | framing2 => exact hframed 3 hc hc' h
  | framing => exact hframed 2 hc hc' h
  | comment43 => exact hframed 2 hc hc' h
  | snappyInJava =>
    obtain ⟨h4, hlt⟩ := hc
    obtain ⟨h4', hlt'⟩ := hc'
    simp only [bytes, List.cons_append, List.append_assoc, List.cons.injEq] at h
    obtain ⟨htype, h⟩ := h
    obtain ⟨hfield, hdata⟩ := List.append_inj h (by rw [length_beBytes, length_beBytes])
    have hlen : c.data.length - 4 = c'.data.length - 4 := by
      rw [← beVal_beBytes hlt, ← beVal_beBytes hlt', hfield]
    obtain ⟨hdata, hz⟩ := List.append_inj hdata (by omega)
    cases c
    cases c'
    simp_all

theorem nonEmptyContents_of_chunks (skipMagic : Bool) {cs : List RawChunk}
    (hcs : ∀ c ∈ cs, f.Fits c ∧ f.content S c ≠ some []) :
    f.NonEmptyContents S skipMagic (f.magic skipMagic ++ cs.flatMap f.bytes) := by
  intro a c z ha hc h
  replace h := List.append_cancel_left h
  induction a generalizing cs with
  | nil =>
    cases cs with
    | nil =>
      exfalso
      cases f <;> simp [Checksummed.bytes, framedBytes] at h
    | cons d cs =>
      obtain ⟨rfl, -⟩ := Checksummed.bytes_append_inj (hcs d List.mem_cons_self).1 hc h
      exact (hcs d List.mem_cons_self).2
  | cons b a ih =>
    cases cs with
    | nil =>
      exfalso
      cases f <;> simp [Checksummed.bytes, framedBytes] at h
    | cons d cs =>
      rw [List.flatMap_cons, List.flatMap_cons, List.append_assoc] at h
      obtain ⟨-, h⟩ := Checksummed.bytes_append_inj (hcs d List.mem_cons_self).1
        (ha b List.mem_cons_self) h
      exact ih (fun d hd => hcs d (List.mem_cons_of_mem _ hd))
        (fun d hd => ha d (List.mem_cons_of_mem _ hd)) h

end Streams

/-- The passes of a decoder that goes by the checksums; `g` are the writes for a content. -/
structure Guarded {ρ : Type} (S : Snappy) (f : Checksummed) (pass : ρ → Bytes → Pass ρ)
    (g : Option Bytes → List Write) : Prop where
  shrinks : Shrinks pass
  reads : ∀ c, f.Fits c → f.content S c ≠ some [] →
    ReadOrRefused pass (f.bytes c) (g (f.content S c))
  refuses : ∀ c, f.Fits c → c.type = f.storedType →
    maskedCrc32c (c.data.drop 4) ≠ f.sum c.data → ∀ r rest,
      pass r (f.bytes c ++ rest) = .finish ⟨[], .status 1⟩

section Guarded

variable {S : Snappy} {c : RawChunk}

theorem chunkPass_framedBytes {k : ℕ} {reading : Byte → Bytes → Reading} {fault : Bool}
    (hc : c.data.length < 256 ^ k) (rest : Bytes) :
    chunkPass k reading fault () (framedBytes k c ++ rest) = match reading c.type c.data with
      | .bad => .finish ⟨[], .status 1⟩
      | .skip => .again [] () rest
      | .content u =>
        if u = [] then .finish ⟨[], .checked 0⟩ else .again [.fwriteOk u] () rest := by
  have hs : splitChunk k (framedBytes k c ++ rest) = some (c.type, c.data, rest) :=
    splitChunk_append hc c.type rest
  have hne : framedBytes k c ++ rest ≠ [] := List.cons_ne_nil _ _
  cases hr : reading c.type c.data <;> simp only [chunkPass, if_neg hne, hs, hr]

theorem framingReading_content {F : Framing} {u : Bytes}
    (h : framingReading F S c.type c.data = .content u) :
    framedContent S F.maxUncompressedDataLen c = some u := by
  unfold framedContent
  obtain ⟨-, -, ⟨h0, hu⟩ | ⟨h1, rfl⟩⟩ := framingReading_content_iff.mp h
  · rw [h0, if_neg (by decide), if_pos rfl]
    exact hu
  · rw [if_pos h1]

theorem framingReading_skip {F : Framing} (h : framingReading F S c.type c.data = .skip) :
    framedContent S F.maxUncompressedDataLen c = none := by
  have hid := framingReading_skip_iff.mp h
  rw [framedContent, if_neg fun h1 => absurd (h1 ▸ hid) (by decide),
    if_neg fun h0 => absurd (h0 ▸ hid) (by decide)]

theorem readOrRefused_framing {F : Framing} {fault : Bool}
    (hc : c.data.length < 256 ^ F.lengthBytes)
    (hne : framedContent S F.maxUncompressedDataLen c ≠ some []) :
    ReadOrRefused (chunkPass F.lengthBytes (framingReading F S) fault)
      (framedBytes F.lengthBytes c)
      (contentWrites (framedContent S F.maxUncompressedDataLen c)) := by
  intro r
  cases hr : framingReading F S c.type c.data with
  | bad =>
    refine Or.inr fun rest => ?_
    rw [chunkPass_framedBytes hc, hr]
  | skip =>
    refine Or.inl ⟨(), fun rest => ?_⟩
    rw [chunkPass_framedBytes hc, hr, framingReading_skip hr]
    rfl
  | content u =>
    have hcontent := framingReading_content hr
    have hu : u ≠ [] := fun h0 => hne (hcontent.trans (congrArg some h0))
    refine Or.inl ⟨(), fun rest => ?_⟩
    rw [chunkPass_framedBytes hc, hr, hcontent]
    exact if_neg hu

theorem refuses_framing {F : Framing} {fault : Bool} (hc : c.data.length < 256 ^ F.lengthBytes)
    (htype : c.type = 0x01#8) (hcrc : maskedCrc32c (c.data.drop 4) ≠ leWord c.data) (r : Unit)
    (rest : Bytes) :
    chunkPass F.lengthBytes (framingReading F S) fault r (framedBytes F.lengthBytes c ++ rest) =
      .finish ⟨[], .status 1⟩ := by
  have hbad : framingReading F S c.type c.data = .bad := by
    rw [htype, framingReading, if_neg (by decide), if_pos rfl]
    split
    · rfl
    · rw [checkedReading, if_neg (by simpa [checkCrc32c] using hcrc)]
  rw [chunkPass_framedBytes hc, hbad]

theorem guarded_framing2 (fault : Bool) :
    Guarded S .framing2 (chunkPass 3 (framingReading framing2 S) fault) contentWrites where
  shrinks := shrinks_chunkPass _ _
  reads _ hc hne := readOrRefused_framing (F := framing2) hc hne
  refuses _ hc htype hcrc := refuses_framing (F := framing2) hc htype hcrc

theorem guarded_framing (fault : Bool) :
    Guarded S .framing (chunkPass 2 (framingReading framing S) fault) contentWrites where
  shrinks := shrinks_chunkPass _ _
  reads _ hc hne := readOrRefused_framing (F := framing) hc hne
  refuses _ hc htype hcrc := refuses_framing (F := framing) hc htype hcrc

theorem blockAction_write {state : StreamState} {u : Bytes}
    (h : blockAction S state c.type c.data = .write u) :
    framedContent S comment43WorkLen c = some u := by
  have hst : state = .processing := by
    cases state with
    | processing => rfl
    | error => cases h
    | initial | endOfStream =>
      rw [blockAction_header (by decide)] at h
      split at h <;> cases h
  subst hst
  unfold framedContent
  rcases blockAction_write_iff.mp h with ⟨h0, -, hu, -⟩ | ⟨h1, -, -, rfl⟩
  · rw [h0, if_neg (by decide), if_pos rfl, hu]
  · rw [if_pos h1]

theorem blockAction_next {state state' : StreamState}
    (h : blockAction S state c.type c.data = .next state') :
    framedContent S comment43WorkLen c = none := by
  have htype : c.type ≠ 0x01#8 ∧ c.type ≠ 0x00#8 := by
    cases state with
    | error => cases h
    | initial | endOfStream =>
      rw [blockAction_header (by decide)] at h
      split at h
      · next hh =>
        rw [hh.1]
        decide
      · cases h
    | processing =>
      rcases blockAction_next_iff.mp h with ⟨hfe, -, -⟩ | ⟨⟨h80, -⟩, -⟩
      · rw [hfe]
        decide
      · constructor <;> intro he <;> rw [he] at h80 <;> exact absurd h80 (by decide)
  rw [framedContent, if_neg htype.1, if_neg htype.2]

theorem blockAction_stored_bad {state : StreamState} (htype : c.type = 0x01#8)
    (hcrc : maskedCrc32c (c.data.drop 4) ≠ leWord c.data) :
    blockAction S state c.type c.data = .bad := by
  cases state with
  | error => rfl
  | initial | endOfStream =>
    rw [blockAction_header (by decide), if_neg fun h => absurd (htype ▸ h.1) (by decide)]
  | processing =>
    simp only [blockAction, htype]
    rw [if_neg (by decide), if_pos trivial]
    split
    · rfl
    · rw [checkedAction, if_pos (Ne.symm hcrc)]

theorem guarded_comment43 : Guarded S .comment43 (comment43PassOf S) contentWrites where
  shrinks := shrinks_comment43PassOf
  reads c hc hne := by
    intro state
    have hs : ∀ rest, splitChunk 2 (framedBytes 2 c ++ rest) = some (c.type, c.data, rest) :=
      splitChunk_append hc c.type
    change (∃ state', ∀ rest, comment43PassOf S state (framedBytes 2 c ++ rest) = _) ∨
      ∀ rest, comment43PassOf S state (framedBytes 2 c ++ rest) = _
    cases hact : blockAction S state c.type c.data with
    | bad =>
      refine Or.inr fun rest => ?_
      rw [comment43PassOf_split (hs rest), hact]
    | next state' =>
      refine Or.inl ⟨state', fun rest => ?_⟩
      rw [comment43PassOf_split (hs rest), hact]
      change _ = Pass.again (contentWrites (framedContent S comment43WorkLen c)) state' rest
      rw [blockAction_next hact]
      rfl
    | write u =>
      have hsome := blockAction_write hact
      have hu : u ≠ [] := fun h0 => hne (hsome.trans (congrArg some h0))
      refine Or.inl ⟨.processing, fun rest => ?_⟩
      rw [comment43PassOf_split (hs rest), hact]
      change _ = Pass.again (contentWrites (framedContent S comment43WorkLen c)) _ rest
      rw [hsome]
      exact if_neg hu
  refuses c hc htype hcrc state rest := by
    have hs : splitChunk 2 (framedBytes 2 c ++ rest) = some (c.type, c.data, rest) :=
      splitChunk_append hc c.type rest
    change comment43PassOf S state (framedBytes 2 c ++ rest) = _
    rw [comment43PassOf_split hs, blockAction_stored_bad htype hcrc]

theorem snappyInJavaPassOf_bytes (hc : Checksummed.snappyInJava.Fits c) (rest : Bytes) :
    snappyInJavaPassOf S snappyInJavaMaxBlockSize.toNat ()
        (Checksummed.snappyInJava.bytes c ++ rest) =
      if c.data.drop 4 = [] then .finish ⟨[], .status 1⟩
      else if c.type = uncompressedFlag then
        checkAndWriteOf (c.data.drop 4) (Checksummed.snappyInJava.sum c.data) rest
      else if c.type = compressedFlag then
        match S.uncompressWithin (c.data.drop 4) snappyInJavaMaxBlockSize.toNat with
        | none => .finish ⟨[], .status 1⟩
        | some u => checkAndWriteOf u (Checksummed.snappyInJava.sum c.data) rest
      else .finish ⟨[], .status 1⟩ := by
  obtain ⟨h4, hlt⟩ := hc
  have hlen : (c.data.drop 4).length = c.data.length - 4 := List.length_drop
  have hsum : c.data.take 4 = beBytes 4 (Checksummed.snappyInJava.sum c.data).toNat := by
    have h4' : (c.data.take 4).length = 4 := List.length_take_of_le h4
    have hval := beVal_lt (c.data.take 4)
    have hfield := beBytes_beVal (c.data.take 4)
    rw [h4'] at hval hfield
    rw [Checksummed.sum, BitVec.toNat_ofNat, Nat.mod_eq_of_lt (by omega), hfield]
  have hbytes : Checksummed.snappyInJava.bytes c ++ rest = c.type ::
      (beBytes 2 (c.data.drop 4).length ++
        (beBytes 4 (Checksummed.snappyInJava.sum c.data).toNat ++ (c.data.drop 4 ++ rest))) := by
    rw [hlen, ← hsum, ← List.append_assoc (c.data.take 4), List.take_append_drop]
    simp [Checksummed.bytes]
  rw [hbytes, snappyInJavaPassOf]
  by_cases h0 : c.data.drop 4 = []
  · rw [if_pos h0]
    split
    · obtain ⟨hzero, -⟩ := beVal_take_beBytes (k := 2) (n := (c.data.drop 4).length)
        (by rw [hlen]; exact hlt)
        (beBytes 4 (Checksummed.snappyInJava.sum c.data).toNat ++ (c.data.drop 4 ++ rest))
      rw [snappyInJavaFlaggedOf, if_pos (Or.inr (Or.inl (by rw [hzero, h0]; rfl)))]
    · rfl
  rw [if_neg h0, snappyInJavaFlaggedOf_eq h0 (by rw [hlen]; exact hlt)]
  by_cases hstored : c.type = uncompressedFlag
  · rw [if_pos hstored, if_pos (Or.inr hstored), if_neg (by rw [hstored]; decide)]
  rw [if_neg hstored]
  by_cases hcomp : c.type = compressedFlag
  · cases S.uncompressWithin (c.data.drop 4) snappyInJavaMaxBlockSize.toNat <;> simp [hcomp]
  · rw [if_neg hcomp, if_neg (by tauto), if_neg hcomp]

theorem guarded_snappyInJava :
    Guarded S .snappyInJava (snappyInJavaPassOf S snappyInJavaMaxBlockSize.toNat)
      (fun c => c.toList.map .writeFull) where
  shrinks := shrinks_snappyInJavaPassOf
  reads c hc _ := by
    have hcheck : ∀ u, Checksummed.snappyInJava.content S c = some u →
        (∀ rest, snappyInJavaPassOf S snappyInJavaMaxBlockSize.toNat ()
          (Checksummed.snappyInJava.bytes c ++ rest) =
            checkAndWriteOf u (Checksummed.snappyInJava.sum c.data) rest) →
        ReadOrRefused (snappyInJavaPassOf S snappyInJavaMaxBlockSize.toNat)
          (Checksummed.snappyInJava.bytes c)
          ((Checksummed.snappyInJava.content S c).toList.map .writeFull) := by
      intro u hu hpass r
      by_cases hcrc : maskedCrc32c u ≠ Checksummed.snappyInJava.sum c.data
      · refine Or.inr fun rest => ?_
        rw [hpass, checkAndWriteOf, if_pos hcrc]
      · refine Or.inl ⟨(), fun rest => ?_⟩
        rw [hpass, checkAndWriteOf, if_neg hcrc, hu]
        rfl
    by_cases h0 : c.data.drop 4 = []
    · refine fun _ => Or.inr fun rest => ?_
      rw [snappyInJavaPassOf_bytes hc, if_pos h0]
    by_cases hstored : c.type = uncompressedFlag
    · refine hcheck (c.data.drop 4) (if_pos hstored) fun rest => ?_
      rw [snappyInJavaPassOf_bytes hc, if_neg h0, if_pos hstored]
    by_cases hcomp : c.type = compressedFlag
    · cases hu : S.uncompressWithin (c.data.drop 4) snappyInJavaMaxBlockSize.toNat with
      | none =>
        refine fun _ => Or.inr fun rest => ?_
        rw [snappyInJavaPassOf_bytes hc, if_neg h0, if_neg hstored, if_pos hcomp, hu]
      | some u =>
        refine hcheck u ?_ fun rest => ?_
        · rw [Checksummed.content, if_neg hstored, if_pos hcomp, hu]
        · rw [snappyInJavaPassOf_bytes hc, if_neg h0, if_neg hstored, if_pos hcomp, hu]
    · refine fun _ => Or.inr fun rest => ?_
      rw [snappyInJavaPassOf_bytes hc, if_neg h0, if_neg hstored, if_neg hcomp]
  refuses c hc htype hcrc _ rest := by
    rw [snappyInJavaPassOf_bytes hc]
    split
    · rfl
    · rw [if_pos (show c.type = uncompressedFlag from htype), checkAndWriteOf, if_pos hcrc]

/-- **The changed chunk is refused**, after the chunks before it have been read. -/
theorem Guarded.altered {ρ : Type} {f : Checksummed} {pass : ρ → Bytes → Pass ρ}
    {g : Option Bytes → List Write} (h : Guarded S f pass g) {a : List RawChunk}
    (ha : ∀ c ∈ a, f.Fits c ∧ f.content S c ≠ some []) {sum l m n t z : Bytes}
    (hsum : sum.length = 4) (hfits : f.Fits ⟨f.storedType, sum ++ (l ++ m ++ t)⟩)
    (hlen : m.length = n.length) (h4 : m.length ≤ 4) (hne : m ≠ n) {r : ρ}
    (hgoes : (unroll pass r (a.flatMap f.bytes ++
      (f.bytes ⟨f.storedType, sum ++ (l ++ m ++ t)⟩ ++ z))).verdict ≠ .status 1) :
    unroll pass r (a.flatMap f.bytes ++ (f.bytes ⟨f.storedType, sum ++ (l ++ n ++ t)⟩ ++ z)) =
      ⟨a.flatMap fun c => g (f.content S c), .status 1⟩ := by
  have hpayload : ∀ p : Bytes, (sum ++ p).drop 4 = p := fun p => List.drop_left' hsum
  have hfield : ∀ p q : Bytes, f.sum (sum ++ p) = f.sum (sum ++ q) := by
    intro p q
    cases f <;> simp only [Checksummed.sum, leWord, List.take_left' hsum]
  have hlength : (sum ++ (l ++ n ++ t)).length = (sum ++ (l ++ m ++ t)).length := by
    simp only [List.length_append, hlen]
  have hfits' : f.Fits ⟨f.storedType, sum ++ (l ++ n ++ t)⟩ := by
    cases f <;> simp only [Checksummed.Fits, hlength] at hfits ⊢ <;> exact hfits
  have hlt : (l ++ m ++ t).length < 2 ^ 32 := by
    have hdata : (sum ++ (l ++ m ++ t)).length < 2 ^ 32 := by
      cases f <;> simp only [Checksummed.Fits] at hfits <;> omega
    rw [List.length_append] at hdata
    omega
  refine unroll_altered h.shrinks (fun c hc => h.reads c (ha c hc).1 (ha c hc).2) ?_ hgoes
  rintro ⟨r₀, hread⟩ r'
  have hcrc : maskedCrc32c (l ++ m ++ t) = f.sum (sum ++ (l ++ m ++ t)) := by
    by_contra hbad
    refine hread (h.refuses _ hfits rfl ?_ r₀ z)
    rwa [hpayload]
  refine h.refuses _ hfits' rfl ?_ r' z
  rw [hpayload, hfield _ (l ++ m ++ t), ← hcrc]
  exact fun he => hne (masked_burst hlen h4 hlt he.symm)

end Guarded

/-! ## The decoders -/

theorem framingUnscript_header (F : Framing) (S : Snappy) (skipMagic fault : Bool) (s : Bytes) :
    framingUnscript F S skipMagic fault ((if skipMagic then [] else F.streamHeader) ++ s) =
      unroll (chunkPass F.lengthBytes (framingReading F S) fault) () s := by
  cases skipMagic with
  | true => rfl
  | false =>
    simp only [framingUnscript, Bool.false_eq_true, if_false, List.take_left, List.drop_left,
      if_true]
    rfl

/-- **A decoder that goes by the checksums** is a loop behind its magic. -/
theorem exists_guarded (f : Checksummed) (L : Library) (G : Globals) (skipMagic fault : Bool) :
    ∃ (ρ : Type) (pass : ρ → Bytes → Pass ρ) (r : ρ) (ws : List Write)
      (g : Option Bytes → List Write), Guarded L.snappy f pass g ∧ bytesOf ws = [] ∧
        (∀ c, bytesOf (g c) = c.getD []) ∧ ∀ s,
          f.format.uncompressScript L G skipMagic fault (f.magic skipMagic ++ s) =
            (unroll pass r s).after ws := by
  have hcontent : ∀ c, bytesOf (contentWrites c) = c.getD [] := by
    intro c
    cases c <;> simp [contentWrites, Write.bytes]
  cases f with
  | framing2 =>
    refine ⟨_, _, (), [], contentWrites, guarded_framing2 fault, rfl, hcontent, fun s => ?_⟩
    rw [Script.after_nil]
    cases skipMagic <;> exact framingUnscript_header Snzip.framing2 L.snappy _ fault s
  | framing =>
    refine ⟨_, _, (), [], contentWrites, guarded_framing fault, rfl, hcontent, fun s => ?_⟩
    rw [Script.after_nil]
    cases skipMagic <;> exact framingUnscript_header Snzip.framing L.snappy _ fault s
  | comment43 =>
    refine ⟨_, _, if skipMagic then .processing else .initial, [], contentWrites, guarded_comment43,
      rfl, hcontent, fun s => ?_⟩
    rw [Script.after_nil]
    cases skipMagic <;> rfl
  | snappyInJava =>
    refine ⟨_, _, (), [.fflush], _, guarded_snappyInJava, rfl, ?_, fun s => ?_⟩
    · intro c
      cases c <;> simp [Write.bytes]
    · change snappyInJavaUnscript L.snappy skipMagic fault _ = _
      unfold snappyInJavaUnscript
      cases skipMagic with
      | true => rfl
      | false => rw [Checksummed.magic, takeSnappyInJavaHeader_header]

theorem bytesOf_contents {g : Option Bytes → List Write} (hg : ∀ c, bytesOf (g c) = c.getD [])
    (content : RawChunk → Option Bytes) (a : List RawChunk) :
    bytesOf (a.flatMap fun c => g (content c)) = (a.filterMap content).flatten := by
  induction a with
  | nil => rfl
  | cons c a ih =>
    rw [List.flatMap_cons, bytesOf_append, hg, ih]
    cases h : content c with
    | none => rw [List.filterMap_cons_none h]; rfl
    | some u => rw [List.filterMap_cons_some h]; rfl

/-- **Corruption of stored data is detected.** In a stream that the decoder accepts and whose data
chunks have contents that are not empty, `m` are up to four bytes in a row of the payload of a
stored data chunk, behind the chunks `a`. If other bytes are there instead, the decoder fails, and
what it has written are the contents of the chunks `a`. -/
theorem corruption_detected (f : Checksummed) (L : Library) (g : Globals) (skipMagic fault : Bool)
    (B : Buffering) {s : Bytes}
    (haccept : (Codec.run B (f.format.uncompress L g skipMagic)
      ⟨s, fault, false, false⟩).status = some 0)
    (hcontents : f.NonEmptyContents L.snappy skipMagic s) {a : List RawChunk}
    (ha : ∀ c ∈ a, f.Fits c) {sum l m n t z : Bytes} (hsum : sum.length = 4)
    (hfits : f.Fits ⟨f.storedType, sum ++ (l ++ m ++ t)⟩)
    (hs : s = f.magic skipMagic ++
      (a.flatMap f.bytes ++ (f.bytes ⟨f.storedType, sum ++ (l ++ m ++ t)⟩ ++ z)))
    (hlen : m.length = n.length) (h4 : m.length ≤ 4) (hne : m ≠ n) :
    Codec.run B (f.format.uncompress L g skipMagic)
        ⟨f.magic skipMagic ++
          (a.flatMap f.bytes ++ (f.bytes ⟨f.storedType, sum ++ (l ++ n ++ t)⟩ ++ z)),
          fault, false, false⟩ =
      ⟨some 1, (a.filterMap (f.content L.snappy)).flatten⟩ := by
  have hi : ∀ s, (InFile.mk s fault false false).Ok := fun s =>
    ⟨fun h => Bool.noConfusion h, fun h => Bool.noConfusion h⟩
  have hrun : ∀ s, Codec.run B (f.format.uncompress L g skipMagic) ⟨s, fault, false, false⟩ =
      (f.format.uncompressScript L g skipMagic fault s).result := fun s =>
    run_of_refines (refines_uncompress L g skipMagic f.format) (hi s)
      (uniform_checksummed f L g skipMagic fault s) B
  have hnonempty : ∀ c ∈ a, f.Fits c ∧ f.content L.snappy c ≠ some [] := by
    intro c hc
    obtain ⟨a₁, a₂, rfl⟩ := List.append_of_mem hc
    have hsplit : s = f.magic skipMagic ++ (a₁.flatMap f.bytes ++ (f.bytes c ++
        (a₂.flatMap f.bytes ++ (f.bytes ⟨f.storedType, sum ++ (l ++ m ++ t)⟩ ++ z)))) := by
      rw [hs, List.flatMap_append, List.flatMap_cons, List.append_assoc, List.append_assoc]
    exact ⟨ha c hc,
      hcontents a₁ c _ (fun d hd => ha d (List.mem_append_left _ hd)) (ha c hc) hsplit⟩
  obtain ⟨ρ, pass, r, ws, w, hguarded, hws, hw, hscript⟩ :=
    exists_guarded f L g skipMagic fault
  rw [hrun, hs, hscript] at haccept
  have hgoes : (unroll pass r (a.flatMap f.bytes ++
      (f.bytes ⟨f.storedType, sum ++ (l ++ m ++ t)⟩ ++ z))).verdict ≠ .status 1 := by
    intro hv
    simp only [Script.result, Script.after] at haccept
    rw [hv] at haccept
    cases haccept
  rw [hrun, hscript, hguarded.altered hnonempty hsum hfits hlen h4 hne hgoes, Script.result,
    Script.after]
  simp only [bytesOf_append, hws, List.nil_append, bytesOf_contents hw]

/-- The only byte of a stored chunk is changed. -/
theorem corruption_detected_literal :
    let sum := leBytes 4 (maskedCrc32c [0x61#8]).toNat
    Codec.run (.stdio 4096) (Format.framing2.uncompress ⟨literalSnappy, 0⟩ .initial true)
        ⟨Checksummed.framing2.bytes ⟨0x01#8, sum ++ [0x62#8]⟩ ++ [], false, false, false⟩ =
      ⟨some 1, []⟩ := by
  intro sum
  have hsum : sum.length = 4 := length_leBytes 4 _
  have hfits : Checksummed.framing2.Fits ⟨0x01#8, sum ++ [0x61#8]⟩ := by
    rw [Checksummed.Fits, List.length_append, hsum]
    decide
  have hcontent :
    Checksummed.framing2.content literalSnappy ⟨0x01#8, sum ++ [0x61#8]⟩ ≠ some [] := by
    rw [Checksummed.content, framedContent, if_pos rfl, List.drop_left' hsum]
    decide
  have hcontents := nonEmptyContents_of_chunks (S := literalSnappy) true
    (List.forall_mem_singleton.mpr ⟨hfits, hcontent⟩)
  exact corruption_detected .framing2 ⟨literalSnappy, 0⟩ .initial true false (.stdio 4096)
    (a := []) (l := []) (m := [0x61#8]) (n := [0x62#8]) (t := []) (z := [])
    (by decide +kernel) hcontents (by simp) hsum hfits rfl rfl (by decide) (by decide)

end Snzip
