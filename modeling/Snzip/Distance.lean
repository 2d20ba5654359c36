import Mathlib.NumberTheory.LucasLehmer
import Snzip.Corruption
import Snzip.Lib.BitErrors

set_option autoImplicit false

/-!
# Scattered bit errors

The polynomial of CRC-32C has odd weight, and a bit that is shifted comes back after `2 ^ 31 - 1`
shifts, which is a prime number and more than a chunk has bits. So up to three bits that are changed
anywhere in the payload of a stored chunk show, and every odd number of bits.

* **`crc32c_order`**: when a bit comes back;
* `bitErrors`, **`masked_bitErrors`**: the bits in which two payloads differ;
* `Guarded.refused`, `sum_mismatch_refused`: a payload that does not fit the stored checksum;
* **`bitErrors_detected`**: the decoders fail, and have written the chunks before.
-/

namespace Snzip

open CProg

/-! ## The polynomial -/

/-- **A bit comes back after `2 ^ 31 - 1` shifts.** -/
theorem crc32c_order : crcBits crc32cPoly (2 ^ 31 - 1) 1#32 = 1#32 := by
  have hpow : crcBits crc32cPoly (2 ^ 31) 1#32 = crcBit crc32cPoly 1#32 := by
    rw [← combine_columns (crcBits_xor crc32cPoly (2 ^ 31)), ← iterate_double]
    decide +kernel
  refine crcBit_injective crc32cPoly rfl ?_
  rw [← hpow]
  exact (Function.iterate_succ_apply' (crcBit crc32cPoly) (2 ^ 31 - 1) 1#32).symm

theorem prime_order : (2 ^ 31 - 1).Prime :=
  lucas_lehmer_sufficiency 31 (by norm_num) (by norm_num)

theorem parity_crc32cPoly : parity crc32cPoly = true := by decide

/-! ## The checksum -/

/-- The number of bits in which two payloads differ. -/
def bitErrors (p q : Bytes) : ℕ := differ (p.flatMap bitsOf) (q.flatMap bitsOf)

theorem length_flatMap_bitsOf (p : Bytes) : (p.flatMap bitsOf).length = 8 * p.length := by
  induction p with
  | nil => rfl
  | cons b p ih =>
    rw [List.flatMap_cons, List.length_append, ih, List.length_cons, bitsOf, List.length_map,
      List.length_range]
    omega

/-- **Bit errors show in the masked checksum**: two of them, or an odd number. -/
theorem masked_bitErrors {p q : Bytes} (hlen : p.length = q.length) (hlt : p.length < 2 ^ 28)
    (h : bitErrors p q % 2 = 1 ∨ bitErrors p q = 2) : maskedCrc32c p ≠ maskedCrc32c q := by
  intro hcrc
  rw [maskedCrc32c_eq (by omega), maskedCrc32c_eq (by omega)] at hcrc
  have hreg : bitwiseCrc32c 0xffffffff#32 p = bitwiseCrc32c 0xffffffff#32 q :=
    BitVec.not_inj.mp (maskCrc_injective hcrc)
  rw [bitwiseCrc32c, bitwiseCrc32c, ← foldl_crcFeed_bytes crc32cPoly (Nat.le_add_left 8 24),
    ← foldl_crcFeed_bytes crc32cPoly (Nat.le_add_left 8 24)] at hreg
  have hbits : (p.flatMap bitsOf).length = (q.flatMap bitsOf).length := by
    rw [length_flatMap_bitsOf, length_flatMap_bitsOf, hlen]
  rcases h with hodd | htwo
  · exact odd_bits_detected (by decide) parity_crc32cPoly hbits hodd _ hreg
  · refine two_bits_detected crc32cPoly rfl hbits htwo (fun d hpos hd => ?_) _ hreg
    rw [length_flatMap_bitsOf] at hd
    exact crcBits_ne_one crc32cPoly prime_order crc32c_order (by decide) hpos (by omega)

/-! ## The decoders -/

section Decoders

variable {S : Snappy} {f : Checksummed}

theorem Checksummed.fits_of_length {a b : Bytes} (h : a.length = b.length)
    (ha : f.Fits ⟨f.storedType, a⟩) : f.Fits ⟨f.storedType, b⟩ := by
  cases f <;> simp only [Checksummed.Fits, h] at ha ⊢ <;> exact ha

theorem Checksummed.length_lt {a : Bytes} (ha : f.Fits ⟨f.storedType, a⟩) : a.length < 2 ^ 28 := by
  cases f <;> simp only [Checksummed.Fits] at ha <;> omega

/-- A payload that does not fit the checksum that was stored with another one is refused, after the
chunks before it have been read. -/
theorem Guarded.refused {ρ : Type} {pass : ρ → Bytes → Pass ρ} {g : Option Bytes → List Write}
    (h : Guarded S f pass g) {a : List RawChunk}
    (ha : ∀ c ∈ a, f.Fits c ∧ f.content S c ≠ some []) {sum p q z : Bytes} (hsum : sum.length = 4)
    (hfits : f.Fits ⟨f.storedType, sum ++ p⟩) (hlen : p.length = q.length)
    (hne : maskedCrc32c p ≠ maskedCrc32c q) {r : ρ}
    (hgoes : (unroll pass r (a.flatMap f.bytes ++
      (f.bytes ⟨f.storedType, sum ++ p⟩ ++ z))).verdict ≠ .status 1) :
    unroll pass r (a.flatMap f.bytes ++ (f.bytes ⟨f.storedType, sum ++ q⟩ ++ z)) =
      ⟨a.flatMap fun c => g (f.content S c), .status 1⟩ := by
  have hpayload : ∀ p : Bytes, (sum ++ p).drop 4 = p := fun p => List.drop_left' hsum
  have hfield : ∀ p q : Bytes, f.sum (sum ++ p) = f.sum (sum ++ q) := by
    intro p q
    cases f <;> simp only [Checksummed.sum, leWord, List.take_left' hsum]
  have hfits' : f.Fits ⟨f.storedType, sum ++ q⟩ :=
    Checksummed.fits_of_length (by rw [List.length_append, List.length_append, hlen]) hfits
  refine unroll_altered h.shrinks (fun c hc => h.reads c (ha c hc).1 (ha c hc).2) ?_ hgoes
  rintro ⟨r₀, hread⟩ r'
  have hcrc : maskedCrc32c p = f.sum (sum ++ p) := by
    by_contra hbad
    refine hread (h.refuses _ hfits rfl ?_ r₀ z)
    rwa [hpayload]
  refine h.refuses _ hfits' rfl ?_ r' z
  rw [hpayload, hfield _ p, ← hcrc]
  exact hne.symm

/-- **A payload with another checksum is refused**: where one payload of a stored chunk has been
accepted, another one of the same length whose checksum is not the same makes the decoder fail, and
what it has written are the contents of the chunks `a` before. -/
theorem sum_mismatch_refused (f : Checksummed) (L : Library) (g : Globals) (skipMagic fault : Bool)
    (B : Buffering) {s : Bytes}
    (haccept : (Codec.run B (f.format.uncompress L g skipMagic)
      ⟨s, fault, false, false⟩).status = some 0)
    (hcontents : f.NonEmptyContents L.snappy skipMagic s) {a : List RawChunk}
    (ha : ∀ c ∈ a, f.Fits c) {sum p q z : Bytes} (hsum : sum.length = 4)
    (hfits : f.Fits ⟨f.storedType, sum ++ p⟩)
    (hs : s = f.magic skipMagic ++
      (a.flatMap f.bytes ++ (f.bytes ⟨f.storedType, sum ++ p⟩ ++ z)))
    (hlen : p.length = q.length) (hne : maskedCrc32c p ≠ maskedCrc32c q) :
    Codec.run B (f.format.uncompress L g skipMagic)
        ⟨f.magic skipMagic ++ (a.flatMap f.bytes ++ (f.bytes ⟨f.storedType, sum ++ q⟩ ++ z)),
          fault, false, false⟩ =
      ⟨some 1, (a.filterMap (f.content L.snappy)).flatten⟩ := by
  have hrun : ∀ s, Codec.run B (f.format.uncompress L g skipMagic) ⟨s, fault, false, false⟩ =
      (f.format.uncompressScript L g skipMagic fault s).result := fun s =>
    run_of_refines (refines_uncompress L g skipMagic f.format)
      ⟨fun h => Bool.noConfusion h, fun h => Bool.noConfusion h⟩
      (uniform_checksummed f L g skipMagic fault s) B
  have hnonempty : ∀ c ∈ a, f.Fits c ∧ f.content L.snappy c ≠ some [] := by
    intro c hc
    obtain ⟨a₁, a₂, rfl⟩ := List.append_of_mem hc
    have hsplit : s = f.magic skipMagic ++ (a₁.flatMap f.bytes ++ (f.bytes c ++
        (a₂.flatMap f.bytes ++ (f.bytes ⟨f.storedType, sum ++ p⟩ ++ z)))) := by
      rw [hs, List.flatMap_append, List.flatMap_cons, List.append_assoc, List.append_assoc]
    exact ⟨ha c hc,
      hcontents a₁ c _ (fun d hd => ha d (List.mem_append_left _ hd)) (ha c hc) hsplit⟩
  obtain ⟨ρ, pass, r, ws, w, hguarded, hws, hw, hscript⟩ :=
    exists_guarded f L g skipMagic fault
  rw [hrun, hs, hscript] at haccept
  have hgoes : (unroll pass r (a.flatMap f.bytes ++
      (f.bytes ⟨f.storedType, sum ++ p⟩ ++ z))).verdict ≠ .status 1 := by
    intro hv
    simp only [Script.result, Script.after] at haccept
    rw [hv] at haccept
    cases haccept
  rw [hrun, hscript, hguarded.refused hnonempty hsum hfits hlen hne hgoes, Script.result,
    Script.after]
  simp only [bytesOf_append, hws, List.nil_append, bytesOf_contents hw]

end Decoders

/-- **Scattered bit errors are detected.** In a stream that the decoder accepts and whose data
chunks have contents that are not empty, `p` is the payload of a stored data chunk, behind the
chunks `a`. If one, two or three bits of it are changed, wherever they are, or any odd number, the
decoder fails, and what it has written are the contents of the chunks `a`. -/
theorem bitErrors_detected (f : Checksummed) (L : Library) (g : Globals) (skipMagic fault : Bool)
    (B : Buffering) {s : Bytes}
    (haccept : (Codec.run B (f.format.uncompress L g skipMagic)
      ⟨s, fault, false, false⟩).status = some 0)
    (hcontents : f.NonEmptyContents L.snappy skipMagic s) {a : List RawChunk}
    (ha : ∀ c ∈ a, f.Fits c) {sum p q z : Bytes} (hsum : sum.length = 4)
    (hfits : f.Fits ⟨f.storedType, sum ++ p⟩)
    (hs : s = f.magic skipMagic ++
      (a.flatMap f.bytes ++ (f.bytes ⟨f.storedType, sum ++ p⟩ ++ z)))
    (hlen : p.length = q.length) (hbits : bitErrors p q % 2 = 1 ∨ bitErrors p q = 2) :
    Codec.run B (f.format.uncompress L g skipMagic)
        ⟨f.magic skipMagic ++ (a.flatMap f.bytes ++ (f.bytes ⟨f.storedType, sum ++ q⟩ ++ z)),
          fault, false, false⟩ =
      ⟨some 1, (a.filterMap (f.content L.snappy)).flatten⟩ := by
  refine sum_mismatch_refused f L g skipMagic fault B haccept hcontents ha hsum hfits hs hlen
    (masked_bitErrors hlen ?_ hbits)
  have hdata := Checksummed.length_lt hfits
  rw [List.length_append] at hdata
  omega

/-- The lowest bits of the first byte and of the sixth one. -/
theorem bitErrors_detected_apart :
    let sum := leBytes 4 (maskedCrc32c [0x61#8, 0x61#8, 0x61#8, 0x61#8, 0x61#8, 0x61#8]).toNat
    Codec.run (.stdio 4096) (Format.framing2.uncompress ⟨literalSnappy, 0⟩ .initial true)
        ⟨Checksummed.framing2.bytes
          ⟨0x01#8, sum ++ [0x60#8, 0x61#8, 0x61#8, 0x61#8, 0x61#8, 0x60#8]⟩ ++ [], false, false,
          false⟩ =
      ⟨some 1, []⟩ := by
  intro sum
  have hsum : sum.length = 4 := length_leBytes 4 _
  have hfits : Checksummed.framing2.Fits
      ⟨0x01#8, sum ++ [0x61#8, 0x61#8, 0x61#8, 0x61#8, 0x61#8, 0x61#8]⟩ := by
    rw [Checksummed.Fits, List.length_append, hsum]
    decide
  have hcontent : Checksummed.framing2.content literalSnappy
      ⟨0x01#8, sum ++ [0x61#8, 0x61#8, 0x61#8, 0x61#8, 0x61#8, 0x61#8]⟩ ≠ some [] := by
    rw [Checksummed.content, framedContent, if_pos rfl, List.drop_left' hsum]
    decide
  have hcontents := nonEmptyContents_of_chunks (S := literalSnappy) true
    (List.forall_mem_singleton.mpr ⟨hfits, hcontent⟩)
  exact bitErrors_detected .framing2 ⟨literalSnappy, 0⟩ .initial true false (.stdio 4096)
    (a := []) (z := [])
    (by decide +kernel) hcontents (by simp) hsum hfits rfl rfl (Or.inr (by decide))

end Snzip
