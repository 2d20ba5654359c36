import Snzip.Crc32.Tables
import Snzip.Lib.ByteOrder
import Snzip.Lib.Blocks

set_option autoImplicit false

/-!
# CRC-32C

The software paths of `calculate_crc32c`: byte by byte for fewer than four bytes, and otherwise the
sliced form, which takes single bytes up to a word boundary, then eight bytes at a time, then the
bytes that are left.

* `singletableCrc32c`, `crc32cSb8`, `multitableCrc32c`, `calculateCrc32c`;
* `maskedCrc32c`: the checksum that the chunk formats store.
-/

namespace Snzip

open CProg

/-- The word at the start of a buffer, on a little-endian machine. -/
def leWord (p : Bytes) : BitVec 32 := BitVec.ofNat 32 (leVal (p.take 4))

/-- The checksum byte by byte, with one table. -/
def singletableCrc32c (crc : BitVec 32) (buf : Bytes) : BitVec 32 :=
  buf.foldl (fun crc b => crc32Table.at (crc ^^^ b.setWidth 32) ^^^ (crc >>> 8)) crc

/-- One byte of the sliced form. -/
def sb8Byte (crc : BitVec 32) (b : Byte) : BitVec 32 :=
  sctpCrcTableil8O32.at (crc ^^^ b.setWidth 32) ^^^ (crc >>> 8)

/-- Eight bytes of the sliced form. -/
def sb8Slice (crc : BitVec 32) (p : Bytes) : BitVec 32 :=
  let crc := crc ^^^ leWord p
  let crc := sctpCrcTableil8O88.at crc ^^^ sctpCrcTableil8O80.at (crc >>> 8) ^^^
    sctpCrcTableil8O72.at (crc >>> 16) ^^^ sctpCrcTableil8O64.at (crc >>> 16 >>> 8)
  let w := leWord (p.drop 4)
  crc ^^^ (sctpCrcTableil8O56.at w ^^^ sctpCrcTableil8O48.at (w >>> 8)) ^^^
    sctpCrcTableil8O40.at (w >>> 16) ^^^ sctpCrcTableil8O32.at (w >>> 16 >>> 8)

/-- `crc32c_sb8_64_bit`; it is reached with `initBytes ≤ 4 ≤ p.length`. -/
def crc32cSb8 (crc : BitVec 32) (p : Bytes) (initBytes : ℕ) : BitVec 32 :=
  let runningLength := (p.length - initBytes) / 8 * 8
  let crc := (p.take initBytes).foldl sb8Byte crc
  let crc := (blocks 8 ((p.drop initBytes).take runningLength)).foldl sb8Slice crc
  (p.drop (initBytes + runningLength)).foldl sb8Byte crc

/-- `addr` is the address of the buffer. -/
def multitableCrc32c (crc : BitVec 32) (addr : ℕ) (buffer : Bytes) : BitVec 32 :=
  if buffer.length = 0 then crc
  else crc32cSb8 crc buffer (4 - addr % 4)

/-- The checksum of a buffer at this address, on a machine without the instruction. -/
def calculateCrc32c (crc : BitVec 32) (addr : ℕ) (buffer : Bytes) : BitVec 32 :=
  if buffer.length < 4 then singletableCrc32c crc buffer
  else multitableCrc32c crc addr buffer

/-- The constant of the mask. -/
def maskDelta : BitVec 32 := 0xa282ead8#32

/-- The length is converted to `unsigned int`. Every caller passes a buffer on a word boundary. -/
@[irreducible] def maskedCrc32c (buf : Bytes) : BitVec 32 :=
  let crc := ~~~ calculateCrc32c 0xffffffff#32 0 (buf.take (buf.length % 2 ^ 32))
  ((crc >>> 15) ||| (crc <<< 17)) + maskDelta

example : maskedCrc32c [] = maskDelta := by
  unfold maskedCrc32c
  rfl

end Snzip
