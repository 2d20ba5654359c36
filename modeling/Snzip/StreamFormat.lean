import Snzip.Format.EmptyContent
import Snzip.Format.Snz
import Snzip.Format.HadoopSnappy
import Snzip.Format.SnappyJava
import Snzip.Format.SnappyInJava
import Snzip.Format.Comment43
import Snzip.Format.Raw

set_option autoImplicit false

/-!
# The table of formats

`stream_formats` of `snzip.c`: every format with its name, its suffix and its two codecs. Several
formats share a suffix, and a search for one finds the first of them.

* `Format`, `streamFormats`, `findStreamFormatByName`, `findStreamFormatBySuffix`;
* `Format.compress`, `Format.uncompress`, with their scripts;
* **`refines_compress`**, **`refines_uncompress`**: every codec plays its script.
-/

namespace Snzip

open CProg

/-- A string of C, as its characters without the final NUL. -/
abbrev Name : Type := List Char

/-- A `stream_format_t`. -/
inductive Format where
  | framing2
  | hadoopSnappy
  | raw
  | iwa
  | framing
  | snzip
  | snappyJava
  | snappyInJava
  | comment43
  deriving DecidableEq

namespace Format

/-- The `name` of a `stream_format_t`. -/
def name : Format → Name
  | framing2 => ['f', 'r', 'a', 'm', 'i', 'n', 'g', '2']
  | hadoopSnappy => ['h', 'a', 'd', 'o', 'o', 'p', '-', 's', 'n', 'a', 'p', 'p', 'y']
  | raw => ['r', 'a', 'w']
  | iwa => ['i', 'w', 'a']
  | framing => ['f', 'r', 'a', 'm', 'i', 'n', 'g']
  | snzip => ['s', 'n', 'z', 'i', 'p']
  | snappyJava => ['s', 'n', 'a', 'p', 'p', 'y', '-', 'j', 'a', 'v', 'a']
  | snappyInJava => ['s', 'n', 'a', 'p', 'p', 'y', '-', 'i', 'n', '-', 'j', 'a', 'v', 'a']
  | comment43 => ['c', 'o', 'm', 'm', 'e', 'n', 't', '-', '4', '3']

/-- Its `suffix`. -/
def suffix : Format → Name
  | framing2 => ['s', 'z']
  | hadoopSnappy => ['s', 'n', 'a', 'p', 'p', 'y']
  | raw => ['r', 'a', 'w']
  | iwa => ['i', 'w', 'a']
  | framing => ['s', 'z']
  | snzip => ['s', 'n', 'z']
  | snappyJava => ['s', 'n', 'a', 'p', 'p', 'y']
  | snappyInJava => ['s', 'n', 'a', 'p', 'p', 'y']
  | comment43 => ['s', 'n', 'a', 'p', 'p', 'y']

end Format

/-- `stream_formats`, built with `SUPPORT_RAW_FORMAT`. -/
def streamFormats : List Format :=
  [.framing2, .hadoopSnappy, .raw, .iwa, .framing, .snzip, .snappyJava, .snappyInJava, .comment43]

/-- `find_stream_format_by_name`. -/
def findStreamFormatByName (name : Name) : Option Format :=
  streamFormats.find? fun f => f.name = name

/-- `find_stream_format_by_suffix`. -/
def findStreamFormatBySuffix (suffix : Name) : Option Format :=
  streamFormats.find? fun f => f.suffix = suffix

theorem mem_streamFormats (f : Format) : f ∈ streamFormats := by cases f <;> decide

/-- **The names tell the formats apart.** -/
theorem findStreamFormatByName_name (f : Format) : findStreamFormatByName f.name = some f := by
  cases f <;> decide

theorem findStreamFormatBySuffix_eq_none {suffix : Name} :
    findStreamFormatBySuffix suffix = none ↔ ∀ f : Format, f.suffix ≠ suffix := by
  simp [findStreamFormatBySuffix, mem_streamFormats]

theorem findStreamFormatBySuffix_suffix (f : Format) :
    ∃ f', findStreamFormatBySuffix f.suffix = some f' ∧ f'.suffix = f.suffix := by
  cases hf : findStreamFormatBySuffix f.suffix with
  | none => exact absurd rfl (findStreamFormatBySuffix_eq_none.mp hf f)
  | some f' => exact ⟨f', rfl, by simpa using List.find?_some hf⟩

theorem Format.dot_not_mem_suffix (f : Format) : '.' ∉ f.suffix := by cases f <;> decide

/-! ## Codecs -/

/-- What the codecs take from their surroundings: snappy, and how many requests a call of it on a
`Source` and a `Sink` may make. -/
structure Library where
  snappy : Snappy
  fuel : ℕ

variable (L : Library) (g : Globals)

/-- `fmt->compress`, on a file for which `fstat` reports `stSize`. -/
def Format.compress (stSize : Option (BitVec 64)) (blockSize : BitVec 64) : Format → Io ℕ
  | framing2 => framingFormatCompress Snzip.framing2 L.snappy blockSize
  | hadoopSnappy => hadoopSnappyFormatCompress L.snappy blockSize
  | raw => rawCompress L.snappy L.fuel g stSize blockSize
  | iwa => iwaCompress L.snappy blockSize
  | framing => framingFormatCompress Snzip.framing L.snappy blockSize
  | snzip => snzipCompress L.snappy blockSize
  | snappyJava => snappyJavaCompress L.snappy blockSize
  | snappyInJava => snappyInJavaCompress L.snappy blockSize
  | comment43 => comment43Compress L.snappy blockSize

/-- `fmt->uncompress`. -/
def Format.uncompress (skipMagic : Bool) : Format → Io ℕ
  | framing2 => framingFormatUncompress Snzip.framing2 L.snappy skipMagic
  | hadoopSnappy => hadoopSnappyFormatUncompress L.snappy g skipMagic
  | raw => rawUncompress L.snappy L.fuel skipMagic
  | iwa => iwaUncompress L.snappy skipMagic
  | framing => framingFormatUncompress Snzip.framing L.snappy skipMagic
  | snzip => snzipUncompress L.snappy g skipMagic
  | snappyJava => snappyJavaUncompress L.snappy skipMagic
  | snappyInJava => snappyInJavaUncompress L.snappy skipMagic
  | comment43 => comment43Uncompress L.snappy skipMagic

/-- What the compressor of a format does with a file. -/
def Format.compressScript (stSize : Option (BitVec 64)) (blockSize : BitVec 64) :
    Format → Bool → Bytes → Script
  | framing2 => framingScript Snzip.framing2 L.snappy
  | hadoopSnappy => hadoopScript L.snappy blockSize
  | raw => rawCompressScript L.snappy L.fuel g stSize blockSize
  | iwa => iwaScript L.snappy
  | framing => framingScript Snzip.framing L.snappy
  | snzip => snzScript L.snappy blockSize
  | snappyJava => snappyJavaScript L.snappy blockSize
  | snappyInJava => snappyInJavaScript L.snappy blockSize
  | comment43 => comment43Script L.snappy

/-- What the decompressor of a format does with a stream. -/
def Format.uncompressScript (skipMagic : Bool) : Format → Bool → Bytes → Script
  | framing2 => framingUnscript Snzip.framing2 L.snappy skipMagic
  | hadoopSnappy => hadoopUnscript L.snappy g skipMagic
  | raw => rawUncompressScript L.snappy L.fuel skipMagic
  | iwa => iwaUnscript L.snappy
  | framing => framingUnscript Snzip.framing L.snappy skipMagic
  | snzip => snzUnscript L.snappy g skipMagic
  | snappyJava => snappyJavaUnscript L.snappy skipMagic
  | snappyInJava => snappyInJavaUnscript L.snappy skipMagic
  | comment43 => comment43Unscript L.snappy skipMagic

/-- **Every compressor plays its script.** -/
theorem refines_compress (stSize : Option (BitVec 64)) (blockSize : BitVec 64) (f : Format) :
    RefinesFresh (f.compress L g stSize blockSize) (f.compressScript L g stSize blockSize) := by
  cases f with
  | framing2 => exact (refines_framingFormatCompress Snzip.framing2 L.snappy blockSize).fresh
  | hadoopSnappy => exact refines_hadoopSnappyFormatCompress L.snappy blockSize
  | raw => exact (refines_rawCompress L.snappy L.fuel g stSize blockSize).fresh
  | iwa => exact (refines_iwaCompress L.snappy blockSize).fresh
  | framing => exact (refines_framingFormatCompress Snzip.framing L.snappy blockSize).fresh
  | snzip => exact (refines_snzipCompress L.snappy blockSize).fresh
  | snappyJava => exact (refines_snappyJavaCompress L.snappy blockSize).fresh
  | snappyInJava => exact (refines_snappyInJavaCompress L.snappy blockSize).fresh
  | comment43 => exact (refines_comment43Compress L.snappy blockSize).fresh

/-- **Every decompressor plays its script.** -/
theorem refines_uncompress (skipMagic : Bool) (f : Format) :
    Refines (f.uncompress L g skipMagic) (f.uncompressScript L g skipMagic) := by
  cases f with
  | framing2 => exact refines_framingFormatUncompress Snzip.framing2 L.snappy skipMagic
  | hadoopSnappy => exact refines_hadoopSnappyFormatUncompress L.snappy g skipMagic
  | raw => exact refines_rawUncompress L.snappy L.fuel skipMagic
  | iwa => exact refines_iwaUncompress L.snappy skipMagic
  | framing => exact refines_framingFormatUncompress Snzip.framing L.snappy skipMagic
  | snzip => exact refines_snzipUncompress L.snappy g skipMagic
  | snappyJava => exact refines_snappyJavaUncompress L.snappy skipMagic
  | snappyInJava => exact refines_snappyInJavaUncompress L.snappy skipMagic
  | comment43 => exact refines_comment43Uncompress L.snappy skipMagic

end Snzip
