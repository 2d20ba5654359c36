import Snzip.Format.Comment43
import Snzip.Format.Framing
import Snzip.Format.HadoopSnappy
import Snzip.Format.SnappyInJava
import Snzip.Format.SnappyJava
import Snzip.Lib.Words

set_option autoImplicit false

/-!
# Lengths of a fixed width

All formats but snzip and raw have lengths of two, three or four bytes. Most are put together from
single bytes, those of hadoop-snappy are whole words.

* `FixedWidth`, `lengthBytes`, **`lengthBytes_eq`**: what a compressor writes for a length;
* `readDataLen`, `readShort`, `readNum`, `readField`: what a decompressor reads as a length;
  `readBlock_eq`, `readLengthAndCrc_eq_bind`, `readNum_eq`: where it does;
* `ReadsBack`, **`readsBack_iff`**: every length is read back, up to the sign of snappy-java's;
  `not_readsBack`: 2 ^ 31.
-/

namespace Snzip

open CProg

/-! ## Writing -/

/-- The formats whose lengths have a fixed width. -/
inductive FixedWidth where
  | framing2
  | framing
  | comment43
  | snappyInJava
  | snappyJava
  | hadoopSnappy
  | iwa
  deriving DecidableEq

namespace FixedWidth

/-- How many bytes the field has. -/
def width : FixedWidth → ℕ
  | framing | comment43 | snappyInJava => 2
  | framing2 | iwa => 3
  | snappyJava | hadoopSnappy => 4

end FixedWidth

/-- `putc(n >> k, outfp)` for some shifts `k`. -/
def putShifted (n : ℕ) (shifts : List ℕ) : Bytes := shifts.map fun k => byteOf (n >>> k)

/-- The word that `write_num` of hadoop-snappy writes. -/
def numWord (host : ByteOrder) (num : ℕ) : BitVec 32 := bigEndian32 host (BitVec.ofNat 32 num)

/-- What the compressor of a format writes for the length `n`. -/
def lengthBytes (host : ByteOrder) (n : ℕ) : FixedWidth → Bytes
  | .framing | .comment43 => putShifted n [0, 8]
  | .framing2 | .iwa => putShifted n [0, 8, 16]
  | .snappyInJava => putShifted n [8, 0]
  | .snappyJava => putShifted n [24, 16, 8, 0]
  | .hadoopSnappy => storeWord host (numWord host n)

theorem putShifted_two (n : ℕ) : putShifted n [0, 8] = leBytes 2 n := by
  simp [putShifted, leBytes, Nat.shiftRight_eq_div_pow]

theorem putShifted_three (n : ℕ) : putShifted n [0, 8, 16] = leBytes 3 n := by
  simp [putShifted, leBytes, Nat.shiftRight_eq_div_pow, Nat.div_div_eq_div_mul]

theorem putShifted_four (n : ℕ) : putShifted n [24, 16, 8, 0] = beBytes 4 n := by
  simp [putShifted, beBytes, leBytes, Nat.shiftRight_eq_div_pow, Nat.div_div_eq_div_mul]

theorem putShifted_short (n : ℕ) : putShifted n [8, 0] = beBytes 2 n := by
  simp [putShifted, beBytes, leBytes, Nat.shiftRight_eq_div_pow]

/-- **The fields of the compressors' scripts.** -/
theorem lengthBytes_eq (host : ByteOrder) {f : FixedWidth} {n : ℕ} (hn : n < 256 ^ f.width) :
    lengthBytes host n f =
      match f with
      | .framing | .comment43 | .framing2 | .iwa => leBytes f.width n
      | .snappyInJava | .snappyJava | .hadoopSnappy => beBytes f.width n := by
  cases f with
  | framing => exact putShifted_two n
  | comment43 => exact putShifted_two n
  | framing2 => exact putShifted_three n
  | iwa => exact putShifted_three n
  | snappyInJava => exact putShifted_short n
  | snappyJava => exact putShifted_four n
  | hadoopSnappy =>
    change storeWord host (bigEndian32 host (BitVec.ofNat 32 n)) = beBytes 4 n
    rw [storeWord_bigEndian32, BitVec.toNat_ofNat]
    exact congrArg (beBytes 4) (Nat.mod_eq_of_lt hn)

theorem writeNum_eq (host : ByteOrder) {n : ℕ} (hn : n < 2 ^ 32) :
    writeNum n = fwrite (lengthBytes host n .hadoopSnappy) := by
  rw [lengthBytes_eq host hn, writeNum]
  rfl

/-! ## Reading -/

/-- `data_len` of `read_block` in comment-43. -/
def readDataLen : Io (Option (BitVec 16)) := do
  match ← getc with
  | none => return none
  | some c₀ =>
    match ← getc with
    | none => return none
    | some c₁ => return some (c₀.setWidth 16 ||| c₁.setWidth 16 <<< 8)

/-- `length` of `snappy_in_java_uncompress`. -/
def readShort : Io (BitVec 64) := do
  let c₁ ← getc
  let c₀ ← getc
  return orChr (orChr 0#64 c₁ 8) c₀ 0

/-- `source_len` and `compressed_len` of `hadoop_snappy_format_uncompress`. -/
def readNum (host : ByteOrder) : Io (Option (BitVec 64)) := do
  match ← fread 4 with
  | none => return none
  | some n => return some ((bigEndian32 host (loadWord host n)).setWidth 64)

/-- What the decompressor of a format reads as a length, if the input goes that far. -/
def readField (host : ByteOrder) : FixedWidth → Io (Option (BitVec 64))
  | .framing => do return some (← getLength Snzip.framing.lengthBytes)
  | .framing2 => do return some (← getLength Snzip.framing2.lengthBytes)
  | .iwa => do return some (← getLength 3)
  | .comment43 => do return (← readDataLen).map fun dataLen => dataLen.setWidth 64
  | .snappyInJava => do return some (← readShort)
  | .snappyJava => do
    match ← readJavaLength 0#64 4 with
    | .error _ => return none
    | .ok compressedLength => return some compressedLength
  | .hadoopSnappy => readNum host

theorem readBlock_eq : readBlock = (do
    match ← getc with
    | none => return .eof
    | some type =>
      match ← readDataLen with
      | none => return .tooShortDataBlock
      | some dataLen => readBlockData type dataLen) := by
  funext w
  rcases hr : w.inp.rest with _ | ⟨type, _ | ⟨c₀, _ | ⟨c₁, s⟩⟩⟩ <;>
    simp [readBlock, readDataLen, InFile.getc, InFile.hitEnd, hr]

theorem readLengthAndCrc_eq_bind : readLengthAndCrc = (do
    let length ← readShort
    let d₃ ← getc
    let d₂ ← getc
    let d₁ ← getc
    let d₀ ← getc
    return (length, orChr32 (orChr32 (orChr32 (orChr32 0#32 d₃ 24) d₂ 16) d₁ 8) d₀ 0)) := by
  funext w
  simp [readLengthAndCrc, readShort]

section Read

variable {w : World} {n : ℕ} {rest : Bytes}

theorem readDataLen_eq {c₀ c₁ : Byte} (h : w.inp.rest = c₀ :: c₁ :: rest) :
    readDataLen w = .ret (some (c₀.setWidth 16 ||| c₁.setWidth 16 <<< 8))
      { w with inp := { w.inp with rest := rest } } := by
  simp [readDataLen, InFile.getc, h]

theorem readShort_eq {c₁ c₀ : Byte} (h : w.inp.rest = c₁ :: c₀ :: rest) :
    readShort w = .ret (orChr (orChr 0#64 (some c₁) 8) (some c₀) 0)
      { w with inp := { w.inp with rest := rest } } := by
  simp [readShort, InFile.getc, h]

/-- The word is the number with which the decoder of hadoop-snappy goes on. -/
theorem readNum_eq (host : ByteOrder) (h : 4 ≤ w.inp.rest.length) :
    ∃ v, readNum host w =
        .ret (some v) { w with inp := { w.inp with rest := w.inp.rest.drop 4 } } ∧
      v.toNat = beVal (w.inp.rest.take 4) := by
  refine ⟨(bigEndian32 host (loadWord host (w.inp.rest.take 4))).setWidth 64, ?_, ?_⟩
  · rw [readNum, bind_apply, fread_eq (by decide) h]
    rfl
  · have hlt := BitVec.isLt (bigEndian32 host (loadWord host (w.inp.rest.take 4)))
    rw [BitVec.toNat_setWidth, Nat.mod_eq_of_lt (by omega),
      bigEndian32_loadWord host (List.length_take_of_le h)]

end Read

/-! ## The round trip -/

/-- The length that was written is read back, with whatever follows it. -/
def ReadsBack (host : ByteOrder) (f : FixedWidth) (n : ℕ) : Prop :=
  ∀ (w : World) (rest : Bytes), w.inp.rest = lengthBytes host n f ++ rest →
    ∃ v, readField host f w = .ret (some v) { w with inp := { w.inp with rest := rest } } ∧
      v.toNat = n

section RoundTrip

variable {host : ByteOrder} {n : ℕ}

theorem readsBack_getLength {f : FixedWidth} (hk : f.width ≤ 3) (hn : n < 256 ^ f.width)
    (hbytes : lengthBytes host n f = leBytes f.width n)
    (hread : readField host f = (do return some (← getLength f.width))) : ReadsBack host f n := by
  intro w rest hw
  rw [hbytes] at hw
  have hlen := length_leBytes f.width n
  obtain ⟨v, hv, hrun⟩ := getLength_eq (w := w) hk (by rw [hw, List.length_append]; omega)
  rw [hw, List.take_left' hlen, leVal_leBytes hn] at hv
  rw [hw, List.drop_left' hlen] at hrun
  exact ⟨v, by rw [hread, bind_apply, hrun]; rfl, hv⟩

theorem readsBack_comment43 (hn : n < 256 ^ 2) : ReadsBack host .comment43 n := by
  intro w rest hw
  rw [lengthBytes, putShifted_two] at hw
  have hread := @readDataLen_eq w rest (byteOf n) (byteOf (n / 256)) hw
  refine ⟨_, by rw [readField, bind_apply, hread]; rfl, ?_⟩
  have hval : leVal [byteOf n, byteOf (n / 256)] = n := leVal_leBytes hn
  rw [BitVec.toNat_setWidth, toNat_dataLen, hval]
  omega

theorem readsBack_snappyInJava (hn : n < 256 ^ 2) : ReadsBack host .snappyInJava n := by
  intro w rest hw
  rw [lengthBytes, putShifted_short] at hw
  have hread := @readShort_eq w rest (byteOf (n / 256)) (byteOf n) hw
  refine ⟨_, by rw [readField, bind_apply, hread]; rfl, ?_⟩
  have hval : beVal [byteOf (n / 256), byteOf n] = n := beVal_beBytes hn
  rw [toNat_orChr_short, hval]

theorem readsBack_hadoopSnappy (hn : n < 256 ^ 4) : ReadsBack host .hadoopSnappy n := by
  intro w rest hw
  rw [lengthBytes_eq host hn] at hw
  change w.inp.rest = beBytes 4 n ++ rest at hw
  have hlen := length_beBytes 4 n
  obtain ⟨v, hrun, hv⟩ := readNum_eq (w := w) host (by rw [hw, List.length_append]; omega)
  rw [hw, List.take_left' hlen, beVal_beBytes hn] at hv
  rw [hw, List.drop_left' hlen] at hrun
  exact ⟨v, hrun, hv⟩

/-- **The length of snappy-java**: its first byte is shifted into the sign of an `int`. -/
theorem readsBack_snappyJava_iff (hn : n < 256 ^ 4) :
    ReadsBack host .snappyJava n ↔ n < 2 ^ 31 := by
  obtain ⟨b₀, b₁, b₂, b₃, hbytes, hfirst⟩ : ∃ b₀ b₁ b₂ b₃ : Byte,
      lengthBytes host n .snappyJava = [b₀, b₁, b₂, b₃] ∧ b₀.toNat = n / 2 ^ 24 := by
    refine ⟨_, _, _, _, rfl, ?_⟩
    rw [toNat_byteOf, Nat.shiftRight_eq_div_pow]
    omega
  have hval : beVal [b₀, b₁, b₂, b₃] = n := by
    rw [← hbytes, lengthBytes, putShifted_four, beVal_beBytes hn]
  constructor
  · intro h
    by_contra hge
    obtain ⟨v, hrun, hv⟩ :=
      h ⟨.opened [b₀, b₁, b₂, b₃], .opened (.stdio 0) none⟩ [] (by rw [hbytes]; rfl)
    rw [readField, bind_apply, readJavaLength_eq rfl, Outcome.bind_ret] at hrun
    cases hrun
    have hhuge := le_toNat_orChr_be (show 128 ≤ b₀.toNat by omega) b₁ b₂ b₃
    omega
  · intro hlt w rest hw
    rw [hbytes] at hw
    refine ⟨_, by rw [readField, bind_apply, readJavaLength_eq hw]; rfl, ?_⟩
    rw [toNat_orChr_be (by omega), hval]

/-- **Every length is read back**, but those of snappy-java only below 2 ^ 31. -/
theorem readsBack_iff {f : FixedWidth} (hn : n < 256 ^ f.width) :
    ReadsBack host f n ↔ (f = .snappyJava → n < 2 ^ 31) := by
  cases f with
  | framing2 | framing | iwa =>
    exact iff_of_true (readsBack_getLength (by decide) hn (lengthBytes_eq host hn) rfl) nofun
  | comment43 => exact iff_of_true (readsBack_comment43 hn) nofun
  | snappyInJava => exact iff_of_true (readsBack_snappyInJava hn) nofun
  | hadoopSnappy => exact iff_of_true (readsBack_hadoopSnappy hn) nofun
  | snappyJava => exact (readsBack_snappyJava_iff hn).trans ⟨fun h _ => h, fun h => h rfl⟩

/-- The largest length of three bytes. -/
theorem readsBack_max : ReadsBack .little .framing2 16777215 :=
  (readsBack_iff (by decide)).mpr nofun

/-- **The length 2 ^ 31** in snappy-java. -/
theorem not_readsBack : ¬ ReadsBack .little .snappyJava (2 ^ 31) := fun h =>
  absurd ((readsBack_snappyJava_iff (by decide)).mp h) (by decide)

end RoundTrip

end Snzip
