import Snzip.Lib.ByteOrder

set_option autoImplicit false

/-!
# The snappy library

snzip calls snappy through its C interface (`snappy_compress`, `snappy_uncompress`,
`snappy_uncompressed_length`) and, for the raw format, through `snappy::Compress` and
`snappy::Uncompress` on a `Source` and a `Sink`. Both are parameters here.

* `Snappy`: the functions, with the bounds their types and buffers give them;
* `Snappy.Contract`: the round trip and the length bound that the compressors rely on;
* `literalSnappy`: a snappy that stores every block as one literal, **`contract_literalSnappy`**.
-/

namespace Snzip

open CProg

/-- What a `snappy::Source` or a `snappy::Sink` is asked to do, or the result of the call. -/
inductive Request where
  | available
  | peek
  | skip (n : ℕ)
  | append (bs : Bytes)
  | done (ok : Bool)

/-- The answer to a request. -/
inductive Reply where
  | size (n : BitVec 64)
  | region (bs : Bytes)
  | unit

/-- A call of `snappy::Compress` or `snappy::Uncompress`: its next request after the answers so
far. -/
abbrev Client : Type := List Reply → Request

/-- The snappy library. `uncompress c n` decodes `c` into a buffer of `n` bytes. -/
structure Snappy where
  compress : Bytes → Bytes
  uncompress : Bytes → ℕ → Option Bytes
  uncompressedLength : Bytes → Option ℕ
  compressStream : Client
  uncompressStream : Client
  uncompress_le : ∀ {c n u}, uncompress c n = some u → u.length ≤ n
  uncompressedLength_lt : ∀ {c n}, uncompressedLength c = some n → n < 2 ^ 32

/-- `snappy_uncompressed_length`, its check against the buffer, and `snappy_uncompress`. -/
def Snappy.uncompressWithin (S : Snappy) (c : Bytes) (uclen : ℕ) : Option Bytes :=
  match S.uncompressedLength c with
  | none => none
  | some uncompressedLength =>
    if uncompressedLength > uclen then none else S.uncompress c uncompressedLength

/-- `snappy_max_compressed_length`. -/
def snappyMaxCompressedLength (n : ℕ) : ℕ := (32 + n + n / 6) % 2 ^ 64

/-- Whether compressing a block saves less than an eighth, so that it is stored as it is. -/
def Snappy.storesRaw (S : Snappy) (data : Bytes) : Bool :=
  decide ((S.compress data).length ≥ data.length - data.length / 8)

/-- What the compressors rely on, for blocks whose length fits snappy's 32-bit length field. -/
structure Snappy.Contract (S : Snappy) : Prop where
  uncompress_compress : ∀ b n, b.length < 2 ^ 32 → b.length ≤ n →
    S.uncompress (S.compress b) n = some b
  uncompressedLength_compress : ∀ b, b.length < 2 ^ 32 →
    S.uncompressedLength (S.compress b) = some b.length
  compress_pos : ∀ b, b.length < 2 ^ 32 → 1 ≤ (S.compress b).length
  compress_le : ∀ b, b.length < 2 ^ 32 → (S.compress b).length ≤ 32 + b.length + b.length / 6

theorem Snappy.uncompressWithin_some {S : Snappy} {c u : Bytes} {uclen : ℕ}
    (h : S.uncompressWithin c uclen = some u) :
    ∃ n, S.uncompressedLength c = some n ∧ n ≤ uclen ∧ S.uncompress c n = some u := by
  unfold Snappy.uncompressWithin at h
  split at h
  · cases h
  next n hn =>
  split at h
  · cases h
  · exact ⟨n, hn, by omega, h⟩

theorem Snappy.uncompressWithin_lt {S : Snappy} {c u : Bytes} {uclen : ℕ}
    (h : S.uncompressWithin c uclen = some u) : u.length < 2 ^ 32 := by
  obtain ⟨n, hn, -, hu⟩ := S.uncompressWithin_some h
  exact Nat.lt_of_le_of_lt (S.uncompress_le hu) (S.uncompressedLength_lt hn)

theorem Snappy.Contract.uncompressWithin_compress {S : Snappy} (hS : S.Contract) {b : Bytes}
    {uclen : ℕ} (hb : b.length < 2 ^ 32) (h : b.length ≤ uclen) :
    S.uncompressWithin (S.compress b) uclen = some b := by
  rw [Snappy.uncompressWithin, hS.uncompressedLength_compress b hb]
  simp only [gt_iff_lt, Nat.not_lt.mpr h, if_false]
  exact hS.uncompress_compress b _ hb (Nat.le_refl _)

theorem Snappy.Contract.compress_ne_nil {S : Snappy} (hS : S.Contract) {b : Bytes}
    (h : b.length < 2 ^ 32) : S.compress b ≠ [] :=
  List.length_pos_iff.mp (hS.compress_pos b h)

theorem snappyMaxCompressedLength_eq {n : ℕ} (h : n < 2 ^ 63) :
    snappyMaxCompressedLength n = 32 + n + n / 6 := by
  unfold snappyMaxCompressedLength
  omega

/-! ## Literals only -/

/-- One literal: a tag with the length, then the bytes. -/
def literal (b : Bytes) : Bytes :=
  if b = [] then []
  else if b.length ≤ 60 then byteOf (4 * (b.length - 1)) :: b
  else byteOf 252 :: (leBytes 4 (b.length - 1) ++ b)

/-- Read data that consist of at most one literal. -/
def readLiteral : Bytes → Option Bytes
  | [] => some []
  | t :: r =>
    if t.toNat % 4 = 0 ∧ t.toNat / 4 + 1 = r.length ∧ t.toNat < 240 then some r
    else if t.toNat = 252 ∧ leVal (r.take 4) + 1 = (r.drop 4).length then some (r.drop 4)
    else none

theorem readLiteral_literal {b : Bytes} (h : b.length < 2 ^ 32) :
    readLiteral (literal b) = some b := by
  have hpos : b ≠ [] → 0 < b.length := List.length_pos_iff.mpr
  unfold literal
  split
  · next hb => rw [hb]; rfl
  split
  · next hb hs =>
    have := hpos hb
    have ht : (byteOf (4 * (b.length - 1))).toNat = 4 * (b.length - 1) := by
      rw [toNat_byteOf]; omega
    rw [readLiteral, ht, if_pos ⟨by omega, by omega, by omega⟩]
  · next hb hs =>
    have := hpos hb
    have h4 : (leBytes 4 (b.length - 1)).length = 4 := length_leBytes _ _
    have htake : (leBytes 4 (b.length - 1) ++ b).take 4 = leBytes 4 (b.length - 1) :=
      List.take_left' h4
    have hdrop : (leBytes 4 (b.length - 1) ++ b).drop 4 = b := List.drop_left' h4
    rw [readLiteral, if_neg (by rintro ⟨-, -, h0⟩; exact absurd h0 (by decide)), htake, hdrop,
      leVal_leBytes (by omega), if_pos ⟨by decide, by omega⟩]

theorem length_literal_le (b : Bytes) : (literal b).length ≤ b.length + 5 := by
  unfold literal
  split
  · exact Nat.zero_le _
  split
  · rw [List.length_cons]; omega
  · rw [List.length_cons, List.length_append, length_leBytes]; omega

/-- The bytes a client has been shown. -/
def shown (h : List Reply) : Bytes :=
  h.flatMap fun r => match r with
    | .region bs => bs
    | _ => []

/-- A client that asks for the size, then peeks and skips until it has seen that much, and then
passes `f` of it to the sink. -/
def gatherStream (f : Bytes → Option Bytes) : Client
  | [] => .available
  | .size n :: h =>
    match h.getLast? with
    | some (.region bs) => .skip (min bs.length (n.toNat - ((shown h).length - bs.length)))
    | _ =>
      if (shown h).length < n.toNat then .peek
      else match f ((shown h).take n.toNat) with
        | some c => if h.length % 2 = 0 then .append c else .done true
        | none => .done false
  | _ :: _ => .done false

/-- A snappy that stores every block as one literal. -/
def literalSnappy : Snappy where
  compress b := varint 5 b.length ++ literal b
  uncompress c n :=
    match readVarint 5 c with
    | some (m, r) => (readLiteral r).filter fun u => u.length = m && m ≤ n
    | none => none
  uncompressedLength c :=
    match readVarint 5 c with
    | some (m, _) => if m < 2 ^ 32 then some m else none
    | none => none
  compressStream := gatherStream fun b => some (varint 5 b.length ++ literal b)
  uncompressStream := gatherStream fun c => (readVarint 5 c).bind fun p => readLiteral p.2
  uncompress_le := by
    intro c n u h
    split at h
    · simp only [Option.filter_eq_some_iff, Bool.and_eq_true, decide_eq_true_eq] at h
      omega
    · cases h
  uncompressedLength_lt := by
    intro c n h
    split at h
    · split at h
      · simp only [Option.some.injEq] at h; omega
      · cases h
    · cases h

/-- **Storing blocks as literals satisfies the contract.** -/
theorem contract_literalSnappy : literalSnappy.Contract where
  uncompress_compress b n hb hn := by
    have hr := readVarint_varint (k := 4) (show b.length < 128 ^ 5 by omega) (literal b)
    simp only [literalSnappy, hr, readLiteral_literal hb]
    simp [Option.filter, hn]
  uncompressedLength_compress b hb := by
    have hr := readVarint_varint (k := 4) (show b.length < 128 ^ 5 by omega) (literal b)
    simp only [literalSnappy, hr, if_pos hb]
  compress_pos b _ := List.length_pos_iff.mpr fun h =>
    varint_ne_nil 4 b.length (List.append_eq_nil_iff.mp h).1
  compress_le b _ := by
    have h₁ := length_varint_le 5 b.length
    have h₂ := length_literal_le b
    simp only [literalSnappy, List.length_append]
    omega

end Snzip
