import Snzip.Steps
import Snzip.RoundTrip.Framing

set_option autoImplicit false

/-!
# Round trip of the comment-43 format

A compressed file is one stream: a header block, a block for every 32768 bytes, and an end-of-stream
block.

* `comment43Encode`, **`run_comment43Compress`**;
* `comment43PassOf_block`: a block takes the state machine back to `processing`;
* **`run_comment43Uncompress`**.
-/

namespace Snzip

open CProg

variable {S : Snappy}

/-- The header block. -/
def comment43Header : Bytes := 0xff#8 :: (leBytes 2 6 ++ comment43Magic)

/-- The end-of-stream block. -/
def comment43End : Bytes := [0xfe#8, 0x00#8, 0x00#8]

/-- The block of some data. -/
def comment43BlockBytes (S : Snappy) (data : Bytes) : Bytes :=
  chunkHead S 2 data ++ (chooseData S data).2

/-- A compressed file. -/
def comment43Encode (S : Snappy) (x : Bytes) : Bytes :=
  comment43Header ++ ((blocks comment43MaxRawDataLen x).flatMap (comment43BlockBytes S) ++
    comment43End)

theorem run_comment43Compress (hS : S.Contract) (blockSize : BitVec 64) (B : Buffering)
    (x : Bytes) :
    Codec.run B (comment43Compress S blockSize) (.opened x) =
      ⟨some 0, comment43Encode S x⟩ := by
  have hscript : comment43Script S false x =
      ⟨.putc (0xff#8 :: leBytes 2 6) :: .fwrite comment43Magic ::
        ((blocks comment43MaxRawDataLen x).flatMap (comment43Writes S) ++ [.putc comment43End]),
        .checked 0⟩ := rfl
  have hbuffered : ∀ w ∈ (comment43Script S false x).writes, w.Buffered := by
    rw [hscript]
    simp only [List.mem_cons, List.mem_append, List.mem_flatMap, comment43Writes,
      List.not_mem_nil, or_false]
    rintro w (rfl | rfl | ⟨d, hd, rfl | rfl⟩ | rfl)
    · trivial
    · trivial
    · trivial
    · exact chooseData_ne_nil hS (ne_nil_of_mem_blocks hd)
        (Nat.lt_of_le_of_lt (length_of_mem_blocks hd) (by decide))
    · trivial
  have hblock : (fun d => bytesOf (comment43Writes S d)) = comment43BlockBytes S := by
    funext d
    simp [comment43Writes, comment43BlockBytes, Write.bytes]
  rw [run_opened (refines_comment43Compress S blockSize).fresh (Or.inl hbuffered), hscript]
  simp [Script.result, comment43Encode, comment43Header, Write.bytes, hblock]

theorem blockAction_chooseData (hS : S.Contract) {d : Bytes} (hne : d ≠ [])
    (hd : d.length ≤ comment43MaxRawDataLen) :
    blockAction S .processing (chooseData S d).1
      (leBytes 4 (maskedCrc32c d).toNat ++ (chooseData S d).2) = .write d := by
  have h32 : d.length < 2 ^ 32 := Nat.lt_of_le_of_lt hd (by decide)
  have hmax : d.length ≤ comment43WorkLen := Nat.le_trans hd (by decide)
  have h4 : (leBytes 4 (maskedCrc32c d).toNat).length = 4 := length_leBytes _ _
  have hlen : 4 < (leBytes 4 (maskedCrc32c d).toNat ++ (chooseData S d).2).length := by
    have := List.length_pos_iff.mpr (chooseData_ne_nil hS hne h32)
    rw [List.length_append, h4]
    omega
  have hcrc := leWord_leBytes (maskedCrc32c d)
  rw [blockAction_write_iff, List.drop_left' h4]
  unfold chooseData at hlen ⊢
  cases h : S.storesRaw d with
  | true =>
    rw [h] at hlen
    exact Or.inr ⟨rfl, hlen, hcrc _, rfl⟩
  | false =>
    rw [h] at hlen
    exact Or.inl ⟨rfl, hlen, hS.uncompress_compress d _ h32 hmax, hcrc _⟩

theorem comment43BlockBytes_eq {d : Bytes} (hd : d.length ≤ comment43MaxRawDataLen) :
    comment43BlockBytes S d = (chooseData S d).1 :: (leBytes 2
        (leBytes 4 (maskedCrc32c d).toNat ++ (chooseData S d).2).length ++
          (leBytes 4 (maskedCrc32c d).toNat ++ (chooseData S d).2)) ∧
      (leBytes 4 (maskedCrc32c d).toNat ++ (chooseData S d).2).length < 256 ^ 2 := by
  have hle := length_chooseData_le S d
  have hmax : comment43MaxRawDataLen + 4 < 256 ^ 2 := by decide
  have hlen : (leBytes 4 (maskedCrc32c d).toNat ++ (chooseData S d).2).length =
      (chooseData S d).2.length + 4 := by
    rw [List.length_append, length_leBytes, Nat.add_comm]
  rw [hlen]
  exact ⟨by simp [comment43BlockBytes, chunkHead], by omega⟩

theorem comment43PassOf_split {state : StreamState} {s : Bytes} {type : Byte} {data rest : Bytes}
    (h : splitChunk 2 s = some (type, data, rest)) :
    comment43PassOf S state s = match blockAction S state type data with
      | .bad => .finish ⟨[], .status 1⟩
      | .next state => .again [] state rest
      | .write c =>
        if c = [] then .finish ⟨[], .status 1⟩ else .again [.fwriteOk c] .processing rest := by
  have hne : s ≠ [] := by
    rintro rfl
    cases h
  cases hact : blockAction S state type data <;> simp only [comment43PassOf, if_neg hne, h, hact]

/-- **A block in front of any rest.** -/
theorem comment43PassOf_block (hS : S.Contract) {d : Bytes} (hne : d ≠ [])
    (hd : d.length ≤ comment43MaxRawDataLen) (rest : Bytes) :
    comment43PassOf S .processing (comment43BlockBytes S d ++ rest) =
      .again [.fwriteOk d] .processing rest := by
  obtain ⟨hbytes, hlt⟩ := comment43BlockBytes_eq (S := S) hd
  have hsplit := splitChunk_append hlt (chooseData S d).1 rest
  rw [hbytes, List.cons_append, comment43PassOf_split hsplit, blockAction_chooseData hS hne hd]
  exact if_neg hne

theorem comment43PassOf_header (rest : Bytes) :
    comment43PassOf S .initial (comment43Header ++ rest) = .again [] .processing rest := by
  have hsplit : splitChunk 2 (comment43Header ++ rest) = some (0xff#8, comment43Magic, rest) :=
    splitChunk_append (show comment43Magic.length < 256 ^ 2 by decide) 0xff#8 rest
  exact comment43PassOf_split hsplit

theorem comment43PassOf_end (rest : Bytes) :
    comment43PassOf S .processing (comment43End ++ rest) = .again [] .endOfStream rest := by
  have hsplit : splitChunk 2 (comment43End ++ rest) = some (0xfe#8, [], rest) :=
    splitChunk_append (show ([] : Bytes).length < 256 ^ 2 by decide) 0xfe#8 rest
  exact comment43PassOf_split hsplit

theorem unroll_comment43Block (hS : S.Contract) {d : Bytes} (hne : d ≠ [])
    (hd : d.length ≤ comment43MaxRawDataLen) (rest : Bytes) :
    unroll (comment43PassOf S) .processing (comment43BlockBytes S d ++ rest) =
      (unroll (comment43PassOf S) .processing rest).after [.fwriteOk d] := by
  refine unroll_again (comment43PassOf_block hS hne hd rest) ?_
  simp only [comment43BlockBytes, chunkHead, List.cons_append, List.length_cons,
    List.length_append]
  omega

theorem unroll_comment43Blocks (hS : S.Contract) {ds : List Bytes}
    (hds : ∀ d ∈ ds, d ≠ [] ∧ d.length ≤ comment43MaxRawDataLen) (rest : Bytes) :
    unroll (comment43PassOf S) .processing (ds.flatMap (comment43BlockBytes S) ++ rest) =
      (unroll (comment43PassOf S) .processing rest).after (ds.map .fwriteOk) := by
  rw [List.map_eq_flatMap]
  exact unroll_flatMap
    (fun d hd rest => unroll_comment43Block hS (hds d hd).1 (hds d hd).2 rest) rest

theorem blocks_comment43 {x d : Bytes} (hd : d ∈ blocks comment43MaxRawDataLen x) :
    d ≠ [] ∧ d.length ≤ comment43MaxRawDataLen :=
  ⟨ne_nil_of_mem_blocks hd, length_of_mem_blocks hd⟩

theorem comment43Unscript_encode (hS : S.Contract) (x : Bytes) :
    comment43Unscript S false false (comment43Encode S x) =
      ⟨(blocks comment43MaxRawDataLen x).map .fwriteOk, .status 0⟩ := by
  have hlen : ∀ (m rest : Bytes), m ≠ [] → rest.length < (m ++ rest).length := fun m rest hm => by
    have := List.length_pos_iff.mpr hm
    rw [List.length_append]
    omega
  have hend : unroll (comment43PassOf S) .processing comment43End = ⟨[], .status 0⟩ := by
    have hpass := comment43PassOf_end (S := S) []
    have hlast : comment43PassOf S .endOfStream [] = .finish ⟨[], .status 0⟩ := rfl
    rw [List.append_nil] at hpass
    rw [unroll_again hpass (by decide), Script.after_nil, unroll_finish hlast]
  rw [comment43Unscript, if_neg (by decide), comment43Encode,
    unroll_again (comment43PassOf_header _) (hlen _ _ (List.cons_ne_nil _ _)), Script.after_nil,
    unroll_comment43Blocks hS fun d hd => blocks_comment43 hd, hend, Script.after, List.append_nil]

/-- **A compressed file comes back.** -/
theorem run_comment43Uncompress (hS : S.Contract) (B : Buffering) (x : Bytes) :
    Codec.run B (comment43Uncompress S false) (.opened (comment43Encode S x)) =
      ⟨some 0, x⟩ := by
  have hrun := run_fwriteOk (refines_comment43Uncompress S false) (comment43Unscript_encode hS x)
    (Or.inl rfl) (fun d hd => ne_nil_of_mem_blocks hd) B
  rwa [flatten_blocks (by decide)] at hrun

end Snzip
