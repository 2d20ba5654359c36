import Snzip.HadoopDetection
import Snzip.Lib.Records

set_option autoImplicit false

/-!
# Streams of the hadoop-snappy format

A block is a length and sub-blocks whose contents have that length together. The compressor writes
one sub-block for each block; the decoder takes any number of them.

* `HadoopSubBlock`, `HadoopBlock`: the shape of a stream, from what snappy makes of the data;
* `hadoopPassOf_subBlock`, `hadoopPassOf_again`: a pass of the decoder is a length or a sub-block;
* **`steps_hadoopBlocks`**, **`exists_hadoopBlocks`**: its steps are blocks, and blocks are steps;
* **`hadoopSnappy_streams`**: what it makes of any stream.
-/

namespace Snzip

open CProg

/-! ## The shape of a stream -/

/-- Snappy knows the length of `u` from `e`, and decodes `e` into a buffer of that length. -/
def Snappy.EncodesExactly (S : Snappy) (e u : Bytes) : Prop :=
  S.uncompressedLength e = some u.length ∧ S.uncompress e u.length = some u

/-- Snappy decodes `e` into a buffer of the length that it knows from `e`. -/
def Snappy.DecodesTo (S : Snappy) (e u : Bytes) : Prop :=
  ∃ n, S.uncompressedLength e = some n ∧ S.uncompress e n = some u

/-- A compressed length and the data of a content that is not empty; `D` relates the two. -/
def HadoopSubBlock (D : Bytes → Bytes → Prop) (bs u : Bytes) : Prop :=
  ∃ e, bs = beBytes 4 e.length ++ e ∧ e ≠ [] ∧ e.length < 2 ^ 32 ∧ u ≠ [] ∧ D e u

/-- A length, and sub-blocks whose contents have exactly this length together. -/
def HadoopBlock (D : Bytes → Bytes → Prop) (bs : Bytes) (b : ℕ × List Bytes) : Prop :=
  ∃ subs, bs = beBytes 4 b.1 ++ subs ∧ b.1 < 2 ^ 32 ∧ Records (HadoopSubBlock D) subs b.2 ∧
    b.2.flatten.length = b.1

/-- The contents of all sub-blocks. -/
def hadoopContents (bs : List (ℕ × List Bytes)) : List Bytes := bs.flatMap Prod.snd

theorem hadoopContents_cons (b : ℕ × List Bytes) (bs : List (ℕ × List Bytes)) :
    hadoopContents (b :: bs) = b.2 ++ hadoopContents bs := List.flatMap_cons

theorem length_hadoopContents {D : Bytes → Bytes → Prop} {s : Bytes} {bs : List (ℕ × List Bytes)}
    (h : Records (HadoopBlock D) s bs) :
    (hadoopContents bs).flatten.length = (bs.map Prod.fst).sum := by
  induction h with
  | nil => rfl
  | cons hb _ ih =>
    obtain ⟨-, -, -, -, hlen⟩ := hb
    rw [hadoopContents_cons, List.flatten_append, List.length_append, hlen, List.map_cons,
      List.sum_cons, ih]

/-! ## Passes -/

variable {S : Snappy} {fault : Bool}

/-- **A sub-block** that does not go beyond its block. -/
theorem hadoopPassOf_subBlock {n : ℕ} {b u : Bytes} (h : HadoopSubBlock S.EncodesExactly b u)
    (hle : u.length ≤ n) (rest : Bytes) :
    hadoopPassOf S fault n (b ++ rest) = .again [.fwriteOk u] (n - u.length) rest := by
  obtain ⟨e, rfl, he, hlen, hu, hl, hd⟩ := h
  have hpos := List.length_pos_iff.mpr hu
  have hwithin : S.uncompressWithin e n = some u := by
    rw [Snappy.uncompressWithin, hl]
    simp only
    rw [if_neg (Nat.not_lt.mpr hle), hd]
  rw [List.append_assoc]
  exact hadoopPassOf_again_iff.mpr
    (Or.inl ⟨Nat.lt_of_lt_of_le hpos hle, e, u, rfl, he, hlen, hwithin,
    hu, rfl, rfl⟩)

/-- **A pass that goes round again**, as it is counted in the block. -/
theorem hadoopPassOf_again {n n' : ℕ} {s rest : Bytes} {ws : List Write}
    (h : hadoopPassOf S fault n s = .again ws n' rest) :
    (∃ b u, HadoopSubBlock S.DecodesTo b u ∧ s = b ++ rest ∧ ws = [.fwriteOk u] ∧
      n = u.length + n') ∨
    n = 0 ∧ n' < 2 ^ 32 ∧ s = beBytes 4 n' ++ rest ∧ ws = [] := by
  rcases hadoopPassOf_again_iff.mp h with ⟨-, c, u, rfl, hc, hlt, hu, hne, rfl, rfl⟩ | hlength
  · obtain ⟨l, hl, hle, hdec⟩ := S.uncompressWithin_some hu
    have hul := S.uncompress_le hdec
    have hsub : HadoopSubBlock S.DecodesTo (beBytes 4 c.length ++ c) u :=
      ⟨c, rfl, hc, hlt, hne, l, hl, hdec⟩
    exact Or.inl ⟨_, u, hsub, (List.append_assoc _ _ _).symm, rfl,
      (Nat.add_sub_cancel' (hul.trans hle)).symm⟩
  · exact Or.inr hlength

/-! ## Runs -/

theorem steps_hadoopSubBlocks {b : Bytes} {us : List Bytes}
    (h : Records (HadoopSubBlock S.EncodesExactly) b us) (rest : Bytes) :
    Steps (hadoopPassOf S fault) us.flatten.length (b ++ rest) (us.map .fwriteOk) 0 rest := by
  induction h with
  | nil => exact .refl
  | @cons b u s us hb _ ih =>
    rw [List.append_assoc, List.flatten_cons, List.length_append]
    refine .head (hadoopPassOf_subBlock hb (Nat.le_add_right _ _) _) ?_
    rw [Nat.add_sub_cancel_left]
    exact ih

/-- **Blocks are read one after the other.** -/
theorem steps_hadoopBlocks {s : Bytes} {bs : List (ℕ × List Bytes)}
    (h : Records (HadoopBlock S.EncodesExactly) s bs) :
    Steps (hadoopPassOf S fault) 0 s ((hadoopContents bs).map .fwriteOk) 0 [] := by
  induction h with
  | nil => exact .refl
  | @cons b c s bs hb _ ih =>
    obtain ⟨subs, rfl, hlt, hsubs, hlen⟩ := hb
    rw [hadoopContents_cons, List.map_append, List.append_assoc]
    have hread : hadoopPassOf S fault 0 (beBytes 4 c.1 ++ (subs ++ s)) =
      .again [] c.1 (subs ++ s) :=
      hadoopPassOf_length hlt _
    exact (Steps.head hread (hlen ▸ steps_hadoopSubBlocks hsubs s)).trans ih

/-- **What has been read up to the end of a block**: first the sub-blocks that the block at hand
still had to come, then whole blocks. -/
theorem exists_hadoopBlocks {n n' : ℕ} {s t : Bytes} {ws : List Write}
    (h : Steps (hadoopPassOf S fault) n s ws n' t) (hn' : n' = 0) :
    ∃ subs us b bs, s = subs ++ (b ++ t) ∧ Records (HadoopSubBlock S.DecodesTo) subs us ∧
      us.flatten.length = n ∧ Records (HadoopBlock S.DecodesTo) b bs ∧
      ws = (us ++ hadoopContents bs).map .fwriteOk := by
  induction h with
  | refl => exact ⟨[], [], [], [], rfl, .nil, hn'.symm, .nil, rfl⟩
  | head hp _ ih =>
    obtain ⟨subs, us, b, bs, rfl, hsubs, hlen, hbs, rfl⟩ := ih hn'
    rcases hadoopPassOf_again hp with ⟨c, u, hc, rfl, rfl, rfl⟩ | ⟨rfl, hlt, rfl, rfl⟩
    · -- one more sub-block of the block at hand
      refine ⟨c ++ subs, u :: us, b, bs, (List.append_assoc _ _ _).symm, .cons hc hsubs, ?_, hbs,
        rfl⟩
      rw [List.flatten_cons, List.length_append, hlen]
    · -- the sub-blocks so far are those of one more block
      have hblock : HadoopBlock S.DecodesTo (beBytes 4 us.flatten.length ++ subs)
          (us.flatten.length, us) := ⟨subs, rfl, hlen ▸ hlt, hsubs, rfl⟩
      refine ⟨[], [], _, _, ?_, .nil, rfl, .cons hblock hbs, ?_⟩
      · rw [hlen, List.nil_append, List.append_assoc, List.append_assoc]
      · rw [List.nil_append, hadoopContents_cons]
        rfl

/-- **Any stream.** A stream of blocks, with any number of sub-blocks, is decoded to all of their
contents; and when the decoder returns 0, it has read blocks whose contents have the lengths that
stand in front of them, and it has written these contents and nothing else. -/
theorem hadoopSnappy_streams (S : Snappy) (g : Globals) (B : Buffering) (s : Bytes) :
    (∀ bs, Records (HadoopBlock S.EncodesExactly) s bs →
      Codec.run B (hadoopSnappyFormatUncompress S g false) (.opened s) =
        ⟨some 0, (hadoopContents bs).flatten⟩) ∧
    ((Codec.run B (hadoopSnappyFormatUncompress S g false) (.opened s)).status = some 0 →
      ∃ b bs left, s = b ++ left ∧ left.length < 4 ∧ Records (HadoopBlock S.DecodesTo) b bs ∧
        (Codec.run B (hadoopSnappyFormatUncompress S g false) (.opened s)).written =
          (hadoopContents bs).flatten ∧
        (Codec.run B (hadoopSnappyFormatUncompress S g false) (.opened s)).written.length =
          (bs.map Prod.fst).sum) := by
  rw [run_hadoopUnscript_opened, hadoopUnscript, if_neg Bool.false_ne_true]
  have hbytes : ∀ us : List Bytes, bytesOf (us.map .fwriteOk) = us.flatten :=
    bytesOf_map fun _ => rfl
  refine ⟨fun bs h => ?_, fun h => ?_⟩
  · have hend : hadoopPassOf S false 0 [] = .finish ⟨[], .status 0⟩ := rfl
    rw [unroll_steps (shrinks_hadoopPassOf false) (steps_hadoopBlocks h), unroll_finish hend,
      Script.after_verdict, Script.result, hbytes]
  · obtain ⟨ws, n', t, sc, hst, hf, hu⟩ := exists_steps (shrinks_hadoopPassOf (S := S) false) 0 s
    rcases hadoopPassOf_finish hf with rfl | ⟨rfl, rfl, hshort⟩
    · rw [hu, Script.after_verdict, Script.result] at h
      cases h
    obtain ⟨subs, us, b, bs, rfl, hsubs, hlen, hbs, rfl⟩ := exists_hadoopBlocks hst rfl
    -- no block was at hand at the beginning
    have hus : subs = [] ∧ us = [] := by
      cases hsubs with
      | nil => exact ⟨rfl, rfl⟩
      | cons hc _ =>
        obtain ⟨e, -, -, -, hne, -⟩ := hc
        rw [List.flatten_cons, List.length_append] at hlen
        exact absurd (List.length_pos_iff.mpr hne) (by omega)
    obtain ⟨rfl, rfl⟩ := hus
    have hwritten : (unroll (hadoopPassOf S false) 0 ([] ++ (b ++ t))).result.written =
        (hadoopContents bs).flatten := by
      rw [hu, Script.after_verdict, Script.result, List.nil_append, hbytes]
    exact ⟨b, bs, t, rfl, hshort, hbs, hwritten, by rw [hwritten, length_hadoopContents hbs]⟩

theorem hadoopSubBlock_literal {u : Bytes} (hu : u ≠ []) (h : u.length < 2 ^ 16) :
    HadoopSubBlock literalSnappy.EncodesExactly
      (beBytes 4 (literalSnappy.compress u).length ++ literalSnappy.compress u) u := by
  have hS := contract_literalSnappy
  have h32 : u.length < 2 ^ 32 := by omega
  have hle := hS.compress_le u h32
  exact ⟨_, rfl, hS.compress_ne_nil h32, by omega, hu, hS.uncompressedLength_compress u h32,
    hS.uncompress_compress u _ h32 (Nat.le_refl _)⟩

/-- A block of two bytes, in two sub-blocks. -/
def twoSubBlocks : Bytes :=
  beBytes 4 2 ++
    ((beBytes 4 3 ++ [0x01#8, 0x00#8, 0x61#8]) ++ (beBytes 4 3 ++ [0x01#8, 0x00#8, 0x62#8]))

theorem hadoopSnappy_streams_two :
    Codec.run (.stdio 4096) (hadoopSnappyFormatUncompress literalSnappy .initial false)
      (.opened twoSubBlocks) = ⟨some 0, [0x61#8, 0x62#8]⟩ := by
  have hone : ∀ b : Byte, literalSnappy.compress [b] = [0x01#8, 0x00#8, b] := fun _ => rfl
  have hsub : ∀ b : Byte, HadoopSubBlock literalSnappy.EncodesExactly
      (beBytes 4 3 ++ [0x01#8, 0x00#8, b]) [b] := by
    intro b
    have hb := hadoopSubBlock_literal (List.cons_ne_nil b []) (show 1 < 2 ^ 16 by decide)
    rwa [hone] at hb
  have hblock : HadoopBlock literalSnappy.EncodesExactly twoSubBlocks (2, [[0x61#8], [0x62#8]]) :=
    ⟨_, rfl, by decide, .cons (hsub _) (.single (hsub _)), rfl⟩
  exact (hadoopSnappy_streams literalSnappy .initial (.stdio 4096) twoSubBlocks).1 _
    (.single hblock)

end Snzip
