import Snzip.Header

set_option autoImplicit false

/-!
# A header that has been read already

A magic is checked in two places: by `find_stream_format_by_file_header`, and by the decompressor
itself unless it is called with `skip_magic`.

* `Tells.isPrefix`: a format is told by bytes of the stream, never by the `0xff` of an `EOF`;
* **`uncompressScript_skipMagic`**: after the header the decompressor goes on as if it had read it;
* **`findStreamFormatByFileHeader_skipMagic`**: the same for runs.
-/

namespace Snzip

open CProg

section Prefix

variable {s : Bytes}

theorem Tells.lt_length {f : Format} {m : Bytes} (h : Tells s f) (hm : f.magic = some m) :
    m.length ≤ s.length := by
  have hlast : ∀ {n : ℕ} {b : Byte}, byteAt s n = b → b ≠ 0xff#8 → n + 1 ≤ s.length :=
    fun hb hne => lt_length_of_byteAt (hb ▸ hne)
  cases f <;> simp only [Format.magic, Option.some.injEq, reduceCtorEq] at hm <;> subst hm
  · rw [tells_framing2] at h
    exact hlast h.2.2.2.2.2.2.2.2.2 (by decide)
  · rw [tells_framing] at h
    exact hlast h.2.2.2.2.2.2.2.2 (by decide)
  · rw [tells_snzip] at h
    exact hlast h.2.2.2.1 (by decide)
  · rw [tells_snappyJava] at h
    exact hlast h.2.2.2.2.2.2.2 (by decide)
  · rw [tells_snappyInJava] at h
    exact hlast h.2.2.2.2.2.2 (by decide)
  · rw [tells_comment43] at h
    exact hlast h.2.2.2.2.2.2.2.2 (by decide)

theorem Tells.isPrefix {f : Format} {m : Bytes} (h : Tells s f) (hm : f.magic = some m) :
    m <+: s := by
  have hlen := h.lt_length hm
  obtain ⟨m', hm', hs, -⟩ := h
  rw [hm] at hm'
  cases hm'
  rw [slice_eq_take hlen] at hs
  exact List.prefix_iff_eq_take.mpr hs.symm

theorem tells_of_prefix {f : Format} {m : Bytes} (h : m <+: s) (hm : f.magic = some m)
    (h4 : f = .snzip → byteAt s 4 ≠ 0x00#8) : Tells s f := by
  refine ⟨m, hm, ?_, h4⟩
  rw [slice_eq_take h.length_le]
  exact (List.prefix_iff_eq_take.mp h).symm

end Prefix

variable (L : Library) (g g' : Globals)

section Script

variable {s : Bytes}

theorem framingUnscript_skipMagic {F : Framing} (S : Snappy) (fault : Bool)
    (h : F.streamHeader <+: s) :
    framingUnscript F S true fault (s.drop F.streamHeader.length) =
      framingUnscript F S false fault s := by
  simp [framingUnscript, ← List.prefix_iff_eq_take.mp h]

/-- The header of the first comment-43 stream takes the state machine to `processing`. -/
theorem comment43Unscript_skipMagic (S : Snappy) (fault : Bool)
    (h : 0xff#8 :: (leBytes 2 6 ++ comment43Magic) <+: s) :
    comment43Unscript S true fault (s.drop 9) = comment43Unscript S false fault s := by
  obtain ⟨rest, rfl⟩ := h
  have hsplit : splitChunk 2 (0xff#8 :: (leBytes 2 6 ++ comment43Magic) ++ rest) =
      some (0xff#8, comment43Magic, rest) :=
    splitChunk_append (show comment43Magic.length < 256 ^ 2 by decide) 0xff#8 rest
  have hpass : comment43PassOf S .initial (0xff#8 :: (leBytes 2 6 ++ comment43Magic) ++ rest) =
      .again [] .processing rest := by
    rw [comment43PassOf, if_neg (by simp), hsplit]
    rfl
  rw [comment43Unscript, comment43Unscript, if_pos rfl, if_neg (by decide),
    unroll_again hpass (length_splitChunk hsplit), Script.after_nil]
  rfl

theorem snzUnscript_skipMagic (S : Snappy) (fault : Bool) (h : snzMagic ++ [snzFileVersion] <+: s)
    (hg : g'.snzipFormatBlockSize = (byteAt s 4).setWidth 32) :
    snzUnscript S g' true fault (s.drop 5) = snzUnscript S g false fault s := by
  obtain ⟨rest, rfl⟩ := h
  have hb : g'.snzipFormatBlockSize.setWidth 8 =
    byteAt (snzMagic ++ [snzFileVersion] ++ rest) 4 := by
    rw [hg]
    simp
  rw [snzUnscript, snzUnscript, takeSnzHeader, takeSnzHeader, if_pos rfl, if_neg (by decide), hb]
  cases rest with
  | nil => rfl
  | cons b rest => rfl

theorem takeHeader_append {α : Type} (m : Bytes) (k : ℕ) (check : Bytes → Option α)
    (rest : Bytes) : takeHeader (m.length + k) check (m ++ rest) =
      takeHeader k (fun header => check (m ++ header)) rest := by
  unfold takeHeader
  simp only [List.length_append, Nat.add_lt_add_iff_left, List.take_length_add_append,
    List.drop_length_add_append]

theorem snappyJavaUnscript_skipMagic (S : Snappy) (fault : Bool) (h : snappyJavaMagic <+: s) :
    snappyJavaUnscript S true fault (s.drop 8) = snappyJavaUnscript S false fault s := by
  obtain ⟨rest, rfl⟩ := h
  have hcheck : (fun header => checkSnappyJavaHeader (snappyJavaMagic ++ header)) =
      checkVersions := funext fun header => by simp [checkSnappyJavaHeader, snappyJavaMagic]
  have htake : takeSnappyJavaHeader true rest =
      takeSnappyJavaHeader false (snappyJavaMagic ++ rest) := by
    have := takeHeader_append snappyJavaMagic 8 checkSnappyJavaHeader rest
    rw [hcheck] at this
    exact this.symm
  rw [snappyJavaUnscript, snappyJavaUnscript, ← htake]
  rfl

theorem snappyInJavaUnscript_skipMagic (S : Snappy) (fault : Bool) (h : snappyInJavaMagic <+: s) :
    snappyInJavaUnscript S true fault (s.drop 7) = snappyInJavaUnscript S false fault s := by
  obtain ⟨rest, rfl⟩ := h
  have htake : takeSnappyInJavaHeader true rest =
      takeSnappyInJavaHeader false (snappyInJavaMagic ++ rest) := by
    simp [takeSnappyInJavaHeader, takeHeader, checkSnappyInJavaHeader, snappyInJavaMagic]
  rw [snappyInJavaUnscript, snappyInJavaUnscript, ← htake]
  rfl

/-- **After the header the decompressor goes on as if it had read it itself.** -/
theorem uncompressScript_skipMagic {f : Format} (h : Tells s f)
    (hg : f = .snzip → g'.snzipFormatBlockSize = (byteAt s 4).setWidth 32) (fault : Bool) :
    f.uncompressScript L g' true fault (s.drop f.headerLength) =
      f.uncompressScript L g false fault s := by
  cases f with
  | framing2 =>
    exact framingUnscript_skipMagic (F := framing2) L.snappy fault (Tells.isPrefix h rfl)
  | framing => exact framingUnscript_skipMagic (F := framing) L.snappy fault (Tells.isPrefix h rfl)
  | snzip => exact snzUnscript_skipMagic g g' L.snappy fault (Tells.isPrefix h rfl) (hg rfl)
  | snappyJava => exact snappyJavaUnscript_skipMagic L.snappy fault (Tells.isPrefix h rfl)
  | snappyInJava => exact snappyInJavaUnscript_skipMagic L.snappy fault (Tells.isPrefix h rfl)
  | comment43 => exact comment43Unscript_skipMagic L.snappy fault (Tells.isPrefix h rfl)
  | hadoopSnappy => exact absurd h not_tells_hadoopSnappy
  | raw => exact absurd h not_tells_raw
  | iwa => exact absurd h not_tells_iwa

end Script

/-- A run after the header, on the stream that the search for it has left behind. -/
theorem run_skipMagic {i : InFile} (hi : i.Ok) {f : Format} (h : Tells i.rest f)
    (hg : f = .snzip → g'.snzipFormatBlockSize = (byteAt i.rest 4).setWidth 32) (B : Buffering) :
    Codec.run B (f.uncompress L g' true) (InFile.next^[f.headerLength] i) =
      Codec.run B (f.uncompress L g false) i := by
  have h₁ := refines_uncompress L g' true f
    ⟨InFile.next^[f.headerLength] i, OutFile.opened B none⟩ (ok_iterate_next _ hi)
  have h₂ := refines_uncompress L g false f ⟨i, OutFile.opened B none⟩ hi
  simp only [rest_iterate_next, fault_iterate_next] at h₁
  rw [uncompressScript_skipMagic L g g' h hg] at h₁
  rw [Codec.run, Codec.run, h₁, h₂]

/-- **A format that is told is found**, and decoding goes on from there. -/
theorem found_of_tells {s : Bytes} {f : Format} (h : Tells s f) (B : Buffering) :
    ∃ p, findStreamFormatByFileHeader ⟨.opened s, [], g'⟩ = .ret (some f) p ∧
      Codec.run B (f.uncompress L p.globals true) p.inp =
        Codec.run B (f.uncompress L g false) (.opened s) := by
  obtain ⟨r, n, g'', hrun, hd⟩ := findStreamFormatByFileHeader_spec (InFile.opened s) g'
  have hne : f ≠ .hadoopSnappy := fun he => not_tells_hadoopSnappy (he ▸ h)
  obtain rfl := (hd.magic f hne).mpr h
  have hskip := run_skipMagic L g g'' (InFile.ok_opened s) h (fun he => hd.blockSize (he ▸ rfl))
    B
  rw [← hd.reads f rfl] at hskip
  exact ⟨_, hrun, hskip⟩

/-- **Whatever bytes arrive**, the search for the header stores ten bytes at most; what it takes to
find a format is the length of its header; and after a magic the decompressor does what it does on
the whole stream. -/
theorem findStreamFormatByFileHeader_skipMagic (B : Buffering) (s : Bytes) :
    ∃ r p, findStreamFormatByFileHeader ⟨InFile.opened s, [], g'⟩ = .ret r p ∧
      p.buf.length ≤ 10 ∧
      (∀ f, r = some f → p.buf.length = f.headerLength ∧
        p.inp = InFile.next^[f.headerLength] (InFile.opened s)) ∧
      ∀ f, r = some f → f ≠ .hadoopSnappy →
        Codec.run B (f.uncompress L p.globals true) p.inp =
          Codec.run B (f.uncompress L g false) (InFile.opened s) := by
  obtain ⟨r, n, g'', hrun, h⟩ := findStreamFormatByFileHeader_spec (InFile.opened s) g'
  have hlen : (probed (InFile.opened s) g'' n).buf.length = n := length_slice _ _ _
  refine ⟨r, _, hrun, hlen.symm ▸ h.le_ten, fun f hr => ⟨hlen.trans (h.reads f hr), ?_⟩,
    fun f hr hne => ?_⟩
  · rw [← h.reads f hr]
    rfl
  · have hf := (h.magic f hne).mp hr
    have := run_skipMagic L g g'' (InFile.ok_opened s) hf (fun he => h.blockSize (he ▸ hr)) B
    rwa [← h.reads f hr] at this

end Snzip
