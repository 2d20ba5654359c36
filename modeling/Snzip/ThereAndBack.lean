import Snzip.ComesBack
import Snzip.FileRuns
import Snzip.Named
import Snzip.RawDecoding

set_option autoImplicit false

/-!
# There and back

Files are compressed by one run of the program, and the files that it has made are decompressed by
another, in any order: with the format on the command line, or found out from the headers.

* `compressingBy`, `Made`, `Completes.made`: what the first run has made of an input;
* `Makes`, `makes_uncompressing`, `makes_naming`: what the second run makes of that;
* **`thereAndBack_iff`**: everything is as before exactly if every file comes back;
* **`compress_then_uncompress_all`**, **`compress_then_uncompress_named`**: the two ways;
* **`compress_then_uncompress_raw`**: the raw format.
-/

namespace Snzip

open CProg

/-- `snzip -t F -b N`. -/
def compressingBy (f : Format) (b : BitVec 32) : Options := { compressing f with blockSize := b }

/-- What `snzip -t F -b N` makes of an input with which it is content. -/
structure Made (env : Env) (L : Library) (f : Format) (b : BitVec 32) (s : Sys) (n : Name)
    (x out : Bytes) : Prop where
  ne_nil : n ≠ []
  length_lt : n.length + f.suffix.length + 2 < pathMax
  file : s.files n = some x
  move : moveOf env (compressingBy f b) L f s n = some ⟨n, n ++ '.' :: f.suffix, out⟩
  run : Codec.run (env.buffering n)
    (f.compress L s.globals (some (BitVec.ofNat 64 x.length)) (sizeOfInt b)) (.opened x) =
      ⟨some 0, out⟩

/-- The round for the input `m` makes `o` of it, with this result. -/
def Makes (env : Env) (opts : Options) (L : Library) (fmt : Format) (s : Sys) (m o : Name)
    (r : Result) : Prop :=
  ∃ j, initialJob opts fmt s m = some j ∧ j.outfile = some o ∧ j.result env opts L = r

section Makes

variable {env : Env} {opts : Options} {L : Library} {fmt : Format} {s : Sys} {m o : Name}
  {r : Result}

theorem Makes.derivedOutput (h : Makes env opts L fmt s m o r) :
    Snzip.derivedOutput opts fmt s m = some o := by
  obtain ⟨j, hj, ho, -⟩ := h
  rw [Snzip.derivedOutput, hj]
  exact ho

theorem Makes.moveOf (h : Makes env opts L fmt s m o r) :
    Snzip.moveOf env opts L fmt s m = some ⟨m, o, r.written⟩ := by
  obtain ⟨j, hj, ho, rfl⟩ := h
  rw [Snzip.moveOf, hj, Option.bind_some, ho, Option.map_some]

theorem Makes.completes_iff (h : Makes env opts L fmt s m o r) (hm : m ≠ []) (ho : o ≠ [])
    (hw : env.writable o = true) : Completes env opts L fmt s m ↔ r.status = some 0 := by
  obtain ⟨j, hj, hout, rfl⟩ := h
  refine ⟨fun hc => ?_, fun hstatus => .moved hj hout hm ho hw hstatus⟩
  cases hc with
  | skipped hs =>
    obtain ⟨htakes, -⟩ := initialJob_eq_some hj
    rw [htakes] at hs
    cases hs
  | moved hj' _ _ _ _ hstatus =>
    cases hj.symm.trans hj'
    exact hstatus

end Makes

section Back

variable {env : Env} {L : Library} {f : Format} {b : BitVec 32} {s s₁ s₂ : Sys} {names : List Name}
  {n o : Name} {x out : Bytes}

theorem suffixed_not_mem (hn : ∀ n ∈ names, NoKnownSuffix n) (n : Name) (f : Format) :
    n ++ '.' :: f.suffix ∉ names :=
  fun h => hn _ h n f.suffix rfl f.dot_not_mem_suffix f rfl

theorem derivedOutput_compressing (h : derivedOutput (compressingBy f b) f s n = some o) :
    o = n ++ '.' :: f.suffix := by
  unfold derivedOutput at h
  obtain ⟨j, hj, ho⟩ := Option.bind_eq_some_iff.mp h
  obtain ⟨-, content, -, hj⟩ := initialJob_eq_some hj
  cases hj
  exact (outputName_compressing ho).1

theorem untangled_compressing (hnodup : names.Nodup) (hn : ∀ n ∈ names, NoKnownSuffix n) :
    Untangled (compressingBy f b) f s names := by
  refine ⟨hnodup, fun n _ o ho => ?_⟩
  rw [derivedOutput_compressing ho]
  exact suffixed_not_mem hn n f

theorem derivedOutputs_compressing (hnodup : names.Nodup) :
    names.Pairwise fun i k => ∀ o, derivedOutput (compressingBy f b) f s i = some o →
      derivedOutput (compressingBy f b) f s k ≠ some o := by
  refine hnodup.imp fun hne o ho ho' => hne ?_
  exact List.append_cancel_right ((derivedOutput_compressing ho).symm.trans
    (derivedOutput_compressing ho'))

/-- **What a file that completes is moved to.** -/
theorem Completes.made (hn : NoKnownSuffix n) (h : Completes env (compressingBy f b) L f s n) :
    ∃ x out, Made env L f b s n x out := by
  cases h with
  | skipped hs =>
    have htakes : checkSuffix (compressingBy f b) n = true := checkSuffix_compressing (f := f) hn
    rw [htakes] at hs
    cases hs
  | @moved j o hj ho hnil hne hw hstatus =>
    obtain ⟨-, x, hx, hjob⟩ := initialJob_eq_some hj
    cases hjob
    obtain ⟨rfl, hlen⟩ := outputName_compressing ho
    refine ⟨x, _, hnil, hlen, hx, ?_, result_of_status hstatus⟩
    rw [moveOf, hj, Option.bind_some, ho, Option.map_some]
    rfl

theorem makes_uncompressing (hlen : n.length + f.suffix.length + 2 < pathMax)
    (htells : Tells out f) (hout : s.files (n ++ '.' :: f.suffix) = some out) :
    Makes env uncompressing L s.fmt s (n ++ '.' :: f.suffix) n
      (Codec.run (env.buffering (n ++ '.' :: f.suffix)) (f.uncompress L s.globals false)
        (.opened out)) := by
  obtain ⟨p, hfound, hskip⟩ := found_of_tells L s.globals s.globals htells
    (env.buffering (n ++ '.' :: f.suffix))
  refine ⟨⟨n ++ '.' :: f.suffix, out, p.inp, true, f, p.globals, some n⟩, ?_, rfl, hskip⟩
  rw [initialJob, if_pos (checkSuffix_append f n), hout, Option.bind_some, jobOf,
    if_pos (show skipsMagic uncompressing = true from rfl), hfound]
  simp only [outputName_append hlen]

theorem makes_naming (hlen : n.length + f.suffix.length + 2 < pathMax)
    (hout : s.files (n ++ '.' :: f.suffix) = some out) :
    Makes env (naming f uncompressing) L f s (n ++ '.' :: f.suffix) n
      (Codec.run (env.buffering (n ++ '.' :: f.suffix)) (f.uncompress L s.globals false)
        (.opened out)) := by
  refine ⟨⟨n ++ '.' :: f.suffix, out, .opened out, false, f, s.globals, some n⟩, ?_, rfl, rfl⟩
  have htakes : checkSuffix (naming f uncompressing) (n ++ '.' :: f.suffix) = true :=
    checkSuffix_append f n
  have hname : outputName (naming f uncompressing) f (n ++ '.' :: f.suffix) = some n :=
    outputName_append hlen
  rw [initialJob, if_pos htakes, hout, Option.bind_some, jobOf, hname]
  rfl

/-- **There and back**: after `snzip -t F -b N` on any files, and a second run that decompresses
what it has made, in any order, every file of the system is as it was, exactly if the content of
each of them comes back. -/
theorem thereAndBack_iff {opts : Options} {fmt : Format} {P : Bytes → Prop}
    (hroom : ∀ o, env.room o = none)
    (hfault : ∀ i, env.fault i = false) (hwritable : ∀ o, env.writable o = true)
    (hnodup : names.Nodup) (hn : ∀ n ∈ names, NoKnownSuffix n)
    (hfree : ∀ n ∈ names, s.files (n ++ '.' :: f.suffix) = none)
    (hrun : mainFiles env (compressingBy f b) L names s = .ret 0 s₁) (hs₂ : s₂.files = s₁.files)
    (hstd : opts.stdout = false) (hkeep : opts.keep = false)
    (hfmt : namedFormat opts s₂.fmt = some fmt)
    (hjobs : ∀ n x out, Made env L f b s n x out → s₂.files (n ++ '.' :: f.suffix) = some out →
      Makes env opts L fmt s₂ (n ++ '.' :: f.suffix) n
        (Codec.run (env.buffering (n ++ '.' :: f.suffix)) (f.uncompress L s₂.globals false)
          (.opened out)))
    (hback : ∀ n ∈ names, ∀ x out, Made env L f b s n x out →
      (Codec.run (env.buffering (n ++ '.' :: f.suffix)) (f.uncompress L s₂.globals false)
        (.opened out) = ⟨some 0, x⟩ ↔ P x))
    {names' : List Name} (hp : names.Perm names') :
    (∃ s₃, mainFiles env opts L (names'.map fun n => n ++ '.' :: f.suffix) s₂ = .ret 0 s₃ ∧
      s₃.files = s.files) ↔ ∀ n ∈ names, ∀ x, s.files n = some x → P x := by
  have hU := untangled_compressing (f := f) (b := b) (s := s) hnodup hn
  obtain ⟨hall, hfiles⟩ := files_mainFiles hroom rfl (fun n _ => hfault n)
    (show namedFormat (compressingBy f b) s.fmt = some f from findStreamFormatByName_name f) hU hrun
  -- the moves of the first run
  have hmade : ∀ n ∈ names, ∃ x out, Made env L f b s n x out := fun n h => (hall n h).made (hn n h)
  choose! x out hmade using hmade
  set ms := names.map fun n => (⟨n, n ++ '.' :: f.suffix, out n⟩ : Move Name Bytes) with hms
  have hmoves : names.filterMap (moveOf env (compressingBy f b) L f s) = ms := by
    rw [hms, ← List.filterMap_eq_map]
    exact List.filterMap_congr fun n hn' => (hmade n hn').move
  have happart : ms.Pairwise Move.Apart := by
    rw [← hmoves]
    exact pairwise_moves hU (derivedOutputs_compressing hnodup)
  rw [hmoves] at hfiles
  have hinputs : ∀ n ∈ names, s₂.files (n ++ '.' :: f.suffix) = some (out n) := fun n hn' => by
    rw [hs₂, hfiles]
    exact Move.applyAll_dst happart (List.mem_map_of_mem hn') (by simp)
  -- the moves of the second run
  let r : Name → Result := fun n =>
    Codec.run (env.buffering (n ++ '.' :: f.suffix)) (f.uncompress L s₂.globals false)
      (.opened (out n))
  have hmakes : ∀ n ∈ names, Makes env opts L fmt s₂ (n ++ '.' :: f.suffix) n (r n) :=
    fun n hn' => hjobs n _ _ (hmade n hn') (hinputs n hn')
  have hcompletes : ∀ n ∈ names, Completes env opts L fmt s₂ (n ++ '.' :: f.suffix) ↔
      (r n).status = some 0 := fun n hn' =>
    (hmakes n hn').completes_iff (by simp) (hmade n hn').ne_nil (hwritable n)
  have hU₂ : Untangled opts fmt s₂ (names'.map fun n => n ++ '.' :: f.suffix) := by
    refine ⟨(hp.nodup_iff.mp hnodup).map fun _ _ he => List.append_cancel_right he, ?_⟩
    intro m hm o ho hmem
    obtain ⟨n, hn', rfl⟩ := List.mem_map.mp hm
    obtain ⟨k, -, rfl⟩ := List.mem_map.mp hmem
    have hn' := hp.mem_iff.mpr hn'
    rw [(hmakes n hn').derivedOutput] at ho
    exact suffixed_not_mem hn k f (Option.some.inj ho ▸ hn')
  have hfiles₂ : ∀ s₃, mainFiles env opts L (names'.map fun n => n ++ '.' :: f.suffix) s₂ =
      .ret 0 s₃ → s₃.files = Move.applyAll false (Move.applyAll false s.files ms)
        (ms.map (Move.back fun m => (r m.src).written)) := by
    intro s₃ hs₃
    have hmoves₂ : (names'.map fun n => n ++ '.' :: f.suffix).filterMap
        (moveOf env opts L fmt s₂) =
          (names'.map fun n => (⟨n, n ++ '.' :: f.suffix, out n⟩ : Move Name Bytes)).map
            (Move.back fun m => (r m.src).written) := by
      rw [List.filterMap_map, List.map_map, ← List.filterMap_eq_map]
      exact List.filterMap_congr fun n hn' => (hmakes n (hp.mem_iff.mpr hn')).moveOf
    rw [(files_mainFiles hroom hstd (fun n _ => hfault n) hfmt hU₂ hs₃).2, hkeep, hmoves₂, hs₂,
      hfiles]
    exact (Move.applyAll_perm ((hp.map _).map _) (Move.pairwise_back _ happart)).symm
  have hback : ∀ n ∈ names, r n = ⟨some 0, x n⟩ ↔ P (x n) := fun n hn' =>
    hback n hn' _ _ (hmade n hn')
  constructor
  · rintro ⟨s₃, hs₃, hsame⟩ n hn' y hy
    obtain rfl : x n = y := Option.some.inj ((hmade n hn').file.symm.trans hy)
    refine (hback n hn').mp ?_
    obtain ⟨hall₂, -⟩ := files_mainFiles hroom hstd (fun n _ => hfault n) hfmt hU₂ hs₃
    have hstatus := (hcompletes n hn').mp
      (hall₂ _ (List.mem_map_of_mem (hp.mem_iff.mp hn')))
    have hwritten : s₃.files n = some (r n).written := by
      rw [hfiles₂ s₃ hs₃]
      exact Move.applyAll_dst
        (m := (⟨n, n ++ '.' :: f.suffix, out n⟩ : Move Name Bytes).back fun m => (r m.src).written)
        (Move.pairwise_back _ happart) (List.mem_map_of_mem (List.mem_map_of_mem hn'))
        (by simp [Move.back])
    rw [result_of_status hstatus, Option.some.inj (hwritten.symm.trans (by rw [hsame, hy]))]
  · intro hcome
    have hr : ∀ n ∈ names, r n = ⟨some 0, x n⟩ := fun n hn' =>
      (hback n hn').mpr (hcome n hn' _ (hmade n hn').file)
    obtain ⟨s₃, hs₃⟩ :=
      (returns_iff_completes (L := L) hroom hstd (fun n _ => hfault n) hfmt hU₂).mpr
      fun m hm => by
        obtain ⟨n, hn', rfl⟩ := List.mem_map.mp hm
        have hn' := hp.mem_iff.mpr hn'
        exact (hcompletes n hn').mpr (by rw [hr n hn'])
    refine ⟨s₃, hs₃, ?_⟩
    rw [hfiles₂ s₃ hs₃]
    refine Move.applyAll_undo happart fun m hm => ?_
    obtain ⟨n, hn', rfl⟩ := List.mem_map.mp hm
    exact ⟨by simp, by rw [hr n hn']; exact (hmade n hn').file, hfree n hn'⟩

section Ways

variable (hroom : ∀ o, env.room o = none) (hfault : ∀ i, env.fault i = false)
  (hwritable : ∀ o, env.writable o = true) (hnodup : names.Nodup)
  (hn : ∀ n ∈ names, NoKnownSuffix n)
  (hfree : ∀ n ∈ names, s.files (n ++ '.' :: f.suffix) = none)
  (hrun : mainFiles env (compressingBy f b) L names s = .ret 0 s₁) (hs₂ : s₂.files = s₁.files)
  {names' : List Name} (hp : names.Perm names')

include hroom hfault hwritable hnodup hn hfree hrun hs₂ hp

/-- **A second run takes all moves back** when it finds the formats by the headers, exactly if
every file comes back. -/
theorem compress_then_uncompress_all (hS : L.snappy.Contract) (hf : f.magic ≠ none) :
    (∃ s₃, mainFiles env uncompressing L (names'.map fun n => n ++ '.' :: f.suffix) s₂ =
        .ret 0 s₃ ∧ s₃.files = s.files) ↔
      ∀ n ∈ names, ∀ x, s.files n = some x → f.ComesBack L.snappy b x := by
  have hraw : f ≠ .raw := fun he => by
    subst he
    exact hf rfl
  exact thereAndBack_iff hroom hfault hwritable hnodup hn hfree hrun hs₂ rfl rfl rfl
    (fun _ _ _ hm hout => makes_uncompressing hm.length_lt (tells_compressed hS hf hm.run) hout)
    (fun _ _ _ _ hm => comesBack_iff hS hraw s₂.globals _ hm.run) hp

/-- **So does one that is told the format**, in the formats without a magic as well. -/
theorem compress_then_uncompress_named (hS : L.snappy.Contract) (hf : f ≠ .raw) :
    (∃ s₃, mainFiles env (naming f uncompressing) L (names'.map fun n => n ++ '.' :: f.suffix) s₂ =
        .ret 0 s₃ ∧ s₃.files = s.files) ↔
      ∀ n ∈ names, ∀ x, s.files n = some x → f.ComesBack L.snappy b x := by
  have hfmt : namedFormat (naming f uncompressing) s₂.fmt = some f := findStreamFormatByName_name f
  exact thereAndBack_iff hroom hfault hwritable hnodup hn hfree hrun hs₂ rfl rfl hfmt
    (fun _ _ _ hm hout => makes_naming hm.length_lt hout)
    (fun _ _ _ _ hm => comesBack_iff hS hf s₂.globals _ hm.run) hp

end Ways

/-- **And in the raw format**: the files come back that are declared with their length, as they are
without `-s`. -/
theorem compress_then_uncompress_raw {Enc : Bytes → Bytes → Prop}
    (hE : EncodesAvailable L.snappy.compressStream Enc)
    (hD : DecodesSource L.snappy.uncompressStream Enc)
    (hdecides : ∀ n ∈ names, ∀ x, s.files n = some x → ∀ y e, y <+: x → Enc y e →
      DecidesSource L.snappy.uncompressStream Enc L.fuel e)
    (hroom : ∀ o, env.room o = none) (hfault : ∀ i, env.fault i = false)
    (hwritable : ∀ o, env.writable o = true) (hnodup : names.Nodup)
    (hn : ∀ n ∈ names, NoKnownSuffix n)
    (hfree : ∀ n ∈ names, s.files (n ++ '.' :: Format.raw.suffix) = none)
    (hrun : mainFiles env (compressingBy .raw b) L names s = .ret 0 s₁) (hs₂ : s₂.files = s₁.files)
    {names' : List Name} (hp : names.Perm names') :
    (∃ s₃, mainFiles env (naming .raw uncompressing) L
        (names'.map fun n => n ++ '.' :: Format.raw.suffix) s₂ = .ret 0 s₃ ∧
        s₃.files = s.files) ↔
      ∀ n ∈ names, ∀ x, s.files n = some x → ∃ size,
        rawFileSize s.globals (some (BitVec.ofNat 64 x.length)) = some size ∧
          size.toNat = x.length := by
  have hfmt : namedFormat (naming .raw uncompressing) s₂.fmt = some .raw :=
    findStreamFormatByName_name .raw
  refine thereAndBack_iff hroom hfault hwritable hnodup hn hfree hrun hs₂ rfl rfl hfmt
    (fun _ _ _ hm hout => makes_naming hm.length_lt hout) (fun n hn' x out hm => ?_) hp
  obtain ⟨size, -, -, he⟩ := encodes_of_rawCompress hE hm.run
  exact comesBack_raw_iff hE hD (hdecides n hn' x hm.file _ _ (List.take_prefix _ _) he) _ hm.run

end Back

section Two

theorem noKnownSuffix_two : ∀ n ∈ [['a'], ['b']], NoKnownSuffix n := by
  have hdot : ∀ n ∈ [['a'], ['b']], '.' ∉ n := by decide
  intro n hn p t hp
  exact absurd (hp ▸ List.mem_append_right p List.mem_cons_self) (hdot n hn)

theorem compress_then_uncompress_two :
    ∃ s₁ s₃, mainFiles Env.ideal (compressingBy .snappyJava 4096#32) ⟨literalSnappy, 0⟩
        [['a'], ['b']] twoFiles = .ret 0 s₁ ∧
      mainFiles Env.ideal uncompressing ⟨literalSnappy, 0⟩
        [['b', '.', 's', 'n', 'a', 'p', 'p', 'y'], ['a', '.', 's', 'n', 'a', 'p', 'p', 'y']] s₁ =
          .ret 0 s₃ ∧ s₃.files = twoFiles.files := by
  obtain ⟨s₁, hfirst⟩ : ∃ s₁, mainFiles Env.ideal (compressingBy .snappyJava 4096#32)
      ⟨literalSnappy, 0⟩ [['a'], ['b']] twoFiles = .ret 0 s₁ := ⟨_, rfl⟩
  have hback : ∀ n ∈ [['a'], ['b']], ∀ x, twoFiles.files n = some x →
      Format.snappyJava.ComesBack literalSnappy 4096#32 x := by
    intro n hn x hx d hd
    have hle := length_of_mem_blocks hd
    have hlen := contract_literalSnappy.compress_le d (Nat.lt_of_le_of_lt hle (by decide))
    have h4096 : snappyJavaBlockSize (sizeOfInt 4096#32) = 4096 := by decide
    omega
  obtain ⟨s₃, hrun, hfiles⟩ := (compress_then_uncompress_all (fun _ => rfl) (fun _ => rfl)
    (fun _ => rfl) (by decide) noKnownSuffix_two (by decide) hfirst rfl
    (.swap ['b'] ['a'] []) contract_literalSnappy (by decide)).mpr hback
  exact ⟨s₁, s₃, hfirst, hrun, hfiles⟩

/-- The same with hadoop-snappy, and blocks of one byte. -/
theorem compress_then_uncompress_named_two :
    ∃ s₁ s₃, mainFiles Env.ideal (compressingBy .hadoopSnappy 39#32) ⟨literalSnappy, 0⟩
        [['a'], ['b']] twoFiles = .ret 0 s₁ ∧
      mainFiles Env.ideal (naming .hadoopSnappy uncompressing) ⟨literalSnappy, 0⟩
        [['b', '.', 's', 'n', 'a', 'p', 'p', 'y'], ['a', '.', 's', 'n', 'a', 'p', 'p', 'y']] s₁ =
          .ret 0 s₃ ∧ s₃.files = twoFiles.files := by
  obtain ⟨s₁, hfirst⟩ : ∃ s₁, mainFiles Env.ideal (compressingBy .hadoopSnappy 39#32)
      ⟨literalSnappy, 0⟩ [['a'], ['b']] twoFiles = .ret 0 s₁ := ⟨_, rfl⟩
  obtain ⟨s₃, hrun, hfiles⟩ := (compress_then_uncompress_named (fun _ => rfl) (fun _ => rfl)
    (fun _ => rfl) (by decide) noKnownSuffix_two (by decide) hfirst rfl
    (.swap ['b'] ['a'] []) contract_literalSnappy (by decide)).mpr
      fun _ _ _ _ => Or.inl (by decide)
  exact ⟨s₁, s₃, hfirst, hrun, hfiles⟩

/-- The same with the raw format. -/
theorem compress_then_uncompress_raw_two :
    ∃ s₁ s₃, mainFiles Env.ideal (compressingBy .raw 0#32) ⟨drainSnappy, 9⟩ [['a'], ['b']]
        twoFiles = .ret 0 s₁ ∧
      mainFiles Env.ideal (naming .raw uncompressing) ⟨drainSnappy, 9⟩
        [['b', '.', 'r', 'a', 'w'], ['a', '.', 'r', 'a', 'w']] s₁ = .ret 0 s₃ ∧
          s₃.files = twoFiles.files := by
  have hcompletes : ∀ n ∈ [['a'], ['b']],
      Completes Env.ideal (compressingBy .raw 0#32) ⟨drainSnappy, 9⟩ .raw twoFiles n := by
    intro n hn
    simp only [List.mem_cons, List.not_mem_nil, or_false] at hn
    rcases hn with rfl | rfl
    · exact .moved (j := ⟨['a'], [0x61#8], .opened [0x61#8], false, .raw, .initial,
        some ['a', '.', 'r', 'a', 'w']⟩) rfl rfl (by decide) (by decide) rfl rfl
    · exact .moved (j := ⟨['b'], [], .opened [], false, .raw, .initial,
        some ['b', '.', 'r', 'a', 'w']⟩) rfl rfl (by decide) (by decide) rfl rfl
  obtain ⟨s₁, hfirst⟩ := (returns_iff_completes (L := ⟨drainSnappy, 9⟩) (fun _ => rfl) rfl
    (fun _ _ => rfl) (show namedFormat (compressingBy .raw 0#32) twoFiles.fmt = some .raw from
      findStreamFormatByName_name .raw) (untangled_compressing (by decide) noKnownSuffix_two)).mpr
      hcompletes
  have hshort : ∀ n ∈ [['a'], ['b']], ∀ x, twoFiles.files n = some x → x = [0x61#8] ∨ x = [] := by
    intro n hn x hx
    simp only [List.mem_cons, List.not_mem_nil, or_false] at hn
    rcases hn with rfl | rfl
    · exact Or.inl (Option.some.inj hx).symm
    · exact Or.inr (Option.some.inj hx).symm
  have hdecides : ∀ n ∈ [['a'], ['b']], ∀ x, twoFiles.files n = some x → ∀ y e, y <+: x →
      shortCompress y = some e → DecidesSource drainSnappy.uncompressStream
        (fun y e => shortCompress y = some e) 9 e := by
    intro n hn x hx y e hy he h region skipped appended ht
    have hle : e.length ≤ 3 := by
      obtain ⟨-, rfl⟩ := shortCompress_eq_some he
      rcases hshort n hn x hx with rfl | rfl
      · rcases List.prefix_cons_iff.mp hy with rfl | ⟨u, rfl, hu⟩
        · decide
        · rw [List.prefix_nil.mp hu]
          decide
      · rw [List.prefix_nil.mp hy]
        decide
    obtain ⟨hlt, hdone⟩ := decidesSource_drainSnappy e h region skipped appended ht
    exact ⟨by omega, hdone⟩
  obtain ⟨s₃, hrun, hfiles⟩ := (compress_then_uncompress_raw (L := ⟨drainSnappy, 9⟩)
    encodesAvailable_shortSnappy decodesSource_drainSnappy hdecides (fun _ => rfl) (fun _ => rfl)
    (fun _ => rfl) (by decide) noKnownSuffix_two (by decide) hfirst rfl
    (.swap ['b'] ['a'] [])).mpr fun n hn x hx => by
      rcases hshort n hn x hx with rfl | rfl
      · exact ⟨1#64, rfl, rfl⟩
      · exact ⟨0#64, rfl, rfl⟩
  exact ⟨s₁, s₃, hfirst, hrun, hfiles⟩

end Two

end Snzip
