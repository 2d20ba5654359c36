import Snzip.RawStream

set_option autoImplicit false

/-!
# What `FileSource` delivers

snappy calls `Peek` and `Skip` as it likes, as long as it skips no more than it was shown.

* `SourceRun`: the states of a source under such calls;
* `Delivers`, **`sourceRun_delivers`**: no byte is lost, repeated or shown too early;
* `Progresses`, `KeepsProgress`, **`keepsProgress_iff`**: `Peek` gets on unless the file ends before
  its declared size; `not_keepsProgress`: a file of one byte that is declared to have two;
* `AsksOn`, **`rawCompressScheduled_diverges`**, `rawCompress_diverges`: such a file is never
  compressed to its end.
-/

namespace Snzip

open CProg

/-! ## Runs -/

/-- A source under calls of `Peek` and `Skip`, with the bytes that have been skipped, and how many
are left to be skipped of the region that was shown last. -/
inductive SourceRun (bufsiz : ℕ) (size : BitVec 64) (s₀ : Scheduled) :
    FileSource → Scheduled → Bytes → ℕ → Prop
  | start : SourceRun bufsiz size s₀ (.opened size) s₀ [] 0
  | peek {src s skipped left r s'} (h : SourceRun bufsiz size s₀ src s skipped left)
      (hrun : peekScheduled bufsiz src s = .ret r s') :
      SourceRun bufsiz size s₀ r.2 s' skipped r.1.length
  | skip {src s skipped left n} (h : SourceRun bufsiz size s₀ src s skipped left)
      (hn : n ≤ left) :
      SourceRun bufsiz size s₀ (src.skip n) s (skipped ++ src.region.take n) (left - n)

/-- The input is what has been skipped and what is to come. -/
structure Sourced (size : BitVec 64) (s₀ : Scheduled) (src : FileSource) (s : Scheduled)
    (skipped : Bytes) (left : ℕ) : Prop where
  input : s₀.world.inp.rest = skipped ++ unread src s
  fault : s.world.inp.fault = s₀.world.inp.fault
  shown : left ≤ src.region.length
  err : src.err = true → src.restsize = 0#64
  size : size.toNat < 2 ^ 63 → src.err = false →
    skipped.length + src.restsize.toNat = size.toNat ∧ left ≤ src.restsize.toNat

section Runs

variable {bufsiz : ℕ} {size : BitVec 64} {s₀ s s' : Scheduled} {src : FileSource}
  {skipped : Bytes} {left : ℕ}

namespace Sourced

theorem start : Sourced size s₀ (.opened size) s₀ [] 0 where
  input := rfl
  fault := rfl
  shown := Nat.zero_le _
  err := nofun
  size _ _ := ⟨Nat.zero_add _, Nat.zero_le _⟩

theorem peek (h : Sourced size s₀ src s skipped left) {r : Bytes × FileSource}
    (hp : Peeked src s r s') : Sourced size s₀ r.2 s' skipped r.1.length where
  input := by rw [hp.kept]; exact h.input
  fault := by rw [hp.world]; exact h.fault
  shown := hp.shown.length_le
  err herr := by
    rcases hp.source with ⟨hrest, hsame, -⟩ | ⟨-, hzero, -, -⟩
    · rw [hrest]
      exact h.err (hsame ▸ herr)
    · exact hzero
  size hsize hok := by
    rcases hp.source with ⟨hrest, hsame, -⟩ | ⟨-, -, herr, -⟩
    · obtain ⟨hsum, -⟩ := h.size hsize (hsame ▸ hok)
      refine ⟨by rw [hrest]; exact hsum, ?_⟩
      by_cases hzero : r.2.restsize = 0#64
      · rw [hp.zero hzero]
        exact Nat.zero_le _
      · refine hp.cut ((slt_zero_iff (by rw [hrest]; omega)).mpr ?_)
        exact Nat.pos_of_ne_zero fun h0 => hzero (BitVec.eq_of_toNat_eq h0)
    · rw [hok] at herr
      cases herr

theorem skip (h : Sourced size s₀ src s skipped left) {n : ℕ} (hn : n ≤ left) :
    Sourced size s₀ (src.skip n) s (skipped ++ src.region.take n) (left - n) where
  input := by
    rw [h.input, unread, unread, FileSource.skip, List.append_assoc,
      ← List.append_assoc (src.region.take n), List.take_append_drop]
  fault := h.fault
  shown := by
    have := h.shown
    change _ ≤ (src.region.drop n).length
    rw [List.length_drop]
    omega
  err herr := by
    have hzero := h.err herr
    simp [FileSource.skip, hzero]
  size hsize hok := by
    obtain ⟨hsum, hleft⟩ := h.size hsize hok
    have hshown := h.shown
    rw [toNat_skip src n (by omega) (by omega), List.length_append, List.length_take]
    omega

end Sourced

theorem SourceRun.sourced (hbuf : 0 < bufsiz)
    (h : SourceRun bufsiz size s₀ src s skipped left) :
    Sourced size s₀ src s skipped left := by
  induction h with
  | start => exact .start
  | @peek src s _ _ _ _ _ hrun ih =>
    obtain ⟨r, s', hrun', hp⟩ := peek_step hbuf src s
    cases hrun.symm.trans hrun'
    exact ih.peek hp
  | skip _ hn ih => exact ih.skip hn

end Runs

/-! ## What is delivered -/

/-- What a source of the file `x` has delivered: what was skipped is the beginning of `x`, the next
`Peek` shows what follows, and `Available` tells how much is left of a declared size. -/
structure Delivers (bufsiz : ℕ) (size : BitVec 64) (x : Bytes) (src : FileSource) (s : Scheduled)
    (skipped : Bytes) : Prop where
  isPrefix : skipped <+: x
  peek : ∃ r s', peekScheduled bufsiz src s = .ret r s' ∧ r.1 <+: x.drop skipped.length
  available : size.toNat < 2 ^ 63 → src.err = false →
    skipped.length + src.restsize.toNat = size.toNat

/-- **A source delivers the bytes of its file in order, once each**, however it is read. -/
theorem sourceRun_delivers {bufsiz : ℕ} (hbuf : 0 < bufsiz) {size : BitVec 64} {x : Bytes}
    {s₀ s : Scheduled} {src : FileSource} {skipped : Bytes} {left : ℕ}
    (hx : s₀.world.inp.rest <+: x) (h : SourceRun bufsiz size s₀ src s skipped left) :
    Delivers bufsiz size x src s skipped := by
  have hsourced := h.sourced hbuf
  obtain ⟨rest, rfl⟩ := hx
  rw [hsourced.input]
  obtain ⟨r, s', hrun, hp⟩ := peek_step hbuf src s
  obtain ⟨after, hafter⟩ := hp.shown
  refine ⟨⟨unread src s ++ rest, by simp⟩, ⟨r, s', hrun, ?_⟩,
    fun hsize hok => (hsourced.size hsize hok).1⟩
  rw [← hp.kept, unread, ← hafter]
  simp [List.append_assoc]

/-- Two of three bytes, after an interruption, a short read and a partial skip. -/
theorem sourceRun_delivers_three :
    Delivers 2 3#64 [0x61#8, 0x62#8, 0x63#8] ⟨[0x63#8], 1#64, false⟩
      ⟨⟨.opened [], .opened (.stdio 0) none⟩, []⟩ [0x61#8, 0x62#8] := by
  let s₀ : Scheduled :=
    ⟨⟨.opened [0x61#8, 0x62#8, 0x63#8], .opened (.stdio 0) none⟩, [.upTo 0, .eintr]⟩
  let s₁ : Scheduled := ⟨⟨.opened [0x62#8, 0x63#8], .opened (.stdio 0) none⟩, [.eintr]⟩
  let s₂ : Scheduled := ⟨⟨.opened [], .opened (.stdio 0) none⟩, []⟩
  have h₀ : SourceRun 2 3#64 s₀ (.opened 3#64) s₀ [] 0 := .start
  have h₁ : SourceRun 2 3#64 s₀ ⟨[0x61#8], 3#64, false⟩ s₁ [] 1 :=
    h₀.peek (r := ([0x61#8], ⟨[0x61#8], 3#64, false⟩)) rfl
  have h₂ : SourceRun 2 3#64 s₀ ⟨[0x62#8, 0x63#8], 2#64, false⟩ s₂ [0x61#8] 2 :=
    (h₁.skip le_rfl).peek (r := ([0x62#8, 0x63#8], ⟨[0x62#8, 0x63#8], 2#64, false⟩)) rfl
  have h₃ : SourceRun 2 3#64 s₀ ⟨[0x63#8], 1#64, false⟩ s₂ [0x61#8, 0x62#8] 1 :=
    h₂.skip (show 1 ≤ 2 by decide)
  exact sourceRun_delivers (by decide) List.prefix_rfl h₃

/-! ## Progress -/

/-- **What snappy relies on to get on**: as long as something is available, `Peek` shows a byte, or
records an error after which nothing is available. -/
def Progresses (bufsiz : ℕ) (src : FileSource) (s : Scheduled) : Prop :=
  src.restsize ≠ 0#64 → ∃ r s', peekScheduled bufsiz src s = .ret r s' ∧
    (r.1 ≠ [] ∨ r.2.err = true ∧ r.2.restsize = 0#64)

/-- It gets on in every state that calls of `Peek` and `Skip` lead to. -/
def KeepsProgress (bufsiz : ℕ) (size : BitVec 64) (s₀ : Scheduled) : Prop :=
  ∀ src s skipped left, SourceRun bufsiz size s₀ src s skipped left → Progresses bufsiz src s

section Progress

variable {bufsiz : ℕ} {size : BitVec 64} {s₀ s s' : Scheduled} {src : FileSource}
  {skipped : Bytes} {left : ℕ}

theorem readIn_end (hrest : s.world.inp.rest = []) (n : ℕ) :
    ∃ s', onWorld (readIn n) s = .ret (if s.world.inp.fault then .failed else .got []) s' := by
  unfold onWorld readIn
  cases s.world.inp.fault <;> simp [hrest]

theorem readRetry_end (hrest : s.world.inp.rest = []) (n : ℕ) :
    ∃ s', readRetry (fun s => s.schedule.length) readScheduled n s =
        .ret (if s.world.inp.fault then none else some []) s' := by
  obtain ⟨w, schedule⟩ := s
  have hlast : ∀ {step : List ReadStep} {m : ℕ} {schedule : List ReadStep},
      readScheduled n ⟨w, step⟩ = onWorld (readIn m) ⟨w, schedule⟩ →
      ∃ s', readRetry (fun s => s.schedule.length) readScheduled n ⟨w, step⟩ =
        .ret (if w.inp.fault then none else some []) s' := by
    intro step m schedule hread
    obtain ⟨s', hrun⟩ := readIn_end (s := ⟨w, schedule⟩) hrest m
    refine ⟨s', loop_inr ?_⟩
    rw [bind_apply, hread, hrun]
    cases w.inp.fault <;> rfl
  induction schedule with
  | nil => exact hlast rfl
  | cons step schedule ih =>
    cases step with
    | eintr =>
      obtain ⟨s', hrun⟩ := ih hrest
      exact ⟨s', hrun ▸ rfl⟩
    | upTo k => exact hlast rfl

/-- **`Peek` at the end of the input** shows nothing; it records an error if there is one. -/
theorem peek_end (hunread : unread src s = []) (hsize : src.restsize ≠ 0#64) :
    ∃ r s', peekScheduled bufsiz src s = .ret r s' ∧ r.1 = [] ∧
      r.2 = if s.world.inp.fault then { src with restsize := 0#64, err := true } else src := by
  obtain ⟨hregion, hrest⟩ := List.append_eq_nil_iff.mp hunread
  obtain ⟨s', hrun⟩ := readRetry_end hrest bufsiz
  unfold peekScheduled peek
  rw [if_neg hsize, if_neg (not_not.mpr hregion), bind_apply, hrun]
  cases s.world.inp.fault with
  | true => exact ⟨_, s', rfl, rfl, rfl⟩
  | false =>
    refine ⟨_, s', rfl, ?_, ?_⟩
    · exact List.prefix_nil.mp (FileSource.clip_prefix _)
    · rw [← hregion]
      rfl

/-- A file that is as long as it was declared, or whose end is a read error. -/
theorem progresses_of_enough (hbuf : 0 < bufsiz) (hsize : size.toNat < 2 ^ 63)
    (h : SourceRun bufsiz size s₀ src s skipped left)
    (henough : size.toNat ≤ s₀.world.inp.rest.length ∨ s₀.world.inp.fault = true) :
    Progresses bufsiz src s := by
  intro hrest
  have hsourced := h.sourced hbuf
  by_cases hunread : unread src s = []
  · have hfault : s₀.world.inp.fault = true := by
      refine henough.resolve_left fun hle => hrest ?_
      have hok : src.err = false := Bool.eq_false_iff.mpr fun herr => hrest (hsourced.err herr)
      obtain ⟨hsum, -⟩ := hsourced.size hsize hok
      rw [hsourced.input, hunread, List.append_nil] at hle
      exact BitVec.eq_of_toNat_eq (by rw [BitVec.toNat_zero]; omega)
    obtain ⟨r, s', hrun, -, hsrc⟩ := peek_end hunread hrest
    rw [hsourced.fault, hfault, if_pos rfl] at hsrc
    exact ⟨r, s', hrun, .inr ⟨by rw [hsrc], by rw [hsrc]⟩⟩
  · obtain ⟨r, s', hrun, hp⟩ := peek_step hbuf src s
    refine ⟨r, s', hrun, ?_⟩
    rcases hp.source with ⟨-, -, hnil⟩ | ⟨-, hzero, herr, -⟩
    · exact .inl fun he => (hnil he).elim hrest hunread
    · exact .inr ⟨herr, hzero⟩

/-- `Peek` before the end of a file that can be read, and `Skip` of all that it has shown. -/
theorem SourceRun.advance (hbuf : 0 < bufsiz) (h : SourceRun bufsiz size s₀ src s skipped left)
    (hfault : s₀.world.inp.fault = false) (hok : src.err = false) (hsize : src.restsize ≠ 0#64)
    (hunread : unread src s ≠ []) :
    ∃ src' s' skipped' left', SourceRun bufsiz size s₀ src' s' skipped' left' ∧
      src'.err = false ∧ (unread src' s').length < (unread src s).length := by
  obtain ⟨r, s', hrun, hp⟩ := peek_step hbuf src s
  rcases hp.source with ⟨-, hsame, hnil⟩ | ⟨-, -, -, hfailed⟩
  · have hpos : 0 < r.1.length :=
      List.length_pos_iff.mpr fun he => (hnil he).elim hsize hunread
    refine ⟨r.2.skip r.1.length, s', _, _, (h.peek hrun).skip le_rfl, hsame.trans hok, ?_⟩
    have hle := hp.shown.length_le
    have hkept := congrArg List.length hp.kept
    rw [unread, List.length_append] at hkept
    rw [← hkept, unread, FileSource.skip, List.length_append, List.length_drop]
    omega
  · rw [(h.sourced hbuf).fault, hfault] at hfailed
    cases hfailed

theorem SourceRun.exhaust (hbuf : 0 < bufsiz) (hsize : size.toNat < 2 ^ 63)
    (hshort : s₀.world.inp.rest.length < size.toNat) (hfault : s₀.world.inp.fault = false)
    (h : SourceRun bufsiz size s₀ src s skipped left) (hok : src.err = false) :
    ∃ src s skipped left, SourceRun bufsiz size s₀ src s skipped left ∧
      src.restsize ≠ 0#64 ∧ unread src s = [] := by
  induction hn : (unread src s).length using Nat.strong_induction_on
    generalizing src s skipped left with
  | _ n ih =>
    have hsourced := h.sourced hbuf
    have hrest : src.restsize ≠ 0#64 := by
      intro hzero
      obtain ⟨hsum, -⟩ := hsourced.size hsize hok
      rw [hsourced.input, List.length_append] at hshort
      rw [hzero, BitVec.toNat_zero] at hsum
      omega
    by_cases hunread : unread src s = []
    · exact ⟨src, s, skipped, left, h, hrest, hunread⟩
    · obtain ⟨src', s', skipped', left', h', hok', hlt⟩ :=
        h.advance hbuf hfault hok hrest hunread
      exact ih _ (hn ▸ hlt) h' hok' rfl

theorem KeepsProgress.enough (hbuf : 0 < bufsiz) (hsize : size.toNat < 2 ^ 63)
    (h : KeepsProgress bufsiz size s₀) :
    size.toNat ≤ s₀.world.inp.rest.length ∨ s₀.world.inp.fault = true := by
  by_contra hneg
  rw [not_or, Nat.not_le, Bool.not_eq_true] at hneg
  obtain ⟨hshort, hfault⟩ := hneg
  obtain ⟨src, s, skipped, left, hrun, hrest, hunread⟩ :=
    SourceRun.exhaust hbuf hsize hshort hfault .start rfl
  obtain ⟨r, s', hpeek, hshown⟩ := h src s skipped left hrun hrest
  obtain ⟨r', s'', hpeek', hnil, hsrc⟩ := peek_end hunread hrest
  cases hpeek.symm.trans hpeek'
  rw [(hrun.sourced hbuf).fault, hfault, if_neg Bool.false_ne_true] at hsrc
  rcases hshown with hne | ⟨-, hzero⟩
  · exact hne hnil
  · exact hrest (hsrc ▸ hzero)

/-- **`Peek` gets on exactly if** the file does not end before its declared size, or ends in a read
error. -/
theorem keepsProgress_iff (hbuf : 0 < bufsiz) (hsize : size.toNat < 2 ^ 63) :
    KeepsProgress bufsiz size s₀ ↔
      size.toNat ≤ s₀.world.inp.rest.length ∨ s₀.world.inp.fault = true := by
  constructor
  · exact fun h => h.enough hbuf hsize
  · exact fun henough _ _ _ _ hrun => progresses_of_enough hbuf hsize hrun henough

end Progress

/-- A file of one byte that is declared to have one. -/
theorem keepsProgress_one :
    KeepsProgress 1 1#64 ⟨⟨.opened [0x61#8], .opened (.stdio 0) none⟩, [.eintr]⟩ :=
  (keepsProgress_iff (by decide) (by decide)).mpr (.inl (by decide))

/-- **A file of one byte that is declared to have two** ends `Peek`'s progress. -/
theorem not_keepsProgress :
    ¬ KeepsProgress 65536 2#64 ⟨⟨.opened [0x61#8], .opened (.stdio 0) none⟩, []⟩ := by
  intro h
  have henough := h.enough (by decide) (by decide)
  exact absurd henough (by decide)

/-! ## A call that does not end -/

/-- **What is assumed of the loop of `snappy::Compress`**: it ends only when it has skipped as many
bytes as `Available` told it in the first place. -/
def AsksOn (client : Client) : Prop :=
  ∀ h region skipped appended ok, Talks client anyReply h region skipped appended →
    client h = .done ok → ∃ n h', h = .size n :: h' ∧ n.toNat ≤ skipped.length

theorem asksOn_gatherStream (f : Bytes → Option Bytes) : AsksOn (gatherStream f) := by
  intro h region skipped appended ok ht hc
  cases (gathered ht).request hc with
  | refuse hle hf => exact ⟨_, _, rfl, by rw [List.length_take]; omega⟩
  | accept hle hf => exact ⟨_, _, rfl, by rw [List.length_take]; omega⟩

section Diverges

variable {client : Client} {Enc : Bytes → Bytes → Prop} {bufsiz : ℕ} {filesize : BitVec 64}
  {s : Scheduled}

theorem passes_diverges (hS : EncodesAvailable client Enc) (hask : AsksOn client)
    (hbuf : 0 < bufsiz) {x dev : Bytes} (hshort : x.length < filesize.toNat) (k : ℕ) {t : RawCall}
    {region skipped appended : Bytes} (hcall : Call client anyReply x t s region skipped appended)
    (hdecl : Declared filesize dev t s appended) :
    passes (rawPassScheduled client bufsiz) k t s = .diverge := by
  induction k generalizing t s region skipped appended with
  | zero => rfl
  | succ k ih =>
    obtain ⟨r, s', hrun, hstep⟩ := rawPass_step client hbuf t s
    have hnext := declared_rawPass hS hcall hdecl hstep
    rw [passes_succ, hrun, Outcome.bind_ret]
    cases r with
    | inl t' =>
      obtain ⟨region', skipped', appended', hcall', hdecl'⟩ := hnext
      exact ih hcall' hdecl'
    | inr status =>
      -- it would have skipped more than there is
      cases hstep with
      | done hc =>
        obtain ⟨n, h', hreplies, hle⟩ := hask _ _ _ _ _ hcall.talks hc
        have hlen := congrArg List.length hcall.input
        rw [List.length_append] at hlen
        rw [hdecl.size n h' hreplies] at hle
        omega

/-- **A file that ends before its declared size is never compressed to its end**, whether its end is
an error or not. -/
theorem rawCompressScheduled_diverges {S : Snappy} (hS : EncodesAvailable S.compressStream Enc)
    (hask : AsksOn S.compressStream) {g : Globals} {stSize : Option (BitVec 64)}
    {blockSize : BitVec 64} (hsize : rawFileSize g stSize = some filesize)
    (hmalloc : malloc (bufferSize blockSize) = true)
    (hshort : s.world.inp.rest.length < filesize.toNat) (hout : s.world.out.buf = []) (fuel : ℕ) :
    rawCompressScheduled S fuel g stSize blockSize s = .diverge := by
  rw [rawCompressScheduled_eq hsize, if_pos hmalloc]
  exact passes_diverges hS hask (bufferSize_pos blockSize) hshort fuel (.start filesize)
    (.start hout)

theorem rawCompress_diverges {S : Snappy} (hS : EncodesAvailable S.compressStream Enc)
    (hask : AsksOn S.compressStream) {g : Globals} {stSize : Option (BitVec 64)}
    {blockSize : BitVec 64} (hsize : rawFileSize g stSize = some filesize)
    (hmalloc : malloc (bufferSize blockSize) = true) {w : World}
    (hshort : w.inp.rest.length < filesize.toNat) (hout : w.out.buf = []) (fuel : ℕ) :
    rawCompress S fuel g stSize blockSize w = .diverge := by
  have h := rawCompressScheduled_diverges (s := ⟨w, []⟩) hS hask hsize hmalloc hshort hout fuel
  rw [rawCompressScheduled_nil, onWorld] at h
  cases hr : rawCompress S fuel g stSize blockSize w with
  | ret status w' =>
    rw [hr] at h
    cases h
  | exit code w' =>
    rw [hr] at h
    cases h
  | diverge => rfl

end Diverges

/-- A file of one byte with `-s 2`. -/
example (fuel : ℕ) :
    rawCompress shortSnappy fuel { Globals.initial with uncompressedSourceLen := 2#64 } none 0#64
      ⟨.opened [0x61#8], .opened (.stdio 0) none⟩ = .diverge :=
  rawCompress_diverges encodesAvailable_shortSnappy (asksOn_gatherStream shortCompress) rfl
    (by decide) (by decide) rfl fuel

end Snzip
