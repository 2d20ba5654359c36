import Snzip.RawStream

set_option autoImplicit false

/-!
# Decompressing the raw format

`raw_uncompress` hands its input to `snappy::Uncompress` as a source without a length, from which
snappy reads until there is no more.

* `rawUncompressScheduled`: `raw_uncompress` with `read(2)` interrupted and cut short;
* `lastShown`, `DecodesSource`, `DecidesSource`: what is assumed of `snappy::Uncompress`;
* `Drawn`, **`drawn_rawRun`**: status 0 stands for a decoding of the whole input;
* `Plain`, **`rawUncompress_decides`**: an input is accepted exactly if it can be decoded;
* **`raw_roundTrip`**: what `raw_compress` has written is decoded to the data;
* **`comesBack_raw_iff`**: a file comes back if it was declared with its length;
* `Drained`, `drainStream`, `drainSnappy`: a client that reads to the end.
-/

namespace Snzip

open CProg

/-- `raw_uncompress`, with its reads cut and interrupted. -/
def rawUncompressScheduled (S : Snappy) (fuel : ℕ) : Prog Scheduled ℕ :=
  rawRunScheduled S.uncompressStream kBlockSize.toNat fuel (-1#64)

/-- **Where no read is cut short or interrupted**, this is `raw_uncompress`. -/
theorem rawUncompressScheduled_nil (S : Snappy) (fuel : ℕ) (skipMagic : Bool) (w : World) :
    rawUncompressScheduled S fuel ⟨w, []⟩ = onWorld (rawUncompress S fuel skipMagic) ⟨w, []⟩ := by
  unfold rawUncompressScheduled rawRunScheduled rawUncompress rawRun
  generalize (⟨[], .opened (-1#64), false⟩ : RawCall) = t
  induction fuel generalizing t w with
  | zero => rfl
  | succ k ih =>
    simp only [onWorld, passes_succ, rawPassScheduled_nil] at ih ⊢
    cases rawPass S.uncompressStream kBlockSize.toNat t w with
    | ret r w' =>
      cases r with
      | inl t' => exact ih w' t'
      | inr status => rfl
    | exit c w' => rfl
    | diverge => rfl

/-! ## What is assumed of snappy -/

/-- The region that was shown last. -/
def lastShown (h : List Reply) : Option Bytes :=
  (h.filterMap fun r => match r with
    | .region bs => some bs
    | _ => none).getLast?

@[simp] theorem lastShown_nil : lastShown [] = none := rfl

@[simp] theorem lastShown_region (h : List Reply) (bs : Bytes) :
    lastShown (h ++ [.region bs]) = some bs := by simp [lastShown]

@[simp] theorem lastShown_size (h : List Reply) (n : BitVec 64) :
    lastShown (h ++ [.size n]) = lastShown h := by simp [lastShown]

@[simp] theorem lastShown_unit (h : List Reply) : lastShown (h ++ [.unit]) = lastShown h := by
  simp [lastShown]

/-- **What is assumed of `snappy::Uncompress`**: it skips no more than it was shown and appends in
pieces whose length fits an `int`; and it comes to an end with success only when the source has
shown it that there is no more, and what it has skipped encodes what it has appended. -/
structure DecodesSource (client : Client) (Enc : Bytes → Bytes → Prop) : Prop where
  skip_le : ∀ {h region skipped appended n}, Talks client anyReply h region skipped appended →
    client h = .skip n → n ≤ region.length
  append_lt : ∀ {h region skipped appended bs}, Talks client anyReply h region skipped appended →
    client h = .append bs → bs.length < 2 ^ 31
  decodes : ∀ {h region skipped appended}, Talks client anyReply h region skipped appended →
    client h = .done true → lastShown h = some [] ∧ Enc appended skipped

/-- The answers of a source without a length that holds `x`: it shows bytes that come next, and
nothing only at the end. -/
def sourceReply (x skipped : Bytes) : Reply → Prop
  | .size n => n = -1#64
  | .region bs => ∃ rest, x = skipped ++ rest ∧ bs <+: rest ∧ (bs = [] → rest = [])
  | .unit => True

/-- On a source that holds `x` snappy comes to an end within `fuel` requests, and refuses only what
cannot be decoded. -/
def DecidesSource (client : Client) (Enc : Bytes → Bytes → Prop) (fuel : ℕ) (x : Bytes) : Prop :=
  ∀ h region skipped appended, Talks client (sourceReply x) h region skipped appended →
    h.length < fuel ∧ (client h = .done false → ∀ y, ¬ Enc y x)

/-! ## Status 0 -/

/-- The source has no length, and when it has shown that there is no more then there is no more,
unless its reading has failed; the device holds what has been appended, unless an append has
failed. -/
structure Drawn (dev : Bytes) (t : RawCall) (s : Scheduled) (appended : Bytes) : Prop where
  size : t.src.err = false → t.src.restsize = -1#64
  last : t.src.err = false → lastShown t.replies = some [] → unread t.src s = []
  buf : s.world.out.buf = []
  output : t.sinkErr = false → s.world.out.dev = dev ++ appended

section Call

variable {client : Client} {Enc : Bytes → Bytes → Prop} {x dev : Bytes} {t : RawCall}
  {s s' : Scheduled} {region skipped appended : Bytes}

namespace Drawn

theorem start (hout : s.world.out.buf = []) :
    Drawn s.world.out.dev ⟨[], .opened (-1#64), false⟩ s [] where
  size _ := rfl
  last _ h := by cases h
  buf := hout
  output _ := (List.append_nil _).symm

theorem available (h : Drawn dev t s appended) (n : BitVec 64) :
    Drawn dev { t with replies := t.replies ++ [.size n] } s appended :=
  ⟨h.size, fun he hl => h.last he (by rwa [lastShown_size] at hl), h.buf, h.output⟩

theorem peek (h : Drawn dev t s appended) {r : Bytes × FileSource} (hp : Peeked t.src s r s') :
    Drawn dev { t with replies := t.replies ++ [.region r.1], src := r.2 } s' appended := by
  refine ⟨fun he => ?_, fun he hl => ?_, by rw [hp.world]; exact h.buf,
    fun hsink => by rw [hp.world]; exact h.output hsink⟩
  · rcases hp.source with ⟨hsize, herr, -⟩ | ⟨-, -, herr, -⟩
    · rw [hsize]
      exact h.size (herr.symm.trans he)
    · exact absurd (herr.symm.trans he) Bool.true_eq_false.mp
  · rw [lastShown_region, Option.some.injEq] at hl
    rcases hp.source with ⟨-, herr, hend⟩ | ⟨-, -, herr, -⟩
    · rw [show unread r.2 s' = unread t.src s from hp.kept]
      refine (hend hl).resolve_left fun hzero => ?_
      rw [h.size (herr.symm.trans he)] at hzero
      exact absurd hzero (by decide)
    · exact absurd (herr.symm.trans he) Bool.true_eq_false.mp

theorem skip (h : Drawn dev t s appended) (n : ℕ) :
    Drawn dev { t with replies := t.replies ++ [.unit], src := t.src.skip n } s appended := by
  refine ⟨fun he => ?_, fun he hl => ?_, h.buf, h.output⟩
  · have hsize := h.size he
    have hslt : BitVec.slt 0#64 (-1#64) = false := by decide
    simp only [FileSource.skip, hsize, hslt, Bool.false_eq_true, if_false]
  · rw [lastShown_unit] at hl
    have hnil := List.append_eq_nil_iff.mp (h.last he hl)
    rw [unread, FileSource.skip, hnil.1, hnil.2]
    simp

theorem append (h : Drawn dev t s appended) {bs : Bytes} {err : Bool} (hbs : bs.length < 2 ^ 31)
    (ha : Appended bs t.sinkErr s err s') :
    Drawn dev { t with replies := t.replies ++ [.unit], sinkErr := err } s' (appended ++ bs) := by
  refine ⟨h.size, fun he hl => ?_, by rw [ha.buf, h.buf], fun hsink => ?_⟩
  · rw [lastShown_unit] at hl
    rw [unread, ha.inp]
    exact h.last he hl
  · obtain ⟨herr, hdev⟩ := ha.sent hbs hsink
    rw [hdev, h.output herr, List.append_assoc]

end Drawn

/-- Status 0 stands for a decoding of all of `x`. -/
def Decoded (Enc : Bytes → Bytes → Prop) (x dev : Bytes) (status : ℕ) (s : Scheduled) : Prop :=
  status = 0 → s.world.inp.rest = [] ∧ ∃ y, Enc y x ∧ s.world.out.written = dev ++ y

theorem drawn_rawPass (hS : DecodesSource client Enc)
    (hcall : Call client anyReply x t s region skipped appended) (h : Drawn dev t s appended)
    {r : RawCall ⊕ ℕ} (hstep : RawStep client t s r s') :
    r.elim (fun t' => ∃ region skipped appended,
      Call client anyReply x t' s' region skipped appended ∧ Drawn dev t' s' appended)
      fun status => Decoded Enc x dev status s' := by
  cases hstep with
  | available hc => exact ⟨_, _, _, hcall.available hc trivial, h.available _⟩
  | peek hc hp => exact ⟨_, _, _, hcall.peek hc hp trivial, h.peek hp⟩
  | skip hc => exact ⟨_, _, _, hcall.skip hc (hS.skip_le hcall.talks hc), h.skip _⟩
  | append hc ha =>
    exact ⟨_, _, _, hcall.append hc ha, h.append (hS.append_lt hcall.talks hc) ha⟩
  | @done ok hc =>
    intro hstatus
    obtain ⟨rfl, herr, hsink⟩ : ok = true ∧ t.src.err = false ∧ t.sinkErr = false := by
      cases ok <;> cases he : t.src.err <;> cases hsink : t.sinkErr <;>
        simp [he, hsink] at hstatus ⊢
    obtain ⟨hlast, henc⟩ := hS.decodes hcall.talks hc
    have hend := h.last herr hlast
    have hx : x = skipped := by rw [hcall.input, hend, List.append_nil]
    refine ⟨(List.append_eq_nil_iff.mp hend).2, appended, hx ▸ henc, ?_⟩
    rw [written_of_buf h.buf, h.output hsink]

/-- **Status 0 stands for a decoding of the whole input**, however its reading is cut and wherever
it fails, and wherever the device is full. -/
theorem drawn_rawRun (hS : DecodesSource client Enc) {bufsiz : ℕ} (hbuf : 0 < bufsiz) (fuel : ℕ)
    (hout : s.world.out.buf = []) :
    (rawRunScheduled client bufsiz fuel (-1#64) s).Holds
      (Decoded Enc s.world.inp.rest s.world.out.dev) fun _ => False := by
  refine ensures_passes (J := fun t s' => ∃ region skipped appended,
    Call client anyReply s.world.inp.rest t s' region skipped appended ∧
      Drawn s.world.out.dev t s' appended) (fun t => ?_) fuel _ s ?_
  · rintro s₁ ⟨region, skipped, appended, hcall, hdrawn⟩
    obtain ⟨r, s₂, hrun, hstep⟩ := rawPass_step client hbuf t s₁
    rw [hrun]
    exact drawn_rawPass hS hcall hdrawn hstep
  · exact ⟨[], [], [], .start _, .start hout⟩

/-! ## A source on which nothing fails -/

/-- The source has no length, and nothing has failed. -/
structure Undisturbed (t : RawCall) (s : Scheduled) : Prop where
  size : t.src.restsize = -1#64
  err : t.src.err = false
  sinkErr : t.sinkErr = false
  fault : s.world.inp.fault = false
  room : s.world.out.room = none

namespace Undisturbed

theorem peek (h : Undisturbed t s) {r : Bytes × FileSource} (hp : Peeked t.src s r s') :
    Undisturbed { t with replies := t.replies ++ [.region r.1], src := r.2 } s' ∧
      (r.1 = [] → unread t.src s = []) := by
  rcases hp.source with ⟨hsize, herr, hend⟩ | ⟨-, -, -, hfault⟩
  · refine ⟨⟨hsize.trans h.size, herr.trans h.err, h.sinkErr, ?_, ?_⟩, fun hnil => ?_⟩
    · rw [hp.world]
      exact h.fault
    · rw [hp.world]
      exact h.room
    · refine (hend hnil).resolve_left fun hzero => ?_
      rw [h.size] at hzero
      exact absurd hzero (by decide)
  · exact absurd (hfault.symm.trans h.fault) Bool.true_eq_false.mp

theorem skip (h : Undisturbed t s) (n : ℕ) :
    Undisturbed { t with replies := t.replies ++ [.unit], src := t.src.skip n } s := by
  have hslt : BitVec.slt 0#64 (-1#64) = false := by decide
  refine ⟨?_, h.err, h.sinkErr, h.fault, h.room⟩
  simp only [FileSource.skip, h.size, hslt, Bool.false_eq_true, if_false]

theorem append (h : Undisturbed t s) {bs : Bytes} {err : Bool}
    (ha : Appended bs t.sinkErr s err s') :
    Undisturbed { t with replies := t.replies ++ [.unit], sinkErr := err } s' := by
  obtain ⟨hroom, herr⟩ := ha.room h.room h.sinkErr
  exact ⟨h.size, h.err, herr, by rw [ha.inp]; exact h.fault, hroom⟩

end Undisturbed

theorem undisturbed_rawPass (hS : DecodesSource client Enc)
    (hcall : Call client (sourceReply x) x t s region skipped appended) (h : Undisturbed t s)
    {r : RawCall ⊕ ℕ} (hstep : RawStep client t s r s') :
    r.elim (fun t' => t'.replies.length = t.replies.length + 1 ∧ ∃ region skipped appended,
      Call client (sourceReply x) x t' s' region skipped appended ∧ Undisturbed t' s')
      fun status => ∃ ok, client t.replies = .done ok ∧ status = if ok then 0 else 1 := by
  have hreplies : ∀ a : Reply, (t.replies ++ [a]).length = t.replies.length + 1 := fun a => by simp
  cases hstep with
  | available hc =>
    exact ⟨hreplies _, _, _, _, hcall.available hc h.size, h.size, h.err, h.sinkErr, h.fault,
      h.room⟩
  | @peek r _ hc hp =>
    obtain ⟨hpeek, hend⟩ := h.peek hp
    have hgood : sourceReply x skipped (.region r.1) := by
      refine ⟨unread t.src s, hcall.input, ?_, hend⟩
      rw [← show unread r.2 s' = unread t.src s from hp.kept]
      exact hp.shown.trans (List.prefix_append _ _)
    exact ⟨hreplies _, _, _, _, hcall.peek hc hp hgood, hpeek⟩
  | skip hc =>
    exact ⟨hreplies _, _, _, _, hcall.skip hc (hS.skip_le hcall.talks.any hc), h.skip _⟩
  | append hc ha => exact ⟨hreplies _, _, _, _, hcall.append hc ha, h.append ha⟩
  | @done ok hc => exact ⟨ok, hc, by cases ok <;> simp [h.err, h.sinkErr]⟩

theorem undisturbed_passes (hS : DecodesSource client Enc) {bufsiz fuel : ℕ} (hbuf : 0 < bufsiz)
    (hdecides : DecidesSource client Enc fuel x) (k : ℕ)
    (hcall : Call client (sourceReply x) x t s region skipped appended) (h : Undisturbed t s)
    (hk : fuel ≤ t.replies.length + k) :
    ∃ status s', passes (rawPassScheduled client bufsiz) k t s = .ret status s' ∧
      ((∃ y, Enc y x) → status = 0) := by
  induction k generalizing t s region skipped appended with
  | zero =>
    have := (hdecides _ _ _ _ hcall.talks).1
    omega
  | succ k ih =>
    obtain ⟨r, s', hrun, hstep⟩ := rawPass_step client hbuf t s
    have hnext := undisturbed_rawPass hS hcall h hstep
    rw [passes_succ, hrun, Outcome.bind_ret]
    cases r with
    | inl t' =>
      obtain ⟨hlen, region, skipped, appended, hcall', h'⟩ := hnext
      exact ih hcall' h' (by omega)
    | inr status =>
      obtain ⟨ok, hc, hstatus⟩ := hnext
      refine ⟨status, s', rfl, fun ⟨y, hy⟩ => ?_⟩
      cases ok with
      | true => exact hstatus
      | false => exact absurd hy ((hdecides _ _ _ _ hcall.talks).2 hc y)

/-- **An input is accepted exactly if it can be decoded**, whatever it is and however its reading is
cut and interrupted, and then what it encodes is written. -/
theorem rawUncompress_decides {S : Snappy} {fuel : ℕ} (hS : DecodesSource S.uncompressStream Enc)
    (hdecides : DecidesSource S.uncompressStream Enc fuel s.world.inp.rest)
    (hfault : s.world.inp.fault = false) (hroom : s.world.out.room = none)
    (hbuf : s.world.out.buf = []) :
    ∃ status s', rawUncompressScheduled S fuel s = .ret status s' ∧
      (status = 0 ↔ ∃ y, Enc y s.world.inp.rest) ∧
      (status = 0 → s'.world.inp.rest = [] ∧ ∃ y, Enc y s.world.inp.rest ∧
        s'.world.out.written = s.world.out.dev ++ y) := by
  have hsize : 0 < kBlockSize.toNat := by decide
  obtain ⟨status, s', hrun, hstatus⟩ := undisturbed_passes hS hsize hdecides fuel (.start (-1#64))
    ⟨rfl, rfl, rfl, hfault, hroom⟩ (Nat.le_add_left _ _)
  have hdecoded := drawn_rawRun hS hsize fuel hbuf
  rw [rawRunScheduled, hrun] at hdecoded
  refine ⟨status, s', hrun, ⟨fun h => ?_, hstatus⟩, hdecoded⟩
  obtain ⟨-, y, hy, -⟩ := hdecoded h
  exact ⟨y, hy⟩

/-- **Nothing is lost without notice**: wherever the reading fails and wherever the device is full,
status 0 stands for a decoding of the whole input. -/
theorem rawUncompress_sound {S : Snappy} (hS : DecodesSource S.uncompressStream Enc) (fuel : ℕ)
    (hbuf : s.world.out.buf = []) (hrun : rawUncompressScheduled S fuel s = .ret 0 s') :
    s'.world.inp.rest = [] ∧ ∃ y, Enc y s.world.inp.rest ∧
      s'.world.out.written = s.world.out.dev ++ y := by
  have hdecoded := drawn_rawRun hS (show 0 < kBlockSize.toNat by decide) fuel hbuf
  have hrun : rawRunScheduled S.uncompressStream kBlockSize.toNat fuel (-1#64) s = .ret 0 s' := hrun
  rw [hrun] at hdecoded
  exact hdecoded rfl

end Call

/-! ## There and back -/

/-- **What is encoded is decoded**, however the reads are cut and interrupted. -/
theorem rawUncompressScheduled_of_encodes {S : Snappy} {Enc : Bytes → Bytes → Prop} {fuel : ℕ}
    {y e : Bytes} (hD : DecodesSource S.uncompressStream Enc)
    (hdetermines : ∀ {x y e}, Enc x e → Enc y e → x = y) (he : Enc y e)
    (hdecides : DecidesSource S.uncompressStream Enc fuel e) (B : Buffering)
    (reads : List ReadStep) :
    ∃ s, rawUncompressScheduled S fuel ⟨⟨.opened e, .opened B none⟩, reads⟩ = .ret 0 s ∧
      s.world.out.written = y := by
  let s₁ : Scheduled := ⟨⟨.opened e, .opened B none⟩, reads⟩
  have hbuf : 0 < kBlockSize.toNat := by decide
  have hstart : Undisturbed ⟨[], .opened (-1#64), false⟩ s₁ := ⟨rfl, rfl, rfl, rfl, rfl⟩
  have hcall : Call S.uncompressStream (sourceReply e) e ⟨[], .opened (-1#64), false⟩ s₁ [] [] [] :=
    Call.start (s := s₁) (-1#64)
  obtain ⟨status, s, hrun, hstatus⟩ := undisturbed_passes hD hbuf hdecides fuel hcall hstart
    (Nat.le_add_left _ _)
  obtain rfl : status = 0 := hstatus ⟨_, he⟩
  have hdecoded := drawn_rawRun (s := s₁) hD hbuf fuel rfl
  rw [rawRunScheduled, hrun] at hdecoded
  obtain ⟨-, z, hz, hout⟩ := hdecoded rfl
  exact ⟨s, hrun, hout.trans (hdetermines hz he)⟩

/-- **What `raw_compress` has written is decoded to the data**, as far as `-s` or `fstat` say,
however the reads of the two programs are cut and interrupted. -/
theorem raw_roundTrip {S : Snappy} {Enc : Bytes → Bytes → Prop} {fuel : ℕ} {x : Bytes}
    (hE : EncodesAvailable S.compressStream Enc) (hD : DecodesSource S.uncompressStream Enc)
    {g : Globals} {stSize : Option (BitVec 64)} {filesize : BitVec 64}
    (hsize : rawFileSize g stSize = some filesize) (hle : filesize.toNat ≤ x.length)
    (hlt : filesize.toNat < 2 ^ 63) (hsucceeds : SucceedsOn S.compressStream fuel filesize.toNat)
    (hdecides : ∀ e, Enc (x.take filesize.toNat) e →
      DecidesSource S.uncompressStream Enc fuel e) {blockSize : BitVec 64}
    (hmalloc : malloc (bufferSize blockSize) = true) (B : Buffering)
    (reads reads' : List ReadStep) :
    ∃ s, rawCompressScheduled S fuel g stSize blockSize
        ⟨⟨.opened x, .opened B none⟩, reads⟩ = .ret 0 s ∧
      ∃ s', rawUncompressScheduled S fuel
          ⟨⟨.opened s.world.out.written, .opened B none⟩, reads'⟩ = .ret 0 s' ∧
        s'.world.out.written = x.take filesize.toNat := by
  let s₀ : Scheduled := ⟨⟨.opened x, .opened B none⟩, reads⟩
  obtain ⟨s, hs⟩ := served_rawRun (s := s₀) hE (bufferSize_pos blockSize) hsucceeds hlt hle rfl rfl
  have hrun : rawCompressScheduled S fuel g stSize blockSize s₀ = .ret 0 s := by
    rw [rawCompressScheduled_eq hsize, if_pos hmalloc, hs]
  have hencoded := declared_rawRun (s := s₀) hE (bufferSize_pos blockSize) fuel filesize rfl
  rw [hs] at hencoded
  obtain ⟨y, z, e, hxy, hlen, he, hwritten⟩ := hencoded rfl
  have hxy : x = y ++ (z ++ s.world.inp.rest) := hxy
  obtain rfl : y = x.take filesize.toNat := by rw [hxy, List.take_left' hlen]
  rw [show s₀.world.out.dev = [] from rfl, List.nil_append] at hwritten
  obtain ⟨s', hrun', hout⟩ := rawUncompressScheduled_of_encodes hD hE.determines he (hdecides e he)
    B reads'
  exact ⟨s, hrun, s', by rw [hwritten]; exact hrun', hout⟩

section Codec

variable {S : Snappy} {Enc : Bytes → Bytes → Prop} {fuel : ℕ} {B : Buffering} {g : Globals}
  {stSize : Option (BitVec 64)} {blockSize : BitVec 64} {x out : Bytes}

/-- **What `raw_compress` writes with a status of 0** encodes as much as was declared. -/
theorem encodes_of_rawCompress (hE : EncodesAvailable S.compressStream Enc)
    (h : Codec.run B (rawCompress S fuel g stSize blockSize) (.opened x) = ⟨some 0, out⟩) :
    ∃ size, rawFileSize g stSize = some size ∧ size.toNat ≤ x.length ∧
      Enc (x.take size.toNat) out := by
  let w : World := ⟨.opened x, .opened B none⟩
  have hplain := rawCompressScheduled_nil (S := S) (w := w) fuel g stSize blockSize
  unfold onWorld at hplain
  change Result.of ((rawCompress S fuel g stSize blockSize w).view World.out) = _ at h
  simp only at hplain
  cases hsize : rawFileSize g stSize with
  | none =>
    rw [rawCompress, hsize] at h
    cases h
  | some size =>
    rw [rawCompressScheduled_eq hsize] at hplain
    have hencoded := declared_rawRun (s := ⟨w, []⟩) hE (bufferSize_pos blockSize) fuel size rfl
    split at hplain
    · rw [hplain] at hencoded
      cases ho : rawCompress S fuel g stSize blockSize w with
      | diverge =>
        rw [ho] at h
        cases h
      | exit n w' =>
        rw [ho] at hencoded
        exact hencoded.elim
      | ret n w' =>
        rw [ho] at h hencoded
        cases h
        obtain ⟨y, z, e, hxy, hlen, he, hwritten⟩ := hencoded rfl
        have hxy : x = y ++ (z ++ w'.inp.rest) := hxy
        obtain rfl : e = w'.out.written := hwritten.symm
        refine ⟨size, rfl, by rw [hxy, List.length_append]; omega, ?_⟩
        rw [hxy, List.take_left' hlen]
        exact he
    · cases ho : rawCompress S fuel g stSize blockSize w with
      | ret | diverge =>
        rw [ho] at hplain
        cases hplain
      | exit n w' =>
        rw [ho] at h hplain
        cases hplain
        cases h

/-- **A file comes back** from the raw format exactly if it was declared with its length. -/
theorem comesBack_raw_iff (hE : EncodesAvailable S.compressStream Enc)
    (hD : DecodesSource S.uncompressStream Enc)
    (hdecides : DecidesSource S.uncompressStream Enc fuel out) (B' : Buffering)
    (h : Codec.run B (rawCompress S fuel g stSize blockSize) (.opened x) = ⟨some 0, out⟩) :
    Codec.run B' (rawUncompress S fuel false) (.opened out) = ⟨some 0, x⟩ ↔
      ∃ size, rawFileSize g stSize = some size ∧ size.toNat = x.length := by
  obtain ⟨size, hsize, hle, he⟩ := encodes_of_rawCompress hE h
  obtain ⟨s, hrun, hout⟩ := rawUncompressScheduled_of_encodes hD hE.determines he hdecides B' []
  rw [rawUncompressScheduled_nil S fuel false] at hrun
  have hresult : Codec.run B' (rawUncompress S fuel false) (.opened out) =
      ⟨some 0, x.take size.toNat⟩ := by
    unfold onWorld at hrun
    unfold Codec.run
    cases ho : rawUncompress S fuel false ⟨.opened out, .opened B' none⟩ with
    | diverge | exit =>
      simp only [ho] at hrun
      cases hrun
    | ret n w =>
      simp only [ho] at hrun
      cases hrun
      exact congrArg (Result.mk (some 0)) hout
  rw [hresult, hsize]
  simp only [Result.mk.injEq, true_and, Option.some.injEq, exists_eq_left']
  rw [List.take_eq_self_iff]
  omega

end Codec

/-! ## A client that reads to the end -/

/-- A client that peeks and skips until there is no more, and then passes `f` of what it has seen to
the sink. -/
def drainStream (f : Bytes → Option Bytes) : Client := fun h =>
  match h.getLast? with
  | some (.region bs) =>
    if bs ≠ [] then .skip bs.length
    else match f (shown h) with
      | some c => .append c
      | none => .done false
  | _ => if lastShown h = some [] then .done true else .peek

section Drain

variable {f : Bytes → Option Bytes} {good : Bytes → Reply → Prop} {h : List Reply}
  {region skipped appended x : Bytes} {Enc : Bytes → Bytes → Prop}

/-- Where such a client is: before a `Peek`, between a `Peek` and its `Skip`, where there is no
more, or at its end. -/
inductive Drained (f : Bytes → Option Bytes) : List Reply → Bytes → Bytes → Bytes → Prop
  | ready {h : List Reply} {region : Bytes} (hlast : ∀ bs, h.getLast? ≠ some (.region bs))
      (hmore : lastShown h ≠ some []) (hpace : h.length ≤ 2 * (shown h).length) :
      Drained f h region (shown h) []
  | peeked {h : List Reply} {bs : Bytes} (hne : bs ≠ [])
      (hpace : h.length ≤ 2 * (shown h).length) : Drained f (h ++ [.region bs]) bs (shown h) []
  | ended {h : List Reply} (hpace : h.length ≤ 2 * (shown h).length) :
      Drained f (h ++ [.region []]) [] (shown h) []
  | sent {h : List Reply} {region appended : Bytes} (hpace : h.length ≤ 2 * (shown h).length)
      (hf : f (shown h) = some appended) :
      Drained f (h ++ [.region []] ++ [.unit]) region (shown h) appended

/-- The request that such a client makes, with where it is. -/
inductive Drains (f : Bytes → Option Bytes) : List Reply → Bytes → Bytes → Bytes → Request → Prop
  | peek {h : List Reply} {region : Bytes} (hpace : h.length ≤ 2 * (shown h).length) :
      Drains f h region (shown h) [] .peek
  | skip {h : List Reply} {bs : Bytes} (hne : bs ≠ [])
      (hpace : h.length ≤ 2 * (shown h).length) :
      Drains f (h ++ [.region bs]) bs (shown h) [] (.skip bs.length)
  | append {h : List Reply} {c : Bytes} (hpace : h.length ≤ 2 * (shown h).length)
      (hf : f (shown h) = some c) :
      Drains f (h ++ [.region []]) [] (shown h) [] (.append c)
  | refuse {h : List Reply} (hf : f (shown h) = none) :
      Drains f (h ++ [.region []]) [] (shown h) [] (.done false)
  | accept {h : List Reply} {region appended : Bytes} (hf : f (shown h) = some appended) :
      Drains f (h ++ [.region []] ++ [.unit]) region (shown h) appended (.done true)

theorem shown_region (h : List Reply) (bs : Bytes) :
    shown (h ++ [.region bs]) = shown h ++ bs := by
  rw [shown_append]
  simp [shown]

theorem shown_unit (h : List Reply) : shown (h ++ [.unit]) = shown h := by
  rw [shown_append]
  simp [shown]

theorem Drained.drains (hd : Drained f h region skipped appended) :
    Drains f h region skipped appended (drainStream f h) := by
  unfold drainStream
  cases hd with
  | ready hlast hmore hpace =>
    split
    · next bs hbs => exact absurd hbs (hlast bs)
    · rw [if_neg hmore]
      exact .peek hpace
  | @peeked h bs hne hpace =>
    rw [List.getLast?_concat]
    simp only [if_pos hne]
    exact .skip hne hpace
  | @ended h hpace =>
    rw [List.getLast?_concat, shown_region, List.append_nil]
    simp only [ne_eq, not_true_eq_false, if_false]
    cases hf : f (shown h) with
    | none => exact .refuse hf
    | some c => exact .append hpace hf
  | sent hpace hf =>
    rw [List.getLast?_concat, lastShown_unit, lastShown_region]
    exact .accept hf

theorem drained (ht : Talks (drainStream f) good h region skipped appended) :
    Drained f h region skipped appended := by
  induction ht with
  | start => exact .ready (by simp) (by simp) (Nat.zero_le _)
  | available _ hc _ ih =>
    have hreq := ih.drains
    rw [hc] at hreq
    cases hreq
  | @peek h _ _ _ bs _ hc _ ih =>
    have hreq := ih.drains
    rw [hc] at hreq
    cases hreq with
    | peek hpace =>
      by_cases hne : bs = []
      · subst hne
        exact .ended hpace
      · exact .peeked hne hpace
  | @skip _ region _ _ _ _ hc ih =>
    have hreq := ih.drains
    rw [hc] at hreq
    cases hreq with
    | @skip h _ hne hpace =>
      have hpos := List.length_pos_iff.mpr hne
      rw [List.take_length, ← shown_region, ← shown_unit]
      have hmore : lastShown (h ++ [.region region] ++ [.unit]) ≠ some [] := by
        rw [lastShown_unit, lastShown_region]
        simpa using hne
      refine .ready (getLast_unit _) hmore ?_
      simp only [shown_unit, shown_region, List.length_append, List.length_singleton]
      omega
  | append _ hc ih =>
    have hreq := ih.drains
    rw [hc] at hreq
    cases hreq with
    | append hpace hf => exact .sent hpace hf

/-- **Such a client is as it is assumed.** -/
theorem decodesSource_drainStream (hlen : ∀ {e y}, f e = some y → y.length < 2 ^ 31)
    (hEnc : ∀ {e y}, f e = some y → Enc y e) : DecodesSource (drainStream f) Enc where
  skip_le ht hc := by
    have hreq := (drained ht).drains
    rw [hc] at hreq
    cases hreq
    exact Nat.le_refl _
  append_lt ht hc := by
    have hreq := (drained ht).drains
    rw [hc] at hreq
    cases hreq with
    | append hpace hf => exact hlen hf
  decodes ht hc := by
    have hreq := (drained ht).drains
    rw [hc] at hreq
    cases hreq with
    | accept hf => exact ⟨by rw [lastShown_unit, lastShown_region], hEnc hf⟩

/-- What has been skipped is what the source held first; it is everything if there is no more. -/
theorem skipped_source {client : Client}
    (ht : Talks client (sourceReply x) h region skipped appended) :
    ∃ rest, x = skipped ++ rest ∧ region <+: rest ∧ (lastShown h = some [] → rest = []) := by
  induction ht with
  | start => exact ⟨x, rfl, List.nil_prefix, fun h => by cases h⟩
  | available _ _ _ ih =>
    obtain ⟨rest, hx, hregion, hend⟩ := ih
    exact ⟨rest, hx, hregion, fun h => hend (by rwa [lastShown_size] at h)⟩
  | peek _ _ hg _ =>
    obtain ⟨rest, hx, hregion, hend⟩ := hg
    exact ⟨rest, hx, hregion, fun h => hend (by simpa using h)⟩
  | @skip h region skipped _ n ht hc ih =>
    obtain ⟨rest, hx, ⟨u, rfl⟩, hend⟩ := ih
    refine ⟨region.drop n ++ u, ?_, List.prefix_append _ _, fun h => ?_⟩
    · rw [hx, List.append_assoc, ← List.append_assoc (region.take n), List.take_append_drop]
    · rw [lastShown_unit] at h
      have hnil := List.append_eq_nil_iff.mp (hend h)
      rw [hnil.1, hnil.2]
      simp
  | append _ _ ih =>
    obtain ⟨rest, hx, hregion, hend⟩ := ih
    exact ⟨rest, hx, hregion, fun h => hend (by rwa [lastShown_unit] at h)⟩

theorem Drained.pace (hd : Drained f h region skipped appended) :
    h.length ≤ 2 * skipped.length + 2 := by
  cases hd with
  | ready => omega
  | peeked | ended | sent =>
    simp only [List.length_append, List.length_singleton]
    omega

theorem decidesSource_drainStream (hEnc : ∀ {y}, Enc y x → f x = some y) :
    DecidesSource (drainStream f) Enc (2 * x.length + 3) x := by
  intro h region skipped appended ht
  obtain ⟨rest, hx, -, hend⟩ := skipped_source ht
  refine ⟨?_, fun hc y hy => ?_⟩
  · have hpace := (drained ht).pace
    have hlen := congrArg List.length hx
    rw [List.length_append] at hlen
    omega
  · have hreq := (drained ht).drains
    rw [hc] at hreq
    cases hreq with
    | refuse hf =>
      rw [hend (lastShown_region _ _), List.append_nil] at hx
      rw [← hx, hEnc hy] at hf
      cases hf

end Drain

/-- What `shortCompress` has made. -/
def shortUncompress (e : Bytes) : Option Bytes :=
  (literalSnappy.uncompress e (2 ^ 16)).filter fun y => shortCompress y = some e

/-- A snappy that reads to the end, and stores fewer than 65536 bytes as one literal. -/
def drainSnappy : Snappy := { shortSnappy with uncompressStream := drainStream shortUncompress }

theorem shortUncompress_iff {e y : Bytes} :
    shortUncompress e = some y ↔ shortCompress y = some e := by
  rw [shortUncompress, Option.filter_eq_some_iff, decide_eq_true_eq]
  refine ⟨fun h => h.2, fun h => ⟨?_, h⟩⟩
  obtain ⟨hlt, rfl⟩ := shortCompress_eq_some h
  exact contract_literalSnappy.uncompress_compress y (2 ^ 16) (by omega) (by omega)

theorem decodesSource_drainSnappy :
    DecodesSource drainSnappy.uncompressStream fun y e => shortCompress y = some e := by
  refine decodesSource_drainStream (fun {e y} h => ?_) fun h => shortUncompress_iff.mp h
  have hlt := (shortCompress_eq_some (shortUncompress_iff.mp h)).1
  omega

theorem decidesSource_drainSnappy (x : Bytes) :
    DecidesSource drainSnappy.uncompressStream (fun y e => shortCompress y = some e)
      (2 * x.length + 3) x :=
  decidesSource_drainStream fun h => shortUncompress_iff.mpr h

/-- One byte as it was stored, in pieces and with an interruption. -/
theorem rawUncompress_decides_one :
    ∃ status s', rawUncompressScheduled drainSnappy 9
        ⟨⟨.opened [0x01#8, 0x00#8, 0x61#8], .opened (.stdio 0) none⟩, [.upTo 0, .eintr]⟩ =
          .ret status s' ∧
      (status = 0 ↔ ∃ y, shortCompress y = some [0x01#8, 0x00#8, 0x61#8]) ∧
      (status = 0 → s'.world.inp.rest = [] ∧
        ∃ y, shortCompress y = some [0x01#8, 0x00#8, 0x61#8] ∧ s'.world.out.written = [] ++ y) :=
  rawUncompress_decides
    (s := ⟨⟨.opened [0x01#8, 0x00#8, 0x61#8], .opened (.stdio 0) none⟩, [.upTo 0, .eintr]⟩)
    decodesSource_drainSnappy (decidesSource_drainSnappy _) rfl rfl rfl

/-- The same with a device that has room for one byte. -/
theorem rawUncompress_sound_one :
    ∃ s', rawUncompressScheduled drainSnappy 9
        ⟨⟨.opened [0x01#8, 0x00#8, 0x61#8], .opened (.stdio 0) (some 1)⟩, []⟩ = .ret 0 s' ∧
      s'.world.inp.rest = [] ∧ ∃ y, shortCompress y = some [0x01#8, 0x00#8, 0x61#8] ∧
        s'.world.out.written = [] ++ y := by
  obtain ⟨s', hrun⟩ : ∃ s', rawUncompressScheduled drainSnappy 9
      ⟨⟨.opened [0x01#8, 0x00#8, 0x61#8], .opened (.stdio 0) (some 1)⟩, []⟩ = .ret 0 s' := ⟨_, rfl⟩
  exact ⟨s', hrun, rawUncompress_sound decodesSource_drainSnappy 9 rfl hrun⟩

/-- Two bytes of three there and back, with `-s 2`. -/
theorem raw_roundTrip_two :
    ∃ s, rawCompressScheduled drainSnappy 13 { Globals.initial with uncompressedSourceLen := 2#64 }
        (some 3#64) 0#64
        ⟨⟨.opened [0x61#8, 0x62#8, 0x63#8], .opened (.stdio 0) none⟩, [.upTo 0]⟩ = .ret 0 s ∧
      ∃ s', rawUncompressScheduled drainSnappy 13
          ⟨⟨.opened s.world.out.written, .opened (.stdio 0) none⟩, [.eintr, .upTo 1]⟩ = .ret 0 s' ∧
        s'.world.out.written = [0x61#8, 0x62#8] := by
  have hsucceeds : SucceedsOn drainSnappy.compressStream 13 2 :=
    fun h region skipped appended ht => by
    obtain ⟨hlt, hdone⟩ := succeedsOn_shortSnappy (show 2 < 2 ^ 16 by decide) h region skipped
      appended ht
    exact ⟨by omega, hdone⟩
  have hdecides : ∀ e, shortCompress [0x61#8, 0x62#8] = some e → DecidesSource
      drainSnappy.uncompressStream (fun y e => shortCompress y = some e) 13 e := by
    intro e he
    obtain rfl : e = [0x02#8, 0x04#8, 0x61#8, 0x62#8] := by
      have hcompress : shortCompress [0x61#8, 0x62#8] = some [0x02#8, 0x04#8, 0x61#8, 0x62#8] := by
        decide
      exact Option.some.inj (he.symm.trans hcompress)
    intro h region skipped appended ht
    obtain ⟨hlt, hdone⟩ := decidesSource_drainSnappy _ h region skipped appended ht
    exact ⟨Nat.lt_of_lt_of_le hlt (by decide), hdone⟩
  have hsize : rawFileSize { Globals.initial with uncompressedSourceLen := 2#64 } (some 3#64) =
      some 2#64 := by decide
  have hle : (2#64).toNat ≤ [0x61#8, 0x62#8, 0x63#8].length := by decide
  exact raw_roundTrip (S := drainSnappy) encodesAvailable_shortSnappy
    decodesSource_drainSnappy hsize
    hle (by decide) hsucceeds hdecides (by decide) (.stdio 0) [.upTo 0] [.eintr, .upTo 1]

end Snzip
