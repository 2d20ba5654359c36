import Snzip.Lib.Logged
import Snzip.RawSource
import Snzip.RawClient

set_option autoImplicit false

/-!
# The length that the raw format declares

`snappy::Compress` asks its source for the length before it asks for any byte, and `raw_compress`
takes that length from `fstat`. For a pipe `fstat` reports 0.

* `RawStep`, **`rawPass_step`**: what a request of snappy does;
* `Call`: the input is what has been skipped and what is to come;
* `Declared`, **`declared_rawRun`**: status 0 stands for an encoding of as many bytes as were
  declared;
* `Served`, **`served_rawRun`**: it is returned whenever there are that many;
* `RawComplete`, **`rawComplete_iff`**; `not_rawComplete`: a byte that comes through a pipe.
-/

namespace Snzip

open CProg

/-! ## A call -/

/-- What a request of snappy does. -/
inductive RawStep (client : Client) (t : RawCall) (s : Scheduled) :
    RawCall ⊕ ℕ → Scheduled → Prop
  | available (hc : client t.replies = .available) :
      RawStep client t s (.inl { t with replies := t.replies ++ [.size t.src.restsize] }) s
  | peek {r s'} (hc : client t.replies = .peek) (hp : Peeked t.src s r s') :
      RawStep client t s (.inl { t with replies := t.replies ++ [.region r.1], src := r.2 }) s'
  | skip {n} (hc : client t.replies = .skip n) :
      RawStep client t s (.inl { t with replies := t.replies ++ [.unit], src := t.src.skip n }) s
  | append {bs err s'} (hc : client t.replies = .append bs) (ha : Appended bs t.sinkErr s err s') :
      RawStep client t s (.inl { t with replies := t.replies ++ [.unit], sinkErr := err }) s'
  | done {ok} (hc : client t.replies = .done ok) :
      RawStep client t s (.inr (if !ok || t.src.err || t.sinkErr then 1 else 0)) s

/-- **One request of snappy.** -/
theorem rawPass_step (client : Client) {bufsiz : ℕ} (hbuf : 0 < bufsiz) (t : RawCall)
    (s : Scheduled) :
    ∃ r s', rawPassScheduled client bufsiz t s = .ret r s' ∧ RawStep client t s r s' := by
  unfold rawPassScheduled rawPassOn
  cases hc : client t.replies with
  | available => exact ⟨_, _, rfl, .available hc⟩
  | peek =>
    obtain ⟨r, s', hrun, hp⟩ := peek_step hbuf t.src s
    exact ⟨_, s', congrArg (Outcome.bind · _) hrun, .peek hc hp⟩
  | skip n => exact ⟨_, _, rfl, .skip hc⟩
  | append bs =>
    obtain ⟨err, s', hrun, ha⟩ := append_step (s := s) bs t.sinkErr
    exact ⟨_, s', congrArg (Outcome.bind · _) hrun, .append hc ha⟩
  | done ok =>
    refine ⟨_, s, ?_, .done hc⟩
    cases ok <;> rfl

/-- The state of a call on the input `x`: what has been skipped and what snappy has not read are the
input. -/
structure Call (client : Client) (good : Bytes → Reply → Prop) (x : Bytes) (t : RawCall)
    (s : Scheduled) (region skipped appended : Bytes) : Prop where
  talks : Talks client good t.replies region skipped appended
  shown : region <+: t.src.region
  input : x = skipped ++ unread t.src s

/-- The first size that snappy was told is the declared one, and the device holds what has been
appended, unless an append has failed. -/
structure Declared (filesize : BitVec 64) (dev : Bytes) (t : RawCall) (s : Scheduled)
    (appended : Bytes) : Prop where
  first : t.replies = [] → t.src.restsize = filesize
  size : ∀ n h, t.replies = .size n :: h → n = filesize
  buf : s.world.out.buf = []
  output : t.sinkErr = false → s.world.out.dev = dev ++ appended

/-- The source has what it was declared to have, up to the `n`-th byte, and nothing has failed. -/
structure Served (n : ℕ) (t : RawCall) (s : Scheduled) (region skipped : Bytes) : Prop where
  left : skipped.length + t.src.restsize.toNat = n
  cut : region.length ≤ t.src.restsize.toNat
  err : t.src.err = false
  sinkErr : t.sinkErr = false
  fault : s.world.inp.fault = false
  room : s.world.out.room = none

section Call

variable {client : Client} {good : Bytes → Reply → Prop} {x : Bytes} {t : RawCall}
  {s s' : Scheduled} {region skipped appended : Bytes}

namespace Call

theorem start (v : BitVec 64) :
    Call client good s.world.inp.rest ⟨[], .opened v, false⟩ s [] [] [] :=
  ⟨.start, List.nil_prefix, rfl⟩

theorem available (h : Call client good x t s region skipped appended)
    (hc : client t.replies = .available) (hg : good skipped (.size t.src.restsize)) :
    Call client good x { t with replies := t.replies ++ [.size t.src.restsize] } s region skipped
      appended :=
  ⟨h.talks.available hc hg, h.shown, h.input⟩

theorem peek (h : Call client good x t s region skipped appended) {r : Bytes × FileSource}
    (hc : client t.replies = .peek) (hp : Peeked t.src s r s') (hg : good skipped (.region r.1)) :
    Call client good x { t with replies := t.replies ++ [.region r.1], src := r.2 } s' r.1 skipped
      appended :=
  ⟨h.talks.peek hc hg, hp.shown, by rw [hp.kept]; exact h.input⟩

theorem skip (h : Call client good x t s region skipped appended) {n : ℕ}
    (hc : client t.replies = .skip n) (hn : n ≤ region.length) :
    Call client good x { t with replies := t.replies ++ [.unit], src := t.src.skip n } s
      (region.drop n) (skipped ++ region.take n) appended := by
  obtain ⟨rest, hrest⟩ := h.shown
  refine ⟨h.talks.skip hc, ⟨rest, ?_⟩, ?_⟩
  · rw [← List.drop_append_of_le_length hn, hrest]
    rfl
  · rw [h.input, unread, unread, FileSource.skip, ← hrest, List.drop_append_of_le_length hn]
    simp only [List.append_assoc]
    rw [← List.append_assoc (region.take n), List.take_append_drop]

theorem append (h : Call client good x t s region skipped appended) {bs : Bytes} {err : Bool}
    (hc : client t.replies = .append bs) (ha : Appended bs t.sinkErr s err s') :
    Call client good x { t with replies := t.replies ++ [.unit], sinkErr := err } s' region skipped
      (appended ++ bs) :=
  ⟨h.talks.append hc, h.shown, by rw [h.input, unread, unread, ha.inp]⟩

end Call

namespace Declared

variable {filesize : BitVec 64} {dev : Bytes}

theorem start (hout : s.world.out.buf = []) :
    Declared filesize s.world.out.dev ⟨[], .opened filesize, false⟩ s [] where
  first _ := rfl
  size := nofun
  buf := hout
  output _ := (List.append_nil _).symm

theorem reply (h : Declared filesize dev t s appended) {r : Reply} (src : FileSource)
    (hr : ∀ n, r = .size n → n = t.src.restsize) :
    Declared filesize dev { t with replies := t.replies ++ [r], src := src } s appended where
  first he := absurd he (by simp)
  size n h' he := by
    cases hreplies : t.replies with
    | nil =>
      simp only [hreplies, List.nil_append, List.cons.injEq] at he
      rw [hr n he.1, h.first hreplies]
    | cons r' l =>
      simp only [hreplies, List.cons_append, List.cons.injEq] at he
      exact h.size n l (by rw [hreplies, he.1])
  buf := h.buf
  output := h.output

theorem world (h : Declared filesize dev t s appended) (hout : s'.world.out = s.world.out) :
    Declared filesize dev t s' appended :=
  ⟨h.first, h.size, by rw [hout]; exact h.buf, by rw [hout]; exact h.output⟩

theorem append (h : Declared filesize dev t s appended) {bs : Bytes} {err : Bool}
    (hbs : bs.length < 2 ^ 31) (ha : Appended bs t.sinkErr s err s') :
    Declared filesize dev { t with sinkErr := err } s' (appended ++ bs) where
  first := h.first
  size := h.size
  buf := by rw [ha.buf, h.buf]
  output he := by
    obtain ⟨herr, hdev⟩ := ha.sent hbs he
    rw [hdev, h.output herr, List.append_assoc]

end Declared

theorem written_of_buf {o : OutFile} (h : o.buf = []) : o.written = o.dev := by
  simp [OutFile.written_eq, h]

/-- Status 0 stands for an encoding of the declared number of bytes. -/
def Encoded (Enc : Bytes → Bytes → Prop) (filesize : BitVec 64) (x dev : Bytes) (status : ℕ)
    (s : Scheduled) : Prop :=
  status = 0 → ∃ y z e, x = y ++ (z ++ s.world.inp.rest) ∧ y.length = filesize.toNat ∧ Enc y e ∧
    s.world.out.written = dev ++ e

section Declared

variable {Enc : Bytes → Bytes → Prop} {filesize : BitVec 64} {dev : Bytes}

theorem declared_rawPass (hS : EncodesAvailable client Enc)
    (hcall : Call client anyReply x t s region skipped appended)
    (hdecl : Declared filesize dev t s appended) {r : RawCall ⊕ ℕ}
    (hstep : RawStep client t s r s') :
    r.elim (fun t' => ∃ region skipped appended,
      Call client anyReply x t' s' region skipped appended ∧ Declared filesize dev t' s' appended)
      fun status => Encoded Enc filesize x dev status s' := by
  cases hstep with
  | available hc =>
    exact ⟨_, _, _, hcall.available hc trivial, hdecl.reply _ fun n hn => by cases hn; rfl⟩
  | peek hc hp =>
    refine ⟨_, _, _, hcall.peek hc hp trivial, (hdecl.reply _ fun _ he => by cases he).world ?_⟩
    rw [hp.world]
  | skip hc =>
    exact ⟨_, _, _, hcall.skip hc (hS.skip_le hcall.talks hc), hdecl.reply _ nofun⟩
  | append hc ha =>
    exact ⟨_, _, _, hcall.append hc ha,
      (hdecl.append (hS.append_lt hcall.talks hc) ha).reply _ nofun⟩
  | @done ok hc =>
    intro hstatus
    have hok : ok = true ∧ t.sinkErr = false := by
      cases ok <;> cases hsink : t.sinkErr <;> simp [hsink] at hstatus ⊢
    obtain ⟨rfl, hsink⟩ := hok
    obtain ⟨n, h', hreplies, hlen, henc⟩ := hS.encodes hcall.talks hc
    refine ⟨skipped, t.src.region, appended, hcall.input, ?_, henc, ?_⟩
    · rw [hlen, hdecl.size n h' hreplies]
    · rw [written_of_buf hdecl.buf, hdecl.output hsink]

/-- **Status 0 stands for an encoding of as many bytes as were declared.** -/
theorem declared_rawRun (hS : EncodesAvailable client Enc) {bufsiz : ℕ} (hbuf : 0 < bufsiz)
    (fuel : ℕ) (filesize : BitVec 64) (hout : s.world.out.buf = []) :
    (rawRunScheduled client bufsiz fuel filesize s).Holds
      (Encoded Enc filesize s.world.inp.rest s.world.out.dev) fun _ => False := by
  refine ensures_passes (J := fun t s' => ∃ region skipped appended,
    Call client anyReply s.world.inp.rest t s' region skipped appended ∧
      Declared filesize s.world.out.dev t s' appended) (fun t => ?_) fuel _ s ?_
  · rintro s₁ ⟨region, skipped, appended, hcall, hdecl⟩
    obtain ⟨r, s₂, hrun, hstep⟩ := rawPass_step client hbuf t s₁
    rw [hrun]
    exact declared_rawPass hS hcall hdecl hstep
  · exact ⟨[], [], [], .start filesize, .start hout⟩

end Declared

section Served

variable {Enc : Bytes → Bytes → Prop} {n : ℕ}

namespace Served

theorem source (h : Served n t s region skipped) {r : Bytes × FileSource}
    (hp : Peeked t.src s r s') : r.2.restsize = t.src.restsize ∧ r.2.err = t.src.err ∧
      (r.1 = [] → t.src.restsize = 0#64 ∨ unread t.src s = []) := by
  refine hp.source.resolve_right ?_
  rintro ⟨-, -, -, hfault⟩
  rw [h.fault] at hfault
  cases hfault

theorem peek (h : Served n t s region skipped) (hn : n < 2 ^ 63) {r : Bytes × FileSource}
    (hp : Peeked t.src s r s') :
    Served n { t with replies := t.replies ++ [.region r.1], src := r.2 } s' r.1 skipped := by
  obtain ⟨hsize, herr, -⟩ := h.source hp
  have hleft := h.left
  refine ⟨?_, ?_, herr.trans h.err, h.sinkErr, ?_, ?_⟩
  · rw [hsize]
    exact h.left
  · change r.1.length ≤ r.2.restsize.toNat
    by_cases hzero : r.2.restsize.toNat = 0
    · rw [hp.zero (BitVec.eq_of_toNat_eq hzero)]
      exact Nat.zero_le _
    · refine hp.cut ?_
      rw [hsize] at hzero ⊢
      rw [slt_zero_iff (by omega)]
      omega
  · rw [hp.world]
    exact h.fault
  · rw [hp.world]
    exact h.room

/-- There is more to come, as the input has as many bytes as were declared. -/
theorem shows (h : Served n t s region skipped) (hx : n ≤ x.length)
    (hinput : x = skipped ++ unread t.src s) {r : Bytes × FileSource} (hp : Peeked t.src s r s')
    (hlt : skipped.length < n) : r.1 ≠ [] := by
  intro hnil
  have hleft := h.left
  rcases (h.source hp).2.2 hnil with hzero | hend
  · rw [hzero] at hleft
    simp only [BitVec.toNat_ofNat, Nat.zero_mod] at hleft
    omega
  · have hlen := congrArg List.length hinput
    rw [hend, List.append_nil] at hlen
    omega

theorem skip (h : Served n t s region skipped) (hn : n < 2 ^ 63) {k : ℕ}
    (hk : k ≤ region.length) :
    Served n { t with replies := t.replies ++ [.unit], src := t.src.skip k } s (region.drop k)
      (skipped ++ region.take k) := by
  have hleft := h.left
  have hcut := h.cut
  have hskip := toNat_skip t.src k (by omega) (hk.trans hcut)
  refine ⟨?_, ?_, h.err, h.sinkErr, h.fault, h.room⟩
  · simp only [List.length_append, List.length_take, hskip]
    omega
  · simp only [List.length_drop, hskip]
    omega

theorem append (h : Served n t s region skipped) {bs : Bytes} {err : Bool}
    (ha : Appended bs t.sinkErr s err s') :
    Served n { t with replies := t.replies ++ [.unit], sinkErr := err } s' region skipped := by
  obtain ⟨hroom, herr⟩ := ha.room h.room h.sinkErr
  exact ⟨h.left, h.cut, h.err, herr, by rw [ha.inp]; exact h.fault, hroom⟩

end Served

theorem served_rawPass (hS : EncodesAvailable client Enc) {fuel : ℕ}
    (hfuel : SucceedsOn client fuel n) (hn : n < 2 ^ 63) (hx : n ≤ x.length)
    (hcall : Call client (goodReply n) x t s region skipped appended)
    (h : Served n t s region skipped) {r : RawCall ⊕ ℕ} (hstep : RawStep client t s r s') :
    r.elim (fun t' => t'.replies.length = t.replies.length + 1 ∧ ∃ region skipped appended,
      Call client (goodReply n) x t' s' region skipped appended ∧ Served n t' s' region skipped)
      fun status => status = 0 := by
  have hreplies : ∀ a : Reply, (t.replies ++ [a]).length = t.replies.length + 1 := fun a => by simp
  cases hstep with
  | available hc =>
    exact ⟨hreplies _, _, _, _, hcall.available hc h.left, h.left, h.cut, h.err, h.sinkErr, h.fault,
      h.room⟩
  | @peek r _ hc hp =>
    have hpeek := h.peek hn hp
    have hle := hpeek.cut
    have hleft := hpeek.left
    exact ⟨hreplies _, _, _, _, hcall.peek hc hp ⟨by omega, h.shows hx hcall.input hp⟩, hpeek⟩
  | skip hc =>
    have hk := hS.skip_le hcall.talks.any hc
    exact ⟨hreplies _, _, _, _, hcall.skip hc hk, h.skip hn hk⟩
  | append hc ha => exact ⟨hreplies _, _, _, _, hcall.append hc ha, h.append ha⟩
  | @done ok hc =>
    have hok : ok = true := by
      cases ok with
      | true => rfl
      | false => exact absurd hc (hfuel _ _ _ _ hcall.talks).2
    simp [hok, h.err, h.sinkErr]

theorem served_passes (hS : EncodesAvailable client Enc) {bufsiz fuel : ℕ} (hbuf : 0 < bufsiz)
    (hfuel : SucceedsOn client fuel n) (hn : n < 2 ^ 63) (hx : n ≤ x.length) (k : ℕ)
    (hcall : Call client (goodReply n) x t s region skipped appended)
    (h : Served n t s region skipped) (hk : fuel ≤ t.replies.length + k) :
    ∃ s', passes (rawPassScheduled client bufsiz) k t s = .ret 0 s' := by
  induction k generalizing t s region skipped appended with
  | zero =>
    have := (hfuel _ _ _ _ hcall.talks).1
    omega
  | succ k ih =>
    obtain ⟨r, s', hrun, hstep⟩ := rawPass_step client hbuf t s
    have hnext := served_rawPass hS hfuel hn hx hcall h hstep
    rw [passes_succ, hrun, Outcome.bind_ret]
    cases r with
    | inl t' =>
      obtain ⟨hlen, region, skipped, appended, hcall', h'⟩ := hnext
      exact ih hcall' h' (by omega)
    | inr status => exact ⟨s', by rw [show status = 0 from hnext]⟩

/-- **Status 0 is returned whenever there are as many bytes as were declared**, if nothing fails. -/
theorem served_rawRun (hS : EncodesAvailable client Enc) {bufsiz fuel : ℕ} (hbuf : 0 < bufsiz)
    {filesize : BitVec 64} (hfuel : SucceedsOn client fuel filesize.toNat)
    (hn : filesize.toNat < 2 ^ 63) (hx : filesize.toNat ≤ s.world.inp.rest.length)
    (hfault : s.world.inp.fault = false) (hroom : s.world.out.room = none) :
    ∃ s', rawRunScheduled client bufsiz fuel filesize s = .ret 0 s' :=
  served_passes hS hbuf hfuel hn hx fuel (.start filesize)
    ⟨Nat.zero_add _, Nat.zero_le _, rfl, rfl, hfault, hroom⟩ (Nat.le_add_left _ _)

end Served

end Call

/-! ## The length that `fstat` reports -/

/-- Status 0 stands for a complete encoding of the input `x`, however `read(2)` cuts it and wherever
the device fails, if `fstat` reports `stSize`. -/
def RawComplete (S : Snappy) (Enc : Bytes → Bytes → Prop) (fuel : ℕ) (g : Globals)
    (stSize blockSize : BitVec 64) (x : Bytes) : Prop :=
  ∀ s s', s.world.inp.rest = x → s.world.out.buf = [] →
    rawCompressScheduled S fuel g (some stSize) blockSize s = .ret 0 s' →
    s'.world.inp.rest = [] ∧ ∃ e, Enc x e ∧ s'.world.out.written = s.world.out.dev ++ e

section Complete

variable {S : Snappy} {Enc : Bytes → Bytes → Prop} {fuel : ℕ} {g : Globals}
  {stSize blockSize : BitVec 64} {x : Bytes}

/-- The size of the buffer of the source. -/
def bufferSize (blockSize : BitVec 64) : ℕ :=
  (if blockSize = 0#64 then kBlockSize else blockSize).toNat

theorem bufferSize_pos (blockSize : BitVec 64) : 0 < bufferSize blockSize := by
  unfold bufferSize
  split
  · decide
  · next h => exact Nat.pos_of_ne_zero fun hzero => h (BitVec.eq_of_toNat_eq hzero)

theorem rawFileSize_fstat (hg : g.uncompressedSourceLen = -1#64) (stSize : Option (BitVec 64)) :
    rawFileSize g stSize = stSize := if_pos hg

theorem rawCompressScheduled_eq {stSize : Option (BitVec 64)} {filesize : BitVec 64}
    (hsize : rawFileSize g stSize = some filesize) :
    rawCompressScheduled S fuel g stSize blockSize =
      if malloc (bufferSize blockSize) then
        rawRunScheduled S.compressStream (bufferSize blockSize) fuel filesize
      else exit 134 := by
  unfold rawCompressScheduled rawCompressOn bufferSize
  rw [hsize]
  cases hm : malloc (if blockSize = 0#64 then kBlockSize else blockSize).toNat with
  | false =>
    simp only [hm, Bool.not_false, if_true]
    rfl
  | true => simp only [hm, Bool.not_true, Bool.false_eq_true, if_false, if_true]

theorem rawComplete_of_le (hS : EncodesAvailable S.compressStream Enc)
    (hg : g.uncompressedSourceLen = -1#64) (hle : x.length ≤ stSize.toNat) :
    RawComplete S Enc fuel g stSize blockSize x := by
  intro s s' hx hout hrun
  rw [rawCompressScheduled_eq (rawFileSize_fstat hg _)] at hrun
  split at hrun
  · have hdecl := declared_rawRun hS (bufferSize_pos blockSize) fuel stSize hout
    rw [hrun] at hdecl
    obtain ⟨y, z, e, hxy, hlen, henc, hwritten⟩ := hdecl rfl
    rw [hx] at hxy
    have hnil : z ++ s'.world.inp.rest = [] := by
      have hlength := congrArg List.length hxy
      rw [List.length_append] at hlength
      exact List.length_eq_zero_iff.mp (by omega)
    rw [hnil, List.append_nil] at hxy
    exact ⟨(List.append_eq_nil_iff.mp hnil).2, e, hxy ▸ henc, hwritten⟩
  · cases hrun

/-- A length that leaves bytes out: on a device without a limit the call succeeds all the same. -/
theorem not_rawComplete_of_lt (hS : EncodesAvailable S.compressStream Enc)
    (hfuel : SucceedsOn S.compressStream fuel stSize.toNat)
    (hg : g.uncompressedSourceLen = -1#64) (hsize : stSize.toNat < 2 ^ 63)
    (hmalloc : malloc (bufferSize blockSize) = true) (hlt : stSize.toNat < x.length) :
    ¬ RawComplete S Enc fuel g stSize blockSize x := by
  intro hcomplete
  have hbuf := bufferSize_pos blockSize
  let s : Scheduled := ⟨⟨.opened x, .opened (.stdio 0) none⟩, []⟩
  obtain ⟨s', hs'⟩ := served_rawRun (s := s) hS hbuf hfuel hsize hlt.le rfl rfl
  have hdecl := declared_rawRun (s := s) hS hbuf fuel stSize rfl
  rw [hs'] at hdecl
  obtain ⟨y, z, e, -, hlen, henc, hwritten⟩ := hdecl rfl
  have hrun : rawCompressScheduled S fuel g (some stSize) blockSize s = .ret 0 s' := by
    rw [rawCompressScheduled_eq (rawFileSize_fstat hg _), if_pos hmalloc, hs']
  obtain ⟨-, e', henc', hwritten'⟩ := hcomplete s s' rfl rfl hrun
  have he : e = e' := List.append_cancel_left (hwritten.symm.trans hwritten')
  have hxy : x = y := hS.determines henc' (he ▸ henc)
  rw [hxy, hlen] at hlt
  exact lt_irrefl _ hlt

/-- **Status 0 stands for a complete encoding exactly when no byte is behind the reported size**, or
there is no memory for the buffer. -/
theorem rawComplete_iff (hS : EncodesAvailable S.compressStream Enc)
    (hfuel : SucceedsOn S.compressStream fuel stSize.toNat)
    (hg : g.uncompressedSourceLen = -1#64) (hsize : stSize.toNat < 2 ^ 63) :
    RawComplete S Enc fuel g stSize blockSize x ↔
      x.length ≤ stSize.toNat ∨ malloc (bufferSize blockSize) = false := by
  constructor
  · intro hcomplete
    by_contra hnot
    rw [not_or, Bool.not_eq_false, Nat.not_le] at hnot
    exact not_rawComplete_of_lt hS hfuel hg hsize hnot.2 hnot.1 hcomplete
  · rintro (hle | hmalloc)
    · exact rawComplete_of_le hS hg hle
    · intro s s' _ _ hrun
      rw [rawCompressScheduled_eq (rawFileSize_fstat hg _), hmalloc] at hrun
      cases hrun

end Complete

/-- A file of one byte, whose size is reported. -/
theorem rawComplete_file :
    RawComplete shortSnappy (fun x e => shortCompress x = some e) 5 .initial 1#64 0#64
      [0x61#8] := by
  have hfuel : SucceedsOn shortSnappy.compressStream 5 (1#64).toNat :=
    succeedsOn_shortSnappy (show 1 < 2 ^ 16 by decide)
  exact (rawComplete_iff encodesAvailable_shortSnappy hfuel rfl (by decide)).mpr
    (.inl (by decide))

/-- **A byte that comes through a pipe** is not in the output, and the status is 0. -/
theorem not_rawComplete :
    ¬ RawComplete shortSnappy (fun x e => shortCompress x = some e) 3 .initial 0#64 0#64
      [0x61#8] := by
  have hfuel : SucceedsOn shortSnappy.compressStream 3 (0#64).toNat :=
    succeedsOn_shortSnappy (show 0 < 2 ^ 16 by decide)
  exact not_rawComplete_of_lt encodesAvailable_shortSnappy hfuel rfl (by decide) (by decide)
    (by decide)

end Snzip
