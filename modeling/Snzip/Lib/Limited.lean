import Snzip.Lib.Script

set_option autoImplicit false

/-!
# Scripts on a device that fills up

A device with limited room refuses the flush that goes past it. Whether the program comes to know of
it depends on the write during which that happens, and on what the program asks at the end.

* `Write.AtBuffer`, `Write.Tracked`, `Write.AtDevice`: writes through the buffer, and past it;
* `Write.Notices`, `Silent`: a write that is stopped by a full device, and writes that are not;
* **`playAll_tracked`**: how far writes get whose shortfall is noticed or lost;
* **`playAll_after_refused`**: a refused flush stops a program that goes through the buffer, or
  leaves the error flag set;
* `Script.OneWay`, `Script.Passes`, **`playback_zero`**: when a script returns 0;
* **`complete_iff`**: when a script that returns 0 has left all its bytes on the device;
* `Script.Appends`, **`Script.Accepts.playback`**: a script on a stream that others have written to.
-/

namespace CProg

open OutFile

namespace Write

/-- A write through the buffer. -/
def AtBuffer : Write → Prop
  | putc _ | fwrite _ | fwriteOk _ => True
  | fflush | writeFull _ | append _ => False

/-- A write through the buffer that hands over all its bytes or stops the program. -/
def Tracked : Write → Prop
  | putc _ | fwriteOk _ => True
  | fwrite _ | fflush | writeFull _ | append _ => False

/-- A write below an empty buffer. -/
def AtDevice : Write → Prop
  | fflush | writeFull _ | append _ => True
  | putc _ | fwrite _ | fwriteOk _ => False

/-- A write below an empty buffer that is done in full or stops the program. -/
def Full : Write → Prop
  | fflush | writeFull _ => True
  | putc _ | fwrite _ | fwriteOk _ | append _ => False

/-- After `a` bytes, the write stops the program because the device has no room for it. -/
def Notices (b : Buffering) (room : Option ℕ) (a : ℕ) : Write → Prop
  | fwriteOk bs => ∃ k, a < k ∧ k ≤ a + bs.length ∧ Refused b room k
  | writeFull bs => fits (room.map (· - a)) bs.length = false
  | append bs => fits (room.map (· - a)) bs.length = false ∧ bs.length % 2 ^ 32 ≠ 2 ^ 32 - 1
  | putc _ | fwrite _ | fflush => False

theorem Tracked.atBuffer {w : Write} (h : w.Tracked) : w.AtBuffer := by
  cases w <;> trivial

theorem Full.atDevice {w : Write} (h : w.Full) : w.AtDevice := by
  cases w <;> trivial

theorem AtBuffer.buffered {w : Write} (h : w.AtBuffer) (hg : w.Goes) : w.Buffered := by
  cases w with
  | fwriteOk bs => exact hg
  | putc bs => trivial
  | fwrite bs => trivial
  | fflush => trivial
  | writeFull bs => exact h
  | append bs => exact h

theorem AtDevice.direct {w : Write} (h : w.AtDevice) (hg : w.Goes) : w.Direct := by
  cases w with
  | writeFull bs => exact hg
  | fflush => trivial
  | append bs => trivial
  | putc bs => exact h
  | fwrite bs => exact h
  | fwriteOk bs => exact h

end Write

/-- After `a` bytes, no shortage of room stops these writes. -/
def Silent (b : Buffering) (room : Option ℕ) : ℕ → List Write → Prop
  | _, [] => True
  | a, w :: ws => ¬ w.Notices b room a ∧ Silent b room (a + w.bytes.length) ws

variable {b : Buffering} {room : Option ℕ}

/-! ## Writes that are noticed or lost -/

/-- On the streams `st s`, where `s` are the bytes so far, the write gets through unless it is one
that stops the program. -/
def Tracks (b : Buffering) (room : Option ℕ) (st : Bytes → OutFile) (w : Write) : Prop :=
  ∀ s, ((w.play (st s)).1 = true ↔ w.Goes ∧ ¬ w.Notices b room s.length) ∧
    ((w.play (st s)).1 = true → (w.play (st s)).2 = st (s ++ w.bytes))

/-- **How far such writes get.** -/
theorem playAll_tracked {st : Bytes → OutFile} {ws : List Write}
    (hws : ∀ w ∈ ws, Tracks b room st w) (s : Bytes) :
    ((playAll ws (st s)).1 = true ↔ (∀ w ∈ ws, w.Goes) ∧ Silent b room s.length ws) ∧
      ((playAll ws (st s)).1 = true → (playAll ws (st s)).2 = st (s ++ bytesOf ws)) := by
  induction ws generalizing s with
  | nil => simp [playAll, Silent]
  | cons w ws ih =>
    obtain ⟨hgo, hst⟩ := hws w List.mem_cons_self s
    obtain ⟨ih₁, ih₂⟩ := ih (fun v hv => hws v (List.mem_cons_of_mem _ hv)) (s ++ w.bytes)
    rw [List.length_append] at ih₁
    rw [playAll, List.forall_mem_cons, Silent, bytesOf_cons, ← List.append_assoc]
    cases hp : (w.play (st s)).1 with
    | true =>
      obtain ⟨hw, hn⟩ := hgo.mp hp
      rw [if_pos rfl, hst hp]
      refine ⟨ih₁.trans ?_, ih₂⟩
      simp only [hw, hn, true_and, not_false_eq_true]
    | false =>
      rw [if_neg Bool.false_ne_true]
      refine ⟨iff_of_false Bool.false_ne_true fun h => ?_, fun h => Bool.noConfusion h⟩
      have := hgo.mpr ⟨h.1.1, h.2.1⟩
      rw [hp] at this
      cases this

/-- A stream with an empty buffer, after these bytes have gone to the device. -/
theorem tracks_atDevice {w : Write} (hw : w.AtDevice) :
    Tracks b room (fun s => (opened b room).accept s) w := by
  intro s
  have hroom : ((opened b room).accept s).room = room.map (· - s.length) := rfl
  cases w with
  | writeFull bs =>
    simp only [Write.play, hroom, accept_accept, Write.Goes, Write.Notices, Write.bytes,
      Bool.and_eq_true, decide_eq_true_eq, Bool.not_eq_false, implies_true, and_true]
    exact and_comm
  | append bs =>
    simp only [Write.play, hroom, accept_accept, Write.Goes, Write.Notices, Write.bytes,
      Bool.or_eq_true, decide_eq_true_eq, true_and, implies_true, and_true, not_and, not_not]
    cases fits (room.map (· - s.length)) bs.length <;> simp
  | fflush =>
    have hbuf : ((opened b room).accept s).buf = [] := rfl
    have hflush : ((opened b room).accept s).fflush = (true, (opened b room).accept s) := by
      rw [OutFile.fflush_eq, hbuf, List.length_nil, fits_zero, accept_nil]
      rfl
    simp only [Write.play, hflush, Write.Goes, Write.Notices, Write.bytes, List.append_nil,
      not_false_eq_true, and_self, implies_true]
  | putc bs => exact hw.elim
  | fwrite bs => exact hw.elim
  | fwriteOk bs => exact hw.elim

/-! ## Writes through the buffer -/

theorem play_after {w : Write} (hw : w.AtBuffer) (s : Bytes)
    (h : ∀ k, s.length < k → k ≤ s.length + w.bytes.length → ¬ Refused b room k) :
    w.play (after b room s) = (decide w.Goes, after b room (s ++ w.bytes)) := by
  cases w with
  | putc bs => rw [Write.play, putcs_after]; rfl
  | fwrite bs =>
    have hgoes : decide (Write.fwrite bs).Goes = true := decide_eq_true trivial
    rw [hgoes, Write.play, OutFile.fwrite, Write.bytes]
    by_cases hbs : bs = []
    · rw [if_pos hbs, hbs, List.append_nil]
    · rw [if_neg hbs, putAll_after s bs h]
  | fwriteOk bs =>
    by_cases hbs : bs = []
    · simp [Write.play, OutFile.fwrite, hbs, Write.bytes, Write.Goes]
    · rw [Write.play, OutFile.fwrite, if_neg hbs, putAll_after s bs h]
      simp [Write.Goes, hbs, Write.bytes]
  | fflush => exact hw.elim
  | writeFull bs => exact hw.elim
  | append bs => exact hw.elim

theorem err_after_of_refused {s : Bytes} {k : ℕ} (hk : k ≤ s.length)
    (h : Refused b room k) : (after b room s).err = true := by
  rw [err_after]
  cases hf : fits room (b.gone s.length) with
  | false => rfl
  | true => exact absurd h (not_refused_of_fits hf hk)

theorem fwrite_after_refused (s : Bytes) {bs : Bytes} {k : ℕ} (hk : s.length < k)
    (hk' : k ≤ s.length + bs.length) (h : Refused b room k) :
    ((after b room s).fwrite bs).1 = false ∧ ((after b room s).fwrite bs).2.err = true := by
  have hbs : bs ≠ [] := by
    rintro rfl
    rw [List.length_nil] at hk'
    omega
  obtain ⟨pre, -, hr, he⟩ := putAll_after_refused s bs hk hk' h
  rw [OutFile.fwrite, if_neg hbs, he]
  exact ⟨rfl, err_after_of_refused le_rfl hr⟩

theorem tracks_after {w : Write} (hw : w.Tracked) :
    Tracks b room (after b room) w := by
  intro s
  cases w with
  | putc bs => simp [Write.play, putcs_after, Write.Goes, Write.Notices, Write.bytes]
  | fwriteOk bs =>
    by_cases hn : (Write.fwriteOk bs).Notices b room s.length
    · obtain ⟨k, hk, hk', hr⟩ := hn
      have hstop := (fwrite_after_refused s hk hk' hr).1
      rw [show ((Write.fwriteOk bs).play (after b room s)).1 = false from hstop]
      refine ⟨iff_of_false Bool.false_ne_true fun h => h.2 ⟨k, hk, hk', hr⟩, ?_⟩
      exact fun h => Bool.noConfusion h
    · have hno : ∀ k, s.length < k → k ≤ s.length + bs.length → ¬ Refused b room k :=
        fun k hk hk' hr => hn ⟨k, hk, hk', hr⟩
      rw [play_after (w := .fwriteOk bs) trivial s hno]
      simp only [decide_eq_true_eq, hn, not_false_eq_true, and_true, implies_true]
  | fwrite bs => exact hw.elim
  | fflush => exact hw.elim
  | writeFull bs => exact hw.elim
  | append bs => exact hw.elim

/-! ### The error flag stays -/

theorem err_flush {o : OutFile} (h : o.err = true) (k : ℕ) : (o.flush k).2.err = true := by
  unfold OutFile.flush
  split
  · exact h
  · rfl

theorem err_putc {o : OutFile} (h : o.err = true) (c : Byte) : (o.putc c).2.err = true :=
  err_flush (o := { o with count := o.count + 1, buf := o.buf ++ [c] }) h _

theorem err_putcs {o : OutFile} (h : o.err = true) (bs : Bytes) : (o.putcs bs).err = true := by
  induction bs generalizing o with
  | nil => exact h
  | cons b bs ih => rw [putcs_cons]; exact ih (err_putc h b)

theorem err_putAll {o : OutFile} (h : o.err = true) (bs : Bytes) :
    (o.putAll bs).2.err = true := by
  induction bs generalizing o with
  | nil => exact h
  | cons b bs ih =>
    rw [putAll]
    split
    · exact ih (err_putc h b)
    · exact err_putc h b

theorem err_fwrite {o : OutFile} (h : o.err = true) (bs : Bytes) :
    (o.fwrite bs).2.err = true := by
  unfold OutFile.fwrite
  split
  · exact h
  · exact err_putAll h bs

theorem err_play {o : OutFile} (h : o.err = true) (w : Write) : (w.play o).2.err = true := by
  cases w with
  | putc bs => exact err_putcs h bs
  | fwrite bs => exact err_fwrite h bs
  | fwriteOk bs => exact err_fwrite h bs
  | fflush => exact err_flush h _
  | writeFull bs => exact h
  | append bs => exact h

theorem err_playAll {o : OutFile} (h : o.err = true) (ws : List Write) :
    (playAll ws o).2.err = true := by
  induction ws generalizing o with
  | nil => exact h
  | cons w ws ih =>
    rw [playAll]
    split
    · exact ih (err_play h w)
    · exact err_play h w

/-! ### A refused flush -/

theorem play_after_refused {w : Write} (hw : w.AtBuffer) (s : Bytes) {k : ℕ}
    (hk : s.length < k) (hk' : k ≤ s.length + w.bytes.length) (h : Refused b room k) :
    (w.play (after b room s)).2.err = true := by
  cases w with
  | putc bs =>
    rw [Write.play, putcs_after]
    exact err_after_of_refused (by rw [List.length_append]; exact hk') h
  | fwrite bs => exact (fwrite_after_refused s hk hk' h).2
  | fwriteOk bs => exact (fwrite_after_refused s hk hk' h).2
  | fflush => exact hw.elim
  | writeFull bs => exact hw.elim
  | append bs => exact hw.elim

/-- **After a refused flush the program has stopped, or the error flag is set.** -/
theorem playAll_after_refused {ws : List Write} (hws : ∀ w ∈ ws, w.AtBuffer)
    (s : Bytes) {k : ℕ} (hk : s.length < k) (hk' : k ≤ s.length + (bytesOf ws).length)
    (h : Refused b room k) :
    (playAll ws (after b room s)).1 = false ∨ (playAll ws (after b room s)).2.err = true := by
  induction ws generalizing s with
  | nil =>
    rw [bytesOf_nil, List.length_nil] at hk'
    omega
  | cons w ws ih =>
    have hw := hws w List.mem_cons_self
    by_cases href : ∃ k, s.length < k ∧ k ≤ s.length + w.bytes.length ∧ Refused b room k
    · -- the flag is set during this write, and it stays set
      obtain ⟨k, hk, hk', h⟩ := href
      have herr := play_after_refused hw s hk hk' h
      refine Or.inr ?_
      rw [playAll]
      split
      · exact err_playAll herr ws
      · exact herr
    · have hno : ∀ k, s.length < k → k ≤ s.length + w.bytes.length → ¬ Refused b room k :=
        fun k hk hk' h => href ⟨k, hk, hk', h⟩
      have hlt : s.length + w.bytes.length < k := by
        by_contra hle
        exact hno k hk (by omega) h
      rw [playAll, play_after hw s hno]
      by_cases hg : w.Goes
      · rw [if_pos (decide_eq_true hg)]
        refine ih (fun v hv => hws v (List.mem_cons_of_mem _ hv)) _ ?_ ?_
        · rwa [List.length_append]
        · simp only [bytesOf_cons, List.length_append] at hk' ⊢
          omega
      · exact Or.inl (by rw [if_neg (by simpa using hg)])

theorem playAll_after {ws : List Write} (hws : ∀ w ∈ ws, w.AtBuffer) (s : Bytes)
    (h : ∀ k, s.length < k → k ≤ s.length + (bytesOf ws).length → ¬ Refused b room k) :
    ((playAll ws (after b room s)).1 = true ↔ ∀ w ∈ ws, w.Goes) ∧
      ((playAll ws (after b room s)).1 = true →
        (playAll ws (after b room s)).2 = after b room (s ++ bytesOf ws)) := by
  induction ws generalizing s with
  | nil => simp [playAll]
  | cons w ws ih =>
    simp only [bytesOf_cons, List.length_append] at h
    have hstep := play_after (hws w List.mem_cons_self) s
      fun k hk hk' => h k hk (by omega)
    obtain ⟨ih₁, ih₂⟩ := ih (fun v hv => hws v (List.mem_cons_of_mem _ hv)) (s ++ w.bytes)
      fun k hk hk' => h k (by rw [List.length_append] at hk; omega)
        (by rw [List.length_append] at hk'; omega)
    rw [playAll, hstep, List.forall_mem_cons, bytesOf_cons, ← List.append_assoc]
    by_cases hg : w.Goes
    · rw [if_pos (decide_eq_true hg), and_iff_right hg]
      exact ⟨ih₁, ih₂⟩
    · rw [if_neg (by simpa using hg)]
      exact ⟨iff_of_false Bool.false_ne_true fun h => hg h.1, fun h => Bool.noConfusion h⟩

/-! ## Scripts -/

/-- The program does not look at the error flag. -/
def Verdict.Blind : Verdict → Prop
  | checked _ => False
  | status _ | exit _ | diverge => True

namespace Script

/-- A script whose status depends on the room in one way: if 0 comes without a look at the error
flag, then each write is noticed or lost as a whole; otherwise all go through the buffer. -/
def OneWay (sc : Script) : Prop :=
  match sc.verdict with
  | .status n => n ≠ 0 ∨ (∀ w ∈ sc.writes, w.Tracked) ∨ ∀ w ∈ sc.writes, w.AtDevice
  | .checked _ => ∀ w ∈ sc.writes, w.AtBuffer
  | .exit _ | .diverge => True

theorem oneWay_of_tracked {sc : Script} (h : ∀ w ∈ sc.writes, w.Tracked) : sc.OneWay := by
  obtain ⟨ws, v⟩ := sc
  cases v with
  | status n => exact Or.inr (Or.inl h)
  | checked n => exact fun w hw => (h w hw).atBuffer
  | exit n => trivial
  | diverge => trivial

theorem oneWay_of_atDevice {sc : Script} (h : ∀ w ∈ sc.writes, w.AtDevice)
    (hv : sc.verdict.Blind) : sc.OneWay := by
  obtain ⟨ws, v⟩ := sc
  cases v with
  | status n => exact Or.inr (Or.inr h)
  | checked n => exact hv.elim
  | exit n => trivial
  | diverge => trivial

/-- The script returns 0 on a device with this room, behind a buffer as `b` says: no shortage is
noticed, by a write or by a look at the error flag, which stands for the flushes up to then. -/
def Passes (b : Buffering) (room : Option ℕ) (sc : Script) : Prop :=
  (∀ w ∈ sc.writes, w.Goes) ∧
    match sc.verdict with
    | .status n => n = 0 ∧ Silent b room 0 sc.writes
    | .checked n => n = 0 ∧ fits room (b.gone (bytesOf sc.writes).length) = true
    | .exit _ | .diverge => False

end Script

theorem written_accept (s : Bytes) : ((opened b room).accept s).written = taken room s := by
  have hbuf : ((opened b room).accept s).buf = [] := rfl
  rw [written_eq, hbuf, taken_nil, List.append_nil]
  rfl

section Playback

variable {ws : List Write} {n : ℕ}

theorem playback_status_iff (o o' : OutFile) :
    (Script.mk ws (.status n)).playback o = .ret 0 o' ↔
      (playAll ws o).1 = true ∧ n = 0 ∧ (playAll ws o).2 = o' := by
  rw [Script.playback]
  cases (playAll ws o).1 <;> simp [Verdict.close]

theorem playback_checked_iff (o o' : OutFile) :
    (Script.mk ws (.checked n)).playback o = .ret 0 o' ↔
      (playAll ws o).1 = true ∧ n = 0 ∧ (playAll ws o).2.err = false ∧ (playAll ws o).2 = o' := by
  rw [Script.playback]
  cases (playAll ws o).1 <;> cases he : (playAll ws o).2.err <;> simp [Verdict.close, he]

theorem not_playback_exit (o o' : OutFile) :
    (Script.mk ws (.exit n)).playback o ≠ .ret 0 o' := by
  rw [Script.playback]
  cases (playAll ws o).1 <;> simp [Verdict.close]

theorem not_playback_diverge (o o' : OutFile) :
    (Script.mk ws .diverge).playback o ≠ .ret 0 o' := by
  rw [Script.playback]
  cases (playAll ws o).1 <;> simp [Verdict.close]

theorem exists_tracks (b : Buffering) (room : Option ℕ)
    (h : (∀ w ∈ ws, w.Tracked) ∨ ∀ w ∈ ws, w.AtDevice) :
    ∃ st : Bytes → OutFile, st [] = opened b room ∧ (∀ s, (st s).written = taken room s) ∧
      ∀ w ∈ ws, Tracks b room st w := by
  rcases h with h | h
  · exact ⟨after b room, after_nil b room, written_after, fun w hw => tracks_after (h w hw)⟩
  · exact ⟨fun s => (opened b room).accept s, accept_nil _, written_accept,
      fun w hw => tracks_atDevice (h w hw)⟩

theorem playback_tracked (b : Buffering) (room : Option ℕ)
    (h : (∀ w ∈ ws, w.Tracked) ∨ ∀ w ∈ ws, w.AtDevice) :
    ((∃ o, (Script.mk ws (.status 0)).playback (opened b room) = .ret 0 o) ↔
        (∀ w ∈ ws, w.Goes) ∧ Silent b room 0 ws) ∧
      ∀ o, (Script.mk ws (.status 0)).playback (opened b room) = .ret 0 o →
        o.written = taken room (bytesOf ws) := by
  obtain ⟨st, hnil, hwritten, htracks⟩ := exists_tracks b room h
  obtain ⟨hgo, hst⟩ := playAll_tracked htracks []
  simp only [playback_status_iff, ← hnil]
  constructor
  · have hgo' : (playAll ws (st [])).1 = true ↔ (∀ w ∈ ws, w.Goes) ∧ Silent b room 0 ws := hgo
    rw [← hgo']
    simp
  · rintro o ⟨hp, -, rfl⟩
    rw [hst hp, hwritten, List.nil_append]

theorem playback_checked (b : Buffering) (room : Option ℕ) (h : ∀ w ∈ ws, w.AtBuffer) :
    ((∃ o, (Script.mk ws (.checked 0)).playback (opened b room) = .ret 0 o) ↔
        (∀ w ∈ ws, w.Goes) ∧ fits room (b.gone (bytesOf ws).length) = true) ∧
      ∀ o, (Script.mk ws (.checked 0)).playback (opened b room) = .ret 0 o →
        o.written = taken room (bytesOf ws) := by
  simp only [playback_checked_iff, ← after_nil, true_and]
  cases hfit : fits room (b.gone (bytesOf ws).length) with
  | true =>
    obtain ⟨hgo, hst⟩ := playAll_after h []
      fun k _ hk => not_refused_of_fits hfit (by simpa using hk)
    rw [List.nil_append] at hst
    constructor
    · rw [← hgo, and_iff_left rfl]
      constructor
      · rintro ⟨o, hp, -⟩
        exact hp
      · intro hp
        exact ⟨_, hp, by rw [hst hp, err_after, hfit]; rfl, rfl⟩
    · rintro o ⟨hp, -, rfl⟩
      rw [hst hp, written_after]
  | false =>
    -- the last flush before the end is refused
    have hno : ∀ o, ¬ ((playAll ws (after b room [])).1 = true ∧
        (playAll ws (after b room [])).2.err = false ∧ (playAll ws (after b room [])).2 = o) := by
      rintro o ⟨hp, he, -⟩
      obtain ⟨k, hpos, hle, hr⟩ := exists_refused hfit
      rcases playAll_after_refused h [] hpos (by simpa using hle) hr with h' | h'
      · rw [hp] at h'
        cases h'
      · rw [he] at h'
        cases h'
    refine ⟨iff_of_false ?_ fun h => Bool.noConfusion h.2, fun o h => absurd h (hno o)⟩
    rintro ⟨o, h⟩
    exact hno o h

end Playback

/-- **When a script returns 0**, and what is then on the device. -/
theorem playback_zero {sc : Script} (b : Buffering) (room : Option ℕ) (h : sc.OneWay) :
    ((∃ o, sc.playback (opened b room) = .ret 0 o) ↔ sc.Passes b room) ∧
      ∀ o, sc.playback (opened b room) = .ret 0 o → o.written = taken room (bytesOf sc.writes) := by
  obtain ⟨ws, v⟩ := sc
  cases v with
  | exit n => simp [not_playback_exit, Script.Passes]
  | diverge => simp [not_playback_diverge, Script.Passes]
  | status n =>
    by_cases hn : n = 0
    · subst hn
      have := playback_tracked b room (h.resolve_left (not_not.mpr rfl))
      simpa only [Script.Passes, true_and] using this
    · simp [playback_status_iff, Script.Passes, hn]
  | checked n =>
    by_cases hn : n = 0
    · subst hn
      have := playback_checked b room h
      simpa only [Script.Passes, true_and] using this
    · simp [playback_checked_iff, Script.Passes, hn]

/-! ## Complete files -/

theorem Script.Passes.result {sc : Script} (h : sc.OneWay) (hp : sc.Passes b room) :
    sc.Uniform ∧ sc.result = ⟨some 0, bytesOf sc.writes⟩ := by
  obtain ⟨ws, v⟩ := sc
  obtain ⟨hgoes, hv⟩ := hp
  have hbuffered : (∀ w ∈ ws, w.AtBuffer) → ∀ w ∈ ws, w.Buffered :=
    fun h w hw => (h w hw).buffered (hgoes w hw)
  cases v with
  | exit n => exact hv.elim
  | diverge => exact hv.elim
  | checked n =>
    obtain ⟨rfl, -⟩ := hv
    exact ⟨Or.inl (hbuffered h), rfl⟩
  | status n =>
    obtain ⟨rfl, -⟩ := hv
    refine ⟨?_, rfl⟩
    rcases h.resolve_left (not_not.mpr rfl) with h | h
    · exact Or.inl (hbuffered fun w hw => (h w hw).atBuffer)
    · exact Or.inr fun w hw => (h w hw).direct (hgoes w hw)

/-- **What `write_full` does not stop has been written.** -/
theorem fits_of_silent {ws : List Write} (hws : ∀ w ∈ ws, w.Full) {a : ℕ}
    (ha : fits room a = true) (h : Silent b room a ws) :
    fits room (a + (bytesOf ws).length) = true := by
  induction ws generalizing a with
  | nil => exact ha
  | cons w ws ih =>
    obtain ⟨hn, hs⟩ := h
    have hw := hws w List.mem_cons_self
    have hstep : fits room (a + w.bytes.length) = true := by
      cases w with
      | fflush => exact ha
      | writeFull bs =>
        have hfit : fits (room.map (· - a)) bs.length = true := by
          simpa [Write.Notices] using hn
        rcases Nat.eq_zero_or_pos bs.length with h0 | hpos
        · rwa [Write.bytes, h0]
        · rwa [fits_sub _ _ hpos] at hfit
      | putc bs => exact hw.elim
      | fwrite bs => exact hw.elim
      | fwriteOk bs => exact hw.elim
      | append bs => exact hw.elim
    rw [bytesOf_cons, List.length_append, ← Nat.add_assoc]
    exact ih (fun v hv => hws v (List.mem_cons_of_mem _ hv)) hstep hs

/-- A script of such writes that does not look at the error flag passes only if its bytes fit. -/
theorem Script.Passes.fits {sc : Script} (hws : ∀ w ∈ sc.writes, w.Full)
    (hv : sc.verdict.Blind) (hp : sc.Passes b room) :
    fits room (bytesOf sc.writes).length = true := by
  obtain ⟨ws, v⟩ := sc
  obtain ⟨-, hp⟩ := hp
  cases v with
  | status n =>
    have := fits_of_silent hws (fits_zero room) hp.2
    rwa [Nat.zero_add] at this
  | checked n => exact hv.elim
  | exit n => exact hp.elim
  | diverge => exact hp.elim

/-- **A script that returns 0 has left all its bytes on the device**, exactly unless it passes
though they do not fit. -/
theorem complete_iff {sc : Script} (h : sc.OneWay) (b : Buffering) (room : Option ℕ) :
    (∀ out, (sc.playback (opened b room)).view OutFile.written = .ret 0 out →
        Result.of (sc.playback (opened b none)) = ⟨some 0, out⟩) ↔
      ¬ (sc.Passes b room ∧ fits room (bytesOf sc.writes).length = false) := by
  obtain ⟨hpasses, hwritten⟩ := playback_zero b room h
  simp only [Outcome.view_eq_ret]
  constructor
  · rintro hall ⟨hp, hfit⟩
    obtain ⟨hu, hr⟩ := hp.result h
    obtain ⟨o, ho⟩ := hpasses.mpr hp
    have hout := hall _ ⟨o, ho, rfl⟩
    rw [playback_opened hu, hr, hwritten o ho, Result.mk.injEq] at hout
    have hlen := congrArg List.length hout.2
    cases hroom : room with
    | none => rw [hroom] at hfit; cases hfit
    | some r =>
      rw [hroom, fits, decide_eq_false_iff_not] at hfit
      rw [hroom, taken, List.length_take] at hlen
      omega
  · rintro hno out ⟨o, ho, rfl⟩
    have hp := hpasses.mp ⟨o, ho⟩
    obtain ⟨hu, hr⟩ := hp.result h
    rw [playback_opened hu, hr, hwritten o ho]
    cases hroom : room with
    | none => rfl
    | some r =>
      have hfit : fits room (bytesOf sc.writes).length = true := by
        by_contra hf
        exact hno ⟨hp, by simpa using hf⟩
      rw [hroom, fits, decide_eq_true_eq] at hfit
      rw [taken, List.take_of_length_le hfit]

/-! ## A stream that programs share -/

/-- Nothing has failed on the stream, and nothing can. -/
structure OutFile.Sound (o : OutFile) : Prop where
  room : o.room = none
  err : o.err = false

namespace Script

/-- All writes go through the buffer, or all go past it after an `fflush`. -/
def Appends (sc : Script) : Prop :=
  (∀ w ∈ sc.writes, w.AtBuffer) ∨ ∃ ws, sc.writes = .fflush :: ws ∧ ∀ w ∈ ws, w.AtDevice

/-- On such a stream the script returns 0. -/
def Accepts (sc : Script) : Prop :=
  (∀ w ∈ sc.writes, w.Goes) ∧ (sc.verdict = .status 0 ∨ sc.verdict = .checked 0)

variable {sc : Script} {o o' : OutFile}

/-- **What the buffer holds stays in front** of what the script writes. -/
theorem Appends.plays (h : sc.Appends) (hg : ∀ w ∈ sc.writes, w.Goes) (ho : o.Sound) :
    (playAll sc.writes o).1 = true ∧ (playAll sc.writes o).2.Sound ∧
      (playAll sc.writes o).2.written = o.written ++ bytesOf sc.writes := by
  rcases h with h | ⟨ws, hws, h⟩
  · obtain ⟨h₁, h₂, h₃, h₄⟩ :=
      playAll_of_room (fun w hw => (h w hw).buffered (hg w hw)) ho.room
    exact ⟨h₁, ⟨h₂, h₃.trans ho.err⟩, h₄⟩
  · rw [hws] at hg ⊢
    have hflush := OutFile.fflush_of_room ho.room
    obtain ⟨h₁, h₂, h₃, h₄⟩ := playAll_direct (o := { o with dev := o.dev ++ o.buf, buf := [] })
      (fun w hw => (h w hw).direct (hg w (List.mem_cons_of_mem _ hw))) ho.room rfl
    rw [OutFile.written_of_room ho.room] at *
    simp only [playAll, Write.play, hflush, if_true]
    refine ⟨h₁, ⟨h₂, h₃.trans ho.err⟩, ?_⟩
    rw [h₄, OutFile.written_of_room (o := { o with dev := o.dev ++ o.buf, buf := [] }) ho.room]
    simp [Write.bytes]

/-- **A script that is accepted appends its bytes.** -/
theorem Accepts.playback (h : sc.Accepts) (ha : sc.Appends) (ho : o.Sound) :
    ∃ o', sc.playback o = .ret 0 o' ∧ o'.Sound ∧ o'.written = o.written ++ bytesOf sc.writes := by
  obtain ⟨h₁, h₂, h₃⟩ := ha.plays h.1 ho
  refine ⟨_, ?_, h₂, h₃⟩
  rw [Script.playback, if_pos h₁]
  rcases h.2 with hv | hv <;> rw [hv, Verdict.close]
  rw [h₂.err]
  rfl

theorem accepts_of_playback (ho : o.Sound) (h : sc.playback o = .ret 0 o') : sc.Accepts := by
  obtain ⟨hgoes, herr⟩ := playAll_goes sc.writes ho.room
  rw [Script.playback, hgoes] at h
  by_cases hg : ∀ w ∈ sc.writes, w.Goes
  · rw [if_pos (decide_eq_true hg)] at h
    refine ⟨hg, ?_⟩
    cases hv : sc.verdict with
    | status n =>
      rw [hv] at h
      cases h
      exact Or.inl rfl
    | checked n =>
      rw [hv, Verdict.close, herr, ho.err] at h
      cases h
      exact Or.inr rfl
    | exit n =>
      rw [hv] at h
      cases h
    | diverge =>
      rw [hv] at h
      cases h
  · rw [if_neg (by simpa using hg)] at h
    cases h

end Script

end CProg
