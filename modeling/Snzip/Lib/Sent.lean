import Snzip.Lib.Limited

set_option autoImplicit false

/-!
# What a script has sent

A write that cannot succeed stops a program in the middle of its script. On a device without a limit
the bytes that are then in the file can be read off the script.

* `sent`: the bytes of the writes, up to the first that stops the program;
* **`sent_prefix`**: more writes send more bytes behind those that are there;
* **`playAll_sent`**, **`view_playback`**: a run and its file, however it is buffered.
-/

namespace CProg

/-- The bytes of the writes, up to the first that stops the program. -/
def sent : List Write → Bytes
  | [] => []
  | w :: ws => w.bytes ++ if w.Goes then sent ws else []

@[simp] theorem sent_nil : sent [] = [] := rfl

/-- **More writes send more bytes**, behind those that are there. -/
theorem sent_prefix {ws vs : List Write} (h : ws <+: vs) : sent ws <+: sent vs := by
  obtain ⟨us, rfl⟩ := h
  induction ws with
  | nil => exact List.nil_prefix
  | cons w ws ih =>
    rw [List.cons_append, sent, sent, List.prefix_append_right_inj]
    split
    · exact ih
    · exact List.nil_prefix

theorem sent_append {ws : List Write} (h : ∀ w ∈ ws, w.Goes) (vs : List Write) :
    sent (ws ++ vs) = bytesOf ws ++ sent vs := by
  induction ws with
  | nil => rfl
  | cons w ws ih =>
    rw [List.cons_append, sent, if_pos (h w List.mem_cons_self), bytesOf_cons, List.append_assoc,
      ih fun v hv => h v (List.mem_cons_of_mem _ hv)]

theorem sent_of_goes {ws : List Write} (h : ∀ w ∈ ws, w.Goes) : sent ws = bytesOf ws := by
  have := sent_append h []
  rwa [List.append_nil, sent_nil, List.append_nil] at this

/-! ## Writes on a device without a limit -/

/-- On the streams in `R` the write appends its bytes, and they stay in `R`. -/
def Write.AppendsOn (R : OutFile → Prop) (w : Write) : Prop :=
  ∀ o, R o → R (w.play o).2 ∧ (w.play o).2.written = o.written ++ w.bytes

theorem Write.AtBuffer.appendsOn {w : Write} (h : w.AtBuffer) :
    w.AppendsOn fun o => o.room = none := by
  intro o ho
  cases w with
  | putc bs =>
    obtain ⟨h₁, -, h₂⟩ := OutFile.putcs_of_room bs ho
    exact ⟨h₁, h₂⟩
  | fwrite bs | fwriteOk bs =>
    obtain ⟨-, h₁, -, h₂⟩ := OutFile.fwrite_of_room bs ho
    exact ⟨h₁, h₂⟩
  | fflush | writeFull bs | append bs => exact h.elim

theorem Write.AtDevice.appendsOn {w : Write} (h : w.AtDevice) :
    w.AppendsOn fun o => o.room = none ∧ o.buf = [] := by
  rintro o ⟨hr, hb⟩
  have haccept : ∀ bs, ((o.accept bs).room = none ∧ (o.accept bs).buf = []) ∧
      (o.accept bs).written = o.written ++ bs := by
    intro bs
    have hr' : (o.accept bs).room = none := by simp [OutFile.accept, hr]
    refine ⟨⟨hr', hb⟩, ?_⟩
    rw [OutFile.written_of_room hr', OutFile.written_of_room hr]
    simp [OutFile.accept, taken, hr, hb]
  cases w with
  | writeFull bs | append bs => exact haccept bs
  | fflush =>
    have hr' : ({ o with dev := o.dev ++ o.buf, buf := [] } : OutFile).room = none := hr
    rw [Write.play, OutFile.fflush_of_room hr]
    refine ⟨⟨hr, rfl⟩, ?_⟩
    rw [OutFile.written_of_room hr', OutFile.written_of_room hr]
    simp [Write.bytes]
  | putc bs | fwrite bs | fwriteOk bs => exact h.elim

/-- **The file after a list of writes.** -/
theorem playAll_sent {R : OutFile → Prop} (hR : ∀ o, R o → o.room = none) {ws : List Write}
    (h : ∀ w ∈ ws, w.AppendsOn R) {o : OutFile} (ho : R o) :
    (playAll ws o).2.written = o.written ++ sent ws := by
  induction ws generalizing o with
  | nil => rw [playAll, sent_nil, List.append_nil]
  | cons w ws ih =>
    obtain ⟨hR', hwritten⟩ := h w List.mem_cons_self o ho
    obtain ⟨hgo, -⟩ := goes_iff_play (hR o ho) w
    rw [playAll, hgo, sent]
    by_cases hg : w.Goes
    · rw [if_pos (decide_eq_true hg), if_pos hg,
      ih (fun v hv => h v (List.mem_cons_of_mem _ hv)) hR',
        hwritten, List.append_assoc]
    · rw [if_neg (by simpa using hg), if_neg hg, hwritten, List.append_nil]

/-- Every write goes through the buffer, or every one goes past it. -/
def Script.OneSided (sc : Script) : Prop :=
  (∀ w ∈ sc.writes, w.AtBuffer) ∨ ∀ w ∈ sc.writes, w.AtDevice

/-- How a run of the script ends, and with which bytes in the file. -/
def Script.final (sc : Script) : Outcome Bytes ℕ :=
  if ∀ w ∈ sc.writes, w.Goes then
    match sc.verdict with
    | .status n | .checked n => .ret n (sent sc.writes)
    | .exit n => .exit n (sent sc.writes)
    | .diverge => .diverge
  else .ret 1 (sent sc.writes)

/-- **A run** without a limit, however it is buffered. -/
theorem view_playback {sc : Script} (h : sc.OneSided) (B : Buffering) :
    (sc.playback (OutFile.opened B none)).view OutFile.written = sc.final := by
  have hwritten : (playAll sc.writes (OutFile.opened B none)).2.written =
      sent sc.writes := by
    rcases h with h | h
    · rw [playAll_sent (fun o ho => ho) (fun w hw => (h w hw).appendsOn) rfl,
        OutFile.written_opened, List.nil_append]
    · rw [playAll_sent (fun o ho => ho.1) (fun w hw => (h w hw).appendsOn) ⟨rfl, rfl⟩,
        OutFile.written_opened, List.nil_append]
  obtain ⟨hgo, herr⟩ := playAll_goes sc.writes (o := OutFile.opened B none) rfl
  have herr : (playAll sc.writes (OutFile.opened B none)).2.err = false := herr
  rw [Script.playback, hgo, Script.final, ← hwritten]
  by_cases hg : ∀ w ∈ sc.writes, w.Goes
  · rw [if_pos (decide_eq_true hg), if_pos hg]
    cases sc.verdict <;> simp [Verdict.close, herr]
  · rw [if_neg (by simpa using hg), if_neg hg]
    rfl

theorem result_playback {sc : Script} (h : sc.OneSided) (hv : sc.verdict ≠ .diverge)
    (B : Buffering) : Result.of (sc.playback (OutFile.opened B none)) =
      ⟨if (∀ w ∈ sc.writes, w.Goes) then sc.result.status else some 1, sent sc.writes⟩ := by
  have hview : ∀ r : Outcome OutFile ℕ, Result.of r = match r.view OutFile.written with
      | .ret n x | .exit n x => ⟨some n, x⟩
      | .diverge => ⟨none, []⟩ := by
    intro r
    cases r <;> rfl
  rw [hview, view_playback h, Script.final, Script.result]
  by_cases hg : ∀ w ∈ sc.writes, w.Goes
  · rw [if_pos hg, if_pos hg]
    cases hc : sc.verdict with
    | status n | checked n | exit n => rfl
    | diverge => exact absurd hc hv
  · rw [if_neg hg, if_neg hg]

end CProg
