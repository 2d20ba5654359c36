import Snzip.Lib.Prog
import Snzip.Lib.Stdio

set_option autoImplicit false

/-!
# Output scripts

A filter reads its input and writes its output. What it writes does not depend on the device, only
how far it gets does: so for each input it is a **script**, a list of writes with a verdict at the
end, and a run is the playback of the script on an output stream.

* `Write`, `Write.play`: one write, with what the program does about its result;
* `Script`, `Script.playback`;
* **`playAll_of_room`**: on a device without a limit every buffered script is written in full;
* `playAll_direct`: the same for writes below an empty buffer;
* `Result`, `Script.result`, **`playback_opened`**: what a script leaves behind;
* `Write.Goes`, **`status_playback`**: its status, whatever it writes; `Script.Succeeds`;
* `Script.Exits`, **`exit_playback_iff`**: the scripts that end the process.
-/

namespace CProg

/-- One write of a program. The results of `putc`, `fwrite` and `fflush` are not looked at; after
`fwriteOk`, `writeFull` and `append` the program goes on only if the whole item was written. The
last two learn that from an `int`, which `writeFull` compares with the `size_t` count and `append`
with the count as an `int`. -/
inductive Write where
  | putc (bs : Bytes)
  | fwrite (bs : Bytes)
  | fwriteOk (bs : Bytes)
  | fflush
  | writeFull (bs : Bytes)
  | append (bs : Bytes)
  deriving DecidableEq

namespace Write

/-- The bytes of a write. -/
def bytes : Write → Bytes
  | putc bs | fwrite bs | fwriteOk bs | writeFull bs | append bs => bs
  | fflush => []

/-- One write on an output stream; `false` stops the program. -/
def play (o : OutFile) : Write → Bool × OutFile
  | putc bs => (true, o.putcs bs)
  | fwrite bs => (true, (o.fwrite bs).2)
  | fwriteOk bs => o.fwrite bs
  | fflush => (true, o.fflush.2)
  | writeFull bs => (fits o.room bs.length && decide (bs.length < 2 ^ 31), o.accept bs)
  | append bs => (fits o.room bs.length || decide (bs.length % 2 ^ 32 = 2 ^ 32 - 1), o.accept bs)

end Write

/-- Writes in sequence, up to the first that stops the program. -/
def playAll : List Write → OutFile → Bool × OutFile
  | [], o => (true, o)
  | w :: ws, o => if (w.play o).1 then playAll ws (w.play o).2 else (false, (w.play o).2)

theorem playAll_append (ws vs : List Write) (o : OutFile) :
    playAll (ws ++ vs) o =
      if (playAll ws o).1 then playAll vs (playAll ws o).2 else (false, (playAll ws o).2) := by
  induction ws generalizing o with
  | nil => simp [playAll]
  | cons w ws ih =>
    simp only [List.cons_append, playAll]
    split
    · exact ih _
    · simp

/-- All the bytes of a list of writes. -/
def bytesOf (ws : List Write) : Bytes := ws.flatMap Write.bytes

@[simp] theorem bytesOf_nil : bytesOf [] = [] := rfl

@[simp] theorem bytesOf_cons (w : Write) (ws : List Write) :
    bytesOf (w :: ws) = w.bytes ++ bytesOf ws := rfl

@[simp] theorem bytesOf_append (ws vs : List Write) :
    bytesOf (ws ++ vs) = bytesOf ws ++ bytesOf vs := List.flatMap_append

@[simp] theorem bytesOf_flatMap {α : Type} (ws : α → List Write) (ds : List α) :
    bytesOf (ds.flatMap ws) = ds.flatMap fun d => bytesOf (ws d) := List.flatMap_assoc

theorem bytesOf_map {w : Bytes → Write} (h : ∀ d, (w d).bytes = d) (ds : List Bytes) :
    bytesOf (ds.map w) = ds.flatten := by
  simp only [bytesOf, List.flatMap_map, h, List.flatMap_id']

/-- What a program does after its last write: return a status, return it unless the stream has its
error flag set, end the process, or never end. -/
inductive Verdict where
  | status (n : ℕ)
  | checked (n : ℕ)
  | exit (n : ℕ)
  | diverge
  deriving DecidableEq

/-- The outcome of a verdict on the stream at the end. -/
def Verdict.close (o : OutFile) : Verdict → Outcome OutFile ℕ
  | status n => .ret n o
  | checked n => .ret (if o.err then 1 else n) o
  | exit n => .exit n o
  | diverge => .diverge

/-- A program's writes, and its verdict when all of them are done. -/
structure Script where
  writes : List Write
  verdict : Verdict
  deriving DecidableEq

namespace Script

/-- A run of a script: a write that stops the program makes it return 1. -/
def playback (sc : Script) (o : OutFile) : Outcome OutFile ℕ :=
  if (playAll sc.writes o).1 then sc.verdict.close (playAll sc.writes o).2
  else .ret 1 (playAll sc.writes o).2

/-- A script with more writes in front. -/
def after (ws : List Write) (sc : Script) : Script := ⟨ws ++ sc.writes, sc.verdict⟩

theorem playback_after (ws : List Write) (sc : Script) (o : OutFile) :
    (sc.after ws).playback o =
      if (playAll ws o).1 then sc.playback (playAll ws o).2 else .ret 1 (playAll ws o).2 := by
  simp only [playback, after, playAll_append]
  split <;> simp

@[simp] theorem after_nil (sc : Script) : sc.after [] = sc := rfl

@[simp] theorem after_verdict (ws : List Write) (v : Verdict) :
    (Script.mk [] v).after ws = ⟨ws, v⟩ := by simp [after]

theorem after_append (ws vs : List Write) (sc : Script) :
    (sc.after vs).after ws = sc.after (ws ++ vs) := by
  simp [after]

end Script

/-! ## A device without a limit -/

/-- A write through the buffer that can succeed. -/
def Write.Buffered : Write → Prop
  | putc _ | fwrite _ | fflush => True
  | fwriteOk bs => bs ≠ []
  | writeFull _ | append _ => False

/-- A write below the buffer that can succeed. -/
def Write.Direct : Write → Prop
  | writeFull bs => bs.length < 2 ^ 31
  | fflush | append _ => True
  | putc _ | fwrite _ | fwriteOk _ => False

theorem play_of_room {o : OutFile} (ho : o.room = none) {w : Write} (hw : w.Buffered) :
    (w.play o).1 = true ∧ (w.play o).2.room = none ∧ (w.play o).2.err = o.err ∧
      (w.play o).2.written = o.written ++ w.bytes := by
  cases w with
  | putc bs => exact ⟨rfl, OutFile.putcs_of_room bs ho⟩
  | fwrite bs => exact ⟨rfl, (OutFile.fwrite_of_room bs ho).2⟩
  | fwriteOk bs =>
    obtain ⟨h₁, h₂⟩ := OutFile.fwrite_of_room bs ho
    exact ⟨h₁.trans (decide_eq_true hw), h₂⟩
  | fflush =>
    have hr : ({ o with dev := o.dev ++ o.buf, buf := [] } : OutFile).room = none := ho
    simp only [Write.play, OutFile.fflush_of_room ho, Write.bytes, List.append_nil]
    exact ⟨trivial, ho, trivial,
      by rw [OutFile.written_of_room hr, OutFile.written_of_room ho, List.append_nil]⟩
  | writeFull bs => exact hw.elim
  | append bs => exact hw.elim

/-- **Without a limit a buffered list of writes is written in full.** -/
theorem playAll_of_room {ws : List Write} (hws : ∀ w ∈ ws, w.Buffered) {o : OutFile}
    (ho : o.room = none) :
    (playAll ws o).1 = true ∧ (playAll ws o).2.room = none ∧ (playAll ws o).2.err = o.err ∧
      (playAll ws o).2.written = o.written ++ bytesOf ws := by
  induction ws generalizing o with
  | nil => simp [playAll, ho]
  | cons w ws ih =>
    obtain ⟨h₁, h₂, h₃, h₄⟩ := play_of_room ho (hws w List.mem_cons_self)
    obtain ⟨i₁, i₂, i₃, i₄⟩ := ih (fun v hv => hws v (List.mem_cons_of_mem _ hv)) h₂
    rw [playAll, h₁, if_pos rfl]
    exact ⟨i₁, i₂, i₃.trans h₃, by rw [i₄, h₄, bytesOf_cons, List.append_assoc]⟩

theorem playAll_direct {ws : List Write} (hws : ∀ w ∈ ws, w.Direct) {o : OutFile}
    (ho : o.room = none) (hb : o.buf = []) :
    (playAll ws o).1 = true ∧ (playAll ws o).2.room = none ∧ (playAll ws o).2.err = o.err ∧
      (playAll ws o).2.written = o.written ++ bytesOf ws := by
  induction ws generalizing o with
  | nil => simp [playAll, ho]
  | cons w ws ih =>
    have hw := hws w List.mem_cons_self
    have hstep : (w.play o).1 = true ∧ (w.play o).2.room = none ∧ (w.play o).2.buf = [] ∧
        (w.play o).2.err = o.err ∧ (w.play o).2.written = o.written ++ w.bytes := by
      cases w with
      | writeFull bs =>
        have hr : (o.accept bs).room = none := by simp [OutFile.accept, ho]
        refine ⟨by simp [Write.play, fits, ho]; exact hw, hr, hb, rfl, ?_⟩
        rw [Write.play, OutFile.written_of_room hr, OutFile.written_of_room ho]
        simp [OutFile.accept, taken, ho, hb, Write.bytes]
      | append bs =>
        have hr : (o.accept bs).room = none := by simp [OutFile.accept, ho]
        refine ⟨by simp [Write.play, fits, ho], hr, hb, rfl, ?_⟩
        rw [Write.play, OutFile.written_of_room hr, OutFile.written_of_room ho]
        simp [OutFile.accept, taken, ho, hb, Write.bytes]
      | fflush =>
        have hr : ({ o with dev := o.dev ++ o.buf, buf := [] } : OutFile).room = none := ho
        simp only [Write.play, OutFile.fflush_of_room ho]
        refine ⟨trivial, ho, trivial, trivial, ?_⟩
        rw [OutFile.written_of_room hr, OutFile.written_of_room ho]
        simp [Write.bytes]
      | putc bs => exact hw.elim
      | fwrite bs => exact hw.elim
      | fwriteOk bs => exact hw.elim
    obtain ⟨h₁, h₂, h₃, h₄, h₅⟩ := hstep
    obtain ⟨i₁, i₂, i₃, i₄⟩ := ih (fun v hv => hws v (List.mem_cons_of_mem _ hv)) h₂ h₃
    rw [playAll, h₁, if_pos rfl]
    exact ⟨i₁, i₂, i₃.trans h₄, by rw [i₄, h₅, bytesOf_cons, List.append_assoc]⟩

/-! ## Results -/

/-- What a program leaves behind: its status, `none` if it never ends, and the bytes of its file. -/
structure Result where
  status : Option ℕ
  written : Bytes
  deriving DecidableEq

/-- The result of an outcome; a process that ends by `exit` flushes its streams too. -/
def Result.of : Outcome OutFile ℕ → Result
  | .ret n o => ⟨some n, o.written⟩
  | .exit n o => ⟨some n, o.written⟩
  | .diverge => ⟨none, []⟩

/-- The result of a script when nothing fails. -/
def Script.result (sc : Script) : Result :=
  match sc.verdict with
  | .status n | .checked n | .exit n => ⟨some n, bytesOf sc.writes⟩
  | .diverge => ⟨none, []⟩

/-- Every write of the script goes through the buffer, or every one goes past it. -/
def Script.Uniform (sc : Script) : Prop :=
  (∀ w ∈ sc.writes, w.Buffered) ∨ (∀ w ∈ sc.writes, w.Direct)

theorem playback_opened {sc : Script} (h : sc.Uniform) (B : Buffering) :
    Result.of (sc.playback (OutFile.opened B none)) = sc.result := by
  have hplay : (playAll sc.writes (OutFile.opened B none)).1 = true ∧
      (playAll sc.writes (OutFile.opened B none)).2.err = false ∧
      (playAll sc.writes (OutFile.opened B none)).2.written = bytesOf sc.writes := by
    rcases h with h | h
    · obtain ⟨h₁, -, h₂, h₃⟩ := playAll_of_room h (o := OutFile.opened B none) rfl
      exact ⟨h₁, h₂, by rw [h₃, OutFile.written_opened, List.nil_append]⟩
    · obtain ⟨h₁, -, h₂, h₃⟩ := playAll_direct h (o := OutFile.opened B none) rfl rfl
      exact ⟨h₁, h₂, by rw [h₃, OutFile.written_opened, List.nil_append]⟩
  obtain ⟨h₁, h₂, h₃⟩ := hplay
  rw [Script.playback, if_pos h₁, Script.result]
  cases sc.verdict <;> simp [Verdict.close, Result.of, h₂, h₃]

/-! ## The status -/

/-- A write that lets the program go on when the device takes everything. -/
def Write.Goes : Write → Prop
  | fwriteOk bs => bs ≠ []
  | writeFull bs => bs.length < 2 ^ 31
  | putc _ | fwrite _ | fflush | append _ => True

instance (w : Write) : Decidable w.Goes := by
  cases w <;> unfold Write.Goes <;> infer_instance

theorem Write.Buffered.goes {w : Write} (h : w.Buffered) : w.Goes := by
  cases w with
  | fwriteOk bs => exact h
  | writeFull bs | append bs => exact h.elim
  | putc bs | fwrite bs | fflush => trivial

theorem goes_iff_play {o : OutFile} (ho : o.room = none) (w : Write) :
    (w.play o).1 = decide w.Goes ∧ (w.play o).2.room = none ∧ (w.play o).2.err = o.err := by
  have haccept : ∀ bs, (o.accept bs).room = none := fun bs => by simp [OutFile.accept, ho]
  cases w with
  | putc bs =>
    obtain ⟨h₁, h₂, -⟩ := OutFile.putcs_of_room bs ho
    exact ⟨rfl, h₁, h₂⟩
  | fwrite bs =>
    obtain ⟨-, h₁, h₂, -⟩ := OutFile.fwrite_of_room bs ho
    exact ⟨rfl, h₁, h₂⟩
  | fwriteOk bs =>
    obtain ⟨h, h₁, h₂, -⟩ := OutFile.fwrite_of_room bs ho
    exact ⟨h, h₁, h₂⟩
  | fflush =>
    simp only [Write.play, OutFile.fflush_of_room ho]
    exact ⟨rfl, ho, trivial⟩
  | writeFull bs => exact ⟨by simp [Write.play, fits, ho, Write.Goes], haccept bs, rfl⟩
  | append bs =>
    have hgoes : decide (Write.append bs).Goes = true := decide_eq_true trivial
    exact ⟨by rw [hgoes, Write.play, ho]; rfl, haccept bs, rfl⟩

/-- Without a limit a program gets through its writes if each of them can succeed. -/
theorem playAll_goes (ws : List Write) {o : OutFile} (ho : o.room = none) :
    (playAll ws o).1 = decide (∀ w ∈ ws, w.Goes) ∧ (playAll ws o).2.err = o.err := by
  induction ws generalizing o with
  | nil => simp [playAll]
  | cons w ws ih =>
    obtain ⟨h₁, h₂, h₃⟩ := goes_iff_play ho w
    rw [playAll, h₁]
    by_cases hw : w.Goes
    · obtain ⟨i₁, i₂⟩ := ih h₂
      simp [hw, i₁, i₂, h₃]
    · simp [hw, h₃]

/-- **The status of a script on a device without a limit.** -/
theorem status_playback (sc : Script) (B : Buffering) :
    (Result.of (sc.playback (OutFile.opened B none))).status =
      if (∀ w ∈ sc.writes, w.Goes) then sc.result.status else some 1 := by
  obtain ⟨h₁, h₂⟩ := playAll_goes sc.writes (o := OutFile.opened B none) rfl
  have herr : (OutFile.opened B none).err = false := rfl
  rw [Script.playback, h₁, Script.result]
  by_cases h : ∀ w ∈ sc.writes, w.Goes
  · rw [if_pos (decide_eq_true h), if_pos h]
    cases sc.verdict <;> simp [Verdict.close, Result.of, h₂, herr]
  · rw [if_neg (by simpa using h), if_neg h]
    rfl

/-- Without a limit the script runs to its end with status 0. -/
def Script.Succeeds (sc : Script) : Prop :=
  (∀ w ∈ sc.writes, w.Goes) ∧ sc.result.status = some 0

theorem Script.succeeds_after {ws : List Write} {sc : Script} :
    (sc.after ws).Succeeds ↔ (∀ w ∈ ws, w.Goes) ∧ sc.Succeeds := by
  simp only [Script.Succeeds, Script.after, Script.result, List.forall_mem_append]
  cases sc.verdict <;> simp [and_assoc]

theorem Script.succeeds_mk {v : Verdict} :
    (Script.mk [] v).Succeeds ↔ v = .status 0 ∨ v = .checked 0 ∨ v = .exit 0 := by
  cases v <;> simp [Script.Succeeds, Script.result]

/-- **A script that comes to an end succeeds or fails.** -/
theorem fails_iff_not_succeeds {sc : Script} (h : sc.verdict ≠ .diverge) (B : Buffering) :
    (∃ n, (Result.of (sc.playback (OutFile.opened B none))).status = some n ∧ n ≠ 0) ↔
      ¬ sc.Succeeds := by
  obtain ⟨n, hn⟩ : ∃ n, sc.result.status = some n := by
    rw [Script.result]
    cases hv : sc.verdict with
    | diverge => exact absurd hv h
    | status n => exact ⟨n, rfl⟩
    | checked n => exact ⟨n, rfl⟩
    | exit n => exact ⟨n, rfl⟩
  rw [status_playback, Script.Succeeds, hn]
  by_cases hw : ∀ w ∈ sc.writes, w.Goes
  · rw [if_pos hw]
    constructor
    · rintro ⟨m, hm, h0⟩ hs
      exact h0 (Option.some.inj (hm.symm.trans hs.2))
    · intro hs
      exact ⟨n, rfl, fun h0 => hs ⟨hw, by rw [h0]⟩⟩
  · rw [if_neg hw]
    simp [hw]

/-! ## The end of the process -/

/-- The program comes back to its caller. -/
def Verdict.Returns : Verdict → Prop
  | status _ | checked _ => True
  | exit _ | diverge => False

/-- Without a limit the script ends the process with status `n`. -/
def Script.Exits (sc : Script) (n : ℕ) : Prop :=
  (∀ w ∈ sc.writes, w.Goes) ∧ sc.verdict = .exit n

/-- **When a script ends the process.** -/
theorem exit_playback_iff {sc : Script} {n : ℕ} (B : Buffering) :
    (∃ o, sc.playback (OutFile.opened B none) = .exit n o) ↔ sc.Exits n := by
  obtain ⟨h₁, -⟩ := playAll_goes sc.writes (o := OutFile.opened B none) rfl
  rw [Script.playback, h₁, Script.Exits]
  by_cases h : ∀ w ∈ sc.writes, w.Goes
  · rw [if_pos (decide_eq_true h), and_iff_right h]
    cases sc.verdict <;> simp [Verdict.close]
  · rw [if_neg (by simpa using h)]
    simp [h]

theorem Script.exits_after {ws : List Write} {sc : Script} {n : ℕ} :
    (sc.after ws).Exits n ↔ (∀ w ∈ ws, w.Goes) ∧ sc.Exits n := by
  simp only [Script.Exits, Script.after, List.forall_mem_append, and_assoc]

theorem Script.not_exits {sc : Script} (h : sc.verdict.Returns) (n : ℕ) : ¬ sc.Exits n := by
  rintro ⟨-, hv⟩
  rw [hv] at h
  exact h

end CProg
