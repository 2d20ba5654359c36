import Mathlib.Logic.Function.Iterate
import Snzip.Lib.ByteOrder

set_option autoImplicit false

/-!
# C streams

An input stream delivers bytes and then ends, by end of file or by a read error. An output stream
is a buffer in front of a device that takes a limited number of bytes; a flush that the device
refuses sets the error flag and loses what did not fit.

* `InFile`: `getc`, `fread`, `freadBytes`; `InFile.Ok`: the flags tell the truth about the end;
* `OutFile`: `putc`, `fwrite`, `fflush`, and `write` on the descriptor below the buffer;
* `written`: what the file holds after a last flush; without a limit every write appends to it;
* `Buffering`: when the bytes leave the buffer; `Buffering.stdio`: when it is full and one more
  comes;
* **`putc_after`**: on a device with `N` bytes of room, the stream after any bytes is `after b N` of
  them, and a byte is refused when the flush it sets off goes past `N`.
-/

namespace CProg

/-! ## Input streams -/

/-- An input stream: the bytes it still delivers, whether it then fails instead of ending, and the
flags that `feof` and `ferror` look at. -/
structure InFile where
  rest : Bytes
  fault : Bool
  eof : Bool
  err : Bool
  deriving DecidableEq

namespace InFile

/-- A stream that has just been opened. -/
def opened (s : Bytes) : InFile := ⟨s, false, false, false⟩

/-- A stream that delivers these bytes and then fails. -/
def failing (s : Bytes) : InFile := ⟨s, true, false, false⟩

/-- The stream after an attempt to read past its last byte. -/
def hitEnd (i : InFile) : InFile :=
  { i with rest := [], eof := i.eof || !i.fault, err := i.err || i.fault }

/-- `getc(fp)`, `none` for `EOF`. -/
def getc (i : InFile) : Chr × InFile :=
  match i.rest with
  | [] => (none, i.hitEnd)
  | b :: bs => (some b, { i with rest := bs })

/-- `fread(buf, size, 1, fp)`: the item if it is complete. An item of size 0 is never read. -/
def fread (size : ℕ) (i : InFile) : Option Bytes × InFile :=
  if size = 0 then (none, i)
  else if size ≤ i.rest.length then
    (some (i.rest.take size), { i with rest := i.rest.drop size })
  else (none, i.hitEnd)

/-- `fread(buf, 1, n, fp)`: as many bytes as there are, at most `n`. -/
def freadBytes (n : ℕ) (i : InFile) : Bytes × InFile :=
  (i.rest.take n, if n ≤ i.rest.length then { i with rest := i.rest.drop n } else i.hitEnd)

/-- The stream after `getc`. -/
def next (i : InFile) : InFile := i.getc.2

theorem next_hitEnd (i : InFile) : i.hitEnd.next = i.hitEnd := by
  cases i with
  | mk rest fault eof err => cases fault <;> simp [next, getc, hitEnd]

theorem iterate_next_short (n : ℕ) {i : InFile} (h : i.rest.length < n) :
    next^[n] i = i.hitEnd := by
  induction n generalizing i with
  | zero => omega
  | succ n ih =>
    rw [Function.iterate_succ_apply]
    cases hr : i.rest with
    | nil =>
      have hn : i.next = i.hitEnd := by simp [next, getc, hr]
      rw [hn]
      exact Function.iterate_fixed (next_hitEnd i) n
    | cons b s =>
      have hn : i.next = { i with rest := s } := by simp [next, getc, hr]
      rw [hr, List.length_cons] at h
      rw [hn, ih (show s.length < n by omega)]
      rfl

theorem iterate_next {n : ℕ} {i : InFile} (h : n ≤ i.rest.length) :
    next^[n] i = { i with rest := i.rest.drop n } := by
  induction n generalizing i with
  | zero => rfl
  | succ n ih =>
    rw [Function.iterate_succ_apply]
    cases hr : i.rest with
    | nil => rw [hr, List.length_nil] at h; omega
    | cons b s =>
      have hn : i.next = { i with rest := s } := by simp [next, getc, hr]
      rw [hr, List.length_cons] at h
      rw [hn, ih (show n ≤ s.length by omega)]
      rfl

/-- The end-of-file and error flags are set only at the end they stand for. -/
structure Ok (i : InFile) : Prop where
  eof : i.eof = true → i.rest = [] ∧ i.fault = false
  err : i.err = true → i.rest = [] ∧ i.fault = true

theorem ok_opened (s : Bytes) : (opened s).Ok :=
  ⟨fun h => Bool.noConfusion h, fun h => Bool.noConfusion h⟩

theorem ok_failing (s : Bytes) : (failing s).Ok :=
  ⟨fun h => Bool.noConfusion h, fun h => Bool.noConfusion h⟩

theorem Ok.hitEnd {i : InFile} (h : i.Ok) : i.hitEnd.Ok := by
  refine ⟨fun he => ⟨rfl, ?_⟩, fun he => ⟨rfl, ?_⟩⟩
  · simp only [InFile.hitEnd, Bool.or_eq_true, Bool.not_eq_true'] at he
    exact he.elim (fun h' => (h.eof h').2) id
  · simp only [InFile.hitEnd, Bool.or_eq_true] at he
    exact he.elim (fun h' => (h.err h').2) id

theorem Ok.flags {i : InFile} (h : i.Ok) (hr : i.rest ≠ []) : i.eof = false ∧ i.err = false := by
  constructor
  · by_contra he
    exact hr (h.eof (by simpa using he)).1
  · by_contra he
    exact hr (h.err (by simpa using he)).1

theorem Ok.drop {i : InFile} (h : i.Ok) (hr : i.rest ≠ []) (s : Bytes) :
    ({ i with rest := s } : InFile).Ok := by
  obtain ⟨h₁, h₂⟩ := h.flags hr
  exact ⟨fun he => absurd (h₁ ▸ he) (by decide), fun he => absurd (h₂ ▸ he) (by decide)⟩

theorem Ok.err_hitEnd {i : InFile} (h : i.Ok) : i.hitEnd.err = i.fault := by
  cases he : i.err with
  | false => simp [InFile.hitEnd, he]
  | true => simp [InFile.hitEnd, he, (h.err he).2]

theorem Ok.eof_hitEnd {i : InFile} (h : i.Ok) : i.hitEnd.eof = !i.fault := by
  cases he : i.eof with
  | false => simp [InFile.hitEnd, he]
  | true => simp [InFile.hitEnd, he, (h.eof he).2]

theorem Ok.freadBytes {i : InFile} (h : i.Ok) (n : ℕ) : (i.freadBytes n).2.Ok := by
  unfold InFile.freadBytes
  split
  · by_cases hr : i.rest = []
    · obtain ⟨rest, fault, eof, err⟩ := i
      simp only at hr
      subst hr
      simpa using h
    · exact h.drop hr _
  · exact h.hitEnd

theorem rest_freadBytes (n : ℕ) (i : InFile) : (i.freadBytes n).2.rest = i.rest.drop n := by
  unfold InFile.freadBytes
  split
  · rfl
  · exact (List.drop_of_length_le (by omega)).symm

theorem fault_freadBytes (n : ℕ) (i : InFile) : (i.freadBytes n).2.fault = i.fault := by
  unfold InFile.freadBytes
  split <;> rfl

theorem freadBytes_nil {n : ℕ} (hn : 0 < n) {i : InFile} (h : i.rest = []) :
    i.freadBytes n = ([], i.hitEnd) := by
  simp only [InFile.freadBytes, h, List.take_nil, List.length_nil]
  rw [if_neg (by omega)]

end InFile

/-! ## Output streams -/

/-- The bytes that fit a limited room. -/
def taken (room : Option ℕ) (bs : Bytes) : Bytes :=
  match room with
  | none => bs
  | some r => bs.take r

/-- Whether `n` bytes fit a limited room. -/
def fits (room : Option ℕ) (n : ℕ) : Bool :=
  match room with
  | none => true
  | some r => decide (n ≤ r)

/-- How a stream is buffered: the size of the buffer, and how many bytes leave it when the `n`-th
byte of the stream comes as the `l`-th of the buffer. The moment is left to the library: a full
buffer may wait for one more byte, and the bytes of a large item may go past it. -/
structure Buffering where
  size : ℕ
  gives : ℕ → ℕ → ℕ
  le : ∀ n l, gives n l ≤ l
  keeps : ∀ n l, l ≤ size + 1 → l ≤ gives n l + size

/-- A full buffer is flushed when one more byte comes; a buffer of size 0 keeps nothing. -/
def Buffering.stdio (size : ℕ) : Buffering where
  size := size
  gives _ l := if l ≤ size then 0 else max 1 size
  le _ l := by split <;> omega
  keeps _ l _ := by split <;> omega

/-- An output stream: the bytes on the device and the room left there, the buffer with the number of
bytes that have come to it, and the flag that `ferror` looks at. -/
structure OutFile where
  dev : Bytes
  room : Option ℕ
  buffering : Buffering
  count : ℕ
  buf : Bytes
  err : Bool

namespace OutFile

/-- A file that has just been opened for writing. -/
def opened (b : Buffering) (room : Option ℕ) : OutFile := ⟨[], room, b, 0, [], false⟩

/-- The device takes bytes while it has room. -/
def accept (bs : Bytes) (o : OutFile) : OutFile :=
  { o with dev := o.dev ++ taken o.room bs, room := o.room.map (· - bs.length) }

/-- Hand the first `k` bytes of the buffer to the device. What a full device refuses is lost. -/
def flush (k : ℕ) (o : OutFile) : Bool × OutFile :=
  if fits o.room (o.buf.take k).length then
    (true, { o.accept (o.buf.take k) with buf := o.buf.drop k })
  else (false, { o.accept (o.buf.take k) with buf := o.buf.drop k, err := true })

/-- Hand the buffer to the device. -/
def fflush (o : OutFile) : Bool × OutFile := o.flush o.buf.length

/-- Store a byte, and flush what the buffer does not keep. -/
def putc (c : Byte) (o : OutFile) : Bool × OutFile :=
  flush (o.buffering.gives (o.count + 1) (o.buf.length + 1))
    { o with count := o.count + 1, buf := o.buf ++ [c] }

/-- Byte after byte, up to the first that is refused. -/
def putAll : Bytes → OutFile → Bool × OutFile
  | [], o => (true, o)
  | b :: bs, o => if (o.putc b).1 then putAll bs (o.putc b).2 else (false, (o.putc b).2)

/-- `putc` after `putc`, whatever it returns. -/
def putcs (bs : Bytes) (o : OutFile) : OutFile := bs.foldl (fun o b => (o.putc b).2) o

@[simp] theorem putcs_nil (o : OutFile) : o.putcs [] = o := rfl

@[simp] theorem putcs_cons (b : Byte) (bs : Bytes) (o : OutFile) :
    o.putcs (b :: bs) = (o.putc b).2.putcs bs := rfl

/-- `fwrite(buf, n, 1, fp) == 1`. An item of size 0 is never written. -/
def fwrite (bs : Bytes) (o : OutFile) : Bool × OutFile :=
  if bs = [] then (false, o) else putAll bs o

/-- `write(2)`: how many bytes were taken, `none` for a failure. One call takes at most
`0x7ffff000` bytes. -/
def write (bs : Bytes) (o : OutFile) : Option ℕ × OutFile :=
  if fits o.room 1 || bs.isEmpty then
    ((some (taken o.room (bs.take 0x7ffff000)).length), o.accept (bs.take 0x7ffff000))
  else (none, o)

/-- What the file holds after a last flush. -/
def written (o : OutFile) : Bytes := (o.fflush.2).dev

@[simp] theorem taken_nil (room : Option ℕ) : taken room [] = [] := by
  cases room <;> simp [taken]

theorem fflush_eq (o : OutFile) : o.fflush =
    (fits o.room o.buf.length,
      { o.accept o.buf with buf := [], err := o.err || !fits o.room o.buf.length }) := by
  rw [fflush, flush, List.take_length, List.drop_length]
  cases hf : fits o.room o.buf.length <;> simp [accept]

theorem written_eq (o : OutFile) : o.written = o.dev ++ taken o.room o.buf := by
  rw [written, fflush_eq]
  rfl

/-- The stream of a new process on the same device, when the process before has ended. -/
def reopened (o : OutFile) : OutFile := { o.fflush.2 with count := 0, err := false }

@[simp] theorem written_reopened (o : OutFile) : o.reopened.written = o.written := by
  rw [written_eq, reopened, written, fflush_eq]
  simp

@[simp] theorem written_opened (b : Buffering) (room : Option ℕ) :
    (opened b room).written = [] := by
  cases room <;> simp [opened, written_eq, taken]

theorem taken_append (room : Option ℕ) (a b : Bytes) :
    taken room a ++ taken (room.map (· - a.length)) b = taken room (a ++ b) := by
  cases room with
  | none => rfl
  | some r => simp [taken, List.take_append]

theorem fits_sub (room : Option ℕ) (a : ℕ) {b : ℕ} (hb : 0 < b) :
    fits (room.map (· - a)) b = fits room (a + b) := by
  cases room with
  | none => rfl
  | some r =>
    simp only [fits, Option.map_some]
    exact decide_eq_decide.mpr (by omega)

theorem fits_mono {room : Option ℕ} {a b : ℕ} (h : fits room b = true) (hab : a ≤ b) :
    fits room a = true := by
  cases room with
  | none => rfl
  | some r => simp only [fits, decide_eq_true_eq] at h ⊢; omega

theorem room_sub (room : Option ℕ) (a b : ℕ) :
    (room.map (· - a)).map (· - b) = room.map (· - (a + b)) := by
  cases room <;> simp [Nat.sub_sub]

theorem accept_accept (o : OutFile) (a b : Bytes) :
    (o.accept a).accept b = o.accept (a ++ b) := by
  simp only [accept, List.append_assoc, taken_append, room_sub, List.length_append]

@[simp] theorem fits_zero (room : Option ℕ) : fits room 0 = true := by
  cases room <;> simp [fits]

@[simp] theorem accept_nil (o : OutFile) : o.accept [] = o := by
  cases o with
  | mk dev room b count buf err => cases room <;> simp [accept, taken]

theorem accept_full {o : OutFile} (h : o.room = some 0) (bs : Bytes) : o.accept bs = o := by
  cases o
  simp_all [accept, taken]

/-- **A call of `write(2)` that takes something** leaves the rest to be accepted. -/
theorem write_some {o o' : OutFile} {bs : Bytes} {n : ℕ} (hne : bs ≠ [])
    (h : o.write bs = (some n, o')) :
    0 < n ∧ n ≤ bs.length ∧ o'.accept (bs.drop n) = o.accept bs ∧
      fits o'.room (bs.drop n).length = fits o.room bs.length := by
  have hpos : 0 < bs.length := List.length_pos_iff.mpr hne
  unfold write at h
  split at h
  · next hc =>
    have h1 : fits o.room 1 = true := by simpa [hne] using hc
    simp only [Prod.mk.injEq, Option.some.injEq] at h
    obtain ⟨rfl, rfl⟩ := h
    generalize hM : 0x7ffff000 = M
    have hM0 : 0 < M := by omega
    have hlen : (bs.take M).length = min M bs.length := List.length_take
    have hsplit : (o.accept (bs.take M)).accept (bs.drop M) = o.accept bs := by
      rw [accept_accept, List.take_append_drop]
    by_cases hf : fits o.room (bs.take M).length = true
    · -- the whole call is taken
      have hn : (taken o.room (bs.take M)).length = min M bs.length := by
        cases hr : o.room with
        | none => simp [taken]
        | some r =>
          simp only [hr, fits, decide_eq_true_eq] at hf
          rw [taken, List.length_take, hlen]
          omega
      have hdrop : bs.drop (min M bs.length) = bs.drop M := by
        rcases Nat.le_total M bs.length with h | h
        · rw [Nat.min_eq_left h]
        · rw [Nat.min_eq_right h, List.drop_length, List.drop_of_length_le h]
      rw [hn, hdrop]
      refine ⟨by omega, Nat.min_le_right _ _, hsplit, ?_⟩
      rcases Nat.lt_or_ge M bs.length with h | h
      · simp only [accept]
        rw [fits_sub _ _ (by rw [List.length_drop]; omega), hlen, List.length_drop]
        congr 1
        omega
      · rw [List.drop_of_length_le h, List.length_nil, fits_zero]
        rw [hlen, Nat.min_eq_right h] at hf
        exact hf.symm
    · -- the device is full after this call
      cases hr : o.room with
      | none => simp [fits, hr] at hf
      | some r =>
        simp only [hr, fits, decide_eq_true_eq] at hf h1
        have hn : (taken o.room (bs.take M)).length = r := by
          rw [hr, taken, List.length_take]
          omega
        have hfull : (o.accept (bs.take M)).room = some 0 := by
          simp only [accept, hr, Option.map_some, Option.some.injEq]
          omega
        rw [← hr, hn]
        refine ⟨by omega, by omega, ?_, ?_⟩
        · rw [accept_full hfull, ← hsplit, accept_full hfull]
        · rw [hfull, hr]
          simp only [fits, List.length_drop]
          exact decide_eq_decide.mpr (by omega)
  · cases h

theorem write_none {o o' : OutFile} {bs : Bytes} (hne : bs ≠ [])
    (h : o.write bs = (none, o')) :
    o' = o ∧ o.accept bs = o ∧ fits o.room bs.length = false := by
  have hpos : 0 < bs.length := List.length_pos_iff.mpr hne
  unfold write at h
  split at h
  · cases h
  · next hc =>
    have h1 : fits o.room 1 = false := by simpa [hne] using hc
    cases hr : o.room with
    | none => simp [fits, hr] at h1
    | some r =>
      simp only [hr, fits, decide_eq_false_iff_not] at h1
      have hr0 : o.room = some 0 := by rw [hr]; congr 1; omega
      refine ⟨(congrArg Prod.snd h).symm, accept_full hr0 bs, ?_⟩
      simp only [fits, decide_eq_false_iff_not]
      omega

/-! ### The error flag -/

theorem err_of_flush {o : OutFile} {k : ℕ} (h : (o.flush k).1 = false) :
    (o.flush k).2.err = true := by
  unfold flush at h ⊢
  split <;> simp_all

theorem err_of_putc {o : OutFile} {c : Byte} (h : (o.putc c).1 = false) :
    (o.putc c).2.err = true := err_of_flush h

theorem err_of_putAll {o : OutFile} {bs : Bytes} (h : (o.putAll bs).1 = false) :
    (o.putAll bs).2.err = true := by
  induction bs generalizing o with
  | nil => simp [putAll] at h
  | cons b bs ih =>
    rw [putAll] at h ⊢
    split
    · next hb =>
      rw [if_pos hb] at h
      exact ih h
    · next hb => exact err_of_putc (by simpa using hb)

/-- **A failed `fwrite` of a non-empty item leaves the error flag set.** -/
theorem err_of_fwrite {o : OutFile} {bs : Bytes} (hne : bs ≠ []) (h : (o.fwrite bs).1 = false) :
    (o.fwrite bs).2.err = true := by
  rw [fwrite, if_neg hne] at h ⊢
  exact err_of_putAll h

/-! ### Without a limit -/

section Unlimited

variable {o : OutFile}

theorem written_of_room (h : o.room = none) : o.written = o.dev ++ o.buf := by
  rw [written_eq, h]
  rfl

theorem fflush_of_room (h : o.room = none) :
    o.fflush = (true, { o with dev := o.dev ++ o.buf, buf := [] }) := by
  rw [fflush_eq]
  simp [accept, taken, fits, h]

theorem flush_of_room (h : o.room = none) (k : ℕ) :
    (o.flush k).1 = true ∧ (o.flush k).2.room = none ∧ (o.flush k).2.err = o.err ∧
      (o.flush k).2.written = o.written := by
  have hflush : o.flush k =
      (true, { o with dev := o.dev ++ o.buf.take k, buf := o.buf.drop k }) := by
    simp [flush, accept, taken, fits, h]
  have hroom : ({ o with dev := o.dev ++ o.buf.take k, buf := o.buf.drop k } : OutFile).room =
      none := h
  rw [hflush]
  refine ⟨rfl, h, rfl, ?_⟩
  rw [written_of_room hroom, written_of_room h, List.append_assoc, List.take_append_drop]

theorem putc_of_room (h : o.room = none) (c : Byte) :
    (o.putc c).1 = true ∧ (o.putc c).2.room = none ∧ (o.putc c).2.err = o.err ∧
      (o.putc c).2.written = o.written ++ [c] := by
  have hstored : ({ o with count := o.count + 1, buf := o.buf ++ [c] } : OutFile).room = none := h
  obtain ⟨h₁, h₂, h₃, h₄⟩ :=
    flush_of_room hstored (o.buffering.gives (o.count + 1) (o.buf.length + 1))
  refine ⟨h₁, h₂, h₃, h₄.trans ?_⟩
  rw [written_of_room hstored, written_of_room h, List.append_assoc]

theorem putAll_of_room (bs : Bytes) (h : o.room = none) :
    (o.putAll bs).1 = true ∧ (o.putAll bs).2.room = none ∧ (o.putAll bs).2.err = o.err ∧
      (o.putAll bs).2.written = o.written ++ bs := by
  induction bs generalizing o with
  | nil => simp [putAll, h]
  | cons b bs ih =>
    obtain ⟨h₁, h₂, h₃, h₄⟩ := putc_of_room h b
    obtain ⟨i₁, i₂, i₃, i₄⟩ := ih h₂
    rw [putAll, h₁, if_pos rfl]
    exact ⟨i₁, i₂, i₃.trans h₃, by rw [i₄, h₄, List.append_assoc, List.singleton_append]⟩

theorem putcs_of_room (bs : Bytes) (h : o.room = none) :
    (o.putcs bs).room = none ∧ (o.putcs bs).err = o.err ∧
      (o.putcs bs).written = o.written ++ bs := by
  induction bs generalizing o with
  | nil => simp [h]
  | cons b bs ih =>
    obtain ⟨-, h₂, h₃, h₄⟩ := putc_of_room h b
    obtain ⟨i₂, i₃, i₄⟩ := ih h₂
    rw [putcs_cons]
    exact ⟨i₂, i₃.trans h₃, by rw [i₄, h₄, List.append_assoc, List.singleton_append]⟩

theorem fwrite_of_room (bs : Bytes) (h : o.room = none) :
    (o.fwrite bs).1 = decide (bs ≠ []) ∧ (o.fwrite bs).2.room = none ∧
      (o.fwrite bs).2.err = o.err ∧ (o.fwrite bs).2.written = o.written ++ bs := by
  unfold fwrite
  split
  · next hb => simp [hb, h]
  · next hb =>
    obtain ⟨h₁, h₂⟩ := putAll_of_room bs h
    exact ⟨by simp [h₁, hb], h₂⟩

end Unlimited

/-! ### A device with limited room -/

end OutFile

namespace Buffering

variable (b : Buffering)

/-- How many of the first `n` bytes of a stream have left its buffer. -/
def gone : ℕ → ℕ
  | 0 => 0
  | n + 1 => gone n + b.gives (n + 1) (n + 1 - gone n)

theorem gone_le (n : ℕ) : b.gone n ≤ n := by
  induction n with
  | zero => exact le_rfl
  | succ n ih =>
    have := b.le (n + 1) (n + 1 - b.gone n)
    rw [gone]
    omega

theorem gone_mono : Monotone b.gone := monotone_nat_of_le_succ fun _ => Nat.le_add_right _ _

theorem le_gone_add_size (n : ℕ) : n ≤ b.gone n + b.size := by
  induction n with
  | zero => exact Nat.zero_le _
  | succ n ih =>
    have := b.keeps (n + 1) (n + 1 - b.gone n) (by omega)
    rw [gone]
    omega

example : (List.range 6).map (Buffering.stdio 2).gone = [0, 0, 0, 2, 2, 4] := by decide

end Buffering

namespace OutFile

section Limited

variable {b : Buffering} {room : Option ℕ}

/-- The stream when `s` has come to it and the first `p` bytes have left the buffer, on a device
with `room`. -/
def flushed (b : Buffering) (room : Option ℕ) (s : Bytes) (p : ℕ) : OutFile where
  dev := taken room (s.take p)
  room := room.map (· - p)
  buffering := b
  count := s.length
  buf := s.drop p
  err := !fits room p

theorem flush_flushed {s : Bytes} {p k : ℕ} (h : p + k ≤ s.length) :
    (flushed b room s p).flush k = (k == 0 || fits room (p + k), flushed b room s (p + k)) := by
  have hlen : ((s.drop p).take k).length = k := by
    rw [List.length_take, List.length_drop]
    omega
  have hp : (s.take p).length = p := by
    rw [List.length_take]
    omega
  have hdev : taken room (s.take p) ++ taken (room.map (· - p)) ((s.drop p).take k) =
      taken room (s.take (p + k)) := by
    have := taken_append room (s.take p) ((s.drop p).take k)
    rwa [hp, ← List.take_add] at this
  simp only [flush, accept, flushed, hlen, hdev, room_sub, List.drop_drop]
  rcases Nat.eq_zero_or_pos k with rfl | hk
  · simp
  · rw [fits_sub room p hk, beq_false_of_ne (Nat.pos_iff_ne_zero.mp hk), Bool.false_or]
    cases hf : fits room (p + k) with
    | true => simp [fits_mono hf (Nat.le_add_right p k)]
    | false => simp

/-- The stream after the bytes `s`. -/
def after (b : Buffering) (room : Option ℕ) (s : Bytes) : OutFile :=
  flushed b room s (b.gone s.length)

theorem after_nil (b : Buffering) (room : Option ℕ) : after b room [] = opened b room := by
  cases room <;> simp [after, flushed, opened, Buffering.gone, taken, fits]

theorem length_buf_after (s : Bytes) : (after b room s).buf.length ≤ b.size := by
  have := b.le_gone_add_size s.length
  simp only [after, flushed, List.length_drop]
  omega

/-- The `k`-th byte sets off a flush that the device refuses. -/
def Refused (b : Buffering) (room : Option ℕ) (k : ℕ) : Prop :=
  b.gone (k - 1) < b.gone k ∧ fits room (b.gone k) = false

instance (k : ℕ) : Decidable (Refused b room k) := by unfold Refused; infer_instance

theorem not_refused_of_fits {n k : ℕ} (h : fits room (b.gone n) = true) (hk : k ≤ n) :
    ¬ Refused b room k := by
  rintro ⟨-, hfit⟩
  rw [fits_mono h (b.gone_mono hk)] at hfit
  cases hfit

theorem exists_refused {n : ℕ} (h : fits room (b.gone n) = false) :
    ∃ k, 0 < k ∧ k ≤ n ∧ Refused b room k := by
  induction n with
  | zero => rw [Buffering.gone, fits_zero] at h; cases h
  | succ n ih =>
    cases hn : fits room (b.gone n) with
    | false =>
      obtain ⟨k, hpos, hk, hr⟩ := ih hn
      exact ⟨k, hpos, by omega, hr⟩
    | true =>
      refine ⟨n + 1, Nat.succ_pos n, le_rfl, ?_, h⟩
      by_contra hle
      rw [fits_mono hn (Nat.le_of_not_lt hle)] at h
      cases h

/-- **A byte more.** -/
theorem putc_after (s : Bytes) (c : Byte) :
    (after b room s).putc c =
      (!decide (Refused b room (s.length + 1)), after b room (s ++ [c])) := by
  have hle := b.gone_le s.length
  have hlen : (s ++ [c]).length = s.length + 1 := List.length_append
  have hbuf : (after b room s).buf.length + 1 = s.length + 1 - b.gone s.length := by
    simp only [after, flushed, List.length_drop]
    omega
  -- the byte is stored behind what the buffer holds
  have hstored : ({ after b room s with
      count := s.length + 1, buf := (after b room s).buf ++ [c] } : OutFile) =
        flushed b room (s ++ [c]) (b.gone s.length) := by
    simp only [after, flushed, hlen, List.take_append_of_le_length hle,
      List.drop_append_of_le_length hle]
  -- and drives out what the buffer does not keep
  have hleaves := b.le (s.length + 1) (s.length + 1 - b.gone s.length)
  have hflush := @flush_flushed b room (s ++ [c]) (b.gone s.length)
    (b.gives (s.length + 1) (s.length + 1 - b.gone s.length)) (by omega)
  unfold putc
  rw [hbuf]
  refine (congrArg _ hstored).trans (hflush.trans ?_)
  have hgone : b.gone s.length + b.gives (s.length + 1) (s.length + 1 - b.gone s.length) =
      b.gone (s.length + 1) := rfl
  simp only [Refused, Nat.add_sub_cancel]
  rw [after, hlen, ← hgone]
  generalize b.gives (s.length + 1) (s.length + 1 - b.gone s.length) = k
  rcases Nat.eq_zero_or_pos k with rfl | hk
  · simp
  · cases fits room (b.gone s.length + k) <;> simp [Nat.pos_iff_ne_zero.mp hk, hk]

theorem putcs_after (s bs : Bytes) : (after b room s).putcs bs = after b room (s ++ bs) := by
  induction bs generalizing s with
  | nil => rw [List.append_nil]; rfl
  | cons c bs ih =>
    rw [putcs_cons, putc_after]
    simp only [ih, List.append_assoc, List.singleton_append]

/-- **An accepted run of bytes.** -/
theorem putAll_after (s bs : Bytes)
    (h : ∀ k, s.length < k → k ≤ s.length + bs.length → ¬ Refused b room k) :
    (after b room s).putAll bs = (true, after b room (s ++ bs)) := by
  induction bs generalizing s with
  | nil => rw [List.append_nil]; rfl
  | cons c bs ih =>
    have h₁ : ¬ Refused b room (s.length + 1) :=
      h _ (Nat.lt_succ_self _) (by simp only [List.length_cons]; omega)
    rw [putAll, putc_after]
    simp only [h₁, decide_false, Bool.not_false, if_true]
    rw [ih (s ++ [c]) fun k hk hk' => h k (by simp at hk; omega) (by simp at hk' ⊢; omega),
      List.append_assoc, List.singleton_append]

/-- **A refused run of bytes** stops at a byte whose flush is refused. -/
theorem putAll_after_refused (s bs : Bytes) {k : ℕ} (hk : s.length < k)
    (hk' : k ≤ s.length + bs.length) (h : Refused b room k) :
    ∃ pre, pre <+: bs ∧ Refused b room (s ++ pre).length ∧
      (after b room s).putAll bs = (false, after b room (s ++ pre)) := by
  induction bs generalizing s with
  | nil => simp at hk'; omega
  | cons c bs ih =>
    rw [putAll, putc_after]
    by_cases h₁ : Refused b room (s.length + 1)
    · refine ⟨[c], ⟨bs, rfl⟩, by simpa using h₁, ?_⟩
      simp [h₁]
    · have hne : k ≠ s.length + 1 := fun e => h₁ (e ▸ h)
      obtain ⟨pre, ⟨t, ht⟩, hr, he⟩ := ih (s ++ [c]) (by simp; omega)
        (by simp only [List.length_append, List.length_cons, List.length_nil] at hk' ⊢; omega)
      refine ⟨c :: pre, ⟨t, by rw [List.cons_append, ht]⟩, ?_, ?_⟩
      · rwa [List.append_assoc, List.singleton_append] at hr
      · simp only [h₁, decide_false, Bool.not_false, if_true]
        rw [he, List.append_assoc, List.singleton_append]

theorem err_after (s : Bytes) : (after b room s).err = !fits room (b.gone s.length) := rfl

theorem written_after (s : Bytes) : (after b room s).written = taken room s := by
  have hle : (s.take (b.gone s.length)).length = b.gone s.length := by
    rw [List.length_take, Nat.min_eq_left (b.gone_le _)]
  have := taken_append room (s.take (b.gone s.length)) (s.drop (b.gone s.length))
  rw [hle, List.take_append_drop] at this
  rw [written_eq]
  exact this

end Limited

end OutFile

end CProg
