import Snzip.Format.Raw

set_option autoImplicit false

/-!
# The raw format under short reads

`FileSource` reads through `read(2)`, which may give fewer bytes than it is asked for or be
interrupted.

* `Scheduled`, `readScheduled`, `peekScheduled`, `rawCompressScheduled`: the program with a schedule
  of what becomes of its calls of `read(2)`;
* **`rawCompressScheduled_nil`**: with no such event it is `rawCompress`;
* `Peeked`, **`peek_step`**; `Appended`, **`append_step`**: what the source and the sink do.
-/

namespace Snzip

open CProg

/-! ## Short reads -/

/-- What becomes of a call of `read(2)`: it is interrupted, or may give one byte more than `n`. -/
inductive ReadStep where
  | eintr
  | upTo (n : ℕ)

/-- A world with what becomes of the next calls of `read(2)`; after these, a call gives what is
there. -/
structure Scheduled where
  world : World
  schedule : List ReadStep

/-- A step on the streams that reads nothing. -/
def onWorld {α : Type} (m : Io α) : Prog Scheduled α := fun s =>
  (m s.world).view fun w => ⟨w, s.schedule⟩

/-- `read(2)` on the descriptor of `infp`. -/
def readScheduled (n : ℕ) : Prog Scheduled ReadResult := fun s =>
  match s.schedule with
  | [] => onWorld (readIn n) s
  | .eintr :: schedule => .ret .eintr { s with schedule := schedule }
  | .upTo k :: schedule => onWorld (readIn (min n (k + 1))) { s with schedule := schedule }

/-- A call of snappy, with any `Peek` and any `Append`. -/
def rawPassOn {σ : Type} (peek : FileSource → Prog σ (Bytes × FileSource))
    (append : Bytes → Bool → Prog σ Bool) (client : Client) (t : RawCall) :
    Prog σ (RawCall ⊕ ℕ) := do
  match client t.replies with
  | .available => return .inl { t with replies := t.replies ++ [.size t.src.restsize] }
  | .peek =>
    let r ← peek t.src
    return .inl { t with replies := t.replies ++ [.region r.1], src := r.2 }
  | .skip n => return .inl { t with replies := t.replies ++ [.unit], src := t.src.skip n }
  | .append bs =>
    let err ← append bs t.sinkErr
    return .inl { t with replies := t.replies ++ [.unit], sinkErr := err }
  | .done ok =>
    if !ok then return .inr 1
    return .inr (if t.src.err || t.sinkErr then 1 else 0)

/-- `raw_compress`, with any way to make the call of snappy. -/
def rawCompressOn {σ : Type} (run : ℕ → BitVec 64 → Prog σ ℕ) (g : Globals)
    (stSize : Option (BitVec 64)) (blockSize : BitVec 64) : Prog σ ℕ := do
  let blockSize := if blockSize = 0#64 then kBlockSize else blockSize
  match rawFileSize g stSize with
  | none => return 1
  | some filesize =>
    if !malloc blockSize.toNat then exit 134
    run blockSize.toNat filesize

/-- `Peek` on a source that is read by a schedule. -/
def peekScheduled : ℕ → FileSource → Prog Scheduled (Bytes × FileSource) :=
  peek (fun s => s.schedule.length) readScheduled

/-- A request of snappy, with its reads cut and interrupted. -/
def rawPassScheduled (client : Client) (bufsiz : ℕ) : RawCall → Prog Scheduled (RawCall ⊕ ℕ) :=
  rawPassOn (peekScheduled bufsiz) (fun bs err => onWorld (append bs err)) client

/-- A call of snappy. -/
def rawRunScheduled (client : Client) (bufsiz fuel : ℕ) (filesize : BitVec 64) :
    Prog Scheduled ℕ :=
  passes (rawPassScheduled client bufsiz) fuel ⟨[], .opened filesize, false⟩

/-- `raw_compress`. -/
def rawCompressScheduled (S : Snappy) (fuel : ℕ) (g : Globals) (stSize : Option (BitVec 64))
    (blockSize : BitVec 64) : Prog Scheduled ℕ :=
  rawCompressOn (rawRunScheduled S.compressStream · fuel ·) g stSize blockSize

section Plain

variable {S : Snappy} {client : Client} {bufsiz : ℕ} {w : World}

theorem rawCompress_eq (fuel : ℕ) (g : Globals) (stSize : Option (BitVec 64))
    (blockSize : BitVec 64) : rawCompress S fuel g stSize blockSize =
      rawCompressOn (rawRun S.compressStream · fuel ·) g stSize blockSize := rfl

theorem readRetry_nil (n : ℕ) :
    readRetry (fun s => s.schedule.length) readScheduled n ⟨w, []⟩ =
      onWorld (readRetry (fun _ => 0) readIn n) ⟨w, []⟩ := by
  unfold onWorld
  rw [readRetry_readIn]
  unfold readRetry
  split
  · next h => exact loop_inr (by simp [readScheduled, onWorld, readIn, h])
  · next h => exact loop_inr (by simp [readScheduled, onWorld, readIn, h])

theorem peekScheduled_nil (src : FileSource) :
    peekScheduled bufsiz src ⟨w, []⟩ = onWorld (peek (fun _ => 0) readIn bufsiz src) ⟨w, []⟩ := by
  unfold peekScheduled peek
  split
  · rfl
  split
  · rfl
  rw [bind_apply, readRetry_nil, onWorld, onWorld, bind_apply, readRetry_readIn]
  split <;> rfl

theorem rawPassScheduled_nil (t : RawCall) :
    rawPassScheduled client bufsiz t ⟨w, []⟩ = onWorld (rawPass client bufsiz t) ⟨w, []⟩ := by
  unfold rawPassScheduled rawPassOn onWorld rawPass
  cases client t.replies with
  | available => rfl
  | peek =>
    simp only [bind_apply, peekScheduled_nil, onWorld]
    cases peek (fun _ => 0) readIn bufsiz t.src w <;> rfl
  | skip n => rfl
  | append bs =>
    change Outcome.bind ((append bs t.sinkErr w).view _) _ = ((append bs t.sinkErr w).bind _).view _
    cases append bs t.sinkErr w <;> rfl
  | done ok => cases ok <;> rfl

/-- **Where no read is cut short or interrupted**, this is `raw_compress`. -/
theorem rawCompressScheduled_nil (fuel : ℕ) (g : Globals) (stSize : Option (BitVec 64))
    (blockSize : BitVec 64) :
    rawCompressScheduled S fuel g stSize blockSize ⟨w, []⟩ =
      onWorld (rawCompress S fuel g stSize blockSize) ⟨w, []⟩ := by
  have hpasses : ∀ (bufsiz k : ℕ) (t : RawCall) (w : World),
      passes (rawPassScheduled S.compressStream bufsiz) k t ⟨w, []⟩ =
        onWorld (passes (rawPass S.compressStream bufsiz) k t) ⟨w, []⟩ := by
    intro bufsiz k
    induction k with
    | zero => exact fun _ _ => rfl
    | succ k ih =>
      intro t w
      simp only [onWorld, passes_succ, rawPassScheduled_nil] at ih ⊢
      cases rawPass S.compressStream bufsiz t w with
      | ret r w' =>
        cases r with
        | inl t' => exact ih t' w'
        | inr status => rfl
      | exit c w' => rfl
      | diverge => rfl
  rw [rawCompress_eq]
  unfold rawCompressScheduled rawCompressOn
  cases rawFileSize g stSize with
  | none => rfl
  | some filesize =>
    cases hm : malloc (if blockSize = 0#64 then kBlockSize else blockSize).toNat with
    | false =>
      simp only [hm]
      rfl
    | true =>
      simp only [hm, Bool.not_true, Bool.false_eq_true, if_false]
      exact hpasses _ _ _ _

end Plain

/-! ## The source and the sink -/

/-- The bytes of the input that have not been skipped. -/
def unread (src : FileSource) (s : Scheduled) : Bytes := src.region ++ s.world.inp.rest

/-- What a call of `read(2)` for `n` bytes does. -/
def ReadsFrom (s : Scheduled) (n : ℕ) : ReadResult → Scheduled → Prop
  | .got bs, s' => bs.length ≤ n ∧ (0 < n → bs = [] → s.world.inp.rest = []) ∧
      s.world.inp.rest = bs ++ s'.world.inp.rest ∧
      s'.world = { s.world with inp := { s.world.inp with rest := s'.world.inp.rest } }
  | .eintr, s' => s'.world = s.world
  | .failed, s' => s'.world = s.world ∧ s.world.inp.fault = true

/-- What `Peek` does: it shows bytes that come next, no more than are left of the declared size, and
takes none away. It shows nothing only where nothing is left, at the end, or after an error. -/
structure Peeked (src : FileSource) (s : Scheduled) (r : Bytes × FileSource) (s' : Scheduled) :
    Prop where
  shown : r.1 <+: r.2.region
  kept : unread r.2 s' = unread src s
  world : s'.world = { s.world with inp := { s.world.inp with rest := s'.world.inp.rest } }
  cut : BitVec.slt 0#64 r.2.restsize → r.1.length ≤ r.2.restsize.toNat
  zero : r.2.restsize = 0#64 → r.1 = []
  source : (r.2.restsize = src.restsize ∧ r.2.err = src.err ∧
      (r.1 = [] → src.restsize = 0#64 ∨ unread src s = [])) ∨
    (r.1 = [] ∧ r.2.restsize = 0#64 ∧ r.2.err = true ∧ s.world.inp.fault = true)

/-- What `Append` does: without an error it has put its bytes on the device. -/
structure Appended (bs : Bytes) (err : Bool) (s : Scheduled) (err' : Bool) (s' : Scheduled) :
    Prop where
  inp : s'.world.inp = s.world.inp
  buf : s'.world.out.buf = s.world.out.buf
  sent : bs.length < 2 ^ 31 → err' = false →
    err = false ∧ s'.world.out.dev = s.world.out.dev ++ bs
  room : s.world.out.room = none → err = false → s'.world.out.room = none ∧ err' = false

section Source

variable {s : Scheduled}

theorem readIn_step {m n : ℕ} (hle : m ≤ n) (hpos : 0 < n → 0 < m) :
    ∃ r s', onWorld (readIn m) s = .ret r s' ∧ r ≠ .eintr ∧ ReadsFrom s n r s' := by
  unfold onWorld readIn
  by_cases h : (s.world.inp.rest = [] && s.world.inp.fault) = true
  · simp only [h, if_true]
    exact ⟨_, _, rfl, nofun, rfl, (Bool.and_eq_true_iff.mp h).2⟩
  · simp only [h]
    refine ⟨_, _, rfl, nofun, (List.length_take_le _ _).trans hle, fun hn hnil => ?_,
      (List.take_append_drop m _).symm, rfl⟩
    exact (List.take_eq_nil_iff.mp hnil).resolve_left (by have := hpos hn; omega)

theorem readRetry_read {n : ℕ} {r : ReadResult} {s' : Scheduled}
    (hrun : readScheduled n s = .ret r s') (hr : r ≠ .eintr) (hreads : ReadsFrom s n r s') :
    ∃ r s', readRetry (fun s => s.schedule.length) readScheduled n s = .ret r s' ∧
      ReadsFrom s n (r.elim .failed .got) s' := by
  cases r with
  | eintr => exact absurd rfl hr
  | got bs => exact ⟨some bs, s', loop_inr (by rw [bind_apply, hrun]; rfl), hreads⟩
  | failed => exact ⟨none, s', loop_inr (by rw [bind_apply, hrun]; rfl), hreads⟩

/-- **The loop around `read(2)` ends**, since the schedule does. -/
theorem readRetry_step (n : ℕ) :
    ∃ r s', readRetry (fun s => s.schedule.length) readScheduled n s = .ret r s' ∧
      ReadsFrom s n (r.elim .failed .got) s' := by
  obtain ⟨w, schedule⟩ := s
  induction schedule with
  | nil =>
    obtain ⟨r, s', hrun, hr, hreads⟩ := readIn_step (s := ⟨w, []⟩) (le_refl n) id
    exact readRetry_read hrun hr hreads
  | cons step schedule ih =>
    cases step with
    | eintr =>
      obtain ⟨r, s', hrun, hreads⟩ := ih
      refine ⟨r, s', ?_, by cases r <;> exact hreads⟩
      rw [← hrun]
      rfl
    | upTo k =>
      obtain ⟨r, s', hrun, hr, hreads⟩ := readIn_step (s := ⟨w, schedule⟩)
        (show min n (k + 1) ≤ n by omega) (by omega)
      exact readRetry_read (s := ⟨w, .upTo k :: schedule⟩) hrun hr (by cases r <;> exact hreads)

theorem FileSource.clip_prefix (src : FileSource) : src.clip <+: src.region := by
  unfold FileSource.clip
  split
  · exact List.take_prefix _ _
  · exact List.prefix_rfl

theorem FileSource.length_clip_le (src : FileSource) (h : BitVec.slt 0#64 src.restsize) :
    src.clip.length ≤ src.restsize.toNat := by
  unfold FileSource.clip
  split
  · exact List.length_take_le _ _
  · next hlt => simpa [h] using hlt

theorem toNat_pos_of_slt {v : BitVec 64} (h : BitVec.slt 0#64 v) : 0 < v.toNat := by
  rw [BitVec.slt_iff_toInt_lt, BitVec.toInt_zero] at h
  simp only [BitVec.toInt_eq_toNat_cond] at h
  omega

theorem slt_zero_iff {v : BitVec 64} (h : v.toNat < 2 ^ 63) :
    BitVec.slt 0#64 v ↔ 0 < v.toNat := by
  refine ⟨toNat_pos_of_slt, fun hpos => ?_⟩
  rw [BitVec.slt_iff_toInt_lt, BitVec.toInt_zero]
  simp only [BitVec.toInt_eq_toNat_cond]
  omega

theorem toNat_skip (src : FileSource) (k : ℕ) (hsize : src.restsize.toNat < 2 ^ 63)
    (hk : k ≤ src.restsize.toNat) :
    (src.skip k).restsize.toNat = src.restsize.toNat - k := by
  have hslt := slt_zero_iff hsize
  change (if BitVec.slt 0#64 src.restsize then _ else _ : BitVec 64).toNat = _
  split
  · rw [BitVec.toNat_sub_of_le, BitVec.toNat_ofNat]
    · omega
    · rw [BitVec.le_def, BitVec.toNat_ofNat]
      omega
  · next hneg =>
    rw [hslt] at hneg
    omega

theorem FileSource.clip_eq_nil {src : FileSource} (h : src.clip = []) : src.region = [] := by
  unfold FileSource.clip at h
  split at h
  · next hcut =>
    obtain ⟨hslt, -⟩ := Bool.and_eq_true_iff.mp hcut
    have := toNat_pos_of_slt hslt
    exact (List.take_eq_nil_iff.mp h).resolve_left (by omega)
  · exact h

/-- **`Peek` shows bytes that come next.** -/
theorem peek_step {bufsiz : ℕ} (hbuf : 0 < bufsiz) (src : FileSource) (s : Scheduled) :
    ∃ r s', peekScheduled bufsiz src s = .ret r s' ∧ Peeked src s r s' := by
  unfold peekScheduled peek
  by_cases hsize : src.restsize = 0#64
  · exact ⟨([], src), s, by rw [if_pos hsize]; rfl, List.nil_prefix, rfl, rfl,
      fun _ => Nat.zero_le _, fun _ => rfl, .inl ⟨rfl, rfl, fun _ => .inl hsize⟩⟩
  by_cases hregion : src.region ≠ []
  · exact ⟨(src.clip, src), s, by rw [if_neg hsize, if_pos hregion]; rfl, src.clip_prefix, rfl,
      rfl, src.length_clip_le, fun h => absurd h hsize,
      .inl ⟨rfl, rfl, fun h => absurd (FileSource.clip_eq_nil h) hregion⟩⟩
  rw [not_not] at hregion
  rw [if_neg hsize, if_neg (not_not.mpr hregion)]
  obtain ⟨r, s', hrun, hreads⟩ := readRetry_step (s := s) bufsiz
  cases r with
  | none =>
    obtain ⟨hworld, hfault⟩ := hreads
    refine ⟨([], { src with restsize := 0#64, err := true }), s',
      by rw [bind_apply, hrun]; rfl, List.nil_prefix, ?_, ?_, fun _ => Nat.zero_le _,
      fun _ => rfl, .inr ⟨rfl, rfl, rfl, hfault⟩⟩
    · rw [unread, unread, hworld]
    · rw [hworld]
  | some bs =>
    obtain ⟨-, hnil, hrest, hworld⟩ := hreads
    refine ⟨(({ src with region := bs } : FileSource).clip, { src with region := bs }), s',
      by rw [bind_apply, hrun]; rfl, FileSource.clip_prefix _, ?_, hworld,
      FileSource.length_clip_le _, fun h => absurd h hsize, .inl ⟨rfl, rfl, fun h => .inr ?_⟩⟩
    · rw [unread, unread, hregion, hrest]
      rfl
    · rw [unread, hregion, hnil hbuf (FileSource.clip_eq_nil h)]
      rfl

theorem append_step (bs : Bytes) (err : Bool) :
    ∃ err' s', onWorld (append bs err) s = .ret err' s' ∧ Appended bs err s err' s' := by
  unfold onWorld
  cases err with
  | true =>
    rw [append_err]
    exact ⟨_, _, rfl, rfl, rfl, fun _ h => Bool.noConfusion h, fun _ h => Bool.noConfusion h⟩
  | false =>
    rw [append_eq]
    refine ⟨_, _, rfl, rfl, rfl, fun hbs hok => ⟨rfl, ?_⟩, fun hroom _ => ?_⟩
    · have hne : ¬ bs.length % 2 ^ 32 = 2 ^ 32 - 1 := by omega
      change s.world.out.dev ++ taken s.world.out.room bs = _
      rw [Bool.not_eq_false', Write.play, Bool.or_eq_true_iff, decide_eq_true_eq] at hok
      have hfits := hok.resolve_right hne
      cases hr : s.world.out.room with
      | none => rfl
      | some r =>
        rw [hr] at hfits
        rw [taken, List.take_of_length_le (of_decide_eq_true hfits)]
    · change s.world.out.room.map _ = none ∧ (!(fits s.world.out.room _ || _)) = false
      rw [hroom]
      exact ⟨rfl, rfl⟩

end Source

end Snzip
