import Snzip.Codec

set_option autoImplicit false

/-!
# The raw format

`raw_format.cpp`: snappy itself reads and writes, through a `Source` and a `Sink` on the file
descriptors.

* `FileSource`, `peek`, `skip`; `append`: the source and the sink;
* `rawPass`, `rawRun`: a call of snappy, request by request;
* `rawCompress`, `rawUncompress`, **`refines_rawCompress`**, **`refines_rawUncompress`**.
-/

namespace Snzip

open CProg

variable (S : Snappy)

/-- What a call of `read(2)` comes to. -/
inductive ReadResult where
  | got (bs : Bytes)
  | eintr
  | failed

/-! ## `FileSource` and `FileSink` -/

/-- A `FileSource`: the bytes from `ptr_` to `end_`, `restsize_` and `err_`. -/
structure FileSource where
  region : Bytes
  restsize : BitVec 64
  err : Bool
  deriving DecidableEq

namespace FileSource

/-- A source that has just been made, with nothing in its buffer. -/
def opened (filesize : BitVec 64) : FileSource := ⟨[], filesize, false⟩

/-- The region that `Peek` returns, cut to `restsize_` if that is positive. -/
def clip (src : FileSource) : Bytes :=
  if BitVec.slt 0#64 src.restsize && decide (src.region.length > src.restsize.toNat) then
    src.region.take src.restsize.toNat
  else src.region

/-- `Skip`. -/
def skip (n : ℕ) (src : FileSource) : FileSource :=
  { src with
    region := src.region.drop n
    restsize := if BitVec.slt 0#64 src.restsize then src.restsize - BitVec.ofNat 64 n
      else src.restsize }

end FileSource

/-- `do { read_len = read(...); } while (read_len == -1 && errno == EINTR);`. -/
def readRetry {σ : Type} (μ : σ → ℕ) (read : ℕ → Prog σ ReadResult) (n : ℕ) :
    Prog σ (Option Bytes) :=
  loop (fun _ s => μ s) (fun (_ : Unit) => do
    match ← read n with
    | .eintr => return .inl ()
    | .failed => return .inr none
    | .got bs => return .inr (some bs)) ()

/-- `Peek`: the region and the source after it. -/
def peek {σ : Type} (μ : σ → ℕ) (read : ℕ → Prog σ ReadResult) (bufsiz : ℕ) (src : FileSource) :
    Prog σ (Bytes × FileSource) := do
  if src.restsize = 0#64 then return ([], src)
  if src.region ≠ [] then return (src.clip, src)
  match ← readRetry μ read bufsiz with
  | none => return ([], { src with restsize := 0#64, err := true })
  | some bs => return (({ src with region := bs } : FileSource).clip, { src with region := bs })

/-- `read(2)` on the descriptor of `infp`. -/
def readIn (n : ℕ) : Io ReadResult := fun w =>
  if w.inp.rest = [] && w.inp.fault then .ret .failed w
  else .ret (.got (w.inp.rest.take n)) { w with inp := { w.inp with rest := w.inp.rest.drop n } }

/-- `Append`, from and to the `err_` of the sink. -/
def append (bs : Bytes) (err : Bool) : Io Bool := do
  if err then return true
  let rv ← writeFull bs
  return decide (rv ≠ BitVec.ofNat 32 bs.length)

/-! ## A call of snappy -/

/-- A call of snappy: the replies so far, the source, and the `err_` of the sink. -/
structure RawCall where
  replies : List Reply
  src : FileSource
  sinkErr : Bool

/-- The next request of the call. -/
def rawPass (client : Client) (bufsiz : ℕ) (t : RawCall) : Io (RawCall ⊕ ℕ) := do
  match client t.replies with
  | .available => return .inl { t with replies := t.replies ++ [.size t.src.restsize] }
  | .peek =>
    let r ← peek (fun _ => 0) readIn bufsiz t.src
    return .inl { t with replies := t.replies ++ [.region r.1], src := r.2 }
  | .skip n => return .inl { t with replies := t.replies ++ [.unit], src := t.src.skip n }
  | .append bs =>
    let err ← append bs t.sinkErr
    return .inl { t with replies := t.replies ++ [.unit], sinkErr := err }
  | .done ok =>
    if !ok then return .inr 1
    return .inr (if t.src.err || t.sinkErr then 1 else 0)

/-- The call up to its end, which is to come within `fuel` requests. -/
def rawRun (client : Client) (bufsiz fuel : ℕ) (filesize : BitVec 64) : Io ℕ :=
  passes (rawPass client bufsiz) fuel ⟨[], .opened filesize, false⟩

/-- `snappy::kBlockSize`. -/
def kBlockSize : BitVec 64 := 65536#64

/-- The size of the input: that of the `-s` option, or what `fstat` reports. -/
def rawFileSize (g : Globals) (stSize : Option (BitVec 64)) : Option (BitVec 64) :=
  if g.uncompressedSourceLen = -1#64 then stSize else some g.uncompressedSourceLen

/-- A buffer that `new` cannot give ends the program. -/
def rawCompress (fuel : ℕ) (g : Globals) (stSize : Option (BitVec 64)) (blockSize : BitVec 64) :
    Io ℕ := do
  let blockSize := if blockSize = 0#64 then kBlockSize else blockSize
  match rawFileSize g stSize with
  | none => return 1
  | some filesize =>
    if !malloc blockSize.toNat then exit 134
    rawRun S.compressStream blockSize.toNat fuel filesize

/-- `raw_uncompress`: a source without a length. -/
def rawUncompress (fuel : ℕ) (_skipMagic : Bool) : Io ℕ :=
  rawRun S.uncompressStream kBlockSize.toNat fuel (-1#64)

/-! ## Scripts -/

/-- The source, and what is left of the stream, after `Peek` on a stream. -/
def peekOf (bufsiz : ℕ) (src : FileSource) (fault : Bool) (s : Bytes) :
    Bytes × FileSource × Bytes :=
  if src.restsize = 0#64 then ([], src, s)
  else if src.region ≠ [] then (src.clip, src, s)
  else if s = [] && fault then ([], { src with restsize := 0#64, err := true }, s)
  else
    let src := { src with region := s.take bufsiz }
    (src.clip, src, s.drop bufsiz)

/-- An append before the rest of a call; a call without an end has no script to play. -/
def appended (bs : Bytes) (sc : Script) : Script :=
  if sc.verdict = .diverge then ⟨[], .diverge⟩ else sc.after [.append bs]

/-- The script of a call, while the sink has not failed. -/
def rawScript (client : Client) (bufsiz : ℕ) (fault : Bool) :
    ℕ → List Reply → FileSource → Bytes → Script
  | 0, _, _, _ => ⟨[], .diverge⟩
  | n + 1, replies, src, s =>
    match client replies with
    | .available => rawScript client bufsiz fault n (replies ++ [.size src.restsize]) src s
    | .peek =>
      let r := peekOf bufsiz src fault s
      rawScript client bufsiz fault n (replies ++ [.region r.1]) r.2.1 r.2.2
    | .skip m => rawScript client bufsiz fault n (replies ++ [.unit]) (src.skip m) s
    | .append bs => appended bs (rawScript client bufsiz fault n (replies ++ [.unit]) src s)
    | .done ok => ⟨[], .status (if !ok || src.err then 1 else 0)⟩

section Run

variable {client : Client} {bufsiz : ℕ} {w : World}

theorem readRetry_readIn (n : ℕ) :
    readRetry (fun _ => 0) readIn n w =
      if w.inp.rest = [] && w.inp.fault then .ret none w
      else .ret (some (w.inp.rest.take n))
        { w with inp := { w.inp with rest := w.inp.rest.drop n } } := by
  unfold readRetry
  by_cases h : (w.inp.rest = [] && w.inp.fault) = true
  · rw [if_pos h]
    refine loop_inr ?_
    simp only [bind_apply, readIn, h, if_true]
    rfl
  · rw [if_neg h]
    refine loop_inr ?_
    simp only [bind_apply, readIn, h]
    rfl

theorem peek_eq (src : FileSource) :
    peek (fun _ => 0) readIn bufsiz src w =
      .ret ((peekOf bufsiz src w.inp.fault w.inp.rest).1,
          (peekOf bufsiz src w.inp.fault w.inp.rest).2.1)
        { w with inp := { w.inp with
          rest := (peekOf bufsiz src w.inp.fault w.inp.rest).2.2 } } := by
  unfold peek peekOf
  split
  · rfl
  split
  · rfl
  rw [bind_apply, readRetry_readIn]
  split <;> rfl

theorem append_err (bs : Bytes) : append bs true w = .ret true w := rfl

theorem append_eq (bs : Bytes) :
    append bs false w = .ret (!((Write.append bs).play w.out).1)
      { w with out := ((Write.append bs).play w.out).2 } := by
  unfold append
  simp only [Bool.false_eq_true, if_false, bind_apply, writeFull_eq, Outcome.bind_ret, pure_apply,
    Write.play]
  cases fits w.out.room bs.length with
  | true => simp
  | false =>
    have hiff : (-1#32 = BitVec.ofNat 32 bs.length) ↔ bs.length % 2 ^ 32 = 2 ^ 32 - 1 := by
      rw [← BitVec.toNat_inj, BitVec.toNat_ofNat]
      exact eq_comm
    simp only [Bool.false_eq_true, if_false, ne_eq, hiff, Bool.false_or, decide_not]

theorem verdict_appended (bs : Bytes) (sc : Script) : (appended bs sc).verdict = sc.verdict := by
  unfold appended
  split
  · next h => exact h.symm
  · rfl

theorem rawScript_diverge {fault : Bool} {n : ℕ} {replies : List Reply} {src : FileSource}
    {s : Bytes} (h : (rawScript client bufsiz fault n replies src s).verdict = .diverge) :
    rawScript client bufsiz fault n replies src s = ⟨[], .diverge⟩ := by
  induction n generalizing replies src s with
  | zero => rfl
  | succ n ih =>
    rw [rawScript] at h ⊢
    cases hc : client replies with
    | available => rw [hc] at h; exact ih h
    | peek => rw [hc] at h; exact ih h
    | skip m => rw [hc] at h; exact ih h
    | append bs =>
      rw [hc] at h
      simp only [verdict_appended] at h
      simp only [appended, h, if_true]
    | done ok => rw [hc] at h; cases h

theorem passes_rawPass (n : ℕ) (t : RawCall) :
    passes (rawPass client bufsiz) (n + 1) t w =
      match client t.replies with
      | .available =>
        passes (rawPass client bufsiz) n
          { t with replies := t.replies ++ [.size t.src.restsize] } w
      | .peek =>
        passes (rawPass client bufsiz) n
          { t with
            replies := t.replies ++ [.region (peekOf bufsiz t.src w.inp.fault w.inp.rest).1]
            src := (peekOf bufsiz t.src w.inp.fault w.inp.rest).2.1 }
          { w with inp := { w.inp with
            rest := (peekOf bufsiz t.src w.inp.fault w.inp.rest).2.2 } }
      | .skip m =>
        passes (rawPass client bufsiz) n
          { t with replies := t.replies ++ [.unit], src := t.src.skip m } w
      | .append bs =>
        (append bs t.sinkErr w).bind fun err => passes (rawPass client bufsiz) n
          { t with replies := t.replies ++ [.unit], sinkErr := err }
      | .done ok => .ret (if !ok || t.src.err || t.sinkErr then 1 else 0) w := by
  rw [passes_succ, rawPass]
  cases client t.replies with
  | available => rfl
  | peek =>
    simp only
    rw [bind_apply, peek_eq]
    rfl
  | skip m => rfl
  | append bs =>
    simp only [bind_apply]
    cases append bs t.sinkErr w <;> rfl
  | done ok => cases ok <;> rfl

theorem passes_failed (n : ℕ) (replies : List Reply) (src : FileSource) :
    (passes (rawPass client bufsiz) n ⟨replies, src, true⟩ w).view World.out =
      if (rawScript client bufsiz w.inp.fault n replies src w.inp.rest).verdict = .diverge then
        .diverge
      else .ret 1 w.out := by
  induction n generalizing replies src w with
  | zero => rfl
  | succ n ih =>
    rw [passes_rawPass, rawScript]
    cases client replies with
    | available => exact ih _ _
    | peek => exact ih (w := { w with inp := { w.inp with rest := _ } }) _ _
    | skip m => exact ih _ _
    | append bs =>
      simp only [append_err, Outcome.bind_ret, verdict_appended]
      exact ih _ _
    | done ok => cases ok <;> simp

/-- **A call of snappy plays its script.** -/
theorem passes_playback (n : ℕ) (replies : List Reply) (src : FileSource) :
    (passes (rawPass client bufsiz) n ⟨replies, src, false⟩ w).view World.out =
      (rawScript client bufsiz w.inp.fault n replies src w.inp.rest).playback w.out := by
  induction n generalizing replies src w with
  | zero => rfl
  | succ n ih =>
    rw [passes_rawPass, rawScript]
    cases client replies with
    | available => exact ih _ _
    | peek => exact ih (w := { w with inp := { w.inp with rest := _ } }) _ _
    | skip m => exact ih _ _
    | append bs =>
      simp only [append_eq, Outcome.bind_ret]
      generalize hsc :
        rawScript client bufsiz w.inp.fault n (replies ++ [.unit]) src w.inp.rest = sc
      cases hok : ((Write.append bs).play w.out).1 with
      | true =>
        have := ih (w := { w with out := ((Write.append bs).play w.out).2 })
          (replies ++ [.unit]) src
        simp only [hsc] at this
        simp only [Bool.not_true]
        rw [this, appended]
        split
        · next hd =>
          have hdiv := rawScript_diverge (hsc ▸ hd)
          rw [hsc] at hdiv
          rw [hdiv]
          rfl
        · rw [Script.playback_after]
          simp only [playAll, hok, if_true]
      | false =>
        have := @passes_failed client bufsiz { w with out := ((Write.append bs).play w.out).2 } n
          (replies ++ [.unit]) src
        simp only [hsc] at this
        simp only [Bool.not_false]
        rw [this, appended]
        split
        · rfl
        · rw [Script.playback_after]
          simp only [playAll, hok, Bool.false_eq_true, if_false]
    | done ok => cases ok <;> cases src.err <;> rfl

end Run

/-- The script of `raw_compress`. -/
def rawCompressScript (fuel : ℕ) (g : Globals) (stSize : Option (BitVec 64))
    (blockSize : BitVec 64) (fault : Bool) (s : Bytes) : Script :=
  let blockSize := if blockSize = 0#64 then kBlockSize else blockSize
  match rawFileSize g stSize with
  | none => ⟨[], .status 1⟩
  | some filesize =>
    if !malloc blockSize.toNat then ⟨[], .exit 134⟩
    else rawScript S.compressStream blockSize.toNat fault fuel [] (.opened filesize) s

theorem refines_rawCompress (fuel : ℕ) (g : Globals) (stSize : Option (BitVec 64))
    (blockSize : BitVec 64) : Refines (rawCompress S fuel g stSize blockSize)
      (rawCompressScript S fuel g stSize blockSize) := by
  intro w _
  unfold rawCompress rawCompressScript
  generalize (if blockSize = 0#64 then kBlockSize else blockSize) = b
  cases rawFileSize g stSize with
  | none => rfl
  | some filesize =>
    cases hm : malloc b.toNat with
    | false =>
      simp only [hm, Bool.not_false, if_true]
      rfl
    | true =>
      simp only [hm, Bool.not_true, Bool.false_eq_true, if_false]
      exact passes_playback fuel [] _

/-- What the decoder does with a stream. -/
def rawUncompressScript (fuel : ℕ) (_skipMagic fault : Bool) (s : Bytes) : Script :=
  rawScript S.uncompressStream kBlockSize.toNat fault fuel [] (.opened (-1#64)) s

theorem refines_rawUncompress (fuel : ℕ) (skipMagic : Bool) :
    Refines (rawUncompress S fuel skipMagic) (rawUncompressScript S fuel skipMagic) :=
  fun _ _ => passes_playback fuel [] _

end Snzip
