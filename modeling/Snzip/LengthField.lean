import Snzip.Capacity
import Snzip.Skippable

set_option autoImplicit false

/-!
# Length fields that are cut short

The decoders of chunked streams put a length together from the results of `getc` and compare it
with `EOF` once, at the end. A stream that ends inside the field leaves something else there, unless
all the bytes before are `0xff`, and `read_data` is asked for it.

* `lengthField`: the `data_len` of a field; **`toNat_lengthField_short`**: of one that is cut short;
* `Watch`: the decoders with the requests they make of `read_data`;
* `Requests`: what is asked for in a chunk; **`Requests.fits`**, **`Requests.breaks`**: in a stream;
* **`requestsFit_iff`**: every request fits its buffer unless such a field is that of a data chunk;
* `not_requestsFit`: a chunk that ends after the first byte of its length.
-/

namespace Snzip

open CProg

/-! ## The field -/

/-- `data_len` after the `getc`s for `k` more bytes, on a stream with these bytes left. -/
def lengthFieldFrom (n : BitVec 64) (shift : ℕ) : ℕ → Bytes → BitVec 64
  | 0, _ => n
  | k + 1, s => lengthFieldFrom (orChr n s.head? shift) (shift + 8) k s.tail

/-- The number that a field of `k` bytes comes to. -/
def lengthField (k : ℕ) (s : Bytes) : BitVec 64 := lengthFieldFrom 0#64 0 k s

/-- `(size_t)EOF`. -/
abbrev sizeEof : BitVec 64 := sizeOfInt (chrInt none)

theorem getLengthFrom_field (n : BitVec 64) (j k : ℕ) (w : World) :
    getLengthFrom n j k w =
      .ret (lengthFieldFrom n j k w.inp.rest) { w with inp := InFile.next^[k] w.inp } := by
  induction k generalizing n j w with
  | zero => rfl
  | succ k ih =>
    have hgetc : w.inp.getc = (w.inp.rest.head?, w.inp.next) ∧
        w.inp.next.rest = w.inp.rest.tail := by
      cases hr : w.inp.rest <;> simp [InFile.next, InFile.getc, InFile.hitEnd, hr]
    rw [getLengthFrom, bind_apply, getc_apply, hgetc.1, Outcome.bind_ret, ih,
      Function.iterate_succ_apply, lengthFieldFrom, ← hgetc.2]

theorem getLength_field (k : ℕ) (w : World) :
    getLength k w = .ret (lengthField k w.inp.rest) { w with inp := InFile.next^[k] w.inp } :=
  getLengthFrom_field 0#64 0 k w

theorem toNat_lengthField {k : ℕ} (hk : k ≤ 3) {s : Bytes} (h : k ≤ s.length) :
    (lengthField k s).toNat = leVal (s.take k) := by
  obtain ⟨n, hn, he⟩ := getLength_eq (w := ⟨.opened s, .opened (.stdio 0) none⟩) hk h
  rw [getLength_field, Outcome.ret.injEq] at he
  exact (congrArg BitVec.toNat he.1).trans hn

theorem lengthFieldFrom_eof {n : BitVec 64} {i j : ℕ} (hi : i ≤ j) (k : ℕ) (hk : j + 8 * k ≤ 32) :
    lengthFieldFrom (orChr n none i) j k [] = orChr n none i := by
  induction k generalizing j with
  | zero => rfl
  | succ k ih =>
    rw [lengthFieldFrom, List.head?_nil, orChr_eof_eof n hi (by omega)]
    exact ih (by omega) (by omega)

/-- **A field cut short**: the bytes that are there, and all the bits above them. -/
theorem toNat_lengthFieldFrom_short {n : BitVec 64} {j k : ℕ} {s : Bytes} (hj : j + 8 * k ≤ 32)
    (hn : n.toNat < 2 ^ j) (h : s.length < k) :
    (lengthFieldFrom n j k s).toNat + 2 ^ (j + 8 * s.length) =
      2 ^ 64 + (n.toNat + leVal s * 2 ^ j) := by
  induction s generalizing n j k with
  | nil =>
    obtain ⟨k, rfl⟩ : ∃ k', k = k' + 1 := ⟨k - 1, by rw [List.length_nil] at h; omega⟩
    rw [lengthFieldFrom, List.head?_nil, List.tail_nil,
      lengthFieldFrom_eof (Nat.le_add_right j 8) k (by omega)]
    simpa [leVal] using toNat_orChr_eof hn (show j < 32 by omega)
  | cons b s ih =>
    obtain ⟨k, rfl⟩ : ∃ k', k = k' + 1 := ⟨k - 1, by rw [List.length_cons] at h; omega⟩
    rw [List.length_cons] at h
    have hb : b.toNat < 256 := b.isLt
    have hpow : 2 ^ (j + 8) = 256 * 2 ^ j := by rw [Nat.pow_add, Nat.mul_comm]
    have hle : 2 ^ (j + 8) ≤ 2 ^ 24 := Nat.pow_le_pow_right (by decide) (by omega)
    have hbs : b.toNat * 2 ^ j + 2 ^ j ≤ 2 ^ (j + 8) := by
      rw [hpow, ← Nat.succ_mul]
      exact Nat.mul_le_mul_right _ hb
    have hor := toNat_orChr_lt hn (show b.toNat * 2 ^ j < 2 ^ 31 by omega)
    have hrest :=
      ih (n := orChr n (some b) j) (j := j + 8) (k := k) (by omega) (by omega) (by omega)
    rw [lengthFieldFrom, List.head?_cons, List.tail_cons, List.length_cons, leVal]
    rw [show j + 8 * (s.length + 1) = j + 8 + 8 * s.length by ring, hrest, hor, hpow]
    ring

theorem toNat_lengthField_short {k : ℕ} (hk : k ≤ 3) {s : Bytes} (h : s.length < k) :
    (lengthField k s).toNat + 256 ^ s.length = 2 ^ 64 + leVal s := by
  have hfield := toNat_lengthFieldFrom_short (n := 0#64) (j := 0) (show 0 + 8 * k ≤ 32 by omega)
    (by simp) h
  rw [Nat.zero_add, Nat.pow_mul] at hfield
  simpa [lengthField] using hfield

theorem leVal_succ_eq_iff (s : Bytes) : leVal s + 1 = 256 ^ s.length ↔ ∀ b ∈ s, b = 0xff#8 := by
  induction s with
  | nil => simp [leVal]
  | cons b s ih =>
    have hb : b.toNat < 256 := b.isLt
    have hlt := leVal_lt s
    have hff : b = 0xff#8 ↔ b.toNat = 255 := by
      rw [← BitVec.toNat_inj]
      rfl
    rw [List.forall_mem_cons, ← ih, hff, leVal, List.length_cons, Nat.pow_succ]
    omega

/-- **The test for `EOF`** finds out about a cut field only if the bytes in it are all `0xff`. -/
theorem lengthField_eq_eof_iff {k : ℕ} (hk : k ≤ 3) {s : Bytes} (h : s.length < k) :
    lengthField k s = sizeEof ↔ ∀ b ∈ s, b = 0xff#8 := by
  have hshort := toNat_lengthField_short hk h
  have heof : sizeEof.toNat = 2 ^ 64 - 1 := by decide
  rw [← leVal_succ_eq_iff, ← BitVec.toNat_inj, heof]
  omega

/-! ## The decoders with their requests -/

namespace Watch

variable (F : Framing) (S : Snappy)

/-- The stream header, unless its magic has been read. -/
def readStreamHeader (skipMagic : Bool) : Watched Bool :=
  if skipMagic then pure true
  else do
    match ← freadInto F.maxDataLen F.streamHeader.length with
    | none => return false
    | some data => return decide (data = F.streamHeader)

/-- A chunk, after its identifier and its length; `data` has `MAX_DATA_LEN` bytes. -/
def framingData (id : Byte) (dataLen : BitVec 64) : Watched (Unit ⊕ Bool) := do
  if dataLen = sizeEof then return .inr false
  if id = 0x00#8 then
    if dataLen.toNat < 4 then return .inr false
    match ← freadInto F.maxDataLen dataLen.toNat with
    | none => return .inr false
    | some data =>
      match S.uncompress (data.drop 4) F.maxUncompressedDataLen with
      | none => return .inr false
      | some u => quiet (writeChecked u data)
  else if id = 0x01#8 then
    if dataLen.toNat < 4 then return .inr false
    match ← freadInto F.maxDataLen dataLen.toNat with
    | none => return .inr false
    | some data => quiet (writeChecked (data.drop 4) data)
  else if id.toNat < 0x80 then return .inr false
  else if ← quiet (skipBytes dataLen) then return .inl ()
  else return .inr false

/-- The body of the loop of the framing formats. -/
def framingChunk (id : Byte) : Watched (Unit ⊕ Bool) := do
  let dataLen ← quiet (getLength F.lengthBytes)
  framingData F S id dataLen

/-- A data chunk of iwa. -/
def iwaData (dataLen : BitVec 64) : Watched (Unit ⊕ Bool) := do
  if dataLen = sizeEof then return .inr false
  if dataLen.toNat < 4 then return .inr false
  match ← freadInto iwaMaxDataLen dataLen.toNat with
  | none => return .inr false
  | some data =>
    match S.uncompress data iwaMaxUncompressedDataLen with
    | none => return .inr false
    | some u => quiet (writeContent u)

/-- The body of the loop of iwa. -/
def iwaChunk (id : Byte) : Watched (Unit ⊕ Bool) := do
  if id ≠ 0x00#8 then return .inr false
  let dataLen ← quiet (getLength 3)
  iwaData S dataLen

/-- A pass of the loop over the chunks. -/
def passOf (chunk : Byte → Watched (Unit ⊕ Bool)) (_ : Unit) : Watched (Unit ⊕ Bool) := do
  match ← quiet getc with
  | none => return .inr true
  | some id => chunk id

/-- The loop over the chunks, and the status after it. -/
def chunkLoop (chunk : Byte → Watched (Unit ⊕ Bool)) : Watched ℕ :=
  loop (fun _ s => s.state.inp.rest.length) (passOf chunk) () >>= fun ok => quiet (afterChunks ok)

/-- `framing_format_uncompress`. -/
def framingFormatUncompress (skipMagic : Bool) : Watched ℕ := do
  if !(malloc F.maxDataLen && malloc F.maxUncompressedDataLen) then return 1
  if !(← readStreamHeader F skipMagic) then return 1
  chunkLoop (framingChunk F S)

/-- `iwa_uncompress`. -/
def iwaUncompress (_skipMagic : Bool) : Watched ℕ := do
  if !(malloc iwaMaxDataLen && malloc iwaMaxUncompressedDataLen) then return 1
  chunkLoop (iwaChunk S)

end Watch

section Forgets

variable {F : Framing} {S : Snappy}

theorem forgets_readStreamHeader (skipMagic : Bool) :
    Forgets (Watch.readStreamHeader F skipMagic) (readStreamHeader F skipMagic) := by
  refine forgets_ite (forgets_pure _) ((forgets_freadInto _ _).bind fun data => ?_)
  cases data with
  | none => exact forgets_pure _
  | some data => exact forgets_pure _

theorem forgets_framingData (id : Byte) (n : BitVec 64) :
    Forgets (Watch.framingData F S id n) (framingData F S id n) := by
  refine forgets_ite (forgets_pure _) (forgets_ite ?_ (forgets_ite ?_ ?_))
  · refine forgets_ite (forgets_pure _) ((forgets_freadInto _ _).bind fun data => ?_)
    cases data with
    | none => exact forgets_pure _
    | some data =>
      simp only
      cases S.uncompress (data.drop 4) F.maxUncompressedDataLen with
      | none => exact forgets_pure _
      | some u => exact forgets_quiet _
  · refine forgets_ite (forgets_pure _) ((forgets_freadInto _ _).bind fun data => ?_)
    cases data with
    | none => exact forgets_pure _
    | some data => exact forgets_quiet _
  · exact forgets_ite (forgets_pure _) ((forgets_quiet _).bind fun ok =>
      forgets_ite (forgets_pure _) (forgets_pure _))

theorem forgets_iwaData (n : BitVec 64) : Forgets (Watch.iwaData S n) (iwaData S n) := by
  refine forgets_ite (forgets_pure _) (forgets_ite (forgets_pure _)
    ((forgets_freadInto _ _).bind fun data => ?_))
  cases data with
  | none => exact forgets_pure _
  | some data =>
    simp only
    cases S.uncompress data iwaMaxUncompressedDataLen with
    | none => exact forgets_pure _
    | some u => exact forgets_quiet _

variable {chunk : Byte → Io (Unit ⊕ Bool)} {chunk' : Byte → Watched (Unit ⊕ Bool)}

theorem forgets_passOf (h : ∀ id, Forgets (chunk' id) (chunk id)) (t : Unit) :
    Forgets (Watch.passOf chunk' t) (passOf chunk t) := by
  refine (forgets_quiet _).bind fun id => ?_
  cases id with
  | none => exact forgets_pure _
  | some id => exact h id

theorem forgets_chunkLoop (h : ∀ id, Forgets (chunk' id) (chunk id)) :
    Forgets (Watch.chunkLoop chunk') (chunkLoop chunk) :=
  (forgets_loop (μ := fun (_ : Unit) (w : World) => w.inp.rest.length) (forgets_passOf h) ()).bind
    fun ok => forgets_quiet (afterChunks ok)

end Forgets

/-! ## What is asked for -/

/-- The decoder of a chunk and its twin. The twin asks for the data of a chunk that holds data, in
as many bytes as its length field says. -/
structure Requests (k room : ℕ) (reading : Byte → Bytes → Reading) (HoldsData : Byte → Prop)
    (chunk : Byte → Io (Unit ⊕ Bool)) (chunk' : Byte → Watched (Unit ⊕ Bool)) : Prop where
  reads : ReadsChunks k reading chunk
  forgets : ∀ id, Forgets (chunk' id) (chunk id)
  keeps : ∀ id s, EachLogged Access.Fits s →
    (HoldsData id → lengthField k s.state.inp.rest ≠ sizeEof →
      (lengthField k s.state.inp.rest).toNat ≤ room) →
    (chunk' id s).Holds (fun _ => EachLogged Access.Fits) (EachLogged Access.Fits)
  asks : ∀ id s, HoldsData id → lengthField k s.state.inp.rest ≠ sizeEof →
    4 ≤ (lengthField k s.state.inp.rest).toNat →
    s.state.inp.rest.length < (lengthField k s.state.inp.rest).toNat →
    ∃ s', chunk' id s = .ret (.inr false) s' ∧
      ⟨(lengthField k s.state.inp.rest).toNat, room⟩ ∈ s'.log

theorem quiet_getLength_bind {α : Type} (k : ℕ) (f : BitVec 64 → Watched α)
    (s : Logged World Access) :
    (quiet (getLength k) >>= f) s = f (lengthField k s.state.inp.rest)
      ⟨{ s.state with inp := InFile.next^[k] s.state.inp }, s.log⟩ := by
  rw [bind_apply, quiet_apply, getLength_field]
  rfl

theorem length_iterate_next (k : ℕ) (i : InFile) :
    (InFile.next^[k] i).rest.length ≤ i.rest.length := by
  rcases Nat.lt_or_ge i.rest.length k with h | h
  · rw [InFile.iterate_next_short k h]
    exact Nat.zero_le _
  · rw [InFile.iterate_next h, List.length_drop]
    exact Nat.sub_le _ _

theorem freadInto_short {room n : ℕ} {s : Logged World Access} (h : s.state.inp.rest.length < n) :
    freadInto room n s =
      .ret none ⟨{ s.state with inp := s.state.inp.hitEnd }, s.log ++ [⟨n, room⟩]⟩ := by
  rw [freadInto, bind_apply, record_apply, Outcome.bind_ret, quiet_apply, fread_short h]
  rfl

section Framing

variable {F : Framing} {S : Snappy} {id : Byte} {n : BitVec 64}

theorem keeps_framingData
    (h : id = 0x00#8 ∨ id = 0x01#8 → n ≠ sizeEof → n.toNat ≤ F.maxDataLen) :
    Keeps Access.Fits (Watch.framingData F S id n) fun _ => True := by
  refine keeps_ite (fun _ => keeps_pure trivial) fun heof => keeps_ite (fun h0 => ?_) fun h0 =>
    keeps_ite (fun h1 => ?_) fun h1 => ?_
  · refine keeps_ite (fun _ => keeps_pure trivial) fun _ =>
      (keeps_freadInto (h (Or.inl h0) heof)).bind fun data _ => ?_
    cases data with
    | none => exact keeps_pure trivial
    | some data =>
      simp only
      cases S.uncompress (data.drop 4) F.maxUncompressedDataLen with
      | none => exact keeps_pure trivial
      | some u => exact keeps_quiet_any _
  · refine keeps_ite (fun _ => keeps_pure trivial) fun _ =>
      (keeps_freadInto (h (Or.inr h1) heof)).bind fun data _ => ?_
    cases data with
    | none => exact keeps_pure trivial
    | some data => exact keeps_quiet_any _
  · exact keeps_ite (fun _ => keeps_pure trivial) fun _ => (keeps_quiet_any _).bind fun _ _ =>
      keeps_ite (fun _ => keeps_pure trivial) fun _ => keeps_pure trivial

theorem asks_framingData (hid : id = 0x00#8 ∨ id = 0x01#8) (hn : n ≠ sizeEof) (h4 : 4 ≤ n.toNat)
    {s : Logged World Access} (hs : s.state.inp.rest.length < n.toNat) :
    ∃ s', Watch.framingData F S id n s = .ret (.inr false) s' ∧
      ⟨n.toNat, F.maxDataLen⟩ ∈ s'.log := by
  unfold Watch.framingData
  rcases hid with rfl | rfl
  · simp only [hn, if_false, if_true, Nat.not_lt.mpr h4, bind_apply, freadInto_short hs,
      Outcome.bind_ret]
    exact ⟨_, rfl, List.mem_append_right _ (List.mem_singleton_self _)⟩
  · simp only [hn, if_false, show ¬ (0x01#8 : Byte) = 0x00#8 by decide, if_true,
      Nat.not_lt.mpr h4, bind_apply, freadInto_short hs, Outcome.bind_ret]
    exact ⟨_, rfl, List.mem_append_right _ (List.mem_singleton_self _)⟩

theorem requests_framingChunk : Requests F.lengthBytes F.maxDataLen (framingReading F S)
    (fun id => id = 0x00#8 ∨ id = 0x01#8) (framingChunk F S) (Watch.framingChunk F S) where
  reads := readsChunks_framingChunk
  forgets id := (forgets_quiet _).bind fun n => forgets_framingData id n
  keeps id s hs h := by
    rw [Watch.framingChunk, quiet_getLength_bind]
    exact (keeps_framingData h).eachLogged hs
  asks id s hid hn h4 hs := by
    rw [Watch.framingChunk, quiet_getLength_bind]
    exact asks_framingData hid hn h4 (Nat.lt_of_le_of_lt (length_iterate_next _ _) hs)

end Framing

section Iwa

variable {S : Snappy} {n : BitVec 64}

theorem keeps_iwaData (h : n ≠ sizeEof → n.toNat ≤ iwaMaxDataLen) :
    Keeps Access.Fits (Watch.iwaData S n) fun _ => True := by
  refine keeps_ite (fun _ => keeps_pure trivial) fun heof => keeps_ite (fun _ => keeps_pure trivial)
    fun _ => (keeps_freadInto (h heof)).bind fun data _ => ?_
  cases data with
  | none => exact keeps_pure trivial
  | some data =>
    simp only
    cases S.uncompress data iwaMaxUncompressedDataLen with
    | none => exact keeps_pure trivial
    | some u => exact keeps_quiet_any _

theorem asks_iwaData (hn : n ≠ sizeEof) (h4 : 4 ≤ n.toNat) {s : Logged World Access}
    (hs : s.state.inp.rest.length < n.toNat) :
    ∃ s', Watch.iwaData S n s = .ret (.inr false) s' ∧ ⟨n.toNat, iwaMaxDataLen⟩ ∈ s'.log := by
  unfold Watch.iwaData
  simp only [hn, if_false, Nat.not_lt.mpr h4, bind_apply, freadInto_short hs, Outcome.bind_ret]
  exact ⟨_, rfl, List.mem_append_right _ (List.mem_singleton_self _)⟩

theorem requests_iwaChunk : Requests 3 iwaMaxDataLen (iwaReading S) (fun id => id = 0x00#8)
    (iwaChunk S) (Watch.iwaChunk S) where
  reads := readsChunks_iwaChunk
  forgets id := forgets_ite (forgets_pure _) ((forgets_quiet _).bind forgets_iwaData)
  keeps id s hs h := by
    unfold Watch.iwaChunk
    split
    · exact hs
    · next hid =>
      rw [quiet_getLength_bind]
      exact (keeps_iwaData (h (not_not.mp hid))).eachLogged hs
  asks id s hid hn h4 hs := by
    subst hid
    simp only [Watch.iwaChunk, ne_eq, not_true_eq_false, if_false]
    rw [quiet_getLength_bind]
    exact asks_iwaData hn h4 (Nat.lt_of_le_of_lt (length_iterate_next _ _) hs)

end Iwa

/-! ## Streams -/

/-- The stream ends inside the length field of a chunk that holds data, after whole chunks at which
the loop goes on, and a byte of the field that is there is not `0xff`. -/
def CutField (k : ℕ) (reading : Byte → Bytes → Reading) (HoldsData : Byte → Prop) (t : Bytes) :
    Prop :=
  ∃ (cs : List (WholeChunk k)) (id : Byte) (q : Bytes),
    t = cs.flatMap WholeChunk.bytes ++ id :: q ∧ (∀ c ∈ cs, ¬ c.Halts reading) ∧
      HoldsData id ∧ q.length < k ∧ ∃ b ∈ q, b ≠ 0xff#8

section Passes

variable {k : ℕ} {reading : Byte → Bytes → Reading} {chunk : Byte → Io (Unit ⊕ Bool)} {w w' : World}

theorem wholeChunk_of_passOf (hc : ReadsChunks k reading chunk)
    (h : passOf chunk () w = .ret (.inl ()) w') :
    ∃ c : WholeChunk k, ¬ c.Halts reading ∧ w.inp.rest = c.bytes ++ w'.inp.rest := by
  cases hs : splitChunk k w.inp.rest with
  | none =>
    cases hr : w.inp.rest with
    | nil =>
      rw [passOf, bind_apply, getc_nil hr] at h
      cases h
    | cons b s =>
      rw [hr] at hs
      obtain ⟨i, hi⟩ := hc.short b { w with inp := { w.inp with rest := s } } hs
      rw [passOf, bind_apply, getc_cons hr, Outcome.bind_ret] at h
      cases hi.symm.trans h
  | some p =>
    obtain ⟨id, data, rest⟩ := p
    obtain ⟨hlen, hbytes⟩ := splitChunk_eq_some_iff.mp hs
    have hact := passOf_acts hc hs
    refine ⟨⟨id, data, hlen⟩, ?_, ?_⟩
    · rintro (hbad | hempty)
      · rw [show reading id data = .bad from hbad] at hact
        obtain ⟨i, hi⟩ := hact
        cases hi.symm.trans h
      · rw [show reading id data = .content [] from hempty] at hact
        have hwrite := (show passOf chunk () w = _ from hact).symm.trans h
        simp [writeContent, OutFile.fwrite] at hwrite
    · suffices hrest : w'.inp.rest = rest by
        rw [hbytes, hrest]
        rfl
      cases hr : reading id data with
      | bad =>
        rw [hr] at hact
        obtain ⟨i, hi⟩ := hact
        cases hi.symm.trans h
      | skip =>
        rw [hr] at hact
        cases (show passOf chunk () w = _ from hact).symm.trans h
        rfl
      | content c =>
        rw [hr] at hact
        have hwrite := (show passOf chunk () w = _ from hact).symm.trans h
        cases hf : w.out.fwrite c with
        | mk ok o => cases ok <;> simp [writeContent, hf] at hwrite; rw [← hwrite]

theorem passOf_wholeChunk (hc : ReadsChunks k reading chunk) {c : WholeChunk k}
    (hnot : ¬ c.Halts reading) (hw : Clean w) {r : Bytes} (hr : w.inp.rest = c.bytes ++ r) :
    ∃ w', passOf chunk () w = .ret (.inl ()) w' ∧ Clean w' ∧ w'.inp.rest = r := by
  have hne : w.inp.rest ≠ [] := by
    rw [hr]
    exact List.cons_ne_nil _ _
  have hact := passOf_acts hc (hr ▸ c.split r)
  cases hread : reading c.id c.data with
  | bad => exact absurd (Or.inl hread) hnot
  | skip =>
    rw [hread] at hact
    exact ⟨_, hact, hw.drop hne r, rfl⟩
  | content u =>
    have hu : u ≠ [] := fun h0 => hnot (Or.inr (h0 ▸ hread))
    rw [hread] at hact
    obtain ⟨o, ho, hclean, -⟩ := writeContent_clean (hw.drop hne r) hu
    exact ⟨_, (show passOf chunk () w = _ from hact).trans ho, hclean, rfl⟩

end Passes

namespace Requests

variable {k room : ℕ} {reading : Byte → Bytes → Reading} {HoldsData : Byte → Prop}
  {chunk : Byte → Io (Unit ⊕ Bool)} {chunk' : Byte → Watched (Unit ⊕ Bool)} {t : Bytes}

/-- **Every request fits** if no field of a data chunk is cut short. -/
theorem fits (h : Requests k room reading HoldsData chunk chunk') (hk : k ≤ 3)
    (hroom : 256 ^ k ≤ room + 1) (ht : ¬ CutField k reading HoldsData t) :
    Ensures (fun s => s.state.inp.rest = t ∧ EachLogged Access.Fits s) (Watch.chunkLoop chunk')
      (fun _ => EachLogged Access.Fits) (EachLogged Access.Fits) := by
  -- before each pass, whole chunks have been read
  have hloop : Ensures (fun s => s.state.inp.rest = t ∧ EachLogged Access.Fits s)
      (loop (fun _ s => s.state.inp.rest.length) (Watch.passOf chunk') ())
      (fun _ => EachLogged Access.Fits) (EachLogged Access.Fits) := by
    refine (ensures_loop (J := fun _ s => (∃ cs : List (WholeChunk k),
      t = cs.flatMap WholeChunk.bytes ++ s.state.inp.rest ∧ ∀ c ∈ cs, ¬ c.Halts reading) ∧
        EachLogged Access.Fits s) (fun _ => ?_) ()).mono
      (fun s hs => ⟨⟨[], by simp [hs.1], by simp⟩, hs.2⟩) fun _ _ h => h
    rintro s ⟨⟨cs, hcs, hnot⟩, hs⟩
    have hforgets := forgets_passOf h.forgets () s
    have hkeeps : (Watch.passOf chunk' () s).Holds (fun _ => EachLogged Access.Fits)
        (EachLogged Access.Fits) := by
      cases hr : s.state.inp.rest with
      | nil =>
        rw [Watch.passOf, bind_apply, quiet_apply, getc_nil hr]
        exact hs
      | cons id q =>
        rw [Watch.passOf, bind_apply, quiet_apply, getc_cons hr]
        refine h.keeps id _ hs fun hdata heof => ?_
        change lengthField k q ≠ sizeEof at heof
        change (lengthField k q).toNat ≤ room
        rcases Nat.lt_or_ge q.length k with hlt | hge
        · refine absurd ((lengthField_eq_eof_iff hk hlt).mpr fun b hb => ?_) heof
          by_contra hff
          exact ht ⟨cs, id, q, hr ▸ hcs, hnot, hdata, hlt, b, hb, hff⟩
        · have hval := leVal_lt (q.take k)
          rw [List.length_take_of_le hge] at hval
          rw [toNat_lengthField hk hge]
          omega
    generalize Watch.passOf chunk' () s = r at hforgets hkeeps ⊢
    cases r with
    | ret a s' =>
      cases a with
      | inl _ =>
        obtain ⟨c, hc, hrest⟩ := wholeChunk_of_passOf h.reads hforgets.symm
        refine ⟨⟨cs ++ [c], ?_, ?_⟩, hkeeps⟩
        · rw [hcs, hrest]
          simp
        · intro d hd
          rcases List.mem_append.mp hd with hd | hd
          · exact hnot d hd
          · rwa [List.mem_singleton.mp hd]
      | inr b => exact hkeeps
    | exit n s' => exact hkeeps
    | diverge => trivial
  exact hloop.bind fun ok s hs => (keeps_quiet_any _).eachLogged hs

/-- **A field of a data chunk that is cut short** is asked for in full. -/
theorem breaks (h : Requests k room reading HoldsData chunk chunk') (hk : k ≤ 3)
    (hroom : room < 2 ^ 63) (ht : CutField k reading HoldsData t) {s : Logged World Access}
    (hs : s.state.inp.rest = t) (hclean : Clean s.state) :
    ¬ (Watch.chunkLoop chunk' s).Ends (EachLogged Access.Fits) := by
  obtain ⟨cs, id, q, rfl, hnot, hdata, hlt, b, hb, hff⟩ := ht
  have hlow := Forgets.lowers (forgets_passOf h.forgets)
    (lowers_of_follows (R := fun (_ _ : Unit) => True) (k := afterChunks)
      (p := chunkPass k reading) (b := passOf chunk) fun _ _ w _ hw => follows_chunkPass h.reads hw)
  rw [Watch.chunkLoop, bind_apply]
  induction cs generalizing s with
  | cons c cs ih =>
    rw [List.flatMap_cons, List.append_assoc] at hs
    obtain ⟨w', hpass, hclean', hrest⟩ :=
      passOf_wholeChunk h.reads (hnot c List.mem_cons_self) hclean hs
    obtain ⟨s', hs', hw'⟩ := Outcome.view_eq_ret.mp
      ((forgets_passOf h.forgets () s).trans hpass)
    rw [loop_inl hlow ⟨hclean.ok, (), trivial⟩ hs']
    subst hw'
    exact ih hclean' hrest fun d hd => hnot d (List.mem_cons_of_mem _ hd)
  | nil =>
    have hfield := toNat_lengthField_short hk hlt
    have hpow : 256 ^ q.length ≤ 256 ^ 2 := Nat.pow_le_pow_right (by decide) (by omega)
    have hlong : q.length < 256 ^ q.length := Nat.lt_pow_self (by decide)
    have heof : lengthField k q ≠ sizeEof := fun he =>
      hff ((lengthField_eq_eof_iff hk hlt).mp he b hb)
    obtain ⟨s', hs', hmem⟩ := h.asks id
      ⟨{ s.state with inp := { s.state.inp with rest := q } }, s.log⟩ hdata heof
      (by simp only; omega) (by simp only; omega)
    have hpass : Watch.passOf chunk' () s = .ret (.inr false) s' := by
      rw [Watch.passOf, bind_apply, quiet_apply, getc_cons hs]
      exact hs'
    rw [loop_inr hpass]
    intro hends
    have hfits : (lengthField k q).toNat ≤ room := hends _ hmem
    omega

end Requests

/-! ## The decoders -/

namespace Chunked

/-- `MAX_DATA_LEN`. -/
def maxDataLen : Chunked → ℕ
  | framing2 => Snzip.framing2.maxDataLen
  | framing => Snzip.framing.maxDataLen
  | iwa => iwaMaxDataLen

/-- The chunks of which the decoder reads the data. -/
def HoldsData : Chunked → Byte → Prop
  | framing2, id | framing, id => id = 0x00#8 ∨ id = 0x01#8
  | iwa, id => id = 0x00#8

/-- The decoder with its requests. -/
def watched (S : Snappy) : Chunked → Bool → Watched ℕ
  | framing2 => Watch.framingFormatUncompress Snzip.framing2 S
  | framing => Watch.framingFormatUncompress Snzip.framing S
  | iwa => Watch.iwaUncompress S

variable (f : Chunked) (S : Snappy) (skipMagic : Bool) (s : Bytes)

/-- In every run on these bytes, whatever comes after them and however much of the output is taken,
`read_data` is asked for no more than its buffer holds. -/
def RequestsFit : Prop :=
  ∀ w : World, w.inp.Ok → w.inp.rest = s →
    (f.watched S skipMagic ⟨w, []⟩).Ends (EachLogged Access.Fits)

end Chunked

section Framing

variable {F : Framing} {S : Snappy} {skipMagic : Bool}

theorem forgets_framingFormatUncompress (skipMagic : Bool) :
    Forgets (Watch.framingFormatUncompress F S skipMagic) (framingFormatUncompress F S skipMagic) :=
  forgets_ite (forgets_pure _) ((forgets_readStreamHeader skipMagic).bind fun _ =>
    forgets_ite (forgets_pure _) (forgets_chunkLoop requests_framingChunk.forgets))

theorem ensures_readStreamHeader (hheader : F.streamHeader.length ≤ F.maxDataLen) (s : Bytes) :
    Ensures (fun l => l.state.inp.rest = s ∧ EachLogged Access.Fits l)
      (Watch.readStreamHeader F skipMagic)
      (fun ok l => (ok = true → s = F.magic skipMagic ++ l.state.inp.rest) ∧
        EachLogged Access.Fits l) (EachLogged Access.Fits) := by
  rintro l ⟨rfl, hl⟩
  cases skipMagic with
  | true => exact ⟨fun _ => rfl, hl⟩
  | false =>
    have hkeeps := (keeps_freadInto hheader).eachLogged hl
    simp only [Watch.readStreamHeader, Bool.false_eq_true, if_false, bind_apply]
    rcases Nat.lt_or_ge l.state.inp.rest.length F.streamHeader.length with hlt | hge
    · rw [freadInto_short hlt] at hkeeps ⊢
      exact ⟨fun h => Bool.noConfusion h, hkeeps⟩
    · have hread : freadInto F.maxDataLen F.streamHeader.length l =
          .ret (some (l.state.inp.rest.take F.streamHeader.length))
            ⟨{ l.state with inp :=
              { l.state.inp with rest := l.state.inp.rest.drop F.streamHeader.length } },
              l.log ++ [⟨F.streamHeader.length, F.maxDataLen⟩]⟩ := by
        rw [freadInto, bind_apply, record_apply, Outcome.bind_ret, quiet_apply,
          fread_eq (Nat.ne_of_gt F.header_pos) hge]
        rfl
      rw [hread] at hkeeps ⊢
      refine ⟨fun hok => ?_, hkeeps⟩
      have htake : l.state.inp.rest.take F.streamHeader.length = F.streamHeader :=
        of_decide_eq_true hok
      rw [Framing.magic, if_neg Bool.false_ne_true]
      nth_rewrite 1 [← htake]
      exact (List.take_append_drop _ _).symm

theorem readStreamHeader_magic {w : World} {t : Bytes} (h : w.inp.rest = F.magic skipMagic ++ t) :
    readStreamHeader F skipMagic w = .ret true { w with inp := { w.inp with rest := t } } := by
  cases skipMagic with
  | true =>
    rw [show t = w.inp.rest from h.symm]
    rfl
  | false => exact readStreamHeader_header h

theorem fits_framing (hheader : F.streamHeader.length ≤ F.maxDataLen)
    (hroom : 256 ^ F.lengthBytes ≤ F.maxDataLen + 1) {s : Bytes}
    (hs : ¬ ∃ t, s = F.magic skipMagic ++ t ∧ CutField F.lengthBytes (framingReading F S)
      (fun id => id = 0x00#8 ∨ id = 0x01#8) t) :
    Ensures (fun l => l.state.inp.rest = s ∧ EachLogged Access.Fits l)
      (Watch.framingFormatUncompress F S skipMagic) (fun _ => EachLogged Access.Fits)
      (EachLogged Access.Fits) := by
  unfold Watch.framingFormatUncompress
  simp only [framing_mallocs, Bool.not_true, Bool.false_eq_true, if_false]
  refine (ensures_readStreamHeader hheader s).bind fun ok => ?_
  cases ok with
  | false => exact ensures_pure fun _ hl => hl.2
  | true =>
    rintro l ⟨hl, hfits⟩
    exact requests_framingChunk.fits F.lengthBytes_le hroom (fun hcut => hs ⟨_, hl rfl, hcut⟩) l
      ⟨rfl, hfits⟩

theorem breaks_framing {s t : Bytes} (hs : s = F.magic skipMagic ++ t)
    (ht : CutField F.lengthBytes (framingReading F S) (fun id => id = 0x00#8 ∨ id = 0x01#8) t)
    {w : World} (hw : Clean w) (hr : w.inp.rest = s) :
    ¬ (Watch.framingFormatUncompress F S skipMagic ⟨w, []⟩).Ends (EachLogged Access.Fits) := by
  obtain ⟨l, hl, hstate⟩ := Outcome.view_eq_ret.mp
    ((forgets_readStreamHeader skipMagic ⟨w, []⟩).trans (readStreamHeader_magic (hr.trans hs)))
  have hclean : Clean { w with inp := { w.inp with rest := t } } := by
    cases skipMagic with
    | true => rwa [show t = w.inp.rest from (hr.trans hs).symm]
    | false =>
      refine hw.drop ?_ t
      rw [hr, hs, Framing.magic, F.header_eq]
      exact List.cons_ne_nil _ _
  unfold Watch.framingFormatUncompress
  simp only [framing_mallocs, Bool.not_true, Bool.false_eq_true, if_false, bind_apply, hl,
    Outcome.bind_ret]
  exact requests_framingChunk.breaks F.lengthBytes_le F.maxDataLen_lt ht (by rw [hstate])
    (by rwa [hstate])

end Framing

section Iwa

variable {S : Snappy} {skipMagic : Bool}

theorem iwa_mallocs : (malloc iwaMaxDataLen && malloc iwaMaxUncompressedDataLen) = true := by decide

theorem forgets_iwaUncompress (skipMagic : Bool) :
    Forgets (Watch.iwaUncompress S skipMagic) (iwaUncompress S skipMagic) :=
  forgets_ite (forgets_pure _) (forgets_chunkLoop requests_iwaChunk.forgets)

theorem watch_iwaUncompress :
    Watch.iwaUncompress S skipMagic = Watch.chunkLoop (Watch.iwaChunk S) := by
  unfold Watch.iwaUncompress
  simp only [iwa_mallocs, Bool.not_true, Bool.false_eq_true, if_false]

end Iwa

namespace Chunked

variable (f : Chunked) (S : Snappy) (skipMagic : Bool) (s : Bytes)

/-- After what the decoder reads first, the field of a data chunk is cut short. -/
def CutShort : Prop :=
  ∃ t, s = f.header skipMagic ++ t ∧ CutField f.lengthBytes (f.reading S) f.HoldsData t

theorem forgets_watched : Forgets (f.watched S skipMagic) (f.uncompress S skipMagic) := by
  cases f with
  | framing2 | framing => exact forgets_framingFormatUncompress skipMagic
  | iwa => exact forgets_iwaUncompress skipMagic

theorem header_framing2 : framing2.header skipMagic = Snzip.framing2.magic skipMagic := by
  cases skipMagic <;> rfl

theorem header_framing : framing.header skipMagic = Snzip.framing.magic skipMagic := by
  cases skipMagic <;> rfl

theorem header_iwa : iwa.header skipMagic = [] := by cases skipMagic <;> rfl

variable {f S skipMagic s}

theorem fits_of_not_cutShort (h : ¬ f.CutShort S skipMagic s) :
    Ensures (fun l => l.state.inp.rest = s ∧ EachLogged Access.Fits l) (f.watched S skipMagic)
      (fun _ => EachLogged Access.Fits) (EachLogged Access.Fits) := by
  cases f with
  | framing2 =>
    rw [CutShort, header_framing2] at h
    exact fits_framing (by decide) (by decide) h
  | framing =>
    rw [CutShort, header_framing] at h
    exact fits_framing (by decide) (by decide) h
  | iwa =>
    rw [watched, watch_iwaUncompress]
    exact requests_iwaChunk.fits (by decide) (by decide) fun ht =>
      h ⟨s, by rw [header_iwa, List.nil_append], ht⟩

theorem not_fits_of_cutShort (h : f.CutShort S skipMagic s) {w : World} (hw : Clean w)
    (hr : w.inp.rest = s) :
    ¬ (f.watched S skipMagic ⟨w, []⟩).Ends (EachLogged Access.Fits) := by
  obtain ⟨t, hs, ht⟩ := h
  cases f with
  | framing2 =>
    rw [header_framing2] at hs
    exact breaks_framing hs ht hw hr
  | framing =>
    rw [header_framing] at hs
    exact breaks_framing hs ht hw hr
  | iwa =>
    rw [header_iwa, List.nil_append] at hs
    rw [watched, watch_iwaUncompress]
    exact requests_iwaChunk.breaks (by decide) (by decide) ht (hr.trans hs) hw

theorem not_requestsFit_of_cutShort (h : f.CutShort S skipMagic s) :
    ¬ f.RequestsFit S skipMagic s := fun hfit =>
  not_fits_of_cutShort h (clean_opened s (.stdio 4096)) rfl (hfit _ (InFile.ok_opened s) rfl)

end Chunked

theorem Chunked.uncompress_ne_diverge (f : Chunked) (S : Snappy) (skipMagic : Bool) {w : World}
    (hw : w.inp.Ok) : f.uncompress S skipMagic w ≠ .diverge := by
  have hend := fun {g : Format} (hg : g ≠ .raw) =>
    Snzip.uncompress_ne_diverge (L := ⟨S, 0⟩) hg .initial skipMagic hw
  cases f with
  | framing2 => exact hend (g := .framing2) (by decide)
  | framing => exact hend (g := .framing) (by decide)
  | iwa => exact hend (g := .iwa) (by decide)

/-- **When `read_data` keeps to its buffer.** The decoder with its requests is the decoder, and on
every run over these bytes its requests fit exactly if the bytes do not end inside the length field
of a data chunk with a byte other than `0xff` there. -/
theorem requestsFit_iff (f : Chunked) (S : Snappy) (skipMagic : Bool) (s : Bytes) :
    (∀ w, (f.watched S skipMagic ⟨w, []⟩).view Logged.state = f.uncompress S skipMagic w) ∧
      (f.RequestsFit S skipMagic s ↔ ¬ f.CutShort S skipMagic s) := by
  refine ⟨fun w => f.forgets_watched S skipMagic ⟨w, []⟩, ?_, fun h w hw hr => ?_⟩
  · exact fun hfit hcut => Chunked.not_requestsFit_of_cutShort hcut hfit
  · exact (f.forgets_watched S skipMagic).ends (Chunked.fits_of_not_cutShort h)
      ⟨hr, eachLogged_nil w⟩ (f.uncompress_ne_diverge S skipMagic hw)

/-- A data chunk that ends after the first byte of its length: `data_len` is `2 ^ 64 - 251`. -/
theorem not_requestsFit :
    ¬ Chunked.framing2.RequestsFit literalSnappy false
      (framing2.streamHeader ++ [0x00#8, 0x05#8]) := by
  have hcut : Chunked.framing2.CutShort literalSnappy false
      (framing2.streamHeader ++ [0x00#8, 0x05#8]) :=
    ⟨_, rfl, [], 0x00#8, [0x05#8], rfl, by simp, Or.inl rfl, by decide, 0x05#8, by simp, by decide⟩
  exact Chunked.not_requestsFit_of_cutShort hcut

end Snzip
