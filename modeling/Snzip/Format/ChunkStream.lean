import Snzip.Format.Chunk

set_option autoImplicit false

/-!
# Sequences of chunks

What a chunked stream is, apart from any decoder, and what the decoders' loop does on it.

* `Accepts`, `Chunks`: chunks one after the other, with the contents of the data chunks;
* `splitChunk_append`, `unroll_content`, `unroll_skip`: chunks as the compressors write them;
* `Stops`, **`chunkLoop_run`**: where the loop stops, what it has written and what it has not read;
* **`chunkLoop_stops`**: a chunk with an empty content is such a place.
-/

namespace Snzip

open CProg

variable {k : ℕ} {reading : Byte → Bytes → Reading}

/-- From `s` to `rest` over complete, accepted chunks that are skipped or have a content; `cs` are
the contents. -/
inductive Accepts (k : ℕ) (reading : Byte → Bytes → Reading) : Bytes → List Bytes → Bytes → Prop
  | done {s} : Accepts k reading s [] s
  | skip {s id data s' cs rest} (h : splitChunk k s = some (id, data, s'))
      (hr : reading id data = .skip) (ht : Accepts k reading s' cs rest) :
      Accepts k reading s cs rest
  | content {s id data c s' cs rest} (h : splitChunk k s = some (id, data, s'))
      (hr : reading id data = .content c) (ht : Accepts k reading s' cs rest) :
      Accepts k reading s (c :: cs) rest

/-- A sequence of complete, accepted chunks, with the contents of all of its data chunks. -/
def Chunks (k : ℕ) (reading : Byte → Bytes → Reading) (s : Bytes) (cs : List Bytes) : Prop :=
  Accepts k reading s cs []

theorem Accepts.append {s s' s'' : Bytes} {cs ds : List Bytes} (h : Accepts k reading s cs s')
    (h' : Accepts k reading s' ds s'') : Accepts k reading s (cs ++ ds) s'' := by
  induction h with
  | done => exact h'
  | skip h hr _ ih => exact .skip h hr (ih h')
  | content h hr _ ih => exact .content h hr (ih h')

/-- **A stream of complete chunks goes one way only**: what is left on the way is a stream of
complete chunks too. -/
theorem Accepts.chunks_rest {s s' : Bytes} {cs ds : List Bytes} (h : Accepts k reading s cs s')
    (hs : Chunks k reading s ds) : ∃ es, ds = cs ++ es ∧ Chunks k reading s' es := by
  induction h generalizing ds with
  | done => exact ⟨ds, rfl, hs⟩
  | skip h hr _ ih =>
    cases hs with
    | done => cases h
    | skip h' hr' ht =>
      rw [h, Option.some.injEq, Prod.mk.injEq, Prod.mk.injEq] at h'
      obtain ⟨rfl, rfl, rfl⟩ := h'
      exact ih ht
    | content h' hr' ht =>
      rw [h, Option.some.injEq, Prod.mk.injEq, Prod.mk.injEq] at h'
      obtain ⟨rfl, rfl, rfl⟩ := h'
      rw [hr] at hr'
      cases hr'
  | content h hr _ ih =>
    cases hs with
    | done => cases h
    | skip h' hr' ht =>
      rw [h, Option.some.injEq, Prod.mk.injEq, Prod.mk.injEq] at h'
      obtain ⟨rfl, rfl, rfl⟩ := h'
      rw [hr] at hr'
      cases hr'
    | content h' hr' ht =>
      rw [h, Option.some.injEq, Prod.mk.injEq, Prod.mk.injEq] at h'
      obtain ⟨rfl, rfl, rfl⟩ := h'
      rw [hr, Reading.content.injEq] at hr'
      obtain rfl := hr'
      obtain ⟨es, rfl, he⟩ := ih ht
      exact ⟨es, rfl, he⟩

/-! ## Chunks as they are written -/

theorem splitChunk_append {d : Bytes} (h : d.length < 256 ^ k) (id : Byte) (rest : Bytes) :
    splitChunk k (id :: (leBytes k d.length ++ d ++ rest)) = some (id, d, rest) := by
  have hlen : (leBytes k d.length).length = k := length_leBytes _ _
  have htake : (leBytes k d.length ++ (d ++ rest)).take k = leBytes k d.length :=
    List.take_left' hlen
  have hdrop : (leBytes k d.length ++ (d ++ rest)).drop k = d ++ rest :=
    List.drop_left' hlen
  rw [splitChunk, List.append_assoc, htake, hdrop, leVal_leBytes h, if_pos]
  · rw [List.take_left, List.drop_left]
  · simp only [List.length_append, hlen]
    omega

theorem unroll_content {fault : Bool} {s : Bytes} {id : Byte} {data c rest : Bytes}
    (h : splitChunk k s = some (id, data, rest)) (hr : reading id data = .content c)
    (hc : c ≠ []) :
    unroll (chunkPass k reading fault) () s =
      (unroll (chunkPass k reading fault) () rest).after [.fwriteOk c] := by
  refine unroll_again ?_ (length_splitChunk h)
  have hne : s ≠ [] := by
    rintro rfl
    cases h
  simp only [chunkPass, if_neg hne, h, hr, if_neg hc]

theorem unroll_skip {fault : Bool} {s : Bytes} {id : Byte} {data rest : Bytes}
    (h : splitChunk k s = some (id, data, rest)) (hr : reading id data = .skip) :
    unroll (chunkPass k reading fault) () s = unroll (chunkPass k reading fault) () rest := by
  have hne : s ≠ [] := by
    rintro rfl
    cases h
  have hpass : chunkPass k reading fault () s = .again [] () rest := by
    simp only [chunkPass, if_neg hne, h, hr]
  rw [unroll_again hpass (length_splitChunk h), Script.after_nil]

theorem unroll_end : unroll (chunkPass k reading false) () [] = ⟨[], .checked 0⟩ := by
  refine unroll_finish ?_
  simp [chunkPass]

/-- A chunk with this content. -/
def IsChunk (k : ℕ) (reading : Byte → Bytes → Reading) (bs content : Bytes) : Prop :=
  ∃ id data, bs = id :: (leBytes k data.length ++ data) ∧ data.length < 256 ^ k ∧
    reading id data = .content content

theorem unroll_isChunk {fault : Bool} {bs d : Bytes} (hne : d ≠ []) (h : IsChunk k reading bs d)
    (rest : Bytes) : unroll (chunkPass k reading fault) () (bs ++ rest) =
      (unroll (chunkPass k reading fault) () rest).after [.fwriteOk d] := by
  obtain ⟨id, data, rfl, hlen, hread⟩ := h
  exact unroll_content (splitChunk_append hlen id rest) hread hne

theorem unroll_chunks {fault : Bool} {enc : Bytes → Bytes} {ds : List Bytes}
    (h : ∀ d ∈ ds, d ≠ [] ∧ IsChunk k reading (enc d) d) (rest : Bytes) :
    unroll (chunkPass k reading fault) () (ds.flatMap enc ++ rest) =
      (unroll (chunkPass k reading fault) () rest).after (ds.map .fwriteOk) := by
  rw [List.map_eq_flatMap]
  exact unroll_flatMap (fun d hd => unroll_isChunk (h d hd).1 (h d hd).2) rest

/-- The script on a stream is fixed by what the passes do, and every write in it has a content. -/
theorem uniform_unroll (fault : Bool) (s : Bytes) :
    ∀ w ∈ (unroll (chunkPass k reading fault) () s).writes, w.Buffered := by
  induction hn : s.length using Nat.strong_induction_on generalizing s with
  | _ n ih =>
    cases hp : chunkPass k reading fault () s with
    | again ws r rest =>
      have hws : (∀ w ∈ ws, w.Buffered) ∧ rest.length < s.length := by
        unfold chunkPass at hp
        split at hp
        · cases hp
        split at hp
        · cases hp
        next h =>
        have hlt := length_splitChunk h
        split at hp
        · cases hp
        · cases hp; exact ⟨by simp, hlt⟩
        split at hp
        · cases hp
        · next hc => cases hp; exact ⟨by simpa [Write.Buffered] using hc, hlt⟩
      rw [unroll_again hp hws.2]
      intro w hw
      rcases List.mem_append.mp hw with hw | hw
      · exact hws.1 w hw
      · exact ih _ (hn ▸ hws.2) rest rfl w hw
    | finish sc =>
      have hsc : sc.writes = [] := by
        unfold chunkPass at hp
        split at hp
        · cases hp; rfl
        split at hp
        · cases hp; rfl
        split at hp
        · cases hp; rfl
        · cases hp
        split at hp <;> cases hp
        rfl
      rw [unroll_finish hp, hsc]
      simp

/-! ## The loop on a stream -/

/-- How the loop ends on `s`: after the contents `cs`, with `left` not read. -/
inductive Stops (k : ℕ) (reading : Byte → Bytes → Reading) (s : Bytes) (cs : List Bytes) :
    Bytes → Prop
  | eof (h : Accepts k reading s cs []) : Stops k reading s cs []
  | empty {s' id data left} (h : Accepts k reading s cs s') (hcs : ∀ c ∈ cs, c ≠ [])
      (hs : splitChunk k s' = some (id, data, left)) (hr : reading id data = .content []) :
      Stops k reading s cs left

theorem Stops.skip {s s' : Bytes} {id : Byte} {data left : Bytes} {cs : List Bytes}
    (h : splitChunk k s = some (id, data, s')) (hr : reading id data = .skip)
    (ht : Stops k reading s' cs left) : Stops k reading s cs left := by
  cases ht with
  | eof ht => exact .eof (.skip h hr ht)
  | empty ht hcs hs hr' => exact .empty (.skip h hr ht) hcs hs hr'

theorem Stops.content {s s' : Bytes} {id : Byte} {data c left : Bytes} {cs : List Bytes}
    (h : splitChunk k s = some (id, data, s')) (hr : reading id data = .content c) (hc : c ≠ [])
    (ht : Stops k reading s' cs left) : Stops k reading s (c :: cs) left := by
  cases ht with
  | eof ht => exact .eof (.content h hr ht)
  | empty ht hcs hs hr' =>
    exact .empty (.content h hr ht) (List.forall_mem_cons.mpr ⟨hc, hcs⟩) hs hr'

section Run

variable {chunk : Byte → Io (Unit ⊕ Bool)}

theorem chunkLoop_inr {w w' : World} {b : Bool} (h : passOf chunk () w = .ret (.inr b) w') :
    chunkLoop chunk w = afterChunks b w' := by
  rw [chunkLoop, bind_apply, loop_inr h, Outcome.bind_ret]

theorem chunkLoop_inl (hc : ReadsChunks k reading chunk) {w w' : World} (hw : w.inp.Ok)
    (h : passOf chunk () w = .ret (.inl ()) w') : chunkLoop chunk w = chunkLoop chunk w' := by
  have hlow := lowers_of_follows (R := fun (_ _ : Unit) => True) (k := afterChunks)
    (p := chunkPass k reading) (b := passOf chunk)
    (fun _ _ w _ hw => follows_chunkPass hc hw)
  rw [chunkLoop, bind_apply, bind_apply, loop_inl hlow ⟨hw, (), trivial⟩ h]

/-- What the loop runs on: an input that ends without a fault and a device without a limit. -/
structure Clean (w : World) : Prop where
  ok : w.inp.Ok
  fault : w.inp.fault = false
  room : w.out.room = none
  err : w.out.err = false

theorem Clean.drop {w : World} (h : Clean w) (hne : w.inp.rest ≠ []) (rest : Bytes) :
    Clean { w with inp := { w.inp with rest := rest } } :=
  ⟨h.ok.drop hne rest, h.fault, h.room, h.err⟩

theorem afterChunks_clean {w : World} (hi : w.inp.err = false) (ho : w.out.err = false) :
    afterChunks true w = .ret 0 w := by
  rw [afterChunks_true, hi, ho]
  rfl

theorem chunkLoop_nil {w : World} (h : Clean w) (hr : w.inp.rest = []) :
    chunkLoop chunk w = .ret 0 { w with inp := w.inp.hitEnd } := by
  rw [chunkLoop_inr (b := true) (by rw [passOf, bind_apply, getc_nil hr]; rfl)]
  exact afterChunks_clean (h.ok.err_hitEnd.trans h.fault) h.err

theorem passOf_acts (hc : ReadsChunks k reading chunk) {w : World} {id : Byte} {data rest : Bytes}
    (h : splitChunk k w.inp.rest = some (id, data, rest)) :
    Acts w rest (passOf chunk () w) (reading id data) := by
  cases hr : w.inp.rest with
  | nil =>
    rw [hr] at h
    cases h
  | cons b s =>
    rw [hr] at h
    have hb := (splitChunk_cons h).2.2
    simp only [Prod.mk.injEq] at hb
    obtain rfl := hb.1
    have hact := hc.whole id { w with inp := { w.inp with rest := s } } data rest h
    rw [passOf, bind_apply, getc_cons hr, Outcome.bind_ret]
    cases hd : reading id data with
    | bad => rw [hd] at hact; exact hact
    | skip => rw [hd] at hact; exact hact
    | content c => rw [hd] at hact; exact hact

theorem chunkLoop_skip (hc : ReadsChunks k reading chunk) {w : World} (hw : Clean w) {id : Byte}
    {data rest : Bytes} (h : splitChunk k w.inp.rest = some (id, data, rest))
    (hr : reading id data = .skip) :
    chunkLoop chunk w = chunkLoop chunk { w with inp := { w.inp with rest := rest } } := by
  have hact := passOf_acts hc h
  rw [hr] at hact
  exact chunkLoop_inl hc hw.ok hact

theorem writeContent_clean {w : World} (hw : Clean w) {c : Bytes} (hc : c ≠ []) :
    ∃ o, writeContent c w = .ret (.inl ()) { w with out := o } ∧ Clean { w with out := o } ∧
      o.written = w.out.written ++ c := by
  obtain ⟨h₁, h₂, h₃, h₄⟩ := OutFile.fwrite_of_room c hw.room
  refine ⟨(w.out.fwrite c).2, ?_, ⟨hw.ok, hw.fault, h₂, h₃.trans hw.err⟩, h₄⟩
  simp [writeContent, h₁, hc]

theorem chunkLoop_content (hc : ReadsChunks k reading chunk) {w : World} (hw : Clean w)
    {id : Byte} {data c rest : Bytes} (h : splitChunk k w.inp.rest = some (id, data, rest))
    (hr : reading id data = .content c) (hne : c ≠ []) :
    ∃ w', chunkLoop chunk w = chunkLoop chunk w' ∧ Clean w' ∧ w'.inp.rest = rest ∧
      w'.out.written = w.out.written ++ c := by
  have hs : w.inp.rest ≠ [] := fun h0 => by
    rw [h0] at h
    cases h
  have hact := passOf_acts hc h
  rw [hr] at hact
  obtain ⟨o, ho, hclean, hwr⟩ := writeContent_clean (hw.drop hs rest) hne
  refine ⟨⟨{ w.inp with rest := rest }, o⟩, chunkLoop_inl hc hw.ok ?_, hclean, rfl, hwr⟩
  exact (show passOf chunk () w = _ from hact).trans ho

/-- A chunk with an empty content ends the loop, as if the stream had ended. -/
theorem chunkLoop_empty (hc : ReadsChunks k reading chunk) {w : World} (hw : Clean w) {id : Byte}
    {data rest : Bytes} (h : splitChunk k w.inp.rest = some (id, data, rest))
    (hr : reading id data = .content []) :
    chunkLoop chunk w = .ret 0 { w with inp := { w.inp with rest := rest } } := by
  have hs : w.inp.rest ≠ [] := fun h0 => by
    rw [h0] at h
    cases h
  have hact := passOf_acts hc h
  rw [hr] at hact
  have hempty : writeContent [] { w with inp := { w.inp with rest := rest } } =
      .ret (.inr true) { w with inp := { w.inp with rest := rest } } := by
    simp [writeContent, OutFile.fwrite]
  rw [chunkLoop_inr ((show passOf chunk () w = _ from hact).trans hempty)]
  exact afterChunks_clean (hw.ok.flags hs).2 hw.err

theorem chunkLoop_bad (hc : ReadsChunks k reading chunk) {w : World} (hne : w.inp.rest ≠ [])
    (h : ∀ id data rest, splitChunk k w.inp.rest = some (id, data, rest) →
      reading id data = .bad) :
    ∃ i, chunkLoop chunk w = .ret 1 { w with inp := i } := by
  have hpass : ∃ i, passOf chunk () w = .ret (.inr false) { w with inp := i } := by
    cases hs : splitChunk k w.inp.rest with
    | some p =>
      obtain ⟨id, data, rest⟩ := p
      have hact := passOf_acts hc hs
      rw [h id data rest hs] at hact
      exact hact
    | none =>
      cases hr : w.inp.rest with
      | nil => exact absurd hr hne
      | cons b s =>
        rw [hr] at hs
        obtain ⟨i, hi⟩ := hc.short b { w with inp := { w.inp with rest := s } } hs
        exact ⟨i, by rw [passOf, bind_apply, getc_cons hr, Outcome.bind_ret]; exact hi⟩
  obtain ⟨i, hi⟩ := hpass
  exact ⟨i, by rw [chunkLoop_inr hi]; rfl⟩

/-- **The loop on any stream**: the status is 1, or it is 0 at a place where the loop stops, with
all contents up to there written. -/
theorem chunkLoop_run (hc : ReadsChunks k reading chunk) {w : World} (hw : Clean w) :
    ∃ n w', chunkLoop chunk w = .ret n w' ∧
      (n = 1 ∨ n = 0 ∧ ∃ cs, Stops k reading w.inp.rest cs w'.inp.rest ∧
        w'.out.written = w.out.written ++ cs.flatten) := by
  induction hn : w.inp.rest.length using Nat.strong_induction_on generalizing w with
  | _ n ih =>
    by_cases hne : w.inp.rest = []
    · refine ⟨0, _, chunkLoop_nil hw hne, Or.inr ⟨rfl, [], ?_, by simp⟩⟩
      rw [hne]
      exact .eof .done
    cases hs : splitChunk k w.inp.rest with
    | none =>
      obtain ⟨i, hi⟩ := chunkLoop_bad hc hne fun _ _ _ h => by rw [hs] at h; cases h
      exact ⟨1, _, hi, Or.inl rfl⟩
    | some p =>
      obtain ⟨id, data, rest⟩ := p
      have hlt := length_splitChunk hs
      cases hr : reading id data with
      | bad =>
        obtain ⟨i, hi⟩ := chunkLoop_bad hc hne fun _ _ _ h => by
          rw [hs, Option.some.injEq, Prod.mk.injEq, Prod.mk.injEq] at h
          obtain ⟨rfl, rfl, rfl⟩ := h
          exact hr
        exact ⟨1, _, hi, Or.inl rfl⟩
      | skip =>
        obtain ⟨n, w', he, h⟩ := ih _ (hn ▸ hlt) (hw.drop hne rest) rfl
        refine ⟨n, w', (chunkLoop_skip hc hw hs hr).trans he, h.imp_right ?_⟩
        rintro ⟨h0, cs, hst, hwr⟩
        exact ⟨h0, cs, .skip hs hr hst, hwr⟩
      | content c =>
        by_cases hcn : c = []
        · subst hcn
          refine ⟨0, _, chunkLoop_empty hc hw hs hr, Or.inr ⟨rfl, [], ?_, by simp⟩⟩
          exact .empty .done (by simp) hs hr
        · obtain ⟨v, hv, hclean, hrest, hwr⟩ := chunkLoop_content hc hw hs hr hcn
          obtain ⟨n, w', he, h⟩ := ih _ (by rw [hrest, ← hn]; exact hlt) hclean rfl
          refine ⟨n, w', hv.trans he, h.imp_right ?_⟩
          rintro ⟨h0, cs, hst, hwr'⟩
          rw [hrest] at hst
          exact ⟨h0, c :: cs, .content hs hr hcn hst,
            by rw [hwr', hwr, List.flatten_cons, List.append_assoc]⟩

/-- **A stream that leads to a chunk with an empty content is given up there**, with status 0. -/
theorem chunkLoop_stops (hc : ReadsChunks k reading chunk) {s s' : Bytes} {cs : List Bytes}
    (h : Accepts k reading s cs s') (hcs : ∀ c ∈ cs, c ≠ []) {id : Byte} {data left : Bytes}
    (hs : splitChunk k s' = some (id, data, left)) (hr : reading id data = .content [])
    {w : World} (hw : Clean w) (hrest : w.inp.rest = s) :
    ∃ w', chunkLoop chunk w = .ret 0 w' ∧ w'.inp.rest = left ∧
      w'.out.written = w.out.written ++ cs.flatten := by
  induction h generalizing w with
  | done =>
    exact ⟨_, chunkLoop_empty hc hw (hrest ▸ hs) hr, rfl, by simp⟩
  | skip h hr' _ ih =>
    have hne : w.inp.rest ≠ [] := fun h0 => by
      rw [← hrest, h0] at h
      cases h
    obtain ⟨w', he, h₁, h₂⟩ := ih hcs hs (hw.drop hne _) rfl
    exact ⟨w', (chunkLoop_skip hc hw (hrest ▸ h) hr').trans he, h₁, h₂⟩
  | content h hr' _ ih =>
    obtain ⟨v, hv, hclean, hvr, hwr⟩ := chunkLoop_content hc hw (hrest ▸ h) hr'
      (hcs _ List.mem_cons_self)
    obtain ⟨w', he, h₁, h₂⟩ := ih (fun c h => hcs c (List.mem_cons_of_mem _ h)) hs hclean hvr
    exact ⟨w', hv.trans he, h₁, by rw [h₂, hwr, List.flatten_cons, List.append_assoc]⟩

end Run

end Snzip
