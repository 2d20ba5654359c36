import Mathlib.Data.List.ReduceOption
import Snzip.Grammar

set_option autoImplicit false

/-!
# The files of comment-43

A file is one stream after another, and a stream is a header block, blocks, and an end-of-stream
block. The decoder is a state machine that sees one block at a time; what it accepts is just that.

* `Comment43Stream`: a stream, with the contents of its data blocks;
* `Comment43Ahead`: what is still to come in each state of the machine;
* `steps_comment43_iff`: **the passes up to the end read what is to come**;
* **`comment43_accepts_iff`**: the decoder accepts the grammar, and writes the contents.
-/

namespace Snzip

open CProg

variable {S : Snappy}

/-- A stream, with the contents of its data blocks. -/
def Comment43Stream (S : Snappy) (bs : Bytes) (cs : List Bytes) : Prop :=
  ∃ body bcs, Records (Comment43Block S) body bcs ∧
    bs = comment43Header ++ (body ++ comment43End) ∧ cs = bcs.reduceOption

/-- What is to come in each state, with its contents. -/
def Comment43Ahead (S : Snappy) : StreamState → Bytes → List Bytes → Prop
  | .error, _, _ => False
  | .initial, s, cs => ∃ css, css ≠ [] ∧ Records (Comment43Stream S) s css ∧ cs = css.flatten
  | .processing, s, cs => ∃ body bcs e css, Records (Comment43Block S) body bcs ∧
      Records (Comment43Stream S) e css ∧ s = body ++ (comment43End ++ e) ∧
      cs = bcs.reduceOption ++ css.flatten
  | .endOfStream, s, cs => ∃ css, Records (Comment43Stream S) s css ∧ cs = css.flatten

theorem flatMap_contentWrites (bcs : List (Option Bytes)) :
    bcs.flatMap contentWrites = bcs.reduceOption.map .fwriteOk := by
  induction bcs with
  | nil => rfl
  | cons c bcs ih =>
    rw [List.flatMap_cons, ih]
    cases c with
    | none => rw [List.reduceOption_cons_of_none]; rfl
    | some u => rw [List.reduceOption_cons_of_some]; rfl

theorem steps_comment43Blocks {body : Bytes} {bcs : List (Option Bytes)}
    (h : Records (Comment43Block S) body bcs) (rest : Bytes) :
    Steps (comment43PassOf S) .processing (body ++ rest) (bcs.reduceOption.map .fwriteOk)
      .processing rest := by
  rw [← flatMap_contentWrites]
  refine Steps.of_records (fun b c rest hb => ?_) h rest
  exact (comment43PassOf_processing_iff _ _ _).mpr (Or.inl ⟨rfl, b, c, hb, rfl, rfl⟩)

theorem steps_comment43End (rest : Bytes) :
    Steps (comment43PassOf S) .processing (comment43End ++ rest) [] .endOfStream rest :=
  .single (comment43PassOf_end rest)

/-- **A stream**, in front of anything. -/
theorem steps_comment43Stream {state : StreamState}
    (hst : state = .initial ∨ state = .endOfStream) {bs : Bytes} {cs : List Bytes}
    (h : Comment43Stream S bs cs) (rest : Bytes) :
    Steps (comment43PassOf S) state (bs ++ rest) (cs.map .fwriteOk) .endOfStream rest := by
  obtain ⟨body, bcs, hbody, rfl, rfl⟩ := h
  have hhead : Steps (comment43PassOf S) state (comment43Header ++ (body ++ (comment43End ++ rest)))
      [] .processing (body ++ (comment43End ++ rest)) :=
    .single ((comment43PassOf_outside_iff hst _ _ _).mpr ⟨rfl, rfl, rfl⟩)
  have := (hhead.trans (steps_comment43Blocks hbody _)).trans (steps_comment43End rest)
  rwa [List.nil_append, List.append_nil, ← List.append_assoc body, ← List.append_assoc] at this

theorem steps_comment43Streams {s : Bytes} {css : List (List Bytes)}
    (h : Records (Comment43Stream S) s css) :
    Steps (comment43PassOf S) .endOfStream s (css.flatten.map .fwriteOk) .endOfStream [] := by
  induction h with
  | nil => exact .refl
  | cons hb _ ih =>
    rw [List.flatten_cons, List.map_append]
    exact (steps_comment43Stream (Or.inr rfl) hb _).trans ih

/-- **The passes up to the end of a file.** -/
theorem steps_comment43_iff {state : StreamState} {s : Bytes} {ws : List Write} :
    Steps (comment43PassOf S) state s ws .endOfStream [] ↔
      ∃ cs, Comment43Ahead S state s cs ∧ ws = cs.map .fwriteOk := by
  constructor
  · have hall : ∀ r t, Steps (comment43PassOf S) state s ws r t → r = .endOfStream → t = [] →
        ∃ cs, Comment43Ahead S state s cs ∧ ws = cs.map .fwriteOk := by
      intro r t hst
      induction hst with
      | refl =>
        rintro rfl rfl
        exact ⟨[], ⟨[], .nil, rfl⟩, rfl⟩
      | @head state s ws state' s' vs r t hp hst ih =>
        intro hr ht
        obtain ⟨cs, hahead, rfl⟩ := ih hr ht
        have houtside : ∀ {q}, q = state → (q = .initial ∨ q = .endOfStream) →
            ∃ c css, Records (Comment43Stream S) s (c :: css) ∧
              ws ++ cs.map .fwriteOk = (c :: css).flatten.map .fwriteOk := by
          rintro q rfl hq
          obtain ⟨rfl, rfl, rfl⟩ := (comment43PassOf_outside_iff hq _ _ _).mp hp
          obtain ⟨body, bcs, e, css, hbody, he, rfl, rfl⟩ := hahead
          refine ⟨bcs.reduceOption, css, ?_, rfl⟩
          have := Records.cons (B := Comment43Stream S) ⟨body, bcs, hbody, rfl, rfl⟩ he
          rwa [List.append_assoc, List.append_assoc] at this
        cases state with
        | error =>
          obtain ⟨type, data, -, -, ⟨hact, -⟩ | ⟨u, hact, -⟩⟩ := comment43PassOf_again hp <;>
            cases hact
        | initial =>
          obtain ⟨c, css, hcss, hws⟩ := houtside rfl (Or.inl rfl)
          exact ⟨_, ⟨c :: css, List.cons_ne_nil _ _, hcss, rfl⟩, hws⟩
        | endOfStream =>
          obtain ⟨c, css, hcss, hws⟩ := houtside rfl (Or.inr rfl)
          exact ⟨_, ⟨c :: css, hcss, rfl⟩, hws⟩
        | processing =>
          rcases (comment43PassOf_processing_iff _ _ _).mp hp with
            ⟨rfl, b, c, hb, rfl, rfl⟩ | ⟨rfl, rfl, rfl⟩
          · -- one more block in front
            obtain ⟨body, bcs, e, css, hbody, he, rfl, rfl⟩ := hahead
            refine ⟨_, ⟨b ++ body, c :: bcs, e, css, .cons hb hbody, he, ?_, rfl⟩, ?_⟩
            · rw [List.append_assoc]
            · rw [List.map_append, List.map_append, ← flatMap_contentWrites,
                ← flatMap_contentWrites, List.flatMap_cons, List.append_assoc]
          · -- the end of a stream
            obtain ⟨css, hcss, rfl⟩ := hahead
            exact ⟨_, ⟨[], [], _, css, .nil, hcss, rfl, rfl⟩, rfl⟩
    exact fun h => hall _ _ h rfl rfl
  · rintro ⟨cs, hahead, rfl⟩
    cases state with
    | error => exact hahead.elim
    | initial =>
      obtain ⟨css, hne, hcss, rfl⟩ := hahead
      cases hcss with
      | nil => exact absurd rfl hne
      | cons hb hs =>
        rw [List.flatten_cons, List.map_append]
        exact (steps_comment43Stream (Or.inl rfl) hb _).trans (steps_comment43Streams hs)
    | endOfStream =>
      obtain ⟨css, hcss, rfl⟩ := hahead
      exact steps_comment43Streams hcss
    | processing =>
      obtain ⟨body, bcs, e, css, hbody, he, rfl, rfl⟩ := hahead
      rw [List.map_append]
      have := (steps_comment43Blocks hbody _).trans ((steps_comment43End e).trans
        (steps_comment43Streams he))
      exact this

/-! ## The decoder -/

theorem comment43PassOf_writes (state : StreamState) (s : Bytes) (ws : List Write)
    (state' : StreamState) (rest : Bytes)
    (h : comment43PassOf S state s = .again ws state' rest) : ∀ w ∈ ws, w.Buffered := by
  obtain ⟨type, data, -, -, ⟨-, rfl⟩ | ⟨u, -, hu, -, rfl⟩⟩ := comment43PassOf_again h
  · simp
  · simpa [Write.Buffered] using hu

theorem buffered_comment43 (state : StreamState) (s : Bytes) :
    ∀ w ∈ (unroll (comment43PassOf S) state s).writes, w.Buffered := by
  refine forall_writes_unroll shrinks_comment43PassOf comment43PassOf_writes ?_ state s
  intro r s sc h
  rcases comment43PassOf_finish h with rfl | ⟨rfl, -⟩ <;> simp

theorem run_comment43Unscript (skipMagic : Bool) {i : InFile} (hi : i.Ok) (B : Buffering) :
    Codec.run B (comment43Uncompress S skipMagic) i =
      (comment43Unscript S skipMagic i.fault i.rest).result :=
  run_of_refines (refines_comment43Uncompress S skipMagic) hi
    (Or.inl (buffered_comment43 _ _)) B

/-- **The decoder accepts its grammar**, a list of one stream or more, and writes the contents of
all data blocks. -/
theorem comment43_accepts_iff (S : Snappy) (B : Buffering) (s out : Bytes) :
    Codec.run B (comment43Uncompress S false) (.opened s) = ⟨some 0, out⟩ ↔
      ∃ css, css ≠ [] ∧ Records (Comment43Stream S) s css ∧ out = css.flatten.flatten := by
  have hrun : Codec.run B (comment43Uncompress S false) (.opened s) =
      (unroll (comment43PassOf S) .initial s).result :=
    run_comment43Unscript false (InFile.ok_opened s) B
  have hbytes : ∀ cs : List Bytes, bytesOf (cs.map .fwriteOk) = cs.flatten :=
    bytesOf_map fun _ => rfl
  rw [hrun]
  constructor
  · intro h
    obtain ⟨ws, r, t, sc, hst, hf, hu⟩ :=
      exists_steps (shrinks_comment43PassOf (S := S)) .initial s
    rw [hu] at h
    rcases comment43PassOf_finish hf with rfl | ⟨rfl, rfl, rfl⟩
    · rw [Script.after_verdict] at h
      cases h
    · obtain ⟨cs, ⟨css, hne, hcss, rfl⟩, rfl⟩ := steps_comment43_iff.mp hst
      rw [Script.after_verdict] at h
      have hout : bytesOf (css.flatten.map .fwriteOk) = out := congrArg Result.written h
      exact ⟨css, hne, hcss, by rw [← hout, hbytes]⟩
  · rintro ⟨css, hne, hcss, rfl⟩
    have hahead : Comment43Ahead S .initial s css.flatten := ⟨css, hne, hcss, rfl⟩
    have hst := steps_comment43_iff.mpr ⟨_, hahead, rfl⟩
    rw [unroll_steps shrinks_comment43PassOf hst, unroll_finish (c := ⟨[], .status 0⟩) rfl,
      Script.after_verdict]
    exact congrArg (Result.mk (some 0)) (hbytes css.flatten)

end Snzip
