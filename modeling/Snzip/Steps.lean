import Snzip.Codec
import Snzip.Lib.Records

set_option autoImplicit false

/-!
# Decoders step by step

A decoder's script comes from the passes of its loop. Here the passes are taken as steps of a
machine on the bytes that are left, and a run of the decoder is a run of that machine.

* `Steps`: passes that go round again, with their writes; `Shrinks`: each of them reads something;
* **`exists_steps`**: a script is the writes of the steps, and then what the last pass comes to;
* `Steps.of_records`, **`steps_iff_records`**, `writes_unroll`: steps over records;
* `unroll_cut`, **`unroll_truncated`**: the script on a prefix of such a stream;
* `ReadOrRefused`, **`unroll_altered`**: the script on a stream in which one block is changed;
* **`fails_run_iff`**: when a run fails.
-/

namespace Snzip

open CProg

variable {ρ : Type}

/-- A pass that goes round again has read something. -/
def Shrinks (pass : ρ → Bytes → Pass ρ) : Prop :=
  ∀ r s ws r' rest, pass r s = .again ws r' rest → rest.length < s.length

/-- Passes that go round again, one after the other, with their writes. -/
inductive Steps (pass : ρ → Bytes → Pass ρ) : ρ → Bytes → List Write → ρ → Bytes → Prop
  | refl {r s} : Steps pass r s [] r s
  | head {r s ws r' s' vs r'' s''} (h : pass r s = .again ws r' s')
      (ht : Steps pass r' s' vs r'' s'') : Steps pass r s (ws ++ vs) r'' s''

section Steps

variable {pass : ρ → Bytes → Pass ρ} {r r' r'' : ρ} {s s' s'' : Bytes} {ws vs : List Write}

theorem Steps.single (h : pass r s = .again ws r' s') : Steps pass r s ws r' s' := by
  have := Steps.head h .refl
  rwa [List.append_nil] at this

theorem Steps.trans (h : Steps pass r s ws r' s') (h' : Steps pass r' s' vs r'' s'') :
    Steps pass r s (ws ++ vs) r'' s'' := by
  induction h with
  | refl => exact h'
  | head h _ ih =>
    rw [List.append_assoc]
    exact .head h (ih h')

theorem Steps.forall_writes {P : Write → Prop}
    (hP : ∀ r s ws r' rest, pass r s = .again ws r' rest → ∀ w ∈ ws, P w)
    (h : Steps pass r s ws r' s') : ∀ w ∈ ws, P w := by
  induction h with
  | refl => simp
  | head h _ ih =>
    intro w hw
    rcases List.mem_append.mp hw with hw | hw
    · exact hP _ _ _ _ _ h w hw
    · exact ih w hw

theorem unroll_steps (hp : Shrinks pass) (h : Steps pass r s ws r' s') :
    unroll pass r s = (unroll pass r' s').after ws := by
  induction h with
  | refl => rw [Script.after_nil]
  | head h _ ih =>
    rw [unroll_again h (hp _ _ _ _ _ h), ih, Script.after_append]

/-- **Every run comes to an end.** -/
theorem exists_steps (hp : Shrinks pass) (r : ρ) (s : Bytes) :
    ∃ ws r' s' sc, Steps pass r s ws r' s' ∧ pass r' s' = .finish sc ∧
      unroll pass r s = sc.after ws := by
  induction hn : s.length using Nat.strong_induction_on generalizing r s with
  | _ n ih =>
    cases h : pass r s with
    | finish sc => exact ⟨[], r, s, sc, .refl, h, unroll_finish h⟩
    | again ws r' rest =>
      have hlt := hp _ _ _ _ _ h
      obtain ⟨vs, r'', s'', sc, hst, hf, hu⟩ := ih _ (hn ▸ hlt) r' rest rfl
      exact ⟨ws ++ vs, r'', s'', sc, .head h hst, hf,
        by rw [unroll_again h hlt, hu, Script.after_append]⟩

theorem forall_writes_unroll (hp : Shrinks pass) {P : Write → Prop}
    (hagain : ∀ r s ws r' rest, pass r s = .again ws r' rest → ∀ w ∈ ws, P w)
    (hfinish : ∀ r s sc, pass r s = .finish sc → ∀ w ∈ sc.writes, P w) (r : ρ) (s : Bytes) :
    ∀ w ∈ (unroll pass r s).writes, P w := by
  obtain ⟨ws, r', s', sc, hst, hf, hu⟩ := exists_steps hp r s
  rw [hu]
  intro w hw
  rcases List.mem_append.mp hw with hw | hw
  · exact hst.forall_writes hagain w hw
  · exact hfinish _ _ _ hf w hw

theorem unroll_iff_steps (hp : Shrinks pass) {Q : Script → Prop}
    (hQ : ∀ ws sc, Q (sc.after ws) ↔ (∀ w ∈ ws, w.Goes) ∧ Q sc) :
    Q (unroll pass r s) ↔ ∃ ws r' s' sc, Steps pass r s ws r' s' ∧ pass r' s' = .finish sc ∧
      (∀ w ∈ ws, w.Goes) ∧ Q sc := by
  constructor
  · intro h
    obtain ⟨ws, r', s', sc, hst, hf, hu⟩ := exists_steps hp r s
    rw [hu, hQ] at h
    exact ⟨ws, r', s', sc, hst, hf, h⟩
  · rintro ⟨ws, r', s', sc, hst, hf, h⟩
    rw [unroll_steps hp hst, unroll_finish hf, hQ]
    exact h

/-- **How a run succeeds.** -/
theorem succeeds_unroll_iff (hp : Shrinks pass) :
    (unroll pass r s).Succeeds ↔ ∃ ws r' s' sc, Steps pass r s ws r' s' ∧ pass r' s' = .finish sc ∧
      (∀ w ∈ ws, w.Goes) ∧ sc.Succeeds :=
  unroll_iff_steps (Q := Script.Succeeds) hp fun _ _ => Script.succeeds_after

/-- **How a run ends the process.** -/
theorem exits_unroll_iff (hp : Shrinks pass) {n : ℕ} :
    (unroll pass r s).Exits n ↔ ∃ ws r' s' sc, Steps pass r s ws r' s' ∧ pass r' s' = .finish sc ∧
      (∀ w ∈ ws, w.Goes) ∧ sc.Exits n :=
  unroll_iff_steps (Q := fun sc => sc.Exits n) hp fun _ _ => Script.exits_after

theorem verdict_unroll (hp : Shrinks pass) {P : Verdict → Prop}
    (h : ∀ r s sc, pass r s = .finish sc → P sc.verdict) (r : ρ) (s : Bytes) :
    P (unroll pass r s).verdict := by
  obtain ⟨ws, r', s', sc, -, hf, hu⟩ := exists_steps hp r s
  rw [hu]
  exact h r' s' sc hf

end Steps

/-! ## Records -/

section Records

variable {β : Type} {pass : ρ → Bytes → Pass ρ} {B : Bytes → β → Prop} {f : β → List Write} {r : ρ}

theorem Steps.of_records (h : ∀ b c rest, B b c → pass r (b ++ rest) = .again (f c) r rest)
    {s : Bytes} {cs : List β} (hs : Records B s cs) (rest : Bytes) :
    Steps pass r (s ++ rest) (cs.flatMap f) r rest := by
  induction hs with
  | nil => exact .refl
  | cons hb _ ih =>
    rw [List.append_assoc]
    exact .head (h _ _ _ hb) ih

theorem Steps.records
    (h : ∀ r s ws r' rest, pass r s = .again ws r' rest → ∃ b c, B b c ∧ s = b ++ rest ∧ ws = f c)
    {r' : ρ} {s rest : Bytes} {ws : List Write} (hst : Steps pass r s ws r' rest) :
    ∃ b cs, Records B b cs ∧ s = b ++ rest ∧ ws = cs.flatMap f := by
  induction hst with
  | refl => exact ⟨[], [], .nil, rfl, rfl⟩
  | head hp _ ih =>
    obtain ⟨b, c, hb, rfl, rfl⟩ := h _ _ _ _ _ hp
    obtain ⟨bs, cs, hbs, rfl, rfl⟩ := ih
    exact ⟨b ++ bs, c :: cs, .cons hb hbs, (List.append_assoc _ _ _).symm, rfl⟩

/-- **Steps are records**, when a pass goes round again on a record and on nothing else. -/
theorem steps_iff_records {pass : Unit → Bytes → Pass Unit}
    (h : ∀ s ws rest, pass () s = .again ws () rest ↔ ∃ b c, B b c ∧ s = b ++ rest ∧ ws = f c)
    {s : Bytes} {ws : List Write} {rest : Bytes} :
    Steps pass () s ws () rest ↔ ∃ b cs, Records B b cs ∧ s = b ++ rest ∧ ws = cs.flatMap f := by
  constructor
  · exact Steps.records fun _ s ws _ rest => (h s ws rest).mp
  · rintro ⟨b, cs, hb, rfl, rfl⟩
    exact Steps.of_records (fun b c rest hb => (h _ _ _).mpr ⟨b, c, hb, rfl, rfl⟩) hb rest

/-- **What a run writes**, when every pass that goes round again reads a record. -/
theorem writes_unroll (hp : Shrinks pass)
    (h : ∀ r s ws r' rest, pass r s = .again ws r' rest → ∃ b c, B b c ∧ s = b ++ rest ∧ ws = f c)
    (hfinish : ∀ r s sc, pass r s = .finish sc → sc.writes = []) (r : ρ) (s : Bytes) :
    ∃ b cs rest, Records B b cs ∧ s = b ++ rest ∧ (unroll pass r s).writes = cs.flatMap f := by
  obtain ⟨ws, r', rest, sc, hst, hf, hu⟩ := exists_steps hp r s
  obtain ⟨b, cs, hb, rfl, rfl⟩ := hst.records h
  refine ⟨b, cs, rest, hb, rfl, ?_⟩
  rw [hu, Script.after, hfinish _ _ _ hf, List.append_nil]

/-- **The script on a prefix of a stream of records**: the prefix ends between two records, or the
run comes to the beginning `q` of one. -/
theorem unroll_cut (pass : ρ → Bytes → Pass ρ) (e : Bytes → Bytes) (g : Bytes → List Write)
    {ds : List Bytes}
    (h : ∀ d ∈ ds, ∀ rest, unroll pass r (e d ++ rest) = (unroll pass r rest).after (g d))
    {p t : Bytes} (hp : p ++ t = ds.flatMap e) :
    (∃ a b, ds = a ++ b ∧ p = a.flatMap e ∧ t = b.flatMap e ∧
      unroll pass r p = (unroll pass r []).after (a.flatMap g)) ∨
    ∃ a d b q u, ds = a ++ d :: b ∧ e d = q ++ u ∧ q ≠ [] ∧ u ≠ [] ∧ p = a.flatMap e ++ q ∧
      unroll pass r p = (unroll pass r q).after (a.flatMap g) := by
  have hrows : ∀ a b, ds = a ++ b → ∀ rest,
      unroll pass r (a.flatMap e ++ rest) = (unroll pass r rest).after (a.flatMap g) := by
    intro a b hds rest
    exact unroll_flatMap (fun d hd => h d (by rw [hds]; exact List.mem_append_left b hd)) rest
  rw [List.flatMap_def] at hp
  rcases prefix_flatten hp with ⟨a, b, hl, rfl, rfl⟩ | ⟨a, q, u, b, hl, hq, hu, rfl⟩
  · obtain ⟨a, b', rfl, rfl, rfl⟩ := List.map_eq_append_iff.mp hl
    refine Or.inl ⟨a, b', rfl, List.flatMap_def.symm, List.flatMap_def.symm, ?_⟩
    have := hrows a b' rfl []
    rwa [List.append_nil, List.flatMap_def] at this
  · obtain ⟨a, b', rfl, rfl, hb'⟩ := List.map_eq_append_iff.mp hl
    obtain ⟨d, b'', rfl, hd, -⟩ := List.map_eq_cons_iff.mp hb'
    rw [← List.flatMap_def]
    exact Or.inr ⟨a, d, b'', q, u, rfl, hd, hq, hu, rfl, hrows a _ rfl q⟩

/-- **The script on a prefix of such a stream, when a beginning of a record is refused**, and when
some of the records are refused as well. -/
theorem unroll_truncated (pass : ρ → Bytes → Pass ρ) (e : Bytes → Bytes) (g : Bytes → List Write)
    {ds : List Bytes}
    (h : ∀ d ∈ ds, (∀ rest, unroll pass r (e d ++ rest) = (unroll pass r rest).after (g d)) ∨
      ∀ rest, unroll pass r (e d ++ rest) = ⟨[], .status 1⟩)
    (hcut : ∀ d ∈ ds, ∀ q u, e d = q ++ u → q ≠ [] → u ≠ [] → unroll pass r q = ⟨[], .status 1⟩)
    {p t : Bytes} (hp : p ++ t = ds.flatMap e) :
    ∃ a b, ds = a ++ b ∧ (unroll pass r p = ⟨a.flatMap g, .status 1⟩ ∨
      p = a.flatMap e ∧ unroll pass r p = (unroll pass r []).after (a.flatMap g)) := by
  induction ds generalizing p with
  | nil =>
    obtain ⟨rfl, -⟩ := List.append_eq_nil_iff.mp hp
    exact ⟨[], [], rfl, Or.inr ⟨rfl, rfl⟩⟩
  | cons d ds ih =>
    rw [List.flatMap_cons] at hp
    rcases prefix_append hp with ⟨u, hu, hd⟩ | ⟨q, rfl, hq⟩
    · by_cases hpn : p = []
      · exact ⟨[], d :: ds, rfl, Or.inr ⟨hpn, by rw [hpn]; rfl⟩⟩
      · exact ⟨[], d :: ds, rfl, Or.inl (hcut d List.mem_cons_self p u hd hpn hu)⟩
    rcases h d List.mem_cons_self with hgood | hbad
    · obtain ⟨a, b, rfl, hab⟩ := ih (fun d hd => h d (List.mem_cons_of_mem _ hd))
        (fun d hd => hcut d (List.mem_cons_of_mem _ hd)) hq
      refine ⟨d :: a, b, rfl, ?_⟩
      rw [hgood]
      rcases hab with hr | ⟨rfl, hr⟩
      · exact Or.inl (by rw [hr]; rfl)
      · exact Or.inr ⟨rfl, by rw [hr, Script.after_append]; rfl⟩
    · exact ⟨[], d :: ds, rfl, Or.inl (hbad q)⟩

theorem unroll_map_truncated (pass : ρ → Bytes → Pass ρ) (e : Bytes → Bytes) (w : Bytes → Write)
    {v : Verdict} (hend : unroll pass r [] = ⟨[], v⟩) {ds : List Bytes}
    (h : ∀ d ∈ ds, (∀ rest, unroll pass r (e d ++ rest) = (unroll pass r rest).after [w d]) ∨
      ∀ rest, unroll pass r (e d ++ rest) = ⟨[], .status 1⟩)
    (hcut : ∀ d ∈ ds, ∀ q u, e d = q ++ u → q ≠ [] → u ≠ [] → unroll pass r q = ⟨[], .status 1⟩)
    {p t : Bytes} (hp : p ++ t = ds.flatMap e) :
    ∃ a b, ds = a ++ b ∧ (unroll pass r p = ⟨a.map w, .status 1⟩ ∨
      p = a.flatMap e ∧ unroll pass r p = ⟨a.map w, v⟩) := by
  obtain ⟨a, b, hab, hrun⟩ := unroll_truncated pass e (fun d => [w d]) h hcut hp
  rw [hend, Script.after_verdict, ← List.map_eq_flatMap] at hrun
  exact ⟨a, b, hab, hrun⟩

end Records

/-! ## Blocks that are read or refused -/

section Blocks

variable {pass : ρ → Bytes → Pass ρ}

/-- In every state, the bytes `b` are read with the writes `ws` or refused, whatever follows them.
-/
def ReadOrRefused (pass : ρ → Bytes → Pass ρ) (b : Bytes) (ws : List Write) : Prop :=
  ∀ r, (∃ r', ∀ rest, pass r (b ++ rest) = .again ws r' rest) ∨
    ∀ rest, pass r (b ++ rest) = .finish ⟨[], .status 1⟩

theorem steps_or_refused (hp : Shrinks pass) {γ : Type} {e : γ → Bytes} {g : γ → List Write}
    {a : List γ} (ha : ∀ c ∈ a, ReadOrRefused pass (e c) (g c)) (r : ρ) :
    (∃ r', ∀ rest, Steps pass r (a.flatMap e ++ rest) (a.flatMap g) r' rest) ∨
      ∀ rest, (unroll pass r (a.flatMap e ++ rest)).verdict = .status 1 := by
  induction a generalizing r with
  | nil => exact Or.inl ⟨r, fun _ => .refl⟩
  | cons c a ih =>
    have hassoc : ∀ rest, (c :: a).flatMap e ++ rest = e c ++ (a.flatMap e ++ rest) := by
      intro rest
      rw [List.flatMap_cons, List.append_assoc]
    simp only [hassoc]
    rcases ha c List.mem_cons_self r with ⟨r₁, hread⟩ | hrefused
    · rcases ih (fun c hc => ha c (List.mem_cons_of_mem _ hc)) r₁ with ⟨r₂, hst⟩ | hbad
      · exact Or.inl ⟨r₂, fun rest => .head (hread _) (hst rest)⟩
      · refine Or.inr fun rest => ?_
        rw [unroll_steps hp (Steps.single (hread _))]
        exact hbad rest
    · refine Or.inr fun rest => ?_
      rw [unroll_finish (hrefused _)]

/-- **A block that is changed into one that is refused** ends a run that went on there before. -/
theorem unroll_altered (hp : Shrinks pass) {γ : Type} {e : γ → Bytes} {g : γ → List Write}
    {a : List γ} (ha : ∀ c ∈ a, ReadOrRefused pass (e c) (g c)) {b b' z : Bytes}
    (hb : (∃ r, pass r (b ++ z) ≠ .finish ⟨[], .status 1⟩) →
      ∀ r, pass r (b' ++ z) = .finish ⟨[], .status 1⟩) {r : ρ}
    (h : (unroll pass r (a.flatMap e ++ (b ++ z))).verdict ≠ .status 1) :
    unroll pass r (a.flatMap e ++ (b' ++ z)) = ⟨a.flatMap g, .status 1⟩ := by
  rcases steps_or_refused hp ha r with ⟨r', hst⟩ | hbad
  · have hgoes : pass r' (b ++ z) ≠ .finish ⟨[], .status 1⟩ := by
      intro hf
      rw [unroll_steps hp (hst _), unroll_finish hf] at h
      exact h rfl
    rw [unroll_steps hp (hst _), unroll_finish (hb ⟨r', hgoes⟩ r')]
    simp [Script.after]
  · exact absurd (hbad _) h

end Blocks

/-! ## The status of a run -/

/-- **A run of a codec that comes to an end fails unless its script succeeds.** -/
theorem fails_run_iff {m : Io ℕ} {sc : Bool → Bytes → Script} (hm : Refines m sc) {i : InFile}
    (hi : i.Ok) (h : (sc i.fault i.rest).verdict ≠ .diverge) (B : Buffering) :
    (∃ n, (Codec.run B m i).status = some n ∧ n ≠ 0) ↔ ¬ (sc i.fault i.rest).Succeeds := by
  rw [Codec.run, hm ⟨i, OutFile.opened B none⟩ hi]
  exact fails_iff_not_succeeds h B

end Snzip
