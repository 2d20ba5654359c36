import Snzip.Snappy

set_option autoImplicit false

/-!
# Calls of snappy on a source and a sink

`snappy::Compress` is a parameter: the next request it makes, after the answers it got.

* `Talks`: the calls that may happen, with what has been shown, skipped and appended;
* `EncodesAvailable`, `SucceedsOn`: what is assumed of `snappy::Compress`;
* `Gathered`, **`encodesAvailable_gatherStream`**, **`succeedsOn_gatherStream`**: a client that
  gathers the bytes first;
* `shortSnappy`: it stores fewer than 65536 bytes as one literal.
-/

namespace Snzip

open CProg

/-! ## What is assumed of snappy -/

/-- A call of snappy so far, with the answers it got: the region it was shown last without what it
has skipped of it, all that it has skipped, and all that it has appended. The answers of the source
are `good` for what has been skipped. -/
inductive Talks (client : Client) (good : Bytes → Reply → Prop) :
    List Reply → Bytes → Bytes → Bytes → Prop
  | start : Talks client good [] [] [] []
  | available {h region skipped appended} {n : BitVec 64}
      (ht : Talks client good h region skipped appended) (hc : client h = .available)
      (hg : good skipped (.size n)) : Talks client good (h ++ [.size n]) region skipped appended
  | peek {h region skipped appended} {bs : Bytes}
      (ht : Talks client good h region skipped appended) (hc : client h = .peek)
      (hg : good skipped (.region bs)) : Talks client good (h ++ [.region bs]) bs skipped appended
  | skip {h region skipped appended n} (ht : Talks client good h region skipped appended)
      (hc : client h = .skip n) :
      Talks client good (h ++ [.unit]) (region.drop n) (skipped ++ region.take n) appended
  | append {h region skipped appended bs} (ht : Talks client good h region skipped appended)
      (hc : client h = .append bs) :
      Talks client good (h ++ [.unit]) region skipped (appended ++ bs)

/-- The source may answer what it likes. -/
def anyReply : Bytes → Reply → Prop := fun _ _ => True

/-- The answers of a source of `n` bytes: it has available what has not been skipped, and shows some
of that as long as there is some. -/
def goodReply (n : ℕ) (skipped : Bytes) : Reply → Prop
  | .size m => skipped.length + m.toNat = n
  | .region bs => skipped.length + bs.length ≤ n ∧ (skipped.length < n → bs ≠ [])
  | .unit => True

/-- **What is assumed of `snappy::Compress`**: it skips no more than it was shown and appends in
pieces whose length fits an `int`; and it comes to an end with success only when it has skipped as
many bytes as `Available` told it in the first place, and has appended an encoding of these, which
determines them. -/
structure EncodesAvailable (client : Client) (Enc : Bytes → Bytes → Prop) : Prop where
  skip_le : ∀ {h region skipped appended n}, Talks client anyReply h region skipped appended →
    client h = .skip n → n ≤ region.length
  append_lt : ∀ {h region skipped appended bs}, Talks client anyReply h region skipped appended →
    client h = .append bs → bs.length < 2 ^ 31
  encodes : ∀ {h region skipped appended}, Talks client anyReply h region skipped appended →
    client h = .done true →
    ∃ n h', h = .size n :: h' ∧ skipped.length = n.toNat ∧ Enc skipped appended
  determines : ∀ {x y e}, Enc x e → Enc y e → x = y

/-- A source of `n` bytes is encoded with success within `fuel` requests. -/
def SucceedsOn (client : Client) (fuel n : ℕ) : Prop :=
  ∀ h region skipped appended, Talks client (goodReply n) h region skipped appended →
    h.length < fuel ∧ client h ≠ .done false

theorem Talks.any {client : Client} {good : Bytes → Reply → Prop} {h : List Reply}
    {region skipped appended : Bytes} (ht : Talks client good h region skipped appended) :
    Talks client anyReply h region skipped appended := by
  induction ht with
  | start => exact .start
  | available _ hc _ ih => exact ih.available hc trivial
  | peek _ hc _ ih => exact ih.peek hc trivial
  | skip _ hc ih => exact ih.skip hc
  | append _ hc ih => exact ih.append hc

/-! ## A client that gathers -/

section Gather

variable {f : Bytes → Option Bytes}

theorem shown_append (h l : List Reply) : shown (h ++ l) = shown h ++ shown l := List.flatMap_append

theorem getLast_unit (h : List Reply) (bs : Bytes) :
    (h ++ [Reply.unit]).getLast? ≠ some (.region bs) := by
  rw [List.getLast?_concat]
  exact fun he => by cases he

/-- Where a gathering client is: before its first request, between two of them, between a `Peek`
and its `Skip`, or at its end. -/
inductive Gathered (f : Bytes → Option Bytes) : List Reply → Bytes → Bytes → Bytes → Prop
  | start : Gathered f [] [] [] []
  | ready {n h region} (heven : h.length % 2 = 0)
      (hlast : ∀ bs, h.getLast? ≠ some (.region bs)) :
      Gathered f (.size n :: h) region ((shown h).take n.toNat) []
  | peeked {n h bs} (heven : h.length % 2 = 0) (hlt : (shown h).length < n.toNat) :
      Gathered f (.size n :: (h ++ [.region bs])) bs ((shown h).take n.toNat) []
  | sent {n h region appended} (hodd : h.length % 2 = 1)
      (hlast : ∀ bs, h.getLast? ≠ some (.region bs)) (hle : n.toNat ≤ (shown h).length)
      (hf : f ((shown h).take n.toNat) = some appended) :
      Gathered f (.size n :: h) region ((shown h).take n.toNat) appended

theorem gatherStream_last {n : BitVec 64} {h : List Reply}
    (hlast : ∀ bs, h.getLast? ≠ some (.region bs)) :
    gatherStream f (.size n :: h) =
      if (shown h).length < n.toNat then .peek
      else match f ((shown h).take n.toNat) with
        | some c => if h.length % 2 = 0 then .append c else .done true
        | none => .done false := by
  rw [gatherStream]
  cases hl : h.getLast? with
  | none => rfl
  | some r =>
    cases r with
    | region bs => exact absurd hl (hlast bs)
    | size m => rfl
    | unit => rfl

theorem gatherStream_region (n : BitVec 64) (h : List Reply) (bs : Bytes) :
    gatherStream f (.size n :: (h ++ [.region bs])) =
      .skip (min bs.length (n.toNat - (shown h).length)) := by
  have hshown : (shown (h ++ [.region bs])).length - bs.length = (shown h).length := by
    rw [shown_append]
    simp [shown]
  simp only [gatherStream, List.getLast?_append, List.getLast?_singleton, Option.some_or, hshown]

/-- The request that such a client makes, with where it is. -/
inductive Gathers (f : Bytes → Option Bytes) :
    List Reply → Bytes → Bytes → Bytes → Request → Prop
  | available : Gathers f [] [] [] [] .available
  | peek {n h region} (heven : h.length % 2 = 0) (hlt : (shown h).length < n.toNat) :
      Gathers f (.size n :: h) region ((shown h).take n.toNat) [] .peek
  | skip {n h bs} (heven : h.length % 2 = 0) (hlt : (shown h).length < n.toNat) :
      Gathers f (.size n :: (h ++ [.region bs])) bs ((shown h).take n.toNat) []
        (.skip (min bs.length (n.toNat - (shown h).length)))
  | append {n h region c} (heven : h.length % 2 = 0) (hle : n.toNat ≤ (shown h).length)
      (hf : f ((shown h).take n.toNat) = some c) :
      Gathers f (.size n :: h) region ((shown h).take n.toNat) [] (.append c)
  | refuse {n h region} (hle : n.toNat ≤ (shown h).length)
      (hf : f ((shown h).take n.toNat) = none) :
      Gathers f (.size n :: h) region ((shown h).take n.toNat) [] (.done false)
  | accept {n h region appended} (hle : n.toNat ≤ (shown h).length)
      (hf : f ((shown h).take n.toNat) = some appended) :
      Gathers f (.size n :: h) region ((shown h).take n.toNat) appended (.done true)

theorem Gathered.gathers {h : List Reply} {region skipped appended : Bytes}
    (hg : Gathered f h region skipped appended) :
    Gathers f h region skipped appended (gatherStream f h) := by
  cases hg with
  | start => exact .available
  | ready heven hlast =>
    rw [gatherStream_last hlast]
    split
    · next hlt => exact .peek heven hlt
    · next hlt =>
      split
      · next hf => exact .append heven (Nat.not_lt.mp hlt) hf
      · next hf => exact .refuse (Nat.not_lt.mp hlt) hf
  | peeked heven hlt =>
    rw [gatherStream_region]
    exact .skip heven hlt
  | sent hodd hlast hle hf =>
    rw [gatherStream_last hlast, if_neg (Nat.not_lt.mpr hle), hf, hodd]
    exact .accept hle hf

theorem Gathered.request {h : List Reply} {region skipped appended : Bytes} {r : Request}
    (hg : Gathered f h region skipped appended) (hc : gatherStream f h = r) :
    Gathers f h region skipped appended r := hc ▸ hg.gathers

theorem gathered {good : Bytes → Reply → Prop} {h : List Reply} {region skipped appended : Bytes}
    (ht : Talks (gatherStream f) good h region skipped appended) :
    Gathered f h region skipped appended := by
  induction ht with
  | start => exact .start
  | @available _ _ _ _ n _ hc _ ih =>
    cases ih.request hc
    have hready := @Gathered.ready f n [] [] rfl nofun
    rwa [shown, List.flatMap_nil, List.take_nil] at hready
  | peek _ hc _ ih =>
    cases ih.request hc with
    | peek heven hlt => exact .peeked heven hlt
  | @skip _ region _ _ _ _ hc ih =>
    cases ih.request hc with
    | @skip n h _ heven hlt =>
      have hready := @Gathered.ready f n (h ++ [.region region] ++ [.unit])
        (region.drop (min region.length (n.toNat - (shown h).length))) (by simp; omega)
        (getLast_unit _)
      have hshown : shown (h ++ [.region region] ++ [.unit]) = shown h ++ region := by
        rw [shown_append, shown_append]
        simp [shown]
      have htake : region.take (n.toNat - (shown h).length) =
          region.take (min region.length (n.toNat - (shown h).length)) := by
        rw [List.take_eq_take_iff]
        omega
      rwa [hshown, List.take_append, htake] at hready
  | @append _ region _ _ c _ hc ih =>
    cases ih.request hc with
    | @append n h _ _ heven hle hf =>
      have hsame : shown (h ++ [.unit]) = shown h := by simp [shown]
      have hsent := @Gathered.sent f n (h ++ [.unit]) region c (by simp; omega) (getLast_unit _)
        (by rwa [hsame]) (by rwa [hsame])
      rwa [hsame] at hsent

theorem Gathered.length_skipped {h : List Reply} {region skipped appended : Bytes} {n : ℕ}
    (hg : Gathered f h region skipped appended) (hsize : ∀ m l, h = .size m :: l → m.toNat = n) :
    skipped.length ≤ n := by
  cases hg with
  | start => exact Nat.zero_le _
  | ready => exact (List.length_take_le _ _).trans (hsize _ _ rfl).le
  | peeked => exact (List.length_take_le _ _).trans (hsize _ _ rfl).le
  | sent => exact (List.length_take_le _ _).trans (hsize _ _ rfl).le

/-- On a source of `n` bytes every `Peek` and its `Skip` get on. -/
structure Paced (n : ℕ) (h : List Reply) (skipped : Bytes) : Prop where
  size : ∀ m l, h = .size m :: l → m.toNat = n
  pace : h.length ≤ 2 * skipped.length + 2
  last : ∀ bs, h.getLast? = some (.region bs) → bs ≠ []

theorem paced {n : ℕ} {h : List Reply} {region skipped appended : Bytes}
    (ht : Talks (gatherStream f) (goodReply n) h region skipped appended) : Paced n h skipped := by
  induction ht with
  | start => exact ⟨nofun, Nat.zero_le _, nofun⟩
  | available ht hc hg ih =>
    cases (gathered ht).request hc
    refine ⟨?_, by simp, by simp⟩
    rintro m l he
    cases he
    simpa [goodReply] using hg
  | peek ht hc hg ih =>
    cases (gathered ht).request hc with
    | @peek m h _ heven hlt =>
      have hm := ih.size _ _ rfl
      have hpace := ih.pace
      refine ⟨?_, ?_, fun bs hlast => ?_⟩
      · rintro _ _ ⟨⟩
        exact hm
      · simp only [List.length_append, List.length_cons, List.length_nil] at hpace ⊢
        omega
      · rw [List.getLast?_append, List.getLast?_singleton, Option.some_or] at hlast
        cases hlast
        refine hg.2 ?_
        rw [List.length_take]
        omega
  | @skip _ region _ _ _ ht hc ih =>
    cases (gathered ht).request hc with
    | @skip m h _ heven hlt =>
      have hlast : ((Reply.size m :: h) ++ [Reply.region region]).getLast? =
          some (.region region) := List.getLast?_concat
      have hpos := List.length_pos_iff.mpr (ih.last region hlast)
      have hpace := ih.pace
      refine ⟨?_, ?_, fun bs he => absurd he (getLast_unit _ bs)⟩
      · rintro _ _ ⟨⟩
        exact ih.size _ _ rfl
      · simp only [List.length_append, List.length_cons, List.length_nil, List.length_take]
          at hpace ⊢
        omega
  | append ht hc ih =>
    cases (gathered ht).request hc with
    | @append m h _ _ heven hle hf =>
      have hpace := ih.pace
      refine ⟨?_, ?_, fun bs he => absurd he (getLast_unit _ bs)⟩
      · rintro _ _ ⟨⟩
        exact ih.size _ _ rfl
      · simp only [List.length_append, List.length_cons, List.length_nil] at hpace ⊢
        omega

/-- **A gathering client is as it is assumed.** -/
theorem encodesAvailable_gatherStream (hlen : ∀ {b c}, f b = some c → c.length < 2 ^ 31)
    (hdet : ∀ {x y e}, f x = some e → f y = some e → x = y) :
    EncodesAvailable (gatherStream f) fun x e => f x = some e where
  skip_le ht hc := by
    cases (gathered ht).request hc
    exact min_le_left _ _
  append_lt ht hc := by
    cases (gathered ht).request hc with
    | append heven hle hf => exact hlen hf
  encodes ht hc := by
    cases (gathered ht).request hc with
    | accept hle hf => exact ⟨_, _, rfl, by rw [List.length_take]; omega, hf⟩
  determines := hdet

theorem succeedsOn_gatherStream {n : ℕ} (hf : ∀ b : Bytes, b.length = n → f b ≠ none) :
    SucceedsOn (gatherStream f) (2 * n + 3) n := by
  intro h region skipped appended ht
  have hpaced := paced ht
  refine ⟨?_, fun hc => ?_⟩
  · have hle := (gathered ht).length_skipped hpaced.size
    have hpace := hpaced.pace
    omega
  · cases (gathered ht).request hc with
    | refuse hle hnone =>
      have hsize := hpaced.size _ _ rfl
      refine hf _ ?_ hnone
      rw [List.length_take]
      omega

end Gather

/-- Fewer than 65536 bytes as one literal. -/
def shortCompress (b : Bytes) : Option Bytes :=
  if b.length < 2 ^ 16 then some (literalSnappy.compress b) else none

/-- A snappy that refuses any more. -/
def shortSnappy : Snappy := { literalSnappy with compressStream := gatherStream shortCompress }

theorem shortCompress_eq_some {b c : Bytes} (h : shortCompress b = some c) :
    b.length < 2 ^ 16 ∧ literalSnappy.compress b = c := by
  unfold shortCompress at h
  split at h
  · next hlt => exact ⟨hlt, Option.some.inj h⟩
  · cases h

theorem encodesAvailable_shortSnappy :
    EncodesAvailable shortSnappy.compressStream fun x e => shortCompress x = some e := by
  refine encodesAvailable_gatherStream (fun {b c} h => ?_) fun {x y e} hx hy => ?_
  · obtain ⟨hlt, rfl⟩ := shortCompress_eq_some h
    have := contract_literalSnappy.compress_le b (by omega)
    omega
  · obtain ⟨hltx, hx⟩ := shortCompress_eq_some hx
    obtain ⟨hlty, hy⟩ := shortCompress_eq_some hy
    have hS := contract_literalSnappy
    have hux := hS.uncompress_compress x (2 ^ 16) (by omega) (by omega)
    have huy := hS.uncompress_compress y (2 ^ 16) (by omega) (by omega)
    rw [hx] at hux
    rw [hy, hux] at huy
    exact Option.some.inj huy

theorem succeedsOn_shortSnappy {n : ℕ} (hn : n < 2 ^ 16) :
    SucceedsOn shortSnappy.compressStream (2 * n + 3) n := by
  refine @succeedsOn_gatherStream shortCompress n fun b hb hnone => ?_
  rw [shortCompress, if_pos (by omega)] at hnone
  cases hnone

end Snzip
