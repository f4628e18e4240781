import Relational.Proofs.Stream.Elements
import Relational.Stream.Integers

/-!
Interleaving two streams, element by element. The result shuffles the two: each keeps its order,
none of its elements is lost or made up, and neither waits long for the other, whatever that does.
If both end, so does the result.
-/

namespace Relational

/-- The third list is made up of the first two, each in its own order. -/
inductive Shuffle {α : Type} : List α → List α → List α → Prop
  | nil : Shuffle [] [] []
  | left {a : α} {as bs cs : List α} (h : Shuffle as bs cs) : Shuffle (a :: as) bs (a :: cs)
  | right {b : α} {as bs cs : List α} (h : Shuffle as bs cs) : Shuffle as (b :: bs) (b :: cs)

variable {σ α : Type} {unfold : σ → Burst σ α} {n : Nat}

namespace Shuffle

variable {as bs cs ds : List α}

lemma swap (h : Shuffle as bs cs) : Shuffle bs as cs := by
  induction h with
  | nil => exact .nil
  | left _ ih => exact .right ih
  | right _ ih => exact .left ih

lemma append_left (ds : List α) (h : Shuffle as bs cs) : Shuffle (ds ++ as) bs (ds ++ cs) := by
  induction ds with
  | nil => exact h
  | cons d ds ih => exact .left ih

lemma nil_left (bs : List α) : Shuffle [] bs bs := by
  induction bs with
  | nil => exact .nil
  | cons b bs ih => exact .right ih

lemma eq_of_nil_right (h : Shuffle as [] cs) : cs = as := by
  induction as generalizing cs with
  | nil => cases h; rfl
  | cons a as ih =>
    cases h with
    | left h => rw [ih h]

lemma perm (h : Shuffle as bs cs) : cs.Perm (as ++ bs) := by
  induction h with
  | nil => exact .refl _
  | left _ ih => exact ih.cons _
  | right _ ih => exact (ih.cons _).trans List.perm_middle.symm

end Shuffle

namespace Stream

variable {s t : Stream σ α} {c : Suspension σ α}

/-! ### One forced suspension -/

lemma elements_merge_ended (h : s.back = none) :
    (s.merge t).elements unfold n = s.front ++ t.elements unfold n := by
  cases n with
  | zero => simp [front_merge, h]
  | succ n => simp [elements, front_merge, back_merge, h]

lemma elements_merge_zero (h : s.back = some c) : (s.merge t).elements unfold 0 = s.front := by
  simp [front_merge, h]

lemma elements_merge_succ (h : s.back = some c) : (s.merge t).elements unfold (n + 1) =
    s.front ++ (t.merge (c.force unfold).stream).elements unfold n := by
  simp [elements, front_merge, back_merge, h]

lemma endsWithin_merge_ended (h : s.back = none) :
    (s.merge t).EndsWithin unfold n ↔ t.EndsWithin unfold n := by
  cases n <;> simp [EndsWithin, back_merge, h]

lemma endsWithin_merge_succ (h : s.back = some c) : (s.merge t).EndsWithin unfold (n + 1) ↔
    (t.merge (c.force unfold).stream).EndsWithin unfold n := by
  simp [EndsWithin, back_merge, h]

/-! ### Taking turns -/

/-- What `n` forced suspensions show of an interleaving shuffles `as` and `bs`. These are
beginnings of the first and the second stream that `n` suspensions show as well; and `as` has all
that `k` suspensions show of the first stream if `2 * k` are forced, `bs` all that `k` show of
the second if `2 * k + 1` are. -/
structure Turns (unfold : σ → Burst σ α) (n : Nat) (s t : Stream σ α) (as bs : List α) :
    Prop where
  shuffle : Shuffle as bs ((s.merge t).elements unfold n)
  first : as <+: s.elements unfold n
  second : bs <+: t.elements unfold n
  first_soon (k : Nat) (h : 2 * k ≤ n) : s.elements unfold k <+: as
  second_soon (k : Nat) (h : 2 * k + 1 ≤ n) : t.elements unfold k <+: bs

lemma turns_ended (h : s.back = none) (n : Nat) (t : Stream σ α) :
    Turns unfold n s t s.front (t.elements unfold n) where
  shuffle := by
    rw [elements_merge_ended h]
    simpa using (Shuffle.nil_left (t.elements unfold n)).append_left s.front
  first := by simp only [elements_of_ended unfold h, List.prefix_rfl]
  second := List.prefix_rfl
  first_soon k _ := by simp only [elements_of_ended unfold h, List.prefix_rfl]
  second_soon k hk := elements_initial unfold (by omega) t

lemma turns_zero (h : s.back = some c) (t : Stream σ α) : Turns unfold 0 s t s.front [] where
  shuffle := by
    rw [elements_merge_zero h]
    simpa using Shuffle.nil.append_left s.front
  first := List.prefix_rfl
  second := List.nil_prefix
  first_soon k hk := by
    obtain rfl : k = 0 := by omega
    exact List.prefix_rfl
  second_soon k hk := by omega

/-- The streams change places, so what is soon for the second is soon enough for the first. -/
lemma Turns.succ {as bs : List α} (h : s.back = some c)
    (ht : Turns unfold n t (c.force unfold).stream as bs) :
    Turns unfold (n + 1) s t (s.front ++ bs) as where
  shuffle := by
    rw [elements_merge_succ h]
    exact ht.shuffle.swap.append_left s.front
  first := by
    rw [elements_of_forced unfold h, List.prefix_append_right_inj]
    exact ht.second
  second := ht.first.trans (elements_initial unfold n.le_succ t)
  first_soon k hk := by
    cases k with
    | zero => exact List.prefix_append _ _
    | succ k =>
      rw [elements_of_forced unfold h, List.prefix_append_right_inj]
      exact ht.second_soon k (by omega)
  second_soon k hk := ht.first_soon k (by omega)

lemma exists_turns (unfold : σ → Burst σ α) (n : Nat) (s t : Stream σ α) :
    ∃ as bs, Turns unfold n s t as bs := by
  induction n generalizing s t with
  | zero =>
    rcases h : s.back with _ | c
    · exact ⟨_, _, turns_ended h 0 t⟩
    · exact ⟨_, _, turns_zero h t⟩
  | succ n ih =>
    rcases h : s.back with _ | c
    · exact ⟨_, _, turns_ended h (n + 1) t⟩
    · obtain ⟨as, bs, ht⟩ := ih t (c.force unfold).stream
      exact ⟨_, _, ht.succ h⟩

/-! ### Ends -/

lemma EndsWithin.merge {i j : Nat} (hs : s.EndsWithin unfold i) (ht : t.EndsWithin unfold j) :
    (s.merge t).EndsWithin unfold (i + j) := by
  induction hn : i + j generalizing i j s t with
  | zero =>
    obtain rfl : i = 0 := by omega
    obtain rfl : j = 0 := by omega
    exact (endsWithin_merge_ended hs).mpr ht
  | succ n ih =>
    rcases h : s.back with _ | c
    · exact (endsWithin_merge_ended h).mpr (ht.mono (by omega))
    · obtain ⟨i, rfl⟩ : ∃ k, i = k + 1 := by
        refine ⟨i - 1, ?_⟩
        cases i with
        | zero => rw [EndsWithin, h] at hs; cases hs
        | succ i => rfl
      rw [endsWithin_merge_succ h]
      exact ih ht (hs c h) (by omega)

lemma endsWithin_of_merge (h : (s.merge t).EndsWithin unfold n) :
    s.EndsWithin unfold n ∧ t.EndsWithin unfold n := by
  induction n generalizing s t with
  | zero =>
    rcases hb : s.back with _ | c
    · exact ⟨hb, (endsWithin_merge_ended hb).mp h⟩
    · simp [EndsWithin, back_merge, hb] at h
  | succ n ih =>
    rcases hb : s.back with _ | c
    · exact ⟨endsWithin_of_ended unfold hb, (endsWithin_merge_ended hb).mp h⟩
    · obtain ⟨ht, hs⟩ := ih ((endsWithin_merge_succ hb).mp h)
      exact ⟨(endsWithin_succ_of_forced unfold hb).mpr hs, ht.mono n.le_succ⟩

lemma ends_merge : (s.merge t).Ends unfold ↔ s.Ends unfold ∧ t.Ends unfold := by
  constructor
  · rintro ⟨n, h⟩
    obtain ⟨hs, ht⟩ := endsWithin_of_merge h
    exact ⟨⟨n, hs⟩, n, ht⟩
  · rintro ⟨⟨i, hs⟩, j, ht⟩
    exact ⟨i + j, hs.merge ht⟩

end Stream

lemma Burst.finishes_merge {b c : Burst σ α} :
    (b.merge c).Finishes unfold ↔ b.Finishes unfold ∧ c.Finishes unfold := by
  have ends : (b.merge c).stream.Ends unfold ↔ b.stream.Ends unfold ∧ c.stream.Ends unfold :=
    Stream.ends_merge
  simp only [finishes_iff, ends, shows_merge, not_or, forall_and]
  tauto

/-- **Interleaving is exact and fair**: as far as any number of forced suspensions shows it, it
shuffles beginnings of the two streams that are no longer than so many suspensions show, and no
shorter than half as many do. If both streams end, it ends as well, and shuffles all of them. -/
theorem Stream.merge_shuffles (unfold : σ → Burst σ α) (s t : Stream σ α) :
    (∀ n, ∃ as bs, Turns unfold n s t as bs) ∧
      ∀ as bs, (Burst.quiet s).Collects unfold as → (Burst.quiet t).Collects unfold bs →
        ∃ cs, (Burst.quiet (s.merge t)).Collects unfold cs ∧ Shuffle as bs cs := by
  refine ⟨fun n => exists_turns unfold n s t, fun as bs hs ht => ?_⟩
  obtain ⟨⟨i, si, rfl⟩, calm⟩ := Burst.collects_iff.mp hs
  obtain ⟨⟨j, tj, rfl⟩, calm'⟩ := Burst.collects_iff.mp ht
  simp only [Burst.quiet, Burst.stream_mk] at si tj ⊢
  have ends := si.merge tj
  -- so many suspensions that each stream shows all its elements in its turns
  obtain ⟨as, bs, turns⟩ := exists_turns unfold (2 * (i + j) + 1) s t
  have first : as = s.elements unfold i := by
    have most := turns.first
    rw [si.elements_eq (by omega)] at most
    exact most.sublist.antisymm (turns.first_soon i (by omega)).sublist
  have second : bs = t.elements unfold j := by
    have most := turns.second
    rw [tj.elements_eq (by omega)] at most
    exact most.sublist.antisymm (turns.second_soon j (by omega)).sublist
  refine ⟨_, Burst.collects_iff.mpr ⟨⟨_, ends.mono (show i + j ≤ 2 * (i + j) + 1 by omega), rfl⟩,
    fun why => ?_⟩, first ▸ second ▸ turns.shuffle⟩
  rw [show Burst.mk [] (s.merge t) = (Burst.quiet s).merge (Burst.quiet t) from rfl,
    Burst.shows_merge, not_or]
  exact ⟨calm why, calm' why⟩

/-- Numbers counted up are not kept back by a stream that is suspended for ever; and of two
streams that end, all elements are shuffled. -/
theorem Stream.merge_shuffles_integers :
    (∃ as bs, Shuffle as bs ((merge (.suspended (.seed .never))
        (.node 0 (.suspended (.seed (.countFrom 1))))).elements Integers.Endless.unfold 9) ∧
      2 * 4 + 1 ≤ 9 ∧ [0, 1, 2, 3, 4] <+: bs) ∧
    ∃ cs : List Int, (Burst.quiet (merge (.suspended (.later fun _ => .quiet (.ofList [1, 2])))
        (.node 3 (.suspended (.later fun _ => .quiet (.ofList [4])))))).Collects
          Integers.Endless.unfold cs ∧ Shuffle [1, 2] [3, 4] cs := by
  constructor
  · obtain ⟨turns, -⟩ := merge_shuffles Integers.Endless.unfold (.suspended (.seed .never))
      (.node 0 (.suspended (.seed (.countFrom 1))))
    obtain ⟨as, bs, h⟩ := turns 9
    exact ⟨as, bs, h.shuffle, by decide, h.second_soon 4 (by decide)⟩
  · obtain ⟨-, all⟩ := merge_shuffles Integers.Endless.unfold
      (.suspended (.later fun _ => .quiet (.ofList [1, 2])))
      (.node 3 (.suspended (.later fun _ => .quiet (.ofList [4]))))
    exact all [1, 2] [3, 4] ⟨1, _, rfl, rfl⟩ ⟨1, _, rfl, rfl⟩

end Relational
