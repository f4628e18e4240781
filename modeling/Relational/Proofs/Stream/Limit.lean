import Mathlib.Order.Bounds.Basic
import Relational.Program
import Relational.Proofs.Stream.Elements

/-!
Collecting a limited number of elements. As many suspensions are forced as it takes to show the
elements that are wanted, or to come to the end, and no more. So a smaller limit gives the first
of the elements, after the first of the events, and forces the first of the suspensions.
-/

namespace Relational

variable {σ α : Type} (unfold : σ → Burst σ α)

/-- Forcing `j` suspensions shows `k` elements or comes to the end, and forcing fewer does not. -/
structure Stream.Serves (k j : Nat) (s : Stream σ α) : Prop where
  reached : k ≤ (s.elements unfold j).length ∨ s.EndsWithin unfold j
  least (i : Nat) (hi : i < j) : (s.elements unfold i).length < k ∧ ¬s.EndsWithin unfold i

namespace Stream

variable {unfold} {s : Stream σ α} {c : Suspension σ α} {k j : Nat}

lemma serves_zero : s.Serves unfold k 0 ↔ k ≤ s.front.length ∨ s.back = none :=
  ⟨fun h => h.reached, fun h => ⟨h, fun i hi => absurd hi (Nat.not_lt_zero i)⟩⟩

lemma Serves.forced (h : s.Serves unfold k (j + 1)) :
    s.front.length < k ∧ ∃ c, s.back = some c := by
  obtain ⟨short, on⟩ := h.least 0 j.succ_pos
  exact ⟨short, Option.ne_none_iff_exists'.mp on⟩

lemma serves_succ (hb : s.back = some c) (hk : s.front.length < k) :
    s.Serves unfold k (j + 1) ↔
      (c.force unfold).stream.Serves unfold (k - s.front.length) j := by
  have length (i : Nat) : (s.elements unfold (i + 1)).length =
      s.front.length + ((c.force unfold).stream.elements unfold i).length := by
    rw [elements_of_forced unfold hb, List.length_append]
  constructor
  · intro h
    refine ⟨?_, fun i hi => ?_⟩
    · refine h.reached.imp (fun shown => ?_) (endsWithin_succ_of_forced unfold hb).mp
      rw [length] at shown
      omega
    · obtain ⟨short, on⟩ := h.least (i + 1) (by omega)
      rw [length] at short
      rw [endsWithin_succ_of_forced unfold hb] at on
      exact ⟨by omega, on⟩
  · intro h
    refine ⟨?_, fun i hi => ?_⟩
    · refine h.reached.imp (fun shown => ?_) (endsWithin_succ_of_forced unfold hb).mpr
      rw [length]
      omega
    · cases i with
      | zero => exact ⟨hk, by simp [EndsWithin, hb]⟩
      | succ i =>
        obtain ⟨short, on⟩ := h.least i (by omega)
        rw [length, endsWithin_succ_of_forced unfold hb]
        exact ⟨by omega, on⟩

lemma Serves.sooner (h : s.Serves unfold k j) {k' : Nat} (hk : k' ≤ k) :
    ∃ i ≤ j, s.Serves unfold k' i := by
  induction j generalizing s k k' with
  | zero => exact ⟨0, Nat.le_refl 0, serves_zero.mpr ((serves_zero.mp h).imp_left hk.trans)⟩
  | succ j ih =>
    obtain ⟨short, c, hb⟩ := h.forced
    rcases Nat.lt_or_ge s.front.length k' with more | enough
    · obtain ⟨i, hi, first⟩ := ih ((serves_succ hb short).mp h)
        (Nat.sub_le_sub_right hk s.front.length)
      exact ⟨i + 1, by omega, (serves_succ hb more).mpr first⟩
    · exact ⟨0, Nat.zero_le _, serves_zero.mpr (.inl enough)⟩

lemma Serves.take_eq (h : s.Serves unfold k j) {i : Nat} (hij : j ≤ i) :
    (s.elements unfold i).take k = (s.elements unfold j).take k := by
  rcases h.reached with enough | ended
  · obtain ⟨more, hmore⟩ := elements_initial unfold hij s
    rw [← hmore, List.take_append_of_le_length enough]
  · rw [ended.elements_eq hij]

end Stream

/-! ### Collecting -/

namespace Harvest

variable {unfold} {s : Stream σ α} {c : Suspension σ α} {h r : Harvest α} {n budget j : Nat}

lemma size_append_list {β : Type} (bs : Array β) (l : List β) :
    (bs ++ l).size = bs.size + l.length := by
  rw [← Array.length_toList]
  simp

/-- Once the elements at hand suffice, or nothing is left to be forced, nothing is forced. -/
lemma gather_here (hs : n - h.items.size ≤ s.front.length ∨ s.back = none) :
    gather unfold (some n) budget h s =
      .ok ⟨h.items ++ s.front.take (n - h.items.size), h.events⟩ := by
  unfold gather
  by_cases enough : n ≤ h.items.size + min (n - h.items.size) s.front.length
  · simp [Harvest.enough, missing, size_append_list, enough]
  · have ended : s.back = none := hs.resolve_left (by omega)
    simp [Harvest.enough, missing, size_append_list, enough, ended]

/-- Where the elements at hand do not suffice, a suspension is forced. -/
lemma gather_short (short : s.front.length < n - h.items.size) (hb : s.back = some c) :
    gather unfold (some n) budget h s =
      match budget with
      | 0 => .error .overBudget
      | budget + 1 =>
        match Event.halt? (c.force unfold).events with
        | some why => .error why
        | none => gather unfold (some n) budget
            ⟨h.items ++ s.front, h.events ++ (c.force unfold).events⟩ (c.force unfold).stream := by
  have all : s.front.take (n - h.items.size) = s.front := List.take_of_length_le (by omega)
  have few : ¬n ≤ h.items.size + s.front.length := by omega
  cases budget with
  | zero => simp [gather, Harvest.enough, missing, size_append_list, all, few, hb]
  | succ budget =>
    rcases hw : Event.halt? (c.force unfold).events with _ | why <;>
      simp [gather, Harvest.enough, missing, size_append_list, all, few, hb, hw]

lemma rest_zero (s : Stream σ α) : s.rest unfold 0 = [] := by
  rcases hb : s.back with _ | c
  · rw [Stream.rest_ended unfold hb]
  · rw [Stream.rest_forced unfold hb, Burst.log_zero]

/-- A collection with a limit forces as many suspensions as it takes, and fails if it may not. -/
lemma gather_of_serves (hs : s.Serves unfold (n - h.items.size) j)
    (calm : ∀ why, .inl (.halted why) ∉ s.rest unfold j) :
    gather unfold (some n) budget h s = if j ≤ budget then
        .ok ⟨h.items ++ (s.elements unfold j).take (n - h.items.size),
          h.events ++ (s.rest unfold j).filterMap Sum.getLeft?⟩
      else .error .overBudget := by
  induction j generalizing h s budget with
  | zero =>
    rw [gather_here (Stream.serves_zero.mp hs), if_pos budget.zero_le, Stream.elements_zero,
      rest_zero]
    rfl
  | succ j ih =>
    obtain ⟨short, c, hb⟩ := hs.forced
    have later := (Stream.serves_succ hb short).mp hs
    rw [Stream.rest_forced unfold hb, Burst.log_succ] at calm
    have told : Event.halt? (c.force unfold).events = none :=
      Event.halt?_eq_none.mpr fun why hw => calm why (by simp [hw])
    rw [gather_short short hb]
    cases budget with
    | zero => rw [if_neg (by omega)]
    | succ budget =>
      let h' : Harvest α := ⟨h.items ++ s.front, h.events ++ (c.force unfold).events⟩
      have left : n - h'.items.size = n - h.items.size - s.front.length := by
        simp only [h', size_append_list]
        omega
      simp only [told]
      rw [ih (h := h') (left ▸ later) fun why hw => calm why (by simp [hw])]
      refine if_congr (by omega) (congrArg Except.ok (eq_iff_toList.mpr ?_)) rfl
      rw [left, Stream.elements_of_forced unfold hb, Stream.rest_forced unfold hb, Burst.log_succ,
        List.take_append, List.take_of_length_le (l := s.front) (by omega)]
      simp [h', List.filterMap_append, List.filterMap_map, Function.comp_def]

/-- A collection with a limit that succeeds has shown all that was wanted, or come to the end, and
nothing has stopped it. -/
lemma exists_serves_of_gather (hr : gather unfold (some n) budget h s = .ok r) :
    ∃ j, s.Serves unfold (n - h.items.size) j ∧ ∀ why, .inl (.halted why) ∉ s.rest unfold j := by
  induction budget generalizing h s with
  | zero =>
    refine ⟨0, Stream.serves_zero.mpr (by_contra fun on => ?_), by simp [rest_zero]⟩
    obtain ⟨short, hb⟩ := not_or.mp on
    obtain ⟨c, hb⟩ := Option.ne_none_iff_exists'.mp hb
    rw [gather_short (Nat.lt_of_not_le short) hb] at hr
    cases hr
  | succ budget ih =>
    by_cases here : n - h.items.size ≤ s.front.length ∨ s.back = none
    · exact ⟨0, Stream.serves_zero.mpr here, by simp [rest_zero]⟩
    obtain ⟨short, hb⟩ := not_or.mp here
    have short := Nat.lt_of_not_le short
    obtain ⟨c, hb⟩ := Option.ne_none_iff_exists'.mp hb
    rw [gather_short short hb] at hr
    rcases hw : Event.halt? (c.force unfold).events with _ | why <;> simp only [hw] at hr
    · obtain ⟨j, later, calm⟩ := ih hr
      rw [size_append_list, ← Nat.sub_sub] at later
      refine ⟨j + 1, (Stream.serves_succ hb short).mpr later, fun why hwhy => ?_⟩
      rw [Stream.rest_forced unfold hb, Burst.log_succ] at hwhy
      simp [Event.halt?_eq_none.mp hw why, calm why] at hwhy
    · cases hr

end Harvest

/-! ### The first elements of a search -/

namespace Burst

variable {unfold} {b : Burst σ α} {r : Harvest α} {n budget j : Nat}

/-- The first elements, and what is told until they are shown. -/
def firsts (unfold : σ → Burst σ α) (n j : Nat) (b : Burst σ α) : Harvest α :=
  ⟨((b.stream.elements unfold j).take n).toArray,
    ((b.log unfold (j + 1)).filterMap Sum.getLeft?).toArray⟩

lemma take_of_serves (hs : b.stream.Serves unfold n j)
    (calm : ∀ why, .inl (.halted why) ∉ b.log unfold (j + 1)) :
    b.take unfold n budget =
      if j ≤ budget then .ok (b.firsts unfold n j) else .error .overBudget := by
  rw [log_succ] at calm
  have told : Event.halt? b.events = none :=
    Event.halt?_eq_none.mpr fun why hw => calm why (by simp [hw])
  rw [take, collect, told]
  dsimp only
  rw [Harvest.gather_of_serves (h := ⟨#[], b.events.toArray⟩) hs
    fun why hw => calm why (by simp [hw])]
  refine if_congr Iff.rfl (congrArg Except.ok (Harvest.eq_iff_toList.mpr ?_)) rfl
  simp [firsts, log_succ, List.filterMap_append, List.filterMap_map, Function.comp_def]

lemma exists_serves_of_take (hr : b.take unfold n budget = .ok r) :
    ∃ j, b.stream.Serves unfold n j ∧ ∀ why, .inl (.halted why) ∉ b.log unfold (j + 1) := by
  rw [take, collect] at hr
  rcases hw : Event.halt? b.events with _ | why <;> simp only [hw] at hr
  · obtain ⟨j, serves, calm⟩ := Harvest.exists_serves_of_gather hr
    refine ⟨j, serves, fun why hwhy => ?_⟩
    rw [log_succ] at hwhy
    simp [Event.halt?_eq_none.mp hw why, calm why] at hwhy
  · cases hr

lemma items_of_collect {wanted : Option Nat} (hr : b.collect unfold wanted budget = .ok r) :
    (∃ k, r.items.toList <+: b.stream.elements unfold k) ∧
      ∀ n, wanted = some n → r.items.size ≤ n := by
  cases wanted with
  | none =>
    obtain ⟨-, -, items, -⟩ := takeAll_eq_ok_iff.mp hr
    exact ⟨⟨budget, items ▸ List.prefix_refl _⟩, by simp⟩
  | some n =>
    obtain ⟨k, serves, calm⟩ := exists_serves_of_take hr
    have taken : b.take unfold n budget = .ok r := hr
    rw [take_of_serves serves calm] at taken
    obtain rfl : b.firsts unfold n k = r := by
      split at taken <;> cases taken
      rfl
    exact ⟨⟨k, by simpa [firsts] using List.take_prefix _ _⟩, by simp [firsts]⟩

end Burst

/-- **Limits only cut.** Where up to `m` states can be collected from a goal, a limit `n` that is no
larger gives the first `n` of them, or all if there are fewer, after a beginning of the events. For
that it forces some number `j` of suspensions, no more and no fewer: so many that the last one shows
the state with number `n`, or comes to the end of the stream if there is no such state. -/
theorem Goal.limits_only_cut (unfold : σ → Burst σ State) (g : Goal σ) (s : State)
    {m n budget : Nat} (hnm : n ≤ m) {all : Harvest State} (h : (g s).take unfold m budget = .ok all) :
    ∃ (j : Nat) (first : Harvest State),
      (∀ b, (g s).take unfold n b = if j ≤ b then .ok first else .error .overBudget) ∧
      first.items.toList = all.items.toList.take n ∧
      first.events.toList <+: all.events.toList ∧
      (n = 0 → j = 0) ∧
      (first.items.size = n → IsLeast {i | n ≤ ((g s).stream.elements unfold i).length} j) ∧
      (first.items.size ≠ n → IsLeast {i | (g s).stream.EndsWithin unfold i} j) := by
  obtain ⟨k, serves, calm⟩ := Burst.exists_serves_of_take h
  obtain ⟨j, hjk, first⟩ := serves.sooner hnm
  have early (why : Halt) : .inl (.halted why) ∉ (g s).log unfold (j + 1) := fun hw =>
    calm why ((Burst.log_initial unfold (by omega) _).subset hw)
  rw [Burst.take_of_serves serves calm] at h
  obtain rfl : (g s).firsts unfold m k = all := by
    split at h <;> cases h
    rfl
  have size : ((g s).firsts unfold n j).items.size =
      min n ((g s).stream.elements unfold j).length := by simp [Burst.firsts]
  refine ⟨j, (g s).firsts unfold n j, fun b => Burst.take_of_serves first early, ?_,
    List.IsPrefix.filterMap _ (Burst.log_initial unfold (by omega) _), ?_, fun full => ⟨?_, ?_⟩,
    fun partly => ⟨?_, ?_⟩⟩
  · simp only [Burst.firsts, List.take_take, Nat.min_eq_left hnm, first.take_eq hjk]
  · rintro rfl
    exact Nat.eq_zero_of_not_pos fun hj => absurd (first.least 0 hj).1 (Nat.not_lt_zero _)
  · simp only [Set.mem_ofPred_eq]
    omega
  · exact fun i hi => Nat.le_of_not_lt fun hij => absurd (first.least i hij).1 (Nat.not_lt.mpr hi)
  · exact first.reached.resolve_left (by omega)
  · exact fun i hi => Nat.le_of_not_lt fun hij => absurd hi (first.least i hij).2

/-- The first two numbers that are, and the first of them alone. -/
theorem Goal.limits_only_cut_numbers : ∃ all j first,
    ((Formula.ask .numbero [.term (.var ⟨0, none⟩)]).goal .empty (.reserving 1)).take
      Program.empty.unfold 2 8 = .ok all ∧
    (∀ b, ((Formula.ask .numbero [.term (.var ⟨0, none⟩)]).goal .empty (.reserving 1)).take
      Program.empty.unfold 1 b = if j ≤ b then .ok first else .error .overBudget) ∧
    all.items.size = 2 ∧ all.events.size = 5 ∧ first.items.toList = all.items.toList.take 1 ∧
    first.events.toList <+: all.events.toList := by
  obtain ⟨all, h, two, told⟩ : ∃ all : Harvest State,
      ((Formula.ask .numbero [.term (.var ⟨0, none⟩)]).goal .empty (.reserving 1)).take
        Program.empty.unfold 2 8 = .ok all ∧ all.items.size = 2 ∧ all.events.size = 5 :=
    ⟨_, rfl, rfl, rfl⟩
  obtain ⟨j, first, exact, items, events, -⟩ :=
    limits_only_cut Program.empty.unfold _ _ (Nat.le_succ 1) h
  exact ⟨all, j, first, h, exact, two, told, items, events⟩

end Relational
