import Relational.Proofs.Stream.Spread

/-!
The elements of a stream, in their order, as far as a number of forced suspensions shows them;
and what it is for a stream to end. Collecting all elements succeeds exactly if the stream ends
and nothing stops the search on the way.
-/

namespace Relational

variable {σ α : Type} (unfold : σ → Burst σ α)

namespace Stream

/-- The elements that are there once at most `n` suspensions are forced, one after another. -/
def elements : Nat → Stream σ α → List α
  | 0, s => s.front
  | n + 1, s => s.front ++
    match s.back with
    | none => []
    | some c => elements n (c.force unfold).stream

/-- Forcing at most `n` suspensions, one after another, comes to the end of the stream. -/
def EndsWithin : Nat → Stream σ α → Prop
  | 0, s => s.back = none
  | n + 1, s => ∀ c, s.back = some c → EndsWithin n (c.force unfold).stream

def Ends (s : Stream σ α) : Prop := ∃ n, s.EndsWithin unfold n

variable {s : Stream σ α} {m n : Nat}

@[simp] lemma elements_zero : s.elements unfold 0 = s.front := rfl

lemma elements_of_ended (h : s.back = none) : s.elements unfold n = s.front := by
  cases n with
  | zero => rfl
  | succ n => simp [elements, h]

lemma elements_of_forced {c : Suspension σ α} (h : s.back = some c) :
    s.elements unfold (n + 1) = s.front ++ (c.force unfold).stream.elements unfold n := by
  simp [elements, h]

@[simp] lemma elements_empty : (empty : Stream σ α).elements unfold n = [] :=
  elements_of_ended unfold rfl

@[simp] lemma elements_node (a : α) (d : Stream σ α) :
    (node a d).elements unfold n = a :: d.elements unfold n := by
  cases n <;> rfl

@[simp] lemma front_suspended (c : Suspension σ α) : (suspended c).front = [] := rfl

@[simp] lemma elements_suspended_succ (c : Suspension σ α) :
    (suspended c).elements unfold (n + 1) = (c.force unfold).stream.elements unfold n := rfl

lemma elements_initial (h : m ≤ n) (s : Stream σ α) :
    s.elements unfold m <+: s.elements unfold n := by
  induction m generalizing n s with
  | zero => cases n <;> simp [elements]
  | succ m ih =>
    obtain ⟨n, rfl⟩ : ∃ k, n = k + 1 := ⟨n - 1, by omega⟩
    rcases hb : s.back with _ | c
    · simp [elements_of_ended unfold hb]
    · rw [elements_of_forced unfold hb, elements_of_forced unfold hb,
        List.prefix_append_right_inj]
      exact ih (by omega) _

/-! ### Ends -/

lemma endsWithin_of_ended (h : s.back = none) : s.EndsWithin unfold n := by
  cases n with
  | zero => exact h
  | succ n =>
    intro c hc
    rw [h] at hc
    cases hc

lemma endsWithin_succ_of_forced {c : Suspension σ α} (h : s.back = some c) :
    s.EndsWithin unfold (n + 1) ↔ (c.force unfold).stream.EndsWithin unfold n := by
  simp [EndsWithin, h]

@[simp] lemma endsWithin_empty : (empty : Stream σ α).EndsWithin unfold n :=
  endsWithin_of_ended unfold rfl

@[simp] lemma endsWithin_node {a : α} {d : Stream σ α} :
    (node a d).EndsWithin unfold n ↔ d.EndsWithin unfold n := by
  cases n <;> exact Iff.rfl

@[simp] lemma not_endsWithin_suspended_zero {c : Suspension σ α} :
    ¬(suspended c).EndsWithin unfold 0 := by simp [EndsWithin, back]

@[simp] lemma endsWithin_suspended_succ {c : Suspension σ α} :
    (suspended c).EndsWithin unfold (n + 1) ↔ (c.force unfold).stream.EndsWithin unfold n :=
  endsWithin_succ_of_forced unfold rfl

lemma ends_suspended {c : Suspension σ α} :
    (suspended c).Ends unfold ↔ (c.force unfold).stream.Ends unfold := by
  constructor
  · rintro ⟨_ | n, h⟩
    · exact absurd h (not_endsWithin_suspended_zero unfold)
    · exact ⟨n, (endsWithin_suspended_succ unfold).mp h⟩
  · rintro ⟨n, h⟩
    exact ⟨n + 1, (endsWithin_suspended_succ unfold).mpr h⟩

variable {unfold}

lemma EndsWithin.mono (h : s.EndsWithin unfold m) (hmn : m ≤ n) : s.EndsWithin unfold n := by
  induction m generalizing n s with
  | zero => exact endsWithin_of_ended unfold h
  | succ m ih =>
    obtain ⟨n, rfl⟩ : ∃ k, n = k + 1 := ⟨n - 1, by omega⟩
    exact fun c hc => ih (h c hc) (by omega)

lemma EndsWithin.elements_eq (h : s.EndsWithin unfold m) (hmn : m ≤ n) :
    s.elements unfold n = s.elements unfold m := by
  induction m generalizing n s with
  | zero => rw [elements_of_ended unfold h, elements_of_ended unfold h]
  | succ m ih =>
    obtain ⟨n, rfl⟩ : ∃ k, n = k + 1 := ⟨n - 1, by omega⟩
    rcases hb : s.back with _ | c
    · rw [elements_of_ended unfold hb, elements_of_ended unfold hb]
    · rw [elements_of_forced unfold hb, elements_of_forced unfold hb, ih (h c hb) (by omega)]

lemma EndsWithin.mem_elements (h : s.EndsWithin unfold n) {a : α}
    (ha : a ∈ s.elements unfold m) : a ∈ s.elements unfold n := by
  rw [← h.elements_eq (Nat.le_max_right m n)]
  exact (elements_initial unfold (Nat.le_max_left m n) s).subset ha

lemma EndsWithin.rest_eq (h : s.EndsWithin unfold m) (hmn : m ≤ n) :
    s.rest unfold n = s.rest unfold m := by
  induction m generalizing n s with
  | zero => rw [rest_ended unfold h, rest_ended unfold h]
  | succ m ih =>
    obtain ⟨n, rfl⟩ : ∃ k, n = k + 1 := ⟨n - 1, by omega⟩
    rcases hb : s.back with _ | c
    · rw [rest_ended unfold hb, rest_ended unfold hb]
    · rw [rest_forced unfold hb, rest_forced unfold hb, Burst.log_succ, Burst.log_succ,
        ih (h c hb) (by omega)]

lemma front_append_rest (s : Stream σ α) (n : Nat) :
    s.front ++ (s.rest unfold n).filterMap Sum.getRight? = s.elements unfold n := by
  induction n generalizing s with
  | zero =>
    rcases hb : s.back with _ | c
    · simp [rest_ended unfold hb]
    · simp [rest_forced unfold hb]
  | succ n ih =>
    rcases hb : s.back with _ | c
    · rw [rest_ended unfold hb, elements_of_ended unfold hb]
      simp
    · rw [rest_forced unfold hb, elements_of_forced unfold hb, ← ih, Burst.log_succ]
      simp [List.filterMap_append, List.filterMap_map, Function.comp_def]

end Stream

/-! ### Searches -/

namespace Burst

variable {unfold} {b : Burst σ α} {m n : Nat}

lemma filterMap_log (b : Burst σ α) (n : Nat) :
    (b.log unfold (n + 1)).filterMap Sum.getRight? = b.stream.elements unfold n := by
  rw [← Stream.front_append_rest, log_succ]
  simp [List.filterMap_append, List.filterMap_map, Function.comp_def]

lemma shows_inr_iff {a : α} :
    b.Shows unfold (.inr a) ↔ ∃ n, a ∈ b.stream.elements unfold n := by
  have here (n : Nat) : .inr a ∈ b.log unfold (n + 1) ↔ a ∈ b.stream.elements unfold n := by
    rw [← filterMap_log, List.mem_filterMap]
    simp
  constructor
  · rintro ⟨_ | n, h⟩
    · simp at h
    · exact ⟨n, (here n).mp h⟩
  · rintro ⟨n, h⟩
    exact ⟨n + 1, (here n).mpr h⟩

end Burst

/-! ### Collecting all elements -/

lemma Event.mem_of_halt? {es : List Event} {why : Halt} (h : halt? es = some why) :
    .halted why ∈ es := by
  fun_induction halt? es with
  | case1 => cases h
  | case2 => cases h; exact List.mem_cons_self
  | case3 e es _ ih => exact List.mem_cons_of_mem e (ih h)

namespace Harvest

variable {unfold} {s : Stream σ α} {c : Suspension σ α} {h r : Harvest α} {n : Nat}

lemma eq_iff_toList : h = r ↔ h.items.toList = r.items.toList ∧
    h.events.toList = r.events.toList := by
  cases h
  cases r
  simp [Array.toList_inj]

lemma gather_ended (hs : s.back = none) :
    gather unfold none n h s = .ok ⟨h.items ++ s.front, h.events⟩ := by
  cases n <;> simp [gather, enough, missing, hs]

lemma gather_zero (hs : s.back = some c) :
    gather unfold none 0 h s = .error .overBudget := by
  simp [gather, enough, hs]

lemma gather_stopped (hs : s.back = some c) {why : Halt}
    (hw : Event.halt? (c.force unfold).events = some why) :
    gather unfold none (n + 1) h s = .error why := by
  simp [gather, enough, hs, hw]

lemma gather_succ (hs : s.back = some c) (hw : Event.halt? (c.force unfold).events = none) :
    gather unfold none (n + 1) h s =
      gather unfold none n ⟨h.items ++ s.front, h.events ++ (c.force unfold).events⟩
        (c.force unfold).stream := by
  simp [gather, enough, missing, hs, hw]

/-- A collection of all elements comes to an end if the stream does so within the budget and
nothing stops it. It gathers the elements, and what is told on the way. -/
lemma gather_eq_ok_iff : gather unfold none n h s = .ok r ↔
    s.EndsWithin unfold n ∧ (∀ why, .inl (.halted why) ∉ s.rest unfold n) ∧
      r.items.toList = h.items.toList ++ s.elements unfold n ∧
      r.events.toList = h.events.toList ++ (s.rest unfold n).filterMap Sum.getLeft? := by
  induction n generalizing h s with
  | zero =>
    rcases hb : s.back with _ | c
    · simp [gather_ended hb, Stream.EndsWithin, hb, Stream.rest_ended unfold hb,
        eq_comm (b := r), eq_iff_toList]
    · simp [gather_zero hb, Stream.EndsWithin, hb]
  | succ n ih =>
    rcases hb : s.back with _ | c
    · simp [gather_ended hb, Stream.endsWithin_of_ended unfold hb,
        Stream.elements_of_ended unfold hb, Stream.rest_ended unfold hb,
        eq_comm (b := r), eq_iff_toList]
    · rw [Stream.endsWithin_succ_of_forced unfold hb, Stream.elements_of_forced unfold hb,
        Stream.rest_forced unfold hb, Burst.log_succ]
      rcases hw : Event.halt? (c.force unfold).events with _ | why
      · have calm (why : Halt) : .halted why ∉ (c.force unfold).events :=
          Event.halt?_eq_none.mp hw why
        simp [gather_succ hb hw, ih, calm, List.filterMap_append, List.filterMap_map,
          Function.comp_def]
      · have stopped : .halted why ∈ (c.force unfold).events := Event.mem_of_halt? hw
        simp only [gather_stopped hb hw, reduceCtorEq, false_iff]
        rintro ⟨-, calm, -⟩
        exact calm why (by simp [stopped])

end Harvest

namespace Burst

variable (b : Burst σ α)

/-- Collecting all elements comes to an end, and these are the elements. -/
def Collects (as : List α) : Prop :=
  ∃ budget h, b.takeAll unfold budget = .ok h ∧ h.items.toList = as

/-- The search comes to an end and nothing stops it before. -/
def Finishes : Prop := ∃ as, b.Collects unfold as

variable {unfold b} {n : Nat}

lemma takeAll_eq_ok_iff {h : Harvest α} : b.takeAll unfold n = .ok h ↔
    b.stream.EndsWithin unfold n ∧ (∀ why, .inl (.halted why) ∉ b.log unfold (n + 1)) ∧
      h.items.toList = b.stream.elements unfold n ∧
      h.events.toList = (b.log unfold (n + 1)).filterMap Sum.getLeft? := by
  rw [takeAll, collect, log_succ]
  rcases hw : Event.halt? b.events with _ | why
  · have calm (why : Halt) : .halted why ∉ b.events := Event.halt?_eq_none.mp hw why
    simp [Harvest.gather_eq_ok_iff, calm, List.filterMap_append, List.filterMap_map,
      Function.comp_def]
  · have stopped : .halted why ∈ b.events := Event.mem_of_halt? hw
    simp only [reduceCtorEq, false_iff]
    rintro ⟨-, calm, -⟩
    exact calm why (by simp [stopped])

lemma shows_iff_of_endsWithin (h : b.stream.EndsWithin unfold n) {o : Event ⊕ α} :
    b.Shows unfold o ↔ o ∈ b.log unfold (n + 1) := by
  refine ⟨fun ⟨m, hm⟩ => ?_, fun ho => ⟨n + 1, ho⟩⟩
  have late : o ∈ b.log unfold (max m n + 1) := (log_subperm unfold (by omega) b).subset hm
  rwa [log_succ, h.rest_eq (Nat.le_max_right m n), ← log_succ] at late

/-- A search is collected in as many forced suspensions as it takes to come to the end of its
stream, if nothing stops it. -/
lemma collects_iff {as : List α} : b.Collects unfold as ↔
    (∃ n, b.stream.EndsWithin unfold n ∧ b.stream.elements unfold n = as) ∧
      ∀ why, ¬b.Shows unfold (.inl (.halted why)) := by
  constructor
  · rintro ⟨n, h, hok, rfl⟩
    obtain ⟨ends, calm, items, -⟩ := takeAll_eq_ok_iff.mp hok
    refine ⟨⟨n, ends, items.symm⟩, fun why => ?_⟩
    rw [shows_iff_of_endsWithin ends]
    exact calm why
  · rintro ⟨⟨n, ends, rfl⟩, calm⟩
    refine ⟨n, ⟨(b.stream.elements unfold n).toArray,
      ((b.log unfold (n + 1)).filterMap Sum.getLeft?).toArray⟩, ?_, rfl⟩
    refine takeAll_eq_ok_iff.mpr ⟨ends, fun why h => calm why ⟨n + 1, h⟩, rfl, rfl⟩

lemma finishes_iff : b.Finishes unfold ↔
    b.stream.Ends unfold ∧ ∀ why, ¬b.Shows unfold (.inl (.halted why)) := by
  constructor
  · rintro ⟨as, h⟩
    obtain ⟨⟨n, ends, -⟩, calm⟩ := collects_iff.mp h
    exact ⟨⟨n, ends⟩, calm⟩
  · rintro ⟨⟨n, ends⟩, calm⟩
    exact ⟨_, collects_iff.mpr ⟨⟨n, ends, rfl⟩, calm⟩⟩

lemma finishes_suspended {c : Suspension σ α} :
    (quiet (.suspended c)).Finishes unfold ↔ (c.force unfold).Finishes unfold := by
  simp only [finishes_iff, shows_suspended]
  exact and_congr_left' (Stream.ends_suspended unfold)

end Burst

end Relational
