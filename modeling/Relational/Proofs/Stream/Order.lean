import Mathlib.Data.Nat.Find
import Relational.Proofs.Stream.Gives
import Relational.Proofs.Stream.Limit

/-!
The order in which elements come. An interleaving gives all elements of its first stream before any
of the second if the second is silent for as long as the first one takes to end. So a search may
show some elements and be another search from then on, only later; what is known of that one is
known of the whole search.
-/

namespace Relational

variable {σ α : Type} (unfold : σ → Burst σ α)

/-- The stream shows the elements `as`, and after them just what `t` shows. -/
structure Stream.Passes (s : Stream σ α) (as : List α) (t : Stream σ α) : Prop where
  shown (n : Nat) : ∃ m, as ++ t.elements unfold n <+: s.elements unfold m
  bounded (n : Nat) : ∃ m, s.elements unfold n <+: as ++ t.elements unfold m
  ends : t.Ends unfold → s.Ends unfold

/-- Nothing stops the search within `n` bursts. -/
def Burst.Calm (n : Nat) (b : Burst σ α) : Prop := ∀ why, .inl (.halted why) ∉ b.log unfold n

/-- The search shows the elements `as` and goes on as `c`, not sooner than that. -/
structure Burst.Passes (b : Burst σ α) (as : List α) (c : Burst σ α) : Prop where
  stream : b.stream.Passes unfold as c.stream
  calm {n : Nat} (h : c.Calm unfold n) : b.Calm unfold n

/-- The search begins with the elements `as`, and nothing stops it within `n` bursts. -/
structure Burst.Begins (n : Nat) (b : Burst σ α) (as : List α) : Prop where
  shown : ∃ m, as <+: b.stream.elements unfold m
  calm : b.Calm unfold n

variable {unfold} {n i : Nat} {as bs : List α}

namespace Stream

variable {s t u : Stream σ α} {c : Suspension σ α} {k : α → Burst σ α}

lemma EndsWithin.initial (h : s.EndsWithin unfold i) (n : Nat) :
    s.elements unfold n <+: s.elements unfold i := by
  rcases Nat.le_total n i with le | le
  · exact elements_initial unfold le s
  · exact h.elements_eq le ▸ List.prefix_refl _

lemma elements_eq_nil_of_le {m : Nat} (h : s.elements unfold n = []) (hmn : m ≤ n) :
    s.elements unfold m = [] :=
  List.prefix_nil.mp (h ▸ elements_initial unfold hmn s)

lemma exists_bind_none (hs : s.EndsWithin unfold i) (none : s.elements unfold i = []) :
    ∃ j, (s.bind k).stream.EndsWithin unfold j ∧ (s.bind k).stream.elements unfold j = [] := by
  obtain ⟨j, ends⟩ := ends_bind_of_endsWithin (k := k) hs (by simp [none])
  have nothing : s.elements unfold j = [] := List.prefix_nil.mp (none ▸ hs.initial j)
  have less := elements_bind_subperm unfold k j s
  rw [nothing, List.flatMap_nil, List.subperm_nil] at less
  exact ⟨j, ends, less⟩

lemma EndsWithin.bind_now (hs : s.EndsWithin unfold i)
    (hk : ∀ a, (k a).stream.EndsWithin unfold 0) : (s.bind k).stream.EndsWithin unfold i := by
  induction i using Nat.strongRecOn generalizing s with
  | ind i ih =>
    fun_induction Stream.bind k s with
    | case1 => simp [Burst.quiet]
    | case2 a d _ _ hd =>
      exact (endsWithin_merge_ended (hk a)).mpr (hd ((endsWithin_node unfold).mp hs))
    | case3 c =>
      cases i with
      | zero => exact absurd hs (not_endsWithin_suspended_zero unfold)
      | succ i =>
        rw [endsWithin_suspended_succ] at hs
        exact (endsWithin_suspended_succ unfold).mpr (ih i i.lt_succ_self hs)

lemma exists_serves {m k : Nat} (h : k ≤ (s.elements unfold m).length) :
    ∃ j ≤ m, s.Serves unfold k j := by
  classical
  have reached : ∃ j, k ≤ (s.elements unfold j).length ∨ s.EndsWithin unfold j := ⟨m, .inl h⟩
  refine ⟨Nat.find reached, Nat.find_min' reached (.inl h), Nat.find_spec reached, fun i hi => ?_⟩
  obtain ⟨short, on⟩ := not_or.mp (Nat.find_min reached hi)
  exact ⟨Nat.lt_of_not_le short, on⟩

namespace Passes

lemma refl (s : Stream σ α) : s.Passes unfold [] s :=
  ⟨fun n => ⟨n, List.prefix_refl _⟩, fun n => ⟨n, List.prefix_refl _⟩, id⟩

lemma trans (h : s.Passes unfold as t) (h' : t.Passes unfold bs u) :
    s.Passes unfold (as ++ bs) u where
  shown n := by
    obtain ⟨m, later⟩ := h'.shown n
    obtain ⟨l, more⟩ := h.shown m
    rw [List.append_assoc]
    exact ⟨l, ((List.prefix_append_right_inj as).mpr later).trans more⟩
  bounded n := by
    obtain ⟨m, less⟩ := h.bounded n
    obtain ⟨l, later⟩ := h'.bounded m
    refine ⟨l, ?_⟩
    rw [List.append_assoc]
    exact less.trans ((List.prefix_append_right_inj as).mpr later)
  ends hu := h.ends (h'.ends hu)

lemma suspended (h : (c.force unfold).stream.Passes unfold as t) :
    (suspended c).Passes unfold as t where
  shown n := (h.shown n).imp' (· + 1) fun _ => id
  bounded n := by
    cases n with
    | zero => exact ⟨0, List.nil_prefix⟩
    | succ n => exact h.bounded n
  ends ht := (ends_suspended unfold).mpr (h.ends ht)

lemma of_forced (h : s.Passes unfold as (c.force unfold).stream) (hf : t.front = [])
    (hb : t.back = some c) : s.Passes unfold as t := by
  have next (n : Nat) : t.elements unfold (n + 1) = (c.force unfold).stream.elements unfold n := by
    rw [elements_of_forced unfold hb, hf, List.nil_append]
  refine ⟨fun n => ?_, fun n => ?_, fun ⟨n, ends⟩ => h.ends ⟨n, ?_⟩⟩
  · obtain ⟨m, later⟩ := h.shown n
    have sooner := elements_initial unfold n.le_succ t
    rw [next] at sooner
    exact ⟨m, ((List.prefix_append_right_inj as).mpr sooner).trans later⟩
  · obtain ⟨m, less⟩ := h.bounded n
    exact ⟨m + 1, by rwa [next]⟩
  · exact (endsWithin_succ_of_forced unfold hb).mp (ends.mono n.le_succ)

lemma of_ends (hs : s.EndsWithin unfold i) (hf : t.front = []) (hb : t.back = none) :
    s.Passes unfold (s.elements unfold i) t := by
  have none (n : Nat) : t.elements unfold n = [] := (elements_of_ended unfold hb).trans hf
  refine ⟨fun n => ⟨i, ?_⟩, fun n => ⟨0, ?_⟩, fun _ => ⟨i, hs⟩⟩
  · exact none n ▸ (List.append_nil _).symm ▸ List.prefix_refl _
  · exact none 0 ▸ (List.append_nil _).symm ▸ hs.initial n

lemma merge_ended (hb : s.back = none) : (s.merge t).Passes unfold s.front t where
  shown n := ⟨n, elements_merge_ended hb ▸ List.prefix_refl _⟩
  bounded n := ⟨n, elements_merge_ended hb ▸ List.prefix_refl _⟩
  ends := fun ⟨n, ends⟩ => ⟨n, (endsWithin_merge_ended hb).mpr ends⟩

lemma merge_forced (hb : s.back = some c) (h : (t.merge (c.force unfold).stream).Passes unfold as u) :
    (s.merge t).Passes unfold (s.front ++ as) u where
  shown n := by
    obtain ⟨m, later⟩ := h.shown n
    refine ⟨m + 1, ?_⟩
    rwa [elements_merge_succ hb, List.append_assoc, List.prefix_append_right_inj]
  bounded n := by
    cases n with
    | zero =>
      refine ⟨0, ?_⟩
      rw [elements_merge_zero hb, List.append_assoc]
      exact List.prefix_append _ _
    | succ n =>
      obtain ⟨m, less⟩ := h.bounded n
      refine ⟨m, ?_⟩
      rwa [elements_merge_succ hb, List.append_assoc, List.prefix_append_right_inj]
  ends hu := by
    obtain ⟨n, ends⟩ := h.ends hu
    exact ⟨n + 1, (endsWithin_merge_succ hb).mpr ends⟩

/-- The first stream ends before the second shows anything. -/
lemma merge_left (hs : s.EndsWithin unfold i) (ht : t.elements unfold i = []) :
    (s.merge t).Passes unfold (s.elements unfold i) t := by
  induction i generalizing s t with
  | zero => exact merge_ended hs
  | succ i ih =>
    rcases hb : s.back with _ | c
    · rw [elements_of_ended unfold hb]
      exact merge_ended hb
    · rw [elements_of_forced unfold hb]
      refine merge_forced hb ?_
      have front : t.front = [] := elements_eq_nil_of_le ht i.succ.zero_le
      rcases hd : t.back with _ | d
      · have others := (merge_ended hd).trans (of_ends (t := t) (hs c hb) front hd)
        rwa [front] at others
      · rw [elements_of_forced unfold hd, front] at ht
        have others := merge_forced hd ((ih (hs c hb) ht).of_forced front hd)
        rwa [front] at others

lemma merge_right (ht : t.EndsWithin unfold i) (silent : t.elements unfold i = []) :
    (s.merge t).Passes unfold [] s := by
  have none (n : Nat) : t.elements unfold n = [] := List.prefix_nil.mp (silent ▸ ht.initial n)
  -- in their turns, all elements are of the first stream
  have turns (n : Nat) : Turns unfold n s t ((s.merge t).elements unfold n) [] := by
    obtain ⟨as, bs, h⟩ := exists_turns unfold n s t
    obtain rfl : bs = [] := List.prefix_nil.mp (none n ▸ h.second)
    rwa [h.shuffle.eq_of_nil_right]
  refine ⟨fun n => ⟨2 * n, (turns (2 * n)).first_soon n (Nat.le_refl _)⟩,
    fun n => ⟨n, (turns n).first⟩, fun ends => ends_merge.mpr ⟨ends, i, ht⟩⟩

lemma bind_one {a : α} (hs : s.EndsWithin unfold i) (one : s.elements unfold i = [a]) :
    (s.bind k).stream.Passes unfold [] (k a).stream := by
  induction i using Nat.strongRecOn generalizing s with
  | ind i ih =>
    fun_induction Stream.bind k s with
    | case1 => simp at one
    | case2 b d first others =>
      obtain ⟨rfl, silent⟩ : b = a ∧ d.elements unfold i = [] := by simpa using one
      obtain ⟨j, ends, none⟩ := exists_bind_none (k := k) ((endsWithin_node unfold).mp hs) silent
      exact merge_right ends none
    | case3 c =>
      cases i with
      | zero => exact absurd hs (not_endsWithin_suspended_zero unfold)
      | succ i =>
        rw [endsWithin_suspended_succ] at hs
        rw [elements_suspended_succ] at one
        exact suspended (ih i i.lt_succ_self hs one)

end Passes

end Stream

namespace Burst

variable {b c d : Burst σ α} {k : α → Burst σ α}

/-! ### Nothing stops a search -/

lemma calm_zero (b : Burst σ α) : b.Calm unfold 0 := fun _ h => by simp at h

lemma Calm.mono {m : Nat} (h : b.Calm unfold n) (hmn : m ≤ n) : b.Calm unfold m :=
  fun why hw => h why ((log_initial unfold hmn b).subset hw)

lemma calm_suspended {x : Suspension σ α} (h : (x.force unfold).Calm unfold n) :
    (quiet (.suspended x)).Calm unfold (n + 1) := h

lemma Calm.after (h : b.Calm unfold n) {e : Event} (he : ∀ why, e ≠ .halted why) :
    (b.after e).Calm unfold n := by
  cases n with
  | zero => exact calm_zero _
  | succ n =>
    intro why hw
    rcases List.mem_cons.mp hw with here | later
    · exact he why (Sum.inl.inj here).symm
    · exact h why later

lemma Calm.quiet (h : b.Calm unfold n) : (quiet b.stream).Calm unfold n := by
  cases n with
  | zero => exact calm_zero _
  | succ n =>
    intro why hw
    refine h why ?_
    rw [log_succ, List.append_assoc]
    exact List.mem_append_right _ hw

lemma Calm.stream?_eq (h : b.Calm unfold 1) : b.stream? = .ok b.stream := by
  have told : Event.halt? b.events = none :=
    Event.halt?_eq_none.mpr fun why hw => h why (by simp [log_succ, hw])
  rw [stream?, told]

lemma Calm.merge (hb : b.Calm unfold n) (hc : c.Calm unfold n) : (b.merge c).Calm unfold n :=
  fun why hw => (mem_log_merge hw).elim (hb why) (hc why)

lemma Calm.bind (hb : b.Calm unfold n) (hk : ∀ a, b.Shows unfold (.inr a) → (k a).Calm unfold n) :
    (b.bind k).Calm unfold n := by
  intro why hw
  rcases mem_log_bind hw with ⟨e, ⟨⟩, here⟩ | ⟨a, ha, later⟩
  · exact hb why here
  · exact hk a ⟨n, ha⟩ why later

/-! ### Searches that go on as others -/

lemma Collects.calm (h : b.Collects unfold as) (n : Nat) : b.Calm unfold n :=
  fun why hw => (collects_iff.mp h).2 why ⟨n, hw⟩

lemma Collects.elements_eq (h : b.Collects unfold as) (hb : b.stream.EndsWithin unfold i) :
    b.stream.elements unfold i = as := by
  obtain ⟨⟨j, ends, rfl⟩, -⟩ := collects_iff.mp h
  exact (hb.initial j).sublist.antisymm (ends.initial i).sublist |>.symm

namespace Passes

lemma refl (b : Burst σ α) : b.Passes unfold [] b := ⟨.refl _, id⟩

lemma suspended {x : Suspension σ α} (h : (x.force unfold).Passes unfold as c) :
    (quiet (.suspended x)).Passes unfold as c where
  stream := h.stream.suspended
  calm {n} hc := by
    cases n with
    | zero => exact calm_zero _
    | succ n => exact calm_suspended (h.calm (hc.mono n.le_succ))

lemma after (h : b.Passes unfold as c) {e : Event} (he : ∀ why, e ≠ .halted why) :
    (b.after e).Passes unfold as c := ⟨h.stream, fun hc => (h.calm hc).after he⟩

lemma merge_left (hb : b.Collects unfold as) (ends : b.stream.EndsWithin unfold i)
    (silent : c.stream.elements unfold i = []) (h : c.Passes unfold bs d) :
    (b.merge c).Passes unfold (as ++ bs) d where
  stream := by
    have first := Stream.Passes.merge_left ends silent
    rw [hb.elements_eq ends] at first
    exact first.trans h.stream
  calm hd := (hb.calm _).merge (h.calm hd)

lemma bind_one {a : α} (hb : b.Collects unfold [a]) (h : (k a).Passes unfold bs c) :
    (b.bind k).Passes unfold bs c where
  stream := by
    obtain ⟨⟨i, ends, one⟩, -⟩ := collects_iff.mp hb
    exact (Stream.Passes.bind_one ends one).trans h.stream
  calm hc := by
    refine (hb.calm _).bind fun a' ha => ?_
    obtain rfl := List.mem_singleton.mp (hb.mem_iff.mp ha)
    exact h.calm hc

lemma collects (h : b.Passes unfold as c) (hc : c.Collects unfold bs) :
    b.Collects unfold (as ++ bs) := by
  obtain ⟨⟨i, ends, rfl⟩, -⟩ := collects_iff.mp hc
  obtain ⟨j, endsB⟩ := h.stream.ends ⟨i, ends⟩
  obtain ⟨m, more⟩ := h.stream.shown i
  obtain ⟨l, less⟩ := h.stream.bounded j
  have all := less.trans ((List.prefix_append_right_inj as).mpr (ends.initial l))
  refine collects_iff.mpr ⟨⟨j, endsB, ?_⟩, fun why hw => ?_⟩
  · exact all.sublist.antisymm (more.trans (endsB.initial m)).sublist
  · obtain ⟨n, hn⟩ := hw
    exact h.calm (hc.calm n) why hn

lemma begins (h : b.Passes unfold as c) (hc : c.Begins unfold n bs) :
    b.Begins unfold n (as ++ bs) where
  shown := by
    obtain ⟨m, hm⟩ := hc.shown
    obtain ⟨l, hl⟩ := h.stream.shown m
    exact ⟨l, ((List.prefix_append_right_inj as).mpr hm).trans hl⟩
  calm := h.calm hc.calm

end Passes

lemma collects_bind_none (hb : b.Collects unfold []) : (b.bind k).Collects unfold [] := by
  obtain ⟨⟨i, ends, none⟩, -⟩ := collects_iff.mp hb
  refine collects_iff.mpr ⟨Stream.exists_bind_none ends none, fun why ⟨n, hn⟩ => ?_⟩
  refine (hb.calm n).bind (fun a ha => ?_) why hn
  exact absurd (hb.mem_iff.mp ha) List.not_mem_nil

namespace Begins

lemma zero (b : Burst σ α) : b.Begins unfold 0 [] := ⟨⟨0, List.nil_prefix⟩, calm_zero b⟩

lemma suspended {x : Suspension σ α} (h : (x.force unfold).Begins unfold n as) :
    (quiet (.suspended x)).Begins unfold (n + 1) as :=
  ⟨h.shown.imp' (· + 1) fun _ => id, calm_suspended h.calm⟩

lemma after (h : b.Begins unfold n as) {e : Event} (he : ∀ why, e ≠ .halted why) :
    (b.after e).Begins unfold n as := ⟨h.shown, h.calm.after he⟩

end Begins

lemma Collects.begins (h : b.Collects unfold as) : b.Begins unfold n as := by
  obtain ⟨⟨i, -, rfl⟩, -⟩ := collects_iff.mp h
  exact ⟨⟨i, List.prefix_refl _⟩, h.calm n⟩

/-- The first elements can be collected within some budget, if nothing ever stops the search. -/
lemma exists_take (h : ∃ m, as <+: b.stream.elements unfold m) (calm : ∀ n, b.Calm unfold n) :
    ∃ budget r, b.take unfold as.length budget = .ok r ∧ r.items.toList = as := by
  obtain ⟨m, hm⟩ := h
  obtain ⟨j, hj, serves⟩ := Stream.exists_serves hm.length_le
  refine ⟨j, _, (take_of_serves serves (calm _)).trans (if_pos (Nat.le_refl j)), ?_⟩
  have shown : (b.stream.elements unfold j).take as.length = as := by
    rw [← serves.take_eq hj, ← List.prefix_iff_eq_take.mp hm]
  simpa [firsts] using shown

/-! ### What is told of searches -/

/-- What `D` tells of a search follows from what it tells of its parts. Where a suspension is forced
before, `D'` tells the same. -/
structure Account (unfold : σ → Burst σ α) (D D' : Burst σ α → List α → Prop) : Prop where
  merge {b c : Burst σ α} {as bs : List α} {i : Nat} (hb : b.Collects unfold as)
    (ends : b.stream.EndsWithin unfold i) (silent : c.stream.elements unfold i = []) (hc : D c bs) :
    D (b.merge c) (as ++ bs)
  bind_one {b : Burst σ α} {k : α → Burst σ α} {a : α} {as : List α} (hb : b.Collects unfold [a])
    (hk : D (k a) as) : D (b.bind k) as
  bind_none {b : Burst σ α} {k : α → Burst σ α} (hb : b.Collects unfold []) : D (b.bind k) []
  after {b : Burst σ α} {as : List α} {e : Event} (he : ∀ why, e ≠ .halted why) (h : D b as) :
    D (b.after e) as
  suspended {x : Suspension σ α} {as : List α} (h : D (x.force unfold) as) :
    D' (quiet (.suspended x)) as

lemma Collects.gives (h : b.Collects unfold as) : b.Gives unfold as := ⟨as, h, .refl _⟩

/-- Searches that come to an end, whatever the order is. -/
lemma account_gives : Account unfold (Gives unfold) (Gives unfold) where
  merge hb _ _ hc := hb.gives.merge hc
  bind_one hb hk := by
    have all := hb.gives.bind (.cons hk .nil)
    rwa [List.flatten_singleton] at all
  bind_none hb := hb.gives.bind .nil
  after he h := h.after he
  suspended h := h.suspended

/-- How searches begin, one burst later where a suspension is forced. -/
lemma account_begins (n : Nat) :
    Account unfold (Begins unfold n) (Begins unfold (n + 1)) where
  merge hb ends silent hc := by
    have first := Passes.merge_left hb ends silent (.refl _)
    rw [List.append_nil] at first
    exact first.begins hc
  bind_one hb hk := (Passes.bind_one hb (.refl _)).begins hk
  bind_none hb := (collects_bind_none hb).begins
  after he h := h.after he
  suspended h := h.suspended

end Burst

end Relational
