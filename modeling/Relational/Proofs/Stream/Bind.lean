import Relational.Proofs.Stream.Merge

/-!
Going on with each element of a stream, element by element. What the result gives are the
elements of the streams of all elements, each occurrence once; each of them is given sooner or
later, however many streams do not end. The result ends exactly if all these streams do.
-/

namespace Relational

open scoped List

variable {σ α : Type} {unfold : σ → Burst σ α} {k : α → Burst σ α} {n : Nat}

lemma subperm_filterMap {β γ : Type} {l l' : List β} (h : l <+~ l') (f : β → Option γ) :
    l.filterMap f <+~ l'.filterMap f := by
  obtain ⟨m, hp, hs⟩ := h
  exact ⟨m.filterMap f, hp.filterMap f, hs.filterMap f⟩

namespace Burst

lemma filterMap_spread (n : Nat) (l : List (Event ⊕ α)) :
    (spread unfold (n + 1) k l).filterMap Sum.getRight? =
      (l.filterMap Sum.getRight?).flatMap fun a => (k a).stream.elements unfold n := by
  induction l with
  | nil => rfl
  | cons o l ih =>
    cases o with
    | inl e => exact ih
    | inr a => simp [List.filterMap_append, filterMap_log, ih]

end Burst

namespace Stream

variable (unfold k) in
/-- Going on gives nothing but what the streams of the elements give, as soon. -/
lemma elements_bind_subperm (n : Nat) (s : Stream σ α) :
    (s.bind k).stream.elements unfold n <+~
      (s.elements unfold n).flatMap fun a => (k a).stream.elements unfold n := by
  have logs : ((Burst.quiet s).bind k).log unfold (n + 1) <+~
      Burst.spread unfold (n + 1) k ((Burst.quiet s).log unfold (n + 1)) :=
    Burst.log_bind_subperm (n + 1) (.quiet s)
  have shown := subperm_filterMap logs Sum.getRight?
  rwa [Burst.filterMap_spread, Burst.filterMap_log, Burst.filterMap_log] at shown

variable (unfold k) in
/-- Going on gives, sooner or later, what the streams of the elements give. -/
lemma exists_subperm_elements_bind (n : Nat) (s : Stream σ α) :
    ∃ m, ((s.elements unfold n).flatMap fun a => (k a).stream.elements unfold n) <+~
      (s.bind k).stream.elements unfold m := by
  obtain ⟨m, logs⟩ : ∃ m, Burst.spread unfold (n + 1) k ((Burst.quiet s).log unfold (n + 1)) <+~
      ((Burst.quiet s).bind k).log unfold m :=
    Burst.exists_subperm_log_bind (n + 1) (n + 1) (.quiet s)
  have longer := logs.trans (Burst.log_subperm unfold m.le_succ _)
  have shown := subperm_filterMap longer Sum.getRight?
  rw [Burst.filterMap_spread, Burst.filterMap_log, Burst.filterMap_log] at shown
  exact ⟨m, shown⟩

/-! ### Ends -/

lemma endsWithin_of_bind {s : Stream σ α} (h : (s.bind k).stream.EndsWithin unfold n) :
    s.EndsWithin unfold n ∧ ∀ a ∈ s.elements unfold n, (k a).stream.EndsWithin unfold n := by
  induction n using Nat.strongRecOn generalizing s with
  | ind n ih =>
    fun_induction Stream.bind k s with
    | case1 => simp
    | case2 a d _ _ hd =>
      obtain ⟨ha, hothers⟩ := endsWithin_of_merge h
      obtain ⟨ends, each⟩ := hd hothers
      rw [endsWithin_node, elements_node, List.forall_mem_cons]
      exact ⟨ends, ha, each⟩
    | case3 c =>
      cases n with
      | zero => exact absurd h (not_endsWithin_suspended_zero unfold)
      | succ n =>
        have forced : ((c.force unfold).stream.bind k).stream.EndsWithin unfold n :=
          (endsWithin_suspended_succ unfold).mp h
        obtain ⟨ends, each⟩ := ih n n.lt_succ_self forced
        rw [endsWithin_suspended_succ, elements_suspended_succ]
        exact ⟨ends, fun a ha => (each a ha).mono n.le_succ⟩

lemma ends_bind_of_endsWithin {s : Stream σ α} (h : s.EndsWithin unfold n)
    (each : ∀ a ∈ s.elements unfold n, (k a).stream.Ends unfold) :
    (s.bind k).stream.Ends unfold := by
  induction n using Nat.strongRecOn generalizing s with
  | ind n ih =>
    fun_induction Stream.bind k s with
    | case1 => exact ⟨0, rfl⟩
    | case2 a d _ _ hd =>
      rw [endsWithin_node] at h
      rw [elements_node, List.forall_mem_cons] at each
      exact ends_merge.mpr ⟨each.1, hd h each.2⟩
    | case3 c =>
      cases n with
      | zero => exact absurd h (not_endsWithin_suspended_zero unfold)
      | succ n =>
        rw [endsWithin_suspended_succ] at h
        rw [elements_suspended_succ] at each
        obtain ⟨m, ends⟩ := ih n n.lt_succ_self h each
        exact ⟨m + 1, (endsWithin_suspended_succ unfold).mpr ends⟩

lemma ends_bind {s : Stream σ α} : (s.bind k).stream.Ends unfold ↔
    s.Ends unfold ∧ ∀ n, ∀ a ∈ s.elements unfold n, (k a).stream.Ends unfold := by
  constructor
  · rintro ⟨n, h⟩
    obtain ⟨ends, each⟩ := endsWithin_of_bind h
    exact ⟨⟨n, ends⟩, fun m a ha => ⟨n, each a (ends.mem_elements ha)⟩⟩
  · rintro ⟨⟨n, ends⟩, each⟩
    exact ends_bind_of_endsWithin ends (each n)

end Stream

namespace Burst

variable {b : Burst σ α}

lemma finishes_bind : (b.bind k).Finishes unfold ↔
    b.Finishes unfold ∧ ∀ a, b.Shows unfold (.inr a) → (k a).Finishes unfold := by
  have ends : (b.bind k).stream.Ends unfold ↔ b.stream.Ends unfold ∧
      ∀ a, b.Shows unfold (.inr a) → (k a).stream.Ends unfold := by
    have same : (b.bind k).stream = (b.stream.bind k).stream := rfl
    simp only [same, Stream.ends_bind, shows_inr_iff]
    exact and_congr_right' ⟨fun h a ⟨n, ha⟩ => h n a ha, fun h n a ha => h a ⟨n, ha⟩⟩
  simp only [finishes_iff, ends, shows_bind]
  constructor
  · rintro ⟨⟨hb, each⟩, calm⟩
    exact ⟨⟨hb, fun why h => calm why (.inl ⟨_, rfl, h⟩)⟩,
      fun a ha => ⟨each a ha, fun why h => calm why (.inr ⟨a, ha, h⟩)⟩⟩
  · rintro ⟨⟨hb, calm⟩, each⟩
    refine ⟨⟨hb, fun a ha => (each a ha).1⟩, ?_⟩
    rintro why (⟨_, ⟨⟩, h⟩ | ⟨a, ha, h⟩)
    · exact calm why h
    · exact (each a ha).2 why h

lemma Collects.mem_iff {as : List α} (h : b.Collects unfold as) {a : α} :
    b.Shows unfold (.inr a) ↔ a ∈ as := by
  obtain ⟨⟨n, ends, rfl⟩, -⟩ := collects_iff.mp h
  rw [shows_inr_iff]
  exact ⟨fun ⟨m, hm⟩ => ends.mem_elements hm, fun ha => ⟨n, ha⟩⟩

lemma Collects.eq_elements {as : List α} (h : b.Collects unfold as) :
    ∃ n, ∀ m, n ≤ m → b.stream.elements unfold m = as := by
  obtain ⟨⟨n, ends, rfl⟩, -⟩ := collects_iff.mp h
  exact ⟨n, fun m hm => ends.elements_eq hm⟩

lemma exists_flatMap_eq {as : List α} {ls : List (List α)}
    (h : List.Forall₂ (fun a l => (k a).Collects unfold l) as ls) :
    ∃ n, ∀ m, n ≤ m → (as.flatMap fun a => (k a).stream.elements unfold m) = ls.flatten := by
  induction h with
  | nil => exact ⟨0, fun _ _ => rfl⟩
  | @cons a l as ls ha _ ih =>
    obtain ⟨i, hi⟩ := ha.eq_elements
    obtain ⟨j, hj⟩ := ih
    refine ⟨max i j, fun m hm => ?_⟩
    rw [List.flatMap_cons, List.flatten_cons, hi m (by omega), hj m (by omega)]

lemma Collects.perm_bind {as l : List α} {ls : List (List α)} (hb : b.Collects unfold as)
    (hk : List.Forall₂ (fun a l => (k a).Collects unfold l) as ls)
    (h : (b.bind k).Collects unfold l) : l ~ ls.flatten := by
  obtain ⟨i, hi⟩ := hb.eq_elements
  obtain ⟨j, hj⟩ := exists_flatMap_eq hk
  obtain ⟨m, hm⟩ := h.eq_elements
  -- forced so often that every search has ended
  obtain ⟨n, hin, hjn, hmn⟩ : ∃ n, i ≤ n ∧ j ≤ n ∧ m ≤ n :=
    ⟨i + j + m, by omega, by omega, by omega⟩
  have all : ((b.stream.elements unfold n).flatMap fun a => (k a).stream.elements unfold n) =
      ls.flatten := by
    rw [hi n hin, hj n hjn]
  have some (r : Nat) (hr : n ≤ r) : (b.stream.bind k).stream.elements unfold r = l :=
    hm r (Nat.le_trans hmn hr)
  have less := Stream.elements_bind_subperm unfold k n b.stream
  rw [all, some n (Nat.le_refl n)] at less
  obtain ⟨r, more⟩ := Stream.exists_subperm_elements_bind unfold k n b.stream
  have later : (b.stream.bind k).stream.elements unfold r <+: l := by
    rw [← some (max n r) (Nat.le_max_left n r)]
    exact Stream.elements_initial unfold (Nat.le_max_right n r) _
  rw [all] at more
  exact less.antisymm (more.trans later.sublist.subperm)

lemma quiet_bind (s : Stream σ α) : (quiet s).bind k = s.bind k := ext rfl rfl

end Burst

/-- **Going on is exact and complete**: as far as any number of forced suspensions shows it, the
result gives no more than the streams of the elements do, each occurrence once, and all of that
sooner or later. It ends exactly if the stream and the streams of its elements end, and has the
elements of these then, up to order. -/
theorem Stream.bind_exact (unfold : σ → Burst σ α) (s : Stream σ α) (k : α → Burst σ α) :
    (∀ n, (s.bind k).stream.elements unfold n <+~
      (s.elements unfold n).flatMap fun a => (k a).stream.elements unfold n) ∧
    (∀ n, ∃ m, ((s.elements unfold n).flatMap fun a => (k a).stream.elements unfold n) <+~
      (s.bind k).stream.elements unfold m) ∧
    ((∃ l, (s.bind k).Collects unfold l) ↔
      ∃ as, (Burst.quiet s).Collects unfold as ∧ ∀ a ∈ as, ∃ l, (k a).Collects unfold l) ∧
    ∀ as ls l, (Burst.quiet s).Collects unfold as →
      List.Forall₂ (fun a l => (k a).Collects unfold l) as ls →
        (s.bind k).Collects unfold l → l ~ ls.flatten := by
  refine ⟨fun n => elements_bind_subperm unfold k n s,
    fun n => exists_subperm_elements_bind unfold k n s, ?_, fun as ls l hs hk h => ?_⟩
  · rw [← Burst.quiet_bind]
    refine Burst.finishes_bind.trans ⟨fun ⟨⟨as, hs⟩, each⟩ => ?_, fun ⟨as, hs, each⟩ => ?_⟩
    · exact ⟨as, hs, fun a ha => each a (hs.mem_iff.mpr ha)⟩
    · exact ⟨⟨as, hs⟩, fun a ha => each a (hs.mem_iff.mp ha)⟩
  · rw [← Burst.quiet_bind] at h
    exact hs.perm_bind hk h

/-- The numbers one and two, each followed by ten times itself, and some of it suspended. -/
theorem Stream.bind_exact_integers : ∃ l : List Int,
    ((node 1 (.suspended (.later fun _ => .quiet (singleton 2)))).bind fun x =>
      .quiet (.suspended (.later fun _ => .quiet (ofList [x, 10 * x])))).Collects
        Integers.Endless.unfold l ∧ l ~ [1, 10, 2, 20] := by
  obtain ⟨-, -, ends, perm⟩ := bind_exact Integers.Endless.unfold
    (node 1 (.suspended (.later fun _ => .quiet (singleton 2)))) fun x : Int =>
      .quiet (.suspended (.later fun _ => .quiet (ofList [x, 10 * x])))
  have outer : (Burst.quiet (node 1 (.suspended (.later fun _ =>
      .quiet (singleton 2))))).Collects Integers.Endless.unfold [(1 : Int), 2] :=
    ⟨1, _, rfl, rfl⟩
  have inner (x : Int) : (Burst.quiet (.suspended (.later fun _ =>
      .quiet (ofList [x, 10 * x])))).Collects Integers.Endless.unfold [x, 10 * x] :=
    ⟨1, _, rfl, rfl⟩
  obtain ⟨l, hl⟩ := ends.mpr ⟨[1, 2], outer, fun x _ => ⟨_, inner x⟩⟩
  exact ⟨l, hl, perm _ [[1, 10], [2, 20]] l outer (.cons (inner 1) (.cons (inner 2) .nil)) hl⟩

end Relational
