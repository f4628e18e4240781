import Mathlib.Data.List.Perm.Subperm
import Relational.Proofs.Stream.Log

/-!
Going on with each element of a search. What is shown then is what the search tells, and what
the searches of its elements show, each occurrence once; all of it is shown sooner or later.
-/

namespace Relational

open scoped List

variable {σ α : Type} (unfold : σ → Burst σ α)

namespace Burst

/-- Each element replaced by what the first `n` bursts of its own search show. -/
def spread (n : Nat) (k : α → Burst σ α) (l : List (Event ⊕ α)) : List (Event ⊕ α) :=
  l.flatMap fun
    | .inl e => [.inl e]
    | .inr a => (k a).log unfold n

variable (n : Nat) (k : α → Burst σ α)

@[simp] lemma spread_nil : spread unfold n k [] = [] := rfl

@[simp] lemma spread_cons_inr (a : α) (l : List (Event ⊕ α)) :
    spread unfold n k (.inr a :: l) = (k a).log unfold n ++ spread unfold n k l := rfl

@[simp] lemma spread_append (l l' : List (Event ⊕ α)) :
    spread unfold n k (l ++ l') = spread unfold n k l ++ spread unfold n k l' :=
  List.flatMap_append

@[simp] lemma spread_events (es : List Event) :
    spread unfold n k (es.map .inl) = es.map .inl := by
  rw [spread, List.flatMap_map, List.map_eq_flatMap]

lemma mem_spread {o : Event ⊕ α} {l : List (Event ⊕ α)} : o ∈ spread unfold n k l ↔
    (∃ e, o = .inl e ∧ .inl e ∈ l) ∨ ∃ a, .inr a ∈ l ∧ o ∈ (k a).log unfold n := by
  simp [spread, List.mem_flatMap, Sum.exists, and_comm]

variable {n}

lemma spread_subperm {m : Nat} (h : n ≤ m) (l : List (Event ⊕ α)) :
    spread unfold n k l <+~ spread unfold m k l := by
  induction l with
  | nil => exact List.Subperm.refl _
  | cons o l ih =>
    refine List.Subperm.append ?_ ih
    cases o with
    | inl e => exact List.Subperm.refl _
    | inr a => exact log_subperm unfold h _

variable {unfold k}

lemma log_bind_succ (b : Burst σ α) (n : Nat) : (b.bind k).log unfold (n + 1) =
    b.events.map .inl ++ (b.stream.bind k).log unfold (n + 1) := by
  simp [log_succ, bind]

/-- Going on shows nothing but what the search tells and its elements show, as soon. -/
theorem log_bind_subperm (n : Nat) (b : Burst σ α) :
    (b.bind k).log unfold n <+~ spread unfold n k (b.log unfold n) := by
  induction n generalizing b with
  | zero => simp
  | succ n ih =>
    -- the elements at hand one by one, then what is suspended behind them
    have here (s : Stream σ α) : (s.bind k).log unfold (n + 1) <+~
        spread unfold (n + 1) k (s.front.map .inr ++ s.rest unfold n) := by
      fun_induction Stream.bind k s with
      | case1 => simp [quiet, log_succ, Stream.front, Stream.rest, Stream.back]
      | case2 a d _ _ hd =>
        refine (log_merge_subperm (n + 1) (k a) (d.bind k)).trans ?_
        exact List.Subperm.append (List.Subperm.refl _) hd
      | case3 c => exact (ih (c.force unfold)).trans (spread_subperm unfold k n.le_succ _)
    rw [log_bind_succ, log_succ unfold n b, List.append_assoc, spread_append, spread_events]
    exact List.Subperm.append (List.Subperm.refl _) (here b.stream)

/-- Going on shows, sooner or later, all that the elements shown so far show. -/
theorem exists_subperm_log_bind (j n : Nat) (b : Burst σ α) :
    ∃ m, spread unfold j k (b.log unfold n) <+~ (b.bind k).log unfold m := by
  induction n generalizing b with
  | zero => exact ⟨0, by simp⟩
  | succ n ih =>
    have here (s : Stream σ α) : ∃ m, spread unfold j k (s.front.map .inr ++ s.rest unfold n) <+~
        (s.bind k).log unfold (m + 1) := by
      fun_induction Stream.bind k s with
      | case1 => exact ⟨0, by simp [Stream.front, Stream.rest, Stream.back]⟩
      | case2 a d _ _ hd =>
        obtain ⟨m, hm⟩ := hd
        -- the first search is not late, and the others are at most twice as late
        refine ⟨2 * j + 2 * m + 1, ?_⟩
        refine .trans ?_ (subperm_log_merge (i := j) (j := m + 1) (by omega) (by omega) _ _)
        exact List.Subperm.append (List.Subperm.refl _) hm
      | case3 c => exact ih (c.force unfold)
    obtain ⟨m, hm⟩ := here b.stream
    refine ⟨m + 1, ?_⟩
    rw [log_bind_succ, log_succ unfold n b, List.append_assoc, spread_append, spread_events]
    exact List.Subperm.append (List.Subperm.refl _) hm

lemma mem_log_merge {b c : Burst σ α} {o : Event ⊕ α} (h : o ∈ (b.merge c).log unfold n) :
    o ∈ b.log unfold n ∨ o ∈ c.log unfold n :=
  List.mem_append.mp ((log_merge_subperm n b c).subset h)

lemma mem_log_bind {b : Burst σ α} {o : Event ⊕ α} (h : o ∈ (b.bind k).log unfold n) :
    (∃ e, o = .inl e ∧ .inl e ∈ b.log unfold n) ∨
      ∃ a, .inr a ∈ b.log unfold n ∧ o ∈ (k a).log unfold n :=
  (mem_spread ..).mp ((log_bind_subperm n b).subset h)

end Burst

/-! ### What is shown at all -/

/-- After finitely many bursts the search shows an event or an element. -/
def Burst.Shows (b : Burst σ α) (o : Event ⊕ α) : Prop := ∃ n, o ∈ b.log unfold n

namespace Burst

variable {unfold} {o : Event ⊕ α}

@[simp] lemma not_shows_empty : ¬(quiet .empty : Burst σ α).Shows unfold o := by
  rintro ⟨_ | n, h⟩ <;> simp [log_succ, quiet, Stream.front, Stream.rest, Stream.back] at h

@[simp] lemma shows_singleton {a : α} :
    (quiet (.singleton a)).Shows unfold o ↔ o = .inr a := by
  constructor
  · rintro ⟨_ | n, h⟩ <;>
      simp_all [log_succ, quiet, Stream.singleton, Stream.front, Stream.rest, Stream.back]
  · rintro rfl
    exact ⟨1, by simp [log_succ, quiet, Stream.singleton, Stream.front]⟩

@[simp] lemma shows_suspended {c : Suspension σ α} :
    (quiet (.suspended c)).Shows unfold o ↔ (c.force unfold).Shows unfold o := by
  constructor
  · rintro ⟨_ | n, h⟩
    · simp at h
    · exact ⟨n, h⟩
  · rintro ⟨n, h⟩
    exact ⟨n + 1, h⟩

@[simp] lemma shows_stop {why : Halt} :
    (stop why : Burst σ α).Shows unfold o ↔ o = .inl (.halted why) := by
  constructor
  · rintro ⟨_ | n, h⟩ <;> simp_all [log_succ, stop, Stream.front, Stream.rest, Stream.back]
  · rintro rfl
    exact ⟨1, by simp [log_succ, stop]⟩

@[simp] lemma shows_after {e : Event} {b : Burst σ α} :
    (b.after e).Shows unfold o ↔ o = .inl e ∨ b.Shows unfold o := by
  constructor
  · rintro ⟨_ | n, h⟩
    · simp at h
    · rcases List.mem_cons.mp h with h | h
      · exact .inl h
      · exact .inr ⟨n + 1, h⟩
  · rintro (rfl | ⟨_ | n, h⟩)
    · exact ⟨1, by simp [log_succ, after]⟩
    · simp at h
    · exact ⟨n + 1, List.mem_cons_of_mem _ h⟩

/-- **Interleaving is fair**: all that either search shows is shown, and nothing else. -/
@[simp] lemma shows_merge {b c : Burst σ α} :
    (b.merge c).Shows unfold o ↔ b.Shows unfold o ∨ c.Shows unfold o := by
  constructor
  · rintro ⟨n, h⟩
    exact (mem_log_merge h).imp (⟨n, ·⟩) (⟨n, ·⟩)
  · rintro (⟨n, h⟩ | ⟨n, h⟩)
    · have fair : b.log unfold n ++ c.log unfold 0 <+~ (b.merge c).log unfold (2 * n) :=
        subperm_log_merge (by omega) (by omega) b c
      exact ⟨2 * n, fair.subset (by simp [h])⟩
    · have fair : b.log unfold 0 ++ c.log unfold n <+~ (b.merge c).log unfold (2 * n) :=
        subperm_log_merge (by omega) (by omega) b c
      exact ⟨2 * n, fair.subset (by simp [h])⟩

/-- **Going on is fair**: what is shown is what the search tells, and what the search of any of
its elements shows. -/
@[simp] lemma shows_bind {b : Burst σ α} {k : α → Burst σ α} :
    (b.bind k).Shows unfold o ↔
      (∃ e, o = .inl e ∧ b.Shows unfold (.inl e)) ∨
        ∃ a, b.Shows unfold (.inr a) ∧ (k a).Shows unfold o := by
  constructor
  · rintro ⟨n, h⟩
    rcases mem_log_bind h with ⟨e, rfl, he⟩ | ⟨a, ha, ho⟩
    · exact .inl ⟨e, rfl, n, he⟩
    · exact .inr ⟨a, ⟨n, ha⟩, n, ho⟩
  · rintro (⟨e, rfl, n, h⟩ | ⟨a, ⟨n, ha⟩, j, ho⟩)
    · obtain ⟨m, hm⟩ : ∃ m, spread unfold 0 k (b.log unfold n) <+~ (b.bind k).log unfold m :=
        exists_subperm_log_bind 0 n b
      exact ⟨m, hm.subset ((mem_spread ..).mpr (.inl ⟨e, rfl, h⟩))⟩
    · obtain ⟨m, hm⟩ : ∃ m, spread unfold j k (b.log unfold n) <+~ (b.bind k).log unfold m :=
        exists_subperm_log_bind j n b
      exact ⟨m, hm.subset ((mem_spread ..).mpr (.inr ⟨a, ha, ho⟩))⟩

end Burst

end Relational
