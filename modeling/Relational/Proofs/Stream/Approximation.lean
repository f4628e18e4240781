import Mathlib.Data.List.Flatten
import Relational.Proofs.Stream.Bind

/-!
Lists that approximate a stream, for whoever cares neither for the order of the elements nor for
when they come. Interleaving streams is appending such lists, and going on with each element
replaces each by a list; so two streams give every element equally often if the lists that
approximate them are the same up to order.
-/

namespace Relational

open scoped List

variable {σ α : Type} {unfold : σ → Burst σ α}

lemma subperm_flatMap_left {β γ : Type} {l l' : List β} (h : l <+~ l') (f : β → List γ) :
    l.flatMap f <+~ l'.flatMap f := by
  obtain ⟨m, hp, hs⟩ := h
  exact ⟨m.flatMap f, hp.flatMap_right f, hs.flatMap f⟩

lemma subperm_flatMap_right {β γ : Type} (l : List β) {f g : β → List γ}
    (h : ∀ b, f b <+~ g b) : l.flatMap f <+~ l.flatMap g := by
  induction l with
  | nil => exact List.Subperm.refl _
  | cons b l ih => exact (h b).append ih

lemma replicate_sublist_of_subperm {β : Type} {m : Nat} {b : β} {l l' : List β}
    (h : List.replicate m b <+ l) (hl : l <+~ l') : List.replicate m b <+ l' := by
  obtain ⟨r, hp, hs⟩ := h.subperm.trans hl
  rwa [List.perm_replicate.mp hp] at hs

namespace Stream

/-- Up to order, forcing `n` suspensions shows nothing that is not in `X n`, and sooner or later
all of `X n` is shown. -/
structure Approximated (unfold : σ → Burst σ α) (s : Stream σ α) (X : Nat → List α) : Prop where
  bounded (n : Nat) : s.elements unfold n <+~ X n
  reached (n : Nat) : ∃ m, X n <+~ s.elements unfold m

variable {s t : Stream σ α} {X Y : Nat → List α}

lemma approximated_self (s : Stream σ α) : s.Approximated unfold (s.elements unfold ·) :=
  ⟨fun _ => List.Subperm.refl _, fun n => ⟨n, List.Subperm.refl _⟩⟩

lemma Approximated.suspended {c : Suspension σ α}
    (h : (c.force unfold).stream.Approximated unfold X) :
    (suspended c).Approximated unfold X where
  bounded n := by
    cases n with
    | zero => simp
    | succ n =>
      have sooner := elements_initial unfold n.le_succ (c.force unfold).stream
      exact sooner.sublist.subperm.trans (h.bounded (n + 1))
  reached n := by
    obtain ⟨m, hm⟩ := h.reached n
    exact ⟨m + 1, hm⟩

lemma Approximated.merge (hs : s.Approximated unfold X) (ht : t.Approximated unfold Y) :
    (s.merge t).Approximated unfold fun n => X n ++ Y n where
  bounded n := by
    obtain ⟨as, bs, turns⟩ := exists_turns unfold n s t
    refine turns.shuffle.perm.subperm.trans (List.Subperm.append ?_ ?_)
    · exact turns.first.sublist.subperm.trans (hs.bounded n)
    · exact turns.second.sublist.subperm.trans (ht.bounded n)
  reached n := by
    obtain ⟨i, hi⟩ := hs.reached n
    obtain ⟨j, hj⟩ := ht.reached n
    -- so many suspensions that both streams have had their turns
    obtain ⟨as, bs, turns⟩ := exists_turns unfold (2 * (i + j) + 1) s t
    refine ⟨_, .trans (List.Subperm.append ?_ ?_) turns.shuffle.perm.symm.subperm⟩
    · exact hi.trans (turns.first_soon i (by omega)).sublist.subperm
    · exact hj.trans (turns.second_soon j (by omega)).sublist.subperm

/-- What is reached by each of finitely many streams is reached by all at once. -/
lemma exists_subperm_flatMap {k : α → Burst σ α} {Z : α → List α}
    (h : ∀ a, ∃ m, Z a <+~ (k a).stream.elements unfold m) (l : List α) :
    ∃ m, l.flatMap Z <+~ l.flatMap fun a => (k a).stream.elements unfold m := by
  induction l with
  | nil => exact ⟨0, List.Subperm.refl _⟩
  | cons a l ih =>
    obtain ⟨i, hi⟩ := h a
    obtain ⟨j, hj⟩ := ih
    have later (a : α) {i m : Nat} (him : i ≤ m) :
        (k a).stream.elements unfold i <+~ (k a).stream.elements unfold m :=
      (elements_initial unfold him _).sublist.subperm
    refine ⟨max i j, List.Subperm.append ?_ ?_⟩
    · exact hi.trans (later a (Nat.le_max_left i j))
    · exact hj.trans (subperm_flatMap_right l fun a => later a (Nat.le_max_right i j))

lemma Approximated.bind {k : α → Burst σ α} {Z : α → Nat → List α}
    (hs : s.Approximated unfold X) (hk : ∀ a, (k a).stream.Approximated unfold (Z a)) :
    (s.bind k).stream.Approximated unfold fun n => (X n).flatMap fun a => Z a n where
  bounded n := by
    refine (elements_bind_subperm unfold k n s).trans ?_
    exact (subperm_flatMap_left (hs.bounded n) _).trans
      (subperm_flatMap_right _ fun a => (hk a).bounded n)
  reached n := by
    obtain ⟨i, hi⟩ := hs.reached n
    obtain ⟨j, hj⟩ := exists_subperm_flatMap (fun a => (hk a).reached n) (s.elements unfold i)
    obtain ⟨m, hm⟩ := exists_subperm_elements_bind unfold k (max i j) s
    refine ⟨m, (subperm_flatMap_left hi _).trans (hj.trans (.trans ?_ hm))⟩
    have more := elements_initial unfold (Nat.le_max_left i j) s
    refine (subperm_flatMap_left more.sublist.subperm _).trans
      (subperm_flatMap_right _ fun a => ?_)
    exact (elements_initial unfold (Nat.le_max_right i j) _).sublist.subperm

lemma Approximated.replicate_iff (h : s.Approximated unfold X) (m : Nat) (a : α) :
    (∃ n, List.replicate m a <+ s.elements unfold n) ↔ ∃ n, List.replicate m a <+ X n := by
  constructor
  · rintro ⟨n, hn⟩
    exact ⟨n, replicate_sublist_of_subperm hn (h.bounded n)⟩
  · rintro ⟨n, hn⟩
    obtain ⟨i, hi⟩ := h.reached n
    exact ⟨i, replicate_sublist_of_subperm hn hi⟩

lemma Approximated.replicate_congr (hs : s.Approximated unfold X) (ht : t.Approximated unfold Y)
    (h : ∀ n, X n ~ Y n) (m : Nat) (a : α) :
    (∃ n, List.replicate m a <+ s.elements unfold n) ↔
      ∃ n, List.replicate m a <+ t.elements unfold n := by
  rw [hs.replicate_iff, ht.replicate_iff]
  refine exists_congr fun n => ⟨fun hn => ?_, fun hn => ?_⟩
  · exact replicate_sublist_of_subperm hn (h n).subperm
  · exact replicate_sublist_of_subperm hn (h n).symm.subperm

end Stream

end Relational
