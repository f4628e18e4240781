import Mathlib.Data.List.Perm.Basic
import Relational.Goal.Meaning
import Relational.Proofs.Subst.Solvable
import Relational.Proofs.Subst.Uniqueness

/-!
Equations posted as a conjunction. If they have a solution, every way to post them leads to one
state, whose solutions are those under which all equations hold. In which order and which way
round they were posted does not show in these solutions, and so neither in any answer.
-/

namespace Relational

open Subst Term

abbrev Equation := Term × Term

namespace Equation

def Plain (e : Equation) : Prop := e.1.hasWildcard = false ∧ e.2.hasWildcard = false

def Holds (θ : Valuation) (e : Equation) : Prop := (θ.apply e.1 == θ.apply e.2) = true

/-- The same equations in some order, each written either way round. -/
def Rearranged (E F : List Equation) : Prop :=
  ∃ G, E.Perm G ∧ List.Forall₂ (fun e f => f = e ∨ f = e.swap) G F

variable {θ : Valuation} {e : Equation} {E F : List Equation}

lemma Holds.swap (he : e.Plain) (h : e.Holds θ) : Holds θ e.swap := by
  rw [Holds, Valuation.beq_apply he.1, sameParts_comm] at h
  rwa [Holds, Prod.fst_swap, Valuation.beq_apply he.2]

lemma holds_swap (he : e.Plain) : Holds θ e.swap ↔ e.Holds θ :=
  ⟨fun h => (Prod.swap_swap e) ▸ h.swap ⟨he.2, he.1⟩, Holds.swap he⟩

lemma Rearranged.forall_iff (h : Rearranged E F) (hE : ∀ e ∈ E, e.Plain) :
    (∀ f ∈ F, f.Plain) ∧ ∀ θ : Valuation, (∀ e ∈ E, e.Holds θ) ↔ ∀ f ∈ F, f.Holds θ := by
  obtain ⟨G, hG, turned⟩ := h
  simp only [hG.mem_iff] at hE ⊢
  clear hG
  induction turned with
  | nil => exact ⟨by simp, by simp⟩
  | @cons e f G F hf _ ih =>
    obtain ⟨he, hG⟩ := List.forall_mem_cons.mp hE
    obtain ⟨plain, same⟩ := ih hG
    simp only [List.forall_mem_cons, ← same]
    rcases hf with rfl | rfl
    · exact ⟨⟨he, plain⟩, fun _ => Iff.rfl⟩
    · exact ⟨⟨⟨he.2, he.1⟩, plain⟩, fun θ => by rw [holds_swap he]⟩

end Equation

open Equation

variable {σ : Type} {θ : Valuation} {s r t : State} {E F : List Equation} {g h : Goal σ}

namespace Goal

/-- The goal is a conjunction, nested in any way, that posts the equations in this order. -/
inductive Posts : Goal σ → List Equation → Prop
  | succeed : Posts succeed []
  | eq (u v : Term) : Posts (eq u v) [(u, v)]
  | conj2 {g h : Goal σ} {E F : List Equation} (hg : Posts g E) (hh : Posts h F) :
      Posts (conj2 g h) (E ++ F)

lemma posts_conj (E : List Equation) : Posts (conj (E.map fun e => (eq e.1 e.2 : Goal σ))) E := by
  induction E with
  | nil => exact .succeed
  | cons e E ih =>
    cases E with
    | nil => exact .eq e.1 e.2
    | cons f E => exact (Posts.eq e.1 e.2).conj2 ih

end Goal

/-- The state `t` has the solutions of `s` under which the equations hold, and can be read. -/
structure State.Settles (E : List Equation) (s t : State) : Prop where
  next : t.next = s.next
  wildcardFree : t.subst.WildcardFree
  acyclic : t.subst.Acyclic
  solves_iff (θ : Valuation) : θ.Solves t.subst ↔ θ.Solves s.subst ∧ ∀ e ∈ E, e.Holds θ

lemma State.Settles.trans (h : Settles E s r) (h' : Settles F r t) : Settles (E ++ F) s t where
  next := h'.next.trans h.next
  wildcardFree := h'.wildcardFree
  acyclic := h'.acyclic
  solves_iff θ := by
    rw [h'.solves_iff, h.solves_iff, List.forall_mem_append, and_assoc]

lemma State.fillWildcards_plain {u : Term} (hu : u.hasWildcard = false) :
    s.fillWildcards u = (u, s) := by
  simp [fillWildcards, hu]

lemma State.fillAll_plain {us : List Term} (hus : ∀ u ∈ us, u.hasWildcard = false) :
    s.fillAll us = (us, s) := by
  induction us with
  | nil => rfl
  | cons u us ih =>
    obtain ⟨hu, hus⟩ := List.forall_mem_cons.mp hus
    rw [fillAll, fillWildcards_plain hu]
    simp only [ih hus]

lemma Term.wildcardsIn_eq_zero {us : List Term} (hus : ∀ u ∈ us, u.hasWildcard = false) :
    wildcardsIn us = 0 := by
  induction us with
  | nil => rfl
  | cons u us ih =>
    obtain ⟨hu, hus⟩ := List.forall_mem_cons.mp hus
    rw [wildcardsIn, wildcards_eq_zero hu, ih hus]

namespace Goal

open State

/-- An equation that holds under some solution leads to one state. -/
lemma exists_eq {u v : Term} (hs : s.subst.WildcardFree) (ha : s.subst.Acyclic)
    (he : Equation.Plain (u, v)) (hθ : θ.Solves s.subst) (heq : Equation.Holds θ (u, v)) :
    ∃ t, (eq u v : Goal σ) s = .quiet (.singleton t) ∧ Settles [(u, v)] s t := by
  have plain : Subst.Plain s.subst u v := ⟨hs, he.1, he.2⟩
  have values (η : Valuation) :
      Equation.Holds η (u, v) ↔ sameParts (η.apply u) (η.apply v) = true := by
    rw [Equation.Holds, Valuation.beq_apply he.1]
  obtain ⟨r, hr⟩ := exists_unify? ha.straight plain hθ ((values θ).mp heq)
  have run := unifies_of_unify? hr
  obtain ⟨w, rfl, hw⟩ := (run.solves_iff plain).mp ⟨hθ, (values θ).mp heq⟩
  refine ⟨s.withSubst w, ?_, rfl, run.wildcardFree plain w rfl,
    hw.acyclic (run.straight ha.straight w rfl), fun η => ?_⟩
  · simp [eq, fillWildcards_plain he.1, fillWildcards_plain he.2, wildcards_eq_zero he.1,
      wildcards_eq_zero he.2, hr]
  · have solves := run.solves_iff (θ := η) plain
    simp only [Option.some.injEq, exists_eq_left'] at solves
    rw [List.forall_mem_singleton, values]
    exact solves.symm

lemma conj2_of_singleton (hg : g s = .quiet (.singleton r)) (hh : h r = .quiet (.singleton t)) :
    conj2 g h s = .quiet (.singleton t) := by
  simp [conj2, hg, Burst.bind, Burst.quiet, Stream.singleton, Stream.bind, hh]

/-- Equations that hold under some solution lead to one state, however they are posted. -/
theorem Posts.exists_state (hg : Posts g E) (hs : s.subst.WildcardFree) (ha : s.subst.Acyclic)
    (hE : ∀ e ∈ E, e.Plain) (hθ : θ.Solves s.subst) (heq : ∀ e ∈ E, e.Holds θ) :
    ∃ t, g s = .quiet (.singleton t) ∧ Settles E s t := by
  induction hg generalizing s with
  | succeed => exact ⟨s, rfl, rfl, hs, ha, by simp⟩
  | eq u v => exact exists_eq hs ha (hE _ (by simp)) hθ (heq _ (by simp))
  | conj2 _ _ ihg ihh =>
    obtain ⟨plainE, plainF⟩ := List.forall_mem_append.mp hE
    obtain ⟨holdE, holdF⟩ := List.forall_mem_append.mp heq
    obtain ⟨r, hr, settled⟩ := ihg hs ha plainE hθ holdE
    have hθr := (settled.solves_iff θ).mpr ⟨hθ, holdE⟩
    obtain ⟨t, ht, rest⟩ := ihh settled.wildcardFree settled.acyclic plainF hθr holdF
    exact ⟨t, conj2_of_singleton hr ht, settled.trans rest⟩

/-- **Order and orientation of equations do not matter.** If equations have a solution, each way
to post them leads to exactly one state; no variable is taken into use, and every term reads the
same in all these states. -/
theorem equations_any_order (hs : s.subst.WildcardFree) (ha : s.subst.Acyclic)
    (hE : ∀ e ∈ E, e.Plain) (hθ : θ.Solves s.subst) (heq : ∀ e ∈ E, e.Holds θ)
    (hF : Rearranged E F) (hg : Posts g E) (hh : Posts h F) :
    ∃ t r, g s = .quiet (.singleton t) ∧ h s = .quiet (.singleton r) ∧
      t.next = s.next ∧ r.next = s.next ∧ ∀ w : Term, w.hasWildcard = false →
        ∃ a b, t.subst.reify? w = some a ∧ r.subst.reify? w = some b ∧ (a == b) = true := by
  obtain ⟨plain, same⟩ := hF.forall_iff hE
  obtain ⟨t, ht, settled⟩ := hg.exists_state hs ha hE hθ heq
  obtain ⟨r, hr, settled'⟩ := hh.exists_state hs ha plain hθ ((same θ).mp heq)
  refine ⟨t, r, ht, hr, settled.next, settled'.next, fun w hw => ?_⟩
  refine reify?_of_solutions settled.wildcardFree settled'.wildcardFree settled.acyclic
    settled'.acyclic (fun η => ?_) hw
  rw [settled.solves_iff, settled'.solves_iff, same]

/-- Two equations between lists of variables, beside a binding made before. In one order they bind
the second variable to the third, in the other the third to the second. -/
theorem equations_any_order_lists :
    let s := (State.reserving 5).withSubst
      (Subst.empty.extend ⟨4, none⟩ (.pair (.var ⟨0, none⟩) .nil))
    ∃ t r : State,
      (conj [eq (.var ⟨0, none⟩) (.var ⟨1, none⟩),
          eq (.pair (.var ⟨1, none⟩) (.var ⟨3, none⟩)) (.pair (.var ⟨2, none⟩) .nil)] :
        Goal Pending) s = .quiet (.singleton t) ∧
      (conj2 (eq (.pair (.var ⟨2, none⟩) .nil) (.pair (.var ⟨1, none⟩) (.var ⟨3, none⟩)))
          (eq (.var ⟨0, none⟩) (.var ⟨1, none⟩)) :
        Goal Pending) s = .quiet (.singleton r) ∧
      t.next = 5 ∧ r.next = 5 ∧
      ∃ a b, t.subst.reify? (.var ⟨4, none⟩) = some a ∧
        r.subst.reify? (.var ⟨4, none⟩) = some b ∧ (a == b) = true := by
  intro s
  let E : List Equation := [(.var ⟨0, none⟩, .var ⟨1, none⟩),
    (.pair (.var ⟨1, none⟩) (.var ⟨3, none⟩), .pair (.var ⟨2, none⟩) .nil)]
  let F : List Equation := [(.pair (.var ⟨2, none⟩) .nil, .pair (.var ⟨1, none⟩) (.var ⟨3, none⟩)),
    (.var ⟨0, none⟩, .var ⟨1, none⟩)]
  have wildcardFree : s.subst.WildcardFree := WildcardFree.extend (fun x t h => by simp at h) rfl _
  have straight : s.subst.Straight :=
    Straight.extend placed_empty.acyclic.straight fun _ h => by cases h
  let θ : Valuation := ⟨fun i => if i = 3 then .nil else if i = 4 then .pair .zero .nil else .zero,
    by intro i; split_ifs <;> rfl⟩
  have solves : θ.Solves s.subst := by
    rw [State.withSubst_subst, Valuation.solves_extend (by simp)]
    exact ⟨fun x t h => by simp at h, rfl⟩
  have turned : Rearranged E F := ⟨_, .swap _ _ _, .cons (.inr rfl) (.cons (.inl rfl) .nil)⟩
  have plain : ∀ e ∈ E, e.Plain := by simp [E, Equation.Plain, hasWildcard]
  have holds : ∀ e ∈ E, e.Holds θ :=
    List.forall_mem_cons.mpr ⟨rfl, List.forall_mem_singleton.mpr rfl⟩
  obtain ⟨t, r, ht, hr, hnt, hnr, same⟩ := equations_any_order wildcardFree
    (solves.acyclic straight) plain solves holds turned (posts_conj E)
    ((Posts.eq _ _).conj2 (.eq _ _))
  exact ⟨t, r, ht, hr, hnt, hnr, same _ rfl⟩

end Goal

end Relational
