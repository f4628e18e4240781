import Relational.Proofs.Goal.Filling
import Relational.Proofs.Subst.Symmetry

/-!
Equations without a solution. Unification may go on for ever on them, or make a cycle; but not if
one of the two terms can have all values of some shape, whatever the value of the other. Then there
is a place where the two terms have different roots, and unification comes to it.
-/

namespace Relational.Subst

open Term

variable {s t : Subst} {g u v : Term} {θ : Valuation}

/-- Unification ends, and makes no cycle. -/
def Decided (s : Subst) (u v : Term) : Prop :=
  ∃ r, s.unify? u v = some r ∧ ∀ t, r = some t → t.Acyclic

/-- In every solution `u` has a value of the shape `g`, in which wildcards stand for anything. Each
such value is one of `u` in some solution that gives `v` the value that it had. -/
structure Ranges (s : Subst) (g u v : Term) : Prop where
  fills {θ : Valuation} (h : θ.Solves s) : ∃ w, g.Fills w ∧ sameParts (θ.apply u) w = true
  free {θ : Valuation} (h : θ.Solves s) {w : Term} (hw : g.Fills w) : ∃ η : Valuation,
    η.Solves s ∧ sameParts (η.apply u) w = true ∧ sameParts (η.apply v) (θ.apply v) = true

/-! ### Solutions at hand -/

lemma Acyclic.exists_value (ha : s.Acyclic) (hs : s.WildcardFree) {x : Var}
    (hx : s.find? x = none) {w : Term} (hw : w.isGround = true) :
    ∃ θ : Valuation, θ.Solves s ∧ θ.value x.id = w :=
  ⟨Valuation.through ⟨fun _ => w, fun _ => hw⟩ hs, Valuation.through_solves hs ha,
    Valuation.through_apply hs (resolve?_of_open hx)⟩

lemma Acyclic.exists_solves (ha : s.Acyclic) (hs : s.WildcardFree) :
    ∃ θ : Valuation, θ.Solves s :=
  ⟨(Valuation.naming 0).through hs, Valuation.through_solves hs ha⟩

lemma Faces.values_pairs {a d b e : Term} (h : Faces s u v (.pairs a d b e)) (hθ : θ.Solves s) :
    sameParts (θ.apply u) (.pair (θ.apply a) (θ.apply d)) = true ∧
      sameParts (θ.apply v) (.pair (θ.apply b) (θ.apply e)) = true := by
  obtain ⟨u', v', hu, hv, hm⟩ := h
  obtain ⟨rfl, rfl⟩ := eq_of_meet_pairs hm
  exact ⟨(walks_of_walk? hu).sameParts_apply hθ, (walks_of_walk? hv).sameParts_apply hθ⟩

lemma Faces.values_succs {p q : Term} (h : Faces s u v (.succs p q)) (hθ : θ.Solves s) :
    sameParts (θ.apply u) (.succ (θ.apply p)) = true ∧
      sameParts (θ.apply v) (.succ (θ.apply q)) = true := by
  obtain ⟨u', v', hu, hv, hm⟩ := h
  obtain ⟨rfl, rfl⟩ := eq_of_meet_succs hm
  exact ⟨(walks_of_walk? hu).sameParts_apply hθ, (walks_of_walk? hv).sameParts_apply hθ⟩

lemma decided_of_solves (ha : s.Acyclic) (hp : Plain s u v) (hθ : θ.Solves s)
    (heq : sameParts (θ.apply u) (θ.apply v) = true) : Decided s u v := by
  obtain ⟨r, hr⟩ := exists_unify? ha.straight hp hθ heq
  refine ⟨r, hr, ?_⟩
  rintro t rfl
  have run := unifies_of_unify? hr
  obtain ⟨_, ⟨⟩, ht⟩ := (run.solves_iff hp).mp ⟨hθ, heq⟩
  exact ht.acyclic (run.straight ha.straight t rfl)

/-! ### Clashes -/

namespace Ranges

/-- In which solution `u` has a value of the shape that another one gives to `v`. -/
lemma solvable (h : Ranges s g u v) (hθ : θ.Solves s) {w : Term} (hg : g.Fills w)
    (hw : sameParts (θ.apply v) w = true) :
    ∃ η : Valuation, η.Solves s ∧ sameParts (η.apply u) (η.apply v) = true := by
  obtain ⟨η, hη, hu, hv⟩ := h.free hθ hg
  refine ⟨η, hη, sameParts_trans hu (sameParts_trans ?_ ?_ (u := θ.apply v))⟩
  · rwa [sameParts_comm]
  · rwa [sameParts_comm]

/-- If there is no solution, the roots of the two terms clash, or they leave parts to unify, and
then the shape has such parts, too. -/
lemma faces (h : Ranges s g u v) (ha : s.Acyclic) (hp : Plain s u v)
    (hno : ∀ θ : Valuation, θ.Solves s → sameParts (θ.apply u) (θ.apply v) = false) :
    Unifies s u v none ∨
      (∃ g₁ g₂, g = .pair g₁ g₂ ∧ ∃ a d b e, Faces s u v (.pairs a d b e)) ∨
      ∃ g₁, g = .succ g₁ ∧ ∃ p q, Faces s u v (.succs p q) := by
  have absurd_of {θ : Valuation} (hθ : θ.Solves s) {w : Term} (hg : g.Fills w)
      (hw : sameParts (θ.apply v) w = true) : False := by
    obtain ⟨η, hη, equal⟩ := h.solvable hθ hg hw
    rw [hno η hη] at equal
    cases equal
  obtain ⟨θ, hθ⟩ := ha.exists_solves hp.subst
  have shaped : ∀ place, g ≠ .wildcard place := by
    rintro place rfl
    exact absurd_of hθ (.wildcard (θ.isGround_apply hp.right)) (sameParts_refl _)
  obtain ⟨a, hu⟩ := ha.straight.walk? u
  obtain ⟨b, hv⟩ := ha.straight.walk? v
  have walkU := walks_of_walk? hu
  have walkV := walks_of_walk? hv
  have face {m : Meeting} (hm : meet a b = m) : Faces s u v m := ⟨a, b, hu, hv, hm⟩
  rcases hm : meet a b with _ | _ | ⟨x, w⟩ | ⟨a₁, d₁, b₁, e₁⟩ | ⟨p, q⟩
  · -- roots that agree are equal in all solutions
    have roots := hp.walk? hu hv
    have equal := sameParts_of_meet_agree (θ := θ) hm roots.left roots.right
    rw [← sameParts_of_walk? hθ hu hv, hno θ hθ] at equal
    cases equal
  · exact .inl (.clash (face hm))
  · obtain ⟨⟨rfl, -⟩ | ⟨rfl, -⟩, -⟩ := eq_of_meet_bind hm
    · -- an open variable has the value of the other term, too, and so the shape has it
      obtain ⟨η, hη, hx⟩ := ha.exists_value hp.subst walkU.find?_eq_none
        (θ.isGround_apply hp.right)
      obtain ⟨w', hg, hw'⟩ := h.fills hη
      have value : sameParts (θ.apply v) (η.apply u) = true := by
        have := walkU.sameParts_apply hη
        rwa [Valuation.apply_var, hx, sameParts_comm] at this
      exact (absurd_of hθ hg (sameParts_trans value hw')).elim
    · obtain ⟨w', hg, -⟩ := h.fills hθ
      obtain ⟨η, hη, hx⟩ := ha.exists_value hp.subst walkV.find?_eq_none hg.isGround
      have value : sameParts (η.apply v) w' = true := by
        have := walkV.sameParts_apply hη
        rwa [Valuation.apply_var, hx] at this
      exact (absurd_of hη hg value).elim
  · obtain ⟨w, hg, value⟩ := h.fills hθ
    have root : sameParts (.pair (θ.apply a₁) (θ.apply d₁)) w = true := by
      refine sameParts_trans ?_ value
      rw [sameParts_comm, ((face hm).values_pairs hθ).1]
    cases hg with
    | wildcard => exact absurd rfl (shaped _)
    | pair => exact .inr (.inl ⟨_, _, rfl, _, _, _, _, face hm⟩)
    | _ => cases root
  · obtain ⟨w, hg, value⟩ := h.fills hθ
    have root : sameParts (.succ (θ.apply p)) w = true := by
      refine sameParts_trans ?_ value
      rw [sameParts_comm, ((face hm).values_succs hθ).1]
    cases hg with
    | wildcard => exact absurd rfl (shaped _)
    | succ => exact .inr (.inr ⟨_, rfl, _, _, face hm⟩)
    | _ => cases root

variable {g' : Term} {a d b e p q : Term}

lemma exists_of_pair {w : Term} (h : (pair g g').Fills w) :
    ∃ x y, w = pair x y ∧ g.Fills x ∧ g'.Fills y := by
  cases h with
  | pair hx hy => exact ⟨_, _, rfl, hx, hy⟩

lemma exists_of_succ {w : Term} (h : (succ g).Fills w) : ∃ x, w = succ x ∧ g.Fills x := by
  cases h with
  | succ hx => exact ⟨_, rfl, hx⟩

lemma pair_parts {a d x y : Term} (h : sameParts u (pair a d) = true)
    (h' : sameParts u (pair x y) = true) : sameParts a x = true ∧ sameParts d y = true := by
  rw [sameParts_comm] at h
  simpa [sameParts] using sameParts_trans h h'

lemma succ_part {p x : Term} (h : sameParts u (succ p) = true)
    (h' : sameParts u (succ x) = true) : sameParts p x = true := by
  rw [sameParts_comm] at h
  simpa [sameParts] using sameParts_trans h h'

lemma succs (h : Ranges s (.succ g) u v) (hf : Faces s u v (.succs p q)) : Ranges s g p q where
  fills {θ} hθ := by
    obtain ⟨_, hg, value⟩ := h.fills hθ
    obtain ⟨x, rfl, hx⟩ := exists_of_succ hg
    exact ⟨x, hx, succ_part (hf.values_succs hθ).1 value⟩
  free {θ} hθ x hx := by
    obtain ⟨η, hη, hu, hv⟩ := h.free hθ (.succ hx)
    obtain ⟨partU, partV⟩ := hf.values_succs hη
    have same := sameParts_trans hv (hf.values_succs hθ).2
    exact ⟨η, hη, succ_part partU hu, succ_part partV same⟩

lemma heads (h : Ranges s (.pair g g') u v) (hf : Faces s u v (.pairs a d b e)) :
    Ranges s g a b where
  fills {θ} hθ := by
    obtain ⟨_, hg, value⟩ := h.fills hθ
    obtain ⟨x, y, rfl, hx, -⟩ := exists_of_pair hg
    exact ⟨x, hx, (pair_parts (hf.values_pairs hθ).1 value).1⟩
  free {θ} hθ x hx := by
    obtain ⟨_, hg, -⟩ := h.fills hθ
    obtain ⟨-, y, -, -, hy⟩ := exists_of_pair hg
    obtain ⟨η, hη, hu, hv⟩ := h.free hθ (.pair hx hy)
    obtain ⟨partsU, partsV⟩ := hf.values_pairs hη
    have same := sameParts_trans hv (hf.values_pairs hθ).2
    exact ⟨η, hη, (pair_parts partsU hu).1, (pair_parts partsV same).1⟩

lemma tails (h : Ranges s (.pair g g') u v) (hf : Faces s u v (.pairs a d b e))
    (ht : ∀ θ : Valuation, θ.Solves t ↔ θ.Solves s ∧ sameParts (θ.apply a) (θ.apply b) = true) :
    Ranges t g' d e where
  fills {θ} hθ := by
    obtain ⟨hθ, -⟩ := (ht θ).mp hθ
    obtain ⟨_, hg, value⟩ := h.fills hθ
    obtain ⟨x, y, rfl, -, hy⟩ := exists_of_pair hg
    exact ⟨y, hy, (pair_parts (hf.values_pairs hθ).1 value).2⟩
  free {θ} hθ y hy := by
    obtain ⟨hθ, equal⟩ := (ht θ).mp hθ
    obtain ⟨_, hg, value⟩ := h.fills hθ
    obtain ⟨x, _, rfl, hx, _⟩ := exists_of_pair hg
    obtain ⟨η, hη, hu, hv⟩ := h.free hθ (.pair hx hy)
    obtain ⟨partsU, partsV⟩ := hf.values_pairs hη
    have same := sameParts_trans hv (hf.values_pairs hθ).2
    obtain ⟨headU, tailU⟩ := pair_parts partsU hu
    obtain ⟨headV, tailV⟩ := pair_parts partsV same
    refine ⟨η, (ht η).mpr ⟨hη, ?_⟩, tailU, tailV⟩
    -- the heads are what they were before
    have head := (pair_parts (hf.values_pairs hθ).1 value).1
    rw [sameParts_comm] at head headV
    exact sameParts_trans headU (sameParts_trans head (sameParts_trans equal headV))

/-- **Equations without a solution clash** if one side ranges over the values of a shape. -/
theorem clashes (h : Ranges s g u v) (ha : s.Acyclic) (hp : Plain s u v)
    (hno : ∀ θ : Valuation, θ.Solves s → sameParts (θ.apply u) (θ.apply v) = false) :
    Unifies s u v none := by
  induction g generalizing s u v with
  | pair g g' ihg ihg' =>
    rcases h.faces ha hp hno with clash | ⟨_, _, -, a, d, b, e, hf⟩ | ⟨_, ⟨⟩, -⟩
    · exact clash
    obtain ⟨ph, pt⟩ := hp.pairs inherited_hasWildcard hf
    by_cases solvable : ∃ θ : Valuation, θ.Solves s ∧ sameParts (θ.apply a) (θ.apply b) = true
    · -- the tails clash under what makes the heads equal
      obtain ⟨θ, hθ, equal⟩ := solvable
      obtain ⟨r, hr⟩ := exists_unify? ha.straight ph hθ equal
      have run := unifies_of_unify? hr
      obtain ⟨t, rfl, ht⟩ := (run.solves_iff ph).mp ⟨hθ, equal⟩
      have solves (η : Valuation) :
          η.Solves t ↔ η.Solves s ∧ sameParts (η.apply a) (η.apply b) = true := by
        simpa using (run.solves_iff (θ := η) ph).symm
      have acyclic : t.Acyclic := ht.acyclic (run.straight ha.straight t rfl)
      have plain : Plain t d e := ⟨run.wildcardFree ph t rfl, pt.left, pt.right⟩
      refine .pairs hf run (ihg' (h.tails hf solves) acyclic plain fun η hη => ?_)
      obtain ⟨hη, heads⟩ := (solves η).mp hη
      have unequal := hno η hη
      rwa [hf.sameParts_pairs hη, heads, Bool.true_and] at unequal
    · refine .heads hf (ihg (h.heads hf) ha ph fun θ hθ => ?_)
      exact Bool.eq_false_iff.mpr fun equal => solvable ⟨θ, hθ, equal⟩
  | succ g ih =>
    rcases h.faces ha hp hno with clash | ⟨_, _, ⟨⟩, -⟩ | ⟨_, -, p, q, hf⟩
    · exact clash
    refine .succs hf (ih (h.succs hf) ha (hp.succs inherited_hasWildcard hf) fun θ hθ => ?_)
    rw [← hf.sameParts_succs hθ]
    exact hno θ hθ
  | _ =>
    rcases h.faces ha hp hno with clash | ⟨_, _, ⟨⟩, -⟩ | ⟨_, ⟨⟩, -⟩
    exact clash

/-- Whether there is a solution or not, unification decides it. -/
theorem decided (h : Ranges s g u v) (ha : s.Acyclic) (hp : Plain s u v) : Decided s u v := by
  by_cases solvable : ∃ θ : Valuation, θ.Solves s ∧ sameParts (θ.apply u) (θ.apply v) = true
  · obtain ⟨θ, hθ, equal⟩ := solvable
    exact decided_of_solves ha hp hθ equal
  · have clash := h.clashes ha hp fun θ hθ =>
      Bool.eq_false_iff.mpr fun equal => solvable ⟨θ, hθ, equal⟩
    exact ⟨none, unify?_eq_some_iff.mpr clash, by simp⟩

end Ranges

lemma Decided.swap (h : Decided s u v) (hp : Plain s u v) : Decided s v u := by
  obtain ⟨r, hr, acyclic⟩ := h
  rcases rel_cases (rel_unify? ((Mirror.refl s).unifyWithin u v)) with
    ⟨hr', -⟩ | ⟨r', r'', hr', hr'', related⟩
  · rw [hr] at hr'
    cases hr'
  rw [hr] at hr'
  cases hr'
  refine ⟨r'', hr'', ?_⟩
  rintro t rfl
  rcases rel_cases related with ⟨-, ⟨⟩⟩ | ⟨t', _, rfl, ⟨⟩, -⟩
  exact acyclic_of_turned hp.subst hp.left hp.right (unifies_of_unify? hr) (unifies_of_unify? hr'')
    (acyclic t' rfl)

end Relational.Subst
