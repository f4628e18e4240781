import Relational.Proofs.Subst.Growth
import Relational.Proofs.Term.Valuation

/-!
Solutions of a substitution: the valuations under which every variable equals what it is bound
to. Unification keeps those solutions under which the two terms are equal, and no others; if it
fails there are none. Cyclic bindings are covered: they just have no solutions.
-/

namespace Relational

open Subst Term

/-- Every binding is an equation that the valuation makes true. -/
def Valuation.Solves (θ : Valuation) (s : Subst) : Prop :=
  ∀ x t, s.find? x = some t → (θ.apply (.var x) == θ.apply t) = true

variable {θ : Valuation} {s : Subst} {u v : Term}

lemma Valuation.Solves.sameParts (h : θ.Solves s) {x : Var} {t : Term}
    (hx : s.find? x = some t) : sameParts (θ.value x.id) (θ.apply t) = true := by
  have := h x t hx
  rwa [Valuation.beq_apply rfl, Valuation.apply_var] at this

lemma Valuation.solves_extend {x : Var} {t : Term} (hx : s.find? x = none) :
    θ.Solves (s.extend x t) ↔ θ.Solves s ∧ sameParts (θ.value x.id) (θ.apply t) = true := by
  constructor
  · intro h
    refine ⟨fun y u hy => h y u ?_, h.sameParts (x := x) (by simp [find?_extend])⟩
    have hne : x.id ≠ y.id := by
      intro he
      rw [find?_congr he, hy] at hx
      cases hx
    rw [find?_extend, if_neg hne, hy]
  · rintro ⟨h, ht⟩ y u hy
    rw [find?_extend] at hy
    split at hy
    · rename_i he
      cases hy
      rw [Valuation.beq_apply rfl, Valuation.apply_var, ← he, ht]
    · exact h y u hy

lemma Subst.Walks.sameParts_apply {t a : Term} (h : Walks s t a) (hθ : θ.Solves s) :
    sameParts (θ.apply t) (θ.apply a) = true := by
  induction h with
  | «open» => exact sameParts_refl _
  | known => exact sameParts_refl _
  | step hx _ ih => exact sameParts_trans (hθ.sameParts hx) ih

lemma Subst.sameParts_of_meet_agree {a b : Term} (h : meet a b = .agree)
    (ha : a.hasWildcard = false) (hb : b.hasWildcard = false) :
    sameParts (θ.apply a) (θ.apply b) = true := by
  by_cases equal : (a == b) = true
  · rw [beq_eq_sameParts ha] at equal
    exact Valuation.sameParts_apply equal
  · -- roots that differ agree only if one is a wildcard
    fun_cases meet a b <;> simp_all [meet, hasWildcard]

lemma Subst.sameParts_of_meet_clash {a b : Term} (h : meet a b = .clash) :
    sameParts (θ.apply a) (θ.apply b) = false := by
  unfold meet at h
  split at h
  · cases h
  rename_i differ
  cases a <;> cases b <;>
    simp_all [BEq.beq, Term.same, isWildcard, sameParts, Valuation.apply]

/-- The two terms are as equal as the roots that they lead to. -/
lemma Subst.sameParts_of_walk? {a b : Term} (hθ : θ.Solves s) (ha : s.walk? u = some a)
    (hb : s.walk? v = some b) :
    sameParts (θ.apply u) (θ.apply v) = sameParts (θ.apply a) (θ.apply b) := by
  have hua := (walks_of_walk? ha).sameParts_apply hθ
  have hvb := (walks_of_walk? hb).sameParts_apply hθ
  rw [Bool.eq_iff_iff]
  constructor <;> intro h
  · exact sameParts_trans (sameParts_trans (by rwa [sameParts_comm]) h) hvb
  · exact sameParts_trans (sameParts_trans hua h) (by rwa [sameParts_comm])

/-- The two terms are as equal as the parts that their roots leave to be unified. -/
lemma Subst.Faces.sameParts_pairs {a d b e : Term} (h : Faces s u v (.pairs a d b e))
    (hθ : θ.Solves s) : sameParts (θ.apply u) (θ.apply v) =
      (sameParts (θ.apply a) (θ.apply b) && sameParts (θ.apply d) (θ.apply e)) := by
  obtain ⟨u', v', hu, hv, hm⟩ := h
  obtain ⟨rfl, rfl⟩ := eq_of_meet_pairs hm
  rw [sameParts_of_walk? hθ hu hv]
  rfl

lemma Subst.Faces.sameParts_succs {p q : Term} (h : Faces s u v (.succs p q))
    (hθ : θ.Solves s) :
    sameParts (θ.apply u) (θ.apply v) = sameParts (θ.apply p) (θ.apply q) := by
  obtain ⟨u', v', hu, hv, hm⟩ := h
  obtain ⟨rfl, rfl⟩ := eq_of_meet_succs hm
  rw [sameParts_of_walk? hθ hu hv]
  rfl

lemma Subst.Faces.sameParts_bind {x : Var} {t : Term} (h : Faces s u v (.bind x t))
    (hθ : θ.Solves s) :
    sameParts (θ.apply u) (θ.apply v) = sameParts (θ.value x.id) (θ.apply t) := by
  obtain ⟨u', v', hu, hv, hm⟩ := h
  rw [sameParts_of_walk? hθ hu hv]
  obtain ⟨⟨rfl, rfl⟩ | ⟨rfl, rfl⟩, -⟩ := eq_of_meet_bind hm
  · rfl
  · exact sameParts_comm _ _

/-! ### Runs -/

/-- The solutions of what a run ends with are the solutions that it started from under which
the two terms are equal; a clash has none. -/
lemma Subst.Unifies.solves_iff {r : Option Subst} (h : Unifies s u v r) (hp : Plain s u v) :
    θ.Solves s ∧ sameParts (θ.apply u) (θ.apply v) = true ↔ ∃ t, r = some t ∧ θ.Solves t := by
  induction h with
  | agree hf =>
    obtain ⟨a, b, ha, hb, hm⟩ := hf
    have roots := hp.walk? ha hb
    have same := sameParts_of_meet_agree (θ := θ) hm roots.left roots.right
    simp only [Option.some.injEq, exists_eq_left', and_iff_left_iff_imp]
    exact fun hθ => (sameParts_of_walk? hθ ha hb).trans same
  | clash hf =>
    obtain ⟨a, b, ha, hb, hm⟩ := hf
    simp only [reduceCtorEq, false_and, exists_false, iff_false, not_and]
    intro hθ
    rw [sameParts_of_walk? hθ ha hb, sameParts_of_meet_clash hm]
    simp
  | bind hf =>
    simp only [Option.some.injEq, exists_eq_left', Valuation.solves_extend hf.bind_open.1]
    exact and_congr_right fun hθ => by rw [hf.sameParts_bind hθ]
  | heads hf _ ih =>
    have none_left := ih (hp.pairs inherited_hasWildcard hf).1
    simp only [reduceCtorEq, false_and, exists_false, iff_false, not_and] at none_left ⊢
    intro hθ
    rw [hf.sameParts_pairs hθ, Bool.and_eq_true]
    exact fun h => none_left hθ h.1
  | pairs hf ha _ iha ihd =>
    -- the tails are unified under bindings whose solutions make the heads equal
    obtain ⟨pa, pd⟩ := hp.pairs inherited_hasWildcard hf
    have heads := iha pa
    simp only [Option.some.injEq, exists_eq_left'] at heads
    rw [← ihd ⟨ha.wildcardFree pa _ rfl, pd.left, pd.right⟩, ← heads, and_assoc]
    exact and_congr_right fun hθ => by rw [hf.sameParts_pairs hθ, Bool.and_eq_true]
  | succs hf _ ih =>
    rw [← ih (hp.succs inherited_hasWildcard hf)]
    exact and_congr_right fun hθ => by rw [hf.sameParts_succs hθ]

/-- **Unification keeps the solutions.** Where it succeeds, the solutions are those of before
under which the two terms are equal; where it fails, there is no such solution. -/
theorem Subst.unify?_solutions (hs : s.WildcardFree) (hu : u.hasWildcard = false)
    (hv : v.hasWildcard = false) :
    (∀ t, s.unify? u v = some (some t) → ∀ θ : Valuation,
      θ.Solves t ↔ θ.Solves s ∧ (θ.apply u == θ.apply v) = true) ∧
    (s.unify? u v = some none → ∀ θ : Valuation,
      ¬(θ.Solves s ∧ (θ.apply u == θ.apply v) = true)) := by
  have plain : Plain s u v := ⟨hs, hu, hv⟩
  refine ⟨fun t h θ => ?_, fun h θ => ?_⟩
  · have := (unifies_of_unify? h).solves_iff (θ := θ) plain
    rw [Valuation.beq_apply hu, this]
    simp
  · have := (unifies_of_unify? h).solves_iff (θ := θ) plain
    rw [Valuation.beq_apply hu, this]
    simp

/-- A variable and a pair of it unify, with a cycle; a pair and the empty list clash. -/
theorem Subst.unify?_solutions_cycle_clash :
    (∃ t, Subst.empty.unify? (.var ⟨0, none⟩) (.pair (.var ⟨0, none⟩) .nil) = some (some t) ∧
      ∀ θ : Valuation, θ.Solves t ↔ θ.Solves .empty ∧
        (θ.apply (.var ⟨0, none⟩) == θ.apply (.pair (.var ⟨0, none⟩) .nil)) = true) ∧
    Subst.empty.unify? (.pair .nil .nil) .nil = some none ∧
      ∀ θ : Valuation, ¬(θ.Solves .empty ∧ (θ.apply (.pair .nil .nil) == θ.apply .nil) = true) := by
  have free : Subst.empty.WildcardFree := fun x t h => by simp at h
  refine ⟨⟨_, rfl, ?_⟩, rfl, ?_⟩
  · exact (Subst.unify?_solutions free rfl rfl).1 _ rfl
  · exact (Subst.unify?_solutions free rfl rfl).2 rfl

end Relational
