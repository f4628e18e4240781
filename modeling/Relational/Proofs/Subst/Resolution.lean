import Relational.Proofs.Subst.Resolves
import Relational.Proofs.Subst.Solutions

/-!
Solutions made by resolving. Under acyclic bindings, any valuation can be changed at the bound
variables into a solution: read each variable to the bottom, then take values. So terms that are
equal under all solutions are equal once they are resolved.
-/

namespace Relational

open Subst Term

namespace Term

/-- Replacing variables by terms that stand for their values keeps the value of a term. -/
lemma apply_replaceVars {θ η : Valuation} {f : Var → Option Term} {t r : Term}
    (h : t.replaceVars f = some r) (hf : ∀ x u, f x = some u → η.value x.id = θ.apply u) :
    η.apply t = θ.apply r := by
  induction t generalizing r with
  | var x => exact hf x r h
  | pair a d iha ihd =>
    obtain ⟨a', d', ha, hd, rfl⟩ := replaceVars_pair_eq_some.mp h
    rw [Valuation.apply_pair, Valuation.apply_pair, iha ha, ihd hd]
  | succ p ih =>
    obtain ⟨p', hp, rfl⟩ := Option.map_eq_some_iff.mp h
    rw [Valuation.apply_succ, Valuation.apply_succ, ih hp]
  | _ => cases h; rfl

end Term

variable {s : Subst}

namespace Subst

lemma resolve?_eq_replaceVars (t : Term) :
    s.resolve? t = t.replaceVars fun x => s.resolve? (.var x) := by
  unfold resolve?
  cases s.size <;> rfl

lemma resolve?_of_find? {x : Var} {t : Term} (hx : s.find? x = some t) :
    s.resolve? (.var x) = s.resolve? t := by
  ext r
  rw [resolve?_eq_some_iff, resolve?_eq_some_iff, resolves_bound_iff hx]

lemma find?_of_resolve? {t r : Term} (h : s.resolve? t = some r) :
    ∀ x ∈ r.vars, s.find? x = none :=
  (resolve?_eq_some_iff.mp h).opened

lemma resolve?_of_open {x : Var} (hx : s.find? x = none) :
    s.resolve? (.var x) = some (.var x) :=
  resolveWithin_open hx s.size

lemma walks_var_iff {t u : Term} {y : Var} (h : s.resolve? t = some u) :
    Walks s t (.var y) ↔ u = .var y := by
  rw [resolve?_eq_some_iff] at h
  rw [← resolves_var_iff]
  exact ⟨h.unique, fun he => he ▸ h⟩

lemma resolve?_ofList {ts : List Term} {r : Term} (h : s.resolve? (.ofList ts) = some r) :
    ∃ us, r = .ofList us ∧ List.Forall₂ (fun t u => s.resolve? t = some u) ts us := by
  induction ts generalizing r with
  | nil =>
    rw [resolve?_eq_replaceVars] at h
    cases h
    exact ⟨[], rfl, .nil⟩
  | cons t ts ih =>
    obtain ⟨u, d, hu, hd, rfl⟩ := resolves_pair_iff.mp (resolve?_eq_some_iff.mp h)
    obtain ⟨us, rfl, items⟩ := ih (resolve?_eq_some_iff.mpr hd)
    exact ⟨u :: us, rfl, .cons (resolve?_eq_some_iff.mpr hu) items⟩

end Subst

/-! ### From valuations to solutions -/

namespace Valuation

variable (θ : Valuation)

/-- Every variable gets the value of what it resolves to. -/
def through (hs : s.WildcardFree) : Valuation where
  value i := θ.apply ((s.resolve? (.var ⟨i, none⟩)).getD .nil)
  ground i := by
    rcases h : s.resolve? (.var ⟨i, none⟩) with _ | r
    · rfl
    · exact θ.isGround_apply (hs.resolve? (t := .var ⟨i, none⟩) rfl h)

variable {θ} (hs : s.WildcardFree)

lemma through_apply {t r : Term} (h : s.resolve? t = some r) :
    (θ.through hs).apply t = θ.apply r := by
  rw [resolve?_eq_replaceVars] at h
  refine apply_replaceVars h fun x u hx => ?_
  -- the value was taken for the number of the variable, whatever its name
  let y : Var := ⟨x.id, none⟩
  have value : (θ.through hs).value x.id = θ.apply ((s.resolve? (.var y)).getD .nil) := rfl
  rw [value]
  rcases hf : s.find? x with _ | w
  · have hy : s.find? y = none := by rw [← hf]; exact find?_congr rfl
    rw [resolve?_of_open hf] at hx
    cases hx
    rw [resolve?_of_open hy]
    rfl
  · have hy : s.find? y = some w := by rw [← hf]; exact find?_congr rfl
    rw [resolve?_of_find? hy, ← resolve?_of_find? hf, hx]
    rfl

lemma through_solves (ha : s.Acyclic) : (θ.through hs).Solves s := by
  intro x t hx
  obtain ⟨r, hr⟩ := ha.resolve? (.var x)
  rw [beq_apply rfl, through_apply hs hr, through_apply hs ((resolve?_of_find? hx).symm.trans hr)]
  exact sameParts_refl _

/-- Variables named by placeholders from number `n` on. -/
def naming (n : Nat) : Valuation := ⟨fun i => .placeholder (n + i), fun _ => rfl⟩

end Valuation

namespace Term

def placeholderBound : Term → Nat
  | placeholder n => n + 1
  | pair a d => max a.placeholderBound d.placeholderBound
  | succ p => p.placeholderBound
  | _ => 0

/-- Placeholders that occur in neither term tell its variables from all else. -/
lemma sameParts_of_naming {t u : Term} {n : Nat} (ht : t.placeholderBound ≤ n)
    (hu : u.placeholderBound ≤ n)
    (h : sameParts ((Valuation.naming n).apply t) ((Valuation.naming n).apply u) = true) :
    sameParts t u = true := by
  induction t generalizing u with
  | pair a d iha ihd =>
    cases u with
    | pair b e =>
      simp only [placeholderBound, max_le_iff] at ht hu
      simp only [Valuation.apply, sameParts, Bool.and_eq_true] at h ⊢
      exact ⟨iha ht.1 hu.1 h.1, ihd ht.2 hu.2 h.2⟩
    | _ => simp [Valuation.apply, Valuation.naming, sameParts] at h
  | succ p ih =>
    cases u with
    | succ q => exact ih ht hu h
    | _ => simp [Valuation.apply, Valuation.naming, sameParts] at h
  | _ =>
    cases u <;> simp_all [Valuation.apply, Valuation.naming, sameParts, placeholderBound] <;> omega

/-- Terms that have equal values under all valuations are equal. -/
theorem sameParts_of_forall {t u : Term}
    (h : ∀ θ : Valuation, sameParts (θ.apply t) (θ.apply u) = true) : sameParts t u = true :=
  sameParts_of_naming (Nat.le_max_left t.placeholderBound u.placeholderBound)
    (Nat.le_max_right _ _) (h _)

end Term

/-- Terms that are equal under all solutions of acyclic bindings resolve to equal terms. -/
theorem Subst.Acyclic.sameParts_resolve? (ha : s.Acyclic) (hs : s.WildcardFree)
    {u v u' v' : Term} (hu : s.resolve? u = some u') (hv : s.resolve? v = some v')
    (h : ∀ θ : Valuation, θ.Solves s → sameParts (θ.apply u) (θ.apply v) = true) :
    sameParts u' v' = true := by
  refine sameParts_of_forall fun θ => ?_
  have := h (θ.through hs) (Valuation.through_solves hs ha)
  rwa [Valuation.through_apply hs hu, Valuation.through_apply hs hv] at this

end Relational
