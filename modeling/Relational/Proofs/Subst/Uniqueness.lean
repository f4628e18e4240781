import Relational.Proofs.Subst.Placing

/-!
Bindings with the same solutions. They may bind other variables and in other directions, but a
term resolves to variants under them: what one leaves open as a variable, the other leaves open as
well, for otherwise some solution of one would not be a solution of the other. So the term reads
the same as part of an answer.
-/

namespace Relational

open Subst Term

variable {θ η : Valuation} {s t : Subst}

/-! ### Solutions and resolved terms -/

lemma Valuation.Solves.sameParts_resolve? (hθ : θ.Solves s) {t r : Term}
    (h : s.resolve? t = some r) : Term.sameParts (θ.apply t) (θ.apply r) = true := by
  rw [resolve?_eq_some_iff] at h
  induction h with
  | bare hw _ => exact hw.sameParts_apply hθ
  | pair hw _ _ iha ihd =>
    refine sameParts_trans (hw.sameParts_apply hθ) ?_
    simp [Term.sameParts, iha, ihd]
  | succ hw _ ih =>
    refine sameParts_trans (hw.sameParts_apply hθ) ?_
    simpa [Term.sameParts] using ih

/-! ### Terms that are instances of each other -/

/-- The variable that a valuation gives the placeholder for, where placeholders from number `n` on
stand for variables. -/
def Valuation.varOf (η : Valuation) (n i : Nat) : Nat :=
  match η.value i with
  | .placeholder m => m - n
  | _ => 0

/-- Two terms whose variables are named by placeholders that occur in neither of them, each an
instance of the other: they differ by a renaming, which the other instance takes back. -/
lemma Term.rename_of_instances {t u : Term} {n : Nat} (ht : t.placeholderBound ≤ n)
    (hu : u.placeholderBound ≤ n)
    (htu : sameParts ((Valuation.naming n).apply t) (η.apply u) = true)
    (hut : sameParts ((Valuation.naming n).apply u) (θ.apply t) = true) :
    sameParts (t.rename (θ.varOf n)) u = true ∧
      ∀ i ∈ t.ids, η.value (θ.varOf n i) = .placeholder (n + i) := by
  induction t generalizing u with
  | var x =>
    cases u with
    | var y =>
      -- a placeholder is equal to itself only
      have named {v : Term} {i : Nat} (h : sameParts (.placeholder i) v = true) :
          v = .placeholder i := by
        cases v <;> simp_all [sameParts]
      have hx := named hut
      have hy := named htu
      have back : θ.varOf n x.id = y.id := by
        simp only [Valuation.apply_var] at hx
        simp [Valuation.varOf, hx]
      refine ⟨by simp [sameParts, back], fun i hi => ?_⟩
      obtain rfl : i = x.id := by simpa using hi
      rw [back]
      exact hy
    | placeholder m =>
      simp only [Valuation.apply, Valuation.naming, sameParts, beq_iff_eq] at htu
      simp only [placeholderBound] at hu
      omega
    | _ => simp [Valuation.apply, Valuation.naming, sameParts] at htu
  | pair a d iha ihd =>
    cases u with
    | var y => simp [Valuation.apply, Valuation.naming, sameParts] at hut
    | pair b e =>
      simp only [placeholderBound, max_le_iff] at ht hu
      simp only [Valuation.apply, sameParts, Bool.and_eq_true] at htu hut
      obtain ⟨ha, hia⟩ := iha ht.1 hu.1 htu.1 hut.1
      obtain ⟨hd, hid⟩ := ihd ht.2 hu.2 htu.2 hut.2
      refine ⟨by simp [sameParts, ha, hd], fun i hi => ?_⟩
      rw [ids_pair, List.mem_append] at hi
      exact hi.elim (hia i) (hid i)
    | _ => simp [Valuation.apply, sameParts] at htu
  | succ p ih =>
    cases u with
    | var y => simp [Valuation.apply, Valuation.naming, sameParts] at hut
    | succ q => exact ih ht hu htu hut
    | _ => simp [Valuation.apply, sameParts] at htu
  | placeholder m =>
    cases u with
    | var y =>
      simp only [Valuation.apply, Valuation.naming, sameParts, beq_iff_eq] at hut
      simp only [placeholderBound] at ht
      omega
    | placeholder k =>
      refine ⟨by simpa [Valuation.apply, rename, sameParts] using htu, by simp [ids, vars]⟩
    | _ => simp [Valuation.apply, sameParts] at htu
  | _ =>
    cases u <;> simp_all [Valuation.apply, Valuation.naming, sameParts, rename, ids, vars]

/-- **Terms with the same instances are variants.** -/
theorem Term.variant_of_instances {t u : Term}
    (htu : ∀ θ : Valuation, ∃ η : Valuation, sameParts (θ.apply t) (η.apply u) = true)
    (hut : ∀ θ : Valuation, ∃ η : Valuation, sameParts (θ.apply u) (η.apply t) = true) :
    t.Variant u := by
  -- variables are named by placeholders that occur in neither term
  let n := max t.placeholderBound u.placeholderBound
  obtain ⟨η, hη⟩ := htu (.naming n)
  obtain ⟨θ, hθ⟩ := hut (.naming n)
  obtain ⟨renamed, back⟩ := rename_of_instances (Nat.le_max_left _ _) (Nat.le_max_right _ _) hη hθ
  refine ⟨_, fun i hi j hj hij => ?_, renamed⟩
  have equal : Term.placeholder (n + i) = .placeholder (n + j) := by
    rw [← back i hi, ← back j hj, hij]
  simpa using equal

/-! ### Bindings with the same solutions -/

/-- **Bindings are determined by their solutions**, up to the choice of the variables left open:
under acyclic bindings with the same solutions, a term resolves to variants. -/
theorem Subst.variant_of_solutions (hs : s.WildcardFree) (ht : t.WildcardFree) (has : s.Acyclic)
    (hat : t.Acyclic) (same : ∀ θ : Valuation, θ.Solves s ↔ θ.Solves t) {w u v : Term}
    (hu : s.resolve? w = some u) (hv : t.resolve? w = some v) : u.Variant v := by
  -- an instance of one term is its value in a solution, which is one of the other bindings as well
  refine variant_of_instances (fun θ => ⟨θ.through hs, ?_⟩) fun θ => ⟨θ.through ht, ?_⟩
  · have solves := (same _).mp (Valuation.through_solves (θ := θ) hs has)
    rw [← Valuation.through_apply hs hu]
    exact solves.sameParts_resolve? hv
  · have solves := (same _).mpr (Valuation.through_solves (θ := θ) ht hat)
    rw [← Valuation.through_apply ht hv]
    exact solves.sameParts_resolve? hu

/-- A term reads the same under acyclic bindings with the same solutions. -/
theorem Subst.reify?_of_solutions (hs : s.WildcardFree) (ht : t.WildcardFree) (has : s.Acyclic)
    (hat : t.Acyclic) (same : ∀ θ : Valuation, θ.Solves s ↔ θ.Solves t) {w : Term}
    (hw : w.hasWildcard = false) :
    ∃ a b, s.reify? w = some a ∧ t.reify? w = some b ∧ (a == b) = true := by
  obtain ⟨u, hu⟩ := has.resolve? w
  obtain ⟨v, hv⟩ := hat.resolve? w
  have variant := variant_of_solutions hs ht has hat same hu hv
  refine ⟨u.numbered, v.numbered, by rw [reify?_eq, hu]; rfl, by rw [reify?_eq, hv]; rfl, ?_⟩
  rw [beq_eq_sameParts (by rw [hasWildcard_numbered, hs.resolve? hw hu])]
  exact variant.sameParts_numbered

end Relational
