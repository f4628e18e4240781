import Relational.Proofs.Subst.Placing
import Relational.Proofs.Subst.Solvable

/-!
How answers read. Terms are resolved, and the variables that are left open get the placeholders
from number 0 on, in the order in which they occur first; several variables share one numbering.
So two terms read the same exactly if a renaming of variables turns what one resolves to into what
the other resolves to.
-/

namespace Relational

open Term

/-! ### Order of first occurrence -/

/-- The list has what occurs in `l`, each once, in the order in which it occurs first. -/
structure FirstOrder (is l : List Nat) : Prop where
  mem_iff (i : Nat) : i ∈ is ↔ i ∈ l
  sorted : is.Pairwise fun i j => l.idxOf i < l.idxOf j

lemma firstOrder_eraseDups (l : List Nat) : FirstOrder l.eraseDups l := by
  refine ⟨fun i => List.mem_eraseDups, ?_⟩
  induction l using List.reverseRecOn with
  | nil => exact .nil
  | append_singleton l a ih =>
    -- what occurred before keeps its place, and what is new comes after it
    have place {i : Nat} (hi : i ∈ l.eraseDups) : (l ++ [a]).idxOf i = l.idxOf i :=
      List.idxOf_append_of_mem (List.mem_eraseDups.mp hi)
    have before : l.eraseDups.Pairwise fun i j => (l ++ [a]).idxOf i < (l ++ [a]).idxOf j :=
      ih.imp_of_mem fun hi hj h => by rwa [place hi, place hj]
    by_cases ha : a ∈ l
    · rwa [eraseDups_append_of_mem ha]
    · rw [eraseDups_append_of_notMem ha, List.pairwise_append]
      refine ⟨before, List.pairwise_singleton _ _, fun i hi j hj => ?_⟩
      obtain rfl : j = a := by simpa using hj
      rw [place hi, List.idxOf_append_of_notMem ha]
      have := List.idxOf_lt_length_of_mem (List.mem_eraseDups.mp hi)
      omega

namespace Subst

variable {s t : Subst}

/-! ### Numbering -/

/-- The terms `ts` are the resolved terms `us` as parts of one answer: with placeholders for their
variables, which are open, and all else as it is. The number of a placeholder is the place of its
variable in the order in which the variables of all these terms occur first. -/
structure Reads (s : Subst) (us ts : List Term) : Prop where
  opened : ∀ u ∈ us, ∀ x ∈ u.vars, s.find? x = none
  numbered : ∃ is, FirstOrder is (us.flatMap ids) ∧ ts = us.map (placeBy is)
  closed : ∀ t ∈ ts, t.vars = []

lemma reads_placeBy {us : List Term} (h : ∀ u ∈ us, ∀ x ∈ u.vars, s.find? x = none) :
    Reads s us (us.map (placeBy (us.flatMap ids).eraseDups)) where
  opened := h
  numbered := ⟨_, firstOrder_eraseDups _, rfl⟩
  closed := List.forall_mem_map.mpr fun u _ => vars_placeBy _ u

/-- **Placeholders are numbered as variables occur first**, in each term that is read and across
all variables that are read together. -/
theorem reads_in_order (h : s.Acyclic) :
    (∀ xs : List Var, ∃ us ts, List.Forall₂ (fun x u => s.resolve? (.var x) = some u) xs us ∧
      s.reifyAll? xs = some ts ∧ ts.length = xs.length ∧ Reads s us ts) ∧
    ∀ t, ∃ u r, s.resolve? t = some u ∧ s.reify? t = some r ∧ Reads s [u] [r] := by
  constructor
  · intro xs
    obtain ⟨r, hr⟩ := h.resolve? (.ofList (xs.map .var))
    obtain ⟨us, rfl, items⟩ := resolve?_ofList hr
    have resolved : List.Forall₂ (fun x u => s.resolve? (.var x) = some u) xs us := by
      simpa using items
    have opened : ∀ u ∈ us, ∀ x ∈ u.vars, s.find? x = none := by
      clear hr items
      induction resolved with
      | nil => simp
      | cons hu _ ih => exact List.forall_mem_cons.mpr ⟨find?_of_resolve? hu, ih⟩
    have reads := reads_placeBy opened
    refine ⟨us, _, resolved, reifyAll?_eq hr, ?_, ?_⟩
    · rw [List.length_map, resolved.length_eq]
    · rwa [order, ids_ofList]
  · intro t
    obtain ⟨u, hu⟩ := h.resolve? t
    have opened : ∀ v ∈ [u], ∀ x ∈ v.vars, s.find? x = none := by
      simpa using find?_of_resolve? hu
    have reads := reads_placeBy opened
    refine ⟨u, u.numbered, hu, by rw [reify?_eq, hu]; rfl, ?_⟩
    simpa [numbered, order] using reads

/-- A term with a repeated variable, a variable linked to one of its variables, and an open one. -/
theorem reads_in_order_linked :
    let s := (Subst.empty.extend ⟨0, none⟩ (.pair (.var ⟨3, none⟩) (.pair (.var ⟨2, none⟩)
      (.var ⟨3, none⟩)))).extend ⟨1, none⟩ (.var ⟨2, none⟩)
    s.Acyclic ∧ ∃ us, Reads s us
      [.pair (.placeholder 0) (.pair (.placeholder 1) (.placeholder 0)), .placeholder 1,
        .placeholder 2] := by
  intro s
  have straight : s.Straight := by
    refine (placed_empty.acyclic.straight.extend fun y hy => ?_).extend fun y hy => ?_
    · cases hy
    · cases hy
      exact ⟨by decide, rfl⟩
  let θ : Valuation := ⟨fun i => if i = 0 then .pair .zero (.pair .zero .zero) else .zero,
    by intro i; split <;> rfl⟩
  have solves : θ.Solves s := by
    rw [Valuation.solves_extend rfl, Valuation.solves_extend rfl]
    exact ⟨⟨fun x t h => by simp at h, rfl⟩, rfl⟩
  have acyclic : s.Acyclic := solves.acyclic straight
  obtain ⟨us, ts, -, read, -, reads⟩ :=
    (reads_in_order acyclic).1 [⟨0, none⟩, ⟨1, none⟩, ⟨5, none⟩]
  cases read
  exact ⟨acyclic, us, reads⟩

/-! ### Equal readings -/

/-- **What is read is canonical.** Two terms read the same if and only if a bijection between the
variables of what they resolve to turns one into the other. Wildcards are left out, which are not
equal to anything, and placeholders, which would read like variables. -/
theorem reify?_beq_iff (hs : s.Acyclic) (ht : t.Acyclic) (v w : Term) :
    ∃ v' w' a b, s.resolve? v = some v' ∧ t.resolve? w = some w' ∧
      s.reify? v = some a ∧ t.reify? w = some b ∧
      (v'.hasWildcard = false → v'.hasPlaceholder = false →
        w'.hasWildcard = false → w'.hasPlaceholder = false →
        ((a == b) = true ↔ ∃ f : Nat → Nat,
          Set.BijOn f {i | i ∈ v'.ids} {i | i ∈ w'.ids} ∧ (v'.rename f == w') = true)) := by
  obtain ⟨v', hv⟩ := hs.resolve? v
  obtain ⟨w', hw⟩ := ht.resolve? w
  refine ⟨v', w', v'.numbered, w'.numbered, hv, hw, by rw [reify?_eq, hv]; rfl,
    by rw [reify?_eq, hw]; rfl, fun wildV placeV wildW placeW => ?_⟩
  rw [beq_eq_sameParts (by rw [hasWildcard_numbered, wildV]), ← variant_iff_bijOn wildV]
  exact ⟨variant_of_sameParts_numbered placeV placeW, Variant.sameParts_numbered⟩

/-- Two lists of three variables, the first and last of which are the same. -/
theorem reify?_beq_iff_lists :
    let s := Subst.empty.extend ⟨0, none⟩
      (.pair (.var ⟨2, none⟩) (.pair (.var ⟨3, none⟩) (.var ⟨2, none⟩)))
    let v := Term.pair (.var ⟨7, none⟩) (.pair (.var ⟨4, none⟩) (.var ⟨7, none⟩))
    s.Acyclic ∧ Subst.empty.Acyclic ∧ ∃ v', s.resolve? (.var ⟨0, none⟩) = some v' ∧
      ∃ f : Nat → Nat, Set.BijOn f {i | i ∈ v'.ids} {i | i ∈ v.ids} ∧
        (v'.rename f == v) = true := by
  intro s v
  have straight : s.Straight := placed_empty.acyclic.straight.extend fun y hy => by cases hy
  let θ : Valuation := ⟨fun i => if i = 0 then .pair .zero (.pair .zero .zero) else .zero,
    by intro i; split <;> rfl⟩
  have solves : θ.Solves s := by
    rw [Valuation.solves_extend rfl]
    exact ⟨fun x t h => by simp at h, rfl⟩
  have acyclic : s.Acyclic := solves.acyclic straight
  obtain ⟨v', w', a, b, hv, hw, ha, hb, canonical⟩ :=
    reify?_beq_iff acyclic placed_empty.acyclic (.var ⟨0, none⟩) v
  cases hv
  cases hw
  cases ha
  cases hb
  exact ⟨acyclic, placed_empty.acyclic, _, rfl, (canonical rfl rfl rfl rfl).mp rfl⟩

end Subst

end Relational
