import Relational.Proofs.Subst.Resolution
import Relational.Proofs.Subst.Supply

/-!
Equations with a finite solution. Under a solution every term has a size; a binding cannot lead
to a larger term, so bindings that have a solution are acyclic, and taking terms apart makes them
smaller. Only as many sizes are met on the way as there are parts, so unification ends.
-/

open Relation (TransGen)

namespace Relational

open Subst Term

variable {θ : Valuation} {s : Subst} {u v : Term}

/-! ### Sizes under a solution -/

lemma Term.size_eq_of_sameParts {t u : Term} (h : sameParts t u = true) : t.size = u.size := by
  fun_induction sameParts t u with
  | case3 a d b e iha ihd =>
    rw [Bool.and_eq_true] at h
    simp [size, iha h.1, ihd h.2]
  | case6 p q ih => simp [size, ih h]
  | case9 => simp at h
  | _ => rfl

namespace Valuation

lemma size_value_lt {t : Term} {i : Nat} (h : i ∈ t.ids) :
    (∃ y, t = .var y ∧ y.id = i) ∨ (θ.value i).size < (θ.apply t).size := by
  have le_of {t : Term} (h : (∃ y, t = .var y ∧ y.id = i) ∨
      (θ.value i).size < (θ.apply t).size) : (θ.value i).size ≤ (θ.apply t).size := by
    rcases h with ⟨y, rfl, rfl⟩ | h
    · exact Nat.le_refl _
    · exact h.le
  induction t with
  | var x => exact .inl ⟨x, rfl, (by simpa using h : i = x.id).symm⟩
  | pair a d iha ihd =>
    right
    rw [ids_pair, List.mem_append] at h
    rw [apply_pair, Term.size]
    rcases h with h | h
    · have := le_of (iha h); omega
    · have := le_of (ihd h); omega
  | succ p ih =>
    right
    have := le_of (ih h)
    rw [apply_succ, Term.size]
    omega
  | _ => simp [ids, vars] at h

lemma Solves.size_eq (hθ : θ.Solves s) {x : Var} {t : Term} (hx : s.find? x = some t) :
    (θ.value x.id).size = (θ.apply t).size :=
  size_eq_of_sameParts (hθ.sameParts hx)

/-- Bindings that have a solution and no cycle of variables have no cycle at all. -/
theorem Solves.acyclic (hθ : θ.Solves s) (hs : s.Straight) : s.Acyclic := by
  -- a path that loses no size is a path from variable to variable
  have step : ∀ i j, s.Leads i j →
      s.Links i j ∧ (θ.value j).size = (θ.value i).size ∨ (θ.value j).size < (θ.value i).size := by
    rintro _ j ⟨x, t, rfl, hx, hj⟩
    rw [hθ.size_eq hx]
    rcases size_value_lt (θ := θ) hj with ⟨y, rfl, rfl⟩ | h
    · exact .inl ⟨⟨x, y, rfl, hx, rfl⟩, rfl⟩
    · exact .inr h
  have path : ∀ i j, TransGen s.Leads i j →
      TransGen s.Links i j ∧ (θ.value j).size = (θ.value i).size ∨
        (θ.value j).size < (θ.value i).size := by
    intro i j hij
    induction hij with
    | single h => exact (step _ _ h).imp_left fun h => ⟨.single h.1, h.2⟩
    | tail _ h ih =>
      rcases ih with ⟨hp, he⟩ | hl <;> rcases step _ _ h with ⟨hp', he'⟩ | hl'
      · exact .inl ⟨hp.tail hp', by omega⟩
      all_goals exact .inr (by omega)
  intro i hi
  rcases path i i hi with ⟨hp, -⟩ | hl
  · exact hs i hp
  · omega

end Valuation

/-! ### Depth under a solution -/

namespace Subst

/-- How many terms of `P` have smaller values than `t`. -/
def rank (θ : Valuation) (P : Finset Term) (t : Term) : Nat :=
  (P.filter fun p => (θ.apply p).size < (θ.apply t).size).card

lemma rank_lt {P : Finset Term} {p t : Term} (hp : p ∈ P)
    (h : (θ.apply p).size < (θ.apply t).size) : rank θ P p < rank θ P t := by
  refine Finset.card_lt_card ⟨fun q hq => ?_, fun hsub => ?_⟩
  · simp only [Finset.mem_filter] at hq ⊢
    exact ⟨hq.1, hq.2.trans h⟩
  · have : p ∈ P.filter fun q => (θ.apply q).size < (θ.apply p).size :=
      hsub (Finset.mem_filter.mpr ⟨hp, h⟩)
    simp at this

lemma rank_le_card (P : Finset Term) (t : Term) : rank θ P t ≤ P.card :=
  Finset.card_filter_le _ _

lemma Walks.size_eq {t a : Term} (h : Walks s t a) (hθ : θ.Solves s) :
    (θ.apply t).size = (θ.apply a).size :=
  size_eq_of_sameParts (h.sameParts_apply hθ)

/-- Two terms that a solution makes equal unify, as deep as the values have parts in `P`. -/
lemma exists_unifyWithin {P : Finset Term} (hP : Inherited (· ∈ P)) {n : Nat} (hs : s.Straight)
    (hp : Plain s u v) (hd : Among (· ∈ P) s u v) (hθ : θ.Solves s)
    (heq : sameParts (θ.apply u) (θ.apply v) = true) (hn : rank θ P u < n) :
    ∃ t, unifyWithin n s u v = some (some t) := by
  induction n generalizing s u v with
  | zero => omega
  | succ n ih =>
    rw [unifyWithin_succ]
    obtain ⟨a, ha⟩ := hs.walk? u
    obtain ⟨b, hb⟩ := hs.walk? v
    have face : ∀ m, meet a b = m → Faces s u v m := fun m hm => ⟨a, b, ha, hb, hm⟩
    have hsize := (walks_of_walk? ha).size_eq hθ
    simp only [ha, hb]
    rcases hm : meet a b with _ | _ | ⟨x, t⟩ | ⟨a₁, d₁, b₁, e₁⟩ | ⟨p, q⟩
    · exact ⟨s, rfl⟩
    · -- the solution makes the roots equal, so they do not clash
      rw [sameParts_of_walk? hθ ha hb, sameParts_of_meet_clash hm] at heq
      exact absurd heq (by simp)
    · exact ⟨_, rfl⟩
    · obtain ⟨rfl, rfl⟩ := eq_of_meet_pairs hm
      have hf := face _ hm
      obtain ⟨pa, pd⟩ := hp.pairs inherited_hasWildcard hf
      obtain ⟨da, dd⟩ := hd.pairs hP hf
      rw [hf.sameParts_pairs hθ, Bool.and_eq_true] at heq
      rw [Valuation.apply_pair, Term.size] at hsize
      have ra : rank θ P a₁ < rank θ P u := rank_lt da.left (by omega)
      have rd : rank θ P d₁ < rank θ P u := rank_lt dd.left (by omega)
      obtain ⟨s', hs'⟩ := ih hs pa da hθ heq.1 (by omega)
      -- the heads leave bindings of the same kind, with the same solution
      have hu := unifies_of_unifyWithin hs'
      obtain ⟨_, ⟨⟩, hθ'⟩ := (hu.solves_iff pa).mp ⟨hθ, heq.1⟩
      obtain ⟨t, ht⟩ := ih (hu.straight hs _ rfl) ⟨hu.wildcardFree pa _ rfl, pd.left, pd.right⟩
        ⟨(hu.grows hP da _ rfl).values hd.subst, dd.left, dd.right⟩ hθ' heq.2 (by omega)
      exact ⟨t, by simp [hs', ht]⟩
    · obtain ⟨rfl, rfl⟩ := eq_of_meet_succs hm
      have hf := face _ hm
      have ds := hd.succs hP hf
      rw [hf.sameParts_succs hθ] at heq
      rw [Valuation.apply_succ, Term.size] at hsize
      have rp : rank θ P p < rank θ P u := rank_lt ds.left (by omega)
      exact ih hs (hp.succs inherited_hasWildcard hf) ds hθ heq (by omega)

lemma exists_unify? (hs : s.Straight) (hp : Plain s u v) (hθ : θ.Solves s)
    (heq : sameParts (θ.apply u) (θ.apply v) = true) : ∃ r, s.unify? u v = some r := by
  have deep : rank θ (supply s u v) u < s.depthBound u v := by
    have := rank_le_card (θ := θ) (supply s u v) u
    have := card_supply_le s u v
    have : s.weight + u.size + v.size + 1 ≤ Nat.pow (s.weight + u.size + v.size + 1) 3 :=
      Nat.le_self_pow (by omega) _
    unfold depthBound
    omega
  obtain ⟨t, ht⟩ :=
    exists_unifyWithin (inherited_supply s u v) hs hp (among_supply s u v) hθ heq deep
  unfold unify?
  rcases unifyWithin quickDepth s u v with _ | r
  · exact ⟨_, ht⟩
  · exact ⟨r, rfl⟩

/-- **Solvable equations unify.** Where the bindings are acyclic and have a solution that makes
the two terms equal, unification ends with bindings that are acyclic again, under which every
term can be read, and under which the two terms read the same. -/
theorem unify?_of_solvable (hs : s.WildcardFree) (ha : s.Acyclic) (hu : u.hasWildcard = false)
    (hv : v.hasWildcard = false) (hθ : θ.Solves s) (heq : (θ.apply u == θ.apply v) = true) :
    ∃ t, s.unify? u v = some (some t) ∧ t.Acyclic ∧
      (∀ w, (∃ r, t.resolve? w = some r) ∧ ∃ r, t.reify? w = some r) ∧
      ∃ u' v', t.resolve? u = some u' ∧ t.resolve? v = some v' ∧ (u' == v') = true := by
  have plain : Plain s u v := ⟨hs, hu, hv⟩
  rw [Valuation.beq_apply hu] at heq
  obtain ⟨r, hr⟩ := exists_unify? ha.straight plain hθ heq
  have run := unifies_of_unify? hr
  obtain ⟨t, rfl, hθt⟩ := (run.solves_iff plain).mp ⟨hθ, heq⟩
  have ht : t.Acyclic := hθt.acyclic (run.straight ha.straight _ rfl)
  have htw : t.WildcardFree := run.wildcardFree plain _ rfl
  obtain ⟨u', hu'⟩ := ht.resolve? u
  obtain ⟨v', hv'⟩ := ht.resolve? v
  refine ⟨t, hr, ht, fun w => ⟨ht.resolve? w, ht.reify? w⟩, u', v', hu', hv', ?_⟩
  rw [beq_eq_sameParts (htw.resolve? hu hu')]
  exact ht.sameParts_resolve? htw hu' hv' fun η hη =>
    ((run.solves_iff plain).mpr ⟨t, rfl, hη⟩).2

/-- Two lists with a bound and an open variable, which the valuation of all variables but one
by zero makes equal. -/
theorem unify?_of_solvable_lists :
    ∃ t, (Subst.empty.extend ⟨0, none⟩ (.var ⟨1, none⟩)).unify?
        (.pair (.var ⟨0, none⟩) .nil) (.pair .zero (.var ⟨2, none⟩)) = some (some t) ∧
      t.Acyclic := by
  have hs : (Subst.empty.extend ⟨0, none⟩ (.var ⟨1, none⟩)).WildcardFree :=
    WildcardFree.extend (fun x t h => by simp at h) rfl _
  have straight : (Subst.empty.extend ⟨0, none⟩ (.var ⟨1, none⟩)).Straight := by
    apply Straight.extend placed_empty.acyclic.straight
    rintro _ ⟨⟩
    simp
  let θ : Valuation := ⟨fun i => if i = 2 then .nil else .zero, by intro i; split <;> rfl⟩
  have hθ : θ.Solves (Subst.empty.extend ⟨0, none⟩ (.var ⟨1, none⟩)) := by
    rw [Valuation.solves_extend (by simp)]
    exact ⟨fun x t h => by simp at h, rfl⟩
  obtain ⟨t, ht, hta, -⟩ := unify?_of_solvable hs (hθ.acyclic straight)
    (u := .pair (.var ⟨0, none⟩) .nil) (v := .pair .zero (.var ⟨2, none⟩)) rfl rfl hθ rfl
  exact ⟨t, ht, hta⟩

end Subst

end Relational
