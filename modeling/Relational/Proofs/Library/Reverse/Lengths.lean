import Relational.Proofs.Library.Append
import Relational.Proofs.Query.Shapes

/-!
Lists of the same length. The search takes an item of each list at a step, and ends if either list
has a known length: then the other is a list of so many unknown items.
-/

namespace Relational

open State Subst Goal

namespace Term

variable {t u v w : Term}

def Lists (k : Nat) : Term → Prop := (unknowns k .nil).Shaped

lemma lists_zero : Lists 0 t ↔ t = nil := (shaped_of_isGround (g := .nil) rfl).trans sameParts_nil

lemma lists_succ {k : Nat} : Lists (k + 1) t ↔ ∃ a d, a.isGround = true ∧ d.isGround = true ∧
    sameParts (pair a d) t = true ∧ Lists k d := shaped_unknowns_succ

lemma Lists.tail {a d : Term} {k : Nat} (h : Lists (k + 1) t) (same : sameParts (pair a d) t = true) :
    Lists k d := by
  obtain ⟨b, e, -, -, same', he⟩ := lists_succ.mp h
  rw [sameParts_comm] at same'
  exact he.of_sameParts (Bool.and_eq_true_iff.mp (sameParts_trans same same')).2

lemma exists_ofList {k : Nat} (h : Lists k t) : ∃ ts : List Term, t = ofList ts := by
  induction k generalizing t with
  | zero => exact ⟨[], lists_zero.mp h⟩
  | succ k ih =>
    obtain ⟨a, d, -, -, pair, hd⟩ := lists_succ.mp h
    obtain ⟨b, e, rfl, -, tail⟩ := pair_sameParts.mp pair
    rw [sameParts_comm] at tail
    obtain ⟨ts, rfl⟩ := ih (hd.of_sameParts tail)
    exact ⟨b :: ts, rfl⟩

lemma lists_ofList {ts : List Term} (h : ∀ t ∈ ts, t.isGround = true) :
    Lists ts.length (ofList ts) := shaped_unknowns_nil.mpr ⟨ts, rfl, h, sameParts_refl _⟩

end Term

namespace Goal.Splits

variable {ι : Type} {p : Program} {n k : Nat} {s : State} {a b c g : Term} {is : List ι}

lemma sameLengtho_goal (a b : Term) : Standard.sameLengtho.goal [a, b] =
    Goal.disj2 (Goal.conj2 (Goal.call (.standard .emptyo) [a]) (Goal.call (.standard .emptyo) [b]))
      (Goal.freshNamed ["x", "xs", "y", "ys"] fun
        | [x, xs, y, ys] => Goal.conj2 (Goal.call (.standard .conso) [.var x, .var xs, a])
            (Goal.conj2 (Goal.call (.standard .conso) [.var y, .var ys, b])
              (Goal.call (.standard .sameLengtho) [.var xs, .var ys]))
        | _ => Goal.fail) := rfl

def BothTails (a b : Term) (θ : Valuation) (v w : Term) : Prop :=
  (∃ u, u.isGround = true ∧ Term.sameParts (.pair u v) (θ.apply a) = true) ∧
    ∃ u, u.isGround = true ∧ Term.sameParts (.pair u w) (θ.apply b) = true

/-- One step: `a` and `b` are empty, or their tails are new variables, and how those compare splits
the state as it does. -/
lemma sameLengtho (hs : s.Proper n) (ha : Known n a) (hb : Known n b) (is : List ι)
    (R : ι → Term → Term → Prop)
    (rest : ∀ m x y t, Opens n s (BothTails a b) m x y t →
      Splits p m (Goal.call (.standard .sameLengtho) [x, y]) t
        (is.map fun i θ => R i (θ.apply x) (θ.apply y))) :
    Splits p n (Goal.call (.standard .sameLengtho) [a, b]) s
      ((fun θ => θ.apply a = .nil ∧ θ.apply b = .nil) ::
        is.map fun i θ => ∃ v w, v.isGround = true ∧ w.isGround = true ∧
          BothTails a b θ v w ∧ R i v w) := by
  let x : Var := ⟨s.next, some "x"⟩
  let xs : Var := ⟨s.next + 1, some "xs"⟩
  let y : Var := ⟨s.next + 2, some "y"⟩
  let ys : Var := ⟨s.next + 3, some "ys"⟩
  have ha' := hs.known ha 4
  have hb' := hs.known hb 4
  have new {u : Term} (hu : Known n u) (i : Nat) : s.next + i ∉ u.ids :=
    hs.notMem hu (Nat.le_add_right _ _)
  have free (i : Nat) := leaves_fresh hs (k := 4) (Nat.le_add_right s.next i)
  have first := conso_free (p := p) (x := x) (y := xs) (hs.fresh 4) ha' (by simp [x])
    (by simp [xs]) (free 0) (free 1) (by simp [x, xs]) (new ha 0) (new ha 1)
  have body := conj2_one first fun t ht => by
    have still (i : Nat) (hi : 2 ≤ i) : t.Leaves (s.next + 4) (s.next + i) := by
      refine ht.leaves (free i) fun θ η same h => ?_
      rw [same x.id (by simp [x]) (by simp [x]; omega),
        same xs.id (by simp [xs]) (by simp [xs]; omega)] at h
      rwa [← hs.apply_eq ha (Nat.le_add_right _ _) same]
    have second := conso_free (p := p) (x := y) (y := ys) ht.proper hb' (by simp [y])
      (by simp [ys]) (still 2 (by omega)) (still 3 (by omega)) (by simp [y, ys]) (new hb 2)
      (new hb 3)
    refine conj2_one second fun u hu => rest (s.next + 4) (.var xs) (.var ys) u ?_
    refine (ht.trans hu).opens (Q := fun θ vs =>
      Term.sameParts (.pair (vs 0) (vs 1)) (θ.apply a) = true ∧
        Term.sameParts (.pair (vs 2) (vs 3)) (θ.apply b) = true) hs 1 3 rfl rfl ?_ ?_ ?_
    · intro θ η agree vs h
      rwa [agree.apply_eq ha.2, agree.apply_eq hb.2] at h
    · exact fun θ vs ground h => ⟨⟨vs 0, ground 0, h.1⟩, vs 2, ground 2, h.2⟩
    · rintro θ v w hv hw ⟨⟨u, hu, left⟩, u', hu', right⟩
      exact ⟨![u, v, u', w], by simp [Fin.forall_fin_succ, hu, hv, hu', hw], ⟨left, right⟩, rfl,
        rfl⟩
  have empty := conj2_both (emptyo (p := p) hs ha) fun t ht => emptyo (p := p) ht.proper hb
  have split : Splits p n (Goal.call (.standard .sameLengtho) [a, b]) s
      ((fun θ => θ.apply a = .nil ∧ θ.apply b = .nil) ::
        is.map fun i θ => ∃ vs : Fin 4 → Term, (∀ j, (vs j).isGround = true) ∧
          (Term.sameParts (.pair (vs 0) (vs 1)) (θ.apply a) = true ∧
            Term.sameParts (.pair (vs 2) (vs 3)) (θ.apply b) = true) ∧ R i (vs 1) (vs 3)) := by
    refine call (by simp [ha.1, hb.1]) (sameLengtho_goal a b) ?_
    refine disj2 empty (freshNamed rfl hs ?_ (body.congr_map fun _ _ _ _ => and_assoc.symm))
    intro i _ θ η agree vs h
    rwa [agree.apply_eq ha.2, agree.apply_eq hb.2] at h
  refine split.congr_cons (fun _ _ => .rfl) fun i _ θ _ => ⟨?_, ?_⟩
  · rintro ⟨vs, ground, both, here⟩
    exact ⟨vs 1, vs 3, ground 1, ground 3, ⟨⟨vs 0, ground 0, both.1⟩, vs 2, ground 2, both.2⟩, here⟩
  · rintro ⟨v, w, hv, hw, ⟨⟨u, hu, left⟩, u', hu', right⟩, here⟩
    exact ⟨![u, v, u', w], by simp [Fin.forall_fin_succ, hu, hv, hu', hw], ⟨left, right⟩, here⟩

/-- If one side has a known length, then both sides have it. -/
lemma sameLengtho_lists (hs : s.Proper n) (ha : Known n a) (hb : Known n b)
    (known : (∀ θ, s.Allows n θ → Term.Lists k (θ.apply a)) ∨
      ∀ θ, s.Allows n θ → Term.Lists k (θ.apply b)) :
    Splits p n (Goal.call (.standard .sameLengtho) [a, b]) s
      [fun θ => Term.Lists k (θ.apply a) ∧ Term.Lists k (θ.apply b)] := by
  induction k generalizing n s a b with
  | zero =>
    have split := sameLengtho (p := p) hs ha hb [] (fun (_ : Unit) _ _ => True)
      fun m x y t h => by
        obtain ⟨θ, hθ, ⟨u, -, left⟩, u', -, right⟩ := h.exists_values
        rcases known with known | known
        · rw [Term.lists_zero.mp (known θ hθ)] at left
          cases left
        · rw [Term.lists_zero.mp (known θ hθ)] at right
          cases right
    exact split.congr_one fun θ _ => and_congr Term.lists_zero.symm Term.lists_zero.symm
  | succ k ih =>
    have split := sameLengtho (p := p) hs ha hb [()] (fun _ v w => Term.Lists k v ∧ Term.Lists k w)
      fun m x y t h => ih h.proper h.left h.right <| known.imp
        (fun known θ hθ => by
          obtain ⟨hθ, ⟨u, -, left⟩, -⟩ := h.allows θ hθ
          exact (known θ hθ).tail left)
        fun known θ hθ => by
          obtain ⟨hθ, -, u, -, right⟩ := h.allows θ hθ
          exact (known θ hθ).tail right
    refine (split.drop fun θ hθ here => ?_).congr_one fun θ _ => ?_
    · rcases known with known | known
      · obtain ⟨v, w, -, -, pair, -⟩ := Term.lists_succ.mp (known θ hθ)
        rw [here.1] at pair
        cases pair
      · obtain ⟨v, w, -, -, pair, -⟩ := Term.lists_succ.mp (known θ hθ)
        rw [here.2] at pair
        cases pair
    · rw [Term.lists_succ, Term.lists_succ]
      constructor
      · rintro ⟨v, w, hv, hw, ⟨⟨u, hu, left⟩, u', hu', right⟩, listV, listW⟩
        exact ⟨⟨u, v, hu, hv, left, listV⟩, u', w, hu', hw, right, listW⟩
      · rintro ⟨⟨u, v, hu, hv, left, listV⟩, u', w, hu', hw, right, listW⟩
        exact ⟨v, w, hv, hw, ⟨⟨u, hu, left⟩, u', hu', right⟩, listV, listW⟩

end Goal.Splits

end Relational
