import Relational.Proofs.Library.Addition

/-!
One step of multiplication. Four clauses settle operands of which one is zero or one; the fifth, for
operands greater than one, takes the second off the product and goes on with the predecessor of the
first.
-/

namespace Relational

open State Subst Goal

namespace Goal.Splits

variable {ι : Type} {p : Program} {n : Nat} {s : State} {a b c : Term} {is : List ι}

lemma mulo_goal (a b c : Term) : Standard.mulo.goal [a, b, c] = Goal.freshNamed ["a0", "c0"] fun
    | [x, y] => Goal.disj2 (Goal.conj2 (Goal.eq (.nat 0) a) (Goal.eq (.nat 0) c))
        (Goal.disj2 (Goal.conj2 (Goal.call (.standard .poso) [a])
            (Goal.conj2 (Goal.eq (.nat 0) b) (Goal.eq (.nat 0) c)))
        (Goal.disj2 (Goal.conj2 (Goal.eq (.nat 1) a)
            (Goal.conj2 (Goal.call (.standard .poso) [b]) (Goal.eq b c)))
        (Goal.disj2 (Goal.conj2 (Goal.call (.standard .gt1o) [a])
            (Goal.conj2 (Goal.eq (.nat 1) b) (Goal.eq a c)))
        (Goal.conj2 (Goal.call (.standard .gt1o) [a]) (Goal.conj2 (Goal.call (.standard .gt1o) [b])
            (Goal.conj2 (Goal.call (.standard .inco) [.var x, a])
              (Goal.conj2 (Goal.call (.standard .addo) [.var y, b, c])
                (Goal.call (.standard .mulo) [.var x, b, .var y]))))))))
    | _ => Goal.fail := rfl

/-- What is known for the search to end: the product, or both operands. -/
def Enough (n : Nat) (s : State) (a b c : Term) : Prop :=
  (∃ m, s.Fixes n c (.nat m)) ∨ (∃ i, s.Fixes n a (.nat i)) ∧ ∃ j, s.Fixes n b (.nat j)

lemma Enough.mono {m : Nat} {t : State} (h : Enough n s a b c)
    (hst : ∀ θ, t.Allows m θ → s.Allows n θ) : Enough m t a b c := by
  rcases h with ⟨k, known⟩ | ⟨⟨i, knownA⟩, j, knownB⟩
  · exact .inl ⟨k, fun θ hθ => known θ (hst θ hθ)⟩
  · exact .inr ⟨⟨i, fun θ hθ => knownA θ (hst θ hθ)⟩, j, fun θ hθ => knownB θ (hst θ hθ)⟩

/-- It decides whether an operand is equal to the product. -/
lemma Enough.decided (h : Enough n s a b c) (hs : s.Proper n) (ha : Known n a) (hb : Known n b)
    (hc : Known n c) : Decided s.subst a c ∧ Decided s.subst b c := by
  rcases h with ⟨m, known⟩ | ⟨⟨i, knownA⟩, j, knownB⟩
  · have ground := Term.isGround_nat m
    exact ⟨(known.decided ground hs hc ha).2, (known.decided ground hs hc hb).2⟩
  · exact ⟨(knownA.decided (Term.isGround_nat i) hs ha hc).1,
      (knownB.decided (Term.isGround_nat j) hs hb hc).1⟩

/-- Both operands are greater than one, and the first comes right after `v`. -/
def Greater (a b : Term) (θ : Valuation) (v : Term) : Prop :=
  ((∃ u, θ.apply a = .succ (.succ u)) ∧ ∃ u, θ.apply b = .succ (.succ u)) ∧
    Term.sameParts (.succ v) (θ.apply a) = true

lemma Greater.congr {θ η : Valuation} {v : Term} (h : Greater a b θ v) (agree : θ.AgreesBelow η n)
    (ha : Known n a) (hb : Known n b) : Greater a b η v := by
  rwa [Greater, agree.apply_eq ha.2, agree.apply_eq hb.2] at h

/-- In a state made from `s`, both operands are greater than one, and `x` and `y` are new variables:
`x` for the predecessor of the first operand, `y` for anything. -/
def Factors (n : Nat) (s : State) (a b : Term) : Nat → Term → Term → State → Prop :=
  Opens n s fun θ v _ => Greater a b θ v

namespace Factors

variable {m j : Nat} {x y : Term} {t : State} (h : Factors n s a b m x y t)
include h

lemma fixes_left {i : Nat} (known : s.Fixes n a (.nat (i + 1))) : t.Fixes m x (.nat i) := by
  intro θ hθ
  obtain ⟨hs, -, here⟩ := h.allows θ hθ
  exact Term.sameParts_nat.mpr (Term.eq_nat_of_succ here (known θ hs))

lemma one_lt_left (known : s.Fixes n a (.nat j)) : 1 < j := by
  obtain ⟨θ, hs, ⟨more, -⟩, -⟩ := h.exists_values
  rwa [known.eq_nat hs, Term.exists_nat_eq_succ_succ] at more

lemma one_lt_right (known : s.Fixes n b (.nat j)) : 1 < j := by
  obtain ⟨θ, hs, ⟨-, more⟩, -⟩ := h.exists_values
  rwa [known.eq_nat hs, Term.exists_nat_eq_succ_succ] at more

end Factors

/-- What the first four clauses say, of operands of which one is zero or one. -/
def smallCases (a b c : Term) : List (Valuation → Prop) :=
  [fun θ => θ.apply a = .nat 0 ∧ θ.apply c = .nat 0,
    fun θ => (∃ v, θ.apply a = .succ v) ∧ θ.apply b = .nat 0 ∧ θ.apply c = .nat 0,
    fun θ => θ.apply a = .nat 1 ∧ (∃ v, θ.apply b = .succ v) ∧
      Term.sameParts (θ.apply b) (θ.apply c) = true,
    fun θ => (∃ v, θ.apply a = .succ (.succ v)) ∧ θ.apply b = .nat 1 ∧
      Term.sameParts (θ.apply a) (θ.apply c) = true]

section

variable (hs : s.Proper n) (ha : Known n a) (hb : Known n b) (hc : Known n c)
include hs ha hb hc

omit hs in
lemma smallCases_congr {P : Valuation → Prop} (hP : P ∈ smallCases a b c) {θ η : Valuation}
    (agree : θ.AgreesBelow η n) (h : P θ) : P η := by
  simp only [smallCases, List.mem_cons, List.not_mem_nil, or_false] at hP
  rcases hP with rfl | rfl | rfl | rfl
  all_goals
    simpa only [agree.apply_eq ha.2, agree.apply_eq hb.2, agree.apply_eq hc.2] using h

lemma mulo_small {g : Goal Pending} {Ps : List (Valuation → Prop)} (enough : Enough n s a b c)
    (hg : Splits p n g s Ps) :
    Splits p n (Goal.disj2 (Goal.conj2 (Goal.eq (.nat 0) a) (Goal.eq (.nat 0) c))
      (Goal.disj2 (Goal.conj2 (Goal.call (.standard .poso) [a])
          (Goal.conj2 (Goal.eq (.nat 0) b) (Goal.eq (.nat 0) c)))
      (Goal.disj2 (Goal.conj2 (Goal.eq (.nat 1) a)
          (Goal.conj2 (Goal.call (.standard .poso) [b]) (Goal.eq b c)))
      (Goal.disj2 (Goal.conj2 (Goal.call (.standard .gt1o) [a])
          (Goal.conj2 (Goal.eq (.nat 1) b) (Goal.eq a c))) g)))) s (smallCases a b c ++ Ps) := by
  have decided {P : Valuation → Prop} {t : State} (ht : Narrows n P s t) :=
    (enough.mono fun θ hθ => ((ht.allows_iff θ).mp hθ).1).decided ht.proper ha hb hc
  have zero := conj2_both (p := p) (eq_nat hs ha 0) fun t ht => eq_nat ht.proper hc 0
  have zeroRight := conj2_both (p := p) (poso hs ha) fun t ht =>
    conj2_both (eq_nat ht.proper hb 0) fun u hu => eq_nat hu.proper hc 0
  have one := conj2_both (p := p) (eq_nat hs ha 1) fun t ht =>
    conj2_both (poso ht.proper hb) fun u hu => eq hu.proper hb hc (decided (ht.trans hu)).2
  have oneRight := conj2_both (p := p) (gt1o hs ha) fun t ht =>
    conj2_both (eq_nat ht.proper hb 1) fun u hu => eq hu.proper ha hc (decided (ht.trans hu)).1
  have all := disj2 zero (disj2 zeroRight (disj2 one (disj2 oneRight hg)))
  exact all

omit hc in
lemma mulo_fifth {R : ι → Valuation → Term → Term → Prop} (name name' : Option String)
    (rest : ∀ m x y t, Factors n s a b m x y t →
      Splits p m (Goal.conj2 (Goal.call (.standard .addo) [y, b, c])
        (Goal.call (.standard .mulo) [x, b, y])) t
        (is.map fun i θ => R i θ (θ.apply x) (θ.apply y))) :
    Splits p (s.next + 2) (Goal.conj2 (Goal.call (.standard .gt1o) [a])
      (Goal.conj2 (Goal.call (.standard .gt1o) [b])
        (Goal.conj2 (Goal.call (.standard .inco) [.var ⟨s.next, name⟩, a])
          (Goal.conj2 (Goal.call (.standard .addo) [.var ⟨s.next + 1, name'⟩, b, c])
            (Goal.call (.standard .mulo) [.var ⟨s.next, name⟩, b, .var ⟨s.next + 1, name'⟩])))))
      (s.advance 2)
      (is.map fun i θ => Greater a b θ (θ.value s.next) ∧
        R i θ (θ.value s.next) (θ.value (s.next + 1))) := by
  have free := leaves_fresh hs (k := 2) (Nat.le_refl s.next)
  have split := conj2_one (gt1o (p := p) (hs.fresh 2) (hs.known ha 2)) fun t ht =>
    conj2_one (gt1o ht.proper (hs.known hb 2)) fun u hu => by
      have still := (ht.trans hu).leaves free fun θ η same h => by
        rwa [← hs.apply_eq ha (Nat.le_refl _) same, ← hs.apply_eq hb (Nat.le_refl _) same]
      have new : Known (s.next + 2) (.var ⟨s.next, name⟩) := known_var (by simp)
      have pred := inco (p := p) hu.proper new (hs.known ha 2)
        (still.ranges (x := ⟨s.next, name⟩) (hs.notMem ha (Nat.le_refl _)) 0)
      refine conj2_one pred fun w hw =>
        rest (s.next + 2) (.var ⟨s.next, name⟩) (.var ⟨s.next + 1, name'⟩) w ?_
      refine ((ht.trans hu).trans hw).opens (Q := fun θ vs => Greater a b θ (vs 0)) hs 0 1 rfl rfl
        (fun θ η agree vs h => h.congr agree ha hb) (fun _ _ _ => id) fun θ v w hv hw h => ?_
      exact ⟨![v, w], by simp [Fin.forall_fin_two, hv, hw], h, rfl, rfl⟩
  refine split.congr_map fun i _ θ _ => ?_
  rw [Greater, and_assoc, and_assoc]
  rfl

/-- One step. The first cases are those of operands that are zero or one; in the others, the new
variables are `x` and `y`, and what the last two goals say of them splits the state. -/
lemma mulo (is : List ι) (R : ι → Valuation → Term → Term → Prop) (enough : Enough n s a b c)
    (hR : ∀ i ∈ is, ∀ θ η : Valuation, θ.AgreesBelow η n → ∀ v w, R i θ v w → R i η v w)
    (rest : ∀ m x y t, Factors n s a b m x y t →
      Splits p m (Goal.conj2 (Goal.call (.standard .addo) [y, b, c])
        (Goal.call (.standard .mulo) [x, b, y])) t
        (is.map fun i θ => R i θ (θ.apply x) (θ.apply y))) :
    Splits p n (Goal.call (.standard .mulo) [a, b, c]) s
      (smallCases a b c ++ is.map fun i θ => ∃ v w, v.isGround = true ∧ w.isGround = true ∧
        Greater a b θ v ∧ R i θ v w) := by
  have body := mulo_small (hs.fresh 2) (hs.known ha 2) (hs.known hb 2) (hs.known hc 2)
    (enough.mono fun θ => hs.allows_of_fresh)
    (mulo_fifth hs ha hb (some "a0") (some "c0") rest)
  have split : Splits p n (Goal.call (.standard .mulo) [a, b, c]) s
      (smallCases a b c ++ is.map fun i θ => ∃ vs : Fin 2 → Term, (∀ j, (vs j).isGround = true) ∧
        Greater a b θ (vs 0) ∧ R i θ (vs 0) (vs 1)) := by
    refine call (by simp [ha.1, hb.1, hc.1]) (mulo_goal a b c) (freshNamed_append rfl hs ?_ ?_ body)
    · exact fun P hP θ η => smallCases_congr ha hb hc hP
    · exact fun i hi θ η agree vs h => ⟨h.1.congr agree ha hb, hR i hi θ η agree _ _ h.2⟩
  exact split.congr_append fun i _ θ _ => exists_two (F := fun v w => Greater a b θ v ∧ R i θ v w)

end

end Goal.Splits

end Relational
