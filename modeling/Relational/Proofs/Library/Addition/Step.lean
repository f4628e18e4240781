import Mathlib.Data.List.NatAntidiagonal
import Relational.Proofs.Library.Numbers

/-!
One step of addition, and the searches that end: the first operand is zero, or both it and the sum
have predecessors and the operands change places. If the sum is known, or both operands are, there is
a state for each way to add up.
-/

namespace Relational

open scoped List
open State Subst Goal

namespace Goal.Splits

variable {ι : Type} {p : Program} {n : Nat} {s : State} {a b c : Term} {is : List ι}

lemma addo_goal (a b c : Term) : Standard.addo.goal [a, b, c] =
    Goal.disj2 (Goal.conj2 (Goal.eq (.nat 0) a) (Goal.eq b c))
      (Goal.freshNamed ["a0", "c0"] fun
        | [x, y] => Goal.conj2 (Goal.call (.standard .inco) [.var x, a])
            (Goal.conj2 (Goal.call (.standard .inco) [.var y, c])
              (Goal.call (.standard .addo) [b, .var x, .var y]))
        | _ => Goal.fail) := rfl

/-- The values of `a` and `c` come right after `v` and `w`. -/
def After (a c : Term) (θ : Valuation) (v w : Term) : Prop :=
  Term.sameParts (.succ v) (θ.apply a) = true ∧ Term.sameParts (.succ w) (θ.apply c) = true

lemma After.congr {θ η : Valuation} {v w : Term} (h : After a c θ v w) (agree : θ.AgreesBelow η n)
    (ha : Known n a) (hc : Known n c) : After a c η v w := by
  rwa [After, agree.apply_eq ha.2, agree.apply_eq hc.2] at h

/-- In a state made from `s`, `x` and `y` are new variables for the predecessors of `a` and `c`. -/
def Predecessors (n : Nat) (s : State) (a c : Term) : Nat → Term → Term → State → Prop :=
  Opens n s (After a c)

namespace Predecessors

variable {m i : Nat} {x y : Term} {t : State} (h : Predecessors n s a c m x y t)
include h

lemma fixes_left (known : s.Fixes n a (.nat (i + 1))) : t.Fixes m x (.nat i) := by
  intro θ hθ
  obtain ⟨hs, here, -⟩ := h.allows θ hθ
  exact Term.sameParts_nat.mpr (Term.eq_nat_of_succ here (known θ hs))

lemma fixes_right (known : s.Fixes n c (.nat (i + 1))) : t.Fixes m y (.nat i) := by
  intro θ hθ
  obtain ⟨hs, -, here⟩ := h.allows θ hθ
  exact Term.sameParts_nat.mpr (Term.eq_nat_of_succ here (known θ hs))

lemma left_ne_zero (known : s.Fixes n a (.nat 0)) : False := by
  obtain ⟨θ, hs, here, -⟩ := h.exists_values
  exact Bool.false_ne_true ((Term.not_succ_zero here).symm.trans (known θ hs))

lemma right_ne_zero (known : s.Fixes n c (.nat 0)) : False := by
  obtain ⟨θ, hs, -, here⟩ := h.exists_values
  exact Bool.false_ne_true ((Term.not_succ_zero here).symm.trans (known θ hs))

end Predecessors

section

variable (hs : s.Proper n) (ha : Known n a) (hb : Known n b) (hc : Known n c)
include hs ha hb hc

/-- One step: the predecessors of `a` and `c` are new variables `x` and `y`, and how `b`, `x` and
`y` add up splits the state as it does. -/
lemma addo (is : List ι) (R : ι → Valuation → Term → Term → Prop)
    (base : ∀ t, Narrows n (fun θ => θ.apply a = .nat 0) s t → Decided t.subst b c)
    (hR : ∀ i ∈ is, ∀ θ η : Valuation, θ.AgreesBelow η n → ∀ v w, R i θ v w → R i η v w)
    (rest : ∀ m x y t, Predecessors n s a c m x y t →
      Splits p m (Goal.call (.standard .addo) [b, x, y]) t
        (is.map fun i θ => R i θ (θ.apply x) (θ.apply y))) :
    Splits p n (Goal.call (.standard .addo) [a, b, c]) s
      ((fun θ => θ.apply a = .nat 0 ∧ Term.sameParts (θ.apply b) (θ.apply c) = true) ::
        is.map fun i θ => ∃ v w, v.isGround = true ∧ w.isGround = true ∧
          After a c θ v w ∧ R i θ v w) := by
  let x : Var := ⟨s.next, some "a0"⟩
  let y : Var := ⟨s.next + 1, some "c0"⟩
  have newX : Known (s.next + 2) (.var x) := known_var (by simp [x])
  have newY : Known (s.next + 2) (.var y) := known_var (by simp [y])
  have freeX := leaves_fresh hs (k := 2) (Nat.le_refl s.next)
  have freeY := leaves_fresh hs (k := 2) (Nat.le_succ s.next)
  have first := inco (p := p) (hs.fresh 2) newX (hs.known ha 2)
    (freeX.ranges (x := x) (hs.notMem ha (Nat.le_refl _)) 0)
  have body := conj2_one first fun t ht => by
    have free : t.Leaves (s.next + 2) y.id := by
      refine ht.leaves freeY fun θ η same h => ?_
      rw [Valuation.apply_var, same x.id (by simp [x]) (by simp [x, y])] at h
      rwa [← hs.apply_eq ha (Nat.le_succ _) same]
    have second := inco (p := p) ht.proper newY (hs.known hc 2)
      (free.ranges (hs.notMem hc (Nat.le_succ _)) 0)
    refine conj2_one second fun u hu => rest (s.next + 2) (.var x) (.var y) u ?_
    refine (ht.trans hu).opens (Q := fun θ vs => After a c θ (vs 0) (vs 1)) hs 0 1 rfl rfl
      (fun θ η agree vs h => h.congr agree ha hc) (fun _ _ _ => id) fun θ v w hv hw h => ?_
    exact ⟨![v, w], by simp [Fin.forall_fin_two, hv, hw], h, rfl, rfl⟩
  have zero := conj2_both (eq_nat (p := p) hs ha 0) fun t ht => eq ht.proper hb hc (base t ht)
  have split : Splits p n (Goal.call (.standard .addo) [a, b, c]) s
      ((fun θ => θ.apply a = .nat 0 ∧ Term.sameParts (θ.apply b) (θ.apply c) = true) ::
        is.map fun i θ => ∃ vs : Fin 2 → Term, (∀ j, (vs j).isGround = true) ∧
          After a c θ (vs 0) (vs 1) ∧ R i θ (vs 0) (vs 1)) := by
    refine call (by simp [ha.1, hb.1, hc.1]) (addo_goal a b c) ?_
    refine disj2 zero (freshNamed rfl hs ?_ (body.congr_map fun _ _ _ _ => and_assoc.symm))
    exact fun i hi θ η agree vs h => ⟨h.1.congr agree ha hc, hR i hi θ η agree _ _ h.2⟩
  exact split.congr_cons (fun _ _ => .rfl) fun i _ θ _ =>
    exists_two (F := fun v w => After a c θ v w ∧ R i θ v w)

/-- If the sum is known, the operands are any two numbers that make it up. -/
lemma addo_sum {m : Nat} (known : s.Fixes n c (.nat m)) :
    Splits p n (Goal.call (.standard .addo) [a, b, c]) s
      ((List.Nat.antidiagonal m).map fun ij θ =>
        θ.apply a = .nat ij.1 ∧ θ.apply b = .nat ij.2) := by
  induction m generalizing n s a b c with
  | zero =>
    have split := addo (p := p) hs ha hb hc [] (fun (_ : Unit) _ _ _ => True)
      (fun t ht => ((ht.fixes known).decided (Term.isGround_nat 0) ht.proper hc hb).2) (by simp)
      fun _ _ _ _ h => (h.right_ne_zero known).elim
    refine split.congr_one fun θ hθ => and_congr_right fun _ => ?_
    rw [known.eq_nat hθ, Term.sameParts_nat]
  | succ m ih =>
    have split := addo (p := p) hs ha hb hc (List.Nat.antidiagonal m)
      (fun ij θ v _ => θ.apply b = .nat ij.1 ∧ v = .nat ij.2)
      (fun t ht => ((ht.fixes known).decided (Term.isGround_nat (m + 1)) ht.proper hc hb).2)
      (fun _ _ θ η agree v w here => by rwa [agree.apply_eq hb.2] at here)
      fun _ _ _ t h => ih h.proper (h.known hb) h.left h.right (h.fixes_right known)
    -- the operands have changed places
    have swapped : (List.Nat.antidiagonal m).map (fun ij => (ij.2 + 1, ij.1)) ~
        (List.Nat.antidiagonal m).map fun ij => (ij.1 + 1, ij.2) := by
      have turned : (List.Nat.antidiagonal m).map Prod.swap ~ List.Nat.antidiagonal m := by
        rw [List.Nat.map_swap_antidiagonal]
        exact List.reverse_perm _
      simpa [Function.comp_def] using turned.map fun ij => (ij.1 + 1, ij.2)
    have listed : Splits p n (Goal.call (.standard .addo) [a, b, c]) s
        ((fun θ => θ.apply a = .nat 0 ∧ θ.apply b = .nat (m + 1)) ::
          (List.Nat.antidiagonal m).map fun ij θ =>
            θ.apply a = .nat (ij.2 + 1) ∧ θ.apply b = .nat ij.1) := by
      refine split.congr_cons (fun θ hθ => ?_) fun ⟨i, j⟩ _ θ hθ => ⟨?_, ?_⟩
      · rw [known.eq_nat hθ, Term.sameParts_nat]
      · rintro ⟨v, w, -, -, ⟨here, -⟩, other, rfl⟩
        exact ⟨Term.succ_nat_sameParts.mp here, other⟩
      · rintro ⟨here, other⟩
        exact ⟨.nat j, .nat m, Term.isGround_nat j, Term.isGround_nat m,
          ⟨Term.succ_nat_sameParts.mpr here, Term.succ_nat_sameParts.mpr (known.eq_nat hθ)⟩, other,
          rfl⟩
    refine listed.perm ?_
    rw [List.Nat.antidiagonal_succ, List.map_cons]
    refine .cons _ ?_
    simpa [Function.comp_def] using swapped.map fun (ij : Nat × Nat) (θ : Valuation) =>
      θ.apply a = .nat ij.1 ∧ θ.apply b = .nat ij.2

lemma addo_right {i m : Nat} (knownA : s.Fixes n a (.nat i)) (known : s.Fixes n c (.nat m)) :
    Splits p n (Goal.call (.standard .addo) [a, b, c]) s
      [fun θ => ∃ j, i + j = m ∧ θ.apply b = .nat j] := by
  refine ((addo_sum hs ha hb hc known).single (List.Nat.nodup_antidiagonal m) ?_).congr_one
    fun θ hθ => ?_
  · rintro ⟨i, j⟩ hij ⟨k, l⟩ hkl θ η hθ hη ⟨here, -⟩ ⟨other, -⟩
    rw [List.Nat.mem_antidiagonal] at hij hkl
    rw [knownA.eq_nat hθ, Term.nat_inj] at here
    rw [knownA.eq_nat hη, Term.nat_inj] at other
    exact Prod.ext (here.symm.trans other) (by simp only at hij hkl ⊢; omega)
  · simp [knownA.eq_nat hθ, Prod.exists]

lemma addo_left {j m : Nat} (knownB : s.Fixes n b (.nat j)) (known : s.Fixes n c (.nat m)) :
    Splits p n (Goal.call (.standard .addo) [a, b, c]) s
      [fun θ => ∃ i, i + j = m ∧ θ.apply a = .nat i] := by
  refine ((addo_sum hs ha hb hc known).single (List.Nat.nodup_antidiagonal m) ?_).congr_one
    fun θ hθ => ?_
  · rintro ⟨i, j⟩ hij ⟨k, l⟩ hkl θ η hθ hη ⟨-, here⟩ ⟨-, other⟩
    rw [List.Nat.mem_antidiagonal] at hij hkl
    rw [knownB.eq_nat hθ, Term.nat_inj] at here
    rw [knownB.eq_nat hη, Term.nat_inj] at other
    exact Prod.ext (by simp only at hij hkl ⊢; omega) (here.symm.trans other)
  · simp [knownB.eq_nat hθ, Prod.exists]

lemma addo_operands {i j : Nat} (knownA : s.Fixes n a (.nat i)) (knownB : s.Fixes n b (.nat j)) :
    Splits p n (Goal.call (.standard .addo) [a, b, c]) s [fun θ => θ.apply c = .nat (i + j)] := by
  induction hk : i + j using Nat.strong_induction_on generalizing n s a b c i j with
  | _ k ih =>
    have base : ∀ t, Narrows n (fun θ => θ.apply a = .nat 0) s t → Decided t.subst b c :=
      fun t ht => ((ht.fixes knownB).decided (Term.isGround_nat j) ht.proper hb hc).1
    rcases i with _ | i
    · have split := addo (p := p) hs ha hb hc [] (fun (_ : Unit) _ _ _ => True) base (by simp)
        fun _ _ _ _ h => (h.left_ne_zero knownA).elim
      refine split.congr_one fun θ hθ => ?_
      rw [knownA.eq_nat hθ, knownB.eq_nat hθ, Term.nat_sameParts, ← hk, Nat.zero_add]
      exact and_iff_right rfl
    · have split := addo (p := p) hs ha hb hc [()] (fun _ _ _ w => w = .nat (j + i)) base
        (fun _ _ _ _ _ _ _ => id)
        fun _ _ _ _ h => ih (j + i) (by omega) h.proper (h.known hb) h.left h.right
          (h.fixes knownB) (h.fixes_left knownA) rfl
      refine (split.drop fun θ hθ zero => ?_).congr_one fun θ hθ => ⟨?_, fun sum => ?_⟩
      · have one := knownA.eq_nat hθ
        rw [zero.1, Term.nat_inj] at one
        omega
      · rintro ⟨_, w, -, -, ⟨-, here⟩, rfl⟩
        rw [Term.succ_nat_sameParts.mp here, ← hk, Nat.add_comm j i, Nat.add_right_comm]
      · rw [← hk, Nat.add_right_comm, Nat.add_comm i j] at sum
        exact ⟨.nat i, .nat (j + i), Term.isGround_nat i, Term.isGround_nat _,
          ⟨Term.succ_nat_sameParts.mpr (knownA.eq_nat hθ), Term.succ_nat_sameParts.mpr sum⟩, rfl⟩

end

end Goal.Splits

end Relational
