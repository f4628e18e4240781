import Mathlib.NumberTheory.Divisors
import Relational.Proofs.Library.Multiplication.Products

/-!
Multiplication. If a positive product is known, its operands are any two numbers of which it is the
product; the fifth clause finds the proper factors among the sums that make the product. With
operands that are known, arithmetic gives all other answers.
-/

namespace Relational

open scoped List
open State Subst Goal

namespace Goal.Splits

variable {p : Program} {n : Nat} {s : State} {a b c : Term}

/-! ### Factors of a product -/

/-- A product as a sum of a multiple and its second factor, where both factors are proper. -/
def properFactors (m : Nat) : List (Nat × Nat) :=
  (List.Nat.antidiagonal m).filter fun kl => 1 < kl.2 && kl.2 < m && decide (kl.2 ∣ m)

lemma mem_properFactors {m k l : Nat} :
    (k, l) ∈ properFactors m ↔ k + l = m ∧ 1 < l ∧ l < m ∧ l ∣ m := by
  simp [properFactors, List.Nat.mem_antidiagonal, and_assoc]

/-- What the fifth clause says of proper factors. -/
lemma greater_iff_factors {m k l : Nat} (h : (k, l) ∈ properFactors m) {θ : Valuation} :
    (∃ v w : Term, v.isGround = true ∧ w.isGround = true ∧ Greater a b θ v ∧
      (w = .nat k ∧ θ.apply b = .nat l) ∧ ∃ i, i * l = k ∧ v = .nat i) ↔
        θ.apply a = .nat (m / l) ∧ θ.apply b = .nat l := by
  obtain ⟨sum, more, less, q, rfl⟩ := mem_properFactors.mp h
  have positive : 0 < l := Nat.lt_trans Nat.one_pos more
  rw [Nat.mul_div_cancel_left q positive]
  constructor
  · rintro ⟨_, _, -, -, ⟨-, next⟩, ⟨rfl, second⟩, i, rfl, rfl⟩
    refine ⟨?_, second⟩
    rw [Term.succ_nat_sameParts.mp next, Term.nat_inj]
    refine Nat.eq_of_mul_eq_mul_left positive ?_
    rw [← sum, Nat.mul_add_one, Nat.mul_comm l i]
  · rintro ⟨first, second⟩
    have factor : 1 < q := Nat.lt_of_mul_lt_mul_left (by rwa [Nat.mul_one])
    obtain ⟨i, rfl⟩ := Nat.exists_eq_add_of_lt factor
    have rest : (1 + i) * l = k := by
      rw [Nat.mul_add_one, Nat.mul_comm l] at sum
      omega
    refine ⟨.nat (1 + i), .nat k, Term.isGround_nat _, Term.isGround_nat k, ?_, ⟨rfl, second⟩,
      1 + i, rest, rfl⟩
    rw [Greater, first, second, Term.exists_nat_eq_succ_succ, Term.exists_nat_eq_succ_succ]
    exact ⟨⟨factor, more⟩, Term.sameParts_refl _⟩

/-- Together with one and the product itself, these are all factors. -/
lemma factors_perm {m : Nat} (hm : 1 < m) :
    (1, m) :: (m, 1) :: (properFactors m).map (fun kl => (m / kl.2, kl.2)) ~
      Nat.divisorsAntidiagonalList m := by
  have nodup : ((properFactors m).map fun kl => (m / kl.2, kl.2)).Nodup := by
    refine List.Nodup.map_on ?_ ((List.Nat.nodup_antidiagonal m).filter _)
    rintro ⟨k, l⟩ hkl ⟨k', l'⟩ hkl' same
    obtain ⟨sum, -⟩ := mem_properFactors.mp hkl
    obtain ⟨sum', -⟩ := mem_properFactors.mp hkl'
    obtain ⟨-, rfl⟩ := Prod.mk.inj same
    exact Prod.ext (by simp only; omega) rfl
  refine (List.perm_ext_iff_of_nodup ?_ Nat.nodup_divisorsAntidiagonalList).mpr fun ⟨i, j⟩ => ?_
  · have proper {i j : Nat} (h : (i, j) ∈ (properFactors m).map fun kl => (m / kl.2, kl.2)) :
        1 < j ∧ j < m := by
      obtain ⟨⟨k, l⟩, hkl, same⟩ := List.mem_map.mp h
      obtain ⟨-, rfl⟩ := Prod.mk.inj same
      exact ⟨(mem_properFactors.mp hkl).2.1, (mem_properFactors.mp hkl).2.2.1⟩
    refine List.nodup_cons.mpr ⟨?_, List.nodup_cons.mpr ⟨?_, nodup⟩⟩
    · rintro (_ | ⟨_, h⟩)
      · exact Nat.lt_irrefl 1 hm
      · exact Nat.lt_irrefl m (proper h).2
    · exact fun h => Nat.lt_irrefl 1 (proper h).1
  · rw [Nat.mem_divisorsAntidiagonalList]
    simp only [List.mem_cons, List.mem_map, Prod.exists, mem_properFactors, Prod.mk.injEq]
    constructor
    · rintro (⟨rfl, rfl⟩ | ⟨rfl, rfl⟩ | ⟨k, l, ⟨-, -, -, divides⟩, rfl, rfl⟩)
      · exact ⟨Nat.one_mul _, by omega⟩
      · exact ⟨Nat.mul_one _, by omega⟩
      · exact ⟨Nat.div_mul_cancel divides, by omega⟩
    · rintro ⟨rfl, -⟩
      rcases Nat.lt_or_ge 1 i with first | first
      · rcases Nat.lt_or_ge 1 j with second | second
        · have less : 1 * j < i * j := Nat.mul_lt_mul_of_pos_right first (by omega)
          rw [Nat.one_mul] at less
          exact .inr (.inr ⟨i * j - j, j, ⟨by omega, second, less, Nat.dvd_mul_left j i⟩,
            Nat.mul_div_cancel i (by omega), rfl⟩)
        · obtain rfl : j = 1 := by
            rcases Nat.le_one_iff_eq_zero_or_eq_one.mp second with rfl | rfl
            · simp at hm
            · rfl
          exact .inr (.inl ⟨(Nat.mul_one i).symm, rfl⟩)
      · obtain rfl : i = 1 := by
          rcases Nat.le_one_iff_eq_zero_or_eq_one.mp first with rfl | rfl
          · simp at hm
          · rfl
        exact .inl ⟨rfl, (Nat.one_mul j).symm⟩

lemma mulo_proper {m k : Nat} {x y : Term} {t : State} (h : Factors n s a b k x y t)
    (hb : Known n b) (hc : Known n c) (known : s.Fixes n c (.nat m)) (pos : 0 < m) :
    Splits p k (Goal.conj2 (Goal.call (.standard .addo) [y, b, c])
      (Goal.call (.standard .mulo) [x, b, y])) t ((properFactors m).map fun kl θ =>
        (θ.apply y = .nat kl.1 ∧ θ.apply b = .nat kl.2) ∧
          ∃ i, i * kl.2 = kl.1 ∧ θ.apply x = .nat i) := by
  have split := conj2_each (Q := fun kl θ => ∃ i, i * kl.2 = kl.1 ∧ θ.apply x = .nat i)
    (addo_sum (p := p) h.proper h.right (h.known hb) (h.known hc) (h.fixes known))
    fun kl hkl u hu => by
      rw [List.Nat.mem_antidiagonal] at hkl
      exact mulo_left hu.proper h.left (h.known hb) h.right (hu.fixes_nat fun _ => And.right)
        (hu.fixes_nat fun _ => And.left) (.inr (by omega))
  refine split.filter _ ?_
  -- other sums are not of factors greater than one
  rintro ⟨k, l⟩ hkl improper θ hθ ⟨⟨-, atB⟩, i, product, factor⟩
  simp only at atB product improper
  obtain ⟨-, ⟨first, second⟩, next⟩ := h.allows θ hθ
  rw [factor, Term.succ_nat_sameParts] at next
  rw [next, Term.exists_nat_eq_succ_succ] at first
  rw [atB, Term.exists_nat_eq_succ_succ] at second
  subst product
  obtain rfl : i * l + l = m := List.Nat.mem_antidiagonal.mp hkl
  have less : l < i * l + l := Nat.lt_add_of_pos_left (Nat.mul_pos (by omega) (by omega))
  have divides : l ∣ i * l + l := ⟨i + 1, by rw [Nat.mul_add_one, Nat.mul_comm]⟩
  simp [second, less, divides] at improper

section

variable (hs : s.Proper n) (ha : Known n a) (hb : Known n b) (hc : Known n c)
include hs ha hb hc

/-- If a positive product is known, there is a case for each way to be a factor of it. -/
lemma mulo_known {m : Nat} (known : s.Fixes n c (.nat m)) (pos : 0 < m) :
    Splits p n (Goal.call (.standard .mulo) [a, b, c]) s
      ((fun θ => θ.apply a = .nat 1 ∧ θ.apply b = .nat m) ::
        (fun θ => 1 < m ∧ θ.apply a = .nat m ∧ θ.apply b = .nat 1) ::
        (properFactors m).map fun kl θ => θ.apply a = .nat (m / kl.2) ∧ θ.apply b = .nat kl.2) := by
  have split := mulo (p := p) hs ha hb hc (properFactors m) (fun kl θ v w => (w = .nat kl.1 ∧
    θ.apply b = .nat kl.2) ∧ ∃ i, i * kl.2 = kl.1 ∧ v = .nat i) (.inl ⟨m, known⟩)
    (fun _ _ θ η agree v w here => by rwa [agree.apply_eq hb.2] at here)
    fun _ _ _ _ h => mulo_proper h hb hc known pos
  have zero : ∀ θ, s.Allows n θ → ¬θ.apply c = .nat 0 := fun θ hθ zero => by
    rw [known.eq_nat hθ, Term.nat_inj] at zero
    omega
  have positive := (split.drop fun θ hθ here => zero θ hθ here.2).drop fun θ hθ here =>
    zero θ hθ here.2.2
  refine positive.congr (.cons ?one (.cons ?oneRight ?more))
  case one =>
    intro θ hθ
    beta_reduce
    rw [known.eq_nat hθ, Term.sameParts_nat]
    constructor
    · rintro ⟨first, -, second⟩
      exact ⟨first, second⟩
    · rintro ⟨first, second⟩
      exact ⟨first, second ▸ Term.exists_nat_eq_succ.mpr pos, second⟩
  case oneRight =>
    intro θ hθ
    beta_reduce
    rw [known.eq_nat hθ, Term.sameParts_nat]
    constructor
    · rintro ⟨more, second, first⟩
      rw [first, Term.exists_nat_eq_succ_succ] at more
      exact ⟨more, first, second⟩
    · rintro ⟨more, first, second⟩
      exact ⟨first ▸ Term.exists_nat_eq_succ_succ.mpr more, second, first⟩
  case more =>
    exact List.forall₂_map_left_iff.mpr (List.forall₂_map_right_iff.mpr
      (List.forall₂_same.mpr fun _ hkl _ _ => greater_iff_factors hkl))

/-- If a positive product is known, the operands are any two numbers of which it is the product. -/
lemma mulo_factors {m : Nat} (known : s.Fixes n c (.nat m)) (pos : 0 < m) :
    Splits p n (Goal.call (.standard .mulo) [a, b, c]) s
      ((Nat.divisorsAntidiagonalList m).map fun ij θ =>
        θ.apply a = .nat ij.1 ∧ θ.apply b = .nat ij.2) := by
  have factors := mulo_known (p := p) hs ha hb hc known pos
  rcases Nat.lt_or_ge 1 m with more | one
  · have listed : Splits p n (Goal.call (.standard .mulo) [a, b, c]) s (((1, m) :: (m, 1) ::
        (properFactors m).map fun kl => (m / kl.2, kl.2)).map fun ij θ =>
          θ.apply a = .nat ij.1 ∧ θ.apply b = .nat ij.2) := by
      refine factors.congr (.cons (fun _ _ => .rfl) (.cons (fun _ _ => and_iff_right more) ?_))
      rw [List.map_map]
      exact List.forall₂_same.mpr fun _ _ _ _ => .rfl
    exact listed.perm ((factors_perm more).map _)
  · obtain rfl : m = 1 := by omega
    exact (factors.perm (.swap ..)).drop fun θ _ here => Nat.lt_irrefl 1 here.1

lemma mulo_right {i m : Nat} (knownA : s.Fixes n a (.nat i)) (known : s.Fixes n c (.nat m))
    (pos : 0 < m) : Splits p n (Goal.call (.standard .mulo) [a, b, c]) s
      [fun θ => ∃ j, i * j = m ∧ θ.apply b = .nat j] := by
  refine ((mulo_factors hs ha hb hc known pos).single Nat.nodup_divisorsAntidiagonalList
    ?_).congr_one fun θ hθ => ?_
  · rintro ⟨i', j⟩ hij ⟨k, l⟩ hkl θ η hθ hη ⟨here, -⟩ ⟨other, -⟩
    rw [knownA.eq_nat hθ, Term.nat_inj] at here
    rw [knownA.eq_nat hη, Term.nat_inj] at other
    obtain ⟨product, -⟩ := Nat.mem_divisorsAntidiagonalList.mp hij
    obtain ⟨product', -⟩ := Nat.mem_divisorsAntidiagonalList.mp hkl
    simp only at here other product product'
    subst here other
    have positive : 0 < i := Nat.pos_of_mul_pos_right (product ▸ pos)
    rw [Nat.eq_of_mul_eq_mul_left positive (product.trans product'.symm)]
  · simp [knownA.eq_nat hθ, Prod.exists, Nat.mem_divisorsAntidiagonalList, pos.ne']

end

end Goal.Splits

/-! ### Queries -/

namespace Query

open Goal.Splits

section

variable (p : Program) (names : List String) (a b : Nat) {c : Nat} (q : String)

lemma mulo_holds (c : Nat) :
    (ask p names (.ask .mulo [.term (.nat a), .term (.nat b), .term (.nat c)])).Counts
      (if a * b = c then 1 else 0) := by
  have split := mulo_left (p := p) (proper_boundless names.length) (known_nat a) (known_nat b)
    (known_nat c) (fixes_self (Term.isGround_nat b)) (fixes_self (Term.isGround_nat c))
    (.inl ⟨a, fixes_self (Term.isGround_nat a)⟩)
  refine counts_call [.nat a, .nat b, .nat c] (split.congr_one fun θ _ => ?_)
  simp

lemma mulo_finds_product : (askOne p q (.ask .mulo [.term (.nat a), .term (.nat b), q])).Finds
    [.nat (a * b)] := by
  have split := mulo_product (p := p) (proper_boundless 1) (known_nat a) (known_nat b)
    (known_var (x := ⟨0, some q⟩) Nat.one_pos) (fixes_self (Term.isGround_nat a))
    (fixes_self (Term.isGround_nat b)) fun m =>
      ⟨m, Nat.le_refl m, ⟨fun _ => .nat m, fun _ => Term.isGround_nat m⟩, allows_boundless .., rfl⟩
  exact finds_one [()] (fun _ => .nat (a * b)) (by simp [Expr.eval, value_ofVars_one])
    (fun _ _ => Term.isGround_nat _) (split.congr_one fun θ _ => Term.sameParts_nat.symm)

lemma mulo_divides_second (pos : 0 < c) :
    (askOne p q (.ask .mulo [.term (.nat a), q, .term (.nat c)])).Finds
      (if 0 < a ∧ a ∣ c then [.nat (c / a)] else []) := by
  have split := mulo_right (p := p) (proper_boundless 1) (known_nat a)
    (known_var (x := ⟨0, some q⟩) Nat.one_pos) (known_nat c) (fixes_self (Term.isGround_nat a))
    (fixes_self (Term.isGround_nat c)) pos
  refine finds_nat (by simp [Expr.eval, value_ofVars_one]) (split.congr_one fun θ _ => ⟨?_, ?_⟩)
  · rintro ⟨j, rfl, here⟩
    have positive : 0 < a := Nat.pos_of_mul_pos_right pos
    exact ⟨⟨positive, Nat.dvd_mul_right a j⟩, by rwa [Nat.mul_div_cancel_left j positive]⟩
  · rintro ⟨⟨-, divides⟩, here⟩
    exact ⟨c / a, Nat.mul_div_cancel' divides, here⟩

lemma mulo_divides_first (pos : 0 < c) :
    (askOne p q (.ask .mulo [q, .term (.nat a), .term (.nat c)])).Finds
      (if 0 < a ∧ a ∣ c then [.nat (c / a)] else []) := by
  have split := mulo_left (p := p) (proper_boundless 1) (known_var (x := ⟨0, some q⟩) Nat.one_pos)
    (known_nat a) (known_nat c) (fixes_self (Term.isGround_nat a))
    (fixes_self (Term.isGround_nat c)) (.inr (.inr pos))
  refine finds_nat (by simp [Expr.eval, value_ofVars_one]) (split.congr_one fun θ _ => ⟨?_, ?_⟩)
  · rintro ⟨i, rfl, here⟩
    have positive : 0 < a := Nat.pos_of_mul_pos_left pos
    exact ⟨⟨positive, Nat.dvd_mul_left a i⟩, by rwa [Nat.mul_div_cancel i positive]⟩
  · rintro ⟨⟨-, divides⟩, here⟩
    exact ⟨c / a, Nat.div_mul_cancel divides, here⟩

lemma mulo_finds_factors {x y : String} (hxy : x ≠ y) (pos : 0 < c) :
    (ask p [x, y] (.ask .mulo [x, y, .term (.nat c)])).Finds
      ((Nat.divisorsAntidiagonalList c).map fun ij => .ofList [.nat ij.1, .nat ij.2]) := by
  have split := mulo_factors (p := p) (proper_boundless 2)
    (known_var (x := ⟨0, some x⟩) Nat.two_pos) (known_var (x := ⟨1, some y⟩) Nat.one_lt_two)
    (known_nat c) (fixes_self (Term.isGround_nat c)) pos
  refine finds_two (by simp [Expr.eval, value_ofVars_two hxy])
    (fun _ _ => ⟨Term.isGround_nat _, Term.isGround_nat _⟩) (split.congr_map fun _ _ θ _ => ?_)
  rw [Term.sameParts_nat, Term.sameParts_nat]
  rfl

end

/-- **Multiplication, in every mode in which both operands or a positive product are known.** There
are just the answers that arithmetic gives, each once, and then the search ends. -/
theorem mulo_multiplies (p : Program) (a b c : Nat) (names : List String) (q : String)
    {x y : String} (hxy : x ≠ y) :
    (ask p names (.ask .mulo [.term (.nat a), .term (.nat b), .term (.nat c)])).Counts
        (if a * b = c then 1 else 0) ∧
      (askOne p q (.ask .mulo [.term (.nat a), .term (.nat b), q])).Finds [.nat (a * b)] ∧
      (0 < c →
        (ask p [x, y] (.ask .mulo [x, y, .term (.nat c)])).Finds
            ((Nat.divisorsAntidiagonalList c).map fun ij => .ofList [.nat ij.1, .nat ij.2]) ∧
          (askOne p q (.ask .mulo [.term (.nat a), q, .term (.nat c)])).Finds
            (if 0 < a ∧ a ∣ c then [.nat (c / a)] else []) ∧
          (askOne p q (.ask .mulo [q, .term (.nat a), .term (.nat c)])).Finds
            (if 0 < a ∧ a ∣ c then [.nat (c / a)] else [])) :=
  ⟨mulo_holds p names a b c, mulo_finds_product p a b q, fun pos => ⟨mulo_finds_factors p hxy pos,
    mulo_divides_second p a q pos, mulo_divides_first p a q pos⟩⟩

/-- What is asked about 2, 3 and 6. -/
theorem mulo_multiplies_two_three : "a" ≠ "b" ∧
    (ask .empty [] (.ask .mulo [.term (.nat 2), .term (.nat 3), .term (.nat 6)])).Counts 1 ∧
    (askOne .empty "q" (.ask .mulo [.term (.nat 2), .term (.nat 3), "q"])).Finds [.nat 6] ∧
    (ask .empty ["a", "b"] (.ask .mulo ["a", "b", .term (.nat 6)])).Finds
      [.ofList [.nat 1, .nat 6], .ofList [.nat 2, .nat 3], .ofList [.nat 3, .nat 2],
        .ofList [.nat 6, .nat 1]] ∧
    (askOne .empty "q" (.ask .mulo [.term (.nat 2), "q", .term (.nat 6)])).Finds [.nat 3] ∧
    (askOne .empty "q" (.ask .mulo ["q", .term (.nat 4), .term (.nat 6)])).Finds [] := by
  have distinct : "a" ≠ "b" := by decide
  obtain ⟨holds, product, others⟩ := mulo_multiplies .empty 2 3 6 [] "q" distinct
  obtain ⟨factors, quotient, -⟩ := others (by decide)
  obtain ⟨-, -, none⟩ := (mulo_multiplies .empty 4 0 6 [] "q" distinct).2.2 (by decide)
  exact ⟨distinct, holds, product, factors, quotient, none⟩

end Query

end Relational
