import Relational.Proofs.Library.Multiplication.Step

/-!
Multiplication by a number that is known. For each pair of numbers there is one clause, so that only
one case is left. The search ends if the product is known as well, and also if both operands are and
the product can be any number; then the last clause takes sums without a bound.
-/

namespace Relational

open State Subst Goal

namespace Goal.Splits

variable {p : Program} {n : Nat} {s : State} {a b c : Term}

/-- The clauses, by what they say of the operands. -/
inductive Clause where
  | zero | zeroRight | one | oneRight | more
  deriving DecidableEq

namespace Clause

def all : List Clause := [zero, zeroRight, one, oneRight, more]

def Covers : Clause → Nat → Nat → Prop
  | zero, i, _ => i = 0
  | zeroRight, i, j => 0 < i ∧ j = 0
  | one, i, j => i = 1 ∧ 0 < j
  | oneRight, i, j => 1 < i ∧ j = 1
  | more, i, j => 1 < i ∧ 1 < j

lemma exists_covers (i j : Nat) : ∃ k ∈ all, k.Covers i j := by
  simp only [all, List.exists_mem_cons_iff, List.not_mem_nil, false_and, exists_false, or_false,
    Covers]
  omega

lemma Covers.unique {k l : Clause} {i j : Nat} (hk : k.Covers i j) (hl : l.Covers i j) : k = l := by
  cases k <;> cases l <;> simp only [Covers] at hk hl <;> first | rfl | omega

/-! What each clause says, for a second operand `j`, if the first or the product is a number too. -/

variable {t u : Term} {j : Nat}
  (other : (∃ i, t = .nat i) ∨ ∃ m, u = .nat m ∧ (0 < j ∨ 0 < m))

include other in
lemma zeroRight_iff : (∃ v, t = .succ v) ∧ Term.nat j = .nat 0 ∧ u = .nat 0 ↔
    ∃ i, zeroRight.Covers i j ∧ t = .nat i ∧ u = .nat (i * j) := by
  rw [Term.nat_inj]
  constructor
  · rintro ⟨pos, rfl, rfl⟩
    obtain ⟨i, rfl⟩ : ∃ i, t = .nat i := other.resolve_right fun ⟨m, here, either⟩ => by
      rw [Term.nat_inj] at here
      omega
    exact ⟨i, ⟨Term.exists_nat_eq_succ.mp pos, rfl⟩, rfl, by rw [Nat.mul_zero]⟩
  · rintro ⟨i, ⟨pos, rfl⟩, rfl, rfl⟩
    exact ⟨Term.exists_nat_eq_succ.mpr pos, rfl, by rw [Nat.mul_zero]⟩

lemma one_iff : t = .nat 1 ∧ (∃ v, Term.nat j = .succ v) ∧ Term.sameParts (.nat j) u = true ↔
    ∃ i, one.Covers i j ∧ t = .nat i ∧ u = .nat (i * j) := by
  rw [Term.exists_nat_eq_succ, Term.nat_sameParts]
  constructor
  · rintro ⟨rfl, pos, rfl⟩
    exact ⟨1, ⟨rfl, pos⟩, rfl, by rw [Nat.one_mul]⟩
  · rintro ⟨_, ⟨rfl, pos⟩, rfl, rfl⟩
    exact ⟨rfl, pos, by rw [Nat.one_mul]⟩

include other in
lemma oneRight_iff : (∃ v, t = .succ (.succ v)) ∧ Term.nat j = .nat 1 ∧ Term.sameParts t u = true ↔
    ∃ i, oneRight.Covers i j ∧ t = .nat i ∧ u = .nat (i * j) := by
  rw [Term.nat_inj]
  constructor
  · rintro ⟨more, rfl, same⟩
    obtain ⟨i, rfl, rfl⟩ : ∃ i, t = .nat i ∧ u = .nat i := by
      rcases other with ⟨i, rfl⟩ | ⟨m, rfl, -⟩
      · exact ⟨i, rfl, Term.nat_sameParts.mp same⟩
      · exact ⟨m, Term.sameParts_nat.mp same, rfl⟩
    exact ⟨i, ⟨Term.exists_nat_eq_succ_succ.mp more, rfl⟩, rfl, by rw [Nat.mul_one]⟩
  · rintro ⟨i, ⟨more, rfl⟩, rfl, rfl⟩
    exact ⟨Term.exists_nat_eq_succ_succ.mpr more, rfl, by rw [Nat.mul_one, Term.sameParts_refl]⟩

lemma more_iff : (∃ v w : Term, v.isGround = true ∧ w.isGround = true ∧
      (((∃ u, t = .succ (.succ u)) ∧ ∃ u, Term.nat j = .succ (.succ u)) ∧
        Term.sameParts (.succ v) t = true) ∧
      ∃ i, v = .nat i ∧ w = .nat (i * j) ∧ u = .nat (i * j + j)) ↔
    ∃ i, more.Covers i j ∧ t = .nat i ∧ u = .nat (i * j) := by
  rw [Term.exists_nat_eq_succ_succ]
  constructor
  · rintro ⟨_, _, -, -, ⟨⟨first, second⟩, next⟩, i, rfl, rfl, rfl⟩
    rw [Term.succ_nat_sameParts.mp next, Term.exists_nat_eq_succ_succ] at first
    exact ⟨i + 1, ⟨first, second⟩, Term.succ_nat_sameParts.mp next, by rw [Nat.succ_mul]⟩
  · rintro ⟨_ | i, ⟨first, second⟩, rfl, rfl⟩
    · omega
    · exact ⟨.nat i, .nat (i * j), Term.isGround_nat i, Term.isGround_nat _,
        ⟨⟨Term.exists_nat_eq_succ_succ.mpr first, second⟩, Term.sameParts_refl _⟩, i, rfl, rfl,
        by rw [Nat.succ_mul]⟩

end Clause

section

variable (hs : s.Proper n) (ha : Known n a) (hb : Known n b) (hc : Known n c)
include hs ha hb hc

/-- If the second operand is known, and the first or the product, there is a case for each clause
that covers the numbers. -/
lemma mulo_clauses {j : Nat} (knownB : s.Fixes n b (.nat j))
    (other : (∃ i, s.Fixes n a (.nat i)) ∨ ∃ m, s.Fixes n c (.nat m) ∧ (0 < j ∨ 0 < m))
    (rest : ∀ m x y t, Factors n s a b m x y t →
      Splits p m (Goal.conj2 (Goal.call (.standard .addo) [y, b, c])
        (Goal.call (.standard .mulo) [x, b, y])) t
        [fun θ => ∃ i, θ.apply x = .nat i ∧ θ.apply y = .nat (i * j) ∧
          θ.apply c = .nat (i * j + j)]) :
    Splits p n (Goal.call (.standard .mulo) [a, b, c]) s (Clause.all.map fun k θ =>
      ∃ i, k.Covers i j ∧ θ.apply a = .nat i ∧ θ.apply c = .nat (i * j)) := by
  have enough : Enough n s a b c := by
    rcases other with known | ⟨m, known, -⟩
    · exact .inr ⟨known, j, knownB⟩
    · exact .inl ⟨m, known⟩
  have split := mulo (p := p) hs ha hb hc [()] (fun _ θ v w => ∃ i, v = .nat i ∧
    w = .nat (i * j) ∧ θ.apply c = .nat (i * j + j)) enough
    (fun _ _ θ η agree v w here => by rwa [agree.apply_eq hc.2] at here) rest
  have values {θ : Valuation} (hθ : s.Allows n θ) : (∃ i, θ.apply a = .nat i) ∨
      ∃ m, θ.apply c = .nat m ∧ (0 < j ∨ 0 < m) :=
    other.imp (fun ⟨i, known⟩ => ⟨i, known.eq_nat hθ⟩)
      fun ⟨m, known, either⟩ => ⟨m, known.eq_nat hθ, either⟩
  refine split.congr (.cons ?zero (.cons ?zeroRight (.cons ?one (.cons ?oneRight
    (.cons ?more .nil)))))
  all_goals intro θ hθ
  all_goals simp only [knownB.eq_nat hθ, Greater]
  case zero => simp [Clause.Covers]
  case zeroRight => exact Clause.zeroRight_iff (values hθ)
  case one => exact Clause.one_iff
  case oneRight => exact Clause.oneRight_iff (values hθ)
  case more => exact Clause.more_iff

lemma mulo_one {j : Nat} (knownB : s.Fixes n b (.nat j))
    (other : (∃ i, s.Fixes n a (.nat i)) ∨ ∃ m, s.Fixes n c (.nat m) ∧ (0 < j ∨ 0 < m))
    (rest : ∀ m x y t, Factors n s a b m x y t →
      Splits p m (Goal.conj2 (Goal.call (.standard .addo) [y, b, c])
        (Goal.call (.standard .mulo) [x, b, y])) t
        [fun θ => ∃ i, θ.apply x = .nat i ∧ θ.apply y = .nat (i * j) ∧
          θ.apply c = .nat (i * j + j)]) :
    Splits p n (Goal.call (.standard .mulo) [a, b, c]) s
      [fun θ => ∃ i, θ.apply a = .nat i ∧ θ.apply c = .nat (i * j)] := by
  have clauses := mulo_clauses hs ha hb hc knownB other rest
  refine (clauses.single (by decide) ?unique).congr_one fun θ _ => ⟨?_, ?_⟩
  case unique =>
    rintro k - l - θ η hθ hη ⟨i, covers, first, product⟩ ⟨i', covers', second, product'⟩
    have same : i = i' := by
      rcases other with ⟨i, known⟩ | ⟨m, known, some⟩
      · rw [known.eq_nat hθ, Term.nat_inj] at first
        rw [known.eq_nat hη, Term.nat_inj] at second
        exact first.symm.trans second
      · rw [known.eq_nat hθ, Term.nat_inj] at product
        rw [known.eq_nat hη, Term.nat_inj] at product'
        rcases Nat.eq_zero_or_pos j with rfl | pos
        · simp at product some
          omega
        · exact Nat.eq_of_mul_eq_mul_right pos (product.symm.trans product')
    exact covers.unique (same ▸ covers')
  · rintro ⟨k, -, i, -, here⟩
    exact ⟨i, here⟩
  · rintro ⟨i, here⟩
    obtain ⟨k, hk, covers⟩ := Clause.exists_covers i j
    exact ⟨k, hk, i, covers, here⟩

/-- If the second operand and the product are known, the first is their quotient. -/
lemma mulo_left {j m : Nat} (knownB : s.Fixes n b (.nat j)) (known : s.Fixes n c (.nat m))
    (other : (∃ i, s.Fixes n a (.nat i)) ∨ 0 < j ∨ 0 < m) :
    Splits p n (Goal.call (.standard .mulo) [a, b, c]) s
      [fun θ => ∃ i, i * j = m ∧ θ.apply a = .nat i] := by
  induction m using Nat.strong_induction_on generalizing n s a b c with
  | _ m ih =>
    refine (mulo_one hs ha hb hc knownB (other.imp_right fun some => ⟨m, known, some⟩) ?_).congr_one
      fun θ hθ => exists_congr fun i => ?_
    · intro k x y t h
      have two := h.one_lt_right knownB
      have split := conj2_both (Q := fun θ => ∃ i, i * j = m - j ∧ θ.apply x = .nat i)
        (addo_left (p := p) h.proper h.right (h.known hb) (h.known hc) (h.fixes knownB)
          (h.fixes known)) fun u hu => by
        obtain ⟨-, -, l, sum, -⟩ := hu.exists_allows
        have knownY : u.Fixes k y (.nat (m - j)) := hu.fixes_nat fun θ ⟨l, sum, here⟩ => by
          rw [here, ← sum, Nat.add_sub_cancel]
        exact ih (m - j) (by omega) hu.proper h.left (h.known hb) h.right
          (hu.fixes (h.fixes knownB)) knownY (.inr (.inl (by omega)))
      refine split.congr_one fun θ hθ => ?_
      rw [(h.fixes known).eq_nat hθ]
      constructor
      · rintro ⟨⟨l, rfl, here⟩, i, product, factor⟩
        rw [Nat.add_sub_cancel] at product
        exact ⟨i, factor, by rw [here, product], by rw [product]⟩
      · rintro ⟨i, factor, here, sum⟩
        rw [Term.nat_inj] at sum
        exact ⟨⟨i * j, sum.symm, here⟩, i, by rw [sum, Nat.add_sub_cancel], factor⟩
    · rw [known.eq_nat hθ, Term.nat_inj, eq_comm (a := m), and_comm]

end

/-- The second operand off a product without a bound: what is left is told for the first numbers,
and for the others the search goes on. -/
lemma mulo_rest {i j m : Nat} {x y : Term} {t : State} (ht : t.Proper m) (hx : Known m x)
    (hb : Known m b) (hy : Known m y) (hc : Known m c) (knownX : t.Fixes m x (.nat i))
    (knownB : t.Fixes m b (.nat j)) (pos : 0 < j)
    (far : ∀ l, ∃ k, l ≤ k ∧ ∃ θ, t.Allows m θ ∧ θ.apply y = .nat k ∧ θ.apply c = .nat (k + j))
    (later : ∀ u, Narrows m (fun θ => Apart j (j + 1) none (θ.apply y) (θ.apply c)) t u →
      Splits p m (Goal.call (.standard .mulo) [x, b, y]) u [fun θ => θ.apply y = .nat (i * j)]) :
    Splits p m (Goal.conj2 (Goal.call (.standard .addo) [y, b, c])
      (Goal.call (.standard .mulo) [x, b, y])) t
      [fun θ => θ.apply y = .nat (i * j) ∧ θ.apply c = .nat (i * j + j)] := by
  have sums := addo_second (p := p) ht hy hb hc knownB (by
    obtain ⟨k, less, θ, hθ, atY, atC⟩ := far (j + 1)
    exact ⟨θ, hθ, atY ▸ apart_nat.mpr ⟨less, atC⟩⟩)
  have split := conj2_each (h := Goal.call (.standard .mulo) [x, b, y])
    (Q := fun _ θ => θ.apply y = .nat (i * j)) sums fun o _ u hu => by
      cases o with
      | some k =>
        have left := mulo_left (p := p) hu.proper hx hb hy (hu.fixes knownB)
          (hu.fixes_nat fun _ => And.left) (.inr (.inl pos))
        refine left.congr_one fun θ hθ => ?_
        obtain ⟨here, apart⟩ := (hu.allows_iff θ).mp hθ
        simp [knownX.eq_nat here, apart.1, eq_comm]
      | none => exact later u hu
  refine choose ((firstNumbers (j + 1)).map (Told (j + 1) (i * j))) ?listed ?apart ?covered
  case listed =>
    rw [List.map_map]
    refine split.congr_map fun o _ θ _ => ?_
    rw [Function.comp_apply, and_left_comm, and_comm]
    exact and_congr_right fun here => by rw [here, apart_nat]
  case apart =>
    exact List.pairwise_map.mpr (pairwise_told (j + 1) (i * j))
  case covered =>
    intro θ _ _
    obtain ⟨o, ho, told⟩ := exists_told (j + 1) (i * j)
    exact ⟨_, List.mem_map_of_mem ho, told⟩

section

variable (hs : s.Proper n) (ha : Known n a) (hb : Known n b) (hc : Known n c)
include hs ha hb hc

/-- If both operands are known and the product can be any number, it is their product. -/
lemma mulo_product {i j : Nat} (knownA : s.Fixes n a (.nat i)) (knownB : s.Fixes n b (.nat j))
    (far : ∀ m, ∃ k, m ≤ k ∧ ∃ θ, s.Allows n θ ∧ θ.apply c = .nat k) :
    Splits p n (Goal.call (.standard .mulo) [a, b, c]) s
      [fun θ => θ.apply c = .nat (i * j)] := by
  induction i generalizing n s a b c with
  | zero =>
    refine (mulo_one hs ha hb hc knownB (.inl ⟨0, knownA⟩) fun m x y t h => ?_).congr_one
      fun θ hθ => ?_
    · exact absurd (h.one_lt_left knownA) (by decide)
    · rw [knownA.eq_nat hθ]
      simp
  | succ i ih =>
    refine (mulo_one hs ha hb hc knownB (.inl ⟨i + 1, knownA⟩) fun m x y t h => ?_).congr_one
      fun θ hθ => ?_
    · have knownX := h.fixes_left knownA
      -- what is left of the product can be any number as well
      have reach : ∀ l, ∃ k, l ≤ k ∧
          ∃ θ, t.Allows m θ ∧ θ.apply y = .nat k ∧ θ.apply c = .nat (k + j) := by
        intro l
        obtain ⟨k, less, θ, hθ, atC⟩ := far (l + j)
        have greater : Greater a b θ (.nat i) := by
          rw [Greater, knownA.eq_nat hθ, knownB.eq_nat hθ, Term.exists_nat_eq_succ_succ,
            Term.exists_nat_eq_succ_succ]
          exact ⟨⟨h.one_lt_left knownA, h.one_lt_right knownB⟩, Term.sameParts_refl _⟩
        obtain ⟨η, hη, agree, -, atY⟩ := h.exists_allows θ hθ (.nat i) (.nat (k - j))
          (Term.isGround_nat i) (Term.isGround_nat _) greater
        refine ⟨k - j, by omega, η, hη, atY, ?_⟩
        rw [← agree.apply_eq hc.2, atC, Nat.sub_add_cancel (by omega)]
      have positive : 0 < j := by have := h.one_lt_right knownB; omega
      refine (mulo_rest h.proper h.left (h.known hb) h.right (h.known hc) knownX (h.fixes knownB)
        positive reach fun u hu => ?_).congr_one fun θ hθ => ?_
      · refine ih hu.proper h.left (h.known hb) h.right (hu.fixes knownX)
          (hu.fixes (h.fixes knownB)) fun l => ?_
        obtain ⟨k, less, η, hη, atY, atC⟩ := reach (l + j + 1)
        have further : j + 1 ≤ k := by omega
        have apart : Apart j (j + 1) none (.nat k) (η.apply c) := apart_nat.mpr ⟨further, atC⟩
        exact ⟨k, by omega, η, (hu.allows_iff η).mpr ⟨hη, atY ▸ apart⟩, atY⟩
      · simp [knownX.eq_nat hθ]
    · rw [knownA.eq_nat hθ]
      simp

end

end Goal.Splits

end Relational
