import Relational.Proofs.Library.Addition.Step

/-!
Addition. At each step the first operand is zero, or both it and the sum have predecessors and the
operands change places. The search ends if the sum is known, or both operands are, or one operand is
and some values of the other two go on for ever; what it gives is told for each of these cases.
-/

namespace Relational

open scoped List
open State Subst Goal

namespace Goal.Splits

variable {ι : Type} {p : Program} {n : Nat} {s : State} {a b c : Term} {is : List ι}

/-! ### Sums without a bound -/

/-- How `t` and `u` that are `d` apart may look: `t` is a number, which is told for the first `m`,
or greater. -/
def Apart (d m : Nat) : Option Nat → Term → Term → Prop
  | some k, t, u => t = .nat k ∧ u = .nat (k + d)
  | none, t, u => ∃ v : Term, v.isGround = true ∧
      Term.sameParts (v.plus m) t = true ∧ Term.sameParts (v.plus (m + d)) u = true

def firstNumbers (m : Nat) : List (Option Nat) := (List.range m).map some ++ [none]

lemma firstNumbers_succ (m : Nat) :
    firstNumbers (m + 1) = some 0 :: (firstNumbers m).map (Option.map (· + 1)) := by
  simp [firstNumbers, List.range_succ_eq_map, Function.comp_def]

lemma isGround_plus {t : Term} (m : Nat) : (t.plus m).isGround = t.isGround := by
  induction m with
  | zero => rfl
  | succ m ih => exact ih

/-- How a number is told of which only so much is said. -/
def Told (m k : Nat) : Option Nat → Prop
  | some l => l = k
  | none => m ≤ k

lemma exists_told (m k : Nat) : ∃ o ∈ firstNumbers m, Told m k o := by
  rcases Nat.lt_or_ge k m with less | more
  · exact ⟨some k, by simpa [firstNumbers] using less, rfl⟩
  · exact ⟨none, by simp [firstNumbers], more⟩

lemma pairwise_told (m k : Nat) :
    (firstNumbers m).Pairwise fun o o' => Told m k o → ¬Told m k o' := by
  rw [firstNumbers, List.pairwise_append, List.pairwise_map]
  refine ⟨List.nodup_range.imp fun hij hi hj => hij (hi.trans hj.symm), List.pairwise_singleton ..,
    ?_⟩
  simp only [List.forall_mem_map, List.mem_range, List.mem_singleton, Told]
  rintro l hl _ rfl rfl
  omega

lemma apart_nat {d m k : Nat} {o : Option Nat} {u : Term} :
    Apart d m o (.nat k) u ↔ Told m k o ∧ u = .nat (k + d) := by
  cases o with
  | some l =>
    simp only [Apart, Told, Term.nat_inj, eq_comm (a := k)]
    exact and_congr_right fun same => by rw [same]
  | none =>
    constructor
    · rintro ⟨v, -, here, there⟩
      obtain ⟨l, rfl, rfl⟩ := Term.plus_sameParts_nat.mp here
      rw [Term.plus_nat, Term.nat_sameParts] at there
      exact ⟨Nat.le_add_left m l, by rw [there, Nat.add_assoc]⟩
    · rintro ⟨less, rfl⟩
      exact ⟨.nat (k - m), Term.isGround_nat _,
        Term.plus_sameParts_nat.mpr ⟨_, rfl, Nat.sub_add_cancel less⟩,
        Term.plus_sameParts_nat.mpr ⟨_, rfl, by rw [← Nat.add_assoc, Nat.sub_add_cancel less]⟩⟩

lemma apart_succ {d m : Nat} {o : Option Nat} {t u : Term} : Apart (d + 1) m o t u ↔
    ∃ w, w.isGround = true ∧ Term.sameParts (.succ w) u = true ∧ Apart d m o t w := by
  constructor
  · cases o with
    | some k =>
      rintro ⟨here, other⟩
      exact ⟨.nat (k + d), Term.isGround_nat _, Term.succ_nat_sameParts.mpr other, here, rfl⟩
    | none =>
      rintro ⟨v, hv, here, other⟩
      exact ⟨v.plus (m + d), by rwa [isGround_plus], other, v, hv, here, Term.sameParts_refl _⟩
  · rintro ⟨w, -, next, apart⟩
    cases o with
    | some k =>
      obtain ⟨here, rfl⟩ := apart
      exact ⟨here, Term.succ_nat_sameParts.mp next⟩
    | none =>
      obtain ⟨v, hv, here, other⟩ := apart
      exact ⟨v, hv, here, Term.sameParts_trans (u := .succ w) other next⟩

lemma apart_shift {d m : Nat} {o : Option Nat} {t u : Term} :
    Apart d (m + 1) (o.map (· + 1)) t u ↔ ∃ v w, v.isGround = true ∧ w.isGround = true ∧
      (Term.sameParts (.succ v) t = true ∧ Term.sameParts (.succ w) u = true) ∧
      Apart d m o v w := by
  constructor
  · cases o with
    | some k =>
      rintro ⟨here, other⟩
      rw [Nat.add_right_comm] at other
      exact ⟨.nat k, .nat (k + d), Term.isGround_nat _, Term.isGround_nat _,
        ⟨Term.succ_nat_sameParts.mpr here, Term.succ_nat_sameParts.mpr other⟩, rfl, rfl⟩
    | none =>
      rintro ⟨v, hv, here, other⟩
      rw [Nat.add_right_comm] at other
      exact ⟨v.plus m, v.plus (m + d), by rwa [isGround_plus], by rwa [isGround_plus],
        ⟨here, other⟩, v, hv, Term.sameParts_refl _, Term.sameParts_refl _⟩
  · rintro ⟨v, w, -, -, ⟨here, other⟩, apart⟩
    cases o with
    | some k =>
      obtain ⟨rfl, rfl⟩ := apart
      refine ⟨Term.succ_nat_sameParts.mp here, ?_⟩
      rw [Nat.add_right_comm]
      exact Term.succ_nat_sameParts.mp other
    | none =>
      obtain ⟨z, hz, first, second⟩ := apart
      refine ⟨z, hz, Term.sameParts_trans (u := .succ v) first here, ?_⟩
      rw [Nat.add_right_comm]
      exact Term.sameParts_trans (u := .succ w) second other

mutual

/-- If the first operand is known, the second and the sum are as far apart. -/
lemma addo_first {n i : Nat} {s : State} {a b c : Term} (hs : s.Proper n) (ha : Known n a)
    (hb : Known n b) (hc : Known n c) (known : s.Fixes n a (.nat i))
    (far : ∃ θ, s.Allows n θ ∧ Apart i i none (θ.apply b) (θ.apply c)) :
    Splits p n (Goal.call (.standard .addo) [a, b, c]) s
      ((firstNumbers i).map fun o θ => Apart i i o (θ.apply b) (θ.apply c)) := by
  obtain ⟨θ, hθ, v, hv, there, sum⟩ := far
  cases i with
  | zero =>
    have split := addo (p := p) hs ha hb hc [] (fun (_ : Unit) _ _ _ => True)
      (fun t ht => decided_of_allows ht.proper hb hc
        ((ht.allows_iff θ).mpr ⟨hθ, known.eq_nat hθ⟩)
        (Term.sameParts_trans (Term.sameParts_comm .. ▸ there) sum))
      (by simp) fun _ _ _ _ h => (h.left_ne_zero known).elim
    refine split.congr_one fun θ hθ => ⟨fun ⟨_, equal⟩ => ?_, fun ⟨w, _, here, sum⟩ => ?_⟩
    · exact ⟨θ.apply b, θ.isGround_apply hb.1, Term.sameParts_refl _, equal⟩
    · exact ⟨known.eq_nat hθ, Term.sameParts_trans (Term.sameParts_comm .. ▸ here) sum⟩
  | succ i =>
    have split := addo (p := p) hs ha hb hc (firstNumbers (i + 1))
      (fun o θ _ w => Apart i (i + 1) o (θ.apply b) w)
      (fun t ht => by
        obtain ⟨θ, hθ, zero⟩ := ht.exists_allows
        have one := known.eq_nat hθ
        rw [zero, Term.nat_inj] at one
        omega)
      (fun _ _ θ η agree v w here => by rwa [agree.apply_eq hb.2] at here)
      fun _ _ _ _ h => addo_second h.proper (h.known hb) h.left h.right (h.fixes_left known) (by
        obtain ⟨η, hη, agree, -, atY⟩ := h.exists_allows θ hθ (.nat i) (v.plus (i + 1 + i))
          (Term.isGround_nat i) (by rwa [isGround_plus])
          ⟨Term.succ_nat_sameParts.mpr (known.eq_nat hθ), sum⟩
        refine ⟨η, hη, v, hv, ?_, atY ▸ Term.sameParts_refl _⟩
        rwa [← agree.apply_eq hb.2])
    refine (split.drop fun θ hθ zero => ?_).congr_map fun o _ θ hθ =>
      apart_succ.trans ⟨?_, ?_⟩ |>.symm
    · have one := known.eq_nat hθ
      rw [zero.1, Term.nat_inj] at one
      omega
    · rintro ⟨w, hw, sum, apart⟩
      exact ⟨.nat i, w, Term.isGround_nat i, hw,
        ⟨Term.succ_nat_sameParts.mpr (known.eq_nat hθ), sum⟩, apart⟩
    · rintro ⟨_, w, -, hw, ⟨-, sum⟩, apart⟩
      exact ⟨w, hw, sum, apart⟩
termination_by 2 * i

/-- If the second operand is known, the first and the sum are as far apart. -/
lemma addo_second {n j : Nat} {s : State} {a b c : Term} (hs : s.Proper n) (ha : Known n a)
    (hb : Known n b) (hc : Known n c) (known : s.Fixes n b (.nat j))
    (far : ∃ θ, s.Allows n θ ∧ Apart j (j + 1) none (θ.apply a) (θ.apply c)) :
    Splits p n (Goal.call (.standard .addo) [a, b, c]) s
      ((firstNumbers (j + 1)).map fun o θ => Apart j (j + 1) o (θ.apply a) (θ.apply c)) := by
  obtain ⟨θ, hθ, v, hv, there, sum⟩ := far
  rw [Nat.add_right_comm] at sum
  have split := addo (p := p) hs ha hb hc (firstNumbers j) (fun o _ v w => Apart j j o v w)
    (fun t ht => ((ht.fixes known).decided (Term.isGround_nat j) ht.proper hb hc).1)
    (fun _ _ _ _ _ _ _ => id) fun _ _ _ _ h => addo_first h.proper (h.known hb) h.left h.right
      (h.fixes known) (by
        obtain ⟨η, hη, -, atX, atY⟩ := h.exists_allows θ hθ (v.plus j) (v.plus (j + j))
          (by rwa [isGround_plus]) (by rwa [isGround_plus]) ⟨there, sum⟩
        exact ⟨η, hη, v, hv, atX ▸ Term.sameParts_refl _, atY ▸ Term.sameParts_refl _⟩)
  rw [firstNumbers_succ, List.map_cons, List.map_map]
  refine split.congr_cons (fun θ hθ => ?_) fun o _ θ _ => apart_shift.symm
  rw [known.eq_nat hθ, Term.nat_sameParts, Apart, Nat.zero_add]
termination_by 2 * j + 1

end

/-! ### Comparisons -/

lemma gteo_goal (a b : Term) : Standard.gteo.goal [a, b] = Goal.freshNamed ["k"] fun
    | [k] => Goal.call (.standard .addo) [b, .var k, a]
    | _ => Goal.fail := rfl

lemma gteo (hs : s.Proper n) (ha : Known n a) (hb : Known n b) {m : Nat}
    (known : s.Fixes n a (.nat m)) : Splits p n (Goal.call (.standard .gteo) [a, b]) s
      ((List.range (m + 1)).map fun i θ => θ.apply b = .nat i) := by
  let k : Var := ⟨s.next, some "k"⟩
  have new : Known (s.next + 1) (.var k) := known_var (by simp [k])
  have body := addo_sum (p := p) (hs.fresh 1) (hs.known hb 1) new (hs.known ha 1)
    fun θ hθ => known θ (hs.allows_of_fresh hθ)
  have split : Splits p n (Goal.call (.standard .gteo) [a, b]) s
      ((List.Nat.antidiagonal m).map fun ij θ => ∃ vs : Fin 1 → Term,
        (∀ j, (vs j).isGround = true) ∧ θ.apply b = .nat ij.1 ∧ vs 0 = .nat ij.2) := by
    refine call (by simp [ha.1, hb.1]) (gteo_goal a b) (freshNamed rfl hs ?_ body)
    intro _ _ θ η agree vs h
    rwa [← agree.apply_eq hb.2]
  have numbers : List.range (m + 1) = (List.Nat.antidiagonal m).map Prod.fst := by
    simp [List.Nat.antidiagonal, Function.comp_def]
  rw [numbers, List.map_map]
  refine split.congr_map fun ij _ θ _ => ⟨fun ⟨_, _, here, _⟩ => here, fun here => ?_⟩
  exact ⟨fun _ => .nat ij.2, fun _ => Term.isGround_nat _, here, rfl⟩

lemma gteo_known (hs : s.Proper n) (i j : Nat) :
    Splits p n (Goal.call (.standard .gteo) [.nat i, .nat j]) s [fun _ => j ≤ i] := by
  have split := gteo (p := p) hs (known_nat i) (known_nat j) (fixes_self (Term.isGround_nat i))
  refine (split.single List.nodup_range ?_).congr_one fun θ _ => ?_
  · intro k _ l _ θ η _ _ here other
    rw [Term.apply_nat, Term.nat_inj] at here other
    exact here.symm.trans other
  · simp only [Term.apply_nat, Term.nat_inj, List.mem_range, exists_eq_right', Nat.lt_succ_iff]

lemma lteo (hs : s.Proper n) (ha : Known n a) (hb : Known n b) {m : Nat}
    (known : s.Fixes n a (.nat m)) : Splits p n (Goal.call (.standard .lteo) [b, a]) s
      ((List.range (m + 1)).map fun i θ => θ.apply b = .nat i) :=
  call (by simp [ha.1, hb.1]) rfl (gteo hs ha hb known)

end Goal.Splits

/-! ### Queries -/

namespace Query

open Goal.Splits

section

variable (p : Program) (names : List String) (a b c : Nat) (q : String)

lemma addo_holds :
    (ask p names (.ask .addo [.term (.nat a), .term (.nat b), .term (.nat c)])).Counts
      (if a + b = c then 1 else 0) := by
  have split := addo_operands (p := p) (proper_boundless names.length) (known_nat a) (known_nat b)
    (known_nat c) (fixes_self (Term.isGround_nat a)) (fixes_self (Term.isGround_nat b))
  refine counts_call [.nat a, .nat b, .nat c] (split.congr_one fun θ _ => ?_)
  rw [Term.apply_nat, Term.nat_inj, eq_comm]

lemma addo_sums : (askOne p q (.ask .addo [.term (.nat a), .term (.nat b), q])).Finds
    [.nat (a + b)] := by
  have split := addo_operands (p := p) (proper_boundless 1) (known_nat a) (known_nat b)
    (known_var (x := ⟨0, some q⟩) Nat.one_pos) (fixes_self (Term.isGround_nat a))
    (fixes_self (Term.isGround_nat b))
  exact finds_one [()] (fun _ => .nat (a + b)) (by simp [Expr.eval, value_ofVars_one])
    (fun _ _ => Term.isGround_nat _) (split.congr_one fun θ _ => Term.sameParts_nat.symm)

lemma addo_subtracts_first :
    (askOne p q (.ask .addo [.term (.nat a), q, .term (.nat c)])).Finds
      (if a ≤ c then [.nat (c - a)] else []) := by
  have split := addo_right (p := p) (proper_boundless 1) (known_nat a)
    (known_var (x := ⟨0, some q⟩) Nat.one_pos) (known_nat c) (fixes_self (Term.isGround_nat a))
    (fixes_self (Term.isGround_nat c))
  refine finds_nat (by simp [Expr.eval, value_ofVars_one]) (split.congr_one fun θ _ => ⟨?_, ?_⟩)
  · rintro ⟨j, rfl, here⟩
    exact ⟨Nat.le_add_right a j, by rwa [Nat.add_sub_cancel_left]⟩
  · rintro ⟨less, here⟩
    exact ⟨c - a, Nat.add_sub_of_le less, here⟩

lemma addo_subtracts_second :
    (askOne p q (.ask .addo [q, .term (.nat a), .term (.nat c)])).Finds
      (if a ≤ c then [.nat (c - a)] else []) := by
  have split := addo_left (p := p) (proper_boundless 1) (known_var (x := ⟨0, some q⟩) Nat.one_pos)
    (known_nat a) (known_nat c) (fixes_self (Term.isGround_nat a))
    (fixes_self (Term.isGround_nat c))
  refine finds_nat (by simp [Expr.eval, value_ofVars_one]) (split.congr_one fun θ _ => ⟨?_, ?_⟩)
  · rintro ⟨i, rfl, here⟩
    exact ⟨Nat.le_add_left a i, by rwa [Nat.add_sub_cancel]⟩
  · rintro ⟨less, here⟩
    exact ⟨c - a, Nat.sub_add_cancel less, here⟩

lemma addo_parts {x y : String} (hxy : x ≠ y) :
    (ask p [x, y] (.ask .addo [x, y, .term (.nat c)])).Finds
      ((List.range (c + 1)).map fun i => .ofList [.nat i, .nat (c - i)]) := by
  have split := addo_sum (p := p) (proper_boundless 2)
    (known_var (x := ⟨0, some x⟩) Nat.two_pos) (known_var (x := ⟨1, some y⟩) Nat.one_lt_two)
    (known_nat c) (fixes_self (Term.isGround_nat c))
  rw [List.Nat.antidiagonal, List.map_map] at split
  refine finds_two (by simp [Expr.eval, value_ofVars_two hxy])
    (fun i _ => ⟨Term.isGround_nat i, Term.isGround_nat _⟩) (split.congr_map fun i _ θ _ => ?_)
  rw [Term.sameParts_nat, Term.sameParts_nat]
  rfl

lemma gteo_holds : (ask p names (.ask .gteo [.term (.nat a), .term (.nat b)])).Counts
    (if b ≤ a then 1 else 0) :=
  counts_call [.nat a, .nat b] (gteo_known (proper_boundless names.length) a b)

lemma lteo_holds : (ask p names (.ask .lteo [.term (.nat b), .term (.nat a)])).Counts
    (if b ≤ a then 1 else 0) :=
  counts_call [.nat b, .nat a]
    (call (by simp) rfl (gteo_known (proper_boundless names.length) a b))

lemma lteo_counts_up : (askOne p q (.ask .lteo [q, .term (.nat c)])).Finds
    ((List.range (c + 1)).map .nat) := by
  have split := lteo (p := p) (proper_boundless 1) (known_nat c)
    (known_var (x := ⟨0, some q⟩) Nat.one_pos) (fixes_self (Term.isGround_nat c))
  refine finds_one _ .nat (by simp [Expr.eval, value_ofVars_one]) (fun i _ => Term.isGround_nat i)
    (split.congr_map fun i _ θ _ => ?_)
  exact Term.sameParts_nat.symm

end

/-- **Addition, in every mode in which the sum or both operands are known, and the comparisons.**
There are just the answers that arithmetic gives, each once, and then the search ends. -/
theorem addo_adds (p : Program) (a b c : Nat) (names : List String) (q : String) {x y : String}
    (hxy : x ≠ y) :
    (ask p names (.ask .addo [.term (.nat a), .term (.nat b), .term (.nat c)])).Counts
        (if a + b = c then 1 else 0) ∧
      (askOne p q (.ask .addo [.term (.nat a), .term (.nat b), q])).Finds [.nat (a + b)] ∧
      (askOne p q (.ask .addo [.term (.nat a), q, .term (.nat c)])).Finds
        (if a ≤ c then [.nat (c - a)] else []) ∧
      (askOne p q (.ask .addo [q, .term (.nat a), .term (.nat c)])).Finds
        (if a ≤ c then [.nat (c - a)] else []) ∧
      (ask p [x, y] (.ask .addo [x, y, .term (.nat c)])).Finds
        ((List.range (c + 1)).map fun i => .ofList [.nat i, .nat (c - i)]) ∧
      (ask p names (.ask .gteo [.term (.nat a), .term (.nat b)])).Counts
        (if b ≤ a then 1 else 0) ∧
      (ask p names (.ask .lteo [.term (.nat b), .term (.nat a)])).Counts
        (if b ≤ a then 1 else 0) ∧
      (askOne p q (.ask .lteo [q, .term (.nat c)])).Finds ((List.range (c + 1)).map .nat) :=
  ⟨addo_holds p names a b c, addo_sums p a b q, addo_subtracts_first p a c q,
    addo_subtracts_second p a c q, addo_parts p c hxy, gteo_holds p names a b,
    lteo_holds p names a b, lteo_counts_up p c q⟩

/-- What is asked about 2, 3 and 5, and which numbers make 2. -/
theorem addo_adds_two_three : "a" ≠ "b" ∧
    (ask .empty [] (.ask .addo [.term (.nat 2), .term (.nat 3), .term (.nat 5)])).Counts 1 ∧
    (askOne .empty "q" (.ask .addo [.term (.nat 2), .term (.nat 3), "q"])).Finds [.nat 5] ∧
    (askOne .empty "q" (.ask .addo [.term (.nat 2), "q", .term (.nat 5)])).Finds [.nat 3] ∧
    (ask .empty [] (.ask .gteo [.term (.nat 2), .term (.nat 3)])).Counts 0 ∧
    (askOne .empty "q" (.ask .lteo ["q", .term (.nat 2)])).Finds [.nat 0, .nat 1, .nat 2] ∧
    (ask .empty ["a", "b"] (.ask .addo ["a", "b", .term (.nat 2)])).Finds
      [.ofList [.nat 0, .nat 2], .ofList [.nat 1, .nat 1], .ofList [.nat 2, .nat 0]] := by
  have distinct : "a" ≠ "b" := by decide
  obtain ⟨holds, sum, difference, -, -, less, -, -⟩ := addo_adds .empty 2 3 5 [] "q" distinct
  obtain ⟨-, -, -, -, parts, -, -, below⟩ := addo_adds .empty 0 0 2 [] "q" distinct
  exact ⟨distinct, holds, sum, difference, less, below, parts⟩

end Query

end Relational
