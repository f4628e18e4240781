import Relational.Proofs.Query.Finds

/-!
Equations about unary numbers, and the relations that put a number next to its successor. Each of
them splits a state into one case. What is asked of the state is that the equation is decided there:
that a number is known, or that the predecessor is still free.
-/

namespace Relational

open State Subst Goal

namespace Term

lemma sameParts_nat {t : Term} {m : Nat} : sameParts t (nat m) = true ↔ t = nat m := by
  induction m generalizing t with
  | zero => cases t <;> simp [nat, plus, sameParts]
  | succ m ih =>
    have step : nat (m + 1) = succ (nat m) := rfl
    cases t <;> simp [step, sameParts, ih]

lemma nat_sameParts {t : Term} {m : Nat} : sameParts (nat m) t = true ↔ t = nat m := by
  rw [sameParts_comm, sameParts_nat]

lemma succ_nat_sameParts {t : Term} {m : Nat} :
    sameParts (succ (nat m)) t = true ↔ t = nat (m + 1) := nat_sameParts (m := m + 1)

lemma succ_sameParts {v t : Term} :
    sameParts (succ v) t = true ↔ ∃ w, t = succ w ∧ sameParts v w = true := by
  cases t <;> simp [sameParts]

lemma eq_nat_of_succ {v t : Term} {m : Nat} (h : sameParts (succ v) t = true)
    (ht : sameParts t (nat (m + 1)) = true) : v = nat m := by
  have next : sameParts (succ v) (nat (m + 1)) = true := sameParts_trans h ht
  exact sameParts_nat.mp next

lemma not_succ_zero {v t : Term} (h : sameParts (succ v) t = true) :
    sameParts t (nat 0) = false := by
  obtain ⟨w, rfl, -⟩ := succ_sameParts.mp h
  rfl

lemma isGround_nat (m : Nat) : (nat m).isGround = true := by
  induction m with
  | zero => rfl
  | succ m ih => exact ih

@[simp] lemma hasWildcard_nat (m : Nat) : (nat m).hasWildcard = false :=
  hasWildcard_of_isGround (isGround_nat m)

@[simp] lemma apply_nat (θ : Valuation) (m : Nat) : θ.apply (nat m) = nat m :=
  θ.apply_of_isGround (isGround_nat m)

@[simp] lemma nat_inj {i j : Nat} : nat i = nat j ↔ i = j := by
  refine ⟨fun h => ?_, congrArg nat⟩
  induction i generalizing j with
  | zero => cases j with
    | zero => rfl
    | succ j => cases h
  | succ i ih => cases j with
    | zero => cases h
    | succ j => exact congrArg (· + 1) (ih (Term.succ.inj h))

lemma exists_nat_eq_succ {m : Nat} : (∃ v, nat m = succ v) ↔ 0 < m := by
  cases m with
  | zero => exact ⟨fun ⟨_, h⟩ => Term.noConfusion h, fun h => absurd h (Nat.lt_irrefl 0)⟩
  | succ m => exact ⟨fun _ => Nat.succ_pos m, fun _ => ⟨nat m, rfl⟩⟩

lemma exists_nat_eq_succ_succ {m : Nat} : (∃ v, nat m = succ (succ v)) ↔ 1 < m := by
  cases m with
  | zero => exact ⟨fun ⟨_, h⟩ => Term.noConfusion h, fun h => absurd h (by decide)⟩
  | succ m =>
    have pred : (∃ v, nat (m + 1) = succ (succ v)) ↔ ∃ v, nat m = succ v :=
      exists_congr fun v => ⟨Term.succ.inj, congrArg Term.succ⟩
    rw [pred, exists_nat_eq_succ, Nat.lt_add_left_iff_pos]

lemma plus_nat (l k : Nat) : (nat l).plus k = nat (l + k) := by
  induction k with
  | zero => rfl
  | succ k ih => exact congrArg succ ih

lemma plus_sameParts_nat {v : Term} {k m : Nat} :
    sameParts (v.plus k) (nat m) = true ↔ ∃ l, v = nat l ∧ l + k = m := by
  rw [sameParts_nat]
  constructor
  · intro h
    induction k generalizing m with
    | zero => exact ⟨m, h, rfl⟩
    | succ k ih =>
      obtain ⟨v', h'⟩ : ∃ v', nat m = succ v' := ⟨_, h.symm⟩
      obtain ⟨m, rfl⟩ := Nat.exists_eq_succ_of_ne_zero (exists_nat_eq_succ.mp ⟨v', h'⟩).ne'
      obtain ⟨l, rfl, rfl⟩ := ih (Term.succ.inj h)
      exact ⟨l, rfl, rfl⟩
  · rintro ⟨l, rfl, rfl⟩
    exact plus_nat l k

lemma asNat?_succ (t : Term) : (succ t).asNat? = t.asNat?.map (· + 1) := by
  rw [asNat?, asNat?, unplus]
  rcases t.unplus with ⟨u, k⟩
  cases u <;> rfl

lemma asNat?_eq_some {t : Term} {m : Nat} : t.asNat? = some m ↔ t = nat m := by
  induction t generalizing m with
  | succ p ih =>
    rw [asNat?_succ, Option.map_eq_some_iff]
    constructor
    · rintro ⟨k, number, rfl⟩
      exact congrArg succ (ih.mp number)
    · intro number
      obtain ⟨k, rfl⟩ := Nat.exists_eq_succ_of_ne_zero (exists_nat_eq_succ.mp ⟨p, number.symm⟩).ne'
      exact ⟨k, ih.mpr (Term.succ.inj number), rfl⟩
  | _ => cases m <;> simp [asNat?, unplus, nat, plus]

end Term

lemma State.Fixes.eq_nat {n m : Nat} {s : State} {a : Term} (h : s.Fixes n a (.nat m))
    {θ : Valuation} (hθ : s.Allows n θ) : θ.apply a = .nat m := Term.sameParts_nat.mp (h θ hθ)

lemma State.Narrows.fixes_nat {n k : Nat} {s t : State} {u : Term} {P : Valuation → Prop}
    (h : Narrows n P s t) (hP : ∀ θ, P θ → θ.apply u = .nat k) : t.Fixes n u (.nat k) :=
  fun θ hθ => Term.sameParts_nat.mpr (hP θ ((h.allows_iff θ).mp hθ).2)

lemma Subst.known_nat {n : Nat} (m : Nat) : Known n (.nat m) :=
  known_of_isGround (Term.isGround_nat m)

namespace Goal.Splits

variable {p : Program} {n : Nat} {s : State} {a b : Term}

lemma eq_nat (hs : s.Proper n) (ha : Known n a) (m : Nat) :
    Splits p n (Goal.eq (.nat m) a) s [fun θ => θ.apply a = .nat m] := by
  have ground := Term.isGround_nat m
  have decided := ((fixes_self ground).decided ground hs (known_nat m) ha).1
  refine (eq hs (known_nat m) ha decided).congr_one fun θ _ => ?_
  rw [Term.apply_nat, Term.nat_sameParts]

lemma inco {g : Term} (hs : s.Proper n) (ha : Known n a) (hb : Known n b)
    (range : s.Ranges n g a b) : Splits p n (Goal.call (.standard .inco) [a, b]) s
      [fun θ => Term.sameParts (.succ (θ.apply a)) (θ.apply b) = true] := by
  have plain : ∀ t ∈ [a, b], t.hasWildcard = false := by simp [ha.1, hb.1]
  exact call plain rfl (eq hs ha hb (range.succ.decided hs ha hb))

lemma inco_fresh (hs : s.Proper n) (ha : Known n a) (name : Option String) :
    Splits p (s.next + 1) (Goal.call (.standard .inco) [.var ⟨s.next, name⟩, a])
      (s.advance 1)
      [fun θ => Term.sameParts (.succ (θ.value s.next)) (θ.apply a) = true] := by
  have free := (leaves_fresh hs (k := 1) (Nat.le_refl s.next)).ranges (x := ⟨s.next, name⟩)
    (hs.notMem ha (Nat.le_refl _)) 0
  exact inco (hs.fresh 1) (known_var (Nat.lt_succ_self s.next)) (hs.known ha 1) free

lemma poso_goal (a : Term) : Standard.poso.goal [a] = Goal.freshNamed ["x"] fun
    | [x] => Goal.call (.standard .inco) [.var x, a]
    | _ => Goal.fail := rfl

lemma poso (hs : s.Proper n) (ha : Known n a) :
    Splits p n (Goal.call (.standard .poso) [a]) s [fun θ => ∃ v, θ.apply a = .succ v] := by
  have split : Splits p n (Goal.call (.standard .poso) [a]) s [fun θ =>
      ∃ vs : Fin 1 → Term, (∀ j, (vs j).isGround = true) ∧
        Term.sameParts (.succ (vs 0)) (θ.apply a) = true] := by
    refine call (by simp [ha.1]) (poso_goal a)
      (freshNamed_one rfl hs ?_ (inco_fresh hs ha (some "x")))
    intro θ η agree vs h
    rwa [← agree.apply_eq ha.2]
  refine split.congr_one fun θ _ => ⟨?_, ?_⟩
  · rintro ⟨vs, -, same⟩
    obtain ⟨w, hw, -⟩ := Term.succ_sameParts.mp same
    exact ⟨w, hw⟩
  · rintro ⟨v, hv⟩
    have ground := θ.isGround_apply ha.1
    rw [hv] at ground
    exact ⟨fun _ => v, fun _ => ground, by rw [hv]; exact Term.sameParts_refl _⟩

lemma gt1o_goal (a : Term) : Standard.gt1o.goal [a] = Goal.freshNamed ["x"] fun
    | [x] => Goal.conj2 (Goal.call (.standard .poso) [.var x])
        (Goal.call (.standard .inco) [.var x, a])
    | _ => Goal.fail := rfl

lemma gt1o (hs : s.Proper n) (ha : Known n a) :
    Splits p n (Goal.call (.standard .gt1o) [a]) s
      [fun θ => ∃ v, θ.apply a = .succ (.succ v)] := by
  let x : Var := ⟨s.next, some "x"⟩
  have new : Known (s.next + 1) (.var x) := known_var (by simp [x])
  have free := leaves_fresh hs (k := 1) (Nat.le_refl s.next)
  -- once it is positive, the new variable still is any successor
  have positive : Splits p (s.next + 1) (Goal.call (.standard .poso) [.var x])
      (s.advance 1) [fun θ => (Term.succ (.wildcard 0)).Fills (θ.apply (.var x))] := by
    refine (poso (hs.fresh 1) new).congr_one fun θ _ => ⟨?_, fun h => ?_⟩
    · rintro ⟨v, hv⟩
      have ground := θ.ground s.next
      rw [Valuation.apply_var] at hv ⊢
      rw [hv] at ground ⊢
      exact .succ (.wildcard ground)
    · obtain ⟨v, hv, -⟩ := Ranges.exists_of_succ h
      exact ⟨v, hv⟩
  have body := conj2_both positive fun t ht =>
    inco ht.proper new (hs.known ha 1) (ht.ranges free (hs.notMem ha (Nat.le_refl _)))
  have split : Splits p n (Goal.call (.standard .gt1o) [a]) s [fun θ =>
      ∃ vs : Fin 1 → Term, (∀ j, (vs j).isGround = true) ∧
        (Term.succ (.wildcard 0)).Fills (vs 0) ∧
        Term.sameParts (.succ (vs 0)) (θ.apply a) = true] := by
    refine call (by simp [ha.1]) (gt1o_goal a) (freshNamed_one rfl hs ?_ body)
    intro θ η agree vs h
    rwa [← agree.apply_eq ha.2]
  refine split.congr_one fun θ _ => ⟨?_, ?_⟩
  · rintro ⟨vs, -, shape, same⟩
    obtain ⟨v, hv, -⟩ := Ranges.exists_of_succ shape
    rw [hv] at same
    obtain ⟨w, hw, same⟩ := Term.succ_sameParts.mp same
    obtain ⟨w, rfl, -⟩ := Term.succ_sameParts.mp same
    exact ⟨w, hw⟩
  · rintro ⟨v, hv⟩
    have ground := θ.isGround_apply ha.1
    rw [hv] at ground
    exact ⟨fun _ => .succ v, fun _ => ground, .succ (.wildcard ground),
      by rw [hv]; exact Term.sameParts_refl _⟩

end Goal.Splits

namespace Query

variable {p : Program} {x : String} {r : Standard} {args : List Expr} {ts : List Term}

lemma finds_nat {C : Prop} [Decidable C] {k : Nat}
    (hr : args.map (Expr.eval (.ofVars [⟨0, some x⟩])) = ts)
    (h : Goal.Splits p 1 (Goal.call (.standard r) ts) (.boundless 1)
      [fun θ => C ∧ θ.value 0 = .nat k]) :
    (askOne p x (.ask r args)).Finds (if C then [.nat k] else []) := by
  have ground : ∀ i ∈ [()], (Term.nat k).isGround = true := fun _ _ => Term.isGround_nat k
  split
  case isTrue yes =>
    refine finds_one [()] (fun _ => .nat k) hr ground (h.congr_one fun θ _ => ?_)
    exact (and_iff_right yes).trans Term.sameParts_nat.symm
  case isFalse no =>
    exact finds_one [] (fun _ : Unit => .nat k) hr (by simp)
      (h.drop fun θ _ here => no here.1)

end Query

end Relational
