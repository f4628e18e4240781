import Mathlib.Data.Finset.Prod
import Relational.Proofs.Depth
import Relational.Proofs.Subst.Acyclic
import Relational.Proofs.Subst.Supply

/-!
The depths allowed are deep enough for whatever ends at all, on cyclic bindings, too. A walk that
ends passes no variable twice. A unification that ends does not come back, on the way down, to
the same two terms under the same bindings; and along the way the bindings are told apart by
their number.
-/

open Relation (ReflTransGen)

namespace Relational

lemma rel_cases {α β : Type} {R : α → β → Prop} {a : Option α} {b : Option β}
    (h : Option.Rel R a b) :
    a = none ∧ b = none ∨ ∃ x y, a = some x ∧ b = some y ∧ R x y := by
  cases h with
  | none => exact .inl ⟨rfl, rfl⟩
  | some h => exact .inr ⟨_, _, rfl, rfl, h⟩

namespace Subst

variable {s t : Subst} {u v : Term} {r : Option Subst}

/-! ### Walks -/

lemma walkWithin_mono {m n : Nat} {a : Term} (h : s.walkWithin m u = some a) (hmn : m ≤ n) :
    s.walkWithin n u = some a := by
  fun_induction walkWithin s m u generalizing n with
  | case1 m x hx => cases n <;> simpa [walkWithin, hx] using h
  | case2 x w hx => cases h
  | case3 x m w hx ih =>
    obtain ⟨n, rfl⟩ : ∃ k, n = k + 1 := ⟨n - 1, by omega⟩
    simpa [walkWithin, hx] using ih h (by omega)
  | case4 m u hu => cases n <;> cases u <;> simp_all [walkWithin]

lemma Walks.exists_walkWithin {a : Term} (h : Walks s u a) : ∃ n, s.walkWithin n u = some a := by
  induction h with
  | «open» hx => exact ⟨0, by simp [walkWithin, hx]⟩
  | known hu => exact ⟨0, by cases ‹Term› <;> simp_all [walkWithin, Term.isVar, Term.asVar?]⟩
  | step hx _ ih =>
    obtain ⟨n, hn⟩ := ih
    exact ⟨n + 1, by simpa [walkWithin, hx] using hn⟩

lemma exists_find?_of_walkWithin (h : s.walkWithin 0 u = none) :
    ∃ x w, u = .var x ∧ s.find? x = some w := by
  cases u with
  | var x =>
    rcases hx : s.find? x with _ | w
    · simp [walkWithin, hx] at h
    · exact ⟨x, w, rfl, hx⟩
  | _ => simp [walkWithin] at h

lemma descent_walk (s : Subst) : Descent (fun n u => (s.walkWithin n u).isSome = true)
    fun u w => ∃ x, u = .var x ∧ s.find? x = some w where
  mono := by
    intro m n u h hmn
    obtain ⟨a, ha⟩ := Option.isSome_iff_exists.mp h
    rw [walkWithin_mono ha hmn]
    rfl
  below := by
    intro n u h hn
    rw [Option.not_isSome_iff_eq_none] at hn
    have h0 : s.walkWithin 0 u = none := by
      rcases h0 : s.walkWithin 0 u with _ | a
      · rfl
      · rw [walkWithin_mono h0 n.succ.zero_le] at hn
        cases hn
    obtain ⟨x, w, rfl, hx⟩ := exists_find?_of_walkWithin h0
    refine ⟨w, ⟨x, rfl, hx⟩, by simpa [walkWithin, hx] using h, ?_⟩
    simpa [walkWithin, hx] using hn

/-- **Walks are followed to their end.** -/
theorem walk?_eq_some_iff {a : Term} : s.walk? u = some a ↔ Walks s u a := by
  refine ⟨walks_of_walk?, fun h => ?_⟩
  obtain ⟨m, hm⟩ := h.exists_walkWithin
  have ends : (s.walkWithin s.bound.card u).isSome = true := by
    refine (descent_walk s).done_card s.bound (fun w => w.ids.headD 0) (fun w _ hw => ?_)
      (fun d e _ _ hd he hkey n hn => ?_) (Option.isSome_iff_exists.mpr ⟨a, hm⟩)
    · rw [Option.not_isSome_iff_eq_none] at hw
      obtain ⟨x, w', rfl, hx⟩ := exists_find?_of_walkWithin hw
      exact mem_bound hx
    · rw [Option.not_isSome_iff_eq_none] at hd he
      obtain ⟨x, d', rfl, hx⟩ := exists_find?_of_walkWithin hd
      obtain ⟨y, e', rfl, hy⟩ := exists_find?_of_walkWithin he
      have same : s.find? x = s.find? y := find?_congr hkey
      cases n <;> simp_all [walkWithin]
  exact walkWithin_mono (eq_some_of_isSome walkWithin_mono hm ends) (card_bound_le s)

/-! ### Bindings counted -/

lemma size_extend_of_open {x : Var} (hx : s.find? x = none) (w : Term) :
    (s.extend x w).size = s.size + 1 := by
  rw [size_extend, has_eq_isSome, hx]
  rfl

lemma Grows.size_le {C : Term → Prop} (h : Grows C s t) :
    s.size ≤ t.size ∧ (t.size = s.size → t = s) := by
  induction h with
  | refl => exact ⟨Nat.le_refl _, fun _ => rfl⟩
  | bind _ _ _ free _ ih =>
    rw [size_extend_of_open free]
    obtain ⟨hle, -⟩ := ih
    exact ⟨by omega, fun h => by omega⟩

/-- Every new binding is for a variable of its own that is one of the terms. -/
lemma Grows.size_le_card {P : Finset Term} (h : Grows (· ∈ P) s t) :
    t.size ≤ s.size + P.card := by
  classical
  let bound (t : Subst) : Finset Term := P.filter fun p => ∃ x, p = .var x ∧ t.find? x ≠ none
  have count : t.size + (bound s).card ≤ s.size + (bound t).card := by
    induction h with
    | refl => exact Nat.le_refl _
    | @bind t x w h hx _ free _ ih =>
      have more : bound t ⊂ bound (t.extend x w) := by
        refine ⟨fun p hp => ?_, fun hsub => ?_⟩
        · simp only [bound, Finset.mem_filter] at hp ⊢
          obtain ⟨hp, y, rfl, hy⟩ := hp
          refine ⟨hp, y, rfl, ?_⟩
          rw [find?_extend]
          split
          · simp
          · exact hy
        · have : Term.var x ∈ bound t := hsub (by simp [bound, hx, find?_extend])
          simp only [bound, Finset.mem_filter] at this
          obtain ⟨-, y, ⟨⟩, hy⟩ := this
          exact hy free
      have := Finset.card_lt_card more
      rw [size_extend_of_open free]
      omega
  have : (bound t).card ≤ P.card := Finset.card_filter_le _ _
  omega

/-! ### Unification -/

lemma unifyWithin_mono {m n : Nat} (h : unifyWithin m s u v = some r) (hmn : m ≤ n) :
    unifyWithin n s u v = some r := by
  induction m generalizing n s u v r with
  | zero => cases h
  | succ m ih =>
    obtain ⟨n, rfl⟩ : ∃ k, n = k + 1 := ⟨n - 1, by omega⟩
    rw [unifyWithin_succ] at h ⊢
    rcases hu : s.walk? u with _ | a
    · simp [hu] at h
    rcases hv : s.walk? v with _ | b
    · simp [hu, hv] at h
    simp only [hu, hv] at h ⊢
    rcases hm : meet a b with _ | _ | ⟨x, w⟩ | ⟨a₁, d₁, b₁, e₁⟩ | ⟨p, q⟩ <;> simp only [hm] at h ⊢
    · exact h
    · exact h
    · exact h
    · rcases hh : unifyWithin m s a₁ b₁ with _ | _ | s' <;> rw [hh] at h
      · cases h
      · rw [ih hh (by omega)]
        exact h
      · rw [ih hh (by omega)]
        exact ih h (by omega)
    · exact ih h (by omega)

/-- A unification calls for the unification of parts. -/
inductive Calls : Subst × Term × Term → Subst × Term × Term → Prop
  | head {s : Subst} {u v a d b e : Term} (h : Faces s u v (.pairs a d b e)) :
      Calls (s, u, v) (s, a, b)
  | tail {s s' : Subst} {u v a d b e : Term} (h : Faces s u v (.pairs a d b e))
      (ha : Unifies s a b (some s')) : Calls (s, u, v) (s', d, e)
  | pred {s : Subst} {u v p q : Term} (h : Faces s u v (.succs p q)) : Calls (s, u, v) (s, p, q)

lemma descent_unify :
    Descent (fun n c => (unifyWithin n c.1 c.2.1 c.2.2).isSome = true) Calls where
  mono := by
    intro m n c h hmn
    obtain ⟨r, hr⟩ := Option.isSome_iff_exists.mp h
    rw [unifyWithin_mono hr hmn]
    rfl
  below := by
    rintro n ⟨s, u, v⟩ h hn
    dsimp only at h hn
    rw [Option.not_isSome_iff_eq_none] at hn
    rw [unifyWithin_succ] at h hn
    rcases hu : s.walk? u with _ | a
    · simp [hu] at h
    rcases hv : s.walk? v with _ | b
    · simp [hu, hv] at h
    have face : ∀ m, meet a b = m → Faces s u v m := fun m hm => ⟨a, b, hu, hv, hm⟩
    simp only [hu, hv] at h hn
    rcases hm : meet a b with _ | _ | ⟨x, w⟩ | ⟨a₁, d₁, b₁, e₁⟩ | ⟨p, q⟩ <;>
      simp only [hm] at h hn
    · cases hn
    · cases hn
    · cases hn
    · -- it is the heads that need the depth, or else the tails
      rcases hh : unifyWithin n s a₁ b₁ with _ | _ | s' <;> rw [hh] at hn
      · refine ⟨(s, a₁, b₁), .head (face _ hm), ?_, by simp [hh]⟩
        rcases hh' : unifyWithin (n + 1) s a₁ b₁ with _ | r
        · simp [hh'] at h
        · rfl
      · cases hn
      · rw [unifyWithin_mono hh n.le_succ] at h
        exact ⟨(s', d₁, e₁), .tail (face _ hm) (unifies_of_unifyWithin hh), h, by simpa using hn⟩
    · exact ⟨(s, p, q), .pred (face _ hm), h, by simpa using hn⟩

/-- Every unification that a run comes to is about parts of what it was given. -/
lemma Calls.among {C : Term → Prop} (hC : Inherited C) {c d : Subst × Term × Term}
    (h : ReflTransGen Calls c d) (hc : Among C c.1 c.2.1 c.2.2) :
    Grows C c.1 d.1 ∧ Among C d.1 d.2.1 d.2.2 := by
  induction h with
  | refl => exact ⟨.refl, hc⟩
  | tail _ hd ih =>
    obtain ⟨hg, ha⟩ := ih
    cases hd with
    | head hf => exact ⟨hg, (ha.pairs hC hf).1⟩
    | tail hf hu =>
      obtain ⟨hh, ht⟩ := ha.pairs hC hf
      have grown := hu.grows hC hh _ rfl
      exact ⟨hg.trans grown, grown.values ht.subst, ht.left, ht.right⟩
    | pred hf => exact ⟨hg, ha.succs hC hf⟩

lemma Unifies.exists_unifyWithin (h : Unifies s u v r) : ∃ n, unifyWithin n s u v = some r := by
  induction h with
  | agree h =>
    obtain ⟨a, b, ha, hb, hm⟩ := h
    exact ⟨1, by simp [unifyWithin_succ, ha, hb, hm]⟩
  | clash h =>
    obtain ⟨a, b, ha, hb, hm⟩ := h
    exact ⟨1, by simp [unifyWithin_succ, ha, hb, hm]⟩
  | bind h =>
    obtain ⟨a, b, ha, hb, hm⟩ := h
    exact ⟨1, by simp [unifyWithin_succ, ha, hb, hm]⟩
  | heads h _ ih =>
    obtain ⟨a, b, ha, hb, hm⟩ := h
    obtain ⟨n, hn⟩ := ih
    exact ⟨n + 1, by simp [unifyWithin_succ, ha, hb, hm, hn]⟩
  | pairs h _ _ iha ihd =>
    obtain ⟨a, b, ha, hb, hm⟩ := h
    obtain ⟨m, hm'⟩ := iha
    obtain ⟨n, hn⟩ := ihd
    have heads := unifyWithin_mono hm' (Nat.le_max_left m n)
    have tails := unifyWithin_mono hn (Nat.le_max_right m n)
    exact ⟨max m n + 1, by simp [unifyWithin_succ, ha, hb, hm, heads, tails]⟩
  | succs h _ ih =>
    obtain ⟨a, b, ha, hb, hm⟩ := h
    obtain ⟨n, hn⟩ := ih
    exact ⟨n + 1, by simp [unifyWithin_succ, ha, hb, hm, hn]⟩

lemma mul_mul_le_pow {n m : Nat} (h : n ≤ m) : (n + 1) * (n * n) ≤ Nat.pow (m + 1) 3 := by
  have cube : Nat.pow (m + 1) 3 = (m + 1) * (m + 1) * (m + 1) := by
    simp only [Nat.pow_eq, Nat.pow_succ, Nat.pow_zero, Nat.one_mul]
  rw [cube, Nat.mul_assoc]
  exact Nat.mul_le_mul (by omega) (Nat.mul_le_mul (by omega) (by omega))

/-- Within the depth that terms and bindings allow, unification comes to its end if it has one. -/
lemma Unifies.unifyWithin_depthBound (h : Unifies s u v r) :
    unifyWithin (s.depthBound u v) s u v = some r := by
  obtain ⟨m, hm⟩ := h.exists_unifyWithin
  let P := supply s u v
  let S := Finset.range (P.card + 1) ×ˢ P ×ˢ P
  have hP := inherited_supply s u v
  have along (d : Subst × Term × Term) (hd : ReflTransGen Calls (s, u, v) d) :
      Grows (· ∈ P) s d.1 ∧ Among (· ∈ P) d.1 d.2.1 d.2.2 :=
    Calls.among hP hd (among_supply s u v)
  have ends : (unifyWithin S.card s u v).isSome = true := by
    refine descent_unify.done_card S (fun c => (c.1.size - s.size, c.2)) (fun d hd _ => ?_)
      (fun d e hd he _ _ hkey n hn => ?_) (c := (s, u, v)) (Option.isSome_iff_exists.mpr ⟨r, hm⟩)
    · obtain ⟨grown, ha⟩ := along d hd
      have few := grown.size_le_card
      simp only [S, Finset.mem_product, Finset.mem_range]
      exact ⟨by omega, ha.left, ha.right⟩
    · -- no bindings were made in between, since as many are there
      obtain ⟨grown, ha⟩ := along d hd
      obtain ⟨more, -⟩ := Calls.among hP he ha
      obtain ⟨hsize, hterms⟩ := Prod.mk.inj hkey
      have hd' := grown.size_le.1
      have he' := more.size_le.1
      have same : e.1 = d.1 := more.size_le.2 (by omega)
      rwa [same, ← hterms] at hn
  have count : S.card ≤ s.depthBound u v := by
    have few := card_supply_le s u v
    have cube := mul_mul_le_pow few
    simp only [S, Finset.card_product, Finset.card_range]
    exact cube.trans (Nat.le_succ _)
  exact unifyWithin_mono (eq_some_of_isSome unifyWithin_mono hm ends) count

/-- **Unification is followed to its end**: it gives whatever it gives at any depth. -/
theorem unify?_eq_some_iff : s.unify? u v = some r ↔ Unifies s u v r := by
  refine ⟨unifies_of_unify?, fun h => ?_⟩
  have deep := h.unifyWithin_depthBound
  rcases hq : unifyWithin quickDepth s u v with _ | r'
  · rw [unify?, hq]
    exact deep
  · rw [unify?, hq]
    exact hq.symm.trans (eq_some_of_isSome unifyWithin_mono deep (by rw [hq]; rfl))

/-- Two unifications with related results at every depth have related results, and an end in both
cases or in neither. -/
lemma rel_unify? {R : Option Subst → Option Subst → Prop} {u' v' : Term}
    (h : ∀ n, Option.Rel R (unifyWithin n s u v) (unifyWithin n t u' v')) :
    Option.Rel R (s.unify? u v) (t.unify? u' v') := by
  rcases hr : s.unify? u v with _ | r
  · rcases hr' : t.unify? u' v' with _ | r'
    · exact .none
    · obtain ⟨n, hn⟩ := (unify?_eq_some_iff.mp hr').exists_unifyWithin
      rcases rel_cases (h n) with ⟨-, he⟩ | ⟨r, -, he, -, -⟩
      · rw [hn] at he
        cases he
      · rw [unify?_eq_some_iff.mpr (unifies_of_unifyWithin he)] at hr
        cases hr
  · obtain ⟨n, hn⟩ := (unify?_eq_some_iff.mp hr).exists_unifyWithin
    rcases rel_cases (h n) with ⟨he, -⟩ | ⟨_, r', he, he', hrr⟩ <;> rw [hn] at he <;> cases he
    rw [unify?_eq_some_iff.mpr (unifies_of_unifyWithin he')]
    exact .some hrr

end Subst

end Relational
