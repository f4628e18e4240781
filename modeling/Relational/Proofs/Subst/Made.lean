import Relational.Proofs.Subst.Depth

/-!
Bindings that calls make. Unifying and placing add bindings one by one, each for a variable that
has none yet; and a variable is never bound to another one that is bound. So, however many calls
came before and whatever cyclic terms they made, a chain of variables bound to each other never
comes back, and every walk ends within as many look-ups as there are bindings.
-/

open Relation (ReflTransGen)

namespace Relational.Subst

variable {s t r : Subst} {u v w : Term}

/-! ### Adding bindings -/

lemma adds_placeholder {x : Var} (hx : s.find? x = none) (n : Nat) :
    Adds s (s.extend x (.placeholder n)) :=
  .bind .refl trivial trivial hx fun _ hy => by cases hy

lemma adds_foldlM {f : Subst → Var → Option Subst} (hf : ∀ s x t, f s x = some t → Adds s t)
    {xs : List Var} (h : xs.foldlM f s = some t) : Adds s t := by
  induction xs generalizing s with
  | nil =>
    cases h
    exact .refl
  | cons x xs ih =>
    rw [List.foldlM_cons] at h
    obtain ⟨r, hr, h⟩ := Option.bind_eq_some_iff.mp h
    exact (hf s x r hr).trans (ih h)

lemma adds_placeWithin {k : Nat} (h : placeWithin k s u = some t) : Adds s t := by
  induction k generalizing s t u with
  | zero =>
    refine adds_foldlM (fun s x t hx => ?_) h
    rw [has_eq_isSome] at hx
    rcases hf : s.find? x with _ | w <;> simp only [hf] at hx <;> cases hx
    exact adds_placeholder hf s.size
  | succ k ih =>
    refine adds_foldlM (fun s x t hx => ?_) h
    rcases hf : s.find? x with _ | w <;> simp only [hf] at hx
    · cases hx
      exact adds_placeholder hf s.size
    · exact ih hx

/-! ### Calls -/

inductive Call where
  | unify (u v : Term)
  | place (t : Term)

def Call.run? (s : Subst) : Call → Option Subst
  | unify u v => (s.unify? u v).join
  | place t => s.place? t

/-- The bindings `t` are made from `s` by successful calls, one after another. -/
inductive Made (s : Subst) : Subst → Prop
  | refl : Made s s
  | call {t r : Subst} (h : Made s t) (c : Call) (hr : c.run? t = some r) : Made s r

/-- In the course of unifying `u` and `v` under `s`, when `r` is what it has made so far, `x` is
bound to `w`. -/
def Binds (s : Subst) (u v : Term) (r : Subst) (x : Var) (w : Term) : Prop :=
  ∃ u' v', ReflTransGen Calls (s, u, v) (r, u', v') ∧ Faces r u' v' (.bind x w)

lemma Call.adds {c : Call} (h : c.run? s = some t) : Adds s t := by
  cases c with
  | unify u v => exact (unifies_of_unify? (Option.join_eq_some_iff.mp h)).adds
  | place u => exact adds_placeWithin h

lemma Made.adds (h : Made s t) : Adds s t := by
  induction h with
  | refl => exact .refl
  | call _ _ hr ih => exact ih.trans (Call.adds hr)

lemma Made.straight (h : Made ∅ s) : s.Straight := h.adds.straight placed_empty.acyclic.straight

/-! ### Look-ups -/

/-- Following the variable at the root of `t` through exactly `k` bindings leads to `u`. -/
inductive Follows (s : Subst) : Nat → Term → Term → Prop
  | here (t : Term) : Follows s 0 t t
  | step {x : Var} {t u : Term} {k : Nat} (hx : s.find? x = some t) (h : Follows s k t u) :
      Follows s (k + 1) (.var x) u

lemma exists_follows {k : Nat} (h : s.walkWithin k u = some w) :
    ∃ j ≤ k, Follows s j u w ∧ ∀ x, w = .var x → s.find? x = none := by
  fun_induction walkWithin s k u with
  | case1 k x hx =>
    cases h
    refine ⟨0, Nat.zero_le k, .here _, ?_⟩
    rintro _ ⟨⟩
    exact hx
  | case2 => cases h
  | case3 x t k hx ih =>
    obtain ⟨j, hj, follows, root⟩ := ih h
    exact ⟨j + 1, Nat.succ_le_succ hj, .step hx follows, root⟩
  | case4 k t ht =>
    cases h
    exact ⟨0, Nat.zero_le k, .here _, fun x hx => absurd hx (ht x)⟩

/-- **Every walk ends**, whatever calls made the bindings. -/
theorem walks_of_made (h : Made ∅ s) :
    (∀ u v r x w, Binds s u v r x w → r.find? x = none) ∧
      (∀ r, Made ∅ r → Made r s → Adds r s) ∧ s.Straight ∧
      ∀ t, ∃ k ≤ s.size, ∃ u, Follows s k t u ∧ s.walk? t = some u ∧
        ∀ x, u = .var x → s.find? x = none := by
  refine ⟨?_, fun r _ hr => hr.adds, h.straight, fun t => ?_⟩
  · rintro u v r x w ⟨u', v', -, faces⟩
    exact faces.bind_open.1
  · obtain ⟨u, hu⟩ := h.straight.walk? t
    obtain ⟨k, hk, follows, root⟩ := exists_follows hu
    exact ⟨k, hk, u, follows, hu, root⟩

/-- Four calls: the first makes a cyclic term that holds a wildcard, the next two a chain of
variables that ends there, and the last one numbers a variable. -/
theorem walks_of_made_cycle :
    let t := Term.pair (.var ⟨0, none⟩) (.wildcard 0)
    let s := (((Subst.empty.extend ⟨0, none⟩ t).extend ⟨1, none⟩ (.var ⟨2, none⟩)).extend
      ⟨2, none⟩ t).extend ⟨3, none⟩ (.placeholder 3)
    Made ∅ s ∧ ¬s.Acyclic ∧ s.Straight ∧
      ∃ k ≤ s.size, ∃ u, Follows s k (.var ⟨1, none⟩) u ∧ s.walk? (.var ⟨1, none⟩) = some u ∧
        ∀ x, u = .var x → s.find? x = none := by
  intro t s
  have made : Made ∅ s :=
    (((Made.refl.call (.unify (.var ⟨0, none⟩) t) rfl).call
      (.unify (.var ⟨1, none⟩) (.var ⟨2, none⟩)) rfl).call
      (.unify (.var ⟨2, none⟩) (.var ⟨0, none⟩)) rfl).call (.place (.var ⟨3, none⟩)) rfl
  obtain ⟨-, -, straight, walks⟩ := walks_of_made made
  refine ⟨made, fun h => h 0 (.single ⟨⟨0, none⟩, t, rfl, rfl, ?_⟩), straight, walks _⟩
  simp [t]

end Relational.Subst
