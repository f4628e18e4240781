import Relational.Proofs.Goal.Filling
import Relational.Proofs.Goal.Reaches
import Relational.Proofs.Goal.Scope
import Relational.Proofs.Subst.Growth

/-!
States in order. All variables in use have numbers below the next one, so that new variables are
new indeed, and no wildcard is bound. Unification keeps it so, and so do new variables while there
is room for them.
-/

namespace Relational

variable {n : Nat} {s t r : State}

def Subst.Below (n : Nat) (s : Subst) : Prop :=
  ∀ x t, s.find? x = some t → x.id < n ∧ t.Below n

namespace State

/-- No wildcard is bound, and the variables in use come before the next one. -/
structure Tidy (s : State) : Prop where
  wildcardFree : s.subst.WildcardFree
  below : s.subst.Below s.next

/-- The state `t` has all that is in `s`, and is tidy. -/
structure Extends (s t : State) : Prop where
  tidy : t.Tidy
  next : s.next ≤ t.next
  kept {x : Var} {w : Term} (h : s.subst.find? x = some w) : t.subst.find? x = some w

lemma find?_of_empty (h : s.subst = ∅) (x : Var) : s.subst.find? x = none := by
  rw [h]
  exact Subst.find?_empty x

lemma tidy_of_empty (h : s.subst = ∅) : s.Tidy := by
  constructor <;> intro x t hx <;> rw [find?_of_empty h] at hx <;> cases hx

lemma Tidy.extends (h : s.Tidy) : Extends s s := ⟨h, Nat.le_refl _, id⟩

lemma Extends.trans (h : Extends s r) (h' : Extends r t) : Extends s t :=
  ⟨h'.tidy, Nat.le_trans h.next h'.next, fun hx => h'.kept (h.kept hx)⟩

/-- New variables may be taken into use while there is room for them. -/
lemma Tidy.advance {k : Nat} (h : s.Tidy) (room : s.HasRoom k) : Extends s (s.advance k) where
  tidy := by
    refine ⟨h.wildcardFree, fun x w hx => ?_⟩
    obtain ⟨hid, hw⟩ := h.below x w hx
    exact ⟨Nat.lt_of_lt_of_le hid (next_le_number room), hw.mono (next_le_number room)⟩
  next := next_le_number room
  kept := id

end State

/-! ### Unification -/

namespace Subst

lemma Grows.keys {C : Term → Prop} {s t : Subst} (h : Grows C s t) {x : Var} {w : Term}
    (hx : t.find? x = some w) : (∃ v, s.find? x = some v) ∨ ∃ y, y.id = x.id ∧ C (.var y) := by
  induction h generalizing w with
  | refl => exact .inl ⟨w, hx⟩
  | @bind t y v _ hy _ _ _ ih =>
    rw [find?_extend] at hx
    split at hx
    · exact .inr ⟨y, ‹_›, hy⟩
    · exact ih hx

lemma inherited_below : Inherited (Term.Below n) where
  pair h := (Term.below_pair ..).mp h
  succ h := h

def Known (n : Nat) (t : Term) : Prop := t.hasWildcard = false ∧ t.Below n

lemma inherited_known : Inherited (Known n) where
  pair h := by
    obtain ⟨⟨hwa, hwd⟩, hba, hbd⟩ := h.imp inherited_hasWildcard.pair inherited_below.pair
    exact ⟨⟨hwa, hba⟩, hwd, hbd⟩
  succ h := h

lemma extends_unify? {u v : Term} {w : Subst} (hs : s.Tidy) (hu : Known s.next u)
    (hv : Known s.next v) (h : s.subst.unify? u v = some (some w)) :
    State.Extends s (s.withSubst w) := by
  have among : Among (Known s.next) s.subst u v :=
    ⟨fun x t hx => ⟨hs.wildcardFree x t hx, (hs.below x t hx).2⟩, hu, hv⟩
  have grown := (unifies_of_unify? h).grows inherited_known among w rfl
  refine ⟨⟨fun x t hx => (grown.values among.subst x t hx).1, fun x t hx => ⟨?_, ?_⟩⟩,
    Nat.le_refl _, grown.kept⟩
  · rcases grown.keys hx with ⟨v, hv⟩ | ⟨y, hy, -, hb⟩
    · exact (hs.below x v hv).1
    · rw [Term.below_var] at hb
      rw [← hy]
      exact hb
  · exact (grown.values among.subst x t hx).2

/-- The sides of an equation are ready to be unified once their wildcards are filled. -/
lemma known_fillWildcards {s₁ s₂ : State} {u v u' v' : Term} (hs : s.Tidy)
    (hu : s.fillWildcards u = (u', s₁)) (hv : s₁.fillWildcards v = (v', s₂))
    (room : s.HasRoom (u.wildcards + v.wildcards)) (bu : u.Below s.next) (bv : v.Below s.next) :
    State.Extends s s₂ ∧ Known s₂.next u' ∧ Known s₂.next v' := by
  obtain ⟨first, others⟩ := State.hasRoom_add.mp room
  have hu' := State.hasWildcard_fillWildcards hu
  have hv' := State.hasWildcard_fillWildcards hv
  have bu' := State.below_fillWildcards hu first bu
  obtain rfl := State.fillWildcards_state hu
  have between := hs.advance first
  have bv' := State.below_fillWildcards hv others (bv.mono between.next)
  obtain rfl := State.fillWildcards_state hv
  have after := between.tidy.advance others
  exact ⟨between.trans after, ⟨hu', bu'.mono after.next⟩, hv', bv'⟩

end Subst

/-! ### Formulas -/

namespace Formula

open State

variable {p : Program} {env : Env} {φ : Formula}

/-- All variables that a search of the formula can meet are in use, and the state is tidy. -/
structure Ready (p : Program) (env : Env) (φ : Formula) (s : State) : Prop where
  tidy : s.Tidy
  scope : env.Below s.next
  formula : φ.Below s.next
  program : p.Below s.next

end Formula

end Relational
