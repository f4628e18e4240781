import Relational.Subst.Reify
import Relational.Subst.Unify

/-!
Substitutions made one from another, step by step. A step that binds nothing leaves the version
that it started from, and a version is equal to itself even where a variable is bound to a
wildcard.
-/

namespace Relational.Subst

/-- A substitution, and the number of the step that made it. -/
structure Version where
  step : Nat
  subst : Subst

namespace Version

def first : Version := ⟨0, ∅⟩

variable (v : Version) (step : Nat)

/-- The version that a step leaves, where the step only adds bindings. -/
def grown (s : Subst) : Version := if s.size = v.subst.size then v else ⟨step, s⟩

/-- Binds a variable, which always makes a new version. -/
def extend (x : Var) (t : Term) : Version := ⟨step, v.subst.extend x t⟩

def unify? (t u : Term) : Option (Option Version) :=
  (v.subst.unify? t u).map (Option.map (v.grown step))

def place? (t : Term) : Option Version := (v.subst.place? t).map (v.grown step)

/-- The same version, or equal bindings. -/
def same (w : Version) : Bool := v.step == w.step || v.subst == w.subst

instance : BEq Version := ⟨same⟩

@[simp] theorem grown_subst : v.grown step v.subst = v := by simp [grown]

theorem beq_self : (v == v) = true := by simp [BEq.beq, same]

end Version

end Relational.Subst
