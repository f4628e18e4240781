import Relational.Proofs.Goal.Branch
import Relational.Query

/-!
What every search keeps. Along a branch no binding is lost or changed, and none is made to a
wildcard. As long as there is room for the variables that the branch makes, their numbers are new,
and all variables in use have numbers below the next one. One lemma says what a step keeps; what a
branch keeps follows by induction.
-/

namespace Relational

variable {p : Program}

namespace Branch

variable {b c : Branch} {xs : List Var}

/-- All variables that a branch can meet are in use, and its state is tidy. -/
structure Ready (p : Program) (b : Branch) : Prop where
  tidy : b.state.Tidy
  program : p.Below b.state.next
  tasks : ∀ t ∈ b.tasks, t.1.Below b.state.next ∧ t.2.Below b.state.next

namespace Ready

variable {env : Env} {φ : Formula} {l ts : List (Env × Formula)} {s t : State}

lemma first (h : Ready p ⟨(env, φ) :: ts, s⟩) : φ.Ready p env s :=
  have task := h.tasks _ List.mem_cons_self
  ⟨h.tidy, task.1, task.2, h.program⟩

lemma later (h : Ready p ⟨(env, φ) :: ts, s⟩) (ht : State.Extends s t)
    (hn : ∀ u ∈ l, u.1.Below t.next ∧ u.2.Below t.next) :
    State.Extends s t ∧ Ready p ⟨l ++ ts, t⟩ where
  left := ht
  right.tidy := ht.tidy
  right.program b hb := (h.program b hb).mono ht.next
  right.tasks := List.forall_mem_append.mpr ⟨hn, fun u hu =>
    (h.tasks u (List.mem_cons_of_mem _ hu)).imp (·.mono ht.next) (·.mono ht.next)⟩

lemma same (h : Ready p ⟨(env, φ) :: ts, s⟩)
    (hn : ∀ u ∈ l, u.1.Below s.next ∧ u.2.Below s.next) :
    State.Extends s s ∧ Ready p ⟨l ++ ts, s⟩ :=
  h.later h.tidy.extends hn

/-- The sides of an equation are known once their wildcards are filled. -/
lemma filled {u v : Expr} {u' v' : Term} {r : State} (h : Ready p ⟨(env, .eq u v) :: ts, s⟩)
    (hu : s.fillWildcards (u.eval env) = (u', r)) (hv : r.fillWildcards (v.eval env) = (v', t))
    (room : s.HasRoom ((u.eval env).fillers u' ++ (v.eval env).fillers v').length) :
    State.Extends s t ∧ Subst.Known t.next u' ∧ Subst.Known t.next v' := by
  rw [List.length_append, State.length_fillers_fillWildcards hu,
    State.length_fillers_fillWildcards hv] at room
  have known := h.first
  exact Subst.known_fillWildcards h.tidy hu hv room (Expr.below_eval known.formula.1 known.scope)
    (Expr.below_eval known.formula.2 known.scope)

lemma bound {names : List String} {shown : Option (List String)} {body : Formula} {n : Nat}
    {xs : List Var} (h : Ready p ⟨(env, φ) :: ts, s⟩) (hx : s.freshVars n shown = (xs, t))
    (room : s.HasRoom n) (hb : body.Below s.next) :
    State.Extends s t ∧ Ready p ⟨(env.bindAll names (xs.map .var), body) :: ts, t⟩ := by
  have below := State.below_freshVars hx room
  obtain rfl := State.freshVars_state hx
  have grown := h.tidy.advance room
  exact h.later (l := [_]) grown (List.forall_mem_singleton.mpr
    ⟨(h.first.scope.mono grown.next).bindAll _ below, hb.mono grown.next⟩)

end Ready

end Branch

/-! ### Queries -/

end Relational
