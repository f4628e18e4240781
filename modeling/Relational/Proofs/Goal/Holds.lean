import Relational.Proofs.Goal.Filling
import Relational.Proofs.Goal.Scope

/-!
What a formula says, apart from any search. Names stand for terms, a valuation gives the values
of variables, and a formula holds if it has a finite derivation: equations are equalities of
values, binders and wildcards say that there are some ground terms, and a call holds if the body
of the relation does.
-/

namespace Relational

/-- The formula holds under the valuation, with these names in scope. Each occurrence of a
wildcard has a value of its own. -/
inductive Formula.Holds (p : Program) (θ : Valuation) : Env → Formula → Prop
  | eq {env : Env} {u v : Expr} {a b : Term} (hu : (θ.apply (u.eval env)).Fills a)
      (hv : (θ.apply (v.eval env)).Fills b) (h : (a == b) = true) : Holds p θ env (.eq u v)
  | succeed {env : Env} : Holds p θ env .succeed
  | alwayso {env : Env} : Holds p θ env .alwayso
  | delay {env : Env} {g : Formula} (h : Holds p θ env g) : Holds p θ env (.delay g)
  | conj2 {env : Env} {g h : Formula} (hg : Holds p θ env g) (hh : Holds p θ env h) :
      Holds p θ env (.conj2 g h)
  | left {env : Env} {g h : Formula} (hg : Holds p θ env g) : Holds p θ env (.disj2 g h)
  | right {env : Env} {g h : Formula} (hh : Holds p θ env h) : Holds p θ env (.disj2 g h)
  | fresh {env : Env} {named : Bool} {names : List String} {body : Formula} {ts : List Term}
      (hts : ∀ t ∈ ts, t.isGround = true) (hl : ts.length = names.length)
      (h : Holds p θ (env.bindAll names ts) body) : Holds p θ env (.fresh named names body)
  | freshDyn {env : Env} {arity : Nat} {shown : Option (List String)} {names : List String}
      {body : Formula} {ts : List Term} (hts : ∀ t ∈ ts, t.isGround = true)
      (hl : ts.length = arity) (h : Holds p θ (env.bindAll names ts) body) :
      Holds p θ env (.freshDyn arity shown names body)
  | call {env : Env} {r : RelationName} {rel : Relation} {args : List Expr} {ts : List Term}
      (hr : p.find? r = some rel)
      (ha : List.Forall₂ Term.Fills (args.map fun e => θ.apply (e.eval env)) ts)
      (h : Holds p θ (Env.empty.bindAll rel.params ts) rel.body) : Holds p θ env (.call r args)

namespace Formula

variable {p : Program} {θ : Valuation} {env env' : Env} {φ : Formula}

lemma map_apply_of_isGround {ts : List Term} (h : ∀ t ∈ ts, t.isGround = true) :
    ts.map θ.apply = ts := by
  refine (List.map_congr_left fun t ht => ?_).trans (List.map_id ts)
  exact θ.apply_of_isGround (h t ht)

lemma Holds.congr (h : Holds p θ env φ) (he : Env.Agree θ env θ env') : Holds p θ env' φ := by
  have same (e : Expr) {env env' : Env} (he : Env.Agree θ env θ env') :
      θ.apply (e.eval env) = θ.apply (e.eval env') := by
    induction e with
    | term t => rfl
    | name x => exact he x
    | pair a d iha ihd => simp only [Expr.eval, Valuation.apply_pair, iha, ihd]
    | succ p ih => simp only [Expr.eval, Valuation.apply_succ, ih]
  induction h generalizing env' with
  | eq hu hv h => exact .eq (same _ he ▸ hu) (same _ he ▸ hv) h
  | succeed => exact .succeed
  | alwayso => exact .alwayso
  | delay _ ih => exact .delay (ih he)
  | conj2 _ _ ihg ihh => exact .conj2 (ihg he) (ihh he)
  | left _ ih => exact .left (ih he)
  | right _ ih => exact .right (ih he)
  | fresh hts hl _ ih => exact .fresh hts hl (ih (he.bindAll _ rfl))
  | freshDyn hts hl _ ih => exact .freshDyn hts hl (ih (he.bindAll _ rfl))
  | call hr ha h _ =>
    refine .call hr ?_ h
    rwa [← List.map_congr_left fun e _ => same e he]

lemma isGround_values (xs : List Var) : ∀ t ∈ (xs.map Term.var).map θ.apply, t.isGround = true := by
  simp [θ.ground]

/-- A name may as well stand for the value of its term. -/
lemma Holds.values {names : List String} {ts : List Term}
    (h : Holds p θ (env.bindAll names ts) φ) (hts : ∀ t ∈ ts, t.hasWildcard = false) :
    Holds p θ (env.bindAll names (ts.map θ.apply)) φ :=
  have ground := θ.isGround_map_apply hts
  h.congr (Env.Agree.bindAll (fun _ => rfl) names (map_apply_of_isGround ground).symm)

end Formula

end Relational
