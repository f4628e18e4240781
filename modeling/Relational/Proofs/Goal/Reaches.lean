import Relational.Program
import Relational.Proofs.Stream.Spread

/-!
Where a formula leads from a state. The search goes through its possibilities in turns; which
states it gives, sooner or later, depends on the formula alone and is described by rules, one
for each way to make a step. Every induction over a search is one over these rules.
-/

namespace Relational

namespace Goal

/-! ### Goals one by one -/

variable {σ : Type} {unfold : σ → Burst σ State} {n : Nat} {s t : State}

lemma mem_log_stop {why : Halt} {b : Burst σ State} (hb : b = .stop why) :
    .inr t ∉ b.log unfold n := by
  intro h
  have := Burst.shows_stop.mp ⟨n, hb ▸ h⟩
  simp at this

lemma mem_log_built {m : Option Error} {g : Goal σ}
    (h : .inr t ∈ (built m g s).log unfold n) : m = none ∧ .inr t ∈ (g s).log unfold n := by
  cases m with
  | none => exact ⟨rfl, h⟩
  | some e => exact absurd h (mem_log_stop rfl)

lemma mem_log_after {e : Event} {b : Burst σ State}
    (h : .inr t ∈ (b.after e).log unfold n) : .inr t ∈ b.log unfold n := by
  cases n with
  | zero => simp at h
  | succ n => simpa [Burst.log_succ, Burst.after] using h

lemma mem_log_counted {k : Nat} {b : Burst σ State}
    (h : .inr t ∈ (counted s k b).log unfold n) : .inr t ∈ b.log unfold n := by
  unfold counted at h
  split at h
  · exact h
  · exact mem_log_after h

lemma shows_counted {k : Nat} {b : Burst σ State} {o : Event ⊕ State} (h : b.Shows unfold o) :
    (counted s k b).Shows unfold o := by
  unfold counted
  split
  · exact h
  · exact Burst.shows_after.mpr (.inr h)

lemma mem_log_singleton (h : .inr t ∈ (.quiet (.singleton s) : Burst σ State).log unfold n) :
    t = s := by
  simpa using Burst.shows_singleton.mp ⟨n, h⟩

lemma mem_log_empty : .inr t ∉ (.quiet .empty : Burst σ State).log unfold n :=
  fun h => Burst.not_shows_empty ⟨n, h⟩

lemma mem_log_conj2 {g h : Goal σ} (ht : .inr t ∈ (conj2 g h s).log unfold n) :
    ∃ r, .inr r ∈ (g s).log unfold n ∧ .inr t ∈ (h r).log unfold n := by
  rcases Burst.mem_log_bind ht with ⟨e, he, -⟩ | hr
  · cases he
  · exact hr

lemma shows_conj2 {g h : Goal σ} {r : State} (hg : (g s).Shows unfold (.inr r))
    (hh : (h r).Shows unfold (.inr t)) : (conj2 g h s).Shows unfold (.inr t) :=
  Burst.shows_bind.mpr (.inr ⟨r, hg, hh⟩)

/-! ### Many goals -/

/-- A conjunction of goals leads along a path with a step for each of them. -/
lemma mem_log_conj {gs : List (Goal σ)} (h : .inr t ∈ (conj gs s).log unfold n) :
    ∃ path : Nat → State, path 0 = s ∧ path gs.length = t ∧
      ∀ i (hi : i < gs.length), .inr (path (i + 1)) ∈ (gs[i] (path i)).log unfold n := by
  induction gs generalizing s with
  | nil => exact ⟨fun _ => s, rfl, (mem_log_singleton h).symm, fun i hi => absurd hi (by simp)⟩
  | cons g gs ih =>
    have step : ∃ r, .inr r ∈ (g s).log unfold n ∧ .inr t ∈ (conj gs r).log unfold n := by
      cases gs with
      | nil =>
        refine ⟨t, h, ?_⟩
        cases n with
        | zero => simp at h
        | succ n => exact List.mem_append_left _ (by simp [conj, succeed, Burst.quiet,
            Stream.singleton, Stream.front])
      | cons g' gs => exact mem_log_conj2 h
    obtain ⟨r, hg, hgs⟩ := step
    obtain ⟨path, rfl, hend, hsteps⟩ := ih hgs
    refine ⟨Nat.rec s fun i _ => path i, rfl, hend, fun i hi => ?_⟩
    cases i with
    | zero => exact hg
    | succ i => exact hsteps i (by simpa using hi)

lemma shows_conj {gs : List (Goal σ)} (path : Nat → State)
    (h : ∀ i (hi : i < gs.length), (gs[i] (path i)).Shows unfold (.inr (path (i + 1)))) :
    (conj gs (path 0)).Shows unfold (.inr (path gs.length)) := by
  induction gs generalizing path with
  | nil => exact Burst.shows_singleton.mpr rfl
  | cons g gs ih =>
    have first := h 0 (by simp)
    have others := ih (fun i => path (i + 1)) fun i hi => h (i + 1) (by simpa using hi)
    cases gs with
    | nil => exact first
    | cons g' gs => exact shows_conj2 first others

lemma mem_log_disj {gs : List (Goal σ)} (h : .inr t ∈ (disj gs s).log unfold n) :
    ∃ g ∈ gs, .inr t ∈ (g s).log unfold n := by
  induction gs with
  | nil => exact absurd h mem_log_empty
  | cons g gs ih =>
    cases gs with
    | nil => exact ⟨g, by simp, h⟩
    | cons g' gs =>
      rcases Burst.mem_log_merge h with h | h
      · exact ⟨g, by simp, h⟩
      · obtain ⟨g'', hg, ht⟩ := ih h
        exact ⟨g'', List.mem_cons_of_mem _ hg, ht⟩

lemma shows_disj {gs : List (Goal σ)} {g : Goal σ} (hg : g ∈ gs)
    (h : (g s).Shows unfold (.inr t)) : (disj gs s).Shows unfold (.inr t) := by
  induction gs with
  | nil => simp at hg
  | cons g' gs ih =>
    cases gs with
    | nil =>
      obtain rfl : g = g' := by simpa using hg
      exact h
    | cons g'' gs =>
      refine Burst.shows_merge.mpr ?_
      rcases List.mem_cons.mp hg with rfl | hg
      · exact .inl h
      · exact .inr (ih hg)

end Goal

/-! ### Rules -/

/-- Applied to the state `s`, the formula gives the state `t`. -/
inductive Formula.Reaches (p : Program) : Env → Formula → State → State → Prop
  | eq {env : Env} {u v : Expr} {u' v' : Term} {s s₁ s₂ : State} {t : Subst}
      (hu : s.fillWildcards (u.eval env) = (u', s₁))
      (hv : s₁.fillWildcards (v.eval env) = (v', s₂))
      (h : s₂.subst.unify? u' v' = some (some t)) :
      Reaches p env (.eq u v) s (s₂.withSubst t)
  | succeed {env : Env} {s : State} : Reaches p env .succeed s s
  | alwayso {env : Env} {s : State} : Reaches p env .alwayso s s
  | delay {env : Env} {g : Formula} {s t : State} (h : Reaches p env g s t) :
      Reaches p env (.delay g) s t
  | conj2 {env : Env} {g h : Formula} {s r t : State} (hg : Reaches p env g s r)
      (hh : Reaches p env h r t) : Reaches p env (.conj2 g h) s t
  | left {env : Env} {g h : Formula} {s t : State} (hg : Reaches p env g s t) :
      Reaches p env (.disj2 g h) s t
  | right {env : Env} {g h : Formula} {s t : State} (hh : Reaches p env h s t) :
      Reaches p env (.disj2 g h) s t
  | fresh {env : Env} {named : Bool} {names : List String} {body : Formula} {xs : List Var}
      {s s' t : State}
      (hx : s.freshVars names.length (if named then some names else none) = (xs, s'))
      (hb : body.misuse? = none) (h : Reaches p (env.bindAll names (xs.map .var)) body s' t) :
      Reaches p env (.fresh named names body) s t
  | freshDyn {env : Env} {arity : Nat} {shown : Option (List String)} {names : List String}
      {body : Formula} {xs : List Var} {s s' t : State}
      (ha : ∀ l, shown = some l → l.length = arity) (hx : s.freshVars arity shown = (xs, s'))
      (hb : body.misuse? = none) (h : Reaches p (env.bindAll names (xs.map .var)) body s' t) :
      Reaches p env (.freshDyn arity shown names body) s t
  | everyg {env : Env} {x : String} {list : Expr} {body : Formula} {ts : List Term}
      {path : Nat → State} (hts : (path 0).subst.items? (list.eval env) = some ts)
      (hb : ts ≠ [] → body.misuse? = none)
      (h : ∀ i (hi : i < ts.length), Reaches p (env.bind x ts[i]) body (path i) (path (i + 1))) :
      Reaches p env (.everyg x list body) (path 0) (path ts.length)
  | someg {env : Env} {x : String} {list : Expr} {body : Formula} {ts : List Term} {u : Term}
      {s t : State} (hts : s.subst.items? (list.eval env) = some ts) (hu : u ∈ ts)
      (hb : body.misuse? = none) (h : Reaches p (env.bind x u) body s t) :
      Reaches p env (.someg x list body) s t
  | call {env : Env} {r : RelationName} {rel : Relation} {args : List Expr} {ts : List Term}
      {s s' t : State} (hr : p.find? r = some rel)
      (ha : s.fillAll (args.map (Expr.eval env)) = (ts, s')) (hb : rel.body.misuse? = none)
      (h : Reaches p (Env.empty.bindAll rel.params ts) rel.body s' t) :
      Reaches p env (.call r args) s t

namespace Formula

variable {p : Program} {env : Env} {n : Nat} {s t : State}

lemma reaches_of_mem_log_eq {u v : Expr}
    (h : .inr t ∈ (Goal.eq (u.eval env) (v.eval env) s).log p.unfold n) :
    Reaches p env (.eq u v) s t := by
  rcases hu : s.fillWildcards (u.eval env) with ⟨u', s₁⟩
  rcases hv : s₁.fillWildcards (v.eval env) with ⟨v', s₂⟩
  simp only [Goal.eq, hu, hv] at h
  replace h := Goal.mem_log_counted h
  rcases hr : s₂.subst.unify? u' v' with _ | _ | r <;> rw [hr] at h
  · exact absurd h (Goal.mem_log_stop rfl)
  · exact absurd h Goal.mem_log_empty
  · obtain rfl := Goal.mem_log_singleton h
    exact .eq hu hv hr

lemma mem_log_suspended {c : Suspension Pending State}
    (h : .inr t ∈ (Burst.quiet (.suspended c)).log p.unfold (n + 1)) :
    .inr t ∈ (c.force p.unfold).log p.unfold n := by
  simpa [Burst.log_quiet_succ, Stream.front, Stream.rest, Stream.back] using h

theorem reaches_of_mem_log {φ : Formula} (h : .inr t ∈ (φ.apply env s).log p.unfold n) :
    φ.Reaches p env s t := by
  -- a suspension costs a burst; everything else goes on with a part of the formula
  induction n generalizing φ env s t with
  | zero => simp at h
  | succ n ih =>
    induction φ generalizing env s t with
    | eq u v => exact reaches_of_mem_log_eq h
    | succeed =>
      obtain rfl := Goal.mem_log_singleton h
      exact .succeed
    | fail => exact absurd h Goal.mem_log_empty
    | nevero =>
      have again : nevero.Reaches p env .empty t := ih (mem_log_suspended h)
      cases again
    | alwayso =>
      rcases Burst.mem_log_merge (mem_log_suspended h) with h | h
      · obtain rfl := Goal.mem_log_singleton h
        exact .alwayso
      · exact ih h
    | delay g => exact .delay (ih (mem_log_suspended h))
    | conj2 g h' ihg ihh =>
      obtain ⟨r, hg, hh⟩ := Goal.mem_log_conj2 h
      exact .conj2 (ihg hg) (ihh hh)
    | disj2 g h' ihg ihh =>
      rcases Burst.mem_log_merge h with h | h
      · exact .left (ihg h)
      · exact .right (ihh h)
    | fresh named names body ihb =>
      cases named <;> obtain ⟨hm, hb⟩ := Goal.mem_log_built (Goal.mem_log_counted (Goal.mem_log_after h)) <;>
        exact .fresh rfl hm (ihb hb)
    | freshDyn arity shown names body ihb =>
      cases shown with
      | none =>
        obtain ⟨hm, hb⟩ := Goal.mem_log_built (Goal.mem_log_counted (Goal.mem_log_after h))
        exact .freshDyn (by simp) rfl hm (ihb hb)
      | some l =>
        by_cases hl : l.length = arity
        · simp only [apply, Goal.freshDyn, if_pos hl] at h
          obtain ⟨hm, hb⟩ := Goal.mem_log_built (Goal.mem_log_counted (Goal.mem_log_after h))
          exact .freshDyn (by simp [hl]) rfl hm (ihb hb)
        · simp only [apply, Goal.freshDyn, if_neg hl] at h
          exact absurd h (Goal.mem_log_stop rfl)
    | everyg x list body ihb =>
      rcases hts : s.subst.items? (list.eval env) with _ | ts <;>
        simp only [apply, Goal.everyg, hts] at h
      · exact absurd h (Goal.mem_log_stop rfl)
      obtain ⟨path, rfl, rfl, hsteps⟩ := Goal.mem_log_conj h
      simp only [List.length_map, List.getElem_map] at hsteps ⊢
      refine .everyg hts (fun hne => ?_) fun i hi => ihb (Goal.mem_log_built (hsteps i hi)).2
      exact (Goal.mem_log_built (hsteps 0 (List.length_pos_iff.mpr hne))).1
    | someg x list body ihb =>
      rcases hts : s.subst.items? (list.eval env) with _ | ts <;>
        simp only [apply, Goal.someg, hts] at h
      · exact absurd h (Goal.mem_log_stop rfl)
      obtain ⟨g, hg, ht⟩ := Goal.mem_log_disj h
      obtain ⟨u, hu, rfl⟩ := List.mem_map.mp hg
      obtain ⟨hm, hb⟩ := Goal.mem_log_built ht
      exact .someg hts hu hm (ihb hb)
    | call r args =>
      rcases ha : s.fillAll (args.map (Expr.eval env)) with ⟨ts, s'⟩
      simp only [apply, Goal.call, ha] at h
      have entered := mem_log_suspended (Goal.mem_log_counted h)
      simp only [Suspension.force, Program.unfold] at entered
      rcases hr : p.find? r with _ | rel <;> rw [hr] at entered
      · exact absurd entered Goal.mem_log_empty
      · obtain ⟨hm, hb⟩ := Goal.mem_log_built (Goal.mem_log_after entered)
        exact .call hr ha hm (ih hb)

variable {o : Event ⊕ State}

lemma shows_built {m : Option Error} (hm : m = none) {g : Goal Pending}
    (h : (g s).Shows p.unfold o) : (Goal.built m g s).Shows p.unfold o := by
  subst hm
  exact h

section

variable {names : List String} {body : Formula} {xs : List Var} {s' : State}
  (hb : body.misuse? = none)
include hb

lemma shows_fresh {named : Bool}
    (hx : s.freshVars names.length (if named then some names else none) = (xs, s'))
    (h : (body.apply (env.bindAll names (xs.map .var)) s').Shows p.unfold o) :
    ((fresh named names body).apply env s).Shows p.unfold o := by
  cases named <;> cases hx <;> exact Burst.shows_after.mpr (.inr (Goal.shows_counted (shows_built hb h)))

lemma shows_freshDyn {arity : Nat} {shown : Option (List String)}
    (ha : ∀ l, shown = some l → l.length = arity) (hx : s.freshVars arity shown = (xs, s'))
    (h : (body.apply (env.bindAll names (xs.map .var)) s').Shows p.unfold o) :
    ((freshDyn arity shown names body).apply env s).Shows p.unfold o := by
  cases hx
  cases shown with
  | none => exact Burst.shows_after.mpr (.inr (Goal.shows_counted (shows_built hb h)))
  | some l =>
    simp only [apply, Goal.freshDyn, if_pos (ha l rfl)]
    exact Burst.shows_after.mpr (.inr (Goal.shows_counted (shows_built hb h)))

end

lemma shows_call {r : RelationName} {rel : Relation} {args : List Expr} {ts : List Term}
    {s' : State} (hr : p.find? r = some rel)
    (ha : s.fillAll (args.map (Expr.eval env)) = (ts, s')) (hb : rel.body.misuse? = none)
    (h : (rel.body.apply (Env.empty.bindAll rel.params ts) s').Shows p.unfold o) :
    ((call r args).apply env s).Shows p.unfold o := by
  simp only [apply, Goal.call, ha]
  refine Goal.shows_counted (Burst.shows_suspended.mpr ?_)
  simp only [Suspension.force, Program.unfold, hr]
  exact Burst.shows_after.mpr (.inr (shows_built hb h))

theorem Reaches.shows {φ : Formula} (h : φ.Reaches p env s t) :
    (φ.apply env s).Shows p.unfold (.inr t) := by
  induction h with
  | eq hu hv hr =>
    simp only [apply, Goal.eq, hu, hv, hr]
    exact Goal.shows_counted (Burst.shows_singleton.mpr rfl)
  | succeed => exact Burst.shows_singleton.mpr rfl
  | alwayso =>
    refine Burst.shows_suspended.mpr (Burst.shows_merge.mpr (.inl ?_))
    exact Burst.shows_singleton.mpr rfl
  | delay _ ih => exact Burst.shows_suspended.mpr ih
  | conj2 _ _ ihg ihh => exact Goal.shows_conj2 ihg ihh
  | left _ ih => exact Burst.shows_merge.mpr (.inl ih)
  | right _ ih => exact Burst.shows_merge.mpr (.inr ih)
  | fresh hx hb _ ih => exact shows_fresh hb hx ih
  | freshDyn ha hx hb _ ih => exact shows_freshDyn hb ha hx ih
  | @everyg env x list body ts path hts hb _ ih =>
    simp only [apply, Goal.everyg, hts]
    rw [← List.length_map fun u => Goal.built body.misuse? (body.apply (env.bind x u))]
    refine Goal.shows_conj path fun i hi => ?_
    rw [List.getElem_map]
    rw [List.length_map] at hi
    exact shows_built (hb (List.ne_nil_of_length_pos (by omega))) (ih i hi)
  | someg hts hu hb _ ih =>
    simp only [apply, Goal.someg, hts]
    exact Goal.shows_disj (List.mem_map_of_mem hu) (shows_built hb ih)
  | call hr ha hb _ ih => exact shows_call hr ha hb ih

end Formula

end Relational
