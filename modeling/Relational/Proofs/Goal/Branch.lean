import Relational.Proofs.Goal.Tidy

/-!
Branches of a search. A branch meets its formulas one after another; at each step it may make
variables, for a binder or for the wildcards of terms, and it chooses where the search divides.
The states that a search gives are those in which some branch has met all its formulas. Along a
branch the variables made are numbered one after another, so none is made twice.
-/

namespace Relational

/-! ### Variables made one after another -/

def Term.fillers : Term → Term → List Var
  | .wildcard _, .var x => [x]
  | .pair a d, .pair b e => a.fillers b ++ d.fillers e
  | .succ p, .succ q => p.fillers q
  | _, _ => []

namespace State

/-- The variables have the next numbers of `s`, one after another, and `t` comes after them. -/
structure Numbered (s : State) (xs : List Var) (t : State) : Prop where
  ids : xs.map Var.id = (List.range xs.length).map s.number
  takes : s.Takes xs.length t

variable {s r t : State} {xs ys : List Var} {n : Nat}

namespace Numbered

lemma nil : Numbered s [] s := ⟨rfl, .refl⟩

lemma bound (h : Numbered s xs t) (w : Subst) : Numbered s xs (t.withSubst w) :=
  ⟨h.ids, h.takes.bound w⟩

lemma append (hx : Numbered s xs r) (hy : Numbered r ys t) : Numbered s (xs ++ ys) t where
  ids := by
    rw [List.map_append, hx.ids, hy.ids, List.length_append, List.range_add, List.map_append,
      List.map_map]
    exact congrArg _ (List.map_congr_left fun i _ => hx.takes.number i)
  takes := by
    rw [List.length_append]
    exact hx.takes.trans hy.takes

end Numbered

lemma numbered_fill (s : State) (t : Term) :
    Numbered s (t.fillers (s.fill t).1) (s.fill t).2 := by
  induction t generalizing s with
  | wildcard p => exact ⟨by simp [Term.fillers, fill], rfl⟩
  | pair a d iha ihd => exact (iha s).append (ihd _)
  | succ p ih => exact ih s
  | _ => exact .nil

lemma numbered_fillWildcards {v u : Term} (h : s.fillWildcards v = (u, t)) :
    Numbered s (v.fillers u) t := by
  rw [fillWildcards_eq] at h
  have made := numbered_fill s v
  rwa [h] at made

lemma numbered_fillAll {ts us : List Term} (h : s.fillAll ts = (us, t)) :
    Numbered s (List.zipWith Term.fillers ts us).flatten t := by
  induction ts generalizing s us with
  | nil => cases h; exact .nil
  | cons v ts ih =>
    obtain ⟨u, us', r, hu, hus, rfl⟩ := fillAll_cons h
    exact (numbered_fillWildcards hu).append (ih hus)

lemma numbered_freshVars {names : Option (List String)} (h : s.freshVars n names = (xs, t)) :
    Numbered s xs t := by
  cases h
  constructor
  · simp [Function.comp_def]
  · simpa using takes_advance s n

/-! ### How many variables are made -/

lemma length_fillers (s : State) (t : Term) : (t.fillers (s.fill t).1).length = t.wildcards := by
  induction t generalizing s with
  | pair a d iha ihd =>
    rw [fill_pair, Term.fillers, List.length_append, iha, ihd, Term.wildcards]
  | succ p ih => exact ih s
  | _ => rfl

lemma length_fillers_fillWildcards {v u : Term} (h : s.fillWildcards v = (u, t)) :
    (v.fillers u).length = v.wildcards := by
  rw [fillWildcards_term h]
  exact length_fillers s v

end State

/-! ### Bindings that stay -/

namespace Subst

lemma mem_toList {s : Subst} {b : Var × Term} :
    b ∈ s.toList ↔ ∃ i : Nat, s.entries[i]? = some b := by
  simp only [toList, List.mem_map, Prod.exists, exists_eq_right,
    Std.TreeMap.mem_toList_iff_getElem?_eq_some]

lemma toList_subset_extend {s : Subst} {x : Var} (h : s.find? x = none) (w : Term) :
    s.toList ⊆ (s.extend x w).toList := by
  intro b hb
  obtain ⟨i, hi⟩ := mem_toList.mp hb
  have apart : x.id ≠ i := by
    rintro rfl
    simp [find?, hi] at h
  refine mem_toList.mpr ⟨i, ?_⟩
  simp [extend, Std.TreeMap.getElem?_insert, apart, hi]

lemma Grows.toList_subset {C : Term → Prop} {s t : Subst} (h : Grows C s t) :
    s.toList ⊆ t.toList := by
  induction h with
  | refl => exact List.Subset.refl _
  | bind _ _ _ free _ ih => exact List.Subset.trans ih (toList_subset_extend free _)

lemma toList_subset_unify? {s w : Subst} {u v : Term} (h : s.unify? u v = some (some w)) :
    s.toList ⊆ w.toList :=
  (unifies_of_unify? h).adds.toList_subset

end Subst

/-! ### Steps -/

/-- A branch of a search: the formulas it still has to meet, each in its scope, and its state. -/
structure Branch where
  tasks : List (Env × Formula)
  state : State

namespace Branch

/-- One step of a branch, and the variables it makes. Nothing leads on from a formula that does
not hold, and nothing from misuse. -/
inductive Step (p : Program) : Branch → List Var → Branch → Prop
  | eq {env : Env} {u v : Expr} {u' v' : Term} {s s₁ s₂ : State} {w : Subst}
      {ts : List (Env × Formula)} (hu : s.fillWildcards (u.eval env) = (u', s₁))
      (hv : s₁.fillWildcards (v.eval env) = (v', s₂))
      (h : s₂.subst.unify? u' v' = some (some w)) :
      Step p ⟨(env, .eq u v) :: ts, s⟩ ((u.eval env).fillers u' ++ (v.eval env).fillers v')
        ⟨ts, s₂.withSubst w⟩
  /-- A unification that fails has made its variables all the same. The branch gets stuck. -/
  | clash {env : Env} {u v : Expr} {u' v' : Term} {s s₁ s₂ : State} {ts : List (Env × Formula)}
      (hu : s.fillWildcards (u.eval env) = (u', s₁))
      (hv : s₁.fillWildcards (v.eval env) = (v', s₂)) (h : s₂.subst.unify? u' v' = some none) :
      Step p ⟨(env, .eq u v) :: ts, s⟩ ((u.eval env).fillers u' ++ (v.eval env).fillers v')
        ⟨(env, .fail) :: ts, s₂⟩
  | succeed {env : Env} {s : State} {ts : List (Env × Formula)} :
      Step p ⟨(env, .succeed) :: ts, s⟩ [] ⟨ts, s⟩
  | alwayso {env : Env} {s : State} {ts : List (Env × Formula)} :
      Step p ⟨(env, .alwayso) :: ts, s⟩ [] ⟨ts, s⟩
  | delay {env : Env} {g : Formula} {s : State} {ts : List (Env × Formula)} :
      Step p ⟨(env, .delay g) :: ts, s⟩ [] ⟨(env, g) :: ts, s⟩
  | conj2 {env : Env} {g h : Formula} {s : State} {ts : List (Env × Formula)} :
      Step p ⟨(env, .conj2 g h) :: ts, s⟩ [] ⟨(env, g) :: (env, h) :: ts, s⟩
  | left {env : Env} {g h : Formula} {s : State} {ts : List (Env × Formula)} :
      Step p ⟨(env, .disj2 g h) :: ts, s⟩ [] ⟨(env, g) :: ts, s⟩
  | right {env : Env} {g h : Formula} {s : State} {ts : List (Env × Formula)} :
      Step p ⟨(env, .disj2 g h) :: ts, s⟩ [] ⟨(env, h) :: ts, s⟩
  | fresh {env : Env} {named : Bool} {names : List String} {body : Formula} {xs : List Var}
      {s s' : State} {ts : List (Env × Formula)}
      (hx : s.freshVars names.length (if named then some names else none) = (xs, s'))
      (hb : body.misuse? = none) :
      Step p ⟨(env, .fresh named names body) :: ts, s⟩ xs
        ⟨(env.bindAll names (xs.map .var), body) :: ts, s'⟩
  | freshDyn {env : Env} {arity : Nat} {shown : Option (List String)} {names : List String}
      {body : Formula} {xs : List Var} {s s' : State} {ts : List (Env × Formula)}
      (ha : ∀ l, shown = some l → l.length = arity) (hx : s.freshVars arity shown = (xs, s'))
      (hb : body.misuse? = none) :
      Step p ⟨(env, .freshDyn arity shown names body) :: ts, s⟩ xs
        ⟨(env.bindAll names (xs.map .var), body) :: ts, s'⟩
  | everyg {env : Env} {x : String} {list : Expr} {body : Formula} {us : List Term} {s : State}
      {ts : List (Env × Formula)} (hus : s.subst.items? (list.eval env) = some us)
      (hb : us ≠ [] → body.misuse? = none) :
      Step p ⟨(env, .everyg x list body) :: ts, s⟩ []
        ⟨us.map (fun u => (env.bind x u, body)) ++ ts, s⟩
  | someg {env : Env} {x : String} {list : Expr} {body : Formula} {us : List Term} {u : Term}
      {s : State} {ts : List (Env × Formula)}
      (hus : s.subst.items? (list.eval env) = some us) (hu : u ∈ us)
      (hb : body.misuse? = none) :
      Step p ⟨(env, .someg x list body) :: ts, s⟩ [] ⟨(env.bind x u, body) :: ts, s⟩
  | call {env : Env} {r : RelationName} {rel : Relation} {args : List Expr} {us : List Term}
      {s s' : State} {ts : List (Env × Formula)} (hr : p.find? r = some rel)
      (ha : s.fillAll (args.map (Expr.eval env)) = (us, s')) (hb : rel.body.misuse? = none) :
      Step p ⟨(env, .call r args) :: ts, s⟩
        (List.zipWith Term.fillers (args.map (Expr.eval env)) us).flatten
        ⟨(Env.empty.bindAll rel.params us, rel.body) :: ts, s'⟩

inductive Leads (p : Program) : Branch → List Var → Branch → Prop
  | here {b : Branch} : Leads p b [] b
  | step {b c d : Branch} {xs ys : List Var} (h : Step p b xs c) (hc : Leads p c ys d) :
      Leads p b (xs ++ ys) d

variable {p : Program} {b c d : Branch} {xs ys : List Var}

lemma Step.numbered (h : Step p b xs c) : b.state.Numbered xs c.state := by
  cases h with
  | eq hu hv _ =>
    exact ((State.numbered_fillWildcards hu).append (State.numbered_fillWildcards hv)).bound _
  | clash hu hv _ =>
    exact (State.numbered_fillWildcards hu).append (State.numbered_fillWildcards hv)
  | fresh hx _ => exact State.numbered_freshVars hx
  | freshDyn _ hx _ => exact State.numbered_freshVars hx
  | call _ ha _ => exact State.numbered_fillAll ha
  | _ => exact .nil

lemma Step.subst (h : Step p b xs c) : c.state.subst = b.state.subst ∨
    ∃ u v, u.hasWildcard = false ∧ v.hasWildcard = false ∧
      b.state.subst.unify? u v = some (some c.state.subst) := by
  cases h with
  | eq hu hv hw =>
    have plainU := State.hasWildcard_fillWildcards hu
    have plainV := State.hasWildcard_fillWildcards hv
    obtain rfl := State.fillWildcards_state hu
    obtain rfl := State.fillWildcards_state hv
    exact .inr ⟨_, _, plainU, plainV, hw⟩
  | clash hu hv _ =>
    obtain rfl := State.fillWildcards_state hu
    obtain rfl := State.fillWildcards_state hv
    exact .inl rfl
  | fresh hx _ | freshDyn _ hx _ =>
    obtain rfl := State.freshVars_state hx
    exact .inl rfl
  | call _ ha _ =>
    obtain rfl := State.fillAll_state ha
    exact .inl rfl
  | _ => exact .inl rfl

lemma Step.toList_subset (h : Step p b xs c) :
    b.state.subst.toList ⊆ c.state.subst.toList := by
  rcases h.subst with same | ⟨u, v, -, -, hw⟩
  · rw [same]
    exact List.Subset.refl _
  · exact Subst.toList_subset_unify? hw

lemma Step.wildcardFree (h : Step p b xs c) (hb : b.state.subst.WildcardFree) :
    c.state.subst.WildcardFree := by
  rcases h.subst with same | ⟨u, v, plainU, plainV, hw⟩
  · rw [same]
    exact hb
  · exact (Subst.unifies_of_unify? hw).wildcardFree ⟨hb, plainU, plainV⟩ _ rfl

namespace Leads

lemma trans (h : Leads p b xs c) (hc : Leads p c ys d) : Leads p b (xs ++ ys) d := by
  induction h with
  | here => exact hc
  | step hs _ ih => rw [List.append_assoc]; exact .step hs (ih hc)

/-- **Along a branch all variables are new**, and numbered in the order in which they are made. -/
lemma numbered (h : Leads p b xs c) : b.state.Numbered xs c.state := by
  induction h with
  | here => exact .nil
  | step hs _ ih => exact hs.numbered.append ih

/-- **Along a branch every binding stays as it is.** -/
lemma toList_subset (h : Leads p b xs c) : b.state.subst.toList ⊆ c.state.subst.toList := by
  induction h with
  | here => exact List.Subset.refl _
  | step hs _ ih => exact List.Subset.trans hs.toList_subset ih

/-- **No branch binds a variable to a wildcard.** -/
lemma wildcardFree (h : Leads p b xs c) (hb : b.state.subst.WildcardFree) :
    c.state.subst.WildcardFree := by
  induction h with
  | here => exact hb
  | step hs _ ih => exact ih (hs.wildcardFree hb)

lemma exists_path (tasks ts : List (Env × Formula)) (path : Nat → State)
    (h : ∀ i (hi : i < tasks.length) (ts : List (Env × Formula)),
      ∃ xs, Leads p ⟨tasks[i] :: ts, path i⟩ xs ⟨ts, path (i + 1)⟩) :
    ∃ xs, Leads p ⟨tasks ++ ts, path 0⟩ xs ⟨ts, path tasks.length⟩ := by
  induction tasks generalizing path with
  | nil => exact ⟨[], .here⟩
  | cons task tasks ih =>
    obtain ⟨xs, first⟩ := h 0 (by simp) (tasks ++ ts)
    obtain ⟨ys, others⟩ := ih (fun i => path (i + 1)) fun i hi => h (i + 1) (by simpa using hi)
    exact ⟨xs ++ ys, first.trans others⟩

end Leads

end Branch

/-! ### Branches and searches -/

namespace Formula

open Branch

variable {p : Program} {env : Env} {φ : Formula} {s t : State}

/-- To every state that a formula reaches leads a branch that meets the formula. -/
theorem Reaches.leads (h : φ.Reaches p env s t) (ts : List (Env × Formula)) :
    ∃ xs, Leads p ⟨(env, φ) :: ts, s⟩ xs ⟨ts, t⟩ := by
  induction h generalizing ts with
  | eq hu hv h => exact ⟨_, .step (.eq hu hv h) .here⟩
  | succeed => exact ⟨_, .step .succeed .here⟩
  | alwayso => exact ⟨_, .step .alwayso .here⟩
  | delay _ ih =>
    obtain ⟨xs, hx⟩ := ih ts
    exact ⟨_, .step .delay hx⟩
  | @conj2 env g h s r t _ _ ihg ihh =>
    obtain ⟨xs, hx⟩ := ihg ((env, h) :: ts)
    obtain ⟨ys, hy⟩ := ihh ts
    exact ⟨_, .step .conj2 (hx.trans hy)⟩
  | left _ ih =>
    obtain ⟨xs, hx⟩ := ih ts
    exact ⟨_, .step .left hx⟩
  | right _ ih =>
    obtain ⟨xs, hx⟩ := ih ts
    exact ⟨_, .step .right hx⟩
  | fresh hx hb _ ih =>
    obtain ⟨ys, hy⟩ := ih ts
    exact ⟨_, .step (.fresh hx hb) hy⟩
  | freshDyn ha hx hb _ ih =>
    obtain ⟨ys, hy⟩ := ih ts
    exact ⟨_, .step (.freshDyn ha hx hb) hy⟩
  | @everyg env x list body us path hus hb _ ih =>
    have along := Leads.exists_path (us.map fun u => (env.bind x u, body)) ts path
      fun i hi ts => by simpa using ih i (by simpa using hi) ts
    rw [List.length_map] at along
    obtain ⟨xs, hx⟩ := along
    exact ⟨_, .step (.everyg hus hb) hx⟩
  | someg hus hu hb _ ih =>
    obtain ⟨xs, hx⟩ := ih ts
    exact ⟨_, .step (.someg hus hu hb) hx⟩
  | call hr ha hb _ ih =>
    obtain ⟨xs, hx⟩ := ih ts
    exact ⟨_, .step (.call hr ha hb) hx⟩

/-- The formulas reach `t` from `s` if each starts where the one before it has led. -/
def AllReach (p : Program) : List (Env × Formula) → State → State → Prop
  | [], s, t => s = t
  | (env, φ) :: ts, s, t => ∃ r, φ.Reaches p env s r ∧ AllReach p ts r t

lemma allReach_append {ts us : List (Env × Formula)} :
    AllReach p (ts ++ us) s t ↔ ∃ r, AllReach p ts s r ∧ AllReach p us r t := by
  induction ts generalizing s with
  | nil => simp [AllReach]
  | cons task ts ih =>
    simp only [List.cons_append, AllReach, ih]
    constructor
    · rintro ⟨r, hr, r', hr', ht⟩
      exact ⟨r', ⟨r, hr, hr'⟩, ht⟩
    · rintro ⟨r', ⟨r, hr, hr'⟩, ht⟩
      exact ⟨r, hr, r', hr', ht⟩

lemma AllReach.exists_path {x : String} {us : List Term}
    (h : AllReach p (us.map fun u => (env.bind x u, φ)) s t) :
    ∃ path : Nat → State, path 0 = s ∧ path us.length = t ∧
      ∀ i (hi : i < us.length), φ.Reaches p (env.bind x us[i]) (path i) (path (i + 1)) := by
  induction us generalizing s with
  | nil => exact ⟨fun _ => s, rfl, h, fun i hi => absurd hi (by simp)⟩
  | cons u us ih =>
    obtain ⟨r, hr, h⟩ := h
    obtain ⟨path, rfl, hend, hsteps⟩ := ih h
    refine ⟨Nat.rec s fun i _ => path i, rfl, hend, fun i hi => ?_⟩
    cases i with
    | zero => exact hr
    | succ i => exact hsteps i (by simpa using hi)

/-- What a branch still reaches after a step, it reached before. -/
lemma AllReach.before {b c : Branch} {xs : List Var} (hs : Step p b xs c)
    (h : AllReach p c.tasks c.state t) : AllReach p b.tasks b.state t := by
  cases hs with
  | eq hu hv hw => exact ⟨_, .eq hu hv hw, h⟩
  | clash =>
    obtain ⟨r, hr, -⟩ := h
    cases hr
  | succeed => exact ⟨_, .succeed, h⟩
  | alwayso => exact ⟨_, .alwayso, h⟩
  | delay =>
    obtain ⟨r, hr, h⟩ := h
    exact ⟨r, .delay hr, h⟩
  | conj2 =>
    obtain ⟨r, hr, r', hr', h⟩ := h
    exact ⟨r', .conj2 hr hr', h⟩
  | left =>
    obtain ⟨r, hr, h⟩ := h
    exact ⟨r, .left hr, h⟩
  | right =>
    obtain ⟨r, hr, h⟩ := h
    exact ⟨r, .right hr, h⟩
  | fresh hx hb =>
    obtain ⟨r, hr, h⟩ := h
    exact ⟨r, .fresh hx hb hr, h⟩
  | freshDyn ha hx hb =>
    obtain ⟨r, hr, h⟩ := h
    exact ⟨r, .freshDyn ha hx hb hr, h⟩
  | everyg hus hb =>
    obtain ⟨r, hr, h⟩ := allReach_append.mp h
    obtain ⟨path, rfl, rfl, hsteps⟩ := hr.exists_path
    exact ⟨_, .everyg hus hb hsteps, h⟩
  | someg hus hu hb =>
    obtain ⟨r, hr, h⟩ := h
    exact ⟨r, .someg hus hu hb hr, h⟩
  | call hr ha hb =>
    obtain ⟨r, hreach, h⟩ := h
    exact ⟨r, .call hr ha hb hreach, h⟩

end Formula

end Relational
