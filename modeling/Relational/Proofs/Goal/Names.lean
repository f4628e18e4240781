import Relational.Proofs.Goal.Shift

/-!
Names and numbers make no difference. Take two formulas that differ in the names of their variables
only, and two states, the second with higher numbers for the variables made in a search. The two
searches go on in lockstep, and the states that they give differ in names and numbers only. So both
give the same answers, until the counter of the second search starts again. The same argument shows
that a search whose counter never starts again is like one whose counter would.
-/

namespace Relational

variable {k d : Nat}

/-! ### Searches -/

namespace Program

variable {p p' : Program}

lemma AlphaEq.find? (h : p.AlphaEq p') (r : RelationName) :
    Option.Rel Relation.AlphaEq (p.find? r) (p'.find? r) := by
  cases r with
  | standard r => exact .some r.alphaEq_definition
  | user name =>
    have lookup {l l' : List (String × Relation)}
        (h : List.Forall₂ (fun b c => b.1 = c.1 ∧ b.2.AlphaEq c.2) l l') :
        Option.Rel Relation.AlphaEq (l.lookup name) (l'.lookup name) := by
      induction h with
      | nil => exact .none
      | @cons b c _ _ hbc _ ih =>
        rw [List.lookup_cons, List.lookup_cons, ← hbc.1]
        cases name == b.1
        · exact ih
        · exact .some hbc.2
    exact lookup h

end Program

namespace Formula

open Burst State

variable {p p' : Program}

lemma apply_freshDyn (arity : Nat) (shown : Option (List String)) (xs : List String)
    (body : Formula) (env : Env) (s : State) :
    (Formula.freshDyn arity shown xs body).apply env s =
      if (shown.map List.length).getD arity = arity then
        (Goal.counted s arity (Goal.built body.misuse?
          (body.apply (env.bindAll xs ((s.freshVars arity shown).1.map .var)))
          (s.freshVars arity shown).2)).after (.fresh s.next arity)
      else .stop (.misuse (.arityMismatch arity ((shown.map List.length).getD arity))) := by
  cases shown with
  | none => simp [apply, Goal.freshDyn]
  | some l => by_cases hl : l.length = arity <;> simp [apply, Goal.freshDyn, hl, Goal.stop]

/-- Formulas that differ in names only go on in lockstep. -/
theorem AlphaEq.lockstep (hp : p.AlphaEq p') (hpk : p.Below k) (n : Nat) {ρ : Pairing}
    {φ φ' : Formula} (h : φ.AlphaEq ρ φ') (hk : φ.Below k) {env env' : Env}
    (he : env.Renamed (shift k d) ρ env') {s s' : State} (hs : s.Renamed k d s') :
    Lockstep (State.Renamed k d) p.unfold p'.unfold n (φ.apply env s) (φ'.apply env' s') := by
  have same : ∀ i < k, shift k d i = i := fun _ => shift_of_lt
  -- a suspension costs a burst; everything else goes on with a part of the formula
  induction n using Nat.strong_induction_on generalizing ρ φ φ' env env' s s' with
  | _ n later =>
    induction h generalizing env env' s s' with
    | eq hu hv => exact Goal.lockstep_eq hs (hu.eval same hk.1 he) (hv.eval same hk.2 he)
    | succeed => exact lockstep_singleton hs
    | fail => exact lockstep_empty
    | nevero => exact lockstep_suspended fun m hm => later m hm .nevero trivial he hs
    | alwayso =>
      exact lockstep_suspended fun m hm =>
        (lockstep_singleton hs).merge (later m hm .alwayso trivial he hs)
    | delay h => exact lockstep_suspended fun m hm => later m hm h hk he hs
    | conj2 _ _ ihg ihh => exact (ihg hk.1 he hs).bind fun _ _ hr => ihh hk.2 he hr
    | disj2 _ _ ihg ihh => exact (ihg hk.1 he hs).merge (ihh hk.2 he hs)
    | @fresh ρ named named' xs ys body body' hn h ih =>
      have inside (room : s'.HasRoom ys.length) (names names' : Option (List String)) :
          Lockstep (State.Renamed k d) p.unfold p'.unfold n
            (body.apply (env.bindAll xs ((s.freshVars xs.length names).1.map .var))
              (s.freshVars xs.length names).2)
            (body'.apply (env'.bindAll ys ((s'.freshVars ys.length names').1.map .var))
              (s'.freshVars ys.length names').2) := by
        have made := hs.freshVars room names names'
        rw [hn]
        exact ih hk (he.bindAll made.1 hn (by simp [freshVars, hn])) made.2
      cases named <;> cases named' <;>
        exact (Goal.lockstep_counted hs hn fun room =>
          Goal.lockstep_built h.misuse?_eq (inside room _ _)).after rfl rfl
    | @freshDyn ρ arity shown shown' xs ys body body' hshown hn h ih =>
      have count : (xs.take arity).length = (ys.take arity).length := by simp [hn]
      rw [apply_freshDyn, apply_freshDyn, ← hshown]
      split
      · refine (Goal.lockstep_counted hs rfl fun room => ?_).after rfl rfl
        obtain ⟨vars, made⟩ := hs.freshVars room shown shown'
        have scopes := he.bindAll vars count (by simp [freshVars])
        rw [Env.bindAll_take _ _ (by simp [freshVars]), Env.bindAll_take _ _ (by simp [freshVars])]
          at scopes
        exact Goal.lockstep_built h.misuse?_eq (ih hk scopes made)
      · exact lockstep_stop _
    | @everyg ρ x y list list' body body' hl h ih =>
      simp only [apply, Goal.everyg]
      rcases rel_cases (hs.subst.items? (hl.eval same hk.1 he)) with
        ⟨hts, hus⟩ | ⟨ts, us, hts, hus, items⟩
      · simpa only [hts, hus] using lockstep_stop .endless
      simp only [hts, hus]
      refine Goal.lockstep_conj ?_ hs
      rw [List.forall₂_map_left_iff, List.forall₂_map_right_iff]
      exact items.imp fun t u htu s s' hs =>
        Goal.lockstep_built h.misuse?_eq (ih hk.2 (he.bind htu x y) hs)
    | @someg ρ x y list list' body body' hl h ih =>
      simp only [apply, Goal.someg]
      rcases rel_cases (hs.subst.items? (hl.eval same hk.1 he)) with
        ⟨hts, hus⟩ | ⟨ts, us, hts, hus, items⟩
      · simpa only [hts, hus] using lockstep_stop .endless
      simp only [hts, hus]
      refine Goal.lockstep_disj ?_
      rw [List.forall₂_map_left_iff, List.forall₂_map_right_iff]
      exact items.imp fun t u htu =>
        Goal.lockstep_built h.misuse?_eq (ih hk.2 (he.bind htu x y) hs)
    | @call ρ r args args' h =>
      have written : List.Forall₂ (Term.Renamed (shift k d)) (args.map (Expr.eval env))
          (args'.map (Expr.eval env')) := Expr.AlphaEq.map_eval same h hk he
      have count := Term.wildcardsIn_congr (written.imp fun _ _ h => h.wildcards_eq)
      refine Goal.lockstep_counted hs count fun room => ?_
      obtain ⟨filled, made⟩ := hs.fillAll written room
      refine lockstep_suspended fun m hm => ?_
      simp only [Suspension.force, Program.unfold]
      rcases rel_cases (hp.find? r) with ⟨hr, hr'⟩ | ⟨rel, rel', hr, hr', hrel⟩
      · simp only [hr, hr']
        exact lockstep_empty
      simp only [hr, hr', Relation.enter]
      refine Lockstep.after ?_ rfl rfl
      refine Goal.lockstep_built hrel.body.misuse?_eq (later m hm hrel.body (hpk.find? hr) ?_ made)
      exact Env.Renamed.empty.bindAll_params filled hrel.arity hrel.nodup.1 hrel.nodup.2
        (fun _ _ => rfl) fun _ _ => rfl

end Formula

/-! ### The search as a whole -/

/-- What two states have in common that differ in names, and in the numbers of the variables made
in two searches that leave the first `k` or `k'` numbers to the caller. -/
structure State.Counterparts (k k' : Nat) (s s' : State) : Prop where
  next : s'.next = s.next + (k' - k)
  subst : s.subst.renamed (shift k (k' - k)) = s'.subst.renamed id
  answers {xs ys : List Var} (hx : ∀ x ∈ xs, x.id < k) (hxy : xs.map Var.id = ys.map Var.id) :
    s.subst.reifyAll? xs = s'.subst.reifyAll? ys
  read (xs : List Var) (ha : s.subst.Acyclic) : (s.subst.reifyAll? xs).isSome = true

lemma State.Renamed.counterparts {k k' : Nat} {s s' : State} (h : s.Renamed k (k' - k) s') :
    s.Counterparts k k' s' where
  next := h.next
  subst := h.subst.renamed_eq (strictMono_shift k _)
  answers {xs ys} hx hxy := by
    refine h.subst.reifyAll? (strictMono_shift k _).injective ?_
    induction xs generalizing ys with
    | nil =>
      cases ys with
      | nil => exact .nil
      | cons y ys => cases hxy
    | cons x xs ih =>
      cases ys with
      | nil => cases hxy
      | cons y ys =>
        obtain ⟨hid, hxy⟩ := List.cons.inj hxy
        obtain ⟨hxk, hx⟩ := List.forall_mem_cons.mp hx
        exact .cons (by rw [shift_of_lt hxk, hid]) (ih hx hxy)
  read xs ha := by
    obtain ⟨u, hu⟩ := ha.reify? (.ofList (xs.map .var))
    rw [Subst.reifyAll?, hu]
    rfl

lemma Env.Renamed.shifted {ρ : Pairing} {env env' : Env} (h : env.Renamed id ρ env')
    (hk : env.Below k) : env.Renamed (shift k d) ρ env' :=
  fun x y hxy => (h x y hxy).congr fun i hi => shift_of_lt (hk x i hi)

/-- Formulas that differ in names only have the same trace from states that differ in numbers. -/
lemma Formula.AlphaEq.trace {k' : Nat} {p p' : Program} {env env' : Env} {ρ : Pairing}
    {φ φ' : Formula} {s s' : State} (hφ : φ.AlphaEq ρ φ') (hp : p.AlphaEq p')
    (he : env.Renamed id ρ env') (kp : p.Below k) (kφ : φ.Below k) (ke : env.Below k)
    (hs : s.Renamed k (k' - k) s') {steps : Nat}
    (room : .inl .overflowed ∉ (φ'.goal env' s').log p'.unfold (steps + 1)) :
    Outcome (List.Forall₂ (Mark.Alike (State.Counterparts k k')))
      ((φ.goal env s).trace p.unfold steps) ((φ'.goal env' s').trace p'.unfold steps) := by
  have alike := Burst.trace_alike (fun n => Goal.lockstep_built hφ.misuse?_eq
    (hφ.lockstep hp kp n kφ (he.shifted ke) hs)) room
  unfold goal
  generalize ((Goal.built _ (φ.apply env)) _).trace p.unfold steps = first at alike ⊢
  generalize ((Goal.built _ (φ'.apply env')) _).trace p'.unfold steps = second at alike ⊢
  cases alike with
  | ok h => exact .ok (h.imp fun _ _ hm => hm.imp fun _ _ => State.Renamed.counterparts)
  | error why => exact .error why

/-- **A counter without end** makes no difference either: a search from a state that has one is the
same as from a state whose counter would start again, as far as it does not. -/
theorem Formula.boundless_alike {k : Nat} (hk : k < 2 ^ Width.word.bits) {p : Program} {env : Env}
    {φ : Formula} (hp : p.AlphaEq p) (kp : p.Below k) (kφ : φ.Below k) (ke : env.Below k)
    (steps : Nat) (room : .inl .overflowed ∉ (φ.goal env (.reserving k)).log p.unfold (steps + 1)) :
    Outcome (List.Forall₂ (Mark.Alike (State.Counterparts k k)))
      ((φ.goal env (.boundless k)).trace p.unfold steps)
      ((φ.goal env (.reserving k)).trace p.unfold steps) := by
  have start : State.Renamed k (k - k) (.boundless k) (.reserving k) :=
    ⟨Subst.renamed_empty, by rw [State.next_reserving hk, Nat.sub_self]; rfl, Nat.le_refl k, .inl rfl⟩
  refine (φ.alphaEq_self (ρ := (· = ·)) fun _ => rfl).trace hp ?_ kp kφ ke start room
  rintro x _ rfl
  exact .refl _

end Relational
