import Relational.Proofs.Goal.Splits
import Relational.Proofs.Query.Solve

/-!
What a query finds, if its search comes to an end: as many answers as there are cases in which its
goal holds, and in each case the one value that the target has there.
-/

namespace Relational

open scoped List
open State Subst

variable {ι : Type}

namespace Term

lemma isGround_of_sameParts {t u : Term} (h : sameParts t u = true) (hu : u.isGround = true) :
    t.isGround = true := by
  fun_induction sameParts t u with
  | case3 a d b e iha ihd =>
    rw [Bool.and_eq_true] at h
    rw [isGround, Bool.and_eq_true] at hu ⊢
    exact ⟨iha h.1 hu.1, ihd h.2 hu.2⟩
  | case6 p q ih => exact ih h hu
  | _ => simp_all [isGround]

lemma isGround_ofList {ts : List Term} :
    (ofList ts).isGround = true ↔ ∀ t ∈ ts, t.isGround = true := by
  induction ts with
  | nil => simp [ofList, listThen, isGround]
  | cons t ts ih =>
    rw [List.forall_mem_cons, ← ih, ← Bool.and_eq_true]
    rfl

lemma pair_sameParts {a d t : Term} : sameParts (pair a d) t = true ↔
    ∃ b e, t = pair b e ∧ sameParts a b = true ∧ sameParts d e = true := by
  cases t <;> simp [sameParts]

lemma sameParts_nil {t : Term} : sameParts t nil = true ↔ t = nil := by
  cases t <;> simp [sameParts]

lemma nil_sameParts {t : Term} : sameParts nil t = true ↔ t = nil := by
  cases t <;> simp [sameParts]

lemma isGround_listThen {ts : List Term} {t : Term} :
    (listThen ts t).isGround = true ↔ (∀ u ∈ ts, u.isGround = true) ∧ t.isGround = true := by
  induction ts with
  | nil => simp [listThen]
  | cons u ts ih =>
    rw [List.forall_mem_cons, and_assoc, ← ih, ← Bool.and_eq_true]
    rfl

lemma numbered_of_isGround {t : Term} (h : t.isGround = true) : t.numbered = t := by
  rw [numbered]
  generalize t.order = is
  induction t with
  | pair a d iha ihd =>
    rw [isGround, Bool.and_eq_true] at h
    rw [placeBy, iha h.1, ihd h.2]
  | succ p ih => rw [placeBy, ih h]
  | var x => cases h
  | _ => rfl

end Term

namespace Query

/-- The search comes to an end, with one answer for each of these terms and equal to it. -/
def Finds (q : Query) (ts : List Term) : Prop :=
  ∃ budget found us, q.reified budget = .ok found ∧
    List.Forall₂ (fun t u => (t == u) = true) found us ∧ us ~ ts

def Counts (q : Query) (k : Nat) : Prop :=
  ∃ budget found, q.reified budget = .ok found ∧ found.length = k

def askOne (program : Program) (name : String) (goal : Formula) : Query :=
  { ask program [name] goal with single := true }

variable {q : Query} {n : Nat} {s : State} {g : Term}

/-- If the bindings fix the target, then what is read from them is its value. -/
lemma exists_read (hs : s.Proper n) (fixes : s.Fixes n q.target g) (hg : g.isGround = true) :
    ∃ t, q.read s = .ok t ∧ (t == g) = true := by
  obtain ⟨u, hu⟩ := hs.acyclic.resolve? q.target
  have wildcardFree := hs.tidy.wildcardFree
  have same : Term.sameParts u g = true := Term.sameParts_of_forall fun θ => by
    rw [θ.apply_of_isGround hg, ← Valuation.through_apply wildcardFree hu]
    exact fixes _ (allows_of_solves (Valuation.through_solves wildcardFree hs.acyclic))
  have ground := Term.isGround_of_sameParts same hg
  refine ⟨u, ?_, (Term.beq_eq_sameParts (Term.hasWildcard_of_isGround ground) g).trans same⟩
  rw [read, reify?_eq, hu, Option.map_some, Term.numbered_of_isGround ground]

lemma exists_mapM {α β γ ε : Type} {f : α → Except ε β} {R : β → γ → Prop} {as : List α}
    {cs : List γ} (h : List.Forall₂ (fun a c => ∃ b, f a = .ok b ∧ R b c) as cs) :
    ∃ bs, as.mapM f = .ok bs ∧ List.Forall₂ R bs cs := by
  induction h with
  | nil => exact ⟨[], rfl, .nil⟩
  | cons ha _ ih =>
    obtain ⟨b, hb, here⟩ := ha
    obtain ⟨bs, hbs, later⟩ := ih
    refine ⟨b :: bs, ?_, .cons here later⟩
    rw [List.mapM_cons, hb, hbs]
    rfl

lemma exists_reified {R : Term → ι → Prop} {ts : List State} {is : List ι} (hl : q.limit = none)
    (gives : q.search.Gives q.program.unfold ts)
    (each : List.Forall₂ (fun s i => ∃ t, q.read s = .ok t ∧ R t i) ts is) :
    ∃ budget found js, q.reified budget = .ok found ∧ List.Forall₂ R found js ∧ js ~ is := by
  obtain ⟨_, ⟨budget, h, collected, rfl⟩, order⟩ := gives
  obtain ⟨js, each, same⟩ := List.perm_comp_forall₂ order each
  obtain ⟨found, read, here⟩ := exists_mapM each
  have harvest : q.harvest budget = .ok h := by rwa [harvest, hl]
  exact ⟨budget, found, js, by simp only [reified, harvest]; exact read, here, same⟩

/-- A goal with a case for each index, in which the target has one value, has these answers. -/
lemma finds_of_splits {is : List ι} {P : ι → Valuation → Prop} {f : ι → Term}
    (hl : q.limit = none) (hn : q.vars.length = n)
    (h : Goal.Splits q.program n (q.goal.goal q.env) (.boundless n) (is.map P))
    (can : ∀ i ∈ is, ∃ θ, P i θ)
    (reads : ∀ i ∈ is, ∀ θ, P i θ → Term.sameParts (θ.apply q.target) (f i) = true)
    (ground : ∀ i ∈ is, (f i).isGround = true) : q.Finds (is.map f) := by
  subst hn
  obtain ⟨ts, gives, branches⟩ := h
  have all := branches.forall₂ fun i hi => (can i hi).imp fun θ => .intro (allows_boundless ..)
  have each := (List.forall₂_and_left _ _).mpr ⟨fun i (hi : i ∈ is) => hi, all⟩
  refine exists_reified hl gives (List.forall₂_map_right_iff.mpr (each.imp ?_).flip)
  intro i t ⟨hi, ht⟩
  exact exists_read ht.proper (fun θ hθ => reads i hi θ ((ht.allows_iff θ).mp hθ).2) (ground i hi)

/-- A goal that says nothing of the variables has one answer if it holds, and else none. -/
lemma counts_of_splits {C : Prop} [Decidable C] (hl : q.limit = none) (hn : q.vars.length = n)
    (h : Goal.Splits q.program n (q.goal.goal q.env) (.boundless n) [fun _ => C]) :
    q.Counts (if C then 1 else 0) := by
  subst hn
  obtain ⟨ts, gives, branches⟩ := h
  have read : List.Forall₂ (fun s _ => ∃ t, q.read s = .ok t ∧ True) ts
      (List.replicate (if C then 1 else 0) ()) := by
    cases branches with
    | «open» ht hts =>
      obtain ⟨θ, -, here⟩ := ht.exists_allows
      obtain ⟨u, hu⟩ := ht.proper.acyclic.resolve? q.target
      cases hts
      rw [if_pos here]
      exact .cons ⟨u.numbered, by rw [Query.read, reify?_eq, hu]; rfl, trivial⟩ .nil
    | closed hP hts =>
      cases hts
      rw [if_neg (hP ⟨fun _ => .nil, fun _ => rfl⟩ (allows_boundless ..))]
      exact .nil
  obtain ⟨budget, found, js, reified, same, order⟩ := exists_reified hl gives read
  exact ⟨budget, found, reified, by rw [same.length_eq, order.length_eq, List.length_replicate]⟩

/-! ### Calls -/

variable {p : Program} {names : List String} {x y : String} {r : Standard} {args : List Expr}
  {ts : List Term} {is : List ι}

lemma vars_ask (φ : Formula) : (ask p names φ).vars = Var.numbered 0 names :=
  freshVars_of_room (.inl rfl)

lemma env_ask (φ : Formula) : (ask p names φ).env = .ofVars (Var.numbered 0 names) :=
  congrArg Env.ofVars (vars_ask φ)

lemma length_vars (φ : Formula) : (ask p names φ).vars.length = names.length := by
  simp [ask, freshVars]

lemma value_ofVars_one (x : String) :
    (Env.ofVars [⟨0, some x⟩]).value x = .var ⟨0, some x⟩ := by
  simp [Env.ofVars, Env.bind]

lemma value_ofVars_two {x y : String} (hxy : x ≠ y) :
    (Env.ofVars [⟨0, some x⟩, ⟨1, some y⟩]).value x = .var ⟨0, some x⟩ ∧
      (Env.ofVars [⟨0, some x⟩, ⟨1, some y⟩]).value y = .var ⟨1, some y⟩ := by
  simp [Env.ofVars, Env.bind, hxy]

lemma counts_call (ts : List Term) {C : Prop} [Decidable C]
    (h : Goal.Splits p names.length (Goal.call (.standard r) ts) (.boundless names.length)
      [fun _ => C]) : (ask p names (.ask r (ts.map .term))).Counts (if C then 1 else 0) := by
  have goal : (Formula.ask r (ts.map .term)).goal (ask p names (.ask r (ts.map .term))).env =
      Goal.call (.standard r) ts := by
    have evaluated (env : Env) : (ts.map Expr.term).map (Expr.eval env) = ts := by
      simp [Function.comp_def, Expr.eval]
    exact congrArg (Goal.call (.standard r)) (evaluated _)
  exact counts_of_splits rfl (length_vars _) (goal ▸ h)

lemma finds_one (is : List ι) (f : ι → Term)
    (hr : args.map (Expr.eval (.ofVars [⟨0, some x⟩])) = ts)
    (ground : ∀ i ∈ is, (f i).isGround = true)
    (h : Goal.Splits p 1 (Goal.call (.standard r) ts) (.boundless 1)
      (is.map fun i θ => Term.sameParts (θ.value 0) (f i) = true)) :
    (askOne p x (.ask r args)).Finds (is.map f) := by
  subst hr
  refine finds_of_splits rfl rfl h (fun i hi => ?_) (fun i _ θ here => here) ground
  exact ⟨⟨fun _ => f i, fun _ => ground i hi⟩, Term.sameParts_refl _⟩

lemma sameParts_values {θ : Valuation} {xs : List Var} (h : List.Forall₂ (fun x t =>
    Term.sameParts (θ.value x.id) t = true) xs ts) :
    Term.sameParts (θ.apply (.ofList (xs.map .var))) (.ofList ts) = true := by
  induction h with
  | nil => rfl
  | cons here _ ih => exact Bool.and_eq_true_iff.mpr ⟨here, ih⟩

lemma finds_call {f : ι → List Term}
    (hr : args.map (Expr.eval (ask p names (.ask r args)).env) = ts)
    (ground : ∀ i ∈ is, ∀ t ∈ f i, t.isGround = true)
    (length : ∀ i ∈ is, (f i).length = names.length)
    (h : Goal.Splits p names.length (Goal.call (.standard r) ts) (.boundless names.length)
      (is.map fun i θ => List.Forall₂ (fun j t => Term.sameParts (θ.value j) t = true)
        (List.range names.length) (f i))) :
    (ask p names (.ask r args)).Finds (is.map fun i => .ofList (f i)) := by
  subst hr
  refine finds_of_splits rfl (length_vars _) h (fun i hi => ?_) (fun i _ θ here => ?_)
    fun i hi => ?_
  · refine ⟨⟨fun j => (f i).getD j .nil, fun j => ?_⟩, List.forall₂_iff_get.mpr ⟨?_, ?_⟩⟩
    · rw [List.getD_eq_getElem?_getD]
      rcases hj : (f i)[j]? with _ | t
      · rfl
      · exact ground i hi t (List.mem_of_getElem? hj)
    · rw [List.length_range, length i hi]
    · intro j _ hj
      simpa [hj] using Term.sameParts_refl _
  · refine sameParts_values ?_
    rw [vars_ask, Var.numbered, List.forall₂_map_left_iff]
    simpa using here
  · exact Term.isGround_ofList.mpr (ground i hi)

lemma finds_two {f f' : ι → Term}
    (hr : args.map (Expr.eval (.ofVars [⟨0, some x⟩, ⟨1, some y⟩])) = ts)
    (ground : ∀ i ∈ is, (f i).isGround = true ∧ (f' i).isGround = true)
    (h : Goal.Splits p 2 (Goal.call (.standard r) ts) (.boundless 2)
      (is.map fun i θ => Term.sameParts (θ.value 0) (f i) = true ∧
        Term.sameParts (θ.value 1) (f' i) = true)) :
    (ask p [x, y] (.ask r args)).Finds (is.map fun i => .ofList [f i, f' i]) := by
  refine finds_call (f := fun i => [f i, f' i]) (env_ask _ ▸ hr) (fun i hi => ?_) (fun _ _ => rfl)
    (h.congr_map fun i _ θ _ => ?_)
  · simp [ground i hi]
  · have both : List.range [x, y].length = [0, 1] := rfl
    rw [both]
    simp

end Query

end Relational
