import Relational.Proofs.Goal.Tidy
import Relational.Proofs.Subst.Resolution
import Relational.Proofs.Term.Renaming

/-!
Placeholders stand for the open variables of an answer. A search makes none of its own: where no
placeholder is written in a formula or in the relations of its program, none is ever bound.
-/

namespace Relational

/-! ### What is written -/

def Expr.hasPlaceholder : Expr → Bool
  | term t => t.hasPlaceholder
  | name _ => false
  | pair a d => a.hasPlaceholder || d.hasPlaceholder
  | succ p => p.hasPlaceholder

def Formula.hasPlaceholder : Formula → Bool
  | eq u v => u.hasPlaceholder || v.hasPlaceholder
  | delay g => g.hasPlaceholder
  | conj2 g h | disj2 g h => g.hasPlaceholder || h.hasPlaceholder
  | fresh _ _ body | freshDyn _ _ _ body => body.hasPlaceholder
  | everyg _ list body | someg _ list body => list.hasPlaceholder || body.hasPlaceholder
  | call _ args => args.any Expr.hasPlaceholder
  | succeed | fail | nevero | alwayso => false

def Program.hasPlaceholder (p : Program) : Bool := p.relations.any fun b => b.2.body.hasPlaceholder

def Env.PlaceholderFree (env : Env) : Prop := ∀ x, (env.value x).hasPlaceholder = false

def Subst.PlaceholderFree (s : Subst) : Prop :=
  ∀ x t, s.find? x = some t → t.hasPlaceholder = false

/-! ### Scopes -/

namespace Env.PlaceholderFree

variable {env : Env}

lemma empty : Env.empty.PlaceholderFree := fun _ => rfl

lemma bind (h : env.PlaceholderFree) {t : Term} (ht : t.hasPlaceholder = false) (x : String) :
    (env.bind x t).PlaceholderFree :=
  forall_bind (C := (·.hasPlaceholder = false)) h ht x

lemma bindAll (h : env.PlaceholderFree) (xs : List String) {ts : List Term}
    (hts : ∀ t ∈ ts, t.hasPlaceholder = false) : (env.bindAll xs ts).PlaceholderFree :=
  forall_bindAll (C := (·.hasPlaceholder = false)) h xs hts

lemma ofVars (xs : List Var) : (Env.ofVars xs).PlaceholderFree := by
  have start := empty
  unfold Env.ofVars
  generalize Env.empty = env at start ⊢
  induction xs generalizing env with
  | nil => exact start
  | cons x xs ih =>
    refine ih _ ?_
    dsimp only
    split
    · exact start.bind rfl _
    · exact start

end Env.PlaceholderFree

lemma Expr.hasPlaceholder_eval {e : Expr} {env : Env} (h : e.hasPlaceholder = false)
    (he : env.PlaceholderFree) : (e.eval env).hasPlaceholder = false := by
  induction e with
  | term t => exact h
  | name x => exact he x
  | pair a d iha ihd =>
    rw [hasPlaceholder, Bool.or_eq_false_iff] at h
    rw [eval, Term.hasPlaceholder, iha h.1, ihd h.2]
    rfl
  | succ p ih => exact ih h

/-! ### Programs -/

namespace Program

variable {p : Program} {r : RelationName} {rel : Relation}

lemma hasPlaceholder_find? (hp : p.hasPlaceholder = false) (h : p.find? r = some rel) :
    rel.body.hasPlaceholder = false := by
  cases r with
  | standard r =>
    obtain rfl : r.definition = rel := by simpa [find?] using h
    cases r <;> rfl
  | user name =>
    obtain ⟨b, hb, rfl⟩ := mem_of_find?_user h
    simpa using List.any_eq_false.mp hp b hb

end Program

/-! ### States -/

namespace State

variable {s s' : State}

lemma hasPlaceholder_fill {t : Term} (h : t.hasPlaceholder = false) (s : State) :
    (s.fill t).1.hasPlaceholder = false := by
  induction t generalizing s with
  | pair a d iha ihd =>
    rw [Term.hasPlaceholder, Bool.or_eq_false_iff] at h
    rw [fill_pair, Term.hasPlaceholder, iha h.1, ihd h.2]
    rfl
  | succ p ih => exact ih h s
  | wildcard p => rfl
  | _ => exact h

lemma hasPlaceholder_fillWildcards {t u : Term} (h : s.fillWildcards t = (u, s'))
    (ht : t.hasPlaceholder = false) : u.hasPlaceholder = false := by
  rw [fillWildcards_term h]
  exact hasPlaceholder_fill ht s

lemma hasPlaceholder_fillAll {ts us : List Term} (h : s.fillAll ts = (us, s'))
    (hts : ∀ t ∈ ts, t.hasPlaceholder = false) : ∀ u ∈ us, u.hasPlaceholder = false := by
  induction ts generalizing s us with
  | nil => cases h; simp
  | cons t ts ih =>
    obtain ⟨u, us', r, hu, hus, rfl⟩ := fillAll_cons h
    obtain ⟨ht, hts⟩ := List.forall_mem_cons.mp hts
    exact List.forall_mem_cons.mpr ⟨hasPlaceholder_fillWildcards hu ht, ih hus hts⟩

end State

namespace Subst

variable {s : Subst}

lemma partwise_hasPlaceholder : Partwise fun t => t.hasPlaceholder = false where
  pair h := by simpa [Term.hasPlaceholder] using h
  succ h := h
  of_pair ha hd := by rw [Term.hasPlaceholder, ha, hd]; rfl
  of_succ h := h

namespace PlaceholderFree

lemma empty : Subst.empty.PlaceholderFree := by
  intro x t h
  rw [find?_empty] at h
  cases h

lemma unify? (hs : s.PlaceholderFree) {u v : Term} {w : Subst} (hu : u.hasPlaceholder = false)
    (hv : v.hasPlaceholder = false) (h : s.unify? u v = some (some w)) : w.PlaceholderFree :=
  ((unifies_of_unify? h).grows partwise_hasPlaceholder.toInherited ⟨hs, hu, hv⟩ w rfl).values hs

lemma itemsWithin (hs : s.PlaceholderFree) {k : Nat} {t : Term} {ts : List Term}
    (ht : t.hasPlaceholder = false) (h : s.itemsWithin k t = some ts) :
    ∀ u ∈ ts, u.hasPlaceholder = false :=
  partwise_hasPlaceholder.toInherited.itemsWithin hs ht h

lemma resolve? (hs : s.PlaceholderFree) {t r : Term} (ht : t.hasPlaceholder = false)
    (h : s.resolve? t = some r) : r.hasPlaceholder = false :=
  partwise_hasPlaceholder.resolve? hs ht h

end PlaceholderFree

end Subst

/-! ### Searches -/

variable {p : Program} {env : Env} {φ : Formula} {s t : State}

/-- What a formula without placeholders reaches binds none. -/
theorem Formula.Reaches.placeholderFree (h : φ.Reaches p env s t)
    (hp : p.hasPlaceholder = false) (hφ : φ.hasPlaceholder = false) (he : env.PlaceholderFree)
    (hs : s.subst.PlaceholderFree) : t.subst.PlaceholderFree := by
  induction h with
  | @eq env u v u' v' s s₁ s₂ w hu hv hw =>
    rw [hasPlaceholder, Bool.or_eq_false_iff] at hφ
    have same : s₂.subst = s.subst :=
      (State.fillWildcards_subst hv).trans (State.fillWildcards_subst hu)
    refine Subst.PlaceholderFree.unify? (same ▸ hs) ?_ ?_ hw
    · exact State.hasPlaceholder_fillWildcards hu (Expr.hasPlaceholder_eval hφ.1 he)
    · exact State.hasPlaceholder_fillWildcards hv (Expr.hasPlaceholder_eval hφ.2 he)
  | succeed => exact hs
  | alwayso => exact hs
  | delay _ ih => exact ih hφ he hs
  | conj2 _ _ ihg ihh =>
    rw [hasPlaceholder, Bool.or_eq_false_iff] at hφ
    exact ihh hφ.2 he (ihg hφ.1 he hs)
  | left _ ih =>
    rw [hasPlaceholder, Bool.or_eq_false_iff] at hφ
    exact ih hφ.1 he hs
  | right _ ih =>
    rw [hasPlaceholder, Bool.or_eq_false_iff] at hφ
    exact ih hφ.2 he hs
  | fresh hx _ _ ih | freshDyn _ hx _ _ ih =>
    refine ih hφ (he.bindAll _ (by simp [Term.hasPlaceholder])) ?_
    exact State.freshVars_subst hx ▸ hs
  | @everyg env x list body ts path hts _ _ ih =>
    rw [hasPlaceholder, Bool.or_eq_false_iff] at hφ
    have items := hs.itemsWithin (Expr.hasPlaceholder_eval hφ.1 he) hts
    have along : ∀ i ≤ ts.length, (path i).subst.PlaceholderFree := by
      intro i hi
      induction i with
      | zero => exact hs
      | succ i ihi =>
        exact ih i hi hφ.2 (he.bind (items _ (List.getElem_mem hi)) x) (ihi (by omega))
    exact along _ (Nat.le_refl _)
  | @someg env x list body ts u s t hts hu _ _ ih =>
    rw [hasPlaceholder, Bool.or_eq_false_iff] at hφ
    have item := hs.itemsWithin (Expr.hasPlaceholder_eval hφ.1 he) hts u hu
    exact ih hφ.2 (he.bind item x) hs
  | @call env r rel args ts s s' t hr ha _ _ ih =>
    have written : ∀ t ∈ args.map (Expr.eval env), t.hasPlaceholder = false := by
      intro t ht
      obtain ⟨e, hargs, rfl⟩ := List.mem_map.mp ht
      exact Expr.hasPlaceholder_eval (by simpa using List.any_eq_false.mp hφ e hargs) he
    refine ih (Program.hasPlaceholder_find? hp hr) ?_ (State.fillAll_subst ha ▸ hs)
    exact Env.PlaceholderFree.empty.bindAll _ (State.hasPlaceholder_fillAll ha written)

end Relational
