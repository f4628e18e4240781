import Relational.Program
import Relational.Proofs.Term.Valuation

/-!
Which variables a formula can mention: those of the terms in its scope and of the terms written
in it. The relations of the library mention none but their parameters.
-/

namespace Relational

variable {n : Nat}

/-! ### Scopes -/

namespace Env

def Below (n : Nat) (env : Env) : Prop := ∀ x, (env.value x).Below n

/-- Each name stands for terms with the same value, here and there. -/
def Agree (θ : Valuation) (env : Env) (η : Valuation) (env' : Env) : Prop :=
  ∀ x, θ.apply (env.value x) = η.apply (env'.value x)

lemma Below.mono {m : Nat} {env : Env} (h : env.Below m) (hmn : m ≤ n) : env.Below n :=
  fun x => (h x).mono hmn

lemma value_bind (env : Env) (x y : String) (t : Term) :
    (env.bind x t).value y = if y = x then t else env.value y := rfl

lemma forall_bind {C : Term → Prop} {env : Env} (h : ∀ x, C (env.value x)) {t : Term}
    (ht : C t) (x : String) : ∀ y, C ((env.bind x t).value y) := by
  intro y
  rw [value_bind]
  split
  · exact ht
  · exact h y

lemma forall_bindAll {C : Term → Prop} {env : Env} (h : ∀ x, C (env.value x))
    (xs : List String) {ts : List Term} (hts : ∀ t ∈ ts, C t) :
    ∀ y, C ((env.bindAll xs ts).value y) := by
  induction xs generalizing env ts with
  | nil => exact h
  | cons x xs ih =>
    cases ts with
    | nil => exact h
    | cons t ts =>
      obtain ⟨ht, hts⟩ := List.forall_mem_cons.mp hts
      exact ih (forall_bind h ht x) hts

lemma Below.bind {env : Env} (h : env.Below n) {t : Term} (ht : t.Below n) (x : String) :
    (env.bind x t).Below n :=
  forall_bind h ht x

lemma Below.bindAll {env : Env} (h : env.Below n) (xs : List String) {ts : List Term}
    (hts : ∀ t ∈ ts, t.Below n) : (env.bindAll xs ts).Below n :=
  forall_bindAll h xs hts

variable {θ η : Valuation} {env env' : Env}

lemma Agree.bind (h : Agree θ env η env') {t u : Term} (ht : θ.apply t = η.apply u)
    (x : String) : Agree θ (env.bind x t) η (env'.bind x u) := by
  intro y
  rw [value_bind, value_bind]
  split
  · exact ht
  · exact h y

lemma Agree.bindAll (h : Agree θ env η env') (xs : List String) {ts us : List Term}
    (hts : ts.map θ.apply = us.map η.apply) :
    Agree θ (env.bindAll xs ts) η (env'.bindAll xs us) := by
  induction xs generalizing env env' ts us with
  | nil => exact h
  | cons x xs ih =>
    cases ts <;> cases us <;> simp only [List.map_nil, List.map_cons, List.cons.injEq,
      reduceCtorEq] at hts
    · exact h
    · exact ih (h.bind hts.1 x) hts.2

lemma Agree.change (h : Agree θ env η env') {ζ : Valuation} (hη : η.AgreesBelow ζ n)
    (hn : env'.Below n) : Agree θ env ζ env' :=
  fun x => (h x).trans (hη.apply_eq (hn x))

end Env

/-! ### Terms written in a formula -/

def Expr.Below (n : Nat) : Expr → Prop
  | term t => t.Below n
  | name _ => True
  | pair a d => a.Below n ∧ d.Below n
  | succ p => p.Below n

instance Expr.decidableBelow (n : Nat) : (e : Expr) → Decidable (e.Below n)
  | term t => inferInstanceAs (Decidable (∀ i ∈ t.ids, i < n))
  | name _ => .isTrue trivial
  | pair a d => @instDecidableAnd _ _ (a.decidableBelow n) (d.decidableBelow n)
  | succ p => p.decidableBelow n

lemma Expr.Below.mono {m : Nat} {e : Expr} (h : e.Below m) (hmn : m ≤ n) : e.Below n := by
  induction e with
  | term t => exact Term.Below.mono h hmn
  | name x => trivial
  | pair a d iha ihd => exact ⟨iha h.1, ihd h.2⟩
  | succ p ih => exact ih h

lemma Expr.below_eval {e : Expr} {env : Env} (h : e.Below n) (he : env.Below n) :
    (e.eval env).Below n := by
  induction e with
  | term t => exact h
  | name x => exact he x
  | pair a d iha ihd => exact Term.below_pair.mpr ⟨iha h.1, ihd h.2⟩
  | succ p ih => exact ih h

lemma Expr.apply_eval {θ η : Valuation} {env env' : Env} {e : Expr} (h : e.Below n)
    (hη : θ.AgreesBelow η n) (he : Env.Agree θ env η env') :
    θ.apply (e.eval env) = η.apply (e.eval env') := by
  induction e with
  | term t => exact hη.apply_eq h
  | name x => exact he x
  | pair a d iha ihd =>
    rw [eval, eval, Valuation.apply_pair, Valuation.apply_pair, iha h.1, ihd h.2]
  | succ p ih => rw [eval, eval, Valuation.apply_succ, Valuation.apply_succ, ih h]

namespace Formula

def Below (n : Nat) : Formula → Prop
  | eq u v => u.Below n ∧ v.Below n
  | delay g => g.Below n
  | conj2 g h | disj2 g h => g.Below n ∧ h.Below n
  | fresh _ _ body | freshDyn _ _ _ body => body.Below n
  | everyg _ list body | someg _ list body => list.Below n ∧ body.Below n
  | call _ args => ∀ e ∈ args, e.Below n
  | succeed | fail | nevero | alwayso => True

instance decidableBelow (n : Nat) : (φ : Formula) → Decidable (φ.Below n)
  | eq u v => inferInstanceAs (Decidable (u.Below n ∧ v.Below n))
  | delay g => g.decidableBelow n
  | conj2 g h | disj2 g h => @instDecidableAnd _ _ (g.decidableBelow n) (h.decidableBelow n)
  | fresh _ _ body | freshDyn _ _ _ body => body.decidableBelow n
  | everyg _ list body | someg _ list body =>
    @instDecidableAnd _ _ (list.decidableBelow n) (body.decidableBelow n)
  | call _ args => inferInstanceAs (Decidable (∀ e ∈ args, e.Below n))
  | succeed | fail | nevero | alwayso => .isTrue trivial

lemma Below.mono {m : Nat} {φ : Formula} (h : φ.Below m) (hmn : m ≤ n) : φ.Below n := by
  induction φ with
  | eq u v => exact ⟨h.1.mono hmn, h.2.mono hmn⟩
  | delay g ih => exact ih h
  | conj2 g h' ihg ihh => exact ⟨ihg h.1, ihh h.2⟩
  | disj2 g h' ihg ihh => exact ⟨ihg h.1, ihh h.2⟩
  | fresh named names body ih => exact ih h
  | freshDyn arity shown names body ih => exact ih h
  | everyg x list body ih => exact ⟨h.1.mono hmn, ih h.2⟩
  | someg x list body ih => exact ⟨h.1.mono hmn, ih h.2⟩
  | call r args => exact fun e he => (h e he).mono hmn
  | _ => trivial

/-- Neither `everyg` nor `someg`, which look at what is known of a list when they are applied;
and as many names as variables wherever names are shown. -/
def plain : Formula → Bool
  | delay g => g.plain
  | conj2 g h | disj2 g h => g.plain && h.plain
  | fresh _ _ body => body.plain
  | freshDyn arity shown _ body => shown.all (·.length == arity) && body.plain
  | everyg _ _ _ | someg _ _ _ => false
  | eq _ _ | succeed | fail | nevero | alwayso | call _ _ => true

lemma misuse?_of_plain {φ : Formula} (h : φ.plain = true) : φ.misuse? = none := by
  induction φ with
  | delay g ih => exact ih h
  | conj2 g h' ihg ihh | disj2 g h' ihg ihh =>
    rw [plain, Bool.and_eq_true] at h
    rw [misuse?, ihg h.1, ihh h.2]
    rfl
  | freshDyn arity shown names body ih =>
    cases shown with
    | none => rfl
    | some l => simp_all [plain, misuse?]
  | _ => rfl

end Formula

/-! ### Programs -/

/-- The relations of the library mention no variable but their parameters. -/
lemma Standard.below_definition (r : Standard) : r.definition.body.Below n := by
  have closed : r.definition.body.Below 0 := by cases r <;> decide
  exact closed.mono n.zero_le

namespace Program

def Below (n : Nat) (p : Program) : Prop := ∀ b ∈ p.relations, b.2.body.Below n

instance (n : Nat) (p : Program) : Decidable (p.Below n) :=
  inferInstanceAs (Decidable (∀ b ∈ p.relations, b.2.body.Below n))

def plain (p : Program) : Bool := p.relations.all fun b => b.2.body.plain

variable {p : Program} {r : RelationName} {rel : Relation}

lemma mem_of_find?_user {name : String} (h : p.find? (.user name) = some rel) :
    ∃ b ∈ p.relations, b.2 = rel := by
  obtain ⟨l₁, l₂, hl, -⟩ := List.lookup_eq_some_iff.mp h
  exact ⟨(name, rel), by simp [hl], rfl⟩

lemma Below.find? (hp : p.Below n) (h : p.find? r = some rel) : rel.body.Below n := by
  cases r with
  | standard r =>
    obtain rfl : r.definition = rel := by simpa [Program.find?] using h
    exact r.below_definition
  | user name =>
    obtain ⟨b, hb, rfl⟩ := mem_of_find?_user h
    exact hp b hb

lemma plain_find? (hp : p.plain = true) (h : p.find? r = some rel) : rel.body.plain = true := by
  cases r with
  | standard r =>
    obtain rfl : r.definition = rel := by simpa [Program.find?] using h
    cases r <;> rfl
  | user name =>
    obtain ⟨b, hb, rfl⟩ := mem_of_find?_user h
    exact List.all_eq_true.mp hp b hb

end Program

end Relational
