import Mathlib.Data.List.Forall2
import Relational.Proofs.Goal.Scope
import Relational.Proofs.Subst.Renamed

/-!
Formulas that differ in names only. A variable may show another name, or none; and since the scope
of a binder refers to what it introduces by name, these names may be others as well, as long as
they stand for the same.
-/

namespace Relational

/-! ### Names -/

/-- Which names of one scope stand for the same as which names of another. -/
abbrev Pairing := String → String → Prop

namespace Pairing

def bind (ρ : Pairing) (x y : String) : Pairing :=
  fun a b => a = x ∧ b = y ∨ a ≠ x ∧ b ≠ y ∧ ρ a b

def bindAll (ρ : Pairing) (xs ys : List String) : Pairing :=
  (xs.zip ys).foldl (fun ρ b => ρ.bind b.1 b.2) ρ

/-- Where nothing is in scope, all names stand for the same. -/
def empty : Pairing := fun _ _ => True

variable {ρ : Pairing}

lemma bind_self (h : ∀ x, ρ x x) (x : String) : ∀ y, ρ.bind x x y y := by
  intro y
  by_cases hy : y = x
  · exact .inl ⟨hy, hy⟩
  · exact .inr ⟨hy, hy, h y⟩

lemma bindAll_self (h : ∀ x, ρ x x) (xs : List String) : ∀ y, ρ.bindAll xs xs y y := by
  induction xs generalizing ρ with
  | nil => exact h
  | cons x xs ih => exact ih (bind_self h x)

end Pairing

/-! ### Formulas -/

inductive Expr.AlphaEq (ρ : Pairing) : Expr → Expr → Prop
  | term {t u : Term} (h : t.Renamed id u) : AlphaEq ρ (.term t) (.term u)
  | name {x y : String} (h : ρ x y) : AlphaEq ρ (.name x) (.name y)
  | pair {a d b e : Expr} (ha : AlphaEq ρ a b) (hd : AlphaEq ρ d e) :
      AlphaEq ρ (.pair a d) (.pair b e)
  | succ {p q : Expr} (h : AlphaEq ρ p q) : AlphaEq ρ (.succ p) (.succ q)

/-- Formulas that differ in names only: in those of variables, written or introduced, whether these
are shown or not, and in those by which the scopes of binders refer to them. -/
inductive Formula.AlphaEq : Pairing → Formula → Formula → Prop
  | eq {ρ : Pairing} {u v u' v' : Expr} (hu : u.AlphaEq ρ u') (hv : v.AlphaEq ρ v') :
      AlphaEq ρ (.eq u v) (.eq u' v')
  | succeed {ρ : Pairing} : AlphaEq ρ .succeed .succeed
  | fail {ρ : Pairing} : AlphaEq ρ .fail .fail
  | nevero {ρ : Pairing} : AlphaEq ρ .nevero .nevero
  | alwayso {ρ : Pairing} : AlphaEq ρ .alwayso .alwayso
  | delay {ρ : Pairing} {g g' : Formula} (h : AlphaEq ρ g g') : AlphaEq ρ (.delay g) (.delay g')
  | conj2 {ρ : Pairing} {g h g' h' : Formula} (hg : AlphaEq ρ g g') (hh : AlphaEq ρ h h') :
      AlphaEq ρ (.conj2 g h) (.conj2 g' h')
  | disj2 {ρ : Pairing} {g h g' h' : Formula} (hg : AlphaEq ρ g g') (hh : AlphaEq ρ h h') :
      AlphaEq ρ (.disj2 g h) (.disj2 g' h')
  | fresh {ρ : Pairing} {named named' : Bool} {xs ys : List String} {body body' : Formula}
      (hn : xs.length = ys.length) (h : AlphaEq (ρ.bindAll xs ys) body body') :
      AlphaEq ρ (.fresh named xs body) (.fresh named' ys body')
  | freshDyn {ρ : Pairing} {arity : Nat} {shown shown' : Option (List String)}
      {xs ys : List String} {body body' : Formula}
      (hs : (shown.map List.length).getD arity = (shown'.map List.length).getD arity)
      (hn : xs.length = ys.length)
      (h : AlphaEq (ρ.bindAll (xs.take arity) (ys.take arity)) body body') :
      AlphaEq ρ (.freshDyn arity shown xs body) (.freshDyn arity shown' ys body')
  | everyg {ρ : Pairing} {x y : String} {list list' : Expr} {body body' : Formula}
      (hl : list.AlphaEq ρ list') (h : AlphaEq (ρ.bind x y) body body') :
      AlphaEq ρ (.everyg x list body) (.everyg y list' body')
  | someg {ρ : Pairing} {x y : String} {list list' : Expr} {body body' : Formula}
      (hl : list.AlphaEq ρ list') (h : AlphaEq (ρ.bind x y) body body') :
      AlphaEq ρ (.someg x list body) (.someg y list' body')
  | call {ρ : Pairing} {r : RelationName} {args args' : List Expr}
      (h : List.Forall₂ (Expr.AlphaEq ρ) args args') : AlphaEq ρ (.call r args) (.call r args')

/-- Relations that differ in names only. Their parameters have different names. -/
structure Relation.AlphaEq (r r' : Relation) : Prop where
  arity : r.params.length = r'.params.length
  nodup : r.params.Nodup ∧ r'.params.Nodup
  body : r.body.AlphaEq (Pairing.empty.bindAll r.params r'.params) r'.body

def Program.AlphaEq (p p' : Program) : Prop :=
  List.Forall₂ (fun b c => b.1 = c.1 ∧ b.2.AlphaEq c.2) p.relations p'.relations

/-! ### The same formula -/

lemma Term.Renamed.refl (t : Term) : t.Renamed id t := by
  induction t with
  | var x => exact .var rfl
  | pair a d iha ihd => exact .pair iha ihd
  | succ p ih => exact .succ ih
  | nil => exact .nil
  | zero => exact .zero
  | atom a => exact .atom
  | wildcard p => exact .wildcard
  | placeholder n => exact .placeholder

lemma Expr.alphaEq_self {ρ : Pairing} (h : ∀ x, ρ x x) (e : Expr) : e.AlphaEq ρ e := by
  induction e with
  | term t => exact .term (.refl t)
  | name x => exact .name (h x)
  | pair a d iha ihd => exact .pair iha ihd
  | succ p ih => exact .succ ih

lemma Formula.alphaEq_self {ρ : Pairing} (h : ∀ x, ρ x x) (φ : Formula) : φ.AlphaEq ρ φ := by
  induction φ generalizing ρ with
  | eq u v => exact .eq (u.alphaEq_self h) (v.alphaEq_self h)
  | succeed => exact .succeed
  | fail => exact .fail
  | nevero => exact .nevero
  | alwayso => exact .alwayso
  | delay g ih => exact .delay (ih h)
  | conj2 g h' ihg ihh => exact .conj2 (ihg h) (ihh h)
  | disj2 g h' ihg ihh => exact .disj2 (ihg h) (ihh h)
  | fresh named names body ih => exact .fresh rfl (ih (Pairing.bindAll_self h _))
  | freshDyn arity shown names body ih =>
    exact .freshDyn rfl rfl (ih (Pairing.bindAll_self h _))
  | everyg x list body ih => exact .everyg (list.alphaEq_self h) (ih (Pairing.bind_self h x))
  | someg x list body ih => exact .someg (list.alphaEq_self h) (ih (Pairing.bind_self h x))
  | call r args => exact .call (List.forall₂_same.mpr fun e _ => e.alphaEq_self h)

lemma Standard.alphaEq_definition (r : Standard) : r.definition.AlphaEq r.definition where
  arity := rfl
  nodup := by cases r <;> decide
  body := Formula.alphaEq_self (Pairing.bindAll_self (fun _ => trivial) _) _

/-! ### What is built of them -/

namespace Formula.AlphaEq

variable {ρ : Pairing} {φ φ' : Formula}

lemma misuse?_eq (h : φ.AlphaEq ρ φ') : φ.misuse? = φ'.misuse? := by
  induction h with
  | delay _ ih => exact ih
  | conj2 _ _ ihg ihh | disj2 _ _ ihg ihh => rw [misuse?, misuse?, ihg, ihh]
  | @freshDyn ρ arity shown shown' xs ys body body' hs hn h ih =>
    have misuse (shown : Option (List String)) (xs : List String) (body : Formula) :
        (Formula.freshDyn arity shown xs body).misuse? =
          if (shown.map List.length).getD arity = arity then none
          else some (.arityMismatch arity ((shown.map List.length).getD arity)) := by
      cases shown <;> simp [misuse?]
    rw [misuse, misuse, hs]
  | _ => rfl

end Formula.AlphaEq

namespace Env

variable {f : Nat → Nat} {ρ : Pairing} {env env' : Env}

/-- Names that are paired stand for terms that differ in numbers and names of variables only. -/
def Renamed (f : Nat → Nat) (ρ : Pairing) (env env' : Env) : Prop :=
  ∀ x y, ρ x y → (env.value x).Renamed f (env'.value y)

namespace Renamed

lemma empty : Renamed f .empty Env.empty Env.empty := fun _ _ _ => .nil

lemma bind (h : Renamed f ρ env env') {t u : Term} (ht : t.Renamed f u) (x y : String) :
    Renamed f (ρ.bind x y) (env.bind x t) (env'.bind y u) := by
  rintro a b (⟨rfl, rfl⟩ | ⟨ha, hb, hab⟩)
  · simpa [value_bind] using ht
  · simpa [value_bind, ha, hb] using h a b hab

lemma bindAll {xs ys : List String} {ts us : List Term} (h : Renamed f ρ env env')
    (hts : List.Forall₂ (Term.Renamed f) ts us) (hn : xs.length = ys.length)
    (hx : xs.length ≤ ts.length) :
    Renamed f (ρ.bindAll xs ys) (env.bindAll xs ts) (env'.bindAll ys us) := by
  induction hts generalizing ρ env env' xs ys with
  | nil =>
    obtain rfl := List.length_eq_zero_iff.mp (Nat.le_zero.mp hx)
    obtain rfl := List.length_eq_zero_iff.mp hn.symm
    exact h
  | cons ht _ ih =>
    cases xs with
    | nil =>
      obtain rfl := List.length_eq_zero_iff.mp hn.symm
      exact h
    | cons x xs =>
      obtain ⟨y, ys, rfl⟩ := List.exists_cons_of_length_eq_add_one hn.symm
      exact ih (h.bind ht x y) (Nat.succ.inj hn) (Nat.le_of_succ_le_succ hx)

lemma bindAll_unbound {xs ys : List String} (h : Renamed f ρ env env')
    (hx : ∀ x ∈ xs, env.value x = .nil) (hy : ∀ y ∈ ys, env'.value y = .nil) :
    Renamed f (ρ.bindAll xs ys) env env' := by
  induction xs generalizing ρ ys with
  | nil => exact h
  | cons x xs ih =>
    cases ys with
    | nil => exact h
    | cons y ys =>
      obtain ⟨hx₀, hx⟩ := List.forall_mem_cons.mp hx
      obtain ⟨hy₀, hy⟩ := List.forall_mem_cons.mp hy
      refine ih (ρ := ρ.bind x y) ?_ hx hy
      rintro a b (⟨rfl, rfl⟩ | ⟨-, -, hab⟩)
      · rw [hx₀, hy₀]
        exact .nil
      · exact h a b hab

lemma bindAll_params {xs ys : List String} {ts us : List Term} (h : Renamed f ρ env env')
    (hts : List.Forall₂ (Term.Renamed f) ts us) (hn : xs.length = ys.length) (dx : xs.Nodup)
    (dy : ys.Nodup) (hx : ∀ x ∈ xs, env.value x = .nil) (hy : ∀ y ∈ ys, env'.value y = .nil) :
    Renamed f (ρ.bindAll xs ys) (env.bindAll xs ts) (env'.bindAll ys us) := by
  -- a name bound later keeps its meaning, for it is another one
  have later {env : Env} {x : String} {xs : List String} {t : Term} (hx : x ∉ xs)
      (h : ∀ y ∈ xs, env.value y = .nil) : ∀ y ∈ xs, (env.bind x t).value y = .nil := by
    intro y hy
    rw [value_bind, if_neg (ne_of_mem_of_not_mem hy hx), h y hy]
  induction hts generalizing ρ env env' xs ys with
  | nil =>
    cases xs <;> cases ys <;> exact h.bindAll_unbound hx hy
  | cons ht _ ih =>
    cases xs with
    | nil =>
      obtain rfl := List.length_eq_zero_iff.mp hn.symm
      exact h
    | cons x xs =>
      obtain ⟨y, ys, rfl⟩ := List.exists_cons_of_length_eq_add_one hn.symm
      obtain ⟨hxs, dx⟩ := List.nodup_cons.mp dx
      obtain ⟨hys, dy⟩ := List.nodup_cons.mp dy
      exact ih (h.bind ht x y) (Nat.succ.inj hn) dx dy
        (later hxs fun z hz => hx z (List.mem_cons_of_mem x hz))
        (later hys fun z hz => hy z (List.mem_cons_of_mem y hz))

end Renamed

lemma bindAll_take (env : Env) (xs : List String) {ts : List Term} {n : Nat} (hn : ts.length = n) :
    env.bindAll (xs.take n) ts = env.bindAll xs ts := by
  have zip : (xs.take n).zip ts = xs.zip ts := by
    have whole : (xs.zip ts).take n = (xs.take n).zip (ts.take n) := List.take_zipWith
    rw [List.take_of_length_le (l := ts) (by omega),
      List.take_of_length_le (by rw [List.length_zip]; omega)] at whole
    exact whole.symm
  rw [bindAll, bindAll, zip]

end Env

/-- Expressions that differ in names only are terms that differ in names and numbers only. -/
lemma Expr.AlphaEq.eval {k : Nat} {f : Nat → Nat} (hf : ∀ i < k, f i = i) {ρ : Pairing}
    {e e' : Expr} (h : e.AlphaEq ρ e') (he : e.Below k) {env env' : Env}
    (henv : env.Renamed f ρ env') : (e.eval env).Renamed f (e'.eval env') := by
  induction h with
  | term h => exact h.congr fun i hi => hf i (he i hi)
  | name h => exact henv _ _ h
  | pair _ _ iha ihd => exact .pair (iha he.1) (ihd he.2)
  | succ _ ih => exact .succ (ih he)

lemma Expr.AlphaEq.map_eval {k : Nat} {f : Nat → Nat} (hf : ∀ i < k, f i = i) {ρ : Pairing}
    {es es' : List Expr} (h : List.Forall₂ (AlphaEq ρ) es es') (hes : ∀ e ∈ es, e.Below k)
    {env env' : Env} (henv : env.Renamed f ρ env') :
    List.Forall₂ (Term.Renamed f) (es.map (Expr.eval env)) (es'.map (Expr.eval env')) := by
  induction h with
  | nil => exact .nil
  | cons he _ ih =>
    obtain ⟨hk, hes⟩ := List.forall_mem_cons.mp hes
    exact .cons (he.eval hf hk henv) (ih hes)

end Relational
