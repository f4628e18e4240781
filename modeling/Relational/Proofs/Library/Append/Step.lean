import Relational.Proofs.Goal.Begins
import Relational.Proofs.Query.Finds

/-!
Lists followed by other terms, and what one step of appending needs and leaves: what has to be known
for its equations to be decided is known again of the tails.
-/

namespace Relational

open State Subst Goal

namespace Term

def afterPairs : Nat → Term → Term
  | n + 1, pair _ d => d.afterPairs n
  | _, t => t

lemma isGround_afterPairs {t : Term} (h : t.isGround = true) (i : Nat) :
    (t.afterPairs i).isGround = true := by
  induction t generalizing i with
  | pair a d _ ihd =>
    cases i with
    | zero => exact h
    | succ i =>
      rw [isGround, Bool.and_eq_true] at h
      exact ihd h.2 i
  | _ => cases i <;> exact h

lemma isGround_items {t : Term} (h : t.isGround = true) : ∀ u ∈ t.items, u.isGround = true := by
  induction t with
  | pair a d _ ihd =>
    rw [isGround, Bool.and_eq_true] at h
    exact List.forall_mem_cons.mpr ⟨h.1, ihd h.2⟩
  | _ => simp [items]

/-- Some list of `k` items, followed by `v`, is `w`, and `u` is that list. -/
def Joined (k : Nat) (u v w : Term) : Prop :=
  ∃ xs : List Term, xs.length = k ∧ (∀ x ∈ xs, x.isGround = true) ∧
    sameParts (ofList xs) u = true ∧ sameParts (listThen xs v) w = true

lemma joined_zero {u v w : Term} : Joined 0 u v w ↔ u = nil ∧ sameParts v w = true := by
  constructor
  · rintro ⟨xs, length, -, list, join⟩
    obtain rfl := List.length_eq_zero_iff.mp length
    exact ⟨nil_sameParts.mp list, join⟩
  · rintro ⟨rfl, join⟩
    exact ⟨[], rfl, by simp, rfl, join⟩

lemma joined_succ {k : Nat} {u v w : Term} (hv : v.isGround = true) : Joined (k + 1) u v w ↔
    ∃ x d e, x.isGround = true ∧ d.isGround = true ∧ e.isGround = true ∧
      (sameParts (pair x d) u = true ∧ sameParts (pair x e) w = true) ∧ Joined k d v e := by
  constructor
  · rintro ⟨xs, length, ground, list, join⟩
    obtain ⟨x, xs, rfl⟩ := List.exists_cons_of_length_eq_add_one length
    obtain ⟨hx, hxs⟩ := List.forall_mem_cons.mp ground
    exact ⟨x, ofList xs, listThen xs v, hx, isGround_ofList.mpr hxs,
      isGround_listThen.mpr ⟨hxs, hv⟩, ⟨list, join⟩,
      xs, Nat.succ.inj length, hxs, sameParts_refl _, sameParts_refl _⟩
  · rintro ⟨x, d, e, hx, -, -, ⟨left, right⟩, xs, length, hxs, list, join⟩
    have front : sameParts (ofList (x :: xs)) (pair x d) = true :=
      Bool.and_eq_true_iff.mpr ⟨sameParts_refl x, list⟩
    have whole : sameParts (listThen (x :: xs) v) (pair x e) = true :=
      Bool.and_eq_true_iff.mpr ⟨sameParts_refl x, join⟩
    exact ⟨x :: xs, congrArg (· + 1) length, List.forall_mem_cons.mpr ⟨hx, hxs⟩,
      sameParts_trans front left, sameParts_trans whole right⟩

end Term

namespace Goal.Splits

variable {ι : Type} {p : Program} {n : Nat} {s : State} {a b c g : Term} {is : List ι}

lemma appendo_goal (a b c : Term) : Standard.appendo.goal [a, b, c] =
    Goal.disj2 (Goal.conj2 (Goal.call (.standard .emptyo) [a]) (Goal.eq b c))
      (Goal.freshNamed ["first", "rest", "rec"] fun
        | [f, r, q] => Goal.conj2 (Goal.call (.standard .conso) [.var f, .var r, a])
            (Goal.conj2 (Goal.call (.standard .conso) [.var f, .var q, c])
              (Goal.call (.standard .appendo) [.var r, b, .var q]))
        | _ => Goal.fail) := rfl

/-- Both clauses begin with a call, so it takes a while until a state is shown. -/
lemma appendo_silent (ha : a.hasWildcard = false) (hb : b.hasWildcard = false)
    (hc : c.hasWildcard = false) : Silent p 1 (Goal.call (.standard .appendo) [a, b, c]) := by
  refine .call (by simp [ha, hb, hc]) (appendo_goal a b c) (.disj2 ?_ (.freshNamed fun s => ?_))
  · exact (silent_call_zero _ _).conj2_left
  · exact (silent_call_zero _ _).conj2_left

lemma ends_empty (ha : a.hasWildcard = false) (b c : Term) :
    Ends p 1 (Goal.conj2 (Goal.call (.standard .emptyo) [a]) (Goal.eq b c)) :=
  .conj2 (.call (by simp [ha]) rfl (ends_eq .nil a)) (ends_eq b c)

lemma silent_pairs (hb : b.hasWildcard = false) : Silent p 1
    (Goal.freshNamed ["first", "rest", "rec"] fun
      | [f, r, q] => Goal.conj2 (Goal.call (.standard .conso) [.var f, .var r, a])
          (Goal.conj2 (Goal.call (.standard .conso) [.var f, .var q, c])
            (Goal.call (.standard .appendo) [.var r, b, .var q]))
      | _ => Goal.fail) :=
  .freshNamed fun _ => .conj2_right (.conj2_right (appendo_silent rfl hb rfl))

lemma emptyo (hs : s.Proper n) (ha : Known n a) :
    Splits p n (Goal.call (.standard .emptyo) [a]) s [fun θ => θ.apply a = .nil] := by
  have nil : Known n .nil := known_of_isGround rfl
  have decided := ((fixes_self (n := n) (s := s) (g := .nil) rfl).decided rfl hs nil ha).1
  refine (call (by simp [ha.1]) rfl (eq hs nil ha decided)).congr_one fun θ _ => ?_
  exact Term.nil_sameParts

lemma conso (hs : s.Proper n) (ha : Known n a) (hb : Known n b) (hc : Known n c)
    (decided : Decided s.subst (.pair a b) c) :
    Splits p n (Goal.call (.standard .conso) [a, b, c]) s
      [fun θ => Term.sameParts (.pair (θ.apply a) (θ.apply b)) (θ.apply c) = true] := by
  have pair : Known n (.pair a b) := by
    refine ⟨?_, Term.below_pair.mpr ⟨ha.2, hb.2⟩⟩
    rw [Term.hasWildcard, ha.1, hb.1]
    rfl
  exact call (by simp [ha.1, hb.1, hc.1]) rfl (eq hs pair hc decided)

/-- `a` is the pair of two variables that are free. -/
lemma conso_free {x y : Var} (hs : s.Proper n) (ha : Known n a) (hx : x.id < n) (hy : y.id < n)
    (freeX : s.Leaves n x.id) (freeY : s.Leaves n y.id) (apart : x.id ≠ y.id) (newX : x.id ∉ a.ids)
    (newY : y.id ∉ a.ids) : Splits p n (Goal.call (.standard .conso) [.var x, .var y, a]) s
      [fun θ => Term.sameParts (.pair (θ.value x.id) (θ.value y.id)) (θ.apply a) = true] := by
  have head : s.Ranges n (.wildcard 0) (.var x) (.pair (.var y) a) :=
    freeX.ranges (by simp [apart, newX]) 0
  have tail : s.Ranges n (.wildcard 1) (.var y) (.pair (.var x) a) :=
    freeY.ranges (by simp [apart.symm, newY]) 1
  have pair : Known n (.pair (.var x) (.var y)) :=
    ⟨rfl, Term.below_pair.mpr ⟨Term.below_var.mpr hx, Term.below_var.mpr hy⟩⟩
  exact conso hs (known_var hx) (known_var hy) ha ((head.pair tail).decided hs pair ha)

/-- What is known for each equation to be decided: the outcome, or the first list if there is an
outcome, or else that there is one for each length of the first list. -/
def Joins (n : Nat) (s : State) (a b c : Term) : Prop :=
  (∃ g, g.isGround = true ∧ s.Fixes n c g) ∨
    (∃ xs, (∀ x ∈ xs, x.isGround = true) ∧ s.Fixes n a (.ofList xs) ∧
      ∃ θ, s.Allows n θ ∧ Term.sameParts (.listThen xs (θ.apply b)) (θ.apply c) = true) ∨
    ∀ k, ∃ θ, s.Allows n θ ∧ Term.Joined k (θ.apply a) (θ.apply b) (θ.apply c)

/-- The values of `a` and `c` are the pairs of `u` with `v` and `w`. -/
def Pairs (a c : Term) (θ : Valuation) (u v w : Term) : Prop :=
  Term.sameParts (.pair u v) (θ.apply a) = true ∧ Term.sameParts (.pair u w) (θ.apply c) = true

lemma Pairs.congr {θ η : Valuation} {u v w : Term} (h : Pairs a c θ u v w)
    (agree : θ.AgreesBelow η n) (ha : Known n a) (hc : Known n c) : Pairs a c η u v w := by
  rwa [Pairs, agree.apply_eq ha.2, agree.apply_eq hc.2] at h

/-- In a state made from `s`, `a` and `c` are pairs with the same head, and `r` and `q` are new
variables for their tails. -/
def Tails (n : Nat) (s : State) (a c : Term) : Nat → Term → Term → State → Prop :=
  Opens n s fun θ v w => ∃ u : Term, u.isGround = true ∧ Pairs a c θ u v w

namespace Joins

variable {t : State} {P : Valuation → Prop}

/-- It decides whether the second list is the outcome, where the first one is empty. -/
lemma decided (h : Joins n s a b c) (hb : Known n b) (hc : Known n c)
    (ht : Narrows n (fun θ => θ.apply a = .nil) s t) : Decided t.subst b c := by
  rcases h with ⟨g, ground, known⟩ | ⟨xs, -, known, θ, hθ, join⟩ | far
  · exact ((ht.fixes known).decided ground ht.proper hc hb).2
  · cases xs with
    | nil =>
      have empty := Term.sameParts_nil.mp (known θ hθ)
      exact decided_of_allows ht.proper hb hc ((ht.allows_iff θ).mpr ⟨hθ, empty⟩) join
    | cons x xs =>
      obtain ⟨η, hη, empty⟩ := ht.exists_allows
      have nonempty := known η hη
      rw [empty] at nonempty
      cases nonempty
  · obtain ⟨θ, hθ, joined⟩ := far 0
    obtain ⟨empty, join⟩ := Term.joined_zero.mp joined
    exact decided_of_allows ht.proper hb hc ((ht.allows_iff θ).mpr ⟨hθ, empty⟩) join

/-- It decides what pair the outcome is, where the first list is one. -/
lemma decided_pair (h : Joins n s a b c) (hs : s.Proper n) (ha : Known n a) (hb : Known n b)
    (hc : Known n c) {f r q : Var} (hf : f.id = s.next) (hr : r.id = s.next + 1)
    (hq : q.id = s.next + 2)
    (ht : Narrows (s.next + 3) (fun θ =>
      Term.sameParts (.pair (θ.apply (.var f)) (θ.apply (.var r))) (θ.apply a) = true)
      (s.advance 3) t) : Decided t.subst (.pair (.var f) (.var q)) c := by
  have pair : Known (s.next + 3) (.pair (.var f) (.var q)) :=
    ⟨rfl, Term.below_pair.mpr ⟨Term.below_var.mpr (by omega), Term.below_var.mpr (by omega)⟩⟩
  have hc' := hs.known hc 3
  have old {u g : Term} (known : s.Fixes n u g) : t.Fixes (s.next + 3) u g :=
    ht.fixes fun θ hθ => known θ (hs.allows_of_fresh hθ)
  -- some items of the first list go with an outcome that begins with the first of them
  have of_join {θ : Valuation} {x : Term} {xs : List Term} (hθ : s.Allows n θ)
      (ground : ∀ u ∈ x :: xs, u.isGround = true)
      (list : Term.sameParts (.ofList (x :: xs)) (θ.apply a) = true)
      (join : Term.sameParts (.listThen (x :: xs) (θ.apply b)) (θ.apply c) = true) :
      Decided t.subst (.pair (.var f) (.var q)) c := by
    obtain ⟨first, later⟩ := List.forall_mem_cons.mp ground
    obtain ⟨η, agree, hη, values⟩ := hs.exists_fresh hθ
      ![x, .ofList xs, .listThen xs (θ.apply b)] (by
        simp [Fin.forall_fin_succ, first, Term.isGround_ofList.mpr later,
          Term.isGround_listThen.mpr ⟨later, θ.isGround_apply hb.1⟩])
    have atF : η.value f.id = x := hf ▸ congrFun values 0
    have atR : η.value r.id = .ofList xs := hr ▸ congrFun values 1
    have atQ : η.value q.id = .listThen xs (θ.apply b) := hq ▸ congrFun values 2
    refine decided_of_allows ht.proper pair hc' ((ht.allows_iff η).mpr ⟨hη, ?_⟩) ?_
    · rwa [Valuation.apply_var, Valuation.apply_var, atF, atR, ← agree.apply_eq ha.2]
    · rwa [Valuation.apply_pair, Valuation.apply_var, Valuation.apply_var, atF, atQ,
        ← agree.apply_eq hc.2]
  rcases h with ⟨g, ground, known⟩ | ⟨xs, ground, known, θ, hθ, join⟩ | far
  · exact ((old known).decided ground ht.proper hc' pair).2
  · cases xs with
    | nil =>
      obtain ⟨η, hη, equal⟩ := ht.exists_allows
      have empty := Term.sameParts_nil.mp (known η (hs.allows_of_fresh hη))
      rw [empty] at equal
      cases equal
    | cons x xs =>
      refine of_join hθ ground ?_ join
      rw [Term.sameParts_comm]
      exact known θ hθ
  · obtain ⟨θ, hθ, xs, length, ground, list, join⟩ := far 1
    obtain ⟨x, rfl⟩ := List.length_eq_one_iff.mp length
    exact of_join hθ ground list join

end Joins

namespace Tails

variable {m : Nat} {r q u d : Term} {t : State} (h : Tails n s a c m r q t)
include h

lemma fixes_left (known : s.Fixes n a (.pair u d)) : t.Fixes m r d := by
  intro θ hθ
  obtain ⟨hs, v, -, pair, -⟩ := h.allows θ hθ
  have same := Term.sameParts_trans pair (known θ hs)
  exact (Bool.and_eq_true_iff.mp same).2

lemma fixes_right (known : s.Fixes n c (.pair u d)) : t.Fixes m q d := by
  intro θ hθ
  obtain ⟨hs, v, -, -, pair⟩ := h.allows θ hθ
  have same := Term.sameParts_trans pair (known θ hs)
  exact (Bool.and_eq_true_iff.mp same).2

lemma left_ne_nil (known : s.Fixes n a .nil) : False := by
  obtain ⟨θ, hs, v, -, pair, -⟩ := h.exists_values
  exact Bool.false_ne_true (Term.sameParts_trans pair (known θ hs))

lemma items_ne_nil (known : s.Fixes n c g) : g.items ≠ [] := by
  obtain ⟨θ, hs, v, -, -, pair⟩ := h.exists_values
  obtain ⟨b, e, rfl, -⟩ := Term.pair_sameParts.mp (Term.sameParts_trans pair (known θ hs))
  exact List.cons_ne_nil _ _

end Tails

end Goal.Splits

end Relational
