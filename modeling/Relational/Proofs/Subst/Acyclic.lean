import Mathlib.Data.Finset.Card
import Mathlib.Logic.Relation
import Relational.Proofs.Subst.Growth
import Relational.Proofs.Term.Valuation
import Relational.Subst.Reify

/-!
Cycles in bindings. A cycle of variables bound to each other would hang every walk, a cycle
through larger terms only what reads a term to the bottom. Where there is no cycle, a variable
has a rank, the number of bindings below it, and the depths allowed for following bindings
suffice. Unification never makes a cycle of variables.
-/

open Relation (TransGen ReflTransGen)

namespace Relational.Term

lemma exists_replaceVars {f : Var → Option Term} {t : Term}
    (h : ∀ x ∈ t.vars, ∃ u, f x = some u) : ∃ u, t.replaceVars f = some u := by
  induction t with
  | var x => exact h x (by simp [vars])
  | pair a d iha ihd =>
    obtain ⟨a', ha⟩ := iha fun x hx => h x (by simp [vars, hx])
    obtain ⟨d', hd⟩ := ihd fun x hx => h x (by simp [vars, hx])
    exact ⟨_, by simp [replaceVars, ha, hd]; rfl⟩
  | succ p ih =>
    obtain ⟨p', hp⟩ := ih h
    exact ⟨_, by simp [replaceVars, hp]; rfl⟩
  | _ => exact ⟨_, rfl⟩

lemma id_mem_ids {t : Term} {x : Var} (h : x ∈ t.vars) : x.id ∈ t.ids := List.mem_map_of_mem h

end Relational.Term

namespace Relational.Subst

variable (s : Subst)

/-- Variable `i` is bound to a term in which variable `j` occurs. -/
def Leads (i j : Nat) : Prop := ∃ x t, x.id = i ∧ s.find? x = some t ∧ j ∈ t.ids

def Links (i j : Nat) : Prop := ∃ x y, x.id = i ∧ s.find? x = some (.var y) ∧ y.id = j

/-- No variable reaches itself through bindings. -/
def Acyclic : Prop := ∀ i, ¬TransGen s.Leads i i

/-- No variable reaches itself through bindings to variables. -/
def Straight : Prop := ∀ i, ¬TransGen s.Links i i

variable {s}

lemma Links.leads {i j : Nat} (h : s.Links i j) : s.Leads i j := by
  obtain ⟨x, y, rfl, hx, rfl⟩ := h
  exact ⟨x, _, rfl, hx, by simp⟩

lemma Acyclic.straight (h : s.Acyclic) : s.Straight :=
  fun i hi => h i (TransGen.mono (fun _ _ => Links.leads) i i hi)

/-! ### Ranks -/

/-- A number for each variable that falls along a relation. It bounds the number of bindings on
the way from the variable, itself included. -/
structure Rank (s : Subst) (R : Nat → Nat → Prop) where
  of : Nat → Nat
  falls {i j : Nat} (h : R i j) : of j < of i
  pos {x : Var} {t : Term} (h : s.find? x = some t) : 0 < of x.id
  le (i : Nat) : of i ≤ s.size

def bound (s : Subst) : Finset Nat := s.entries.keys.toFinset

lemma mem_bound {x : Var} {t : Term} (h : s.find? x = some t) : x.id ∈ s.bound := by
  have : s.has x = true := by rw [has_eq_isSome, h]; rfl
  simpa [bound, has, Std.TreeMap.mem_keys] using this

lemma card_bound_le (s : Subst) : s.bound.card ≤ s.size :=
  (List.toFinset_card_le _).trans (Std.TreeMap.length_keys).le

/-- A relation without cycles that only leaves bound variables has a rank: the number of bound
variables that can be reached. -/
theorem exists_rank {R : Nat → Nat → Prop}
    (hb : ∀ i j, R i j → ∃ x t, x.id = i ∧ s.find? x = some t)
    (hR : ∀ i, ¬TransGen R i i) : Nonempty (Rank s R) := by
  classical
  let below (i : Nat) : Finset Nat := s.bound.filter (ReflTransGen R i)
  have mem_self {x : Var} {t : Term} (h : s.find? x = some t) : x.id ∈ below x.id := by
    simp only [below, Finset.mem_filter]
    exact ⟨mem_bound h, .refl⟩
  refine ⟨⟨fun i => (below i).card, fun {i j} h => ?_, fun h => ?_, fun i => ?_⟩⟩
  · refine Finset.card_lt_card ⟨fun k hk => ?_, fun hsub => ?_⟩
    · simp only [below, Finset.mem_filter] at hk ⊢
      exact ⟨hk.1, .head h hk.2⟩
    · -- `i` itself is below `i`, and below `j` it would close a cycle
      obtain ⟨x, t, rfl, hx⟩ := hb i j h
      have := hsub (mem_self hx)
      simp only [below, Finset.mem_filter] at this
      exact hR _ (TransGen.head' h this.2)
  · exact Finset.card_pos.mpr ⟨_, mem_self h⟩
  · exact (Finset.card_filter_le _ _).trans (card_bound_le s)

lemma Straight.exists_rank (h : s.Straight) : Nonempty (Rank s s.Links) :=
  Subst.exists_rank (fun _ _ ⟨x, _, hi, hx, _⟩ => ⟨x, _, hi, hx⟩) h

lemma Acyclic.exists_rank (h : s.Acyclic) : Nonempty (Rank s s.Leads) :=
  Subst.exists_rank (fun _ _ ⟨x, _, hi, hx, _⟩ => ⟨x, _, hi, hx⟩) h

/-! ### Readings that end -/

lemma exists_walkWithin (r : Rank s s.Links) {k : Nat} {t : Term}
    (h : ∀ x, t = .var x → r.of x.id ≤ k) : ∃ u, s.walkWithin k t = some u := by
  fun_induction walkWithin s k t with
  | case1 => exact ⟨_, rfl⟩
  | case2 x t hx =>
    have := r.pos hx
    have := h x rfl
    omega
  | case3 x t k hx ih =>
    refine ih fun y hy => ?_
    have := r.falls ⟨x, y, rfl, hy ▸ hx, rfl⟩
    have := h x rfl
    omega
  | case4 => exact ⟨_, rfl⟩

theorem Straight.walk? (h : s.Straight) (t : Term) : ∃ u, s.walk? t = some u := by
  obtain ⟨r⟩ := h.exists_rank
  exact exists_walkWithin r fun x _ => r.le x.id

lemma exists_resolveWithin (r : Rank s s.Leads) {k : Nat} {t : Term}
    (h : ∀ i ∈ t.ids, r.of i ≤ k) : ∃ u, s.resolveWithin k t = some u := by
  induction k generalizing t with
  | zero =>
    refine Term.exists_replaceVars fun x hx => ?_
    have hle := h x.id (Term.id_mem_ids hx)
    have hopen : s.has x = false := by
      rw [has_eq_isSome]
      rcases hf : s.find? x with _ | u
      · rfl
      · have := r.pos hf; omega
    simp [hopen]
  | succ k ih =>
    refine Term.exists_replaceVars fun x hx => ?_
    have hle := h x.id (Term.id_mem_ids hx)
    rcases hf : s.find? x with _ | u
    · exact ⟨_, rfl⟩
    · refine ih fun j hj => ?_
      have := r.falls ⟨x, u, rfl, hf, hj⟩
      omega

theorem Acyclic.resolve? (h : s.Acyclic) (t : Term) : ∃ u, s.resolve? t = some u := by
  obtain ⟨r⟩ := h.exists_rank
  exact exists_resolveWithin r fun i _ => r.le i

def Placed (s : Subst) : Prop := ∀ x t, s.find? x = some t → ∃ n, t = .placeholder n

lemma placed_empty : Placed empty := by intro x t hx; simp at hx

lemma Placed.extend (h : s.Placed) (x : Var) (n : Nat) : (s.extend x (.placeholder n)).Placed := by
  intro y t hy
  rw [find?_extend] at hy
  split at hy
  · cases hy; exact ⟨n, rfl⟩
  · exact h y t hy

lemma Placed.acyclic (h : s.Placed) : s.Acyclic := by
  intro i hi
  obtain ⟨j, ⟨x, t, -, hx, hj⟩, -⟩ := TransGen.head'_iff.mp hi
  obtain ⟨n, rfl⟩ := h x t hx
  simp [Term.ids, Term.vars] at hj

lemma Placed.placeWithin (h : s.Placed) (k : Nat) (t : Term) :
    ∃ s', placeWithin (k + 1) s t = some s' ∧ s'.Placed := by
  simp only [Subst.placeWithin]
  induction t.vars generalizing s with
  | nil => exact ⟨s, rfl, h⟩
  | cons x xs ih =>
    rw [List.foldlM_cons]
    rcases hf : s.find? x with _ | u
    · exact ih (h.extend x s.size)
    · obtain ⟨n, rfl⟩ := h x u hf
      have stays : Subst.placeWithin k s (.placeholder n) = some s := by
        cases k <;> rfl
      simp only [stays]
      exact ih h

theorem Acyclic.reify? (h : s.Acyclic) (t : Term) : ∃ u, s.reify? t = some u := by
  obtain ⟨u, hu⟩ := h.resolve? t
  obtain ⟨names, hn, placed⟩ := placed_empty.placeWithin 0 u
  obtain ⟨w, hw⟩ := placed.acyclic.resolve? u
  have hp : empty.place? u = some names := hn
  exact ⟨w, by simp [Subst.reify?, hu, hp, hw]⟩

/-! ### Bindings that keep chains straight -/

/-- A variable bound to a larger term, or to another variable that is open, closes no chain. -/
lemma Straight.extend (h : s.Straight) {x : Var} {t : Term}
    (ht : ∀ y, t = .var y → x.id ≠ y.id ∧ s.find? y = none) : (s.extend x t).Straight := by
  -- a new link starts at `x` and ends at an open variable, so no path goes on from there
  have old_or_new : ∀ i j, (s.extend x t).Links i j →
      s.Links i j ∨ i = x.id ∧ ∃ y, t = .var y ∧ y.id = j := by
    rintro _ _ ⟨z, y, rfl, hz, rfl⟩
    rw [find?_extend] at hz
    split at hz
    · cases hz; exact .inr ⟨by omega, y, rfl, rfl⟩
    · exact .inl ⟨z, y, rfl, hz, rfl⟩
  have no_way_on : ∀ y k, t = .var y → ¬(s.extend x t).Links y.id k := by
    intro y k hty hl
    obtain ⟨hne, hy⟩ := ht y hty
    rcases old_or_new _ _ hl with ⟨z, w, hzy, hz, -⟩ | ⟨hyx, -⟩
    · rw [find?_congr hzy, hy] at hz; cases hz
    · exact hne hyx.symm
  have path : ∀ i j, TransGen (s.extend x t).Links i j →
      TransGen s.Links i j ∨ ∃ y, t = .var y ∧ y.id = j := by
    intro i j hij
    induction hij with
    | single hl => exact (old_or_new _ _ hl).imp .single And.right
    | tail _ hl ih =>
      rcases ih with ih | ⟨y, hty, rfl⟩
      · exact (old_or_new _ _ hl).imp ih.tail And.right
      · exact absurd hl (no_way_on y _ hty)
  intro i hi
  rcases path i i hi with hp | ⟨y, hty, rfl⟩
  · exact h i hp
  · obtain ⟨k, hl, -⟩ := TransGen.head'_iff.mp hi
    exact no_way_on y k hty hl

lemma Grows.straight {C : Term → Prop} {t : Subst} (h : Grows C s t) (hs : s.Straight) :
    t.Straight := by
  induction h with
  | refl => exact hs
  | bind _ _ _ _ apart ih => exact ih.extend apart

lemma Grows.straight_before {C : Term → Prop} {t : Subst} (h : Grows C s t) (ht : t.Straight) :
    s.Straight :=
  fun i hi => ht i (TransGen.mono
    (fun _ _ ⟨x, y, hx, hb, hy⟩ => ⟨x, y, hx, h.kept hb, hy⟩) i i hi)

/-- Unification makes no cycle of variables. -/
lemma Unifies.straight {u v : Term} {r : Option Subst} (h : Unifies s u v r)
    (hs : s.Straight) (t : Subst) (ht : r = some t) : t.Straight := by
  subst ht
  exact h.adds.straight hs

end Relational.Subst
