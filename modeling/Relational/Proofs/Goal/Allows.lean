import Relational.Proofs.Goal.Search
import Relational.Proofs.Subst.Clash

/-!
What a state says of the variables in scope: the values that it allows them. Which variables a
search has made on the way is left out. The states here have a counter that never starts again,
so that new variables can have any values beside those of the others.
-/

namespace Relational

open Subst

variable {m n : Nat} {s : State} {θ η : Valuation}

namespace Valuation

lemma AgreesBelow.symm (h : θ.AgreesBelow η n) : η.AgreesBelow θ n := fun i hi => (h i hi).symm

def set (θ : Valuation) (i : Nat) (t : Term) (ht : t.isGround = true) : Valuation where
  value j := if j = i then t else θ.value j
  ground j := by
    split
    · exact ht
    · exact θ.ground j

lemma value_set {i : Nat} {t : Term} {ht : t.isGround = true} : (θ.set i t ht).value i = t :=
  if_pos rfl

lemma value_set_of_ne {i j : Nat} {t : Term} {ht : t.isGround = true} (h : j ≠ i) :
    (θ.set i t ht).value j = θ.value j := if_neg h

end Valuation

lemma Term.ids_of_isGround {t : Term} (h : t.isGround = true) : t.ids = [] := by
  induction t with
  | pair a d iha ihd =>
    rw [Term.isGround, Bool.and_eq_true] at h
    rw [Term.ids_pair, iha h.1, ihd h.2]
    rfl
  | succ p ih => exact ih h
  | var x => cases h
  | _ => rfl

namespace Subst

lemma known_of_isGround {n : Nat} {t : Term} (h : t.isGround = true) : Known n t :=
  ⟨Term.hasWildcard_of_isGround h, by simp [Term.Below, Term.ids_of_isGround h]⟩

lemma known_var {x : Var} (h : x.id < n) : Known n (.var x) := ⟨rfl, Term.below_var.mpr h⟩

lemma Known.mono {t : Term} (h : Known m t) (hmn : m ≤ n) : Known n t := ⟨h.1, h.2.mono hmn⟩

end Subst

def Var.numbered (n : Nat) (names : List String) : List Var :=
  (List.range names.length).map fun i => ⟨n + i, names[i]?⟩

namespace State

lemma freshVars_of_room {names : List String} (room : s.HasRoom (names.length - 1)) :
    (s.freshVars names.length (some names)).1 = Var.numbered s.next names :=
  List.map_congr_left fun i hi => by
    rw [number_of_room room (Nat.le_pred_of_lt (List.mem_range.mp hi))]
    rfl

/-! ### What a state allows -/

/-- The variables below `n` can have these values. -/
def Allows (n : Nat) (s : State) (θ : Valuation) : Prop :=
  ∃ η : Valuation, θ.AgreesBelow η n ∧ η.Solves s.subst

lemma allows_of_solves (h : θ.Solves s.subst) : s.Allows n θ := ⟨θ, .refl, h⟩

lemma allows_iff_exists (hmn : m ≤ n) :
    s.Allows m θ ↔ ∃ η, θ.AgreesBelow η m ∧ s.Allows n η := by
  constructor
  · rintro ⟨η, agree, solves⟩
    exact ⟨η, agree, allows_of_solves solves⟩
  · rintro ⟨η, agree, ζ, agree', solves⟩
    exact ⟨ζ, agree.trans agree' hmn, solves⟩

/-- The state is in order, has the variables below `n` in use, and never runs out of others. -/
structure Proper (n : Nat) (s : State) : Prop where
  endless : s.cycle = 0
  tidy : s.Tidy
  acyclic : s.subst.Acyclic
  scope : n ≤ s.next

lemma Proper.exists_allows (hs : s.Proper n) : ∃ θ, s.Allows n θ := by
  obtain ⟨θ, solves⟩ := hs.acyclic.exists_solves hs.tidy.wildcardFree
  exact ⟨θ, allows_of_solves solves⟩

lemma proper_boundless (n : Nat) : (boundless n).Proper n where
  endless := rfl
  tidy := tidy_of_empty rfl
  acyclic := placed_empty.acyclic
  scope := Nat.le_refl n

lemma allows_boundless (n m : Nat) (θ : Valuation) : (boundless m).Allows n θ :=
  allows_of_solves fun x t h => by rw [find?_of_empty rfl] at h; cases h

lemma Proper.hasRoom (hs : s.Proper n) (k : Nat) : s.HasRoom k := .inl hs.endless

lemma Proper.number (hs : s.Proper n) (k : Nat) : s.number k = s.next + k :=
  number_of_room (hs.hasRoom k) (Nat.le_refl k)

/-- New variables are in scope inside of a binder, with nothing said of them yet. -/
lemma Proper.fresh (hs : s.Proper n) (k : Nat) : (s.advance k).Proper (s.next + k) where
  endless := hs.endless
  tidy := (hs.tidy.advance (hs.hasRoom k)).tidy
  acyclic := hs.acyclic
  scope := Nat.le_of_eq (hs.number k).symm

lemma Proper.exists_fresh (hs : s.Proper n) {k : Nat} (hθ : s.Allows n θ) (vs : Fin k → Term)
    (ground : ∀ j, (vs j).isGround = true) : ∃ η : Valuation, θ.AgreesBelow η n ∧
      (s.advance k).Allows (s.next + k) η ∧
      (fun j : Fin k => η.value (s.next + j)) = vs := by
  obtain ⟨ζ, agree, solves⟩ := hθ
  have all : ∀ v ∈ List.ofFn vs, v.isGround = true := by simpa [List.mem_ofFn] using ground
  have same : ζ.AgreesBelow (ζ.change s.next (List.ofFn vs) all) s.next :=
    Valuation.agreesBelow_change
  refine ⟨_, agree.trans same hs.scope, allows_of_solves (solves.change hs.tidy.below same), ?_⟩
  funext j
  rw [Valuation.value_change (by simp)]
  simp

lemma Proper.known (hs : s.Proper n) {a : Term} (ha : Known n a) (k : Nat) : Known (s.next + k) a :=
  ha.mono (Nat.le_trans hs.scope (Nat.le_add_right _ k))

lemma Proper.allows_of_fresh (hs : s.Proper n) {k : Nat}
    (h : (s.advance k).Allows (s.next + k) θ) : s.Allows n θ := by
  obtain ⟨η, agree, solves⟩ := h
  exact ⟨η, fun i hi => agree i (Nat.lt_of_lt_of_le hi (Nat.le_add_right_of_le hs.scope)), solves⟩

lemma Proper.notMem (hs : s.Proper n) {a : Term} (ha : Known n a) {i : Nat} (hi : s.next ≤ i) :
    i ∉ a.ids :=
  fun h => Nat.lt_irrefl i (Nat.lt_of_lt_of_le (ha.2 i h) (Nat.le_trans hs.scope hi))

lemma Proper.apply_eq (hs : s.Proper n) {a : Term} (ha : Known n a) {i k : Nat} (hi : s.next ≤ i)
    (same : ∀ j < s.next + k, j ≠ i → θ.value j = η.value j) : θ.apply a = η.apply a := by
  refine Valuation.apply_congr fun j hj => same j ?_ ?_
  · exact (hs.known ha k).2 j hj
  · rintro rfl
    exact hs.notMem ha hi hj

/-! ### Equations that are decided -/

/-- Whatever the value of the variable `i`, the state allows it beside the values of the others. -/
def Leaves (n : Nat) (s : State) (i : Nat) : Prop :=
  ∀ θ η : Valuation, s.Allows n θ → (∀ j < n, j ≠ i → θ.value j = η.value j) → s.Allows n η

lemma leaves_fresh (hs : s.Proper n) {k i : Nat} (hi : s.next ≤ i) :
    (s.advance k).Leaves (s.next + k) i := by
  rintro θ η ⟨ζ, agree, solves⟩ same
  refine allows_of_solves (solves.change hs.tidy.below fun j hj => ?_)
  rw [← agree j (by omega), same j (by omega) (by omega)]

/-- The term `u` has values of the shape `g`, and any of them whatever the value of `v` is. -/
structure Ranges (n : Nat) (s : State) (g u v : Term) : Prop where
  fills (θ : Valuation) (h : s.Allows n θ) :
    ∃ w, g.Fills w ∧ Term.sameParts (θ.apply u) w = true
  free (θ : Valuation) (h : s.Allows n θ) (w : Term) (hw : g.Fills w) : ∃ η, s.Allows n η ∧
    Term.sameParts (η.apply u) w = true ∧ Term.sameParts (η.apply v) (θ.apply v) = true

lemma Leaves.exists_value {i : Nat} (hi : s.Leaves n i) {v : Term} (hv : i ∉ v.ids)
    (hθ : s.Allows n θ) {w : Term} (hw : w.isGround = true) :
    ∃ η, s.Allows n η ∧ η.value i = w ∧ η.apply v = θ.apply v := by
  have others : ∀ j, j ≠ i → θ.value j = (θ.set i w hw).value j :=
    fun j hj => (Valuation.value_set_of_ne hj).symm
  refine ⟨θ.set i w hw, hi θ _ hθ fun j _ => others j, Valuation.value_set, ?_⟩
  exact (Valuation.apply_congr fun j hj => others j fun h => hv (h ▸ hj)).symm

lemma Leaves.ranges {x : Var} (hx : s.Leaves n x.id) {v : Term} (hv : x.id ∉ v.ids) (place : Nat) :
    Ranges n s (.wildcard place) (.var x) v where
  fills θ _ := ⟨_, .wildcard (θ.ground x.id), Term.sameParts_refl _⟩
  free θ hθ w hw := by
    obtain ⟨η, hη, rfl, same⟩ := hx.exists_value hv hθ hw.isGround
    exact ⟨η, hη, Term.sameParts_refl _, same ▸ Term.sameParts_refl _⟩

def Fixes (n : Nat) (s : State) (u g : Term) : Prop :=
  ∀ θ : Valuation, s.Allows n θ → Term.sameParts (θ.apply u) g = true

lemma fixes_self {g : Term} (hg : g.isGround = true) : s.Fixes n g g := fun θ _ => by
  rw [θ.apply_of_isGround hg]
  exact Term.sameParts_refl g

lemma Fixes.sameParts_iff {g u : Term} (h : s.Fixes n u g) (hθ : s.Allows n θ) (t : Term) :
    Term.sameParts t (θ.apply u) = true ↔ Term.sameParts t g = true := by
  refine ⟨fun same => Term.sameParts_trans same (h θ hθ), fun same => ?_⟩
  have back : Term.sameParts g (θ.apply u) = true := by
    rw [Term.sameParts_comm]
    exact h θ hθ
  exact Term.sameParts_trans same back

lemma Fixes.ranges {g u v : Term} (h : s.Fixes n u g) (hg : g.isGround = true) :
    Ranges n s g u v where
  fills θ hθ := ⟨g, Term.fills_self hg, h θ hθ⟩
  free θ hθ w hw := by
    rw [hw.eq_of_isGround hg]
    exact ⟨θ, hθ, h θ hθ, Term.sameParts_refl _⟩

namespace Ranges

variable {g g' u u' v : Term}

lemma succ (h : Ranges n s g u v) : Ranges n s (.succ g) (.succ u) v where
  fills θ hθ := by
    obtain ⟨w, hg, hw⟩ := h.fills θ hθ
    exact ⟨.succ w, .succ hg, hw⟩
  free θ hθ w hw := by
    obtain ⟨w, rfl, hg⟩ := Subst.Ranges.exists_of_succ hw
    exact h.free θ hθ w hg

/-- A pair has the values that its parts have, if the head does not depend on the tail. -/
lemma pair (h : Ranges n s g u (.pair u' v)) (h' : Ranges n s g' u' (.pair u v)) :
    Ranges n s (.pair g g') (.pair u u') v where
  fills θ hθ := by
    obtain ⟨w, hg, hw⟩ := h.fills θ hθ
    obtain ⟨w', hg', hw'⟩ := h'.fills θ hθ
    exact ⟨.pair w w', .pair hg hg', by simp [Term.sameParts, hw, hw']⟩
  free θ hθ w hw := by
    obtain ⟨a, d, rfl, hg, hg'⟩ := Subst.Ranges.exists_of_pair hw
    obtain ⟨η, hη, head, others⟩ := h.free θ hθ a hg
    obtain ⟨ζ, hζ, tail, others'⟩ := h'.free η hη d hg'
    simp only [Valuation.apply_pair, Term.sameParts, Bool.and_eq_true] at others others' ⊢
    exact ⟨ζ, hζ, ⟨Term.sameParts_trans others'.1 head, tail⟩,
      Term.sameParts_trans others'.2 others.2⟩

/-- An equation is decided if one side ranges over the values of a shape. -/
lemma decided (h : Ranges n s g u v) (hs : s.Proper n) (hu : Known n u) (hv : Known n v) :
    Decided s.subst u v := by
  have ranges : Subst.Ranges s.subst g u v := by
    refine ⟨fun hθ => h.fills _ (allows_of_solves hθ), fun hθ w hw => ?_⟩
    obtain ⟨η, ⟨ζ, agree, solves⟩, hηu, hηv⟩ := h.free _ (allows_of_solves hθ) w hw
    rw [agree.apply_eq hu.2] at hηu
    rw [agree.apply_eq hv.2] at hηv
    exact ⟨ζ, solves, hηu, hηv⟩
  exact ranges.decided hs.acyclic ⟨hs.tidy.wildcardFree, hu.1, hv.1⟩

end Ranges

/-- An equation is decided if the value of one side is fixed. -/
lemma Fixes.decided {g u v : Term} (h : s.Fixes n u g) (hg : g.isGround = true)
    (hs : s.Proper n) (hu : Known n u) (hv : Known n v) :
    Decided s.subst u v ∧ Decided s.subst v u := by
  have here := (h.ranges hg).decided hs hu hv
  exact ⟨here, here.swap ⟨hs.tidy.wildcardFree, hu.1, hv.1⟩⟩

lemma decided_of_allows (hs : s.Proper n) {u v : Term} (hu : Known n u) (hv : Known n v)
    (hθ : s.Allows n θ) (equal : Term.sameParts (θ.apply u) (θ.apply v) = true) :
    Decided s.subst u v := by
  obtain ⟨η, agree, solves⟩ := hθ
  rw [agree.apply_eq hu.2, agree.apply_eq hv.2] at equal
  exact decided_of_solves hs.acyclic ⟨hs.tidy.wildcardFree, hu.1, hv.1⟩ solves equal

end State

end Relational
