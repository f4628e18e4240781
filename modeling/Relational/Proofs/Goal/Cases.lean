import Relational.Proofs.Goal.Allows

/-!
Cases. A state narrows another to a case if it allows just the values of that case. The states
that a search leaves are branches of the one it started from if there is one for each case that
can be, and no other.
-/

namespace Relational

open scoped List
open Subst

variable {ι : Type} {m n : Nat} {s t r : State} {θ : Valuation} {P Q : Valuation → Prop}

namespace State

/-- The state `t` allows what `s` does in one case. -/
structure Narrows (n : Nat) (P : Valuation → Prop) (s t : State) : Prop where
  proper : t.Proper n
  allows_iff (θ : Valuation) : t.Allows n θ ↔ s.Allows n θ ∧ P θ

lemma Narrows.exists_allows (h : Narrows n P s t) : ∃ θ, s.Allows n θ ∧ P θ := by
  obtain ⟨θ, hθ⟩ := h.proper.exists_allows
  exact ⟨θ, (h.allows_iff θ).mp hθ⟩

lemma Narrows.trans (h : Narrows n P s t) (h' : Narrows n Q t r) :
    Narrows n (fun θ => P θ ∧ Q θ) s r :=
  ⟨h'.proper, fun θ => by rw [h'.allows_iff, h.allows_iff, and_assoc]⟩

lemma Narrows.fixes {u g : Term} (h : Narrows n P s t) (hu : s.Fixes n u g) :
    t.Fixes n u g := fun θ hθ => hu θ ((h.allows_iff θ).mp hθ).1

lemma Narrows.leaves (h : Narrows n P s t) {i : Nat} (hi : s.Leaves n i)
    (hP : ∀ θ η : Valuation, (∀ j < n, j ≠ i → θ.value j = η.value j) → P θ → P η) :
    t.Leaves n i := by
  intro θ η hθ same
  rw [h.allows_iff] at hθ ⊢
  exact ⟨hi θ η hθ.1 same, hP θ η same hθ.2⟩

lemma Narrows.ranges {g v : Term} {x : Var}
    (h : Narrows n (fun θ => g.Fills (θ.apply (.var x))) s t) (hx : s.Leaves n x.id)
    (hv : x.id ∉ v.ids) : Ranges n t g (.var x) v where
  fills θ hθ := ⟨_, ((h.allows_iff θ).mp hθ).2, Term.sameParts_refl _⟩
  free θ hθ w hw := by
    obtain ⟨η, hη, rfl, same⟩ := hx.exists_value hv ((h.allows_iff θ).mp hθ).1 hw.isGround
    exact ⟨η, (h.allows_iff η).mpr ⟨hη, hw⟩, Term.sameParts_refl _, same ▸ Term.sameParts_refl _⟩

/-- The state `t` is made from `s` in a larger scope, of which `x` and `y` can have any values that
`P` allows them beside those of the variables in scope before. -/
structure Opens (n : Nat) (s : State) (P : Valuation → Term → Term → Prop) (m : Nat) (x y : Term)
    (t : State) : Prop where
  proper : t.Proper m
  scope : n ≤ m
  left : Known m x
  right : Known m y
  allows (θ : Valuation) (h : t.Allows m θ) : s.Allows n θ ∧ P θ (θ.apply x) (θ.apply y)
  exists_allows (θ : Valuation) (h : s.Allows n θ) (v w : Term) (hv : v.isGround = true)
    (hw : w.isGround = true) (here : P θ v w) :
    ∃ η, t.Allows m η ∧ θ.AgreesBelow η n ∧ η.apply x = v ∧ η.apply y = w

namespace Opens

variable {P : Valuation → Term → Term → Prop} {x y u g : Term}

lemma known (h : Opens n s P m x y t) (hu : Known n u) : Known m u := hu.mono h.scope

lemma fixes (h : Opens n s P m x y t) (hu : s.Fixes n u g) : t.Fixes m u g :=
  fun θ hθ => hu θ (h.allows θ hθ).1

lemma exists_values (h : Opens n s P m x y t) :
    ∃ θ, s.Allows n θ ∧ P θ (θ.apply x) (θ.apply y) := by
  obtain ⟨θ, hθ⟩ := h.proper.exists_allows
  exact ⟨θ, h.allows θ hθ⟩

end Opens

/-- Two of `k` new variables, in a state where `Q` is said of all of them. -/
lemma Narrows.opens {k : Nat} {Q : Valuation → (Fin k → Term) → Prop}
    {P : Valuation → Term → Term → Prop} {x y : Var} (hs : s.Proper n)
    (ht : Narrows (s.next + k) (fun θ => Q θ fun l => θ.value (s.next + l)) (s.advance k) t) (i j : Fin k) (hx : x.id = s.next + i) (hy : y.id = s.next + j)
    (hQ : ∀ θ η : Valuation, θ.AgreesBelow η n → ∀ vs, Q θ vs → Q η vs)
    (sound : ∀ θ vs, (∀ l, (vs l).isGround = true) → Q θ vs → P θ (vs i) (vs j))
    (complete : ∀ θ v w, v.isGround = true → w.isGround = true → P θ v w →
      ∃ vs, (∀ l, (vs l).isGround = true) ∧ Q θ vs ∧ vs i = v ∧ vs j = w) :
    Opens n s P (s.next + k) (.var x) (.var y) t where
  proper := ht.proper
  scope := Nat.le_trans hs.scope (Nat.le_add_right _ k)
  left := known_var (by omega)
  right := known_var (by omega)
  allows θ h := by
    obtain ⟨fresh, here⟩ := (ht.allows_iff θ).mp h
    rw [Valuation.apply_var, Valuation.apply_var, hx, hy]
    exact ⟨hs.allows_of_fresh fresh, sound θ _ (fun l => θ.ground _) here⟩
  exists_allows θ h v w hv hw here := by
    obtain ⟨vs, ground, all, atI, atJ⟩ := complete θ v w hv hw here
    obtain ⟨η, agree, hη, rfl⟩ := hs.exists_fresh h vs ground
    refine ⟨η, (ht.allows_iff η).mpr ⟨hη, hQ θ η agree _ all⟩, agree, ?_, ?_⟩
    · rw [Valuation.apply_var, hx, ← atI]
    · rw [Valuation.apply_var, hy, ← atJ]

/-- There is a state for each case that can be. -/
inductive Branches (n : Nat) (s : State) : List (Valuation → Prop) → List State → Prop
  | nil : Branches n s [] []
  | open {P : Valuation → Prop} {Ps : List (Valuation → Prop)} {t : State} {ts : List State}
      (ht : Narrows n P s t) (hts : Branches n s Ps ts) : Branches n s (P :: Ps) (t :: ts)
  | closed {P : Valuation → Prop} {Ps : List (Valuation → Prop)} {ts : List State}
      (hP : ∀ θ, s.Allows n θ → ¬P θ) (hts : Branches n s Ps ts) : Branches n s (P :: Ps) ts

namespace Branches

variable {Ps Qs : List (Valuation → Prop)} {ts us : List State} {is : List ι}

lemma append (h : Branches n s Ps ts) (h' : Branches n s Qs us) :
    Branches n s (Ps ++ Qs) (ts ++ us) := by
  induction h with
  | nil => exact h'
  | «open» ht _ ih => exact .open ht ih
  | closed hP _ ih => exact .closed hP ih

/-- Cases are replaced by others that are left by the same states. -/
lemma replace (h : Branches m r Ps ts) (hPQ : List.Forall₂ (fun P Q =>
    (∀ t, Narrows m P r t → Narrows n Q s t) ∧
      ((∀ θ, r.Allows m θ → ¬P θ) → ∀ θ, s.Allows n θ → ¬Q θ)) Ps Qs) : Branches n s Qs ts := by
  induction h generalizing Qs with
  | nil => cases hPQ; exact .nil
  | «open» ht _ ih =>
    cases hPQ with
    | cons here later => exact .open (here.1 _ ht) (ih later)
  | closed hP _ ih =>
    cases hPQ with
    | cons here later => exact .closed (here.2 hP) (ih later)

lemma congr (h : Branches n s Ps ts)
    (hPQ : List.Forall₂ (fun P Q => ∀ θ, s.Allows n θ → (P θ ↔ Q θ)) Ps Qs) :
    Branches n s Qs ts := by
  refine h.replace (hPQ.imp fun P Q same => ⟨fun t ht => ⟨ht.proper, fun θ => ?_⟩, ?_⟩)
  · exact (ht.allows_iff θ).trans (and_congr_right (same θ))
  · exact fun hP θ hθ => mt (same θ hθ).mpr (hP θ hθ)

/-- Cases may be seen from another state and a smaller scope, if they allow the same there. -/
lemma transfer {P Q : ι → Valuation → Prop} (h : Branches m r (is.map P) ts) (hnm : n ≤ m)
    (hPQ : ∀ i ∈ is, ∀ θ, s.Allows n θ ∧ Q i θ ↔
      ∃ η, θ.AgreesBelow η n ∧ r.Allows m η ∧ P i η) : Branches n s (is.map Q) ts := by
  refine h.replace ?_
  rw [List.forall₂_map_left_iff, List.forall₂_map_right_iff, List.forall₂_same]
  refine fun i hi => ⟨fun t ht => ?_, fun hP θ hθ hQ => ?_⟩
  · refine ⟨{ht.proper with scope := hnm.trans ht.proper.scope}, fun θ => ?_⟩
    rw [allows_iff_exists hnm, hPQ i hi]
    exact exists_congr fun η => and_congr_right fun _ => ht.allows_iff η
  · obtain ⟨η, -, hη, here⟩ := (hPQ i hi θ).mp ⟨hθ, hQ⟩
    exact hP η hη here

/-- Outside of the scope of `k` new variables there are some values for them. -/
lemma fresh {k : Nat} {F : ι → Valuation → (Fin k → Term) → Prop} (hs : s.Proper n)
    (hF : ∀ i ∈ is, ∀ θ η : Valuation, θ.AgreesBelow η n → ∀ vs, F i θ vs → F i η vs)
    (h : Branches (s.next + k) (s.advance k)
      (is.map fun i θ => F i θ fun j => θ.value (s.next + j)) ts) :
    Branches n s
      (is.map fun i θ => ∃ vs : Fin k → Term, (∀ j, (vs j).isGround = true) ∧ F i θ vs) ts := by
  refine h.transfer (Nat.le_trans hs.scope (Nat.le_add_right _ _)) fun i hi θ => ⟨?_, ?_⟩
  · rintro ⟨hθ, vs, ground, here⟩
    obtain ⟨η, agree, hη, values⟩ := hs.exists_fresh hθ vs ground
    refine ⟨η, agree, hη, ?_⟩
    rw [values]
    exact hF i hi _ _ agree vs here
  · rintro ⟨η, agree, ⟨ζ, agree', solves⟩, here⟩
    refine ⟨⟨ζ, ?_, solves⟩, _, fun j => η.ground _, hF i hi _ _ agree.symm _ here⟩
    exact agree.trans agree' (Nat.le_trans hs.scope (Nat.le_add_right _ _))

lemma within (h : Narrows n P s t) (ht : Branches n t Ps us) :
    Branches n s (Ps.map fun Q θ => P θ ∧ Q θ) us := by
  refine ht.replace ?_
  rw [List.forall₂_map_right_iff, List.forall₂_same]
  refine fun Q _ => ⟨fun u hu => h.trans hu, fun hQ θ hθ here => ?_⟩
  exact hQ θ ((h.allows_iff θ).mpr ⟨hθ, here.1⟩) here.2

lemma of_closed (h : ∀ P ∈ Ps, ∀ θ, s.Allows n θ → ¬P θ) : Branches n s Ps [] := by
  induction Ps with
  | nil => exact .nil
  | cons P Ps ih =>
    obtain ⟨here, later⟩ := List.forall_mem_cons.mp h
    exact .closed here (ih later)

lemma drop (h : Branches n s (P :: Ps) ts) (hP : ∀ θ, s.Allows n θ → ¬P θ) :
    Branches n s Ps ts := by
  cases h with
  | «open» ht _ =>
    obtain ⟨θ, hθ, here⟩ := ht.exists_allows
    exact absurd here (hP θ hθ)
  | closed _ hts => exact hts

lemma eq_nil (h : Branches n s Ps ts) (hP : ∀ P ∈ Ps, ∀ θ, s.Allows n θ → ¬P θ) : ts = [] := by
  induction Ps generalizing ts with
  | nil => cases h; rfl
  | cons P Ps ih =>
    obtain ⟨here, later⟩ := List.forall_mem_cons.mp hP
    exact ih (h.drop here) later

lemma filter {P : ι → Valuation → Prop} (h : Branches n s (is.map P) ts) (q : ι → Bool)
    (hq : ∀ i ∈ is, q i = false → ∀ θ, s.Allows n θ → ¬P i θ) :
    Branches n s ((is.filter q).map P) ts := by
  induction is generalizing ts with
  | nil => exact h
  | cons i is ih =>
    obtain ⟨here, later⟩ := List.forall_mem_cons.mp hq
    rw [List.map_cons] at h
    rcases hi : q i with _ | _
    · rw [List.filter_cons_of_neg (by simp [hi])]
      exact ih (h.drop (here hi)) later
    · rw [List.filter_cons_of_pos hi, List.map_cons]
      cases h with
      | «open» ht hts => exact .open ht (ih hts later)
      | closed hP hts => exact .closed hP (ih hts later)

lemma one_cases (h : Branches n s [P] ts) : (∃ t, ts = [t] ∧ Narrows n P s t) ∨
    ts = [] ∧ ∀ θ, s.Allows n θ → ¬P θ := by
  cases h with
  | «open» ht hts => cases hts; exact .inl ⟨_, rfl, ht⟩
  | closed hP hts => cases hts; exact .inr ⟨rfl, hP⟩

lemma forall₂ {P : ι → Valuation → Prop} (h : Branches n s (is.map P) ts)
    (can : ∀ i ∈ is, ∃ θ, s.Allows n θ ∧ P i θ) :
    List.Forall₂ (fun i t => Narrows n (P i) s t) is ts := by
  induction is generalizing ts with
  | nil => cases h; exact .nil
  | cons i is ih =>
    obtain ⟨⟨θ, hθ, here⟩, later⟩ := List.forall_mem_cons.mp can
    rw [List.map_cons] at h
    cases h with
    | «open» ht hts => exact .cons ht (ih hts later)
    | closed hP _ => exact absurd here (hP θ hθ)

lemma perm (h : Branches n s Ps ts) (hP : Ps ~ Qs) : ∃ us, ts ~ us ∧ Branches n s Qs us := by
  induction hP generalizing ts with
  | nil => exact ⟨ts, .refl ts, h⟩
  | cons P _ ih =>
    cases h with
    | «open» ht hts =>
      obtain ⟨us, order, hus⟩ := ih hts
      exact ⟨_, order.cons _, .open ht hus⟩
    | closed hP hts =>
      obtain ⟨us, order, hus⟩ := ih hts
      exact ⟨us, order, .closed hP hus⟩
  | swap P Q _ =>
    cases h with
    | «open» ht hts =>
      cases hts with
      | «open» hu hus => exact ⟨_, .swap _ _ _, .open hu (.open ht hus)⟩
      | closed hP hus => exact ⟨_, .refl _, .closed hP (.open ht hus)⟩
    | closed hQ hts =>
      cases hts with
      | «open» hu hus => exact ⟨_, .refl _, .open hu (.closed hQ hus)⟩
      | closed hP hus => exact ⟨_, .refl _, .closed hP (.closed hQ hus)⟩
  | trans _ _ ih ih' =>
    obtain ⟨us, order, hus⟩ := ih h
    obtain ⟨vs, order', hvs⟩ := ih' hus
    exact ⟨vs, order.trans order', hvs⟩

/-- Cases of which no two can be are one case. -/
lemma single (h : Branches n s Ps ts)
    (apart : Ps.Pairwise fun P Q => ∀ θ η, s.Allows n θ → s.Allows n η → P θ → ¬Q η) :
    Branches n s [fun θ => ∃ P ∈ Ps, P θ] ts := by
  induction h with
  | nil => exact .closed (by simp) .nil
  | @«open» P Ps t ts ht hts ih =>
    obtain ⟨others, apart⟩ := List.pairwise_cons.mp apart
    obtain ⟨η, hη, hP⟩ := ht.exists_allows
    have none : ∀ Q ∈ Ps, ∀ θ, s.Allows n θ → ¬Q θ := fun Q hQ θ hθ => others Q hQ η θ hη hθ hP
    obtain rfl : ts = [] := hts.eq_nil none
    refine .open ⟨ht.proper, fun θ => (ht.allows_iff θ).trans (and_congr_right fun hθ => ?_)⟩ .nil
    rw [List.exists_mem_cons_iff, or_iff_left]
    rintro ⟨Q, hQ, here⟩
    exact none Q hQ θ hθ here
  | @closed P Ps ts hP _ ih =>
    obtain ⟨-, apart⟩ := List.pairwise_cons.mp apart
    refine (ih apart).congr (.cons (fun θ hθ => ?_) .nil)
    rw [List.exists_mem_cons_iff, or_iff_right (hP θ hθ)]

end Branches

end State

end Relational
