import Mathlib.Data.Fin.VecNotation
import Relational.Proofs.Goal.Cases
import Relational.Proofs.Goal.Equations
import Relational.Proofs.Stream.Order

/-!
Searches by cases. A goal splits a state into cases if its search comes to an end with one state
for each case that can be, which allows just the values of that case, and with no other state. How
a goal splits a state follows from how its parts do.
-/

namespace Relational

open scoped List
open State Subst

variable {ι : Type} {n : Nat} {s : State} {P Q : Valuation → Prop}

/-! ### Goals -/

def Standard.goal (r : Standard) (args : List Term) : Goal Pending :=
  r.definition.body.goal (Env.empty.bindAll r.definition.params args)

lemma Goal.eq_plain {σ : Type} {u v : Term} {r : Option Subst} (hu : u.hasWildcard = false)
    (hv : v.hasWildcard = false) (hr : s.subst.unify? u v = some r) :
    (Goal.eq u v : Goal σ) s = match r with
      | none => .quiet .empty
      | some w => .quiet (.singleton (s.withSubst w)) := by
  simp only [Goal.eq, fillWildcards_plain hu, fillWildcards_plain hv, Term.wildcards_eq_zero hu,
    Term.wildcards_eq_zero hv, Nat.add_zero, counted_zero, hr]
  rcases r with _ | w <;> rfl

lemma Goal.call_plain {r : Standard} {args : List Term} (hargs : ∀ t ∈ args, t.hasWildcard = false) :
    Goal.call (.standard r) args = fun s =>
      .quiet (.suspended (.seed (.call (.standard r) args s))) := by
  funext s
  simp only [Goal.call, fillAll_plain hargs, Term.wildcardsIn_eq_zero hargs, counted_zero]

/-- Of the search for the goal `D` tells a state for each case that can be. -/
def Goal.Tells (D : Burst Pending State → List State → Prop) (n : Nat) (g : Goal Pending) (s : State)
    (Ps : List (Valuation → Prop)) : Prop :=
  ∃ ts, D (g s) ts ∧ Branches n s Ps ts

/-- The search for the goal comes to an end, with a state for each case that can be. -/
def Goal.Splits (p : Program) (n : Nat) (g : Goal Pending) (s : State)
    (Ps : List (Valuation → Prop)) : Prop :=
  ∃ ts, (g s).Gives p.unfold ts ∧ Branches n s Ps ts

namespace Goal

variable {p : Program} {g h : Goal Pending} {Ps Qs : List (Valuation → Prop)} {is : List ι}

/-- What is told of the body of a relation is told of a call of it. -/
lemma told_call {D D' : Burst Pending State → List State → Prop} {ts : List State}
    (acc : Burst.Account p.unfold D D') {r : Standard} {args : List Term}
    (hargs : ∀ t ∈ args, t.hasWildcard = false) (hr : r.goal args = g) (told : D (g s) ts) :
    D' (Goal.call (.standard r) args s) ts := by
  subst hr
  rw [call_plain hargs]
  exact acc.suspended (acc.after (fun _ => Event.noConfusion) told)

/-- What is told of the body of a binder is told of the binder, even if the counter starts again
after its last variable. -/
lemma told_freshNamed {D D' : Burst Pending State → List State → Prop} {ts : List State}
    (acc : Burst.Account p.unfold D D') {names : List String} {f : List Var → Goal Pending}
    (room : s.HasRoom (names.length - 1))
    (told : D (f (Var.numbered s.next names) (s.advance names.length)) ts) :
    D (Goal.freshNamed names f s) ts := by
  rw [← freshVars_of_room room] at told
  refine acc.after (fun _ => Event.noConfusion) ?_
  rw [counted]
  split
  · exact told
  · exact acc.after (fun _ => Event.noConfusion) told

lemma Splits.collects {P : Valuation → Prop} (hg : Splits p n g s [P]) :
    ∃ ts, (g s).Collects p.unfold ts ∧ Branches n s [P] ts := by
  obtain ⟨ts, ⟨l, collected, order⟩, branches⟩ := hg
  refine ⟨ts, ?_, branches⟩
  rcases branches.one_cases with ⟨t, rfl, -⟩ | ⟨rfl, -⟩
  · rwa [List.perm_singleton.mp order] at collected
  · rwa [List.perm_nil.mp order] at collected

namespace Tells

variable {D D' : Burst Pending State → List State → Prop}

lemma congr (hg : Tells D n g s Ps)
    (hPQ : List.Forall₂ (fun P Q => ∀ θ, s.Allows n θ → (P θ ↔ Q θ)) Ps Qs) :
    Tells D n g s Qs := by
  obtain ⟨ts, told, branches⟩ := hg
  exact ⟨ts, told, branches.congr hPQ⟩

lemma congr_map {P Q : ι → Valuation → Prop} (hg : Tells D n g s (is.map P))
    (hPQ : ∀ i ∈ is, ∀ θ, s.Allows n θ → (P i θ ↔ Q i θ)) : Tells D n g s (is.map Q) := by
  refine hg.congr ?_
  rwa [List.forall₂_map_left_iff, List.forall₂_map_right_iff, List.forall₂_same]

lemma congr_cons {P Q : ι → Valuation → Prop} {P₀ Q₀ : Valuation → Prop}
    (hg : Tells D n g s (P₀ :: is.map P)) (here : ∀ θ, s.Allows n θ → (P₀ θ ↔ Q₀ θ))
    (later : ∀ i ∈ is, ∀ θ, s.Allows n θ → (P i θ ↔ Q i θ)) :
    Tells D n g s (Q₀ :: is.map Q) := by
  refine hg.congr (.cons here ?_)
  rwa [List.forall₂_map_left_iff, List.forall₂_map_right_iff, List.forall₂_same]

variable (acc : Burst.Account p.unfold D D')
include acc

lemma call {r : Standard} {args : List Term} (hargs : ∀ t ∈ args, t.hasWildcard = false)
    (hr : r.goal args = g) (hg : Tells D n g s Ps) : Tells D' n (Goal.call (.standard r) args) s Ps := by
  obtain ⟨ts, told, branches⟩ := hg
  exact ⟨ts, told_call acc hargs hr told, branches⟩

lemma freshNamed {names : List String} {k : Nat} (hk : names.length = k)
    {f : List Var → Goal Pending} {F : ι → Valuation → (Fin k → Term) → Prop} (hs : s.Proper n)
    (hF : ∀ i ∈ is, ∀ θ η : Valuation, θ.AgreesBelow η n → ∀ vs, F i θ vs → F i η vs)
    (hf : Tells D (s.next + k) (f (Var.numbered s.next names)) (s.advance k)
      (is.map fun i θ => F i θ fun j => θ.value (s.next + j))) :
    Tells D n (Goal.freshNamed names f) s
      (is.map fun i θ => ∃ vs : Fin k → Term, (∀ j, (vs j).isGround = true) ∧ F i θ vs) := by
  subst hk
  obtain ⟨ts, told, branches⟩ := hf
  exact ⟨ts, told_freshNamed acc (hs.hasRoom _) told, branches.fresh hs hF⟩

lemma conj2_one {Q : ι → Valuation → Prop} (hg : Splits p n g s [P])
    (hh : ∀ t, Narrows n P s t → Tells D n h t (is.map Q)) :
    Tells D n (Goal.conj2 g h) s (is.map fun i θ => P θ ∧ Q i θ) := by
  obtain ⟨ts, collected, branches⟩ := hg.collects
  rcases branches.one_cases with ⟨t, rfl, ht⟩ | ⟨rfl, none⟩
  · obtain ⟨us, told, later⟩ := hh t ht
    have within := Branches.within ht later
    rw [List.map_map] at within
    exact ⟨us, acc.bind_one collected told, within⟩
  · refine ⟨[], acc.bind_none collected, .of_closed ?_⟩
    exact List.forall_mem_map.mpr fun i _ θ hθ here => none θ hθ here.1

end Tells

end Goal

namespace Goal.Splits

variable {p : Program} {g h : Goal Pending} {Ps Qs : List (Valuation → Prop)} {is : List ι}

lemma congr (hg : Splits p n g s Ps)
    (hPQ : List.Forall₂ (fun P Q => ∀ θ, s.Allows n θ → (P θ ↔ Q θ)) Ps Qs) :
    Splits p n g s Qs := Tells.congr hg hPQ

lemma congr_map {P Q : ι → Valuation → Prop} (hg : Splits p n g s (is.map P))
    (hPQ : ∀ i ∈ is, ∀ θ, s.Allows n θ → (P i θ ↔ Q i θ)) : Splits p n g s (is.map Q) :=
  Tells.congr_map hg hPQ

lemma congr_one (hg : Splits p n g s [P]) (hPQ : ∀ θ, s.Allows n θ → (P θ ↔ Q θ)) :
    Splits p n g s [Q] :=
  hg.congr (.cons hPQ .nil)

lemma congr_cons {P Q : ι → Valuation → Prop} {P₀ Q₀ : Valuation → Prop}
    (hg : Splits p n g s (P₀ :: is.map P)) (here : ∀ θ, s.Allows n θ → (P₀ θ ↔ Q₀ θ))
    (later : ∀ i ∈ is, ∀ θ, s.Allows n θ → (P i θ ↔ Q i θ)) :
    Splits p n g s (Q₀ :: is.map Q) := Tells.congr_cons hg here later

lemma congr_append {P Q : ι → Valuation → Prop} (hg : Splits p n g s (Ps ++ is.map P))
    (later : ∀ i ∈ is, ∀ θ, s.Allows n θ → (P i θ ↔ Q i θ)) :
    Splits p n g s (Ps ++ is.map Q) := by
  refine hg.congr (List.rel_append (List.forall₂_same.mpr fun _ _ _ _ => .rfl) ?_)
  rwa [List.forall₂_map_left_iff, List.forall₂_map_right_iff, List.forall₂_same]

lemma drop (hg : Splits p n g s (P :: Ps)) (hP : ∀ θ, s.Allows n θ → ¬P θ) :
    Splits p n g s Ps := by
  obtain ⟨ts, gives, branches⟩ := hg
  exact ⟨ts, gives, branches.drop hP⟩

lemma perm (hg : Splits p n g s Ps) (order : Ps ~ Qs) : Splits p n g s Qs := by
  obtain ⟨ts, gives, branches⟩ := hg
  obtain ⟨us, order, hus⟩ := branches.perm order
  exact ⟨us, gives.perm order, hus⟩

lemma filter {P : ι → Valuation → Prop} (hg : Splits p n g s (is.map P)) (q : ι → Bool)
    (hq : ∀ i ∈ is, q i = false → ∀ θ, s.Allows n θ → ¬P i θ) :
    Splits p n g s ((is.filter q).map P) := by
  obtain ⟨ts, gives, branches⟩ := hg
  exact ⟨ts, gives, branches.filter q hq⟩

/-- If only one case can be, which one it is may be left open. -/
lemma single {P : ι → Valuation → Prop} (hg : Splits p n g s (is.map P)) (nodup : is.Nodup)
    (unique : ∀ i ∈ is, ∀ j ∈ is, ∀ θ η, s.Allows n θ → s.Allows n η → P i θ → P j η → i = j) :
    Splits p n g s [fun θ => ∃ i ∈ is, P i θ] := by
  obtain ⟨ts, gives, branches⟩ := hg
  have apart : (is.map P).Pairwise fun P Q =>
      ∀ θ η, s.Allows n θ → s.Allows n η → P θ → ¬Q η := by
    rw [List.pairwise_map]
    refine nodup.imp_of_mem fun hi hj hij θ η hθ hη hP hQ => ?_
    exact hij (unique _ hi _ hj θ η hθ hη hP hQ)
  refine congr_one ⟨ts, gives, branches.single apart⟩ fun θ _ => ?_
  simp

/-- Cases that say the same, each under a condition of its own of which only one can be met. -/
lemma choose (Cs : List Prop) (hg : Splits p n g s (Cs.map fun C θ => C ∧ P θ))
    (apart : Cs.Pairwise fun C D => C → ¬D) (some : ∀ θ, s.Allows n θ → P θ → ∃ C ∈ Cs, C) :
    Splits p n g s [P] := by
  obtain ⟨ts, gives, branches⟩ := hg
  have one : (Cs.map fun C θ => C ∧ P θ).Pairwise fun P Q =>
      ∀ θ η, s.Allows n θ → s.Allows n η → P θ → ¬Q η :=
    List.pairwise_map.mpr (apart.imp fun h θ η _ _ hC hD => h hC.1 hD.1)
  refine congr_one ⟨ts, gives, branches.single one⟩ fun θ hθ => ?_
  simp only [List.mem_map, exists_exists_and_eq_and, exists_and_right, ← and_assoc]
  exact and_iff_right_of_imp (some θ hθ)

/-- An equation leaves the case that it holds. -/
lemma eq {u v : Term} (hs : s.Proper n) (hu : Known n u) (hv : Known n v)
    (hd : Decided s.subst u v) :
    Splits p n (Goal.eq u v) s [fun θ => Term.sameParts (θ.apply u) (θ.apply v) = true] := by
  obtain ⟨r, hr, acyclic⟩ := hd
  have plain : Plain s.subst u v := ⟨hs.tidy.wildcardFree, hu.1, hv.1⟩
  have run := unifies_of_unify? hr
  have here := eq_plain (σ := Pending) hu.1 hv.1 hr
  have values {θ η : Valuation} (h : θ.AgreesBelow η n) :
      Term.sameParts (θ.apply u) (θ.apply v) = Term.sameParts (η.apply u) (η.apply v) := by
    rw [h.apply_eq hu.2, h.apply_eq hv.2]
  rcases r with _ | w
  · refine ⟨[], here ▸ .empty, .closed (fun θ hθ => ?_) .nil⟩
    obtain ⟨η, agree, solves⟩ := hθ
    rw [values agree]
    intro equal
    obtain ⟨t, ⟨⟩, -⟩ := (run.solves_iff plain).mp ⟨solves, equal⟩
  · have extends_ := extends_unify? hs.tidy (hu.mono hs.scope) (hv.mono hs.scope) hr
    refine ⟨[s.withSubst w], here ▸ .singleton _,
      .open ⟨⟨hs.endless, extends_.tidy, acyclic w rfl, hs.scope⟩, fun θ => ?_⟩ .nil⟩
    have solves_iff (η : Valuation) : η.Solves w ↔
        η.Solves s.subst ∧ Term.sameParts (η.apply u) (η.apply v) = true := by
      simpa using (run.solves_iff (θ := η) plain).symm
    constructor
    · rintro ⟨η, agree, solves⟩
      obtain ⟨solves, equal⟩ := (solves_iff η).mp solves
      exact ⟨⟨η, agree, solves⟩, values agree ▸ equal⟩
    · rintro ⟨⟨η, agree, solves⟩, equal⟩
      exact ⟨η, agree, (solves_iff η).mpr ⟨solves, values agree ▸ equal⟩⟩

lemma disj2 (hg : Splits p n g s Ps) (hh : Splits p n h s Qs) :
    Splits p n (disj2 g h) s (Ps ++ Qs) := by
  obtain ⟨ts, gives, branches⟩ := hg
  obtain ⟨us, gives', branches'⟩ := hh
  exact ⟨ts ++ us, gives.merge gives', branches.append branches'⟩

/-- A conjunction splits each case of its first goal by the second goal. -/
lemma conj2 (is : List ι) {P : ι → Valuation → Prop} {Qs : ι → List (Valuation → Prop)}
    (hg : Splits p n g s (is.map P))
    (hh : ∀ i ∈ is, ∀ t, Narrows n (P i) s t → Splits p n h t (Qs i)) :
    Splits p n (conj2 g h) s (is.flatMap fun i => (Qs i).map fun Q θ => P i θ ∧ Q θ) := by
  obtain ⟨ts, gives, branches⟩ := hg
  have each : ∃ ls, List.Forall₂ (fun t l => (h t).Gives p.unfold l) ts ls ∧
      Branches n s (is.flatMap fun i => (Qs i).map fun Q θ => P i θ ∧ Q θ) ls.flatten := by
    clear gives
    induction is generalizing ts with
    | nil => cases branches; exact ⟨[], .nil, .nil⟩
    | cons i is ih =>
      obtain ⟨here, later⟩ := List.forall_mem_cons.mp hh
      rw [List.map_cons] at branches
      rw [List.flatMap_cons]
      cases branches with
      | @«open» _ _ t _ ht hts =>
        obtain ⟨ls, collected, rest⟩ := ih later _ hts
        obtain ⟨us, gives, split⟩ := here t ht
        exact ⟨us :: ls, .cons gives collected, (Branches.within ht split).append rest⟩
      | closed hP hts =>
        obtain ⟨ls, collected, rest⟩ := ih later _ hts
        have none : Branches n s ((Qs i).map fun Q θ => P i θ ∧ Q θ) [] := by
          refine .of_closed (List.forall_mem_map.mpr fun Q _ θ hθ here => ?_)
          exact hP θ hθ here.1
        exact ⟨ls, collected, none.append rest⟩
  obtain ⟨ls, collected, split⟩ := each
  exact ⟨ls.flatten, gives.bind collected, split⟩

lemma conj2_each {P Q : ι → Valuation → Prop} (hg : Splits p n g s (is.map P))
    (hh : ∀ i ∈ is, ∀ t, Narrows n (P i) s t → Splits p n h t [Q i]) :
    Splits p n (Goal.conj2 g h) s (is.map fun i θ => P i θ ∧ Q i θ) := by
  rw [List.map_eq_flatMap]
  exact conj2 is hg hh

/-- A conjunction whose first goal leaves one case goes on from that. -/
lemma conj2_one {Q : ι → Valuation → Prop} (hg : Splits p n g s [P])
    (hh : ∀ t, Narrows n P s t → Splits p n h t (is.map Q)) :
    Splits p n (Goal.conj2 g h) s (is.map fun i θ => P θ ∧ Q i θ) :=
  Tells.conj2_one Burst.account_gives hg hh

lemma conj2_both (hg : Splits p n g s [P]) (hh : ∀ t, Narrows n P s t → Splits p n h t [Q]) :
    Splits p n (Goal.conj2 g h) s [fun θ => P θ ∧ Q θ] := by
  have split : Splits p n (Goal.conj2 g h) s ([()].map fun _ θ => P θ ∧ Q θ) := conj2_one hg hh
  exact split

/-! ### New variables and calls -/

lemma exists_one {F : Term → Prop} :
    (∃ vs : Fin 1 → Term, (∀ j, (vs j).isGround = true) ∧ F (vs 0)) ↔
      ∃ v, v.isGround = true ∧ F v := by
  constructor
  · rintro ⟨vs, ground, here⟩
    exact ⟨vs 0, ground 0, here⟩
  · rintro ⟨v, hv, here⟩
    exact ⟨fun _ => v, fun _ => hv, here⟩

lemma exists_two {F : Term → Term → Prop} :
    (∃ vs : Fin 2 → Term, (∀ j, (vs j).isGround = true) ∧ F (vs 0) (vs 1)) ↔
      ∃ v w, v.isGround = true ∧ w.isGround = true ∧ F v w := by
  constructor
  · rintro ⟨vs, ground, here⟩
    exact ⟨vs 0, vs 1, ground 0, ground 1, here⟩
  · rintro ⟨v, w, hv, hw, here⟩
    exact ⟨![v, w], by simp [Fin.forall_fin_two, hv, hw], here⟩

/-- Outside of a binder there are some values for its variables. -/
lemma freshNamed {names : List String} {k : Nat} (hk : names.length = k)
    {f : List Var → Goal Pending} {F : ι → Valuation → (Fin k → Term) → Prop} (hs : s.Proper n)
    (hF : ∀ i ∈ is, ∀ θ η : Valuation, θ.AgreesBelow η n → ∀ vs, F i θ vs → F i η vs)
    (hf : Splits p (s.next + k) (f (Var.numbered s.next names)) (s.advance k)
      (is.map fun i θ => F i θ fun j => θ.value (s.next + j))) :
    Splits p n (Goal.freshNamed names f) s
      (is.map fun i θ => ∃ vs : Fin k → Term, (∀ j, (vs j).isGround = true) ∧ F i θ vs) :=
  Tells.freshNamed Burst.account_gives hk hs hF hf

lemma freshNamed_one {names : List String} {k : Nat} (hk : names.length = k)
    {f : List Var → Goal Pending} {F : Valuation → (Fin k → Term) → Prop} (hs : s.Proper n)
    (hF : ∀ θ η : Valuation, θ.AgreesBelow η n → ∀ vs, F θ vs → F η vs)
    (hf : Splits p (s.next + k) (f (Var.numbered s.next names)) (s.advance k)
      [fun θ => F θ fun j => θ.value (s.next + j)]) :
    Splits p n (Goal.freshNamed names f) s
      [fun θ => ∃ vs : Fin k → Term, (∀ j, (vs j).isGround = true) ∧ F θ vs] := by
  have split : Splits p n (Goal.freshNamed names f) s ([()].map fun _ θ =>
      ∃ vs : Fin k → Term, (∀ j, (vs j).isGround = true) ∧ F θ vs) :=
    freshNamed hk hs (fun _ _ => hF) hf
  exact split

/-- Some cases say nothing of the new variables. -/
lemma freshNamed_append {names : List String} {k : Nat} (hk : names.length = k)
    {f : List Var → Goal Pending} {F : ι → Valuation → (Fin k → Term) → Prop} (hs : s.Proper n)
    (hP : ∀ P ∈ Ps, ∀ θ η : Valuation, θ.AgreesBelow η n → P θ → P η)
    (hF : ∀ i ∈ is, ∀ θ η : Valuation, θ.AgreesBelow η n → ∀ vs, F i θ vs → F i η vs)
    (hf : Splits p (s.next + k) (f (Var.numbered s.next names)) (s.advance k)
      (Ps ++ is.map fun i θ => F i θ fun j => θ.value (s.next + j))) :
    Splits p n (Goal.freshNamed names f) s
      (Ps ++ is.map fun i θ => ∃ vs : Fin k → Term, (∀ j, (vs j).isGround = true) ∧ F i θ vs) := by
  have split : Splits p n (Goal.freshNamed names f) s
      ((Ps.map Sum.inl ++ is.map Sum.inr).map fun i θ => ∃ vs : Fin k → Term,
        (∀ j, (vs j).isGround = true) ∧
          Sum.elim (fun (P : Valuation → Prop) θ _ => P θ) F i θ vs) := by
    refine freshNamed hk hs ?_ (by simpa [Function.comp_def] using hf)
    rintro (P | i) h
    · exact fun θ η agree _ => hP P (by simpa using h) θ η agree
    · exact hF i (by simpa using h)
  have none {P : Valuation → Prop} {θ : Valuation} :
      (∃ vs : Fin k → Term, (∀ j, (vs j).isGround = true) ∧ P θ) ↔ P θ :=
    ⟨fun ⟨_, _, h⟩ => h, fun h => ⟨fun _ => .nil, fun _ => rfl, h⟩⟩
  simpa [Function.comp_def, none] using split

lemma call {r : Standard} {args : List Term} (hargs : ∀ t ∈ args, t.hasWildcard = false)
    (hr : r.goal args = g) (h : Splits p n g s Ps) :
    Splits p n (Goal.call (.standard r) args) s Ps := Tells.call Burst.account_gives hargs hr h

end Goal.Splits

end Relational
