import Relational.Proofs.Subst.Resolution
import Relational.Proofs.Term.Renaming

/-!
Reading a term as part of an answer. Binding the open variables of a term to placeholders, one
after another, numbers them as they occur first; so what is read is the resolved term with its
variables numbered.
-/

namespace Relational.Subst

/-- The variables with these numbers, and no others, are bound to placeholders: each to its place
in the order in which they occur first. -/
structure Places (is : List Nat) (s : Subst) : Prop where
  size : s.size = is.eraseDups.length
  find? (x : Var) :
    s.find? x = if x.id ∈ is then some (.placeholder (is.eraseDups.idxOf x.id)) else none

namespace Places

variable {is : List Nat} {s : Subst} {x : Var}

lemma empty : Places [] Subst.empty := ⟨rfl, by simp⟩

/-- A variable that is met again has its placeholder already. -/
lemma again (h : Places is s) (hx : x.id ∈ is) : Places (is ++ [x.id]) s := by
  have order := eraseDups_append_of_mem hx
  refine ⟨by rw [order, h.size], fun y => ?_⟩
  rw [order, h.find?]
  by_cases hy : y.id = x.id
  · simp [hy, hx]
  · simp [hy]

/-- A variable that is met for the first time gets the next placeholder. -/
lemma extend (h : Places is s) (hx : x.id ∉ is) :
    Places (is ++ [x.id]) (s.extend x (.placeholder s.size)) := by
  have order := eraseDups_append_of_notMem hx
  have hfree : s.has x = false := by rw [has_eq_isSome, h.find?, if_neg hx]; rfl
  refine ⟨by rw [size_extend, hfree, order, h.size]; simp, fun y => ?_⟩
  rw [order, find?_extend, h.find?, h.size]
  by_cases hy : x.id = y.id
  · have new : y.id ∉ is.eraseDups := by rw [List.mem_eraseDups, ← hy]; exact hx
    rw [if_pos hy, if_pos (by simp [hy]), List.idxOf_append_of_notMem new]
    simp [hy]
  · by_cases hm : y.id ∈ is
    · rw [if_neg hy, if_pos hm, if_pos (by simp [hm]),
        List.idxOf_append_of_mem (List.mem_eraseDups.mpr hm)]
    · rw [if_neg hy, if_neg hm, if_neg (by simp [hm, Ne.symm hy])]

/-- All variables of a term get their placeholders. -/
lemma placeWithin (h : Places is s) (k : Nat) (t : Term) :
    ∃ s', placeWithin (k + 1) s t = some s' ∧ Places (is ++ t.ids) s' := by
  simp only [Subst.placeWithin, Term.ids]
  induction t.vars generalizing is s with
  | nil => exact ⟨s, rfl, by simpa using h⟩
  | cons x xs ih =>
    rw [List.foldlM_cons, h.find?, List.map_cons, List.append_cons]
    by_cases hx : x.id ∈ is
    · have stays : ∀ n, Subst.placeWithin k s (.placeholder n) = some s := by
        intro n
        cases k <;> rfl
      simp only [if_pos hx, stays]
      exact ih (h.again hx)
    · simp only [if_neg hx]
      exact ih (h.extend hx)

lemma resolve? (h : Places is s) {t : Term} (ht : ∀ i ∈ t.ids, i ∈ is) :
    s.resolve? t = some (t.placeBy is.eraseDups) := by
  rw [resolve?_eq_some_iff]
  induction t with
  | var x =>
    have bound : s.find? x = some (.placeholder (is.eraseDups.idxOf x.id)) := by
      rw [h.find?, if_pos (ht x.id (by simp))]
    exact .bare (.step bound (.known rfl)) rfl
  | pair a d iha ihd =>
    simp only [Term.ids_pair, List.mem_append, or_imp, forall_and] at ht
    exact .pair (.known rfl) (iha ht.1) (ihd ht.2)
  | succ p ih => exact .succ (.known rfl) (ih ht)
  | _ => exact .bare (.known rfl) rfl

end Places

variable {s : Subst} {t : Term}

/-- A term is read as part of an answer by resolving it and numbering its variables. -/
theorem reify?_eq (s : Subst) (t : Term) : s.reify? t = (s.resolve? t).map Term.numbered := by
  rcases hr : s.resolve? t with _ | u
  · simp [reify?, hr]
  · obtain ⟨names, hn, placed⟩ := Places.empty.placeWithin 0 u
    have hp : empty.place? u = some names := hn
    have read := placed.resolve? (t := u) fun i hi => by simpa using hi
    simp only [reify?, hr, hp, read]
    rfl

/-- Several variables are read by numbering the list of what they resolve to. -/
lemma reifyAll?_eq {xs : List Var} {us : List Term}
    (h : s.resolve? (.ofList (xs.map .var)) = some (.ofList us)) :
    s.reifyAll? xs = some (us.map (Term.placeBy (Term.ofList us).order)) := by
  rw [reifyAll?, reify?_eq, h, Option.map_some, Option.map_some, Term.numbered,
    Term.placeBy_ofList]
  simp [Term.ofList, Term.items]

end Relational.Subst
