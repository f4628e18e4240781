import Mathlib.Data.Finset.Card
import Relational.Proofs.Subst.Growth

/-!
Where the terms of a run come from. Unification builds no terms: whatever it looks at and
whatever it binds is a part of the terms and bindings that it was given, and there are no more
of these parts than constructors.
-/

namespace Relational

namespace Term

def parts : Term → List Term
  | pair a d => pair a d :: (a.parts ++ d.parts)
  | succ p => succ p :: p.parts
  | t => [t]

lemma length_parts (t : Term) : t.parts.length = t.size := by
  induction t with
  | pair a d iha ihd => simp [parts, size, iha, ihd]
  | succ p ih => simp [parts, size, ih]
  | _ => rfl

lemma mem_parts_self (t : Term) : t ∈ t.parts := by cases t <;> simp [parts]

lemma parts_subset {p t : Term} (h : p ∈ t.parts) : p.parts ⊆ t.parts := by
  induction t with
  | pair a d iha ihd =>
    simp only [parts, List.mem_cons, List.mem_append] at h
    rcases h with rfl | h | h
    · exact List.Subset.refl _
    · intro q hq; simp [parts, iha h hq]
    · intro q hq; simp [parts, ihd h hq]
  | succ q ih =>
    simp only [parts, List.mem_cons] at h
    rcases h with rfl | h
    · exact List.Subset.refl _
    · intro r hr; simp [parts, ih h hr]
  | _ => simp only [parts, List.mem_singleton] at h; subst h; exact List.Subset.refl _

end Term

namespace Subst

variable {s : Subst} {u v : Term}

def parts (s : Subst) : List Term := s.toList.flatMap fun b => b.2.parts

lemma length_parts (s : Subst) : s.parts.length = s.weight := by
  have total : ∀ (l : List (Var × Term)) (n : Nat),
      l.foldl (fun n b => n + b.2.size) n = n + (l.flatMap fun b => b.2.parts).length := by
    intro l
    induction l with
    | nil => simp
    | cons b l ih => intro n; simp [ih, Term.length_parts]; omega
  simp [weight, parts, total]

lemma mem_parts {x : Var} {t : Term} (h : s.find? x = some t) : t ∈ s.parts := by
  obtain ⟨⟨y, t'⟩, hy, rfl⟩ := Option.map_eq_some_iff.mp h
  have hmem : (x.id, (y, t')) ∈ s.entries.toList :=
    Std.TreeMap.mem_toList_iff_getElem?_eq_some.mpr hy
  refine List.mem_flatMap.mpr ⟨(y, t'), ?_, Term.mem_parts_self _⟩
  exact List.mem_map.mpr ⟨_, hmem, rfl⟩

def supply (s : Subst) (u v : Term) : Finset Term := (s.parts ++ u.parts ++ v.parts).toFinset

lemma inherited_supply (s : Subst) (u v : Term) : Inherited (· ∈ supply s u v) := by
  have closed : ∀ t ∈ supply s u v, ∀ p ∈ t.parts, p ∈ supply s u v := by
    intro t ht p hp
    simp only [supply, List.mem_toFinset, List.mem_append, parts, List.mem_flatMap] at ht ⊢
    rcases ht with (⟨b, hb, ht⟩ | ht) | ht
    · exact .inl (.inl ⟨b, hb, Term.parts_subset ht hp⟩)
    · exact .inl (.inr (Term.parts_subset ht hp))
    · exact .inr (Term.parts_subset ht hp)
  exact ⟨fun h => ⟨closed _ h _ (by simp [Term.parts, Term.mem_parts_self]),
    closed _ h _ (by simp [Term.parts, Term.mem_parts_self])⟩,
    fun h => closed _ h _ (by simp [Term.parts, Term.mem_parts_self])⟩

lemma among_supply (s : Subst) (u v : Term) : Among (· ∈ supply s u v) s u v where
  subst x t hx := by simp [supply, mem_parts hx]
  left := by simp [supply, Term.mem_parts_self]
  right := by simp [supply, Term.mem_parts_self]

lemma card_supply_le (s : Subst) (u v : Term) :
    (supply s u v).card ≤ s.weight + u.size + v.size := by
  refine (List.toFinset_card_le _).trans ?_
  simp only [List.length_append, length_parts, Term.length_parts]
  exact Nat.le_refl _

end Subst

end Relational
