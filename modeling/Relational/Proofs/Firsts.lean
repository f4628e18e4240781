import Mathlib.Data.List.Basic

/-!
First appearances. Of a list there is left what is related to nothing before it; if the relation
is an equivalence, that is the first element of each class.
-/

namespace Relational

open scoped List

/-- What is left of a list once every element is dropped that is related to an earlier one, or to
one of those seen before. -/
inductive Firsts {α : Type} (R : α → α → Prop) : List α → List α → List α → Prop
  | nil {seen : List α} : Firsts R seen [] []
  | again {seen as kept : List α} {a b : α} (hb : b ∈ seen) (hab : R b a)
      (h : Firsts R (a :: seen) as kept) : Firsts R seen (a :: as) kept
  | new {seen as kept : List α} {a : α} (ha : ∀ b ∈ seen, ¬R b a)
      (h : Firsts R (a :: seen) as kept) : Firsts R seen (a :: as) (a :: kept)

namespace Firsts

variable {α β : Type} {R : α → α → Prop} {seen as kept : List α}

lemma sublist (h : Firsts R seen as kept) : kept <+ as := by
  induction h with
  | nil => exact .slnil
  | again _ _ _ ih => exact ih.cons _
  | new _ _ ih => exact ih.cons_cons _

lemma apart (h : Firsts R seen as kept) : ∀ a ∈ kept, ∀ b ∈ seen, ¬R b a := by
  induction h with
  | nil => simp
  | again _ _ _ ih => exact fun a ha b hb => ih a ha b (List.mem_cons_of_mem _ hb)
  | new hnew _ ih =>
    exact List.forall_mem_cons.mpr ⟨hnew, fun a ha b hb => ih a ha b (List.mem_cons_of_mem _ hb)⟩

lemma covers (h : Firsts R seen as kept) (refl : ∀ a ∈ as, R a a)
    (trans : ∀ a b c, R a b → R b c → R a c) :
    ∀ a ∈ as, ∃ b, (b ∈ seen ∨ b ∈ kept) ∧ R b a := by
  induction h with
  | nil => simp
  | again hb hab _ ih =>
    obtain ⟨-, later⟩ := List.forall_mem_cons.mp refl
    refine List.forall_mem_cons.mpr ⟨⟨_, .inl hb, hab⟩, fun c hc => ?_⟩
    obtain ⟨d, hd, hdc⟩ := ih later c hc
    rcases hd with hd | hd
    · rcases List.mem_cons.mp hd with rfl | hd
      · exact ⟨_, .inl hb, trans _ _ _ hab hdc⟩
      · exact ⟨d, .inl hd, hdc⟩
    · exact ⟨d, .inr hd, hdc⟩
  | new _ _ ih =>
    obtain ⟨here, later⟩ := List.forall_mem_cons.mp refl
    refine List.forall_mem_cons.mpr ⟨⟨_, .inr List.mem_cons_self, here⟩, fun c hc => ?_⟩
    obtain ⟨d, hd, hdc⟩ := ih later c hc
    rcases hd with hd | hd
    · rcases List.mem_cons.mp hd with rfl | hd
      · exact ⟨d, .inr List.mem_cons_self, hdc⟩
      · exact ⟨d, .inl hd, hdc⟩
    · exact ⟨d, .inr (List.mem_cons_of_mem _ hd), hdc⟩

lemma map {Q : β → β → Prop} {f : α → β} (h : Firsts R seen as kept)
    (hf : ∀ a ∈ seen ++ as, ∀ b ∈ as, R a b ↔ Q (f a) (f b)) :
    Firsts Q (seen.map f) (as.map f) (kept.map f) := by
  induction h with
  | nil => exact .nil
  | @again seen as kept a b hb hab _ ih =>
    refine .again (List.mem_map_of_mem hb) ((hf b (by simp [hb]) a (by simp)).mp hab) (ih ?_)
    exact fun c hc d hd => hf c (by simpa [or_left_comm] using hc) d (List.mem_cons_of_mem _ hd)
  | @new seen as kept a ha _ ih =>
    refine .new (List.forall_mem_map.mpr fun b hb hab => ?_) (ih ?_)
    · exact ha b hb ((hf b (by simp [hb]) a (by simp)).mpr hab)
    · exact fun c hc d hd => hf c (by simpa [or_left_comm] using hc) d (List.mem_cons_of_mem _ hd)

end Firsts

lemma exists_firsts {α : Type} (R : α → α → Prop) (seen as : List α) :
    ∃ kept, Firsts R seen as kept := by
  induction as generalizing seen with
  | nil => exact ⟨[], .nil⟩
  | cons a as ih =>
    obtain ⟨kept, h⟩ := ih (a :: seen)
    by_cases ha : ∃ b ∈ seen, R b a
    · obtain ⟨b, hb, hab⟩ := ha
      exact ⟨kept, .again hb hab h⟩
    · exact ⟨a :: kept, .new (fun b hb hab => ha ⟨b, hb, hab⟩) h⟩

lemma Firsts.replicate {α : Type} {R : α → α → Prop} {a : α} (h : R a a) (n : Nat) :
    Firsts R [] (List.replicate (n + 1) a) [a] := by
  have others (n : Nat) : ∀ seen, a ∈ seen → Firsts R seen (List.replicate n a) [] := by
    induction n with
    | zero => exact fun _ _ => .nil
    | succ n ih => exact fun seen ha => .again ha h (ih _ (List.mem_cons_of_mem _ ha))
  exact .new (by simp) (others n _ List.mem_cons_self)

end Relational
