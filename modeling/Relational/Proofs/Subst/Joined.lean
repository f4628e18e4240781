import Relational.Proofs.Subst.Depth

/-!
What a new binding does to walks. An open variable stands for all that leads to it. Bound to
another open variable, it hands these over, and the two are joined; bound to any other term, it
lets them stand for that term. All else leads to where it led before.
-/

namespace Relational.Subst

variable {s : Subst} {x y : Var} {u v w z : Term}

/-! ### Walks under a new binding -/

/-- A term leads to the open variable with a number. -/
def Ends (s : Subst) (u : Term) (i : Nat) : Prop := ∃ x, s.walk? u = some (.var x) ∧ x.id = i

/-- What a new binding makes of the root of a term. -/
def redirect (x : Var) (w : Term) : Term → Term
  | .var y => if x.id = y.id then w else .var y
  | t => t

lemma redirect_known {a : Term} (ha : a.isVar = false) : redirect x w a = a := by
  cases a with
  | var y => cases ha
  | _ => rfl

lemma Walks.extend {a : Term} (h : Walks s u a) (hx : s.find? x = none)
    (hw : ∀ y, w = .var y → x.id ≠ y.id ∧ s.find? y = none) :
    Walks (s.extend x w) u (redirect x w a) := by
  induction h with
  | @«open» y hy =>
    by_cases he : x.id = y.id
    · -- the new binding leads to its own end
      have root : Walks (s.extend x w) w w := by
        rcases hv : w.isVar with _ | _
        · exact .known hv
        · cases w with
          | var z => exact .open (by rw [find?_extend, if_neg (hw z rfl).1, (hw z rfl).2])
          | _ => cases hv
      rw [redirect, if_pos he]
      exact .step (by rw [find?_extend, if_pos he]) root
    · rw [redirect, if_neg he]
      exact .open (by rw [find?_extend, if_neg he, hy])
  | known ha =>
    rw [redirect_known ha]
    exact .known ha
  | @step y u a hy _ ih =>
    have hne : x.id ≠ y.id := by
      intro he
      rw [find?_congr he, hy] at hx
      cases hx
    exact .step (by rw [find?_extend, if_neg hne, hy]) ih

lemma Walks.of_extend {a : Term} (h : Walks (s.extend x w) u a) (hx : s.find? x = none) :
    ∃ b, Walks s u b := by
  induction h with
  | @«open» y hy =>
    rw [find?_extend] at hy
    split at hy
    · cases hy
    · exact ⟨_, .open hy⟩
  | known ha => exact ⟨_, .known ha⟩
  | @step y u a hy _ ih =>
    rw [find?_extend] at hy
    split at hy
    · rename_i he
      exact ⟨_, .open (by rw [← find?_congr he, hx])⟩
    · obtain ⟨b, hb⟩ := ih
      exact ⟨b, .step hy hb⟩

section

variable (hx : s.find? x = none) (hw : ∀ y, w = .var y → x.id ≠ y.id ∧ s.find? y = none)
include hx hw

/-- A walk goes on at the variable that is bound anew, to where the new binding leads. -/
lemma walk?_extend (u : Term) : (s.extend x w).walk? u = (s.walk? u).map (redirect x w) := by
  rcases hs : s.walk? u with _ | a
  · rcases ht : (s.extend x w).walk? u with _ | a
    · rfl
    · obtain ⟨b, hb⟩ := (walks_of_walk? ht).of_extend hx
      rw [walk?_eq_some_iff.mpr hb] at hs
      cases hs
  · exact walk?_eq_some_iff.mpr ((walks_of_walk? hs).extend hx hw)

/-- What leads to a term other than a variable: all that did before, and what the new binding
leads there. -/
lemma known_extend {a : Term} (ha : a.isVar = false) :
    (s.extend x w).walk? u = some a ↔ s.walk? u = some a ∨ s.Ends u x.id ∧ w = a := by
  rw [walk?_extend hx hw, Option.map_eq_some_iff]
  constructor
  · rintro ⟨b, hb, rfl⟩
    cases b with
    | var y =>
      by_cases he : x.id = y.id
      · exact .inr ⟨⟨y, hb, he.symm⟩, (if_pos he).symm⟩
      · rw [redirect, if_neg he] at ha
        cases ha
    | _ => exact .inl hb
  · rintro (h | ⟨⟨y, hy, he⟩, rfl⟩)
    · exact ⟨a, h, redirect_known ha⟩
    · exact ⟨_, hy, if_pos he.symm⟩

/-- What leads to an open variable: all that did before, unless it is the one that is bound anew,
and what the new binding leads there. -/
lemma ends_extend {i : Nat} : (s.extend x w).Ends u i ↔
    s.Ends u i ∧ i ≠ x.id ∨ s.Ends u x.id ∧ ∃ y, w = .var y ∧ y.id = i := by
  simp only [Ends, walk?_extend hx hw, Option.map_eq_some_iff]
  constructor
  · rintro ⟨y, ⟨b, hb, hy⟩, rfl⟩
    cases b with
    | var c =>
      by_cases he : x.id = c.id
      · rw [redirect, if_pos he] at hy
        exact .inr ⟨⟨c, hb, he.symm⟩, y, hy, rfl⟩
      · rw [redirect, if_neg he] at hy
        cases hy
        exact .inl ⟨⟨_, hb, rfl⟩, Ne.symm he⟩
    | _ => cases hy
  · rintro (⟨⟨y, hy, rfl⟩, hne⟩ | ⟨⟨y, hy, he⟩, z, rfl, rfl⟩)
    · exact ⟨y, ⟨_, hy, if_neg (Ne.symm hne)⟩, rfl⟩
    · exact ⟨z, ⟨_, hy, if_pos he.symm⟩, rfl⟩

end

/-! ### Joined variables -/

lemma Ends.eq {i j : Nat} (h : s.Ends u i) (h' : s.Ends u j) : i = j := by
  obtain ⟨x, hx, rfl⟩ := h
  obtain ⟨y, hy, rfl⟩ := h'
  rw [hx] at hy
  cases hy
  rfl

def Joined (s : Subst) (u v : Term) : Prop := ∃ i, s.Ends u i ∧ s.Ends v i

lemma joined_iff {i : Nat} (h : s.Ends v i) : Joined s u v ↔ s.Ends u i :=
  ⟨fun ⟨_, hu, hv⟩ => h.eq hv ▸ hu, fun hu => ⟨i, hu, h⟩⟩

lemma joined_self : Joined s u u ↔ ∃ x, s.walk? u = some (.var x) :=
  ⟨fun ⟨_, ⟨x, hx, _⟩, _⟩ => ⟨x, hx⟩, fun ⟨x, hx⟩ => ⟨x.id, ⟨x, hx, rfl⟩, ⟨x, hx, rfl⟩⟩⟩

section

variable (hz : s.walk? z = some (.var x)) (hw : w.isVar = false)
include hz hw

lemma known_extend_known {a : Term} (ha : a.isVar = false) :
    (s.extend x w).walk? u = some a ↔ s.walk? u = some a ∨ Joined s u z ∧ w = a := by
  have other : ∀ y, w = .var y → x.id ≠ y.id ∧ s.find? y = none := by
    rintro y rfl
    cases hw
  rw [known_extend (walks_of_walk? hz).find?_eq_none other ha, joined_iff ⟨x, hz, rfl⟩]

lemma joined_extend_known :
    Joined (s.extend x w) u v ↔ Joined s u v ∧ ¬Joined s u z := by
  have other : ∀ y, w ≠ .var y := by
    rintro y rfl
    cases hw
  have ends (u : Term) (i : Nat) : (s.extend x w).Ends u i ↔ s.Ends u i ∧ i ≠ x.id := by
    rw [ends_extend (walks_of_walk? hz).find?_eq_none fun y hy => absurd hy (other y)]
    simp [other]
  rw [joined_iff ⟨x, hz, rfl⟩]
  simp only [Joined, ends]
  constructor
  · rintro ⟨i, ⟨hu, hi⟩, hv, -⟩
    exact ⟨⟨i, hu, hv⟩, fun hx => hi (hu.eq hx)⟩
  · rintro ⟨⟨i, hu, hv⟩, hx⟩
    have hi : i ≠ x.id := fun h => hx (h ▸ hu)
    exact ⟨i, ⟨hu, hi⟩, hv, hi⟩

end

section

variable (hu : s.walk? u = some (.var x)) (hv : s.walk? v = some (.var y)) (hne : x.id ≠ y.id)
include hu hv hne

lemma known_extend_var {a : Term} (ha : a.isVar = false) :
    (s.extend x (.var y)).walk? w = some a ↔ s.walk? w = some a := by
  have differ : Term.var y ≠ a := by
    rintro rfl
    cases ha
  rw [known_extend (walks_of_walk? hu).find?_eq_none _ ha]
  · simp [differ]
  · rintro z ⟨⟩
    exact ⟨hne, (walks_of_walk? hv).find?_eq_none⟩

/-- The two variables are joined, and with them all that led to either of them. -/
lemma joined_extend_var :
    Joined (s.extend x (.var y)) w z ↔ Joined s w z ∨
      Joined s w u ∧ Joined s z v ∨ Joined s w v ∧ Joined s z u := by
  have ends (w : Term) (i : Nat) : (s.extend x (.var y)).Ends w i ↔
      s.Ends w i ∧ i ≠ x.id ∨ s.Ends w x.id ∧ y.id = i := by
    rw [ends_extend (walks_of_walk? hu).find?_eq_none]
    · simp
    · rintro z ⟨⟩
      exact ⟨hne, (walks_of_walk? hv).find?_eq_none⟩
  rw [joined_iff ⟨x, hu, rfl⟩, joined_iff ⟨y, hv, rfl⟩, joined_iff ⟨x, hu, rfl⟩,
    joined_iff ⟨y, hv, rfl⟩]
  simp only [Joined, ends]
  constructor
  · rintro ⟨i, ⟨hw, hi⟩ | ⟨hw, rfl⟩, ⟨hz, -⟩ | ⟨hz, he⟩⟩
    · exact .inl ⟨i, hw, hz⟩
    · exact .inr (.inr ⟨he ▸ hw, hz⟩)
    · exact .inr (.inl ⟨hw, hz⟩)
    · exact .inl ⟨x.id, hw, hz⟩
  · rintro (⟨i, hw, hz⟩ | ⟨hw, hz⟩ | ⟨hw, hz⟩)
    · by_cases hi : i = x.id
      · exact ⟨y.id, .inr ⟨hi ▸ hw, rfl⟩, .inr ⟨hi ▸ hz, rfl⟩⟩
      · exact ⟨i, .inl ⟨hw, hi⟩, .inl ⟨hz, hi⟩⟩
    · exact ⟨y.id, .inr ⟨hw, rfl⟩, .inl ⟨hz, Ne.symm hne⟩⟩
    · exact ⟨y.id, .inl ⟨hw, Ne.symm hne⟩, .inr ⟨hz, rfl⟩⟩

end

end Relational.Subst
