import Relational.Proofs.Subst.Unifies

/-!
What unification adds. It makes bindings one after another, each for an open variable, and builds
no terms: what it binds is a part of the terms and bindings that it was given. A property that
terms pass on to their parts is therefore kept by every run. The items of a list are made of parts
of the bindings too, and such a property passes on to them.
-/

namespace Relational.Subst

/-- A property of terms that their parts have as well. -/
structure Inherited (C : Term → Prop) : Prop where
  pair {a d : Term} (h : C (.pair a d)) : C a ∧ C d
  succ {p : Term} (h : C (.succ p)) : C p

/-- The bound terms and the two terms at hand have the property. -/
structure Among (C : Term → Prop) (s : Subst) (u v : Term) : Prop where
  subst (x : Var) (t : Term) (h : s.find? x = some t) : C t
  left : C u
  right : C v

variable {C : Term → Prop} {s t r : Subst} {u v : Term}

lemma Walks.among {t a : Term} (h : Walks s t a) (hs : ∀ x t, s.find? x = some t → C t)
    (ht : C t) : C a := by
  induction h with
  | «open» => exact ht
  | known => exact ht
  | step hx _ ih => exact ih (hs _ _ hx)

namespace Among

lemma walk? (h : Among C s u v) {a b : Term} (ha : s.walk? u = some a)
    (hb : s.walk? v = some b) : Among C s a b :=
  ⟨h.subst, (walks_of_walk? ha).among h.subst h.left, (walks_of_walk? hb).among h.subst h.right⟩

lemma pairs (h : Among C s u v) (hC : Inherited C) {a d b e : Term}
    (hf : Faces s u v (.pairs a d b e)) : Among C s a b ∧ Among C s d e := by
  obtain ⟨u', v', hu, hv, hm⟩ := hf
  obtain ⟨rfl, rfl⟩ := eq_of_meet_pairs hm
  obtain ⟨hs, hl, hr⟩ := h.walk? hu hv
  obtain ⟨ha, hd⟩ := hC.pair hl
  obtain ⟨hb, he⟩ := hC.pair hr
  exact ⟨⟨hs, ha, hb⟩, ⟨hs, hd, he⟩⟩

lemma succs (h : Among C s u v) (hC : Inherited C) {p q : Term}
    (hf : Faces s u v (.succs p q)) : Among C s p q := by
  obtain ⟨u', v', hu, hv, hm⟩ := hf
  obtain ⟨rfl, rfl⟩ := eq_of_meet_succs hm
  obtain ⟨hs, hl, hr⟩ := h.walk? hu hv
  exact ⟨hs, hC.succ hl, hC.succ hr⟩

lemma bind (h : Among C s u v) {x : Var} {w : Term} (hf : Faces s u v (.bind x w)) :
    C (.var x) ∧ C w := by
  obtain ⟨u', v', hu, hv, hm⟩ := hf
  have roots := h.walk? hu hv
  obtain ⟨⟨rfl, rfl⟩ | ⟨rfl, rfl⟩, -⟩ := eq_of_meet_bind hm
  · exact ⟨roots.left, roots.right⟩
  · exact ⟨roots.right, roots.left⟩

end Among

/-- Bindings made one after another, for open variables and to terms with the property. A
variable is bound to a variable only if that is another one, and open. -/
inductive Grows (C : Term → Prop) (s : Subst) : Subst → Prop
  | refl : Grows C s s
  | bind {t : Subst} {x : Var} {w : Term} (h : Grows C s t) (hx : C (.var x)) (hw : C w)
      (free : t.find? x = none) (apart : ∀ y, w = .var y → x.id ≠ y.id ∧ t.find? y = none) :
      Grows C s (t.extend x w)

namespace Grows

lemma trans (h : Grows C s t) (h' : Grows C t r) : Grows C s r := by
  induction h' with
  | refl => exact h
  | bind _ hx hw free apart ih => exact .bind ih hx hw free apart

lemma values (h : Grows C s t) (hs : ∀ x w, s.find? x = some w → C w) :
    ∀ x w, t.find? x = some w → C w := by
  induction h with
  | refl => exact hs
  | bind _ _ hw _ _ ih =>
    intro y v hy
    rw [find?_extend] at hy
    split at hy
    · cases hy; exact hw
    · exact ih y v hy

lemma kept (h : Grows C s t) {x : Var} {w : Term} (hx : s.find? x = some w) :
    t.find? x = some w := by
  induction h with
  | refl => exact hx
  | @bind t y v _ _ _ free _ ih =>
    have hne : y.id ≠ x.id := by
      intro he
      rw [find?_congr he, ih] at free
      cases free
    rw [find?_extend, if_neg hne, ih]

end Grows

/-- A run grows the bindings by what it was given. -/
theorem Unifies.grows {r : Option Subst} (h : Unifies s u v r) (hC : Inherited C)
    (ha : Among C s u v) : ∀ t, r = some t → Grows C s t := by
  induction h with
  | agree => rintro _ ⟨⟩; exact .refl
  | clash => rintro _ ⟨⟩
  | bind hf =>
    rintro _ ⟨⟩
    obtain ⟨hx, hw⟩ := ha.bind hf
    exact .bind .refl hx hw hf.bind_open.1 hf.bind_open.2
  | heads => rintro _ ⟨⟩
  | pairs hf _ _ iha ihd =>
    intro t ht
    obtain ⟨hh, hd⟩ := ha.pairs hC hf
    have first := iha hh _ rfl
    exact first.trans (ihd ⟨first.values hd.subst, hd.left, hd.right⟩ t ht)
  | succs hf _ ih => exact ih (ha.succs hC hf)

/-- The bindings `s` and more, made one after another, each for a variable that had none. -/
abbrev Adds (s t : Subst) : Prop := Grows (fun _ => True) s t

lemma Unifies.adds (h : Unifies s u v (some t)) : Adds s t :=
  h.grows ⟨fun _ => ⟨trivial, trivial⟩, fun _ => trivial⟩ ⟨fun _ _ _ => trivial, trivial, trivial⟩
    t rfl

/-! ### Reading bindings -/

namespace Inherited

lemma items (hC : Inherited C) {t : Term} (h : C t) : ∀ u ∈ t.items, C u := by
  induction t with
  | pair a d _ ih =>
    obtain ⟨ha, hd⟩ := hC.pair h
    exact List.forall_mem_cons.mpr ⟨ha, ih hd⟩
  | _ => simp [Term.items]

lemma itemsWithin (hC : Inherited C) (hs : ∀ x t, s.find? x = some t → C t) {k : Nat} {t : Term}
    {ts : List Term} (ht : C t) (h : s.itemsWithin k t = some ts) : ∀ u ∈ ts, C u := by
  have hi := hC.items ht
  fun_induction Subst.itemsWithin s k t generalizing ts with
  | case1 => cases h; exact hi
  | case2 => cases h
  | case3 t x _ u k hu ih =>
    obtain ⟨us, hus, rfl⟩ := Option.map_eq_some_iff.mp h
    have hb := hs x u hu
    exact List.forall_mem_append.mpr ⟨hi, ih hb hus (hC.items hb)⟩
  | case4 => cases h; exact hi

end Inherited

/-- A property of terms that is settled by their parts. -/
structure Partwise (C : Term → Prop) : Prop extends Inherited C where
  of_pair {a d : Term} (ha : C a) (hd : C d) : C (.pair a d)
  of_succ {p : Term} (h : C p) : C (.succ p)

/-! ### Terms without wildcards -/

lemma partwise_hasWildcard : Partwise fun t => t.hasWildcard = false where
  pair h := by simpa [Term.hasWildcard] using h
  succ h := h
  of_pair ha hd := by rw [Term.hasWildcard, ha, hd]; rfl
  of_succ h := h

lemma inherited_hasWildcard : Inherited fun t => t.hasWildcard = false :=
  partwise_hasWildcard.toInherited

abbrev Plain (s : Subst) (u v : Term) : Prop := Among (fun t => t.hasWildcard = false) s u v

lemma Unifies.wildcardFree {r : Option Subst} (h : Unifies s u v r) (hp : Plain s u v) :
    ∀ t, r = some t → t.WildcardFree :=
  fun t ht => (h.grows inherited_hasWildcard hp t ht).values hp.subst

end Relational.Subst
