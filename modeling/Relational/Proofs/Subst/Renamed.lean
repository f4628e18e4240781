import Mathlib.Data.List.Forall2
import Relational.Proofs.Subst.Depth
import Relational.Proofs.Subst.Placing

/-!
Bindings with other numbers. If the variables of bindings and terms are numbered anew, different
ones differently, then whatever is done with them gives the same up to the new numbers: following,
unifying, resolving, and reading the items of a list. Names play no part in any of it.
-/

namespace Relational

variable {f : Nat → Nat}

namespace Term

/-- The second term is the first with its variables numbered anew, whatever their names. -/
inductive Renamed (f : Nat → Nat) : Term → Term → Prop
  | var {x y : Var} (h : y.id = f x.id) : Renamed f (.var x) (.var y)
  | pair {a d b e : Term} (ha : Renamed f a b) (hd : Renamed f d e) :
      Renamed f (.pair a d) (.pair b e)
  | succ {p q : Term} (h : Renamed f p q) : Renamed f (.succ p) (.succ q)
  | nil : Renamed f .nil .nil
  | zero : Renamed f .zero .zero
  | atom {a : Atom} : Renamed f (.atom a) (.atom a)
  | wildcard {place : Nat} : Renamed f (.wildcard place) (.wildcard place)
  | placeholder {n : Nat} : Renamed f (.placeholder n) (.placeholder n)

namespace Renamed

variable {t u : Term}

lemma rename_eq (h : Renamed f t u) : t.rename f = u.rename id := by
  induction h with
  | var h => simp [h]
  | pair _ _ iha ihd => rw [rename_pair, rename_pair, iha, ihd]
  | succ _ ih => rw [rename_succ, rename_succ, ih]
  | _ => rfl

lemma numbered_eq (hf : f.Injective) (h : Renamed f t u) : t.numbered = u.numbered := by
  rw [← numbered_rename hf.injOn, h.rename_eq, numbered_rename (Set.injOn_id _)]

lemma beq_eq (hf : f.Injective) {t' u' : Term} (h : Renamed f t u) (h' : Renamed f t' u') :
    (t == t') = (u == u') := by
  have parts : sameParts t t' = sameParts u u' := by
    induction h generalizing t' u' with
    | pair _ _ iha ihd =>
      cases h' with
      | pair ha hd => rw [sameParts, sameParts, iha ha, ihd hd]
      | _ => rfl
    | succ _ ih =>
      cases h' with
      | succ hp => exact ih hp
      | _ => rfl
    | _ => cases h' <;> simp_all [sameParts, hf.eq_iff]
  have wild : t.isWildcard = u.isWildcard := by cases h <;> rfl
  simp [BEq.beq, same, parts, wild]

/-- Numbers that stay as they are may be changed in the same way by another renaming. -/
lemma congr (h : Renamed id t u) (ht : ∀ i ∈ t.ids, f i = i) : Renamed f t u := by
  induction h with
  | @var x y h => exact .var (by rw [h, ht x.id (by simp)]; rfl)
  | pair _ _ iha ihd =>
    simp only [ids_pair, List.mem_append, or_imp, forall_and] at ht
    exact .pair (iha ht.1) (ihd ht.2)
  | succ _ ih => exact .succ (ih ht)
  | nil => exact .nil
  | zero => exact .zero
  | atom => exact .atom
  | wildcard => exact .wildcard
  | placeholder => exact .placeholder

lemma wildcards_eq (h : Renamed f t u) : t.wildcards = u.wildcards := by
  induction h with
  | pair _ _ iha ihd => rw [wildcards, wildcards, iha, ihd]
  | succ _ ih => exact ih
  | _ => rfl

lemma items (h : Renamed f t u) : List.Forall₂ (Renamed f) t.items u.items := by
  induction h with
  | pair ha _ _ ihd => exact .cons ha ihd
  | _ => exact .nil

lemma ending (h : Renamed f t u) : Renamed f t.ending u.ending := by
  induction h with
  | pair _ _ _ ihd => exact ihd
  | var h => exact .var h
  | succ h _ => exact .succ h
  | nil => exact .nil
  | zero => exact .zero
  | atom => exact .atom
  | wildcard => exact .wildcard
  | placeholder => exact .placeholder

lemma replaceVars {F G : Var → Option Term}
    (hFG : ∀ x y : Var, y.id = f x.id → Option.Rel (Renamed f) (F x) (G y)) (h : Renamed f t u) :
    Option.Rel (Renamed f) (t.replaceVars F) (u.replaceVars G) := by
  induction h with
  | var h => exact hFG _ _ h
  | pair _ _ iha ihd =>
    rcases rel_cases iha with ⟨ha, hb⟩ | ⟨a, b, ha, hb, hab⟩
    · simp [Term.replaceVars, ha, hb]
    · rcases rel_cases ihd with ⟨hd, he⟩ | ⟨d, e, hd, he, hde⟩
      · simp [Term.replaceVars, ha, hb, hd, he]
      · simpa [Term.replaceVars, ha, hb, hd, he] using .pair hab hde
  | succ _ ih =>
    rcases rel_cases ih with ⟨hp, hq⟩ | ⟨p, q, hp, hq, h⟩
    · simp [Term.replaceVars, hp, hq]
    · simpa [Term.replaceVars, hp, hq] using .succ h
  | nil => exact .some .nil
  | zero => exact .some .zero
  | atom => exact .some .atom
  | wildcard => exact .some .wildcard
  | placeholder => exact .some .placeholder

end Renamed

end Term

namespace Subst

/-- The second bindings are the first with all variables numbered anew, whatever their names. -/
structure Renamed (f : Nat → Nat) (s s' : Subst) : Prop where
  size : s'.size = s.size
  find? {x y : Var} (h : y.id = f x.id) : Option.Rel (Term.Renamed f) (s.find? x) (s'.find? y)
  onto {y : Var} {u : Term} (h : s'.find? y = some u) : ∃ i, y.id = f i

lemma renamed_empty : Renamed f empty empty := by
  refine ⟨rfl, fun {x y} _ => ?_, fun {y u} h => ?_⟩
  · rw [find?_empty, find?_empty]
    exact .none
  · rw [find?_empty] at h
    cases h

namespace Renamed

variable {s s' : Subst} {t u v w : Term}

lemma extend (hf : f.Injective) (hs : Renamed f s s') {x y : Var} (h : y.id = f x.id)
    (ht : Term.Renamed f t u) : Renamed f (s.extend x t) (s'.extend y u) := by
  refine ⟨?_, fun {z w} hz => ?_, fun {z w} hz => ?_⟩
  · have same : s'.has y = s.has x := by
      rw [has_eq_isSome, has_eq_isSome]
      rcases rel_cases (hs.find? h) with ⟨hx, hy⟩ | ⟨_, _, hx, hy, -⟩ <;>
        simp [hx, hy]
    rw [size_extend, size_extend, same, hs.size]
  · have same : y.id = w.id ↔ x.id = z.id := by rw [h, hz, hf.eq_iff]
    rw [find?_extend, find?_extend]
    by_cases hxz : x.id = z.id
    · simpa [hxz, same.mpr hxz] using ht
    · simpa [hxz, mt same.mp hxz] using hs.find? hz
  · rw [find?_extend] at hz
    split at hz
    · exact ⟨x.id, by rw [← h]; exact Eq.symm ‹_›⟩
    · exact hs.onto hz

/-! ### Following, resolving, and the items of a list -/

lemma walk? (hs : Renamed f s s') (h : Term.Renamed f t u) :
    Option.Rel (Term.Renamed f) (s.walk? t) (s'.walk? u) := by
  have within (k : Nat) (t u : Term) (h : Term.Renamed f t u) :
      Option.Rel (Term.Renamed f) (s.walkWithin k t) (s'.walkWithin k u) := by
    have known : Option.Rel (Term.Renamed f) (some t) (some u) := .some h
    induction k generalizing t u with
    | zero =>
      cases h with
      | var h =>
        rcases rel_cases (hs.find? h) with ⟨hx, hy⟩ | ⟨_, _, hx, hy, -⟩
        · simpa [walkWithin, hx, hy] using .var h
        · simp [walkWithin, hx, hy]
      | _ => exact known
    | succ k ih =>
      cases h with
      | var h =>
        rcases rel_cases (hs.find? h) with ⟨hx, hy⟩ | ⟨t, u, hx, hy, htu⟩
        · simpa [walkWithin, hx, hy] using .var h
        · simpa [walkWithin, hx, hy] using ih t u htu (.some htu)
      | _ => exact known
  rw [Subst.walk?, Subst.walk?, hs.size]
  exact within s.size t u h

lemma resolve? (hs : Renamed f s s') (h : Term.Renamed f t u) :
    Option.Rel (Term.Renamed f) (s.resolve? t) (s'.resolve? u) := by
  have within (k : Nat) (t u : Term) (h : Term.Renamed f t u) :
      Option.Rel (Term.Renamed f) (s.resolveWithin k t) (s'.resolveWithin k u) := by
    induction k generalizing t u with
    | zero =>
      refine Term.Renamed.replaceVars (fun x y hxy => ?_) h
      rw [has_eq_isSome, has_eq_isSome]
      rcases rel_cases (hs.find? hxy) with ⟨hx, hy⟩ | ⟨_, _, hx, hy, -⟩
      · simpa [hx, hy] using .var hxy
      · simp [hx, hy]
    | succ k ih =>
      refine Term.Renamed.replaceVars (fun x y hxy => ?_) h
      rcases rel_cases (hs.find? hxy) with ⟨hx, hy⟩ | ⟨t, u, hx, hy, htu⟩
      · simpa [hx, hy] using .var hxy
      · simpa [hx, hy] using ih t u htu
  rw [Subst.resolve?, Subst.resolve?, hs.size]
  exact within s.size t u h

lemma items? (hs : Renamed f s s') (h : Term.Renamed f t u) :
    Option.Rel (List.Forall₂ (Term.Renamed f)) (s.items? t) (s'.items? u) := by
  have within (k : Nat) (t u : Term) (h : Term.Renamed f t u) :
      Option.Rel (List.Forall₂ (Term.Renamed f)) (s.itemsWithin k t) (s'.itemsWithin k u) := by
    have items := h.items
    have ending := h.ending
    generalize ht : t.ending = a at ending
    generalize hu : u.ending = b at ending
    induction k generalizing t u a b with
    | zero =>
      cases ending with
      | var h =>
        rcases rel_cases (hs.find? h) with ⟨hx, hy⟩ | ⟨_, _, hx, hy, -⟩
        · simpa [itemsWithin, ht, hu, hx, hy] using items
        · simp [itemsWithin, ht, hu, hx, hy]
      | _ => simpa [itemsWithin, ht, hu] using items
    | succ k ih =>
      cases ending with
      | var h =>
        rcases rel_cases (hs.find? h) with ⟨hx, hy⟩ | ⟨t', u', hx, hy, htu⟩
        · simpa [itemsWithin, ht, hu, hx, hy] using items
        · rcases rel_cases (ih t' u' htu htu.items _ rfl _ rfl htu.ending) with
            ⟨hr, hr'⟩ | ⟨ts, us, hr, hr', more⟩
          · simp [itemsWithin, ht, hu, hx, hy, hr, hr']
          · simpa [itemsWithin, ht, hu, hx, hy, hr, hr'] using List.rel_append items more
      | _ => simpa [itemsWithin, ht, hu] using items
  rw [Subst.items?, Subst.items?, hs.size]
  exact within s.size t u h

end Renamed

/-! ### Answers -/

section

variable {s s' : Subst}

lemma Renamed.reify? (hf : f.Injective) (hs : Renamed f s s') {t u : Term}
    (h : Term.Renamed f t u) : s.reify? t = s'.reify? u := by
  rw [reify?_eq, reify?_eq]
  rcases rel_cases (hs.resolve? h) with ⟨ht, hu⟩ | ⟨a, b, ht, hu, hab⟩
  · rw [ht, hu]
  · rw [ht, hu, Option.map_some, Option.map_some, hab.numbered_eq hf]

lemma Renamed.reifyAll? (hf : f.Injective) (hs : Renamed f s s') {xs ys : List Var}
    (h : List.Forall₂ (fun x y => y.id = f x.id) xs ys) : s.reifyAll? xs = s'.reifyAll? ys := by
  have lists : Term.Renamed f (.ofList (xs.map .var)) (.ofList (ys.map .var)) := by
    induction h with
    | nil => exact .nil
    | cons h _ ih => exact .pair (.var h) ih
  rw [Subst.reifyAll?, Subst.reifyAll?, hs.reify? hf lists]

end

/-! ### Unification -/

inductive Meeting.Renamed (f : Nat → Nat) : Meeting → Meeting → Prop
  | agree : Renamed f .agree .agree
  | clash : Renamed f .clash .clash
  | bind {x y : Var} {t u : Term} (h : y.id = f x.id) (ht : Term.Renamed f t u) :
      Renamed f (.bind x t) (.bind y u)
  | pairs {a d b e a' d' b' e' : Term} (ha : Term.Renamed f a a') (hd : Term.Renamed f d d')
      (hb : Term.Renamed f b b') (he : Term.Renamed f e e') :
      Renamed f (.pairs a d b e) (.pairs a' d' b' e')
  | succs {p q p' q' : Term} (hp : Term.Renamed f p p') (hq : Term.Renamed f q q') :
      Renamed f (.succs p q) (.succs p' q')

lemma renamed_meet (hf : f.Injective) {a b a' b' : Term} (ha : Term.Renamed f a a')
    (hb : Term.Renamed f b b') : Meeting.Renamed f (meet a b) (meet a' b') := by
  unfold meet
  rw [← ha.beq_eq hf hb]
  split
  · exact .agree
  cases ha with
  | wildcard => exact .agree
  | var hx =>
    cases hb with
    | wildcard => exact .agree
    | var hy => exact .bind hx (.var hy)
    | pair hb he => exact .bind hx (.pair hb he)
    | succ hq => exact .bind hx (.succ hq)
    | nil => exact .bind hx .nil
    | zero => exact .bind hx .zero
    | atom => exact .bind hx .atom
    | placeholder => exact .bind hx .placeholder
  | pair ha hd =>
    cases hb with
    | wildcard => exact .agree
    | var hy => exact .bind hy (.pair ha hd)
    | pair hb he => exact .pairs ha hd hb he
    | _ => exact .clash
  | succ hp =>
    cases hb with
    | wildcard => exact .agree
    | var hy => exact .bind hy (.succ hp)
    | succ hq => exact .succs hp hq
    | _ => exact .clash
  | nil =>
    cases hb with
    | wildcard => exact .agree
    | var hy => exact .bind hy .nil
    | _ => exact .clash
  | zero =>
    cases hb with
    | wildcard => exact .agree
    | var hy => exact .bind hy .zero
    | _ => exact .clash
  | atom =>
    cases hb with
    | wildcard => exact .agree
    | var hy => exact .bind hy .atom
    | _ => exact .clash
  | placeholder =>
    cases hb with
    | wildcard => exact .agree
    | var hy => exact .bind hy .placeholder
    | _ => exact .clash

namespace Renamed

variable {s s' : Subst} {u v u' v' : Term}

lemma unifyWithin (hf : f.Injective) (hs : Renamed f s s') (hu : Term.Renamed f u u')
    (hv : Term.Renamed f v v') (n : Nat) :
    Option.Rel (Option.Rel (Renamed f)) (unifyWithin n s u v) (unifyWithin n s' u' v') := by
  induction n generalizing s s' u v u' v' with
  | zero => exact .none
  | succ n ih =>
    rw [unifyWithin_succ, unifyWithin_succ]
    rcases rel_cases (hs.walk? hu) with ⟨ha, ha'⟩ | ⟨a, a', ha, ha', haa⟩
    · simp [ha, ha']
    rcases rel_cases (hs.walk? hv) with ⟨hb, hb'⟩ | ⟨b, b', hb, hb', hbb⟩
    · simp [ha, ha', hb, hb']
    simp only [ha, ha', hb, hb']
    have met := renamed_meet hf haa hbb
    generalize meet a b = m at met
    generalize meet a' b' = m' at met
    cases met with
    | agree => exact .some (.some hs)
    | clash => exact .some .none
    | bind h ht => exact .some (.some (hs.extend hf h ht))
    | succs hp hq => exact ih hs hp hq
    | @pairs a d b e a' d' b' e' ha hd hb he =>
      dsimp only
      rcases rel_cases (ih hs ha hb) with ⟨hr, hr'⟩ | ⟨r, r', hr, hr', hrr⟩
      · simp [hr, hr']
      rcases rel_cases hrr with ⟨rfl, rfl⟩ | ⟨t, t', rfl, rfl, ht⟩
      · simp [hr, hr']
      · simpa [hr, hr'] using ih ht hd he

/-- Unification gives the same up to new numbers, and has an end in both cases or in neither. -/
lemma unify? (hf : f.Injective) (hs : Renamed f s s') (hu : Term.Renamed f u u')
    (hv : Term.Renamed f v v') :
    Option.Rel (Option.Rel (Renamed f)) (s.unify? u v) (s'.unify? u' v') :=
  rel_unify? (unifyWithin hf hs hu hv)

end Renamed

/-! ### The bindings one by one -/

/-- The bindings in the order of their variables, with new numbers and without names. -/
def renamed (f : Nat → Nat) (s : Subst) : List (Nat × Term) :=
  s.entries.toList.map fun b => (f b.1, b.2.2.rename f)

lemma mem_renamed {s : Subst} {b : Nat × Term} :
    b ∈ s.renamed f ↔ ∃ x t, s.find? x = some t ∧ b = (f x.id, t.rename f) := by
  rw [renamed, List.mem_map]
  constructor
  · rintro ⟨⟨i, x, t⟩, hb, rfl⟩
    refine ⟨⟨i, none⟩, t, ?_, rfl⟩
    simp [find?, Std.TreeMap.mem_toList_iff_getElem?_eq_some.mp hb]
  · rintro ⟨x, t, hx, rfl⟩
    obtain ⟨⟨y, t⟩, hy, rfl⟩ := Option.map_eq_some_iff.mp hx
    exact ⟨⟨x.id, y, t⟩, Std.TreeMap.mem_toList_iff_getElem?_eq_some.mpr hy, rfl⟩

lemma pairwise_renamed (hf : StrictMono f) (s : Subst) :
    (s.renamed f).Pairwise fun b c => b.1 < c.1 := by
  refine List.pairwise_map.mpr (Std.TreeMap.ordered_keys_toList.imp fun h => hf ?_)
  exact Nat.compare_eq_lt.mp h

/-- A renaming that keeps the order of the variables keeps the order of the bindings. -/
theorem Renamed.renamed_eq (hf : StrictMono f) {s s' : Subst} (hs : Renamed f s s') :
    s.renamed f = s'.renamed id := by
  have first := pairwise_renamed hf s
  have second := pairwise_renamed (f := id) strictMono_id s'
  have different {b c : Nat × Term} (h : b.1 < c.1) : b ≠ c := fun he => h.ne (congrArg Prod.fst he)
  refine List.Perm.eq_of_pairwise (fun b c _ _ h h' => absurd h h'.asymm) first second
    ((List.perm_ext_iff_of_nodup (first.imp different) (second.imp different)).mpr fun b => ?_)
  rw [mem_renamed, mem_renamed]
  constructor
  · rintro ⟨x, t, hx, rfl⟩
    have bound := hs.find? (x := x) (y := ⟨f x.id, none⟩) rfl
    rcases rel_cases bound with ⟨he, -⟩ | ⟨t', u, he, hu, htu⟩ <;> rw [hx] at he <;> cases he
    exact ⟨_, u, hu, by rw [htu.rename_eq]; rfl⟩
  · rintro ⟨y, u, hy, rfl⟩
    obtain ⟨i, hi⟩ := hs.onto hy
    have bound := hs.find? (x := ⟨i, none⟩) (y := y) hi
    rcases rel_cases bound with ⟨-, he⟩ | ⟨t, u', ht, he, htu⟩ <;> rw [hy] at he <;> cases he
    exact ⟨_, t, ht, by rw [htu.rename_eq, hi]; rfl⟩

end Subst

end Relational
