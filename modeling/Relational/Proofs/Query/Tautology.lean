import Mathlib.Data.List.Forall2
import Mathlib.Data.Set.List
import Relational.Proofs.Query.Solve
import Relational.Proofs.Subst.Depth

/-!
Tautologies. A query holds whatever its variables are if every state leaves them open and apart.
It is told by its one solution, in which all values are placeholders and different: such a solution
is read from no other states, and all of these are read alike.
-/

namespace Relational

open scoped List

namespace Firsts

variable {α : Type} {R : α → α → Prop} {seen as kept : List α} {a b : α}

lemma seen_of_nil (h : Firsts R seen as kept) (hk : kept = [])
    (trans : ∀ a b c, R a b → R b c → R a c) : ∀ a ∈ as, ∃ b ∈ seen, R b a := by
  induction h with
  | nil => simp
  | again hb hab _ ih =>
    refine List.forall_mem_cons.mpr ⟨⟨_, hb, hab⟩, fun c hc => ?_⟩
    obtain ⟨d, hd, hdc⟩ := ih hk c hc
    rcases List.mem_cons.mp hd with rfl | hd
    · exact ⟨_, hb, trans _ _ _ hab hdc⟩
    · exact ⟨d, hd, hdc⟩
  | new => cases hk

lemma nil_of_seen (h : Firsts R seen as kept) (hb : b ∈ seen) (hab : ∀ a ∈ as, R b a) :
    kept = [] := by
  induction h with
  | nil => rfl
  | again _ _ _ ih =>
    exact ih (List.mem_cons_of_mem _ hb) fun c hc => hab c (List.mem_cons_of_mem _ hc)
  | new ha => exact absurd (hab _ List.mem_cons_self) (ha b hb)

/-- Only one element is kept if and only if the first is related to all others. -/
lemma singleton_iff (h : Firsts R [] (a :: as) kept) (trans : ∀ a b c, R a b → R b c → R a c) :
    kept = [b] ↔ a = b ∧ ∀ c ∈ as, R a c := by
  cases h with
  | again hb => exact absurd hb List.not_mem_nil
  | new _ h =>
    rw [List.cons.injEq]
    refine and_congr_right fun _ => ⟨fun hk c hc => ?_, h.nil_of_seen List.mem_cons_self⟩
    obtain ⟨d, hd, hdc⟩ := h.seen_of_nil hk trans c hc
    exact List.mem_singleton.mp hd ▸ hdc

end Firsts

lemma Answer.distinctPlaceholders_iff {ts : List Term} : Answer.distinctPlaceholders ts = true ↔
    (∀ t ∈ ts, t.kind = .placeholder) ∧ ts.Pairwise fun t u => (t == u) = false := by
  have place : Answer.distinctPlaceholders ts = true ↔ ∀ i (hi : i < ts.length),
      ts[i].kind = .placeholder ∧ ∀ u ∈ ts.take i, (u == ts[i]) = false := by
    simp only [Answer.distinctPlaceholders, List.all_eq_true, Bool.and_eq_true, beq_iff_eq,
      Bool.not_eq_true', Prod.forall, List.mem_zipIdx_iff_getElem?]
    constructor
    · exact fun h i hi => h _ i (List.getElem?_eq_getElem hi)
    · rintro h t i ht
      obtain ⟨hi, rfl⟩ := List.getElem?_eq_some_iff.mp ht
      exact h i hi
  rw [place, List.pairwise_iff_getElem, List.forall_mem_iff_forall_getElem]
  constructor
  · intro h
    refine ⟨fun i hi => (h i hi).1, fun i j hi hj hij => (h j hj).2 _ ?_⟩
    exact List.mem_take_iff_getElem.mpr ⟨i, by omega, rfl⟩
  · rintro ⟨kinds, apart⟩ i hi
    refine ⟨kinds i hi, fun u hu => ?_⟩
    obtain ⟨j, hj, rfl⟩ := List.mem_take_iff_getElem.mp hu
    exact apart j i (by omega) hi (by omega)

namespace Query

variable (q : Query) {s : State} {a b : Solution}

/-- Every query variable is followed to one that is not bound, and different ones to different
ones. -/
structure LeavesOpen (s : State) : Prop where
  opened : ∀ x ∈ q.vars, ∃ y, s.subst.walk? (.var x) = some (.var y) ∧ s.subst.find? y = none
  apart : q.vars.Pairwise fun x y => ∀ x' y', s.subst.walk? (.var x) = some (.var x') →
    s.subst.walk? (.var y) = some (.var y') → x'.id ≠ y'.id

variable {q}

/-! ### One state -/

lemma resolved_of_solution (h : q.solution s = .ok a) :
    ∃ us, List.Forall₂ (fun x u => s.subst.resolve? (.var x) = some u) q.vars us ∧
      a = ⟨q.vars.zip (us.map (Term.placeBy (Term.ofList us).order))⟩ := by
  rcases hr : s.subst.resolve? (.ofList (q.vars.map .var)) with _ | r
  · simp [solution, Subst.reifyAll?, Subst.reify?_eq, hr] at h
  · obtain ⟨us, rfl, items⟩ := Subst.resolve?_ofList hr
    rw [solution, Subst.reifyAll?_eq hr] at h
    exact ⟨us, by simpa using items, (Except.ok.inj h).symm⟩

lemma walk?_iff {x y : Var} {u : Term} (h : s.subst.resolve? (.var x) = some u) :
    s.subst.walk? (.var x) = some (.var y) ↔ u = .var y :=
  Subst.walk?_eq_some_iff.trans (Subst.walks_var_iff h)

lemma opened_iff {xs : List Var} {us : List Term}
    (h : List.Forall₂ (fun x u => s.subst.resolve? (.var x) = some u) xs us) :
    (∀ x ∈ xs, ∃ y, s.subst.walk? (.var x) = some (.var y) ∧ s.subst.find? y = none) ↔
      ∃ ys : List Var, us = ys.map .var := by
  induction h with
  | nil => simp
  | @cons x u xs us hu _ ih =>
    rw [List.forall_mem_cons, ih]
    constructor
    · rintro ⟨⟨y, hy, -⟩, ys, rfl⟩
      exact ⟨y :: ys, by rw [(walk?_iff hu).mp hy, List.map_cons]⟩
    · rintro ⟨ys, hys⟩
      obtain ⟨y, ys, rfl, rfl, rfl⟩ := List.map_eq_cons_iff.mp hys.symm
      have walk := (walk?_iff hu).mpr rfl
      exact ⟨⟨y, walk, (Subst.walk?_eq_some_iff.mp walk).find?_eq_none⟩, ys, rfl⟩

lemma apart_iff {xs ys : List Var}
    (h : List.Forall₂ (fun x u => s.subst.resolve? (.var x) = some u) xs (ys.map .var)) :
    (xs.Pairwise fun x y => ∀ x' y', s.subst.walk? (.var x) = some (.var x') →
      s.subst.walk? (.var y) = some (.var y') → x'.id ≠ y'.id) ↔ (ys.map Var.id).Nodup := by
  rw [List.forall₂_map_right_iff, List.forall₂_iff_get] at h
  obtain ⟨length, items⟩ := h
  have walk (i : Nat) (hi : i < xs.length) (hi' : i < ys.length) :
      s.subst.walk? (.var xs[i]) = some (.var ys[i]) := (walk?_iff (items i hi hi')).mpr rfl
  rw [List.Nodup, List.pairwise_map, List.pairwise_iff_getElem, List.pairwise_iff_getElem]
  constructor
  · intro hp i j hi hj hij
    exact hp i j (by omega) (by omega) hij _ _ (walk i _ hi) (walk j _ hj)
  · intro hp i j hi hj hij x y hx hy
    rw [walk i hi (by omega)] at hx
    rw [walk j hj (by omega)] at hy
    cases hx
    cases hy
    exact hp i j _ _ hij

/-- The query variables are left open if they resolve to variables, all different. -/
lemma leavesOpen_iff {us : List Term}
    (h : List.Forall₂ (fun x u => s.subst.resolve? (.var x) = some u) q.vars us) :
    q.LeavesOpen s ↔ ∃ ys : List Var, us = ys.map .var ∧ (ys.map Var.id).Nodup := by
  constructor
  · rintro ⟨opened, apart⟩
    obtain ⟨ys, rfl⟩ := (opened_iff h).mp opened
    exact ⟨ys, rfl, (apart_iff h).mp apart⟩
  · rintro ⟨ys, rfl, nodup⟩
    exact ⟨(opened_iff h).mpr ⟨ys, rfl⟩, (apart_iff h).mpr nodup⟩

lemma placed_of_nodup {ys : List Var} (h : (ys.map Var.id).Nodup) :
    (ys.map Term.var).map (Term.placeBy (Term.ofList (ys.map .var)).order) =
      (List.range ys.length).map .placeholder := by
  have order : (Term.ofList (ys.map .var)).order = ys.map Var.id := by
    have ids : (Term.ofList (ys.map .var)).ids = ys.map Var.id := by
      rw [Term.ids_ofList, List.flatMap_map, List.map_eq_flatMap]
      simp
    rw [Term.order, ids, eraseDups_of_nodup h]
  have places : (ys.map Var.id).map (fun i => (ys.map Var.id).idxOf i) = List.range ys.length := by
    simpa using map_idxOf_of_nodup h
  rw [order, ← places]
  simp [Term.placeBy]

/-- The solution that says nothing: a placeholder of its own for each query variable. -/
def unbound (q : Query) : Solution := ⟨q.vars.zip ((List.range q.vars.length).map .placeholder)⟩

lemma values_unbound : q.unbound.values = (List.range q.vars.length).map .placeholder :=
  List.map_snd_zip (by simp)

lemma distinctPlaceholders_unbound : Answer.distinctPlaceholders q.unbound.values = true := by
  rw [values_unbound, Answer.distinctPlaceholders_iff]
  refine ⟨by simp [Term.kind], List.pairwise_map.mpr ?_⟩
  exact List.nodup_range.imp fun {i j} (hij : i ≠ j) => beq_false_of_ne hij

lemma unbound_beq_self : (q.unbound == q.unbound) = true := by
  rw [Solution.beq_iff, List.forall₂_same]
  intro b hb
  obtain ⟨n, -, hn⟩ := List.mem_map.mp (List.of_mem_zip hb).2
  exact ⟨rfl, by rw [← hn, Term.beq_self]; rfl⟩

/-- **A state leaves the query variables open if it reads as placeholders, all different.** They
are the first ones in their order then. -/
lemma leavesOpen_iff_reading (hs : s.subst.PlaceholderFree) (h : q.solution s = .ok a) :
    (q.LeavesOpen s ↔ Answer.distinctPlaceholders a.values = true) ∧
      (q.LeavesOpen s ↔ a = q.unbound) := by
  obtain ⟨us, resolved, rfl⟩ := resolved_of_solution h
  have length : us.length = q.vars.length := resolved.length_eq.symm
  have values : (⟨q.vars.zip (us.map (Term.placeBy (Term.ofList us).order))⟩ : Solution).values =
      us.map (Term.placeBy (Term.ofList us).order) := List.map_snd_zip (by simp [length])
  have first : q.LeavesOpen s →
      ⟨q.vars.zip (us.map (Term.placeBy (Term.ofList us).order))⟩ = q.unbound := by
    rw [leavesOpen_iff resolved]
    rintro ⟨ys, rfl, nodup⟩
    rw [placed_of_nodup nodup, unbound, ← length, List.length_map]
  have apart : Answer.distinctPlaceholders (us.map (Term.placeBy (Term.ofList us).order)) = true →
      q.LeavesOpen s := by
    rw [leavesOpen_iff resolved, Answer.distinctPlaceholders_iff]
    rintro ⟨kinds, apart⟩
    -- only variables have become placeholders
    have vars : us ∈ Set.range (List.map Term.var) := by
      rw [Set.range_list_map]
      intro u hu
      have kind := kinds _ (List.mem_map_of_mem hu)
      obtain ⟨i, hi, rfl⟩ := List.getElem_of_mem hu
      have value := resolved.get (length ▸ hi) hi
      have free : us[i].hasPlaceholder = false := hs.resolve? (t := .var _) rfl value
      generalize us[i] = u at kind free
      cases u with
      | var y => exact ⟨y, rfl⟩
      | placeholder n => cases free
      | _ => cases kind
    obtain ⟨ys, rfl⟩ := vars
    refine ⟨ys, rfl, ?_⟩
    rw [List.pairwise_map, List.pairwise_map] at apart
    refine List.pairwise_map.mpr (apart.imp fun {x y} different same => ?_)
    simp [Term.placeBy, same, Term.beq_self, Term.isWildcard] at different
  constructor
  · refine ⟨fun opened => ?_, fun distinct => apart (values ▸ distinct)⟩
    rw [first opened]
    exact distinctPlaceholders_unbound
  · refine ⟨first, fun same => apart ?_⟩
    rw [← values, same]
    exact distinctPlaceholders_unbound

/-! ### All states -/

variable {budget : Nat} {answer : Answer} {events : List Event}

lemma forall₂_of_mapM {α β ε : Type} {f : α → Except ε β} {as : List α} {bs : List β}
    (h : as.mapM f = .ok bs) : List.Forall₂ (fun a b => f a = .ok b) as bs := by
  induction as generalizing bs with
  | nil => cases h; exact .nil
  | cons a as ih =>
    rw [List.mapM_cons] at h
    rcases ha : f a with e | b
    · simp [ha, bind, Except.bind] at h
    rcases has : as.mapM f with e | bs'
    · simp [ha, has, bind, Except.bind] at h
    rw [ha, has] at h
    cases h
    exact .cons ha (ih has)

lemma forall_mem_iff_of_forall₂ {α β : Type} {P : α → Prop} {Q : β → Prop} {as : List α}
    {bs : List β} (h : List.Forall₂ (fun a b => P a ↔ Q b) as bs) :
    (∀ a ∈ as, P a) ↔ ∀ b ∈ bs, Q b := by
  induction h with
  | nil => simp
  | cons hab _ ih => rw [List.forall_mem_cons, List.forall_mem_cons, hab, ih]

lemma harvest_of_solve (h : q.solve budget = .ok (answer, events)) :
    ∃ h found, q.harvest budget = .ok h ∧ h.items.toList.mapM q.solution = .ok found ∧
      answer.solutions = (tally found).kept.toList := by
  rw [solve] at h
  rcases hh : q.harvest budget with e | h'
  · simp [hh, bind, Except.bind] at h
  rcases hf : h'.items.toList.mapM q.solution with e | found
  · simp [hh, hf, bind, Except.bind] at h
  simp only [hh, hf, bind, Except.bind, pure, Except.pure, Except.ok.injEq, Prod.mk.injEq] at h
  obtain ⟨rfl, -⟩ := h
  exact ⟨h', found, rfl, hf, rfl⟩

lemma values_eq_of_beq (h : (a == b) = true) (ha : ∀ t ∈ a.values, t.kind = .placeholder) :
    b.values = a.values := by
  have equal : List.Forall₂ (fun t u => (t == u) = true) a.values b.values := by
    rw [Solution.values, Solution.values, List.forall₂_map_left_iff, List.forall₂_map_right_iff]
    exact (Solution.beq_iff.mp h).imp fun _ _ => And.right
  generalize a.values = ts at equal ha
  generalize b.values = us at equal
  induction equal with
  | nil => rfl
  | @cons t u ts us htu _ ih =>
    obtain ⟨kind, kinds⟩ := List.forall_mem_cons.mp ha
    have same : u = t := by
      cases t with
      | placeholder n => cases u <;> simp_all [BEq.beq, Term.same, Term.sameParts, Term.isWildcard]
      | _ => cases kind
    rw [same, ih kinds]

/-- There is one solution of different placeholders if all that was found is that. -/
lemma isTautology_iff_found {found : List Solution} (h : answer.solutions = (tally found).kept.toList)
    (hf : ∀ a ∈ found, Answer.distinctPlaceholders a.values = true → a = q.unbound) :
    answer.isTautology = true ↔
      found ≠ [] ∧ ∀ a ∈ found, Answer.distinctPlaceholders a.values = true := by
  have one : answer.isTautology = true ↔
      ∃ b, answer.solutions = [b] ∧ Answer.distinctPlaceholders b.values = true := by
    rw [Answer.isTautology]
    split
    · rename_i b hb
      refine ⟨fun apart => ⟨b, hb, apart⟩, fun ⟨c, hc, apart⟩ => ?_⟩
      rw [hb] at hc
      cases hc
      exact apart
    · rename_i others
      exact ⟨fun hf => (Bool.false_ne_true hf).elim, fun ⟨b, hb, _⟩ => (others b hb).elim⟩
  obtain ⟨kept, firsts⟩ := exists_firsts (fun a b => (a == b) = true) [] found
  rw [one, h, tally_eq firsts]
  cases found with
  | nil => cases firsts; simp
  | cons a as =>
    simp only [firsts.singleton_iff fun _ _ _ => Solution.beq_trans, List.forall_mem_cons]
    constructor
    · rintro ⟨_, ⟨rfl, equal⟩, apart⟩
      refine ⟨List.cons_ne_nil _ _, apart, fun c hc => ?_⟩
      rw [values_eq_of_beq (equal c hc) (Answer.distinctPlaceholders_iff.mp apart).1]
      exact apart
    · rintro ⟨-, first, later⟩
      refine ⟨a, ⟨rfl, fun c hc => ?_⟩, first⟩
      rw [hf a List.mem_cons_self first, hf c (List.mem_cons_of_mem _ hc) (later c hc)]
      exact unbound_beq_self

/-- **A query is a tautology if and only if some state was found, and every state leaves the query
variables open and apart.** -/
theorem isTautology_iff_leavesOpen (hg : q.goal.hasPlaceholder = false)
    (hp : q.program.hasPlaceholder = false) (h : q.solve budget = .ok (answer, events)) :
    ∃ found, q.harvest budget = .ok found ∧ (answer.isTautology = true ↔
      0 < found.items.size ∧ ∀ s ∈ found.items.toList, q.LeavesOpen s) := by
  obtain ⟨states, found, hh, read, solutions⟩ := harvest_of_solve h
  refine ⟨states, hh, ?_⟩
  have each : List.Forall₂ (fun s a =>
      (q.LeavesOpen s ↔ Answer.distinctPlaceholders a.values = true) ∧
        (q.LeavesOpen s ↔ a = q.unbound)) states.items.toList found := by
    have free := placeholderFree_of_harvest hg hp hh
    exact ((List.forall₂_and_left _ _).mpr ⟨free, forall₂_of_mapM read⟩).imp
      fun s a hsa => leavesOpen_iff_reading hsa.1 hsa.2
  have length : found.length = states.items.size := by simpa using each.length_eq.symm
  have unbound : ∀ a ∈ found, Answer.distinctPlaceholders a.values = true → a = q.unbound := by
    intro a ha apart
    obtain ⟨i, hi, rfl⟩ := List.getElem_of_mem ha
    obtain ⟨opened, free⟩ := each.get (by simpa [length] using hi) hi
    exact free.mp (opened.mpr apart)
  rw [isTautology_iff_found solutions unbound, ← length, List.length_pos_iff]
  refine and_congr_right fun _ => ?_
  exact (forall_mem_iff_of_forall₂ (each.imp fun _ _ hsa => hsa.1)).symm

/-- Either `x` is some new variable, or nothing is said of it. -/
def renamed : Query := ask .empty ["x", "y"] (.disj [.freshNamed ["z"] [.eq "x" "z"], .succeed])

/-- The two states of a tautology read as one solution, though `x` is bound in the first. -/
theorem isTautology_iff_leavesOpen_renamed : ∃ answer events found,
    renamed.solve 0 = .ok (answer, events) ∧ renamed.harvest 0 = .ok found ∧
    found.items.size = 2 ∧ answer.isTautology = true := by
  obtain ⟨answer, events, solved⟩ : ∃ answer events, renamed.solve 0 = .ok (answer, events) :=
    ⟨_, _, rfl⟩
  obtain ⟨found, hh, tautology⟩ := isTautology_iff_leavesOpen rfl rfl solved
  obtain ⟨two, items⟩ : found.items.size = 2 ∧ found.items.toList =
      [(State.boundless 3).withSubst (Subst.empty.extend ⟨0, some "x"⟩ (.var ⟨2, some "z"⟩)),
        .boundless 2] := by
    cases hh
    exact ⟨rfl, rfl⟩
  have leaves {s : State} {x y : Var} (hx : s.subst.resolve? (.var ⟨0, some "x"⟩) = some (.var x))
      (hy : s.subst.resolve? (.var ⟨1, some "y"⟩) = some (.var y)) (hxy : x.id ≠ y.id) :
      renamed.LeavesOpen s := by
    have resolved : List.Forall₂ (fun x u => s.subst.resolve? (.var x) = some u) renamed.vars
        [.var x, .var y] := by
      constructor
      · exact hx
      · exact .cons hy .nil
    exact (leavesOpen_iff resolved).mpr ⟨[x, y], rfl, by simpa using hxy⟩
  refine ⟨answer, events, found, solved, hh, two, tautology.mpr ⟨by omega, ?_⟩⟩
  rw [items]
  refine List.forall_mem_cons.mpr ⟨?bound, List.forall_mem_singleton.mpr ?free⟩
  case bound => exact leaves (x := ⟨2, some "z"⟩) rfl rfl (by decide)
  case free => exact leaves rfl rfl (by decide)

end Query

end Relational
