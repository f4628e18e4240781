import Mathlib.Data.List.Induction
import Mathlib.Data.List.Nodup
import Mathlib.Data.Set.Function
import Relational.Proofs.Term.Valuation

/-!
Terms up to the choice of their variables. A renaming changes the numbers of variables and drops
their names; terms that differ by a renaming only are variants. Numbering the variables of a term
by placeholders, in the order in which they occur first, gives variants the same term, and gives
different terms to all others that hold no placeholders of their own.
-/

namespace Relational

namespace Term

def rename (f : Nat → Nat) : Term → Term
  | var x => var ⟨f x.id, none⟩
  | pair a d => pair (a.rename f) (d.rename f)
  | succ p => succ (p.rename f)
  | t => t

/-- Equal up to a renaming of variables that keeps different ones different. -/
def Variant (t u : Term) : Prop :=
  ∃ f : Nat → Nat, Set.InjOn f {i | i ∈ t.ids} ∧ sameParts (t.rename f) u = true

/-- The term with a placeholder for each variable: its place in a list of numbers. -/
def placeBy (is : List Nat) : Term → Term
  | var x => placeholder (is.idxOf x.id)
  | pair a d => pair (a.placeBy is) (d.placeBy is)
  | succ p => succ (p.placeBy is)
  | t => t

/-- The numbers of the variables in the order in which they occur first. -/
def order (t : Term) : List Nat := t.ids.eraseDups

/-- The term with placeholders for its variables, numbered as they occur first. -/
def numbered (t : Term) : Term := t.placeBy t.order

def hasPlaceholder : Term → Bool
  | placeholder _ => true
  | pair a d => a.hasPlaceholder || d.hasPlaceholder
  | succ p => p.hasPlaceholder
  | _ => false

variable {t u v : Term} {f g : Nat → Nat}

@[simp] lemma rename_var (f : Nat → Nat) (x : Var) : (var x).rename f = var ⟨f x.id, none⟩ := rfl
@[simp] lemma rename_pair (f : Nat → Nat) (a d : Term) :
    (pair a d).rename f = pair (a.rename f) (d.rename f) := rfl
@[simp] lemma rename_succ (f : Nat → Nat) (p : Term) : (succ p).rename f = succ (p.rename f) := rfl

@[simp] lemma placeBy_pair (is : List Nat) (a d : Term) :
    (pair a d).placeBy is = pair (a.placeBy is) (d.placeBy is) := rfl

lemma placeBy_ofList (is : List Nat) (ts : List Term) :
    (ofList ts).placeBy is = ofList (ts.map (placeBy is)) := by
  induction ts with
  | nil => rfl
  | cons t ts ih => exact congrArg (pair _) ih

lemma ids_ofList (ts : List Term) : (ofList ts).ids = ts.flatMap ids := by
  induction ts with
  | nil => rfl
  | cons t ts ih => exact (ids_pair t (ofList ts)).trans (congrArg (t.ids ++ ·) ih)

/-! ### Renamings -/

lemma ids_rename (f : Nat → Nat) (t : Term) : (t.rename f).ids = t.ids.map f := by
  induction t with
  | pair a d iha ihd => simp [iha, ihd]
  | succ p ih => exact ih
  | _ => rfl

@[simp] lemma hasWildcard_rename (f : Nat → Nat) (t : Term) :
    (t.rename f).hasWildcard = t.hasWildcard := by
  induction t with
  | pair a d iha ihd => simp [hasWildcard, iha, ihd]
  | succ p ih => exact ih
  | _ => rfl

lemma ids_of_sameParts (h : sameParts t u = true) : t.ids = u.ids := by
  fun_induction sameParts t u with
  | case1 x y => simpa using h
  | case3 a d b e iha ihd =>
    rw [Bool.and_eq_true] at h
    rw [ids_pair, ids_pair, iha h.1, ihd h.2]
  | case6 p q ih => exact ih h
  | case9 => simp at h
  | _ => rfl

lemma sameParts_rename_id (t : Term) : sameParts (t.rename id) t = true := by
  induction t with
  | var x => simp [sameParts]
  | pair a d iha ihd => simp [sameParts, iha, ihd]
  | succ p ih => simpa [sameParts] using ih
  | _ => exact sameParts_refl _

/-- A variant is made by a bijection between the variables of the two terms. -/
lemma variant_iff_bijOn (ht : t.hasWildcard = false) : t.Variant u ↔
    ∃ f : Nat → Nat, Set.BijOn f {i | i ∈ t.ids} {i | i ∈ u.ids} ∧ (t.rename f == u) = true := by
  refine exists_congr fun f => ?_
  rw [beq_eq_sameParts (by rw [hasWildcard_rename, ht])]
  refine and_congr_left fun hs => ⟨fun hf => ?_, Set.BijOn.injOn⟩
  have onto : {i | i ∈ u.ids} = f '' {i | i ∈ t.ids} := by
    ext i
    simp [← ids_of_sameParts hs, ids_rename]
  exact onto ▸ hf.bijOn_image

/-! ### Numbering -/

lemma mem_order {i : Nat} : i ∈ t.order ↔ i ∈ t.ids := List.mem_eraseDups

end Term

lemma nodup_eraseDups (l : List Nat) : l.eraseDups.Nodup := by
  cases l with
  | nil => simp
  | cons a l =>
    rw [List.eraseDups_cons, List.nodup_cons]
    exact ⟨by simp [List.mem_eraseDups], nodup_eraseDups _⟩
termination_by l.length
decreasing_by
  have := List.length_filter_le (fun b => !b == a) l
  simp only [List.length_cons]
  omega

lemma eraseDups_append_of_mem {l : List Nat} {i : Nat} (h : i ∈ l) :
    (l ++ [i]).eraseDups = l.eraseDups := by
  simp [List.eraseDups_append, List.removeAll, h]

lemma eraseDups_append_of_notMem {l : List Nat} {i : Nat} (h : i ∉ l) :
    (l ++ [i]).eraseDups = l.eraseDups ++ [i] := by
  simp [List.eraseDups_append, List.removeAll, h, List.eraseDups_cons]

lemma eraseDups_of_nodup {l : List Nat} (h : l.Nodup) : l.eraseDups = l := by
  induction l using List.reverseRecOn with
  | nil => rfl
  | append_singleton l a ih =>
    obtain ⟨hl, -, apart⟩ := List.nodup_append.mp h
    have fresh : a ∉ l := fun ha => apart a ha a (by simp) rfl
    rw [eraseDups_append_of_notMem fresh, ih hl]

lemma map_idxOf_of_nodup {l : List Nat} (h : l.Nodup) :
    l.map (fun i => l.idxOf i) = List.range l.length := by
  refine List.ext_getElem (by simp) fun i hi _ => ?_
  rw [List.getElem_map, List.getElem_range, h.idxOf_getElem]

lemma eraseDups_map {f : Nat → Nat} (l : List Nat) (hf : Set.InjOn f {i | i ∈ l}) :
    (l.map f).eraseDups = l.eraseDups.map f := by
  cases hl : l with
  | nil => rfl
  | cons a r =>
    subst hl
    have others : (r.map f).filter (fun b => !b == f a) = (r.filter fun b => !b == a).map f := by
      rw [List.filter_map]
      refine congrArg _ (List.filter_congr fun b hb => ?_)
      have inj : f b = f a ↔ b = a :=
        ⟨fun h => hf (List.mem_cons_of_mem a hb) List.mem_cons_self h, congrArg f⟩
      simp [inj]
    have hf' : Set.InjOn f {i | i ∈ r.filter fun b => !b == a} :=
      hf.mono fun i hi => List.mem_cons_of_mem a (List.mem_of_mem_filter hi)
    rw [List.map_cons, List.eraseDups_cons, List.eraseDups_cons, List.map_cons, others,
      eraseDups_map _ hf']
termination_by l.length
decreasing_by
  have := List.length_filter_le (fun b => !b == a) r
  rw [hl, List.length_cons]
  omega

lemma idxOf_map {f : Nat → Nat} {l : List Nat} {i : Nat} (hf : Set.InjOn f {j | j ∈ l})
    (hi : i ∈ l) : (l.map f).idxOf (f i) = l.idxOf i := by
  induction l with
  | nil => simp at hi
  | cons a l ih =>
    by_cases hai : a = i
    · simp [hai]
    · have hl : i ∈ l := (List.mem_cons.mp hi).resolve_left (Ne.symm hai)
      have apart : f a ≠ f i := fun h => hai (hf List.mem_cons_self hi h)
      rw [List.map_cons, List.idxOf_cons_ne _ apart, List.idxOf_cons_ne _ hai,
        ih (hf.mono fun j hj => List.mem_cons_of_mem a hj) hl]

namespace Term

variable {t u v : Term} {f g : Nat → Nat}

@[simp] lemma hasWildcard_placeBy (is : List Nat) (t : Term) :
    (t.placeBy is).hasWildcard = t.hasWildcard := by
  induction t with
  | pair a d iha ihd => simp [hasWildcard, iha, ihd]
  | succ p ih => exact ih
  | _ => rfl

@[simp] lemma vars_placeBy (is : List Nat) (t : Term) : (t.placeBy is).vars = [] := by
  induction t with
  | pair a d iha ihd => simp [vars, iha, ihd]
  | succ p ih => exact ih
  | _ => rfl

@[simp] lemma hasWildcard_numbered (t : Term) : t.numbered.hasWildcard = t.hasWildcard :=
  hasWildcard_placeBy _ _

/-- A renaming that keeps different variables different does not change the numbering. -/
theorem numbered_rename (hf : Set.InjOn f {i | i ∈ t.ids}) :
    (t.rename f).numbered = t.numbered := by
  have hf' : Set.InjOn f {i | i ∈ t.order} := hf.mono fun i hi => mem_order.mp hi
  have order : (t.rename f).order = t.order.map f := by
    rw [Term.order, ids_rename, eraseDups_map _ hf, Term.order]
  -- each variable has its place in the whole term, whichever part it stands in
  have parts (w : Term) (hw : ∀ i ∈ w.ids, i ∈ t.ids) :
      (w.rename f).placeBy (t.order.map f) = w.placeBy t.order := by
    induction w with
    | var x => simp [placeBy, idxOf_map hf' (mem_order.mpr (hw x.id (by simp)))]
    | pair a d iha ihd =>
      rw [rename_pair, placeBy_pair, placeBy_pair, iha fun i hi => hw i (by simp [hi]),
        ihd fun i hi => hw i (by simp [hi])]
    | succ p ih => exact congrArg succ (ih hw)
    | _ => rfl
  rw [numbered, order, parts t fun _ => id, numbered]

lemma sameParts_placeBy (h : sameParts t u = true) (is : List Nat) :
    sameParts (t.placeBy is) (u.placeBy is) = true := by
  fun_induction sameParts t u with
  | case1 x y =>
    have same : x.id = y.id := by simpa using h
    simp [placeBy, sameParts, same]
  | case3 a d b e iha ihd =>
    rw [Bool.and_eq_true] at h
    simp [sameParts, iha h.1, ihd h.2]
  | case6 p q ih => simpa [placeBy, sameParts] using ih h
  | case9 => simp at h
  | _ => exact h

theorem Variant.sameParts_numbered (h : t.Variant u) :
    sameParts t.numbered u.numbered = true := by
  obtain ⟨f, hf, hs⟩ := h
  have order : (t.rename f).order = u.order := by rw [order, ids_of_sameParts hs, Term.order]
  have := sameParts_placeBy hs u.order
  rwa [← order, ← numbered, numbered_rename hf, order, ← numbered] at this

/-- Two places in numberings that agree are places of variables of the two terms. -/
lemma sameParts_rename_of_placeBy {is js : List Nat} (ht : t.hasPlaceholder = false)
    (hu : u.hasPlaceholder = false) (hi : ∀ i ∈ t.ids, i ∈ is) (hj : ∀ j ∈ u.ids, j ∈ js)
    (h : sameParts (t.placeBy is) (u.placeBy js) = true) :
    sameParts (t.rename fun i => js[is.idxOf i]?.getD 0) u = true ∧
      ∀ i ∈ t.ids, is.idxOf i < js.length := by
  induction t generalizing u with
  | var x =>
    cases u with
    | var y =>
      have place : is.idxOf x.id = js.idxOf y.id := by simpa [placeBy, sameParts] using h
      have hy : js.idxOf y.id < js.length := List.idxOf_lt_length_iff.mpr (hj y.id (by simp))
      refine ⟨?_, by simpa [place] using hy⟩
      simp [sameParts, place, hy]
    | placeholder n => simp [hasPlaceholder] at hu
    | _ => simp [placeBy, sameParts] at h
  | pair a d iha ihd =>
    cases u with
    | pair b e =>
      simp only [hasPlaceholder, Bool.or_eq_false_iff] at ht hu
      simp only [ids_pair, List.mem_append, or_imp, forall_and] at hi hj
      simp only [placeBy, sameParts, Bool.and_eq_true] at h
      obtain ⟨ha, hla⟩ := iha ht.1 hu.1 hi.1 hj.1 h.1
      obtain ⟨hd, hld⟩ := ihd ht.2 hu.2 hi.2 hj.2 h.2
      refine ⟨by simp [sameParts, ha, hd], fun i hi => ?_⟩
      rw [ids_pair, List.mem_append] at hi
      exact hi.elim (hla i) (hld i)
    | placeholder n => simp [hasPlaceholder] at hu
    | _ => simp [placeBy, sameParts] at h
  | succ p ih =>
    cases u with
    | succ q => exact ih ht hu hi hj h
    | placeholder n => simp [hasPlaceholder] at hu
    | _ => simp [placeBy, sameParts] at h
  | placeholder n => simp [hasPlaceholder] at ht
  | _ => cases u <;> simp_all [placeBy, sameParts, rename, ids, vars]

/-- Terms that hold no placeholders read the same, once they are numbered, only if they are
variants. -/
theorem variant_of_sameParts_numbered (ht : t.hasPlaceholder = false)
    (hu : u.hasPlaceholder = false) (h : sameParts t.numbered u.numbered = true) :
    t.Variant u := by
  obtain ⟨same, short⟩ := sameParts_rename_of_placeBy ht hu (fun _ => mem_order.mpr)
    (fun _ => mem_order.mpr) h
  refine ⟨_, fun i hi j hj hij => ?_, same⟩
  simp only [List.getElem?_eq_getElem (short i hi), List.getElem?_eq_getElem (short j hj),
    Option.getD_some] at hij
  exact (List.idxOf_inj (mem_order.mpr hi)).mp ((nodup_eraseDups _).getElem_inj_iff.mp hij)

end Term

end Relational
