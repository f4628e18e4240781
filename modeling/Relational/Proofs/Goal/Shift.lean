import Mathlib.Order.Monotone.Basic
import Relational.Proofs.Goal.AlphaEq
import Relational.Proofs.Goal.Filling
import Relational.Proofs.Stream.Lockstep

/-!
Numbers raised from one on. Two states that differ in names, and in the numbers of the variables
made, differ so again after each step of a goal, as long as there is room for new variables; and
goals that do so from such states go on in lockstep.
-/

namespace Relational

variable {k d : Nat}

/-- The numbers from `k` on are raised by `d`. -/
def shift (k d i : Nat) : Nat := if i < k then i else i + d

lemma shift_of_lt {i : Nat} (h : i < k) : shift k d i = i := if_pos h

lemma shift_of_le {i : Nat} (h : k ≤ i) : shift k d i = i + d := if_neg (Nat.not_lt.mpr h)

lemma strictMono_shift (k d : Nat) : StrictMono (shift k d) := by
  intro i j hij
  unfold shift
  split <;> split <;> omega

/-! ### States -/

namespace State

/-- The second state is the first with the numbers from `k` on raised by `d`, whatever the names.
The counter of the first does not start again before that of the second. -/
structure Renamed (k d : Nat) (s s' : State) : Prop where
  subst : s.subst.Renamed (shift k d) s'.subst
  next : s'.next = s.next + d
  reserved : k ≤ s.next
  cycle : s.cycle = 0 ∨ s.cycle = s'.cycle

lemma next_reserving {n : Nat} (h : n < 2 ^ Width.word.bits) : (reserving n).next = n :=
  Nat.mod_eq_of_lt h

namespace Renamed

variable {s s' : State} {j : Nat} {t u : Term}

lemma room (hs : Renamed k d s s') (h : s'.HasRoom j) : s.HasRoom j := by
  rcases hs.cycle with hc | hc
  · exact .inl hc
  · refine h.imp hc.trans fun h => ?_
    rw [hs.next] at h
    omega

lemma number (hs : Renamed k d s s') (h : s'.HasRoom j) {i : Nat} (hi : i ≤ j) :
    s'.number i = shift k d (s.number i) := by
  rw [number_of_room h hi, number_of_room (hs.room h) hi, hs.next,
    shift_of_le (Nat.le_add_right_of_le hs.reserved), Nat.add_right_comm]

lemma advance (hs : Renamed k d s s') (h : s'.HasRoom j) :
    Renamed k d (s.advance j) (s'.advance j) where
  subst := hs.subst
  next := by
    rw [advance_next, advance_next, number_of_room h (Nat.le_refl j),
      number_of_room (hs.room h) (Nat.le_refl j), hs.next, Nat.add_right_comm]
  reserved := hs.reserved.trans (next_le_number (hs.room h))
  cycle := hs.cycle

lemma fill (hs : Renamed k d s s') (h : t.Renamed (shift k d) u) (room : s'.HasRoom u.wildcards) :
    (s.fill t).1.Renamed (shift k d) (s'.fill u).1 ∧ Renamed k d (s.fill t).2 (s'.fill u).2 := by
  induction h generalizing s s' with
  | var h => exact ⟨.var h, hs⟩
  | @pair a d' b e ha hd iha ihd =>
    obtain ⟨first, others⟩ := hasRoom_add.mp room
    obtain ⟨head, between⟩ := iha hs first
    rw [← fill_snd] at others
    obtain ⟨tail, after⟩ := ihd between others
    exact ⟨.pair head tail, after⟩
  | succ _ ih =>
    obtain ⟨hp, after⟩ := ih hs room
    exact ⟨.succ hp, after⟩
  | nil => exact ⟨.nil, hs⟩
  | zero => exact ⟨.zero, hs⟩
  | atom => exact ⟨.atom, hs⟩
  | wildcard =>
    refine ⟨.var ?_, hs.advance room⟩
    rw [shift_of_le hs.reserved, hs.next]
  | placeholder => exact ⟨.placeholder, hs⟩

lemma fillWildcards (hs : Renamed k d s s') (h : t.Renamed (shift k d) u)
    (room : s'.HasRoom u.wildcards) :
    (s.fillWildcards t).1.Renamed (shift k d) (s'.fillWildcards u).1 ∧
      Renamed k d (s.fillWildcards t).2 (s'.fillWildcards u).2 := by
  rw [fillWildcards_eq, fillWildcards_eq]
  exact hs.fill h room

lemma fillAll (hs : Renamed k d s s') {ts us : List Term}
    (h : List.Forall₂ (Term.Renamed (shift k d)) ts us)
    (room : s'.HasRoom (Term.wildcardsIn us)) :
    List.Forall₂ (Term.Renamed (shift k d)) (s.fillAll ts).1 (s'.fillAll us).1 ∧
      Renamed k d (s.fillAll ts).2 (s'.fillAll us).2 := by
  induction h generalizing s s' with
  | nil => exact ⟨.nil, hs⟩
  | @cons t u ts us h _ ih =>
    obtain ⟨first, others⟩ := hasRoom_add.mp room
    obtain ⟨filled, ht⟩ := hs.fillWildcards h first
    rw [← fillWildcards_state (u := (s'.fillWildcards u).1) rfl] at others
    obtain ⟨more, hr⟩ := ih ht others
    exact ⟨.cons filled more, hr⟩

lemma freshVars (hs : Renamed k d s s') (room : s'.HasRoom j)
    (names names' : Option (List String)) :
    List.Forall₂ (Term.Renamed (shift k d)) ((s.freshVars j names).1.map .var)
        ((s'.freshVars j names').1.map .var) ∧
      Renamed k d (s.freshVars j names).2 (s'.freshVars j names').2 := by
  refine ⟨?_, hs.advance room⟩
  simp only [State.freshVars, List.map_map, List.forall₂_map_left_iff, List.forall₂_map_right_iff,
    List.forall₂_same]
  exact fun i hi => .var (hs.number room (Nat.le_of_lt (List.mem_range.mp hi)))

end Renamed

end State

/-! ### Goals -/

namespace Goal

open Burst State

variable {σ τ : Type} {f : σ → Burst σ State} {g : τ → Burst τ State} {n : Nat} {s s' : State}

/-- Where the counter of the second state starts again, nothing is left to show. -/
lemma lockstep_counted {i j : Nat} (hs : State.Renamed k d s s') (hij : i = j)
    {b : Burst σ State} {c : Burst τ State}
    (h : s'.HasRoom j → Lockstep (State.Renamed k d) f g n b c) :
    Lockstep (State.Renamed k d) f g n (counted s i b) (counted s' j c) := by
  subst hij
  by_cases room : s'.HasRoom i
  · rw [counted_of_room b (hs.room room), counted_of_room c room]
    exact h room
  · refine lockstep_of_overflowed ?_
    rw [counted, if_neg room]
    exact List.mem_cons_self

lemma lockstep_eq {u v u' v' : Term} (hs : State.Renamed k d s s')
    (hu : u.Renamed (shift k d) u') (hv : v.Renamed (shift k d) v') :
    Lockstep (State.Renamed k d) f g n (eq u v s) (eq u' v' s') := by
  simp only [eq]
  refine lockstep_counted hs (congrArg₂ _ hu.wildcards_eq hv.wildcards_eq) fun room => ?_
  obtain ⟨first, others⟩ := hasRoom_add.mp room
  rw [← fillWildcards_state (u := (s'.fillWildcards u').1) rfl] at others
  obtain ⟨hu, hs⟩ := hs.fillWildcards hu first
  obtain ⟨hv, hs⟩ := hs.fillWildcards hv others
  rcases rel_cases (hs.subst.unify? (strictMono_shift k d).injective hu hv) with
    ⟨hr, hr'⟩ | ⟨r, r', hr, hr', hrr⟩
  · simpa only [hr, hr'] using lockstep_stop .endless
  rcases rel_cases hrr with ⟨rfl, rfl⟩ | ⟨w, w', rfl, rfl, hw⟩
  · simpa only [hr, hr'] using lockstep_empty
  · have found : State.Renamed k d (State.withSubst _ w) (State.withSubst _ w') :=
      ⟨hw, hs.next, hs.reserved, hs.cycle⟩
    simpa only [hr, hr'] using lockstep_singleton found

variable {as : List (Goal σ)} {bs : List (Goal τ)}

lemma lockstep_conj (h : List.Forall₂ (fun a b => ∀ s s', State.Renamed k d s s' →
      Lockstep (State.Renamed k d) f g n (a s) (b s')) as bs) (hs : State.Renamed k d s s') :
    Lockstep (State.Renamed k d) f g n (conj as s) (conj bs s') := by
  induction h generalizing s s' with
  | nil => exact lockstep_singleton hs
  | cons first others ih =>
    cases others with
    | nil => exact first s s' hs
    | cons => exact (first s s' hs).bind fun r r' => ih

lemma lockstep_disj (h : List.Forall₂ (fun a b =>
      Lockstep (State.Renamed k d) f g n (a s) (b s')) as bs) :
    Lockstep (State.Renamed k d) f g n (disj as s) (disj bs s') := by
  induction h with
  | nil => exact lockstep_empty
  | cons first others ih =>
    cases others with
    | nil => exact first
    | cons => exact first.merge ih

lemma lockstep_built {e e' : Option Error} (he : e = e') {a : Goal σ} {b : Goal τ}
    (h : Lockstep (State.Renamed k d) f g n (a s) (b s')) :
    Lockstep (State.Renamed k d) f g n (built e a s) (built e' b s') := by
  subst he
  cases e with
  | none => exact h
  | some e => exact lockstep_stop _

end Goal

end Relational
