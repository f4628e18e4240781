import Relational.Proofs.Goal.Splits

/-!
Searches that begin with some cases, in this order. How a goal begins follows from how its parts
do, as for searches that come to an end; but in a disjunction of which the second goal goes on, the
first one has to end before the second shows a state.
-/

namespace Relational

open State Subst

variable {p : Program} {m n i : Nat} {s : State} {g h : Goal Pending}

namespace Goal

/-- Whatever the state is, no state is shown within `n` forced suspensions. -/
def Silent (p : Program) (n : Nat) (g : Goal Pending) : Prop :=
  ∀ s, (g s).stream.elements p.unfold n = []

def Ends (p : Program) (n : Nat) (g : Goal Pending) : Prop :=
  ∀ s, (g s).stream.EndsWithin p.unfold n

/-! ### Time -/

lemma silent_call_zero (r : RelationName) (args : List Term) : Silent p 0 (Goal.call r args) := by
  intro s
  unfold Goal.call
  dsimp only
  rw [stream_counted]
  rfl

lemma Silent.call {r : Standard} {args : List Term} (hargs : ∀ t ∈ args, t.hasWildcard = false)
    (hr : r.goal args = g) (hg : Silent p n g) : Silent p (n + 1) (Goal.call (.standard r) args) := by
  subst hr
  rw [call_plain hargs]
  exact fun s => hg s

lemma Silent.disj2 (hg : Silent p n g) (hh : Silent p n h) : Silent p n (Goal.disj2 g h) := by
  intro s
  obtain ⟨as, bs, shuffle, first, second, -⟩ :=
    Stream.exists_turns p.unfold n (g s).stream (h s).stream
  rw [hg s, List.prefix_nil] at first
  rw [hh s, List.prefix_nil] at second
  subst first second
  exact List.perm_nil.mp shuffle.perm

lemma Silent.conj2_left (hg : Silent p n g) : Silent p n (Goal.conj2 g h) := fun s => by
  have less := Stream.elements_bind_subperm p.unfold h n (g s).stream
  rwa [hg s, List.flatMap_nil, List.subperm_nil] at less

lemma Silent.conj2_right (hh : Silent p n h) : Silent p n (Goal.conj2 g h) := fun s => by
  have less := Stream.elements_bind_subperm p.unfold h n (g s).stream
  rwa [List.flatMap_eq_nil_iff.mpr fun t _ => hh t, List.subperm_nil] at less

lemma stream_freshNamed (names : List String) (f : List Var → Goal Pending) (s : State) :
    (Goal.freshNamed names f s).stream =
      (f (s.freshVars names.length (some names)).1 (s.advance names.length)).stream :=
  stream_counted _

lemma Silent.freshNamed {names : List String} {f : List Var → Goal Pending}
    (hf : ∀ s : State, Silent p n (f (s.freshVars names.length (some names)).1)) :
    Silent p n (Goal.freshNamed names f) := fun s => by
  rw [stream_freshNamed]
  exact hf s _

lemma ends_eq (u v : Term) : Ends p 0 (Goal.eq u v) := by
  intro s
  unfold Goal.eq
  dsimp only
  rw [stream_counted]
  split <;> rfl

lemma Ends.call {r : Standard} {args : List Term} (hargs : ∀ t ∈ args, t.hasWildcard = false)
    (hr : r.goal args = g) (hg : Ends p n g) : Ends p (n + 1) (Goal.call (.standard r) args) := by
  subst hr
  rw [call_plain hargs]
  exact fun s => (Stream.endsWithin_suspended_succ p.unfold).mpr (hg s)

lemma Ends.freshNamed {names : List String} {f : List Var → Goal Pending}
    (hf : ∀ s : State, Ends p n (f (s.freshVars names.length (some names)).1)) :
    Ends p n (Goal.freshNamed names f) := fun s => by
  rw [stream_freshNamed]
  exact hf s _

lemma Ends.conj2 (hg : Ends p n g) (hh : Ends p 0 h) : Ends p n (Goal.conj2 g h) :=
  fun s => (hg s).bind_now hh

/-! ### Cases -/

/-- The search for the goal begins with a state for each case that can be, in this order, and
nothing stops it within `m` bursts. -/
def Begins (p : Program) (m n : Nat) (g : Goal Pending) (s : State)
    (Ps : List (Valuation → Prop)) : Prop :=
  Tells (Burst.Begins p.unfold m) n g s Ps

lemma begins_zero (g : Goal Pending) (s : State) : Begins p 0 n g s [] := ⟨[], .zero _, .nil⟩

/-- In a disjunction the case of the first goal comes first, if that goal ends while the second one
is silent. -/
lemma Tells.disj2 {D D' : Burst Pending State → List State → Prop}
    (acc : Burst.Account p.unfold D D') {P : Valuation → Prop} {Qs : List (Valuation → Prop)}
    (hg : Splits p n g s [P]) (ends : Ends p i g) (silent : Silent p i h) (hh : Tells D n h s Qs) :
    Tells D n (Goal.disj2 g h) s (P :: Qs) := by
  obtain ⟨ts, collected, branches⟩ := hg.collects
  obtain ⟨us, told, later⟩ := hh
  exact ⟨ts ++ us, acc.merge collected (ends s) (silent s) told, branches.append later⟩

end Goal

end Relational
