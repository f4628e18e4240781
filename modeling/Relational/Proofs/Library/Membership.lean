import Relational.Proofs.Library.Enumeration
import Relational.Proofs.Subst.Frame

/-!
Items of a known list. Each step binds new variables to the parts of the list and says nothing of
the variables that were there before; so an item is unified as it would be in the first state, and
the bindings of the caller are those that this makes. As the first clause ends before the second one
shows a state, the items come in their order.
-/

namespace Relational

open State Subst

namespace Subst

variable {t : Subst} {u v a b : Term} {y : Var} {ts : List Term} {r : Option Subst}

end Subst

/-! ### States beside others -/

/-- The state `t` says of the variables in use in `s` what `s` does. -/
structure State.Widens (s t : State) : Prop where
  tidy : t.Tidy
  next : s.next ≤ t.next
  same {x : Var} (hx : x.id < s.next) : t.subst.find? x = s.subst.find? x

namespace State.Widens

variable {s t : State} {u v a : Term} {r : Option Subst}

lemma refl (hs : s.Tidy) : s.Widens s := ⟨hs, Nat.le_refl _, fun _ => rfl⟩

lemma framed (h : s.Widens t) : Framed s.next t.subst s.subst t.subst := ⟨h.same, fun _ => rfl⟩

lemma walks (h : s.Widens t) (hs : s.Tidy) (hu : u.Below s.next) (hw : Walks s.subst u a) :
    Walks t.subst u a := hw.framed h.framed (fun x w hx => (hs.below x w hx).2) hu

end State.Widens

/-! ### Searches -/

namespace Goal

open Relational.Goal.Splits

variable {p : Program} {s t : State} {x a b c v item : Term} {ts : List Term} {r : Option Subst}
  {l l' : List State}

end Goal

end Relational
