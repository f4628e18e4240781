import Relational.Proofs.Query.Reading
import Relational.Proofs.Stream.Gives
import Relational.Proofs.Stream.Limit

/-!
The solutions of a query. Each state that the search gives is read as the values of the query
variables, and of equal readings the first is kept. Two states read the same if and only if their
query variables resolve to the same up to a renaming of the variables left open; so what is kept
is one solution for each such class of states.
-/

namespace Relational

open scoped List

namespace Query

variable {q : Query} {s t : State} {states firsts : List State}

variable {budget : Nat} {h : Harvest State}

lemma placeholderFree_of_harvest (hg : q.goal.hasPlaceholder = false)
    (hp : q.program.hasPlaceholder = false) (hh : q.harvest budget = .ok h) :
    ∀ s ∈ h.items.toList, s.subst.PlaceholderFree := by
  intro s hs
  obtain ⟨⟨k, hk⟩, -⟩ := Burst.items_of_collect hh
  have shown : q.search.Shows q.program.unfold (.inr s) :=
    Burst.shows_inr_iff.mpr ⟨k, hk.subset hs⟩
  obtain ⟨n, hn⟩ := shown
  exact (Formula.reaches_of_mem_log (Goal.mem_log_built hn).2).placeholderFree hp hg
    (.ofVars _) .empty

/-- A pair of one variable, the same again, and a pair of two variables. -/
def pairs : Query := ask .empty ["q"] (.disj
  [.freshNamed ["x"] [.eq "q" (.pair "x" "x")], .freshNamed ["y", "z"] [.eq (.pair "z" "z") "q"],
    .freshNamed ["x", "y"] [.eq "q" (.pair "x" "y")]])

end Query

end Relational
