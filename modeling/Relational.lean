import Relational.Query
import Relational.Stream.Integers
import Relational.Subst.Version
import Relational.Proofs.Subst.Solvable
import Relational.Proofs.Subst.Solutions
import Relational.Proofs.Subst.Acyclic
import Relational.Proofs.Stream.Log
import Relational.Proofs.Stream.Spread
import Relational.Proofs.Goal.Reaches
import Relational.Proofs.Goal.Filling
import Relational.Proofs.Goal.Scope
import Relational.Proofs.Goal.Tidy
import Relational.Proofs.Goal.Holds
import Relational.Proofs.Goal.Search
import Relational.Proofs.Depth
import Relational.Proofs.Subst.Depth
import Relational.Proofs.Stream.Elements
import Relational.Proofs.Stream.Merge
import Relational.Proofs.Stream.Bind
import Relational.Proofs.Goal.Algebra
import Relational.Proofs.Goal.Branch
import Relational.Proofs.Goal.Invariant
import Relational.Proofs.Goal.Placeholders
import Relational.Proofs.Goal.Equations
import Relational.Proofs.Stream.Limit
import Relational.Proofs.Query.Solve
import Relational.Proofs.Goal.Names
import Relational.Proofs.Subst.Symmetry
import Relational.Proofs.Subst.Made
import Relational.Proofs.Subst.Reading
import Relational.Proofs.Query.Tautology
import Relational.Proofs.Library.Multiplication
import Relational.Proofs.Library.Append
import Relational.Proofs.Goal.Wildcards
import Relational.Proofs.Query.Shapes
import Relational.Proofs.Library.Reverse
import Relational.Proofs.Stream.Order
import Relational.Proofs.Goal.Begins
import Relational.Proofs.Library.Enumeration
import Relational.Proofs.Library.Membership
import Relational.Proofs.Subst.Resolves
import Relational.Proofs.Term.Sharing
import Relational.Proofs.Subst.Projection
