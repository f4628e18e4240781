import Relational.Goal.Formula

/-!
Relations over unary natural numbers.
-/

namespace Relational.Library

open Formula

def zeroo (n : Expr) : Formula := eq (.term .zero) n

def oneo (n : Expr) : Formula := eq (.term (.nat 1)) n

/-- `b` is one more than `a`. -/
def inco : Relation where
  label := "inco"
  params := ["a", "b"]
  body := eq (.succ "a") "b"

def poso : Relation where
  label := "poso"
  params := ["n"]
  body := freshNamed ["x"] [ask .inco ["x", "n"]]

def gt1o : Relation where
  label := "gt1o"
  params := ["n"]
  body := freshNamed ["x"] [ask .poso ["x"], ask .inco ["x", "n"]]

def numbero : Relation where
  label := "numbero"
  params := ["n"]
  body := conde
    [[zeroo "n"],
     [freshNamed ["a"] [ask .inco ["a", "n"], ask .numbero ["a"]]]]

/-- `c` is `a + b`. The two operands change places at each step, so that the search ends if
`c` or both operands are known. -/
def addo : Relation where
  label := "addo"
  params := ["a", "b", "c"]
  body := conde
    [[zeroo "a", eq "b" "c"],
     [freshNamed ["a0", "c0"]
       [ask .inco ["a0", "a"], ask .inco ["c0", "c"], ask .addo ["b", "a0", "c0"]]]]

/-- `c` is `a * b`: both operands above 1, or one of four simple cases. -/
def mulo : Relation where
  label := "mulo"
  params := ["a", "b", "c"]
  body := freshNamed ["a0", "c0"]
    [conde
      [[zeroo "a", zeroo "c"],
       [ask .poso ["a"], zeroo "b", zeroo "c"],
       [oneo "a", ask .poso ["b"], eq "b" "c"],
       [ask .gt1o ["a"], oneo "b", eq "a" "c"],
       [ask .gt1o ["a"], ask .gt1o ["b"], ask .inco ["a0", "a"],
        ask .addo ["c0", "b", "c"], ask .mulo ["a0", "b", "c0"]]]]

def gteo : Relation where
  label := "gteo"
  params := ["a", "b"]
  body := freshNamed ["k"] [ask .addo ["b", "k", "a"]]

def lteo : Relation where
  label := "lteo"
  params := ["a", "b"]
  body := ask .gteo ["b", "a"]

end Relational.Library
