import Relational.Goal.Formula

/-!
Relations over lists.
-/

namespace Relational.Library

open Formula

/-- `out` is the pair of `first` and `rest`. -/
def conso : Relation where
  label := "conso"
  params := ["first", "rest", "out"]
  body := eq (.pair "first" "rest") "out"

def firsto : Relation where
  label := "firsto"
  params := ["first", "out"]
  body := freshNamed ["rest"] [ask .conso ["first", "rest", "out"]]

def resto : Relation where
  label := "resto"
  params := ["rest", "out"]
  body := freshNamed ["first"] [ask .conso ["first", "rest", "out"]]

def emptyo : Relation where
  label := "emptyo"
  params := ["l"]
  body := eq (.term .nil) "l"

/-- `out` is `seq1` followed by `seq2`. -/
def appendo : Relation where
  label := "appendo"
  params := ["seq1", "seq2", "out"]
  body := conde
    [[ask .emptyo ["seq1"], eq "seq2" "out"],
     [freshNamed ["first", "rest", "rec"]
       [ask .conso ["first", "rest", "seq1"],
        ask .conso ["first", "rec", "out"],
        ask .appendo ["rest", "seq2", "rec"]]]]

/-- `x` is an item of `l`. -/
def membero : Relation where
  label := "membero"
  params := ["x", "l"]
  body := conde
    [[ask .firsto ["x", "l"]],
     [freshNamed ["rest"] [ask .resto ["rest", "l"], ask .membero ["x", "rest"]]]]

def sameLengtho : Relation where
  label := "same_lengtho"
  params := ["a", "b"]
  body := conde
    [[ask .emptyo ["a"], ask .emptyo ["b"]],
     [freshNamed ["x", "xs", "y", "ys"]
       [ask .conso ["x", "xs", "a"],
        ask .conso ["y", "ys", "b"],
        ask .sameLengtho ["xs", "ys"]]]]

/-- `r` has the items of `l` in reverse order. The lengths are compared first, so that the
search ends if either list has a known length. -/
def reverseo : Relation where
  label := "reverseo"
  params := ["l", "r"]
  body := conj [ask .sameLengtho ["l", "r"], ask .reverseAcco ["l", .term .nil, "r"]]

/-- `out` is `l` in reverse order, followed by `acc`. -/
def reverseAcco : Relation where
  label := "reverse_acco"
  params := ["l", "acc", "out"]
  body := conde
    [[ask .emptyo ["l"], eq "acc" "out"],
     [freshNamed ["head", "tail"]
       [ask .conso ["head", "tail", "l"],
        ask .reverseAcco ["tail", .pair "head" "acc", "out"]]]]

end Relational.Library
