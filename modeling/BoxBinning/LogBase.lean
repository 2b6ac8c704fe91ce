import BoxBinning.Error

/-!
# Bases of logarithms

A `LogBase` is natural or a whole number. Bases 2 and 10 have logarithms of their own; any other
logarithm is a quotient of natural ones. Nothing about binnings depends on how exact these
functions are: they only suggest where a lookup starts.
-/

namespace BoxBinning

/-- The double nearest to a count. -/
def Binary64.ofCount (n : Nat) : Float := n.toUInt64.toFloat

/-- The base of a logarithm. -/
inductive LogBase where
  /-- The base of the natural logarithm. -/
  | natural
  /-- A whole number. -/
  | whole (base : Nat)
deriving DecidableEq

namespace LogBase

/-- Zero stands for the natural base. -/
def ofNat : Nat → LogBase
  | 0 => natural
  | n => whole n

/-- The logarithm to this base. -/
def log : LogBase → Float → Float
  | natural, v => v.log
  | whole 10, v => v.log10
  | whole 2, v => v.log2
  | whole b, v => v.log / (Binary64.ofCount b).log

/-- The power of this base. -/
def exp : LogBase → Float → Float
  | natural, v => v.exp
  | whole b, v => (Binary64.ofCount b).pow v

/-- The base that binnings use for a given one: zero stands for the natural base, and one is
refused. -/
def checked : LogBase → Except BinningError LogBase
  | whole 0 => .ok natural
  | whole 1 => .error (.badLogarithmicBase 1)
  | base => .ok base

/-- The letter `e`, or the digits of the base. -/
def text : LogBase → String
  | natural => "e"
  | whole b => toString b

end LogBase

end BoxBinning
