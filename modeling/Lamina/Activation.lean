import Lamina.Number.Decimal

/-!
# Activation functions

Elementwise functions of one word, as constant folding computes them and as layers name them.
-/

namespace Lamina

/-- An elementwise function. -/
inductive Activation where
  | relu
  | sigmoid
  | tanh
  | abs
  | elu (alpha : Binary32)
  | leakyRelu (alpha : Binary32)
  | clip (low high : Binary32)
  /-- `x * multiplier + freeTerm`. -/
  | linear (multiplier freeTerm : Binary32)
deriving DecidableEq

namespace Activation

open Binary32

/-- Whether a word is at least zero. A NaN is not. -/
def atLeastZero (x : Binary32) : Bool := x.sameValue .zero || less .zero x

/-- The function itself. -/
def apply (a : Activation) (x : Binary32) : Binary32 :=
  match a with
  | relu => Binary32.max x .zero
  | sigmoid => div one (add one (exp (neg x)))
  | tanh => Binary32.tanh x
  | abs => Binary32.abs x
  | elu alpha => if atLeastZero x then x else mul alpha (sub (exp x) one)
  | leakyRelu alpha => if atLeastZero x then x else mul alpha x
  | clip low high => Binary32.min (Binary32.max x low) high
  | linear multiplier freeTerm => add (mul x multiplier) freeTerm

/-- The name with its parameters. -/
def text : Activation → String
  | relu => "Relu"
  | sigmoid => "Sigmoid"
  | tanh => "Tanh"
  | abs => "Abs"
  | elu alpha => "Elu \x7b alpha: " ++ alpha.text ++ " \x7d"
  | leakyRelu alpha => "LeakyRelu \x7b alpha: " ++ alpha.text ++ " \x7d"
  | clip low high => "Clip \x7b min: " ++ low.text ++ ", max: " ++ high.text ++ " \x7d"
  | linear multiplier freeTerm =>
    "Linear \x7b multiplier: " ++ multiplier.text ++ ", free_term: " ++ freeTerm.text ++ " \x7d"

end Activation

end Lamina
