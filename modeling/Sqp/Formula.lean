import Sqp.Journal
import Sqp.Scalar.Double

/-!
# Cost formulas

A small language in which cost functions over double precision numbers are written.

- `Formula.eval`: the value of an expression at decision variables and arguments.
- `CostFormula.toFunction`: the cost function of a list, a single value, a table or a
  case distinction of expressions.
-/

namespace Sqp

/-- Operations that fold a list of operands from the left. -/
inductive FoldOp where
  | add
  | sub
  | mul
  | div
  | min
  | max

/-- Functions of one operand. -/
inductive UnaryOp where
  | neg
  | sqrt
  | exp
  | log
  | sin
  | cos
  | abs

/-- One step of a fold. The extrema keep what they have unless the new operand is
strictly better. -/
def FoldOp.apply : FoldOp → Float → Float → Float
  | add, a, b => a + b
  | sub, a, b => a - b
  | mul, a, b => a * b
  | div, a, b => a / b
  | min, a, b => Scalar.keepMin a b
  | max, a, b => Scalar.keepMax a b

/-- The value of a function. -/
def UnaryOp.apply : UnaryOp → Float → Float
  | neg, a => -a
  | sqrt, a => a.sqrt
  | exp, a => a.exp
  | log, a => a.log
  | sin, a => a.sin
  | cos, a => a.cos
  | abs, a => a.abs

/-- Expressions over decision variables and arguments. -/
inductive Formula where
  | const (value : Float)
  | decision (index : Int)
  | argument (index : Int)
  | fold (op : FoldOp) (first : Formula) (rest : List Formula)
  | unary (op : UnaryOp) (operand : Formula)
  | power (base : Formula) (exponent : Nat)
  /-- The third operand if the first is less than the second, else the fourth. -/
  | ifLess (left right yes no : Formula)

/-- `a` multiplied by itself: one for exponent zero, otherwise repeated products from
the left. -/
def repeatedProduct (a : Float) : Nat → Float
  | 0 => 1.0
  | k + 1 => Nat.repeat (· * a) k a

/-- The value at a position of a list; a negative position counts from the end. -/
def valueAt (values : List Float) (index : Int) : Except Error Float :=
  let position := if index < 0 then index + values.length else index
  match position, values[position.toNat]? with
  | .ofNat _, some v => pure v
  | _, _ => throw .unknownVariable

mutual

/-- The value of an expression; a variable that does not exist is an error. -/
def Formula.eval (xs args : List Float) : Formula → Except Error Float
  | .const v => pure v
  | .decision i => valueAt xs i
  | .argument i => valueAt args i
  | .fold op first rest => do Formula.evalFold xs args op (← first.eval xs args) rest
  | .unary op operand => do return op.apply (← operand.eval xs args)
  | .power base k => do return repeatedProduct (← base.eval xs args) k
  | .ifLess left right yes no => do
    let a ← left.eval xs args
    let b ← right.eval xs args
    if a < b then yes.eval xs args else no.eval xs args

/-- The fold of the remaining operands onto an accumulator. -/
def Formula.evalFold (xs args : List Float) (op : FoldOp) (acc : Float) :
    List Formula → Except Error Float
  | [] => pure acc
  | operand :: rest => do
    Formula.evalFold xs args op (op.apply acc (← operand.eval xs args)) rest

end

/-- The ways to write a cost function. -/
inductive CostFormula where
  | values (items : List Formula)
  | single (item : Formula)
  | rows (items : List (List Formula))
  | ifLess (left right : Formula) (yes no : CostFormula)

/-- The cost function with the given arguments. A table is read row by row, and its rows
have one length. -/
def CostFormula.toFunction (args : List Float) : CostFormula → CostFunction Float
  | .values items => fun xs => items.mapM fun item => item.eval xs args
  | .single item => fun xs => do return [← item.eval xs args]
  | .rows items => fun xs => do
    let rows ← items.mapM fun row => row.mapM fun item => item.eval xs args
    if rows.all fun row => row.length == (rows.headD []).length then return rows.flatten
    else throw .ragged
  | .ifLess left right yes no => fun xs => do
    let a ← left.eval xs args
    let b ← right.eval xs args
    if a < b then yes.toFunction args xs else no.toFunction args xs

end Sqp
