/-
  The literal values of Swift. An integer remembers the base in which it was written, and is
  written in that base again.
-/
import HeaderBridge.Decimal.Shortest
import HeaderBridge.Text.Quoted

namespace HeaderBridge

/-- The bases of integer literals. -/
inductive Base where
  | decimal
  | binary
  | octal
  | hexadecimal
  deriving DecidableEq

def Base.radix : Base → Nat
  | .decimal => 10
  | .binary => 2
  | .octal => 8
  | .hexadecimal => 16

/-- What stands in front of the digits in Swift. -/
def Base.mark : Base → String
  | .decimal => ""
  | .binary => "0b"
  | .octal => "0o"
  | .hexadecimal => "0x"

/-- A number in a base, with its mark. Digits above nine are capital letters. -/
def Base.write (b : Base) (n : Nat) : String :=
  b.mark ++ String.ofList ((Nat.toDigits b.radix n).map Char.toUpper)

inductive Constant where
  | integer (base : Base) (value : UInt64)
  | float (value : Binary64)
  | boolean (value : Bool)
  | string (value : String)
  | nil

namespace Constant

/-- The same kind and value. Floating numbers are compared as numbers, so one that is no number
    differs even from itself. -/
def same : Constant → Constant → Bool
  | .integer b n, .integer b' n' => b == b' && n == n'
  | .float x, .float y => x.equal y
  | .boolean a, .boolean b => a == b
  | .string a, .string b => a == b
  | .nil, .nil => true
  | _, _ => false

instance : BEq Constant := ⟨same⟩

def isInteger : Constant → Bool
  | .integer _ _ => true
  | _ => false

def text : Constant → String
  | .integer base value => base.write value.toNat
  | .float value => value.text
  | .boolean value => if value then "true" else "false"
  | .string value => Quoted.write value
  | .nil => "nil"

end Constant

end HeaderBridge
