import Lamina.Text.Hidden

/-!
# Quoted text and lists

Names that come from outside are shown in quotes. Characters that would end the quotes, break the
line or not be seen are escaped. Lists are shown in brackets.
-/

namespace Lamina.Text

/-- The digits of a natural in base sixteen. -/
def hexadecimal (n : Nat) : String := String.ofList (Nat.toDigits 16 n)

/-- One character inside quotes. -/
def escaped (c : Char) : String :=
  match c with
  | '"' => "\\\""
  | '\\' => "\\\\"
  | '\n' => "\\n"
  | '\r' => "\\r"
  | '\t' => "\\t"
  | '\x00' => "\\0"
  | c => if isHidden c then "\\u\x7b" ++ hexadecimal c.toNat ++ "\x7d" else c.toString

/-- A text in quotes. -/
def quoted (s : String) : String := "\"" ++ String.join (s.toList.map escaped) ++ "\""

/-- Items in brackets, separated by commas. -/
def list (items : List String) : String := "[" ++ ", ".intercalate items ++ "]"

/-- Naturals in brackets. -/
def naturals (items : List Nat) : String := list (items.map toString)

/-- Integers in brackets. -/
def integers (items : List Int64) : String := list (items.map fun i => toString i.toInt)

/-- Quoted texts in brackets. -/
def strings (items : List String) : String := list (items.map quoted)

end Lamina.Text
