import Monogram.Text.Extender
import Monogram.Text.Unprintable

/-! # Quoted text

A text between double quotes.  The quote, the backslash and the usual control characters have a
short escape, a character that would not show on its own is written by its code point in
hexadecimal, and every other character stands for itself.
-/

namespace Monogram.Quoted

/-- Digits of `n` in hexadecimal, lower case, no leading zero. -/
def hexadecimal (n : Nat) : List Char :=
  Nat.toDigits 16 n

/-- How one character is written between the quotes. -/
def escape (c : Char) : List Char :=
  match c with
  | '"' => ['\\', '"']
  | '\\' => ['\\', '\\']
  | '\n' => ['\\', 'n']
  | '\r' => ['\\', 'r']
  | '\t' => ['\\', 't']
  | '\x00' => ['\\', '0']
  | c =>
    if isExtender c || isUnprintable c then
      ['\\', 'u', '\x7b'] ++ hexadecimal c.toNat ++ ['\x7d']
    else [c]

/-- `text` as quoted text. -/
def encode (text : String) : String :=
  String.ofList ('"' :: text.toList.flatMap escape ++ ['"'])

end Monogram.Quoted
