/-
# Quoted text

The form in which a text is shown inside a message: between double quotes, with a backslash
before a quote or a backslash, the usual letters for the four commonest controls, and the code
point in braces for whatever could not be read on a screen.
-/

import Upkeep.Text.Hex
import Upkeep.Text.Printable

namespace Upkeep.Text

/-- The characters that stand for one character inside quotes. An apostrophe needs no escape. -/
def quotedChar (c : Char) : List Char :=
  if c = '"' then ['\\', '"']
  else if c = '\\' then ['\\', '\\']
  else if c = '\n' then ['\\', 'n']
  else if c = '\r' then ['\\', 'r']
  else if c = '\t' then ['\\', 't']
  else if c = '\x00' then ['\\', '0']
  else if isHidden c || isExtending c then
    ['\\', 'u', '\x7b'] ++ Nat.toDigits 16 c.toNat ++ ['\x7d']
  else [c]

/-- A text between double quotes, with every character that needs it escaped. -/
def quoted (text : String) : String :=
  String.ofList ('"' :: text.toList.flatMap quotedChar ++ ['"'])

end Upkeep.Text
