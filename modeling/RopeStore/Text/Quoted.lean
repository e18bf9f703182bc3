import RopeStore.Text.ExtendingMark
import RopeStore.Text.Invisible

/-!
# Quoted text

A text in quotes. The quote and the backslash are written behind a backslash, four usual controls by
a letter or a digit behind one, and other characters that could not be read off the line by their
number: those that leave no ink, and the marks that would join what stands before them.

* `isHidden` : the characters that could not be read off the line;
* `quoted` : the text in quotes.
-/

namespace RopeStore.Text

def isHidden (c : Char) : Bool := isInvisible c || isExtendingMark c

def hexNumber (n : Nat) : String := String.ofList (Nat.toDigits 16 n)

def quotedChar (c : Char) : String :=
  if c = '"' then "\\\""
  else if c = '\\' then "\\\\"
  else if c = '\n' then "\\n"
  else if c = '\r' then "\\r"
  else if c = '\t' then "\\t"
  else if c.toNat = 0 then "\\0"
  else if isHidden c then "\\u\x7b" ++ hexNumber c.toNat ++ "\x7d"
  else c.toString

def quoted (text : String) : String := "\"" ++ String.join (text.toList.map quotedChar) ++ "\""

end RopeStore.Text
