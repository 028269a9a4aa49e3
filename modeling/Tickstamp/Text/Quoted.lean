import Tickstamp.Text.Hidden
/-!
# Quoted texts

How a message shows a text that it is about: between quotes, with quotes, backslashes and everything
that would not be seen written as an escape.
-/
namespace Tickstamp.Text

/-- The code point in lower-case hexadecimal, in braces. -/
def codePoint (c : Char) : List Char :=
  ['\\', 'u', '\x7b'] ++ Nat.toDigits 16 c.toNat ++ ['\x7d']

def quoteChar (c : Char) : List Char :=
  if c = '\x00' then ['\\', '0']
  else if c = '\t' then ['\\', 't']
  else if c = '\n' then ['\\', 'n']
  else if c = '\r' then ['\\', 'r']
  else if c = '"' then ['\\', '"']
  else if c = '\\' then ['\\', '\\']
  else if isHidden c then codePoint c
  else [c]

def quote (text : String) : String :=
  String.ofList ('"' :: text.toList.flatMap quoteChar ++ ['"'])

end Tickstamp.Text
