import Tickstamp.Json.Number
/-!
# Tokens of JSON

`Token.scan` cuts a text into tokens, one character at a time. The first place that is no token ends
the list with `bad`; what stands before it has been read, and it is up to the reader whether that is
enough. `Token.chars` is the compact spelling of a token.
-/
namespace Tickstamp.Json

inductive Token where
  | openObject
  | closeObject
  | openArray
  | closeArray
  | colon
  | comma
  | null
  | bool (b : Bool)
  | natural (n : Nat)
  /-- A number that is not written with digits only, as it is written. -/
  | decimal (written : List Char)
  /-- A string; without a content if an escape names half of a surrogate pair alone. -/
  | text (content : Option String)
  | bad
  deriving DecidableEq

/-- A piece of a string: a character, or the number of an escape of four hexadecimal digits. -/
inductive Piece where
  | char (c : Char)
  | unit (u : Nat)
  deriving DecidableEq

namespace Piece

def isHigh (u : Nat) : Bool := 0xD800 ≤ u && u < 0xDC00

def isLow (u : Nat) : Bool := 0xDC00 ≤ u && u < 0xE000

/-- The characters of a string. A high surrogate has to be followed by the escape of a low one. -/
def assemble : List Piece → Option (List Char)
  | [] => some []
  | .char c :: rest => (assemble rest).map (c :: ·)
  | .unit u :: rest =>
    if isHigh u then
      match rest with
      | .unit v :: rest =>
        if isLow v then
          (assemble rest).map (Char.ofNat (0x10000 + (u - 0xD800) * 0x400 + (v - 0xDC00)) :: ·)
        else none
      | _ => none
    else if isLow u then none
    else (assemble rest).map (Char.ofNat u :: ·)

end Piece

namespace Token

/-- Where the scanner stands; lists have their latest element in front. -/
inductive Mode where
  | between
  | word (read : List Char)
  | string (read : List Piece)
  | escape (read : List Piece)
  /-- After `count` digits, worth `value`, of an escape of four. -/
  | hex (read : List Piece) (value count : Nat)

def isBlank (c : Char) : Bool := c == ' ' || c == '\n' || c == '\t' || c == '\r'

/-- Characters of names and numbers, which end only where another character comes. -/
def isWordChar (c : Char) : Bool :=
  c.isAlphanum || c == '+' || c == '-' || c == '.'

def ofWord (cs : List Char) : Token :=
  if cs = ['n', 'u', 'l', 'l'] then .null
  else if cs = ['t', 'r', 'u', 'e'] then .bool true
  else if cs = ['f', 'a', 'l', 's', 'e'] then .bool false
  else
    match NumberParts.read cs with
    | none => .bad
    | some parts =>
      match parts.natural? with
      | some n => .natural n
      | none => .decimal cs

/-- What a character outside of words and strings begins: a token, or a new mode. -/
def start (c : Char) : Option Token × Option Mode :=
  match c with
  | '{' => (some .openObject, some .between)
  | '}' => (some .closeObject, some .between)
  | '[' => (some .openArray, some .between)
  | ']' => (some .closeArray, some .between)
  | ':' => (some .colon, some .between)
  | ',' => (some .comma, some .between)
  | '"' => (none, some (.string []))
  | c =>
    if isBlank c then (none, some .between)
    else if isWordChar c then (none, some (.word [c]))
    else (some .bad, none)

def escaped? : Char → Option Char
  | '"' => some '"'
  | '\\' => some '\\'
  | '/' => some '/'
  | 'b' => some '\x08'
  | 'f' => some '\x0c'
  | 'n' => some '\n'
  | 'r' => some '\r'
  | 't' => some '\t'
  | _ => none

def hexDigit? (c : Char) : Option Nat :=
  if c.isDigit then some (c.toNat - 48)
  else if 'a' ≤ c ∧ c ≤ 'f' then some (c.toNat - 87)
  else if 'A' ≤ c ∧ c ≤ 'F' then some (c.toNat - 55)
  else none

/-- The tokens of a text that is entered in some mode. -/
def scan : Mode → List Char → List Token
  | .between, [] => []
  | .word read, [] => [ofWord read.reverse]
  | .string _, [] | .escape _, [] | .hex _ _ _, [] => [.bad]
  | .between, c :: rest =>
    match start c with
    | (token, none) => token.toList
    | (token, some mode) => token.toList ++ scan mode rest
  | .word read, c :: rest =>
    if isWordChar c then scan (.word (c :: read)) rest
    else
      match start c with
      | (token, none) => ofWord read.reverse :: token.toList
      | (token, some mode) => ofWord read.reverse :: token.toList ++ scan mode rest
  | .string read, c :: rest =>
    if c = '"' then .text ((Piece.assemble read.reverse).map String.ofList) :: scan .between rest
    else if c = '\\' then scan (.escape read) rest
    else if c.toNat < 32 then [.bad]
    else scan (.string (.char c :: read)) rest
  | .escape read, c :: rest =>
    match escaped? c with
    | some d => scan (.string (.char d :: read)) rest
    | none => if c = 'u' then scan (.hex read 0 0) rest else [.bad]
  | .hex read value count, c :: rest =>
    match hexDigit? c with
    | none => [.bad]
    | some d =>
      if count = 3 then scan (.string (.unit (value * 16 + d) :: read)) rest
      else scan (.hex read (value * 16 + d) (count + 1)) rest

def ofText (text : String) : List Token :=
  scan .between text.toList

/-- A character as it stands in a string. Only quotes, backslashes and control characters below the
blank are escaped. -/
def quoteChar (c : Char) : List Char :=
  if c = '"' then ['\\', '"']
  else if c = '\\' then ['\\', '\\']
  else if c = '\x08' then ['\\', 'b']
  else if c = '\x0c' then ['\\', 'f']
  else if c = '\n' then ['\\', 'n']
  else if c = '\r' then ['\\', 'r']
  else if c = '\t' then ['\\', 't']
  else if c.toNat < 32 then ['\\', 'u'] ++ (Numeral.digits 16 4 c.toNat).map Numeral.hexSymbol
  else [c]

/-- The compact spelling of a token. -/
def chars : Token → List Char
  | .openObject => ['{']
  | .closeObject => ['}']
  | .openArray => ['[']
  | .closeArray => [']']
  | .colon => [':']
  | .comma => [',']
  | .null => ['n', 'u', 'l', 'l']
  | .bool true => ['t', 'r', 'u', 'e']
  | .bool false => ['f', 'a', 'l', 's', 'e']
  | .natural n => Nat.toDigits 10 n
  | .decimal written => written
  | .text (some content) => '"' :: content.toList.flatMap quoteChar ++ ['"']
  | .text none => ['"', '\\', 'u', 'd', '8', '0', '0', '"']
  | .bad => ['?']

end Token
end Tickstamp.Json
