import Tickstamp.Json.Token
/-!
# Trees of JSON

`Tree.read` builds a tree from tokens with a stack of open containers, and never fails: where the
tokens stop making sense, every container that is still open is kept with what it holds so far and
marked as not closed. A reader of values walks such a tree from left to right and thus meets the
faults of a text in the order of the text. Duplicate members and members of unknown names are kept.
-/
namespace Tickstamp.Json

/-- A JSON value, of which the end may be missing. -/
inductive Tree where
  | null
  | bool (b : Bool)
  | natural (n : Nat)
  | decimal (written : List Char)
  | text (content : Option String)
  | array (items : List Tree) (closed : Bool)
  | object (members : List (Option String × Tree)) (closed : Bool)
  /-- The text stops making sense where a value has to stand. -/
  | missing

abbrev Member := Option String × Tree

/-- An open container that waits for a value; its elements so far have the latest in front. -/
inductive Frame where
  | array (items : List Tree)
  | object (members : List Member) (name : Option String)

/-- What the reader expects; the list holds the containers around, the innermost in front. -/
inductive State where
  | value (outer : List Frame)
  | inArray (items : List Tree) (outer : List Frame)
  | inObject (members : List Member) (outer : List Frame)
  | nextName (members : List Member) (outer : List Frame)
  | colon (members : List Member) (name : Option String) (outer : List Frame)

inductive Move where
  | next (state : State)
  | done (tree : Tree)
  | stuck

namespace State

def settle (tree : Tree) : List Frame → Move
  | [] => .done tree
  | .array items :: outer => .next (.inArray (tree :: items) outer)
  | .object members name :: outer => .next (.inObject ((name, tree) :: members) outer)

def enter (outer : List Frame) : Token → Move
  | .null => settle .null outer
  | .bool b => settle (.bool b) outer
  | .natural n => settle (.natural n) outer
  | .decimal written => settle (.decimal written) outer
  | .text content => settle (.text content) outer
  | .openArray => .next (.inArray [] outer)
  | .openObject => .next (.inObject [] outer)
  | _ => .stuck

/-- One token. Only the first element of a container comes without a comma before it. -/
def step : State → Token → Move
  | .value outer, token => enter outer token
  | .inArray items outer, token =>
    match token, items with
    | .closeArray, items => settle (.array items.reverse true) outer
    | token, [] => enter (.array [] :: outer) token
    | .comma, items => .next (.value (.array items :: outer))
    | _, _ => .stuck
  | .inObject members outer, token =>
    match token, members with
    | .closeObject, members => settle (.object members.reverse true) outer
    | .text name, [] => .next (.colon [] name outer)
    | .comma, _ :: _ => .next (.nextName members outer)
    | _, _ => .stuck
  | .nextName members outer, token =>
    match token with
    | .text name => .next (.colon members name outer)
    | _ => .stuck
  | .colon members name outer, token =>
    match token with
    | .colon => .next (.value (.object members name :: outer))
    | _ => .stuck

/-- Leaves every container around a value unclosed. -/
def abandonAround (tree : Tree) : List Frame → Tree
  | [] => tree
  | .array items :: outer => abandonAround (.array (tree :: items).reverse false) outer
  | .object members name :: outer =>
    abandonAround (.object ((name, tree) :: members).reverse false) outer

/-- What has been read when the tokens end too early. -/
def abandon : State → Tree
  | .value outer => abandonAround .missing outer
  | .inArray items outer => abandonAround (.array items.reverse false) outer
  | .inObject members outer | .nextName members outer | .colon members _ outer =>
    abandonAround (.object members.reverse false) outer

/-- The tree that some tokens complete, and the tokens after it. -/
def run : State → List Token → Tree × List Token
  | state, [] => (state.abandon, [])
  | state, token :: rest =>
    match state.step token with
    | .next state => run state rest
    | .done tree => (tree, rest)
    | .stuck => (state.abandon, token :: rest)

end State

namespace Tree

/-- The tree of the first value among the tokens, and the tokens after it. -/
def read (tokens : List Token) : Tree × List Token :=
  State.run (.value []) tokens

mutual

def tokens : Tree → List Token
  | .null => [.null]
  | .bool b => [.bool b]
  | .natural n => [.natural n]
  | .decimal written => [.decimal written]
  | .text content => [.text content]
  | .array items closed => .openArray :: itemTokens items ++ (if closed then [.closeArray] else [])
  | .object members closed =>
    .openObject :: memberTokens members ++ (if closed then [.closeObject] else [])
  | .missing => [.bad]

def itemTokens : List Tree → List Token
  | [] => []
  | [tree] => tree.tokens
  | tree :: rest => tree.tokens ++ .comma :: itemTokens rest

def memberTokens : List Member → List Token
  | [] => []
  | [(name, tree)] => .text name :: .colon :: tree.tokens
  | (name, tree) :: rest => .text name :: .colon :: tree.tokens ++ .comma :: memberTokens rest

end

def render (tree : Tree) : String :=
  String.ofList (tree.tokens.flatMap Token.chars)

mutual

/-- The value can be kept: every string has a content, every number is finite as a double, and
containers are nested less than `room` deep. -/
def isKept : (room : Nat) → Tree → Bool
  | _, .null | _, .bool _ => true
  | _, .natural n => (NumberParts.ofNatural n).isFinite
  | _, .decimal written => (NumberParts.read written).any NumberParts.isFinite
  | _, .text content => content.isSome
  | room, .array items closed => 1 < room && closed && allKept (room - 1) items
  | room, .object members closed => 1 < room && closed && membersKept (room - 1) members
  | _, .missing => false

def allKept : (room : Nat) → List Tree → Bool
  | _, [] => true
  | room, tree :: rest => tree.isKept room && allKept room rest

def membersKept : (room : Nat) → List Member → Bool
  | _, [] => true
  | room, (name, tree) :: rest => name.isSome && tree.isKept room && membersKept room rest

end

end Tree
end Tickstamp.Json
