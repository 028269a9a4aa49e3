import Tickstamp.Proofs.Json.Scanning

/-!
# Trees are read as they were written

A whole tree, in which every container is closed and every value present, is
read back from its tokens, whatever tokens come after it, and from every text
that spells it, of which the compact one is an example. The reader works with a
stack; over a subtree it leaves the stack as it was and settles the tree in the
innermost container. What becomes of a text that ends too early is not
considered.
-/

namespace Tickstamp.Json
namespace Tree

mutual

/-- All containers are closed, all values are there, and all numbers are numbers. -/
def Whole : Tree → Prop
  | .null | .bool _ | .natural _ | .text _ => True
  | .decimal written => (Token.decimal written).Plain
  | .array items closed => closed = true ∧ AllWhole items
  | .object members closed => closed = true ∧ MembersWhole members
  | .missing => False

def AllWhole : List Tree → Prop
  | [] => True
  | tree :: rest => tree.Whole ∧ AllWhole rest

def MembersWhole : List Member → Prop
  | [] => True
  | (_, tree) :: rest => tree.Whole ∧ MembersWhole rest

end

/-! ## Spelling -/

/-- A text that spells a tree, with blanks and escapes as it likes. -/
def Spells (tree : Tree) (text : String) : Prop :=
  Token.Spelling tree.tokens text.toList

/-- A text that is a value: it spells a whole tree, and nothing else. -/
def Denotes (text : String) (tree : Tree) : Prop :=
  tree.Whole ∧ tree.Spells text

/-- Some tokens are spelled compactly before whatever a name or a number may stand before. -/
def Compact (tokens : List Token) : Prop :=
  ∀ (later : List Token) (rest : List Char), Token.Ends rest → Token.Spelling later rest →
    Token.Spelling (tokens ++ later) (tokens.flatMap Token.chars ++ rest)

theorem spelling_cons {token : Token} {later : List Token} {rest : List Char}
    (plain : token.Plain) (ends : token.isWord = true → Token.Ends rest)
    (others : Token.Spelling later rest) :
    Token.Spelling (token :: later) (token.chars ++ rest) :=
  .cons (List.forall_mem_nil _) (.chars plain) ends others

theorem compact_single {token : Token} (plain : token.Plain) : Compact [token] := by
  intro later rest ends others
  rw [List.flatMap_singleton]
  exact spelling_cons plain (fun _ => ends) others

/-- Punctuation and strings may stand before anything. -/
theorem Compact.cons {token : Token} {tokens : List Token} (h : Compact tokens)
    (plain : token.Plain) (apart : token.isWord = false) : Compact (token :: tokens) := by
  intro later rest ends others
  rw [List.flatMap_cons, List.append_assoc]
  refine spelling_cons plain ?_ (h later rest ends others)
  intro word
  rw [apart] at word
  cases word

/-- Anything may stand before punctuation. -/
theorem Compact.append {earlier tokens : List Token} {mark : Token} {c : Char}
    (h : Compact earlier) (h' : Compact (mark :: tokens)) (written : mark.chars = [c])
    (foreign : Token.isWordChar c = false) : Compact (earlier ++ mark :: tokens) := by
  intro later rest ends others
  have after := h' later rest ends others
  simp only [List.flatMap_append, List.flatMap_cons, written, List.append_assoc,
    List.cons_append] at after ⊢
  exact h _ _ (Token.ends_cons foreign) after

mutual

theorem compact_tokens : (tree : Tree) → tree.Whole → Compact tree.tokens
  | .null, _ | .bool _, _ | .natural _, _ | .text _, _ => compact_single trivial
  | .decimal _, plain => compact_single plain
  | .array items _, ⟨rfl, whole⟩ => by
    have closed : Compact (itemTokens items ++ [.closeArray]) :=
      (compact_itemTokens items whole).append (compact_single trivial) rfl rfl
    exact closed.cons trivial rfl
  | .object members _, ⟨rfl, whole⟩ => by
    have closed : Compact (memberTokens members ++ [.closeObject]) :=
      (compact_memberTokens members whole).append (compact_single trivial) rfl rfl
    exact closed.cons trivial rfl

theorem compact_itemTokens : (items : List Tree) → AllWhole items → Compact (itemTokens items)
  | [], _ => fun _ _ _ others => others
  | [tree], ⟨whole, _⟩ => compact_tokens tree whole
  | tree :: next :: rest, ⟨whole, others⟩ => by
    have later : Compact (.comma :: itemTokens (next :: rest)) :=
      (compact_itemTokens (next :: rest) others).cons trivial rfl
    exact (compact_tokens tree whole).append later rfl rfl

theorem compact_memberTokens : (members : List Member) → MembersWhole members →
    Compact (memberTokens members)
  | [], _ => fun _ _ _ others => others
  | [(name, tree)], ⟨whole, _⟩ => by
    have value : Compact (.colon :: tree.tokens) := (compact_tokens tree whole).cons trivial rfl
    exact value.cons trivial rfl
  | (name, tree) :: next :: rest, ⟨whole, others⟩ => by
    have later : Compact (.comma :: memberTokens (next :: rest)) :=
      (compact_memberTokens (next :: rest) others).cons trivial rfl
    have value : Compact (.colon :: (tree.tokens ++ .comma :: memberTokens (next :: rest))) :=
      ((compact_tokens tree whole).append later rfl rfl).cons trivial rfl
    exact value.cons trivial rfl

end

theorem spells_render {tree : Tree} (whole : tree.Whole) : tree.Spells tree.render := by
  have compact := compact_tokens tree whole [] [] Token.ends_nil (.nil (by simp))
  rw [List.append_nil, List.append_nil] at compact
  rwa [Spells, render, String.toList_ofList]

end Tree

/-! ## Reading -/

namespace State

/-- Reading on after a value that stands in these containers. -/
def goOn (tree : Tree) : List Frame → List Token → Tree × List Token
  | [], rest => (tree, rest)
  | .array items :: outer, rest => run (.inArray (tree :: items) outer) rest
  | .object members name :: outer, rest => run (.inObject ((name, tree) :: members) outer) rest

theorem run_of_settle {s : State} {token : Token} {tree : Tree} {outer : List Frame}
    (h : s.step token = settle tree outer) (rest : List Token) :
    run s (token :: rest) = goOn tree outer rest := by
  rw [run, h]
  cases outer with
  | nil => rfl
  | cons frame outer => cases frame <;> rfl

theorem run_of_next {s s' : State} {token : Token} (h : s.step token = .next s')
    (rest : List Token) : run s (token :: rest) = run s' rest := by
  rw [run, h]

/-- The next value will stand in these containers. -/
def ExpectsValue (s : State) (outer : List Frame) : Prop :=
  ∀ token, token ≠ .closeArray → s.step token = enter outer token

/-- The next name will belong to an object with these members so far, within these containers. -/
def ExpectsName (s : State) (done : List Member) (outer : List Frame) : Prop :=
  ∀ name, s.step (.text name) = .next (.colon done name outer)

theorem expectsValue_value (outer : List Frame) : (value outer).ExpectsValue outer :=
  fun _ _ => rfl

theorem expectsValue_inArray (outer : List Frame) :
    (inArray [] outer).ExpectsValue (.array [] :: outer) := by
  intro token notClosed
  cases token <;> first | rfl | exact absurd rfl notClosed

theorem step_closeArray (done : List Tree) (last : Tree) (outer : List Frame) :
    (inArray (last :: done) outer).step .closeArray =
      settle (.array (done.reverse ++ [last]) true) outer := by
  simp [step]

theorem step_closeObject (done : List Member) (last : Member) (outer : List Frame) :
    (inObject (last :: done) outer).step .closeObject =
      settle (.object (done.reverse ++ [last]) true) outer := by
  simp [step]

mutual

/-- Over a whole value the reader comes back to the containers around it, and settles it there. -/
theorem run_tokens : (tree : Tree) → tree.Whole → ∀ {s : State} {outer : List Frame},
    s.ExpectsValue outer → ∀ rest, run s (tree.tokens ++ rest) = goOn tree outer rest
  | .null, _, _, _, expects, rest | .bool _, _, _, _, expects, rest
  | .natural _, _, _, _, expects, rest | .text _, _, _, _, expects, rest
  | .decimal _, _, _, _, expects, rest => run_of_settle (expects _ (by simp)) rest
  | .array [] _, ⟨rfl, _⟩, s, outer, expects, rest => by
    have opened : s.step .openArray = .next (.inArray [] outer) := expects _ (by simp)
    exact (run_of_next opened _).trans (run_of_settle rfl rest)
  | .array (item :: items) _, ⟨rfl, whole⟩, s, outer, expects, rest => by
    have opened : s.step .openArray = .next (.inArray [] outer) := expects _ (by simp)
    have inside := run_itemTokens (item :: items) (by simp) whole (expectsValue_inArray outer) rest
    rw [Tree.tokens, if_pos rfl, List.append_assoc, List.cons_append, run_of_next opened]
    exact inside
  | .object [] _, ⟨rfl, _⟩, s, outer, expects, rest => by
    have opened : s.step .openObject = .next (.inObject [] outer) := expects _ (by simp)
    exact (run_of_next opened _).trans (run_of_settle rfl rest)
  | .object (member :: members) _, ⟨rfl, whole⟩, s, outer, expects, rest => by
    have opened : s.step .openObject = .next (.inObject [] outer) := expects _ (by simp)
    have inside := run_memberTokens (member :: members) (by simp) whole
      (show (inObject [] outer).ExpectsName [] outer from fun _ => rfl) rest
    rw [Tree.tokens, if_pos rfl, List.append_assoc, List.cons_append, run_of_next opened]
    exact inside

theorem run_itemTokens : (items : List Tree) → items ≠ [] → Tree.AllWhole items →
    ∀ {s : State} {done : List Tree} {outer : List Frame}, s.ExpectsValue (.array done :: outer) →
      ∀ rest, run s (Tree.itemTokens items ++ .closeArray :: rest) =
        goOn (.array (done.reverse ++ items) true) outer rest
  | [], nonempty, _, _, _, _, _, _ => absurd rfl nonempty
  | [item], _, ⟨whole, _⟩, s, done, outer, expects, rest => by
    rw [Tree.itemTokens, run_tokens item whole expects, goOn]
    exact run_of_settle (step_closeArray done item outer) rest
  | item :: next :: items, _, ⟨whole, others⟩, s, done, outer, expects, rest => by
    have later := run_itemTokens (next :: items) (by simp) others
      (expectsValue_value (.array (item :: done) :: outer)) rest
    have split : Tree.itemTokens (item :: next :: items) =
        item.tokens ++ .comma :: Tree.itemTokens (next :: items) := rfl
    rw [split, List.append_assoc, run_tokens item whole expects, goOn, List.cons_append,
      run_of_next rfl, later, List.reverse_cons, List.append_assoc]
    rfl

theorem run_memberTokens : (members : List Member) → members ≠ [] → Tree.MembersWhole members →
    ∀ {s : State} {done : List Member} {outer : List Frame}, s.ExpectsName done outer →
      ∀ rest, run s (Tree.memberTokens members ++ .closeObject :: rest) =
        goOn (.object (done.reverse ++ members) true) outer rest
  | [], nonempty, _, _, _, _, _, _ => absurd rfl nonempty
  | [(name, tree)], _, ⟨whole, _⟩, s, done, outer, expects, rest => by
    have value := run_tokens tree whole (expectsValue_value (.object done name :: outer))
      (.closeObject :: rest)
    have named : run s (Tree.memberTokens [(name, tree)] ++ .closeObject :: rest) =
        run (.value (.object done name :: outer)) (tree.tokens ++ .closeObject :: rest) :=
      (run_of_next (expects name) _).trans (run_of_next rfl _)
    rw [named, value, goOn]
    exact run_of_settle (step_closeObject done (name, tree) outer) rest
  | (name, tree) :: next :: members, _, ⟨whole, others⟩, s, done, outer, expects, rest => by
    have later := run_memberTokens (next :: members) (by simp) others
      (show (nextName ((name, tree) :: done) outer).ExpectsName ((name, tree) :: done) outer from
        fun _ => rfl) rest
    have value := run_tokens tree whole (expectsValue_value (.object done name :: outer))
      (.comma :: Tree.memberTokens (next :: members) ++ .closeObject :: rest)
    have named : run s (Tree.memberTokens ((name, tree) :: next :: members) ++ .closeObject :: rest)
        = run (.value (.object done name :: outer))
          (tree.tokens ++ .comma :: Tree.memberTokens (next :: members) ++ .closeObject :: rest) :=
      (run_of_next (expects name) _).trans (run_of_next rfl _)
    rw [named, List.append_assoc, value, goOn, List.cons_append, run_of_next rfl, later,
      List.reverse_cons, List.append_assoc]
    rfl

end

end State

namespace Tree

/-- A whole tree is read from its tokens, whatever follows them. -/
theorem read_tokens {tree : Tree} (whole : tree.Whole) (rest : List Token) :
    read (tree.tokens ++ rest) = (tree, rest) :=
  State.run_tokens tree whole (State.expectsValue_value []) rest

/-- A whole tree is read from every text that spells it. -/
theorem read_of_spells {tree : Tree} (whole : tree.Whole) {text : String}
    (spells : tree.Spells text) : read (Token.ofText text) = (tree, []) := by
  have tokens := read_tokens whole []
  rw [List.append_nil] at tokens
  rw [Token.ofText, Token.scan_spelling spells, tokens]

/-- A whole tree is read from its compact text. -/
theorem read_render {tree : Tree} (whole : tree.Whole) :
    read (Token.ofText tree.render) = (tree, []) :=
  read_of_spells whole (spells_render whole)

end Tree

end Tickstamp.Json
