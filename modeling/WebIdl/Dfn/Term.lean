import WebIdl.Host
import WebIdl.Text.Lowercase
import WebIdl.Token

/-!
# Terms and their keys

The text of a dfn in prose says which IDL name it defines: `bar` for `Foo`, `Foo.bar` or `Foo/bar`,
with call parentheses or quotes that do not count. Every form of a term is reduced to a key of a
container and a name, and terms are found by these keys.
-/

namespace WebIdl

namespace Dfn

/-- A container, if there is one, and a name. -/
structure Key where
  scope : Option String
  name : String
deriving DecidableEq, Repr

/-! ### Parts of a text -/

def isNameStart (c : Char) : Bool := c.isAlpha || c == '_'

def isNameChar (c : Char) : Bool := c.isAlphanum || c == '_' || c == '-'

/-- What follows the opening parenthesis of a call that ends the text. -/
def isCallTail (cs : List Char) : Bool := cs.getLast? == some ')' && !cs.contains '\n'

/-- The text before the first parenthesis that opens a call at the end. -/
def beforeCall? : List Char → Option (List Char)
  | [] => none
  | c :: cs => if c == '(' && isCallTail cs then some [] else (beforeCall? cs).map (c :: ·)

/-- The text without a call at the end and the blanks before it. -/
def dropCall (cs : List Char) : List Char :=
  match beforeCall? cs with
  | some before => Text.trimEnd before
  | none => cs

/-- The container and the name of a text that has both: an identifier, a dot or a slash, and
something on the same line. -/
def qualified? (cs : List Char) : Option (List Char × List Char) :=
  match cs.takeWhile isNameChar, cs.dropWhile isNameChar with
  | c :: scope, mark :: name =>
    if isNameStart c && (mark == '.' || mark == '/') && !name.isEmpty && !name.contains '\n' then
      some (c :: scope, name)
    else none
  | _, _ => none

/-- The key of a text for a container. Without one, a qualified text names its own. -/
def keyFor (scope : Option String) (cs : List Char) : Key :=
  match scope with
  | some scope => ⟨some scope, String.ofList cs⟩
  | none =>
    match qualified? cs with
    | some (scope, name) => ⟨some (String.ofList scope), String.ofList name⟩
    | none => ⟨none, String.ofList cs⟩

/-- The key of one form of a term that is declared for `scope`, or for no container. -/
def termKey (text : String) (scope : Option String) : Key :=
  let key := keyFor scope (dropCall (Text.trim text.toList))
  { key with name := unquote key.name }

end Dfn

/-! ### The index -/

/-- The keys of all terms: those of the text and of the alternates of each, in order. -/
structure TermIndex where
  keys : List (Nat × Dfn.Key)

namespace TermIndex

def ofTerms (terms : List TermInput) : TermIndex :=
  ⟨terms.zipIdx.flatMap fun (term, index) =>
    (term.text :: term.alternates).map fun text => (index, Dfn.termKey text term.scope)⟩

/-- The terms with a key that satisfies `p`, in order and each once. -/
def select (index : TermIndex) (p : Dfn.Key → Bool) : List Nat :=
  ((index.keys.filter fun (_, key) => p key).map (·.1)).eraseDups

/-- The terms that define a name in a container, or outside of any. -/
def matching (index : TermIndex) (scope : Option String) (name : String) : List Nat :=
  index.select (· == ⟨scope, name⟩)

/-- The terms that define a name, without regard to case. -/
def matchingIgnoringCase (index : TermIndex) (scope : Option String) (name : String) : List Nat :=
  index.select fun key =>
    key.scope.map Text.lower == scope.map Text.lower && Text.lower key.name == Text.lower name

end TermIndex

end WebIdl
