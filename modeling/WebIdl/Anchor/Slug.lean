import WebIdl.Text.Lowercase
import WebIdl.Token

/-!
# Slugs and anchors

The ids generated for definitions and members. A name goes into an id as its slug: in lower case,
without an escaping underscore, with one hyphen for each run of other characters than letters and
digits of ASCII between two that are. Members that share their container and slug are told apart by
a number, which is left out of the first.
-/

namespace WebIdl.Anchor

def isSlugChar (c : Char) : Bool := c.isDigit || ('a' ≤ c && c ≤ 'z')

/-- The runs of slug characters in a text. -/
def slugWords (cs : List Char) : List (List Char) :=
  (cs.splitBy fun a b => isSlugChar a == isSlugChar b).filter fun run => run.all isSlugChar

def slug (name : String) : String :=
  "-".intercalate ((slugWords (Text.lowerChars (unescape name).toList)).map String.ofList)

/-- The slug of a member. One that would be empty is spelled out. -/
def memberSlug (name : String) : String :=
  let s := slug name
  if s.isEmpty then "the-empty-string" else s

/-- What tells an overload from those before it. -/
def overloadSuffix : Nat → String
  | 0 => ""
  | n + 1 => "!overload-" ++ toString (n + 1)

/-- The id of the name of a definition. -/
def definitionName (name : String) : String := "dom-" ++ slug name

/-- The id of the name of a member. -/
def memberName (container member : String) (overload : Nat) : String :=
  "dom-" ++ slug container ++ "-" ++ memberSlug member ++ overloadSuffix overload

/-- The id of a whole definition. -/
def definitionWrapper (name : String) : String := "idl-def-" ++ slug name

/-- The id of a whole member. -/
def memberWrapper (container member : String) (overload : Nat) : String :=
  "idl-def-" ++ slug container ++ "-" ++ memberSlug member ++ overloadSuffix overload

end WebIdl.Anchor
