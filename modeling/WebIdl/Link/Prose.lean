import WebIdl.Link.Target

/-!
# References in prose

A reference says the name that it means, perhaps in double braces, perhaps with its container before
a dot or a slash, perhaps with call parentheses. It is linked to a term of the host, to a member or
a definition, to a term that differs in case, or to a type that is defined elsewhere.
-/

namespace WebIdl

/-- A reference and where it leads. -/
structure LinkedReference where
  text : String
  scope : Option String
  target : Option Target
deriving DecidableEq, Repr

namespace Dfn

/-- The text between double braces, without blanks at its ends, or the text itself. -/
def dropBraces (cs : List Char) : List Char :=
  match (['\x7b', '\x7b'].isPrefixOf? cs).bind (['\x7d', '\x7d'].isSuffixOf? ·) with
  | some inner => Text.trim inner
  | none => Text.trim cs

/-- The text without empty call parentheses at its end. -/
def dropEmptyCall (cs : List Char) : List Char := (['(', ')'].isSuffixOf? cs).getD cs

/-- The key of a reference with a container to look in, or without. -/
def referenceKey (text : String) (scope : Option String) : Key :=
  keyFor scope (dropEmptyCall (dropBraces (Text.trim text.toList)))

end Dfn

namespace Resolver

/-- What a reference leads to inside the document: a member, or a whole definition. -/
def referred? (resolver : Resolver) (scope : Option String) (name : String) : Option Target :=
  match scope with
  | none => (resolver.catalog.definition? name).map fun definition =>
    ⟨.inside, "#" ++ Anchor.definitionWrapper definition.name, definition.kind.linkType⟩
  | some _ => resolver.declared? scope name

def hostIgnoringCase? (resolver : Resolver) (scope : Option String) (name : String) :
    Option Target :=
  Target.ofTerms? resolver.claims (resolver.index.matchingIgnoringCase scope name)

/-- Only a reference without a container can lead out of the document. -/
def link? (resolver : Resolver) (key : Dfn.Key) : Option Target :=
  resolver.host? key.scope key.name
    <|> resolver.referred? key.scope key.name
    <|> resolver.hostIgnoringCase? key.scope key.name
    <|> match key.scope with
      | some _ => none
      | none => resolver.type? key.name

def linkReference (resolver : Resolver) (reference : ReferenceInput) : LinkedReference :=
  ⟨reference.text, reference.scope,
    resolver.link? (Dfn.referenceKey reference.text reference.scope)⟩

end Resolver

end WebIdl
