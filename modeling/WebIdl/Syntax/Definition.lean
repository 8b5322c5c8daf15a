import WebIdl.Syntax.Member
import WebIdl.Text.Lowercase

/-!
# Definitions

The statements of a block. A definition with members opens with the keywords of its kind, which may
make it partial; the others (typedefs, callbacks and includes statements) have forms of their own.
-/

namespace WebIdl

namespace Definition

inductive Kind where
  | interface | interfaceMixin | callbackInterface | namespace | dictionary | enum
  | typedef | callback | includes
deriving DecidableEq, Repr

def Kind.label : Kind → String
  | .interface => "interface"
  | .interfaceMixin => "interface-mixin"
  | .callbackInterface => "callback-interface"
  | .namespace => "namespace"
  | .dictionary => "dictionary"
  | .enum => "enum"
  | .typedef => "typedef"
  | .callback => "callback"
  | .includes => "includes"

/-- The kinds whose definitions are merged with each other. -/
inductive Family where
  | interface | mixin | namespace | dictionary
deriving DecidableEq, Repr

namespace Family

def label : Family → String
  | .interface => "interface"
  | .mixin => "mixin"
  | .namespace => "namespace"
  | .dictionary => "dictionary"

def all : List Family := [.interface, .mixin, .namespace, .dictionary]

def ofLabel? (label : String) : Option Family := all.find? (·.label == label)

end Family

def Kind.family : Kind → Option Family
  | .interface | .callbackInterface => some .interface
  | .interfaceMixin => some .mixin
  | .namespace => some .namespace
  | .dictionary => some .dictionary
  | .enum | .typedef | .callback | .includes => none

/-- The keywords before the name of a definition with members. -/
inductive Head where
  | interface (partialWord : Option Token) (keyword : Token)
  | interfaceMixin (partialWord : Option Token) (keyword mixinWord : Token)
  | callbackInterface (callbackWord keyword : Token)
  | namespace (partialWord : Option Token) (keyword : Token)
  | dictionary (partialWord : Option Token) (keyword : Token)
  | enum (keyword : Token)
deriving DecidableEq, Repr

namespace Head

def tokens : Head → List Token
  | .interface partialWord keyword | .namespace partialWord keyword
  | .dictionary partialWord keyword => partialWord.toList ++ [keyword]
  | .interfaceMixin partialWord keyword mixinWord => partialWord.toList ++ [keyword, mixinWord]
  | .callbackInterface callbackWord keyword => [callbackWord, keyword]
  | .enum keyword => [keyword]

def partialWord : Head → Option Token
  | .interface word _ | .namespace word _ | .dictionary word _ | .interfaceMixin word _ _ => word
  | .callbackInterface .. | .enum .. => none

def isPartial (head : Head) : Bool := head.partialWord.isSome

def kind : Head → Kind
  | .interface .. => .interface
  | .interfaceMixin .. => .interfaceMixin
  | .callbackInterface .. => .callbackInterface
  | .namespace .. => .namespace
  | .dictionary .. => .dictionary
  | .enum .. => .enum

/-- The first keyword. -/
def first : Head → Token
  | .interface partialWord keyword | .namespace partialWord keyword
  | .dictionary partialWord keyword | .interfaceMixin partialWord keyword _ =>
    partialWord.getD keyword
  | .callbackInterface callbackWord _ => callbackWord
  | .enum keyword => keyword

/-- The keywords with nothing before them. -/
def bare : Head → Head
  | .interface (some word) keyword => .interface (some word.bare) keyword
  | .interface none keyword => .interface none keyword.bare
  | .interfaceMixin (some word) keyword mixinWord =>
    .interfaceMixin (some word.bare) keyword mixinWord
  | .interfaceMixin none keyword mixinWord => .interfaceMixin none keyword.bare mixinWord
  | .callbackInterface callbackWord keyword => .callbackInterface callbackWord.bare keyword
  | .namespace (some word) keyword => .namespace (some word.bare) keyword
  | .namespace none keyword => .namespace none keyword.bare
  | .dictionary (some word) keyword => .dictionary (some word.bare) keyword
  | .dictionary none keyword => .dictionary none keyword.bare
  | .enum keyword => .enum keyword.bare

/-- The keywords in a row, as error messages quote them. -/
def words (head : Head) : String := " ".intercalate (head.tokens.map (·.text))

end Head

/-- The colon and the name of the definition inherited from. -/
structure Inheritance where
  colon : Token
  name : Token
deriving DecidableEq, Repr

/-- The members in braces. -/
structure Body where
  opening : Token
  members : List Member
  closing : Token
  semicolon : Token

namespace Body

def tokens (body : Body) : List Token :=
  body.opening :: (body.members.flatMap (·.tokens) ++ [body.closing, body.semicolon])

end Body

inductive Form where
  | container (head : Head) (name : Token) (parent : Option Inheritance) (body : Body)
  | typedef (keyword : Token) (type : IdlType) (name semicolon : Token)
  | callback (keyword name assign : Token) (result : IdlType) (arguments : ArgumentList)
      (semicolon : Token)
  /-- The interface `name` takes in what the mixin declares. -/
  | includes (name keyword mixin semicolon : Token)

namespace Form

def tokens : Form → List Token
  | .container head name parent body =>
    head.tokens ++ name :: (parent.elim [] (fun p => [p.colon, p.name]) ++ body.tokens)
  | .typedef keyword type name semicolon => keyword :: (type.tokens ++ [name, semicolon])
  | .callback keyword name assign result arguments semicolon =>
    keyword :: name :: assign :: (result.tokens ++ arguments.tokens ++ [semicolon])
  | .includes name keyword mixin semicolon => [name, keyword, mixin, semicolon]

def kind : Form → Kind
  | .container head .. => head.kind
  | .typedef .. => .typedef
  | .callback .. => .callback
  | .includes .. => .includes

/-- The keywords before the name. -/
def keywords : Form → List Token
  | .container head .. => head.tokens
  | .typedef keyword .. => [keyword]
  | .callback keyword .. => [keyword]
  | .includes .. => []

def nameToken : Form → Token
  | .container _ name _ _ => name
  | .typedef _ _ name _ => name
  | .callback _ name _ _ _ _ => name
  | .includes name _ _ _ => name

def isPartial : Form → Bool
  | .container head .. => head.isPartial
  | _ => false

def members : Form → List Member
  | .container _ _ _ body => body.members
  | _ => []

def parent? : Form → Option Inheritance
  | .container _ _ parent _ => parent
  | _ => none

/-- The semicolon, with which every definition ends. -/
def semicolon : Form → Token
  | .container _ _ _ body => body.semicolon
  | .typedef _ _ _ semicolon => semicolon
  | .callback _ _ _ _ _ semicolon => semicolon
  | .includes _ _ _ semicolon => semicolon

def first : Form → Token
  | .container head .. => head.first
  | .typedef keyword .. => keyword
  | .callback keyword .. => keyword
  | .includes name .. => name

/-- The form with nothing before its first token. -/
def bare : Form → Form
  | .container head name parent body => .container head.bare name parent body
  | .typedef keyword type name semicolon => .typedef keyword.bare type name semicolon
  | .callback keyword name assign result arguments semicolon =>
    .callback keyword.bare name assign result arguments semicolon
  | .includes name keyword mixin semicolon => .includes name.bare keyword mixin semicolon

/-- How error messages refer to the definition, once its name has been read. -/
def phrase : Form → String
  | .container head name _ _ => head.words ++ " " ++ name.text
  | .typedef _ _ name _ => "typedef " ++ name.text
  | .callback _ name _ _ _ _ => "callback " ++ name.text
  | .includes name _ _ _ => name.text ++ " includes"

end Form

end Definition

structure Definition where
  attrs : Option ExtAttrList
  form : Definition.Form

namespace Definition

def tokens (definition : Definition) : List Token :=
  definition.attrs.elim [] (·.tokens) ++ definition.form.tokens

def kind (definition : Definition) : Kind := definition.form.kind

def family (definition : Definition) : Option Family := definition.kind.family

def isPartial (definition : Definition) : Bool := definition.form.isPartial

/-- A definition that can own its name: neither partial nor an includes statement. -/
def isBase (definition : Definition) : Bool :=
  !definition.isPartial && definition.kind != .includes

theorem isBase_iff {definition : Definition} :
    definition.isBase = true ↔ definition.isPartial = false ∧ definition.kind ≠ .includes := by
  simp [isBase]

/-- The name that is defined, or extended; of an includes statement, the interface. -/
def name (definition : Definition) : String := definition.form.nameToken.name

/-- The name without regard to case. -/
def key (definition : Definition) : String := Text.lower definition.name

def members (definition : Definition) : List Member := definition.form.members

/-- The name of the definition inherited from. -/
def parentName? (definition : Definition) : Option String :=
  definition.form.parent?.map (·.name.name)

/-- The mixin of an includes statement. -/
def mixinName? (definition : Definition) : Option String :=
  match definition.form with
  | .includes _ _ mixin _ => some mixin.name
  | _ => none

/-- The first token, whose trivia comes before the whole definition. -/
def first (definition : Definition) : Token :=
  match definition.attrs with
  | some attrs => attrs.opening
  | none => definition.form.first

def leadingTrivia (definition : Definition) : String := definition.first.trivia

/-- The bytes of the definition, without the trivia before it. -/
def span (definition : Definition) : Text.Span :=
  ⟨definition.first.start, definition.form.semicolon.stop⟩

/-- The source text of the definition, without the trivia before it. -/
def sourceText (definition : Definition) : String :=
  definition.first.text ++ written (definition.tokens.drop 1)

/-- The definition with nothing before its first token. -/
def bare (definition : Definition) : Definition :=
  match definition.attrs with
  | some attrs => { definition with attrs := some attrs.bare }
  | none => { definition with form := definition.form.bare }

end Definition

end WebIdl
