import WebIdl.Syntax.Types

/-!
# Members

What stands between the braces of a definition: attributes, operations, constants, fields of
dictionaries, values of enumerations, and the declarations that make an interface iterable or a map
or a set. A member keeps the name of the definition it is written in, which it never loses when
definitions are merged.
-/

namespace WebIdl

namespace Member

inductive Kind where
  | attribute | operation | constructor | constant | field | enumValue
  | iterable | asyncIterable | maplike | setlike
  | stringifier | getter | setter | deleter
deriving DecidableEq, Repr

namespace Kind

def label : Kind → String
  | .attribute => "attribute"
  | .operation => "operation"
  | .constructor => "constructor"
  | .constant => "constant"
  | .field => "field"
  | .enumValue => "enum-value"
  | .iterable => "iterable"
  | .asyncIterable => "async-iterable"
  | .maplike => "maplike"
  | .setlike => "setlike"
  | .stringifier => "stringifier"
  | .getter => "getter"
  | .setter => "setter"
  | .deleter => "deleter"

/-- Kinds that are called like operations. -/
def isOperation : Kind → Bool
  | .operation | .stringifier | .getter | .setter | .deleter => true
  | _ => false

/-- The keywords that make a special operation. -/
def ofSpecial? : String → Option Kind
  | "stringifier" => some .stringifier
  | "getter" => some .getter
  | "setter" => some .setter
  | "deleter" => some .deleter
  | _ => none

/-- The kind of an operation with these words before its type. -/
def ofModifiers (modifiers : List Token) : Kind :=
  (modifiers.findSome? (ofSpecial? ·.text)).getD .operation

/-- The kind of a declaration with this keyword and these words before it. -/
def ofDeclaration (modifiers : List Token) (keyword : Token) : Kind :=
  if keyword.text == "maplike" then .maplike
  else if keyword.text == "setlike" then .setlike
  else if modifiers.any (·.text == "async") then .asyncIterable
  else .iterable

end Kind

inductive Form where
  | attribute (modifiers : List Token) (keyword : Token) (type : IdlType) (name semicolon : Token)
  | operation (modifiers : List Token) (type : IdlType) (name : Option Token)
      (arguments : ArgumentList) (semicolon : Token)
  /-- The keyword alone: the stringifier is not spelled out. -/
  | stringifier (keyword semicolon : Token)
  | constructor (keyword : Token) (arguments : ArgumentList) (semicolon : Token)
  | constant (keyword : Token) (type : IdlType) (name assign : Token) (value : Literal)
      (semicolon : Token)
  | field (required : Option Token) (type : IdlType) (name : Token) (default : Option Default)
      (semicolon : Token)
  | enumValue (value : Token) (separator : Option Token)
  /-- `iterable`, `async iterable`, `maplike` and `setlike` with their type arguments. -/
  | declaration (modifiers : List Token) (keyword opening : Token) (types : Separated IdlType)
      (closing : Token) (arguments : Option ArgumentList) (semicolon : Token)

namespace Form

def tokens : Form → List Token
  | .attribute modifiers keyword type name semicolon =>
    modifiers ++ keyword :: (type.tokens ++ [name, semicolon])
  | .operation modifiers type name arguments semicolon =>
    modifiers ++ type.tokens ++ name.toList ++ arguments.tokens ++ [semicolon]
  | .stringifier keyword semicolon => [keyword, semicolon]
  | .constructor keyword arguments semicolon => keyword :: (arguments.tokens ++ [semicolon])
  | .constant keyword type name assign value semicolon =>
    keyword :: (type.tokens ++ name :: assign :: (value.tokens ++ [semicolon]))
  | .field required type name default semicolon =>
    required.toList ++ type.tokens ++ name :: (default.elim [] (·.tokens) ++ [semicolon])
  | .enumValue value separator => value :: separator.toList
  | .declaration modifiers keyword opening types closing arguments semicolon =>
    modifiers ++ keyword :: opening :: (typeTokens types ++ closing ::
      (arguments.elim [] (·.tokens) ++ [semicolon]))

/-- The words before the keyword or the type. -/
def modifiers : Form → List Token
  | .attribute modifiers _ _ _ _ | .operation modifiers _ _ _ _
  | .declaration modifiers _ _ _ _ _ _ => modifiers
  | .stringifier keyword _ => [keyword]
  | _ => []

def kind : Form → Kind
  | .attribute .. => .attribute
  | .operation modifiers .. => Kind.ofModifiers modifiers
  | .stringifier .. => .stringifier
  | .constructor .. => .constructor
  | .constant .. => .constant
  | .field .. => .field
  | .enumValue .. => .enumValue
  | .declaration modifiers keyword .. => Kind.ofDeclaration modifiers keyword

/-- The token that names the member; declarations have no name, and operations may lack one. -/
def nameToken? : Form → Option Token
  | .attribute _ _ _ name _ | .constant _ _ name _ _ _ | .field _ _ name _ _ => some name
  | .operation _ _ name _ _ => name
  | .enumValue value _ => some value
  | .constructor keyword _ _ => some keyword
  | .stringifier .. | .declaration .. => none

/-- The type of what the member holds or returns. -/
def type? : Form → Option IdlType
  | .attribute _ _ type _ _ | .constant _ type _ _ _ _ | .field _ type _ _ _
  | .operation _ type _ _ _ => some type
  | _ => none

def arguments? : Form → Option ArgumentList
  | .operation _ _ _ arguments _ | .constructor _ arguments _ => some arguments
  | .declaration _ _ _ _ _ arguments _ => arguments
  | _ => none

/-- The value of a constant or the default of a field. -/
def value? : Form → Option Literal
  | .constant _ _ _ _ value _ => some value
  | .field _ _ _ default _ => default.map (·.value)
  | _ => none

def isRequired : Form → Bool
  | .field required .. => required.isSome
  | _ => false

/-- The first token; a member never starts with nothing. -/
def first : Form → Token
  | .attribute modifiers keyword .. | .declaration modifiers keyword .. =>
    modifiers.head?.getD keyword
  | .operation modifiers type .. => modifiers.head?.getD type.first
  | .stringifier keyword _ => keyword
  | .constructor keyword .. => keyword
  | .constant keyword .. => keyword
  | .field required type .. => required.getD type.first
  | .enumValue value _ => value

end Form

end Member

structure Member where
  attrs : Option ExtAttrList
  /-- The name of the definition the member is written in. -/
  scope : String
  form : Member.Form

namespace Member

def tokens (member : Member) : List Token :=
  member.attrs.elim [] (·.tokens) ++ member.form.tokens

def kind (member : Member) : Kind := member.form.kind

/-- The name of a member: the text of an enumeration value without its quotes, and the keyword of
a constructor. -/
def name? (member : Member) : Option String :=
  match member.form with
  | .enumValue value _ => some (unquote value.text)
  | .constructor keyword _ _ => some keyword.text
  | form => form.nameToken?.map Token.name

def hasModifier (member : Member) (word : String) : Bool :=
  member.form.modifiers.any (·.text == word)

def isReadonly (member : Member) : Bool := member.hasModifier "readonly"

def isStatic (member : Member) : Bool := member.hasModifier "static"

def isStringifier (member : Member) : Bool := member.hasModifier "stringifier"

def isRequired (member : Member) : Bool := member.form.isRequired

def leadingTrivia (member : Member) : String :=
  match member.attrs with
  | some attrs => attrs.opening.trivia
  | none => member.form.first.trivia

end Member

end WebIdl
