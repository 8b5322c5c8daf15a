import WebIdl.Syntax.Separated

/-!
# Types, arguments and extended attributes

The three are nested in each other: a type and an argument may carry extended attributes, an
extended attribute may carry arguments, and an argument has a type. Every node keeps the tokens it
was read from, and `tokens` gives them back in the order of the source; what a node says (a name,
whether an argument is optional) is read off those tokens.
-/

namespace WebIdl

/-! ### Literals -/

namespace Literal

/-- The literals that are one token. -/
inductive Kind where
  | boolean (value : Bool)
  | null
  | integer
  | decimal
  | infinity (negative : Bool)
  | nan
  | string
  | undefined
deriving DecidableEq, Repr

/-- What the words among the literals stand for. -/
def Kind.ofWord? : String → Option Kind
  | "true" => some (.boolean true)
  | "false" => some (.boolean false)
  | "null" => some .null
  | "Infinity" => some (.infinity false)
  | "-Infinity" => some (.infinity true)
  | "NaN" => some .nan
  | "undefined" => some .undefined
  | _ => none

/-- The literal a token is on its own. -/
def Kind.ofToken? (token : Token) : Option Kind :=
  match token.kind with
  | .integer => some .integer
  | .decimal => some .decimal
  | .string => some .string
  | .identifier => Kind.ofWord? token.text
  | .punctuation | .other => none

end Literal

/-- The value of a constant or a default. -/
inductive Literal where
  | scalar (kind : Literal.Kind) (token : Token)
  | emptySequence (opening closing : Token)
  | emptyDictionary (opening closing : Token)
deriving DecidableEq, Repr

namespace Literal

def tokens : Literal → List Token
  | .scalar _ token => [token]
  | .emptySequence opening closing => [opening, closing]
  | .emptyDictionary opening closing => [opening, closing]

/-- The source text without what comes before it. -/
def text : Literal → String
  | .scalar _ token => token.text
  | .emptySequence opening closing => opening.text ++ closing.written
  | .emptyDictionary opening closing => opening.text ++ closing.written

end Literal

/-- A default value with the equals sign before it. -/
structure Default where
  assign : Token
  value : Literal
deriving DecidableEq, Repr

namespace Default

def tokens (default : Default) : List Token := default.assign :: default.value.tokens

end Default

/-! ### The nested nodes -/

namespace ExtAttr

/-- The values of an extended attribute that are one token. -/
inductive ValueKind where
  | identifier | string | integer | decimal | wildcard
deriving DecidableEq, Repr

/-- What stands after the equals sign of an extended attribute. -/
inductive Value where
  | scalar (kind : ValueKind) (token : Token)
  | list (opening : Token) (items : Separated Token) (closing : Token)

namespace Value

def tokens : Value → List Token
  | .scalar _ token => [token]
  | .list opening items closing => opening :: (items.tokens ([·]) ++ [closing])

/-- The names in the value, if it is a name or a list. -/
def names : Value → List String
  | .scalar .identifier token => [token.name]
  | .scalar _ _ => []
  | .list _ items _ => items.items.map Token.name

end Value

/-- The equals sign and the value after it. -/
structure Assignment where
  assign : Token
  value : Value

namespace Assignment

def tokens (a : Assignment) : List Token := a.assign :: a.value.tokens

end Assignment

end ExtAttr

mutual

/-- Extended attributes in brackets. -/
inductive ExtAttrList where
  | mk (opening : Token) (items : Separated ExtAttr) (closing : Token)

inductive ExtAttr where
  | mk (name : Token) (assignment : Option ExtAttr.Assignment) (arguments : Option ArgumentList)

/-- Arguments in parentheses. -/
inductive ArgumentList where
  | mk (opening : Token) (items : Option (Separated Argument)) (closing : Token)

inductive Argument where
  /-- An argument that callers must give, or that they may give any number of times. -/
  | required (attrs : Option ExtAttrList) (type : IdlType) (variadic : Option Token) (name : Token)
  /-- An argument that callers may leave out, and what it then is. -/
  | optional (attrs : Option ExtAttrList) (keyword : Token) (type : IdlType) (name : Token)
      (default : Option Default)

/-- A type with its extended attributes; the mark after it makes it nullable. -/
inductive IdlType where
  | mk (attrs : Option ExtAttrList) (form : TypeForm) (nullable : Option Token)

inductive TypeForm where
  /-- A name of one word, or a builtin name of several. -/
  | named (first : Token) (rest : List Token)
  /-- A name with type arguments in angle brackets. -/
  | generic (name opening : Token) (arguments : Separated IdlType) (closing : Token)
  /-- Alternatives in parentheses, with `or` between them; there are two or more. -/
  | union (opening : Token) (first : IdlType) (separator : Token) (rest : Separated IdlType)
      (closing : Token)

end

/-! ### The tokens of a node -/

mutual

def ExtAttrList.tokens : ExtAttrList → List Token
  | .mk opening items closing => opening :: (extAttrTokens items ++ [closing])

def extAttrTokens : Separated ExtAttr → List Token
  | .last attr => attr.tokens
  | .cons attr separator rest => attr.tokens ++ separator :: extAttrTokens rest

def ExtAttr.tokens : ExtAttr → List Token
  | .mk name assignment none => name :: (assignment.elim [] (·.tokens))
  | .mk name assignment (some arguments) =>
    name :: (assignment.elim [] (·.tokens) ++ arguments.tokens)

def ArgumentList.tokens : ArgumentList → List Token
  | .mk opening none closing => [opening, closing]
  | .mk opening (some items) closing => opening :: (argumentTokens items ++ [closing])

def argumentTokens : Separated Argument → List Token
  | .last argument => argument.tokens
  | .cons argument separator rest => argument.tokens ++ separator :: argumentTokens rest

def Argument.tokens : Argument → List Token
  | .required none type variadic name => type.tokens ++ variadic.toList ++ [name]
  | .required (some attrs) type variadic name =>
    attrs.tokens ++ type.tokens ++ variadic.toList ++ [name]
  | .optional none keyword type name default =>
    keyword :: (type.tokens ++ name :: default.elim [] (·.tokens))
  | .optional (some attrs) keyword type name default =>
    attrs.tokens ++ keyword :: (type.tokens ++ name :: default.elim [] (·.tokens))

def IdlType.tokens : IdlType → List Token
  | .mk none form nullable => form.tokens ++ nullable.toList
  | .mk (some attrs) form nullable => attrs.tokens ++ form.tokens ++ nullable.toList

def TypeForm.tokens : TypeForm → List Token
  | .named first rest => first :: rest
  | .generic name opening arguments closing =>
    name :: opening :: (typeTokens arguments ++ [closing])
  | .union opening first separator rest closing =>
    opening :: (first.tokens ++ separator :: (typeTokens rest ++ [closing]))

def typeTokens : Separated IdlType → List Token
  | .last type => type.tokens
  | .cons type separator rest => type.tokens ++ separator :: typeTokens rest

end

/-! ### What the nodes say -/

namespace ExtAttrList

def opening : ExtAttrList → Token
  | .mk opening _ _ => opening

def items : ExtAttrList → List ExtAttr
  | .mk _ items _ => items.items

/-- The list with nothing before it. -/
def bare : ExtAttrList → ExtAttrList
  | .mk opening items closing => .mk opening.bare items closing

end ExtAttrList

namespace ExtAttr

def nameToken : ExtAttr → Token
  | .mk name _ _ => name

def name (attr : ExtAttr) : String := attr.nameToken.text

def assignment : ExtAttr → Option Assignment
  | .mk _ assignment _ => assignment

def arguments : ExtAttr → Option ArgumentList
  | .mk _ _ arguments => arguments

/-- The names after the equals sign: `Window` and `Worker` of `Exposed=(Window,Worker)`. -/
def valueNames (attr : ExtAttr) : List String := attr.assignment.elim [] (·.value.names)

/-- The value names the globals an interface is exposed on. -/
def namesGlobals (attr : ExtAttr) : Bool := attr.name == "Exposed" || attr.name == "Global"

end ExtAttr

/-- An extended attribute of this name is in the list. -/
def hasExtAttr (attrs : Option ExtAttrList) (name : String) : Bool :=
  attrs.any fun list => list.items.any (·.name == name)

namespace ArgumentList

def arguments : ArgumentList → List Argument
  | .mk _ none _ => []
  | .mk _ (some items) _ => items.items

end ArgumentList

namespace Argument

def attrs : Argument → Option ExtAttrList
  | .required attrs _ _ _ => attrs
  | .optional attrs _ _ _ _ => attrs

def type : Argument → IdlType
  | .required _ type _ _ => type
  | .optional _ _ type _ _ => type

def nameToken : Argument → Token
  | .required _ _ _ name => name
  | .optional _ _ _ name _ => name

def name (argument : Argument) : String := argument.nameToken.name

/-- The keyword of an optional argument. -/
def optionalToken : Argument → Option Token
  | .required _ _ _ _ => none
  | .optional _ keyword _ _ _ => some keyword

/-- The dots of a variadic argument. -/
def variadicToken : Argument → Option Token
  | .required _ _ variadic _ => variadic
  | .optional _ _ _ _ _ => none

def default : Argument → Option Default
  | .required _ _ _ _ => none
  | .optional _ _ _ _ default => default

def isOptional (argument : Argument) : Bool := argument.optionalToken.isSome

def isVariadic (argument : Argument) : Bool := argument.variadicToken.isSome

end Argument

namespace TypeForm

/-- A name as written, its words joined by single spaces. -/
def rawName (first : Token) (rest : List Token) : String :=
  " ".intercalate ((first :: rest).map (·.text))

/-- The first token of the form. -/
def first : TypeForm → Token
  | .named first _ => first
  | .generic name _ _ _ => name
  | .union opening _ _ _ _ => opening

end TypeForm

namespace IdlType

def attrs : IdlType → Option ExtAttrList
  | .mk attrs _ _ => attrs

def form : IdlType → TypeForm
  | .mk _ form _ => form

def nullable : IdlType → Option Token
  | .mk _ _ nullable => nullable

def isNullable (type : IdlType) : Bool := type.nullable.isSome

/-- The name of a type that is a name, nullable or not. -/
def named? (type : IdlType) : Option String :=
  match type.form with
  | .named first rest => some (unescape (TypeForm.rawName first rest))
  | _ => none

/-- The first token of the type, its extended attributes included. -/
def first (type : IdlType) : Token :=
  match type.attrs with
  | some attrs => attrs.opening
  | none => type.form.first

def leadingTrivia (type : IdlType) : String := type.first.trivia

/-- The source text without the trivia before it. -/
def text (type : IdlType) : String := type.first.text ++ written (type.tokens.drop 1)

end IdlType

mutual

/-- The names in a type that can be linked, in order; those inside extended attributes are not
among them. -/
def IdlType.references : IdlType → List String
  | .mk _ form _ => form.references

def TypeForm.references : TypeForm → List String
  | .named first rest => [unescape (TypeForm.rawName first rest)]
  | .generic name _ arguments _ => name.text :: typeReferences arguments
  | .union _ first _ rest _ => first.references ++ typeReferences rest

def typeReferences : Separated IdlType → List String
  | .last type => type.references
  | .cons type _ rest => type.references ++ typeReferences rest

end

end WebIdl
