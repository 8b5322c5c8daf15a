import WebIdl.Grammar.Member
import WebIdl.Syntax.Definition

/-!
# Trees that obey the grammar

The constructors of a tree already say that separators stand between items, that a union has two
types or more, and that only optional arguments have defaults. What they do not say is checked by
`wellFormed`, one function for each kind of node: every token is of the kind and has the text that
its place asks for, literals are of the kind of their token, modifiers are combined and ordered as
they may be, and members name the definition that they stand in.

Names and types of one word are chosen freely among the identifiers that the grammar does not look
for where they stand (`Token.isName`). Extended attributes in front of a type belong to the member
or the argument that starts there, so a type in that place has some of its own only after those.
-/

namespace WebIdl

/-! ### Tokens in their places -/

namespace Token

/-- The punctuation that the grammar looks for. -/
def marks : List String :=
  ["(", ")", "[", "]", "\x7b", "\x7d", "<", ">", ",", ";", ":", "=", "?", "*", "..."]

/-- The words that the grammar looks for where a name or a type can stand. -/
def keywords : List String :=
  ["callback", "interface", "partial", "mixin", "namespace", "dictionary", "enum", "typedef",
    "const", "constructor", "stringifier", "iterable", "maplike", "setlike", "async", "readonly",
    "static", "inherit", "attribute", "getter", "setter", "deleter", "required", "optional",
    "unsigned", "unrestricted", "long"]

/-- The token is this punctuation. -/
def isMark (token : Token) (mark : String) : Bool :=
  token.kind == .punctuation && token.text == mark

/-- The token is this word. -/
def isWord (token : Token) (word : String) : Bool := token.kind == .identifier && token.text == word

/-- The token does not read like punctuation. -/
def isPlain (token : Token) : Bool := token.kind == .string || !marks.contains token.text

theorem text_of_is {token : Token} {word : String} (h : token.is word) : token.text = word := by
  simpa using (Bool.and_eq_true_iff.mp h).2

/-- An identifier that is free to be a name or a type. -/
def isName (token : Token) : Bool :=
  token.kind == .identifier && token.isPlain && !keywords.contains token.text

end Token

/-- The items and the separators between them satisfy these. -/
def Separated.all {α : Type} (item : α → Bool) (separator : Token → Bool) : Separated α → Bool
  | .last a => item a
  | .cons a token rest => item a && separator token && rest.all item separator

/-- The words stand in the order of `words`, and each is there once at most. -/
def inOrder : List String → List Token → Bool
  | _, [] => true
  | [], _ :: _ => false
  | word :: words, token :: tokens =>
    if token.isWord word then inOrder words tokens else inOrder words (token :: tokens)

/-! ### Literals and values -/

def Literal.wellFormed : Literal → Bool
  | .scalar kind token => Kind.ofToken? token == some kind && token.isPlain
  | .emptySequence opening closing => opening.isMark "[" && closing.isMark "]"
  | .emptyDictionary opening closing => opening.isMark "\x7b" && closing.isMark "\x7d"

def Default.wellFormed (default : Default) : Bool :=
  default.assign.isMark "=" && default.value.wellFormed

namespace ExtAttr

/-- The token is a value of this kind on its own. -/
def ValueKind.fits : ValueKind → Token → Bool
  | .identifier, token => token.kind == .identifier && token.isPlain
  | .string, token => token.kind == .string
  | .integer, token => token.kind == .integer && token.isPlain
  | .decimal, token => token.kind == .decimal && token.isPlain
  | .wildcard, token => token.isMark "*"

def Value.wellFormed : Value → Bool
  | .scalar kind token => kind.fits token
  | .list opening items closing =>
    opening.isMark "(" && items.all Grammar.isListed (·.isMark ",") && closing.isMark ")"

def Assignment.wellFormed (a : Assignment) : Bool := a.assign.isMark "=" && a.value.wellFormed

end ExtAttr

/-! ### The nested nodes -/

/-- The builtin types whose words are looked for. -/
def TypeForm.isBuiltin (first : Token) : List Token → Bool
  | [] => first.isWord "long"
  | [second] =>
    first.isWord "long" && second.isWord "long" ||
      first.isWord "unsigned" && (second.isWord "short" || second.isWord "long") ||
      first.isWord "unrestricted" && (second.isWord "float" || second.isWord "double")
  | [second, third] => first.isWord "unsigned" && second.isWord "long" && third.isWord "long"
  | _ => false

mutual

def ExtAttrList.wellFormed : ExtAttrList → Bool
  | .mk opening items closing =>
    opening.isMark "[" && extAttrsWellFormed items && closing.isMark "]"

def extAttrsWellFormed : Separated ExtAttr → Bool
  | .last attr => attr.wellFormed
  | .cons attr separator rest =>
    attr.wellFormed && separator.isMark "," && extAttrsWellFormed rest

def ExtAttr.wellFormed : ExtAttr → Bool
  | .mk name assignment none => name.kind == .identifier && assignment.all (·.wellFormed)
  | .mk name assignment (some arguments) =>
    name.kind == .identifier && assignment.all (·.wellFormed) && arguments.wellFormed

def ArgumentList.wellFormed : ArgumentList → Bool
  | .mk opening none closing => opening.isMark "(" && closing.isMark ")"
  | .mk opening (some items) closing =>
    opening.isMark "(" && argumentsWellFormed items && closing.isMark ")"

def argumentsWellFormed : Separated Argument → Bool
  | .last argument => argument.wellFormed
  | .cons argument separator rest =>
    argument.wellFormed && separator.isMark "," && argumentsWellFormed rest

def Argument.wellFormed : Argument → Bool
  | .required none type variadic name =>
    type.attrs.isNone && type.wellFormed && variadic.all (·.isMark "...") && name.isName
  | .required (some attrs) type variadic name =>
    attrs.wellFormed && type.wellFormed && variadic.all (·.isMark "...") && name.isName
  | .optional none keyword type name default =>
    keyword.isWord "optional" && type.wellFormed && name.isName && default.all (·.wellFormed)
  | .optional (some attrs) keyword type name default =>
    attrs.wellFormed && keyword.isWord "optional" && type.wellFormed && name.isName &&
      default.all (·.wellFormed)

def IdlType.wellFormed : IdlType → Bool
  | .mk none form nullable => form.wellFormed && nullable.all (·.isMark "?")
  | .mk (some attrs) form nullable =>
    attrs.wellFormed && form.wellFormed && nullable.all (·.isMark "?")

def TypeForm.wellFormed : TypeForm → Bool
  | .named first rest => first.isName && rest.isEmpty || TypeForm.isBuiltin first rest
  | .generic name opening arguments closing =>
    name.kind == .identifier && Vocabulary.isGeneric name.text && opening.isMark "<" &&
      typesWellFormed (·.isMark ",") arguments && closing.isMark ">"
  | .union opening first separator rest closing =>
    opening.isMark "(" && first.wellFormed && separator.isWord "or" &&
      typesWellFormed (·.isWord "or") rest && closing.isMark ")"

def typesWellFormed (separator : Token → Bool) : Separated IdlType → Bool
  | .last type => type.wellFormed
  | .cons type token rest =>
    type.wellFormed && separator token && typesWellFormed separator rest

end

/-! ### Members -/

namespace Member

namespace Form

/-- The words before the type of an operation: namespaces have no special operations. -/
def operationWords (container : Definition.Kind) (words : List Token) : Bool :=
  inOrder ["static", "stringifier"] words ||
    container != .namespace &&
      match words with
      | [word] => word.isWord "getter" || word.isWord "setter" || word.isWord "deleter"
      | _ => false

/-- The words of a declaration. -/
def declarationWords (keyword : Token) : List Token → Bool
  | [] => keyword.isWord "iterable" || keyword.isWord "maplike" || keyword.isWord "setlike"
  | [word] =>
    word.isWord "async" && keyword.isWord "iterable" ||
      word.isWord "readonly" && (keyword.isWord "maplike" || keyword.isWord "setlike")
  | _ => false

/-- The form of a member, with extended attributes or without, of a definition of kind
`container`. -/
def wellFormed (container : Definition.Kind) (hasAttrs : Bool) : Form → Bool
  | .attribute modifiers keyword type name semicolon =>
    inOrder ["static", "stringifier", "inherit", "readonly"] modifiers &&
      keyword.isWord "attribute" && type.wellFormed && name.isName && semicolon.isMark ";"
  | .operation modifiers type name arguments semicolon =>
    operationWords container modifiers && (!modifiers.isEmpty || hasAttrs || type.attrs.isNone) &&
      type.wellFormed && name.all (·.isName) && arguments.wellFormed && semicolon.isMark ";"
  | .stringifier keyword semicolon => keyword.isWord "stringifier" && semicolon.isMark ";"
  | .constructor keyword arguments semicolon =>
    keyword.isWord "constructor" && arguments.wellFormed && semicolon.isMark ";"
  | .constant keyword type name assign value semicolon =>
    keyword.isWord "const" && type.wellFormed && name.isName && assign.isMark "=" &&
      value.wellFormed && semicolon.isMark ";"
  | .field required type name default semicolon =>
    required.all (·.isWord "required") && (required.isSome || hasAttrs || type.attrs.isNone) &&
      type.wellFormed && name.isName && default.all (·.wellFormed) &&
      (required.isNone || default.isNone) && semicolon.isMark ";"
  | .enumValue value separator => value.kind == .string && separator.all (·.isMark ",")
  | .declaration modifiers keyword opening types closing arguments semicolon =>
    let kind := Kind.ofDeclaration modifiers keyword
    let (least, most) := Grammar.declarationArity kind
    declarationWords keyword modifiers && opening.isMark "<" &&
      typesWellFormed (·.isMark ",") types &&
      least ≤ types.items.length && types.items.length ≤ most && closing.isMark ">" &&
      arguments.all (·.wellFormed) && (arguments.isNone || kind == .asyncIterable) &&
      semicolon.isMark ";"

/-- The form is one of those in a definition of kind `container`. -/
def belongs (container : Definition.Kind) : Form → Bool
  | .field .. => container == .dictionary
  | .enumValue .. => container == .enum
  | _ => container != .dictionary && container != .enum

/-- A comma follows the value of an enumeration. -/
def hasSeparator : Form → Bool
  | .enumValue _ separator => separator.isSome
  | _ => false

end Form

def wellFormed (container : Definition.Kind) (scope : String) (member : Member) : Bool :=
  member.scope == scope && member.form.belongs container &&
    member.attrs.all (·.wellFormed) && (container != .enum || member.attrs.isNone) &&
    member.form.wellFormed container member.attrs.isSome

end Member

/-! ### Definitions -/

namespace Definition

def Head.wellFormed : Head → Bool
  | .interface partialWord keyword =>
    partialWord.all (·.isWord "partial") && keyword.isWord "interface"
  | .interfaceMixin partialWord keyword mixinWord =>
    partialWord.all (·.isWord "partial") && keyword.isWord "interface" && mixinWord.isWord "mixin"
  | .callbackInterface callbackWord keyword =>
    callbackWord.isWord "callback" && keyword.isWord "interface"
  | .namespace partialWord keyword =>
    partialWord.all (·.isWord "partial") && keyword.isWord "namespace"
  | .dictionary partialWord keyword =>
    partialWord.all (·.isWord "partial") && keyword.isWord "dictionary"
  | .enum keyword => keyword.isWord "enum"

def Inheritance.wellFormed (parent : Inheritance) : Bool :=
  parent.colon.isMark ":" && parent.name.kind == .identifier

/-- The members of an enumeration are one or more, with commas between them. -/
def Body.wellFormed (container : Kind) (scope : String) (body : Body) : Bool :=
  body.opening.isMark "\x7b" && body.members.all (·.wellFormed container scope) &&
    (container != .enum ||
      !body.members.isEmpty && body.members.dropLast.all (·.form.hasSeparator)) &&
    body.closing.isMark "\x7d" && body.semicolon.isMark ";"

def Form.wellFormed : Form → Bool
  | .container head name parent body =>
    head.wellFormed && name.isName && parent.all (·.wellFormed) &&
      (parent.isNone || !head.isPartial && head.kind != .enum) &&
      body.wellFormed head.kind name.name
  | .typedef keyword type name semicolon =>
    keyword.isWord "typedef" && type.wellFormed && name.isName && semicolon.isMark ";"
  | .callback keyword name assign result arguments semicolon =>
    keyword.isWord "callback" && name.isName && assign.isMark "=" && result.wellFormed &&
      arguments.wellFormed && semicolon.isMark ";"
  | .includes name keyword mixin semicolon =>
    name.isName && keyword.isWord "includes" && mixin.kind == .identifier && semicolon.isMark ";"

def wellFormed (definition : Definition) : Bool :=
  definition.attrs.all (·.wellFormed) && definition.form.wellFormed

end Definition

/-! ### The checks on lists -/

theorem extAttrsWellFormed_eq (items : Separated ExtAttr) :
    extAttrsWellFormed items = items.all (·.wellFormed) (·.isMark ",") := by
  induction items with
  | last attr => simp [extAttrsWellFormed, Separated.all]
  | cons attr separator rest ih => simp [extAttrsWellFormed, Separated.all, ih]

theorem argumentsWellFormed_eq (items : Separated Argument) :
    argumentsWellFormed items = items.all (·.wellFormed) (·.isMark ",") := by
  induction items with
  | last argument => simp [argumentsWellFormed, Separated.all]
  | cons argument separator rest ih => simp [argumentsWellFormed, Separated.all, ih]

theorem typesWellFormed_eq (separator : Token → Bool) (types : Separated IdlType) :
    typesWellFormed separator types = types.all (·.wellFormed) separator := by
  induction types with
  | last type => simp [typesWellFormed, Separated.all]
  | cons type token rest ih => simp [typesWellFormed, Separated.all, ih]

end WebIdl
