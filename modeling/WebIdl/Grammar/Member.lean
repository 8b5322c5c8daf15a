import WebIdl.Grammar.Nested
import WebIdl.Syntax.Definition

/-!
# Rules for members

The members of interfaces, mixins and namespaces, the fields of dictionaries and the values of
enumerations.
-/

namespace WebIdl.Grammar

open Rule

/-! ### Members of interfaces, mixins and namespaces -/

def constructorForm (keyword : Token) : Rule Member.Form := do
  let arguments ← argumentList .constructorNoArguments
  return .constructor keyword arguments (← expect ";" .constructorUnended)

def attributeForm (modifiers : List Token) (keyword : Token) : Rule Member.Form := do
  let type ← idlType .attributeNoType
  let name ← identifier .attributeNoName
  return .attribute modifiers keyword type name (← expect ";" .attributeUnended)

def operationForm (modifiers : List Token) : Rule Member.Form := do
  let type ← idlType .operationNoType
  let name ← eatIf (·.kind == .identifier)
  let arguments ← argumentList .operationNoArguments
  return .operation modifiers type name arguments (← expect ";" .operationUnended)

def constantForm (keyword : Token) : Rule Member.Form := do
  let type ← idlType .constantNoType
  let name ← identifier .constantNoName
  let assign ← expect "=" .constantNoAssignment
  let value ← literal .constantNoValue
  return .constant keyword type name assign value (← expect ";" .constantUnended)

/-- How many type arguments a declaration takes: at least, and at most. -/
def declarationArity : Member.Kind → Nat × Nat
  | .maplike => (2, 2)
  | .setlike => (1, 1)
  | _ => (1, 2)

def declarationForm (modifiers : List Token) (keyword : Token) : Rule Member.Form := do
  let kind := Member.Kind.ofDeclaration modifiers keyword
  let (least, most) := declarationArity kind
  let opening ← expect "<" (.declarationNoTypes keyword.text)
  let types ← separated (idlType (.declarationNoTypes keyword.text)) ","
  let count := types.items.length
  if count < least || most < count then
    fail (.declarationArity keyword.text least most)
  let closing ← expect ">" (.declarationUnclosed keyword.text)
  let arguments ←
    if kind == .asyncIterable && (← sees (·.is "(")) then
      some <$> argumentList .declarationNoArguments
    else pure none
  return .declaration modifiers keyword opening types closing arguments
    (← expect ";" (.declarationUnended keyword.text))

/-- The words that may stand before an attribute or an operation, each once and in this order. -/
def modifiers : Rule (List Token) := do
  let staticWord ← eat "static"
  let stringifierWord ← eat "stringifier"
  let inheritWord ← eat "inherit"
  let readonlyWord ← eat "readonly"
  return staticWord.toList ++ stringifierWord.toList ++ inheritWord.toList ++ readonlyWord.toList

/-- The word of a special operation. -/
def specialWord : Rule (List Token) := do
  return (← eatIf fun t => t.is "getter" || t.is "setter" || t.is "deleter").toList

/-- A member that starts with its modifiers. Namespaces have no special operations. -/
def modifiedMember (container : Definition.Kind) : Rule Member.Form := do
  let words ← modifiers
  if let some keyword ← eat "attribute" then
    return ← attributeForm words keyword
  if words.any fun t => t.text == "readonly" || t.text == "inherit" then
    fail .modifiedNonAttribute
  if words.isEmpty && container != .namespace then
    operationForm (← specialWord)
  else
    operationForm words

def interfaceMemberForm (container : Definition.Kind) : Rule Member.Form := do
  if let some keyword ← eat "const" then
    return ← constantForm keyword
  if let some keyword ← eatBefore (·.is "constructor") (·.is "(") then
    return ← constructorForm keyword
  if let some (keyword, semicolon) ← eatPair (·.is "stringifier") (·.is ";") then
    return .stringifier keyword semicolon
  if let some keyword ← eatIf fun t => t.is "iterable" || t.is "maplike" || t.is "setlike" then
    return ← declarationForm [] keyword
  if let some (word, keyword) ← eatPair (·.is "async") (·.is "iterable") then
    return ← declarationForm [word] keyword
  if let some (word, keyword) ←
      eatPair (·.is "readonly") (fun t => t.is "maplike" || t.is "setlike") then
    return ← declarationForm [word] keyword
  modifiedMember container

def interfaceMember (container : Definition.Kind) (scope : String) : Rule Member := do
  let attrs ← extAttrs
  return ⟨attrs, scope, ← interfaceMemberForm container⟩

/-! ### Fields and enumeration values -/

def field (scope : String) : Rule Member := do
  let attrs ← extAttrs
  let required ← eat "required"
  let type ← idlType .fieldNoType
  let name ← identifier .fieldNoName
  let default ← default?
  if required.isSome && default.isSome then
    fail .fieldRequiredDefault
  return ⟨attrs, scope, .field required type name default (← expect ";" .fieldUnended)⟩

/-- Values up to the first that no comma follows, at most `bound`. -/
def enumValuesUpTo (scope : String) : Nat → Rule (List Member)
  | 0 => return []
  | bound + 1 => do
    match ← eatIf (·.kind == .string) with
    | none => return []
    | some value =>
      let separator ← eat ","
      let member : Member := ⟨none, scope, .enumValue value separator⟩
      match separator with
      | none => return [member]
      | some _ => return member :: (← enumValuesUpTo scope bound)

/-- The values of an enumeration; a comma may follow the last of them. -/
def enumValues (scope : String) : Rule (List Member) := do
  let values ← fun rest => enumValuesUpTo scope rest.length rest
  if values.isEmpty then
    fail .enumEmpty
  return values

/-- What stands in the braces of a definition. -/
def members (container : Definition.Kind) (scope : String) : Rule (List Member) :=
  match container with
  | .enum => enumValues scope
  | .dictionary => repeated (field scope) (·.is "\x7d")
  | _ => repeated (interfaceMember container scope) (·.is "\x7d")

end WebIdl.Grammar
