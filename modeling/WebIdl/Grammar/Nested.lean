import WebIdl.Grammar.Rule
import WebIdl.Syntax.Types
import WebIdl.Vocabulary

/-!
# Rules for types, arguments and extended attributes

Each of these rules calls the others only after it has read a token, so nesting goes no deeper than
there are tokens. The rules below are written over the two rules they recur on, `Nested`, and
`nested depth` ties the knot to a depth; where no tokens are left, no rule needs another.
-/

namespace WebIdl.Grammar

open Rule

/-! ### Literals -/

def literal (missing : Cause) : Rule Literal := do
  if let some opening ← eat "[" then
    return .emptySequence opening (← expect "]" .sequenceNotEmpty)
  if let some opening ← eat "\x7b" then
    return .emptyDictionary opening (← expect "\x7d" .dictionaryNotEmpty)
  next (fun token => (Literal.Kind.ofToken? token).map (.scalar · token)) missing

def default? : Rule (Option Default) := do
  match ← eat "=" with
  | none => return none
  | some assign => return some ⟨assign, ← literal .defaultNoValue⟩

/-! ### Values of extended attributes -/

/-- The tokens that can stand in a list of values. -/
def isListed (token : Token) : Bool :=
  match token.kind with
  | .identifier | .string | .integer | .decimal => true
  | .punctuation | .other => false

/-- The value a token is on its own. -/
def scalarValue? (token : Token) : Option ExtAttr.Value :=
  match token.kind with
  | .identifier => some (.scalar .identifier token)
  | .string => some (.scalar .string token)
  | .integer => some (.scalar .integer token)
  | .decimal => some (.scalar .decimal token)
  | .punctuation => if token.is "*" then some (.scalar .wildcard token) else none
  | .other => none

def extAttrValue : Rule ExtAttr.Value := do
  match ← eat "(" with
  | some opening =>
    let items ← separated (need isListed .attrNoValue) ","
    return .list opening items (← expect ")" .attrListUnclosed)
  | none => next scalarValue? .attrNoValue

/-! ### One level of nesting -/

/-- The rules that the others recur on. -/
structure Nested where
  /-- A type, or the given cause if there is none. -/
  type : Cause → Rule IdlType
  /-- Extended attributes, if there are any. -/
  attrs : Rule (Option ExtAttrList)

namespace Nested

variable (inner : Nested)

def argument : Rule Argument := do
  let attrs ← inner.attrs
  match ← eat "optional" with
  | some keyword =>
    let type ← inner.type .argumentNoType
    let name ← identifier .argumentNoName
    return .optional attrs keyword type name (← default?)
  | none =>
    let type ← inner.type .argumentNoType
    let variadic ← eat "..."
    return .required attrs type variadic (← identifier .argumentNoName)

def argumentList (missing : Cause) : Rule ArgumentList := do
  let opening ← expect "(" missing
  if let some closing ← eat ")" then
    return .mk opening none closing
  let items ← separated inner.argument ","
  return .mk opening (some items) (← expect ")" .argumentsUnclosed)

def extAttr : Rule ExtAttr := do
  let name ← identifier .attrNoName
  let assignment ← match ← eat "=" with
    | some assign => do pure (some ⟨assign, ← extAttrValue⟩)
    | none => pure none
  if ← sees (·.is "(") then
    return .mk name assignment (some (← inner.argumentList .attrNoArguments))
  return .mk name assignment none

def extAttrs : Rule (Option ExtAttrList) := do
  match ← eat "[" with
  | none => return none
  | some opening =>
    let items ← separated inner.extAttr ","
    return some (.mk opening items (← expect "]" .attrsUnclosed))

/-- A second `long` after the word `long`. -/
def longer (word : Token) : Rule (List Token) := do
  if word.text == "long" then return (← eat "long").toList else return []

/-- A type that is a name, once the first word has been read. -/
def namedType (first : Token) : Rule TypeForm := do
  if first.text == "unsigned" then
    let second ← need (fun t => t.is "short" || t.is "long") .integerType
    return .named first (second :: (← longer second))
  else if first.text == "unrestricted" then
    let second ← need (fun t => t.is "float" || t.is "double") .floatType
    return .named first [second]
  else
    return .named first (← longer first)

/-- A name, or a generic type where an angle bracket follows a name that takes arguments. -/
def singleType (missing : Cause) : Rule TypeForm := do
  let first ← identifier missing
  if Vocabulary.isGeneric first.text then
    match ← eat "<" with
    | some opening =>
      let arguments ← separated (inner.type (.genericNoType first.text)) ","
      return .generic first opening arguments (← expect ">" (.genericUnclosed first.text))
    | none => return .named first []
  else namedType first

/-- A union, once its parenthesis has been read. -/
def unionType (missing : Cause) (opening : Token) : Rule TypeForm := do
  let first ← inner.type missing
  match ← eat "or" with
  | none => fail .unionOfOne
  | some separator =>
    let rest ← separated (inner.type .unionNoType) "or"
    return .union opening first separator rest (← expect ")" .unionUnclosed)

def idlType (missing : Cause) : Rule IdlType := do
  let attrs ← inner.extAttrs
  let form ← match ← eat "(" with
    | some opening => inner.unionType missing opening
    | none => inner.singleType missing
  return .mk attrs form (← eat "?")

end Nested

/-! ### All levels -/

/-- The rules with at most `depth` levels of nesting inside. -/
def nested : Nat → Nested
  | 0 => ⟨fail, return none⟩
  | depth + 1 =>
    ⟨fun missing rest => (nested depth).idlType missing rest,
      fun rest => (nested depth).extAttrs rest⟩

def idlType (missing : Cause) : Rule IdlType := fun rest =>
  (nested rest.length).idlType missing rest

def extAttrs : Rule (Option ExtAttrList) := fun rest => (nested rest.length).extAttrs rest

def argumentList (missing : Cause) : Rule ArgumentList := fun rest =>
  (nested rest.length).argumentList missing rest

end WebIdl.Grammar
