import WebIdl.Grammar.Member

/-!
# Rules for definitions

The statements of a block. Once the name of a definition has been read, the failures of what
follows say that they are in it.
-/

namespace WebIdl.Grammar

open Rule Definition

/-- The colon and the name of what is inherited from. Neither a partial definition nor an
enumeration inherits. -/
def inheritance (head : Head) : Rule (Option Inheritance) := do
  if head.isPartial || head.kind == .enum then
    return none
  match ← eat ":" with
  | none => return none
  | some colon => return some ⟨colon, ← identifier .noParent⟩

/-- The members in braces, and the semicolon. -/
def body (head : Head) (name : Token) : Rule Body := do
  let opening ← expect "\x7b" (.noBody head.words)
  let members ← members head.kind name.name
  let closing ← expect "\x7d" (.unclosedBody head.words)
  return ⟨opening, members, closing, ← expect ";" (.unendedBody head.words)⟩

/-- A definition with members, once its keywords have been read. -/
def container (head : Head) : Rule Form := do
  let name ← identifier (.noName head.words)
  within (head.words ++ " " ++ name.text) do
    let parent ← inheritance head
    return .container head name parent (← body head name)

def typedef (keyword : Token) : Rule Form := do
  let type ← idlType .typedefNoType
  let name ← identifier .typedefNoName
  within ("typedef " ++ name.text) do
    return .typedef keyword type name (← expect ";" .typedefUnended)

def callback (keyword : Token) : Rule Form := do
  let name ← identifier .callbackNoName
  within ("callback " ++ name.text) do
    let assign ← expect "=" .callbackNoAssignment
    let result ← idlType .callbackNoType
    let arguments ← argumentList .callbackNoArguments
    return .callback keyword name assign result arguments (← expect ";" .callbackUnended)

def includes : Rule Form := do
  let name ← identifier .includesNoTarget
  within (name.text ++ " includes") do
    let keyword ← expect "includes" .includesIncomplete
    let mixin ← identifier .includesIncomplete
    return .includes name keyword mixin (← expect ";" .includesUnended)

/-- A definition that may be partial, once that word has been read. -/
def partialForm (partialWord : Option Token) : Rule Form := do
  if let some keyword ← eat "interface" then
    match ← eat "mixin" with
    | some mixinWord => return ← container (.interfaceMixin partialWord keyword mixinWord)
    | none => return ← container (.interface partialWord keyword)
  if let some keyword ← eat "namespace" then
    return ← container (.namespace partialWord keyword)
  if let some keyword ← eat "dictionary" then
    return ← container (.dictionary partialWord keyword)
  if partialWord.isSome then
    fail .danglingPartial
  if let some keyword ← eat "enum" then
    return ← container (.enum keyword)
  if let some keyword ← eat "typedef" then
    return ← typedef keyword
  if ← seesSecond (·.is "includes") then
    return ← includes
  fail .unknownDefinition

def definitionForm : Rule Form := do
  if let some word ← eat "callback" then
    match ← eat "interface" with
    | some keyword => return ← container (.callbackInterface word keyword)
    | none => return ← callback word
  partialForm (← eat "partial")

def definition : Rule Definition := do
  let attrs ← extAttrs
  return ⟨attrs, ← definitionForm⟩

end WebIdl.Grammar
