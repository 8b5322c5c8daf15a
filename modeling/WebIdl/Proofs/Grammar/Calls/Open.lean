import WebIdl.Grammar.Definition

/-!
# Rules with their calls left open

A rule calls others, and types, arguments and extended attributes call one another in a circle. Here
each rule is written with its calls left open, for any rules to stand in for those that it calls.

* `Call` — what can be called, and with what.
* `rules` — the rules of the grammar as they are.
* `Rules.unfold` — every rule with its calls handed to the rules that are given. To unfold rules a
  number of times is to let calls nest as often, before they are handed to those rules.
-/

namespace WebIdl.Grammar

open Rule Definition

/-- A rule that is called, with what it is called with. What only reads words one by one, as
`modifiers` and `longer` do, is a part of the rule it stands in. -/
inductive Call where
  -- definitions
  | definition
  | definitionForm
  | partialForm (partialWord : Option Token)
  | container (head : Head)
  | inheritance (head : Head)
  | body (head : Head) (name : Token)
  | typedef (keyword : Token)
  | callback (keyword : Token)
  | includes
  -- members
  | members (container : Definition.Kind) (scope : String)
  | interfaceMember (container : Definition.Kind) (scope : String)
  | interfaceMemberForm (container : Definition.Kind)
  | modifiedMember (container : Definition.Kind)
  | constructorForm (keyword : Token)
  | attributeForm (modifiers : List Token) (keyword : Token)
  | operationForm (modifiers : List Token)
  | constantForm (keyword : Token)
  | declarationForm (modifiers : List Token) (keyword : Token)
  | field (scope : String)
  | enumValues (scope : String)
  -- types, arguments and extended attributes
  | idlType (missing : Cause)
  | unionType (missing : Cause) (opening : Token)
  | singleType (missing : Cause)
  | argumentList (missing : Cause)
  | argument
  | default
  | literal (missing : Cause)
  | extAttrs
  | extAttr
  | extAttrValue

namespace Call

/-- What the rule that is called gives. -/
abbrev Result : Call → Type
  | definition => Definition
  | definitionForm | partialForm _ | container _ | typedef _ | callback _ | includes => Form
  | inheritance _ => Option Inheritance
  | body .. => Body
  | members .. | enumValues _ => List Member
  | interfaceMember .. | field _ => Member
  | interfaceMemberForm _ | modifiedMember _ | constructorForm _ | attributeForm ..
  | operationForm _ | constantForm _ | declarationForm .. => Member.Form
  | idlType _ => IdlType
  | unionType .. | singleType _ => TypeForm
  | argumentList _ => ArgumentList
  | argument => Argument
  | default => Option Default
  | literal _ => Literal
  | extAttrs => Option ExtAttrList
  | extAttr => ExtAttr
  | extAttrValue => ExtAttr.Value

end Call

/-- A rule for every call. -/
abbrev Rules : Type := (call : Call) → Rule call.Result

/-- The rules of the grammar. -/
def rules : Rules
  | .definition => definition
  | .definitionForm => definitionForm
  | .partialForm partialWord => partialForm partialWord
  | .container head => container head
  | .inheritance head => inheritance head
  | .body head name => body head name
  | .typedef keyword => typedef keyword
  | .callback keyword => callback keyword
  | .includes => includes
  | .members container scope => members container scope
  | .interfaceMember container scope => interfaceMember container scope
  | .interfaceMemberForm container => interfaceMemberForm container
  | .modifiedMember container => modifiedMember container
  | .constructorForm keyword => constructorForm keyword
  | .attributeForm modifiers keyword => attributeForm modifiers keyword
  | .operationForm modifiers => operationForm modifiers
  | .constantForm keyword => constantForm keyword
  | .declarationForm modifiers keyword => declarationForm modifiers keyword
  | .field scope => field scope
  | .enumValues scope => enumValues scope
  | .idlType missing => idlType missing
  | .unionType missing opening => Nested.unionType ⟨idlType, extAttrs⟩ missing opening
  | .singleType missing => Nested.singleType ⟨idlType, extAttrs⟩ missing
  | .argumentList missing => argumentList missing
  | .argument => Nested.argument ⟨idlType, extAttrs⟩
  | .default => default?
  | .literal missing => literal missing
  | .extAttrs => extAttrs
  | .extAttr => Nested.extAttr ⟨idlType, extAttrs⟩
  | .extAttrValue => extAttrValue

namespace Rules

variable (given : Rules)

/-- One level of calls: every rule, with what is given in the place of those that it calls. -/
def unfold : Rules
  -- definitions
  | .definition => do
    let attrs ← given .extAttrs
    return ⟨attrs, ← given .definitionForm⟩
  | .definitionForm => do
    if let some word ← eat "callback" then
      match ← eat "interface" with
      | some keyword => return ← given (.container (.callbackInterface word keyword))
      | none => return ← given (.callback word)
    given (.partialForm (← eat "partial"))
  | .partialForm partialWord => do
    if let some keyword ← eat "interface" then
      match ← eat "mixin" with
      | some mixinWord =>
        return ← given (.container (.interfaceMixin partialWord keyword mixinWord))
      | none => return ← given (.container (.interface partialWord keyword))
    if let some keyword ← eat "namespace" then
      return ← given (.container (.namespace partialWord keyword))
    if let some keyword ← eat "dictionary" then
      return ← given (.container (.dictionary partialWord keyword))
    if partialWord.isSome then
      fail .danglingPartial
    if let some keyword ← eat "enum" then
      return ← given (.container (.enum keyword))
    if let some keyword ← eat "typedef" then
      return ← given (.typedef keyword)
    if ← seesSecond (·.is "includes") then
      return ← given .includes
    fail .unknownDefinition
  | .container head => do
    let name ← identifier (.noName head.words)
    within (head.words ++ " " ++ name.text) do
      let parent ← given (.inheritance head)
      return .container head name parent (← given (.body head name))
  | .inheritance head => inheritance head
  | .body head name => do
    let opening ← expect "\x7b" (.noBody head.words)
    let members ← given (.members head.kind name.name)
    let closing ← expect "\x7d" (.unclosedBody head.words)
    return ⟨opening, members, closing, ← expect ";" (.unendedBody head.words)⟩
  | .typedef keyword => do
    let type ← given (.idlType .typedefNoType)
    let name ← identifier .typedefNoName
    within ("typedef " ++ name.text) do
      return .typedef keyword type name (← expect ";" .typedefUnended)
  | .callback keyword => do
    let name ← identifier .callbackNoName
    within ("callback " ++ name.text) do
      let assign ← expect "=" .callbackNoAssignment
      let result ← given (.idlType .callbackNoType)
      let arguments ← given (.argumentList .callbackNoArguments)
      return .callback keyword name assign result arguments (← expect ";" .callbackUnended)
  | .includes => includes
  -- members
  | .members container scope =>
    match container with
    | .enum => given (.enumValues scope)
    | .dictionary => repeated (given (.field scope)) (·.is "\x7d")
    | _ => repeated (given (.interfaceMember container scope)) (·.is "\x7d")
  | .interfaceMember container scope => do
    let attrs ← given .extAttrs
    return ⟨attrs, scope, ← given (.interfaceMemberForm container)⟩
  | .interfaceMemberForm container => do
    if let some keyword ← eat "const" then
      return ← given (.constantForm keyword)
    if let some keyword ← eatBefore (·.is "constructor") (·.is "(") then
      return ← given (.constructorForm keyword)
    if let some (keyword, semicolon) ← eatPair (·.is "stringifier") (·.is ";") then
      return .stringifier keyword semicolon
    if let some keyword ← eatIf fun t => t.is "iterable" || t.is "maplike" || t.is "setlike" then
      return ← given (.declarationForm [] keyword)
    if let some (word, keyword) ← eatPair (·.is "async") (·.is "iterable") then
      return ← given (.declarationForm [word] keyword)
    if let some (word, keyword) ←
        eatPair (·.is "readonly") (fun t => t.is "maplike" || t.is "setlike") then
      return ← given (.declarationForm [word] keyword)
    given (.modifiedMember container)
  | .modifiedMember container => do
    let words ← modifiers
    if let some keyword ← eat "attribute" then
      return ← given (.attributeForm words keyword)
    if words.any fun t => t.text == "readonly" || t.text == "inherit" then
      fail .modifiedNonAttribute
    if words.isEmpty && container != .namespace then
      given (.operationForm (← specialWord))
    else
      given (.operationForm words)
  | .constructorForm keyword => do
    let arguments ← given (.argumentList .constructorNoArguments)
    return .constructor keyword arguments (← expect ";" .constructorUnended)
  | .attributeForm modifiers keyword => do
    let type ← given (.idlType .attributeNoType)
    let name ← identifier .attributeNoName
    return .attribute modifiers keyword type name (← expect ";" .attributeUnended)
  | .operationForm modifiers => do
    let type ← given (.idlType .operationNoType)
    let name ← eatIf (·.kind == .identifier)
    let arguments ← given (.argumentList .operationNoArguments)
    return .operation modifiers type name arguments (← expect ";" .operationUnended)
  | .constantForm keyword => do
    let type ← given (.idlType .constantNoType)
    let name ← identifier .constantNoName
    let assign ← expect "=" .constantNoAssignment
    let value ← given (.literal .constantNoValue)
    return .constant keyword type name assign value (← expect ";" .constantUnended)
  | .declarationForm modifiers keyword => do
    let kind := Member.Kind.ofDeclaration modifiers keyword
    let (least, most) := declarationArity kind
    let opening ← expect "<" (.declarationNoTypes keyword.text)
    let types ← separated (given (.idlType (.declarationNoTypes keyword.text))) ","
    let count := types.items.length
    if count < least || most < count then
      fail (.declarationArity keyword.text least most)
    let closing ← expect ">" (.declarationUnclosed keyword.text)
    let arguments ←
      if kind == .asyncIterable && (← sees (·.is "(")) then
        some <$> given (.argumentList .declarationNoArguments)
      else pure none
    return .declaration modifiers keyword opening types closing arguments
      (← expect ";" (.declarationUnended keyword.text))
  | .field scope => do
    let attrs ← given .extAttrs
    let required ← eat "required"
    let type ← given (.idlType .fieldNoType)
    let name ← identifier .fieldNoName
    let default ← given .default
    if required.isSome && default.isSome then
      fail .fieldRequiredDefault
    return ⟨attrs, scope, .field required type name default (← expect ";" .fieldUnended)⟩
  | .enumValues scope => enumValues scope
  -- types, arguments and extended attributes
  | .idlType missing => do
    let attrs ← given .extAttrs
    let form ← match ← eat "(" with
      | some opening => given (.unionType missing opening)
      | none => given (.singleType missing)
    return .mk attrs form (← eat "?")
  | .unionType missing opening => do
    let first ← given (.idlType missing)
    match ← eat "or" with
    | none => fail .unionOfOne
    | some separator =>
      let rest ← separated (given (.idlType .unionNoType)) "or"
      return .union opening first separator rest (← expect ")" .unionUnclosed)
  | .singleType missing => do
    let first ← identifier missing
    if Vocabulary.isGeneric first.text then
      match ← eat "<" with
      | some opening =>
        let arguments ← separated (given (.idlType (.genericNoType first.text))) ","
        return .generic first opening arguments (← expect ">" (.genericUnclosed first.text))
      | none => return .named first []
    else Nested.namedType first
  | .argumentList missing => do
    let opening ← expect "(" missing
    if let some closing ← eat ")" then
      return .mk opening none closing
    let items ← separated (given .argument) ","
    return .mk opening (some items) (← expect ")" .argumentsUnclosed)
  | .argument => do
    let attrs ← given .extAttrs
    match ← eat "optional" with
    | some keyword =>
      let type ← given (.idlType .argumentNoType)
      let name ← identifier .argumentNoName
      return .optional attrs keyword type name (← given .default)
    | none =>
      let type ← given (.idlType .argumentNoType)
      let variadic ← eat "..."
      return .required attrs type variadic (← identifier .argumentNoName)
  | .default => do
    match ← eat "=" with
    | none => return none
    | some assign => return some ⟨assign, ← given (.literal .defaultNoValue)⟩
  | .literal missing => literal missing
  | .extAttrs => do
    match ← eat "[" with
    | none => return none
    | some opening =>
      let items ← separated (given .extAttr) ","
      return some (.mk opening items (← expect "]" .attrsUnclosed))
  | .extAttr => do
    let name ← identifier .attrNoName
    let assignment ← match ← eat "=" with
      | some assign => do pure (some ⟨assign, ← given .extAttrValue⟩)
      | none => pure none
    if ← sees (·.is "(") then
      return .mk name assignment (some (← given (.argumentList .attrNoArguments)))
    return .mk name assignment none
  | .extAttrValue => extAttrValue

end Rules

end WebIdl.Grammar
