/-!
# Causes of syntax errors

Why a grammar rule cannot go on, one cause for each thing that a rule asks for and does not find,
and the words in which each is reported.
-/

namespace WebIdl.Grammar

/-- Why a rule stops. Texts are the keywords of the construct that the error is in. -/
inductive Cause where
  -- definitions
  | danglingPartial
  | unknownDefinition
  | noName (keywords : String)
  | noBody (keywords : String)
  | unclosedBody (keywords : String)
  | unendedBody (keywords : String)
  | noParent
  | typedefNoType
  | typedefNoName
  | typedefUnended
  | callbackNoName
  | callbackNoAssignment
  | callbackNoType
  | callbackNoArguments
  | callbackUnended
  | includesNoTarget
  | includesIncomplete
  | includesUnended
  -- members
  | constructorNoArguments
  | constructorUnended
  | modifiedNonAttribute
  | attributeNoType
  | attributeNoName
  | attributeUnended
  | operationNoType
  | operationNoArguments
  | operationUnended
  | constantNoType
  | constantNoName
  | constantNoAssignment
  | constantNoValue
  | constantUnended
  | declarationNoTypes (keyword : String)
  | declarationArity (keyword : String) (least most : Nat)
  | declarationUnclosed (keyword : String)
  | declarationNoArguments
  | declarationUnended (keyword : String)
  | fieldNoType
  | fieldNoName
  | fieldRequiredDefault
  | fieldUnended
  | enumEmpty
  -- types, arguments and extended attributes
  | unionNoType
  | unionOfOne
  | unionUnclosed
  | integerType
  | floatType
  | genericNoType (name : String)
  | genericUnclosed (name : String)
  | argumentsUnclosed
  | argumentNoType
  | argumentNoName
  | defaultNoValue
  | sequenceNotEmpty
  | dictionaryNotEmpty
  | attrsUnclosed
  | attrNoName
  | attrNoArguments
  | attrNoValue
  | attrListUnclosed
deriving DecidableEq, Repr

namespace Cause

/-- A number of type arguments, or a choice of two. -/
def arity (least most : Nat) : String :=
  if least = most then toString least else toString least ++ " or " ++ toString most

def message : Cause → String
  | .danglingPartial => "Partial doesn't apply to anything"
  | .unknownDefinition => "Unrecognised definition"
  | .noName keywords => "Missing name in " ++ keywords
  | .noBody keywords => "Bodyless " ++ keywords
  | .unclosedBody keywords => "Unterminated " ++ keywords
  | .unendedBody keywords => "Missing semicolon after " ++ keywords
  | .noParent => "Inheritance lacks a type"
  | .typedefNoType => "Typedef lacks a type"
  | .typedefNoName => "Typedef lacks a name"
  | .typedefUnended => "Unterminated typedef"
  | .callbackNoName => "Callback lacks a name"
  | .callbackNoAssignment => "Callback lacks an assignment"
  | .callbackNoType => "Callback lacks a return type"
  | .callbackNoArguments => "Callback lacks parentheses for arguments"
  | .callbackUnended => "Unterminated callback"
  | .includesNoTarget => "Includes statement lacks a target"
  | .includesIncomplete => "Incomplete includes statement"
  | .includesUnended => "No terminating ; for includes statement"
  | .constructorNoArguments => "Constructor lacks parentheses"
  | .constructorUnended => "Unterminated constructor"
  | .modifiedNonAttribute => "Attributes must be declared with `attribute`"
  | .attributeNoType => "Attribute lacks a type"
  | .attributeNoName => "Attribute lacks a name"
  | .attributeUnended => "Unterminated attribute"
  | .operationNoType => "Missing return type"
  | .operationNoArguments => "Invalid operation"
  | .operationUnended => "Unterminated operation"
  | .constantNoType => "Const lacks a type"
  | .constantNoName => "Const lacks a name"
  | .constantNoAssignment => "Const lacks value assignment"
  | .constantNoValue => "Const lacks a value"
  | .constantUnended => "Unterminated const"
  | .declarationNoTypes keyword => "Missing type arguments for " ++ keyword
  | .declarationArity keyword least most =>
    keyword ++ " declaration expects " ++ arity least most ++ " type argument(s)"
  | .declarationUnclosed keyword => "Unterminated " ++ keyword ++ " declaration"
  | .declarationNoArguments => "Invalid async iterable arguments"
  | .declarationUnended keyword => "Missing semicolon after " ++ keyword ++ " declaration"
  | .fieldNoType => "Dictionary member lacks a type"
  | .fieldNoName => "Dictionary member lacks a name"
  | .fieldRequiredDefault => "Required member must not have a default"
  | .fieldUnended => "Unterminated dictionary member"
  | .enumEmpty => "No value in enum"
  | .unionNoType => "No type after `or` in union type"
  | .unionOfOne => "At least two types are expected in a union type"
  | .unionUnclosed => "Unterminated union type"
  | .integerType => "Failed to parse integer type"
  | .floatType => "Failed to parse float type"
  | .genericNoType name => "Missing type argument for " ++ name
  | .genericUnclosed name => "Unterminated generic type " ++ name
  | .argumentsUnclosed => "Unterminated argument list"
  | .argumentNoType => "Missing argument type"
  | .argumentNoName => "Missing argument name"
  | .defaultNoValue => "No value for default"
  | .sequenceNotEmpty => "Default sequence value must be empty"
  | .dictionaryNotEmpty => "Default dictionary value must be empty"
  | .attrsUnclosed => "Unterminated extended attribute list"
  | .attrNoName => "Extended attribute lacks a name"
  | .attrNoArguments => "Invalid extended attribute arguments"
  | .attrNoValue => "No right hand side to extended attribute assignment"
  | .attrListUnclosed => "Unterminated extended attribute value list"

end Cause

end WebIdl.Grammar
