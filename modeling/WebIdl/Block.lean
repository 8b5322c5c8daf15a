import WebIdl.Grammar.Definition
import WebIdl.Diagnostic

/-!
# Blocks

A block of source is read definition by definition. A syntax error ends the reading: the definitions
before it are kept, and the text from the start of the failing one, trivia included, is kept as it
stands, so that a block can always be written back.
-/

namespace WebIdl

/-- The end of the reading of a block. -/
structure Stop where
  error : SyntaxError
  /-- The text from where the failing definition starts. -/
  remainder : String

structure Block where
  definitions : List Definition
  /-- What follows the last token of the source. -/
  trailing : String
  /-- The length of the source in bytes. -/
  size : Nat
  stop : Option Stop

namespace Block

/-- Definitions up to the end or the first failure, at most `bound`; a failure comes with the
tokens from where the failing definition starts. -/
def readUpTo : Nat → List Token → List Definition × Option (Grammar.Failure × List Token)
  | 0, _ => ([], none)
  | _ + 1, [] => ([], none)
  | bound + 1, token :: tokens =>
    match Grammar.definition (token :: tokens) with
    | .ok (definition, rest) =>
      let (definitions, failure) := readUpTo bound rest
      (definition :: definitions, failure)
    | .error failure => ([], some (failure, token :: tokens))

/-- The definitions of a token list. There are no more than there are tokens. -/
def read (tokens : List Token) : List Definition × Option (Grammar.Failure × List Token) :=
  readUpTo tokens.length tokens

/-- The words of a failure; rejected text is quoted. -/
def failureMessage (failure : Grammar.Failure) : String :=
  match failure.rest.head? with
  | some token =>
    if token.kind = .other then
      failure.cause.message ++ " (unexpected character `" ++ token.text ++ "`)"
    else failure.cause.message
  | none => failure.cause.message

/-- The bytes of the token that a failure is at, or the end of the source. -/
def failureSpan (failure : Grammar.Failure) (size : Nat) : Text.Span :=
  match failure.rest.head? with
  | some token => token.span
  | none => ⟨size, size⟩

/-- A failure as it is reported. Before the name of a definition is known, the error is said to be
in the definition named last, or else in the block. -/
def syntaxError (source : String) (size : Nat) (last : Option Definition) (scope : Option String)
    (failure : Grammar.Failure) : SyntaxError :=
  let range := (Text.LineIndex.ofText source).range (failureSpan failure size)
  { message := failureMessage failure
    range := range
    context := failure.since <|> last.map (·.form.phrase) <|> scope
    excerpt := Text.excerpt source range.start }

/-- Reads a block that is called `scope`, if it has a name. -/
def parse (source : String) (scope : Option String) : Block :=
  let stream := TokenStream.ofSource source
  let (definitions, failure) := read stream.tokens
  { definitions := definitions
    trailing := stream.trailing
    size := stream.size
    stop := failure.map fun (failure, rest) =>
      ⟨syntaxError source stream.size definitions.getLast? scope failure,
        stream.writtenFrom rest⟩ }

def remainder (block : Block) : Option String := block.stop.map (·.remainder)

def diagnostics (block : Block) : List Diagnostic := (block.stop.map (·.error.diagnostic)).toList

def hasErrors (block : Block) : Bool := block.stop.isSome

/-- The block written back. -/
def source (block : Block) : String :=
  written (block.definitions.flatMap (·.tokens)) ++ block.remainder.getD block.trailing

end Block

end WebIdl
