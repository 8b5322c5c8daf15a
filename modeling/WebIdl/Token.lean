import WebIdl.Lexeme.Basic
import WebIdl.Text.Position

/-!
# Tokens

The significant lexemes of a source, each with the white space and comments before it, which is
called its trivia. Every lexeme goes into exactly one place, so writing the tokens back one after
the other, and then the trivia that trails the last of them, gives the source.

Keywords are not told apart from other identifiers here: most of them are also allowed as names, so
the grammar compares the text of a token instead.
-/

namespace WebIdl

/-- Text that holds a comment, for text that is known to be trivia. -/
def hasComment (trivia : String) : Bool := !Text.allBlank trivia.toList

/-- An identifier without the underscore that keeps it from being read as a keyword. -/
def unescape (identifier : String) : String :=
  match identifier.toList with
  | '_' :: cs => String.ofList cs
  | _ => identifier

/-- Text without the double quotes around it, if it has both. -/
def unquote (text : String) : String :=
  match text.toList with
  | '"' :: cs => if cs.getLast? = some '"' then String.ofList cs.dropLast else text
  | _ => text

namespace Token

inductive Kind where
  | identifier | integer | decimal | string | punctuation
  /-- Rejected text. -/
  | other
deriving DecidableEq, Repr

/-- The token kind of a lexeme that is no trivia. -/
def Kind.ofLexeme : Option Lexeme.Kind → Kind
  | some .integer => .integer
  | some .decimal => .decimal
  | some .identifier => .identifier
  | some .string => .string
  | some .ellipsis | some .punctuation => .punctuation
  | some .whitespace | some .lineComment | some .blockComment | none => .other

end Token

structure Token where
  kind : Token.Kind
  trivia : String
  text : String
  /-- The offset of the text in bytes; the trivia comes before it. -/
  start : Nat
deriving DecidableEq, Repr

namespace Token

def stop (token : Token) : Nat := token.start + token.text.utf8ByteSize

def span (token : Token) : Text.Span := ⟨token.start, token.stop⟩

/-- Where the trivia starts. -/
def triviaStart (token : Token) : Nat := token.start - token.trivia.utf8ByteSize

/-- The token with its trivia, as it stands in the source. -/
def written (token : Token) : String := token.trivia ++ token.text

/-- The token is the keyword or punctuation `word`. A string literal never is. -/
def is (token : Token) (word : String) : Bool := token.kind != .string && token.text == word

/-- The identifier a token names. -/
def name (token : Token) : String := unescape token.text

/-- The token with nothing before it. -/
def bare (token : Token) : Token := { token with trivia := "" }

end Token

/-- The source text of tokens in a row. -/
def written (tokens : List Token) : String := String.join (tokens.map Token.written)

/-- The tokens of a source and what follows the last of them. -/
structure TokenStream where
  tokens : List Token
  /-- The trivia after the last token. -/
  trailing : String
  /-- The length of the source in bytes. -/
  size : Nat

namespace TokenStream

/-- Collects lexemes that start at `offset`, with the trivia read since the last token. -/
def ofLexemes : Nat → String → List Lexeme → TokenStream
  | offset, trivia, [] => ⟨[], trivia, offset⟩
  | offset, trivia, lexeme :: rest =>
    let next := offset + lexeme.text.utf8ByteSize
    if lexeme.isTrivia then ofLexemes next (trivia ++ lexeme.text) rest
    else
      let stream := ofLexemes next "" rest
      { stream with
        tokens := ⟨Token.Kind.ofLexeme lexeme.kind, trivia, lexeme.text, offset⟩ :: stream.tokens }

def ofSource (source : String) : TokenStream := ofLexemes 0 "" (Lexeme.ofSource source)

/-- The source text from a point where `rest` are the tokens left. -/
def writtenFrom (stream : TokenStream) (rest : List Token) : String :=
  written rest ++ stream.trailing

end TokenStream

end WebIdl
