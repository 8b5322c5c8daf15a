import WebIdl.Lexeme.Pattern

/-!
# Lexemes

A text is cut into lexemes from left to right. Each is the longest prefix of what remains that
matches the declared pattern of some kind. Where no pattern matches a prefix, the text is rejected
as far as it could still have become a lexeme, and by one character at least.
-/

namespace WebIdl

namespace Lexeme

inductive Kind where
  | whitespace | lineComment | blockComment | integer | decimal | identifier | string
  | ellipsis | punctuation
deriving DecidableEq, Repr

/-! ### The declared patterns -/

section Patterns

open Pattern

def digit : Pattern := .one Char.isDigit

def hexDigit : Pattern :=
  .one fun c => c.isDigit || ('A' ≤ c && c ≤ 'F') || ('a' ≤ c && c ≤ 'f')

def minus : Pattern := opt (char '-')

def whitespacePattern : Pattern := plus (anyOf ['\t', '\n', '\r', ' '])

/-- Up to the end of the line. -/
def lineCommentPattern : Pattern := .seq (literal ['/', '/']) (.many (noneOf ['\n', '\r']))

/-- Up to the first star that a slash follows. -/
def blockCommentPattern : Pattern :=
  chain [literal ['/', '*'],
    .many (.alt (noneOf ['*']) (.seq (plus (char '*')) (noneOf ['*', '/']))),
    plus (char '*'), char '/']

/-- Decimal without a leading zero, hexadecimal after `0x`, or octal. -/
def integerPattern : Pattern :=
  .seq minus (choice [
    .seq (.one fun c => c.isDigit && c != '0') (.many digit),
    chain [char '0', anyOf ['X', 'x'], plus hexDigit],
    .seq (char '0') (.many (.one fun c => '0' ≤ c && c ≤ '7'))])

def exponentPattern : Pattern := chain [anyOf ['E', 'e'], opt (anyOf ['+', '-']), plus digit]

/-- A point with a digit on one side of it at least, or an exponent, or both. -/
def decimalPattern : Pattern :=
  .seq minus (.alt
    (.seq
      (.alt (chain [plus digit, char '.', .many digit]) (chain [.many digit, char '.', plus digit]))
      (opt exponentPattern))
    (.seq (plus digit) exponentPattern))

/-- A letter with one underscore or hyphen before it at most, and then letters, digits,
underscores and hyphens. -/
def identifierPattern : Pattern :=
  chain [opt (anyOf ['_', '-']), .one Char.isAlpha,
    .many (.one fun c => c.isAlphanum || c == '_' || c == '-')]

def stringPattern : Pattern := chain [char '"', .many (noneOf ['"']), char '"']

def punctuationPattern : Pattern :=
  anyOf ['(', ')', '[', ']', '{', '}', '<', '>', ',', ';', ':', '=', '?', '*', '.', '-']

/-- Every kind with its pattern. No text matches two of them. -/
def declared : List (Kind × Pattern) :=
  [(.whitespace, whitespacePattern), (.lineComment, lineCommentPattern),
    (.blockComment, blockCommentPattern), (.integer, integerPattern),
    (.decimal, decimalPattern), (.identifier, identifierPattern), (.string, stringPattern),
    (.ellipsis, literal ['.', '.', '.']), (.punctuation, punctuationPattern)]

end Patterns

/-! ### The longest match -/

/-- What is left of each pattern once `c` has been read, without those that cannot match. -/
def follow (c : Char) (patterns : List (Kind × Pattern)) : List (Kind × Pattern) :=
  (patterns.map fun (kind, p) => (kind, p.after c)).filter fun (_, p) => !p.isVoid

/-- The kind whose pattern is matched by what has been read so far. -/
def reached (patterns : List (Kind × Pattern)) : Option Kind :=
  (patterns.find? (·.2.nullable)).map (·.1)

/-- The kind and the length of the longest non-empty prefix that matches one of the patterns. -/
def longest : List (Kind × Pattern) → List Char → Option (Kind × Nat)
  | _, [] => none
  | patterns, c :: cs =>
    match follow c patterns with
    | [] => none
    | left =>
      match longest left cs with
      | some (kind, n) => some (kind, n + 1)
      | none => (reached left).map (·, 1)

/-- How far the text can be read before no pattern is left to follow. -/
def viable : List (Kind × Pattern) → List Char → Nat
  | _, [] => 0
  | patterns, c :: cs =>
    match follow c patterns with
    | [] => 0
    | left => viable left cs + 1

end Lexeme

/-- A stretch of text with its kind, or with none where no pattern matches. -/
structure Lexeme where
  kind : Option Lexeme.Kind
  text : String
deriving DecidableEq

namespace Lexeme

/-- White space and comments. -/
def isTrivia (lexeme : Lexeme) : Bool :=
  match lexeme.kind with
  | some .whitespace | some .lineComment | some .blockComment => true
  | _ => false

/-- The kind of the first lexeme of a text and how many characters follow its first one. -/
def munch (cs : List Char) : Option Kind × Nat :=
  match longest declared cs with
  | some (kind, n) => (some kind, n - 1)
  | none => (none, viable declared cs - 1)

/-- The lexemes of a text, in order and without gaps. -/
def tile : List Char → List Lexeme
  | [] => []
  | c :: cs =>
    let (kind, more) := munch (c :: cs)
    ⟨kind, String.ofList (c :: cs.take more)⟩ :: tile (cs.drop more)
termination_by cs => cs.length
decreasing_by simp only [List.length_drop, List.length_cons]; omega

/-- The lexemes of a source. -/
def ofSource (source : String) : List Lexeme := tile source.toList

end Lexeme

end WebIdl
