import WebIdl.Grammar.Cause
import WebIdl.Syntax.Separated

/-!
# Grammar rules

A rule reads from the tokens that are left and gives what it read with the tokens left after it, or
stops at some token for a cause. Nothing is read twice: a rule decides by the next one or two tokens
and never goes back.
-/

namespace WebIdl.Grammar

/-- Where and why a rule stopped. -/
structure Failure where
  cause : Cause
  /-- The tokens left, the unexpected one first. -/
  rest : List Token
  /-- The definition that the error is in, once its name has been read. -/
  since : Option String

abbrev Rule (α : Type) : Type := StateT (List Token) (Except Failure) α

namespace Rule

variable {α : Type}

def fail (cause : Cause) : Rule α := fun rest => .error ⟨cause, rest, none⟩

/-- Reads the next token if `f` makes something of it. -/
def next? (f : Token → Option α) : Rule (Option α) := fun
  | [] => .ok (none, [])
  | token :: rest =>
    match f token with
    | some a => .ok (some a, rest)
    | none => .ok (none, token :: rest)

/-- Reads the next token, of which `f` must make something. -/
def next (f : Token → Option α) (cause : Cause) : Rule α := do
  match ← next? f with
  | some a => return a
  | none => fail cause

/-- Reads the next token if it satisfies `p`. -/
def eatIf (p : Token → Bool) : Rule (Option Token) := next? fun token =>
  if p token then some token else none

/-- Reads the next token if it is the keyword or punctuation `word`. -/
def eat (word : String) : Rule (Option Token) := eatIf (·.is word)

/-- Reads the next token, which must satisfy `p`. -/
def need (p : Token → Bool) (cause : Cause) : Rule Token := next (fun token =>
  if p token then some token else none) cause

def expect (word : String) (cause : Cause) : Rule Token := need (·.is word) cause

def identifier (cause : Cause) : Rule Token := need (·.kind == .identifier) cause

/-- The next token satisfies `p`. -/
def sees (p : Token → Bool) : Rule Bool := fun rest => .ok (rest.head?.any p, rest)

/-- The token after the next one satisfies `p`. -/
def seesSecond (p : Token → Bool) : Rule Bool := fun rest => .ok (rest[1]?.any p, rest)

/-- Reads the next two tokens if the first satisfies `p` and the second `q`. -/
def eatPair (p q : Token → Bool) : Rule (Option (Token × Token)) := fun
  | first :: second :: rest =>
    if p first && q second then .ok (some (first, second), rest)
    else .ok (none, first :: second :: rest)
  | rest => .ok (none, rest)

/-- Reads the next token if it satisfies `p` and the one after it `q`. -/
def eatBefore (p q : Token → Bool) : Rule (Option Token) := fun
  | first :: second :: rest =>
    if p first && q second then .ok (some first, second :: rest)
    else .ok (none, first :: second :: rest)
  | rest => .ok (none, rest)

/-- What a rule reads is in the definition called `phrase`: so its failures say. -/
def within (phrase : String) (rule : Rule α) : Rule α := fun rest =>
  match rule rest with
  | .ok result => .ok result
  | .error failure => .error { failure with since := some phrase }

/-- Items with `word` between them, at most `bound + 1`. -/
def separatedUpTo (item : Rule α) (word : String) : Nat → Rule (Separated α)
  | 0 => do return .last (← item)
  | bound + 1 => do
    let a ← item
    match ← eat word with
    | none => return .last a
    | some separator => return .cons a separator (← separatedUpTo item word bound)

/-- Items with `word` between them. There are no more than there are tokens left. -/
def separated (item : Rule α) (word : String) : Rule (Separated α) := fun rest =>
  separatedUpTo item word rest.length rest

/-- Items up to a token that satisfies `stop` or the end, at most `bound`. -/
def repeatedUpTo (item : Rule α) (stop : Token → Bool) : Nat → Rule (List α)
  | 0 => return []
  | bound + 1 => fun rest =>
    match rest with
    | [] => .ok ([], [])
    | token :: _ =>
      if stop token then .ok ([], rest)
      else (do return (← item) :: (← repeatedUpTo item stop bound) : Rule (List α)) rest

/-- Items up to a token that satisfies `stop` or the end. -/
def repeated (item : Rule α) (stop : Token → Bool) : Rule (List α) := fun rest =>
  repeatedUpTo item stop rest.length rest

end Rule

end WebIdl.Grammar
