/-!
# Patterns over characters

Regular patterns, the texts they match, and the decision of matching one character at a time. A
pattern less its first character is again a pattern, so a scanner keeps what is left of each
pattern it is still following and drops those that can no longer match.
-/

namespace WebIdl.Lexeme

inductive Pattern where
  /-- Matches nothing. -/
  | void
  /-- Matches the empty text. -/
  | empty
  /-- Matches one character of a class. -/
  | one (accepts : Char → Bool)
  | seq (first second : Pattern)
  | alt (left right : Pattern)
  /-- Any number of repetitions, none included. -/
  | many (body : Pattern)

namespace Pattern

/-- The texts a pattern matches. -/
inductive Matches : Pattern → List Char → Prop where
  | empty : Matches .empty []
  | one {accepts : Char → Bool} {c : Char} (h : accepts c) : Matches (.one accepts) [c]
  | seq {p q : Pattern} {s t : List Char} (hp : Matches p s) (hq : Matches q t) :
      Matches (.seq p q) (s ++ t)
  | left {p q : Pattern} {s : List Char} (h : Matches p s) : Matches (.alt p q) s
  | right {p q : Pattern} {s : List Char} (h : Matches q s) : Matches (.alt p q) s
  | stop {p : Pattern} : Matches (.many p) []
  | more {p : Pattern} {s t : List Char} (hs : Matches p s) (ht : Matches (.many p) t) :
      Matches (.many p) (s ++ t)

/-! ### Building patterns -/

def char (c : Char) : Pattern := .one (· == c)

def anyOf (cs : List Char) : Pattern := .one (cs.contains ·)

def noneOf (cs : List Char) : Pattern := .one (!cs.contains ·)

/-- One text and no other. -/
def literal : List Char → Pattern
  | [] => .empty
  | c :: cs => .seq (char c) (literal cs)

/-- One repetition or more. -/
def plus (p : Pattern) : Pattern := .seq p (.many p)

def opt (p : Pattern) : Pattern := .alt p .empty

/-- The patterns one after the other. -/
def chain : List Pattern → Pattern
  | [] => .empty
  | [p] => p
  | p :: ps => .seq p (chain ps)

/-- Any one of the patterns. -/
def choice : List Pattern → Pattern
  | [] => .void
  | [p] => p
  | p :: ps => .alt p (choice ps)

/-! ### Matching by characters -/

/-- The pattern matches the empty text. -/
def nullable : Pattern → Bool
  | .void => false
  | .empty => true
  | .one _ => false
  | .seq p q => p.nullable && q.nullable
  | .alt p q => p.nullable || q.nullable
  | .many _ => true

/-- Sequence, without a part that adds nothing. -/
def joined : Pattern → Pattern → Pattern
  | .void, _ => .void
  | .empty, q => q
  | p, q => .seq p q

/-- Alternative, without a part that adds nothing. -/
def either : Pattern → Pattern → Pattern
  | .void, q => q
  | p, .void => p
  | p, q => .alt p q

/-- What is left to match once `c` has been read. -/
def after (c : Char) : Pattern → Pattern
  | .void => .void
  | .empty => .void
  | .one accepts => if accepts c then .empty else .void
  | .seq p q =>
    if p.nullable then either (joined (p.after c) q) (q.after c) else joined (p.after c) q
  | .alt p q => either (p.after c) (q.after c)
  | .many p => joined (p.after c) (.many p)

/-- No text can match, as far as the shape of the pattern shows. -/
def isVoid : Pattern → Bool
  | .void => true
  | .empty => false
  | .one _ => false
  | .seq p q => p.isVoid || q.isVoid
  | .alt p q => p.isVoid && q.isVoid
  | .many _ => false

end Pattern

end WebIdl.Lexeme
