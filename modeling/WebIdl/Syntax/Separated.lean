import WebIdl.Token

/-!
# Separated lists

One or more items with a separator token between each two of them. There is always one separator
fewer than there are items.
-/

namespace WebIdl

inductive Separated (α : Type) where
  | last (item : α)
  | cons (item : α) (separator : Token) (rest : Separated α)

namespace Separated

variable {α β : Type}

def items : Separated α → List α
  | .last a => [a]
  | .cons a _ rest => a :: rest.items

def separators : Separated α → List Token
  | .last _ => []
  | .cons _ separator rest => separator :: rest.separators

/-- The tokens in order, given those of an item. -/
def tokens (ofItem : α → List Token) : Separated α → List Token
  | .last a => ofItem a
  | .cons a separator rest => ofItem a ++ separator :: rest.tokens ofItem

/-- Whatever stands for the items and the separators, in order. -/
def flatMap (ofItem : α → List β) (ofSeparator : Token → List β) : Separated α → List β
  | .last a => ofItem a
  | .cons a separator rest =>
    ofItem a ++ ofSeparator separator ++ rest.flatMap ofItem ofSeparator

@[simp] theorem length_items (xs : Separated α) :
    xs.items.length = xs.separators.length + 1 := by
  induction xs with
  | last => rfl
  | cons a s rest ih => simp [items, separators, ih]

end Separated

end WebIdl
