/-!
# Blank text

White space in the sense of Unicode's White_Space property, the trimming of text by it, and the
splitting of a text into lines. Trimming and splitting work on lists of characters, so that what
they keep and what they drop can be said with list operations alone.
-/

namespace WebIdl.Text

/-- A character with the White_Space property. -/
def isBlank (c : Char) : Bool :=
  let n := c.toNat
  (0x09 ≤ n && n ≤ 0x0D) || n == 0x20 || n == 0x85 || n == 0xA0 || n == 0x1680
    || (0x2000 ≤ n && n ≤ 0x200A) || n == 0x2028 || n == 0x2029 || n == 0x202F
    || n == 0x205F || n == 0x3000

/-! ### Trimming -/

def trimStart (cs : List Char) : List Char := cs.dropWhile isBlank

def trimEnd (cs : List Char) : List Char := (cs.reverse.dropWhile isBlank).reverse

/-- Drops the blanks at both ends. -/
def trim (cs : List Char) : List Char := trimEnd (trimStart cs)

theorem isBlank_getLast?_trimEnd {cs : List Char} {c : Char}
    (h : (trimEnd cs).getLast? = some c) : isBlank c = false := by
  rw [trimEnd, List.getLast?_reverse] at h
  have hhead := List.head?_dropWhile_not isBlank cs.reverse
  rw [h] at hhead
  exact hhead

/-- Trimming the end leaves a text that ends in no blank as it is. -/
theorem trimEnd_eq_self_iff {cs : List Char} :
    trimEnd cs = cs ↔ ∀ c, cs.getLast? = some c → isBlank c = false := by
  constructor
  · intro h c hc
    rw [← h] at hc
    exact isBlank_getLast?_trimEnd hc
  · intro h
    cases hreverse : cs.reverse with
    | nil => rw [List.reverse_eq_nil_iff.mp hreverse]; rfl
    | cons c rest =>
      have hc : isBlank c = false := h c (by rw [List.getLast?_eq_head?_reverse, hreverse]; rfl)
      rw [trimEnd, hreverse, List.dropWhile_cons_of_neg (by simp [hc]), ← hreverse,
        List.reverse_reverse]

theorem isPrefix_trimEnd (cs : List Char) : trimEnd cs <+: cs := by
  have hsuffix := (List.dropWhile_suffix isBlank (l := cs.reverse)).reverse
  rwa [List.reverse_reverse] at hsuffix

theorem trimStart_eq_self {cs : List Char} (h : ∀ c, cs.head? = some c → isBlank c = false) :
    trimStart cs = cs := by
  cases cs with
  | nil => rfl
  | cons c cs => exact List.dropWhile_cons_of_neg (by simp [h c rfl])

/-- Trimmed text has no blanks at its ends. -/
theorem trim_trim (cs : List Char) : trim (trim cs) = trim cs := by
  have hstart : trimStart (trim cs) = trim cs := by
    apply trimStart_eq_self
    intro c hc
    obtain ⟨rest, hrest⟩ := isPrefix_trimEnd (trimStart cs)
    have hhead := List.head?_dropWhile_not isBlank cs
    rw [← trimStart, ← hrest, List.head?_append, ← trim, hc] at hhead
    simpa using hhead
  have hend : trimEnd (trim cs) = trim cs :=
    trimEnd_eq_self_iff.mpr fun c hc => isBlank_getLast?_trimEnd hc
  rw [trim, hstart, hend]

/-- A text of blanks only, the empty text included. -/
def allBlank (cs : List Char) : Bool := cs.all isBlank

/-! ### Lines -/

/-- The pieces between line feeds: one more than there are line feeds. -/
def splitLines : List Char → List (List Char)
  | [] => [[]]
  | c :: cs =>
    if c = '\n' then [] :: splitLines cs
    else match splitLines cs with
      | [] => [[c]]
      | line :: rest => (c :: line) :: rest

/-- Drops one carriage return from the end. -/
def dropReturn (line : List Char) : List Char :=
  if line.getLast? = some '\r' then line.dropLast else line

/-- A list of pieces read as lines: all but the last end in a line feed and lose the carriage
return before it, and an empty last piece is no line. -/
def closeLines : List (List Char) → List (List Char)
  | [] => []
  | [last] => if last.isEmpty then [] else [last]
  | line :: rest => dropReturn line :: closeLines rest

/-- The lines of a text without their ends. A carriage return belongs to the end of a line only
before a line feed, and a line feed at the very end opens no further line. -/
def lines (cs : List Char) : List (List Char) := closeLines (splitLines cs)

end WebIdl.Text
