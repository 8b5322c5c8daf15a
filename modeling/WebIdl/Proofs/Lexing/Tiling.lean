import WebIdl.Proofs.Lexing.Longest
import WebIdl.Proofs.Text.Slice

/-!
# Tilings

The lexemes of a source with their places cover it from its start to its end, without gaps, and each
is the longest match at its place. The tokens are those lexemes that are no trivia, at the same
places, each with the trivia since the one before it.

* `Lexeme.placed` — lexemes in a row with the stretches that they cover.
* `Lexeme.Tiling` — what a row of lexemes is of the source that it is cut from.
* `TokenStream.Gathers` — what a token stream is of the row of lexemes that it is gathered from.
-/

namespace WebIdl

/-- Spans in a row, each of which starts where the one before it stops. -/
def Text.Contiguous : Nat → List Text.Span → Nat → Prop
  | start, [], stop => start = stop
  | start, span :: rest, stop => span.start = start ∧ Contiguous span.stop rest stop

namespace Lexeme

/-- Lexemes in a row from an offset, each with the stretch that it covers. -/
def placed : Nat → List Lexeme → List (Lexeme × Text.Span)
  | _, [] => []
  | offset, lexeme :: rest =>
    let stop := offset + lexeme.text.utf8ByteSize
    (lexeme, ⟨offset, stop⟩) :: placed stop rest

/-- The text of lexemes with their places, one after the other. -/
def textOf (row : List (Lexeme × Text.Span)) : String := String.join (row.map (·.1.text))

variable {offset : Nat} {lexemes : List Lexeme} {entry : Lexeme × Text.Span}

theorem contiguous_placed (offset : Nat) (lexemes : List Lexeme) :
    Text.Contiguous offset ((placed offset lexemes).map (·.2))
      (offset + (String.join (lexemes.map Lexeme.text)).utf8ByteSize) := by
  induction lexemes generalizing offset with
  | nil => simp [placed, Text.Contiguous]
  | cons lexeme rest ih =>
    refine ⟨rfl, ?_⟩
    have hrest := ih (offset + lexeme.text.utf8ByteSize)
    rwa [Nat.add_assoc, ← String.utf8ByteSize_append, ← String.join_cons] at hrest

/-- A lexeme in its place starts where the text of those before it ends. -/
theorem exists_of_mem_placed (h : entry ∈ placed offset lexemes) :
    ∃ front back, lexemes = front ++ entry.1 :: back ∧
      entry.2.start = offset + (String.join (front.map Lexeme.text)).utf8ByteSize ∧
      entry.2.stop = entry.2.start + entry.1.text.utf8ByteSize := by
  induction lexemes generalizing offset with
  | nil => cases h
  | cons lexeme rest ih =>
    rcases List.mem_cons.mp h with rfl | h
    · exact ⟨[], rest, rfl, rfl, rfl⟩
    · obtain ⟨front, back, rfl, hstart, hstop⟩ := ih h
      refine ⟨lexeme :: front, back, rfl, ?_, hstop⟩
      rw [hstart, List.map_cons, String.join_cons, String.utf8ByteSize_append, Nat.add_assoc]

/-! ### Cutting a source -/

/-- What a row of lexemes is of the source that it is cut from. -/
structure Tiling (source : String) (row : List (Lexeme × Text.Span)) : Prop where
  /-- The lexemes follow each other from the start of the source to its end. -/
  covers : Text.Contiguous 0 (row.map (·.2)) source.utf8ByteSize
  /-- None is empty. -/
  start_lt_stop : ∀ entry ∈ row, entry.2.start < entry.2.stop
  /-- Each has the text that stands at its place, between two characters of the source. -/
  slice : ∀ entry ∈ row, Text.slice? source entry.2 = some entry.1.text
  /-- Each is the longest match of what remains from its start, or stands where there is none. -/
  begins : ∀ entry ∈ row, ∃ rest,
    Text.slice? source ⟨entry.2.start, source.utf8ByteSize⟩ = some rest ∧
      entry.1.Begins rest.toList
  /-- A block comment ends where it is first closed. -/
  closes : ∀ entry ∈ row, entry.1.kind = some .blockComment → ∃ rest,
    Text.slice? source ⟨entry.2.start, source.utf8ByteSize⟩ = some rest ∧
      Closes entry.1.text rest.toList

/-- A lexeme of a source, with what stands before it and what stands after it. -/
theorem exists_of_mem_placed_ofSource {source : String} (h : entry ∈ placed 0 (ofSource source)) :
    ∃ before after, source = before ++ entry.1.text ++ after ∧
      entry.2 = ⟨before.utf8ByteSize, (before ++ entry.1.text).utf8ByteSize⟩ ∧
      entry.1.Begins (entry.1.text ++ after).toList := by
  obtain ⟨front, back, hlexemes, hstart, hstop⟩ := exists_of_mem_placed h
  have hsource := join_text_ofSource source
  rw [hlexemes, List.map_append, List.map_cons, String.join_append, String.join_cons,
    ← String.append_assoc] at hsource
  have hbegins := begins_of_tile hlexemes
  rw [List.flatMap_cons, ← List.flatMap_map (f := Lexeme.text), ← String.toList_join,
    ← String.toList_append] at hbegins
  refine ⟨_, _, hsource.symm, ?_, hbegins⟩
  rw [Nat.zero_add] at hstart
  rw [String.utf8ByteSize_append, ← hstart, ← hstop]

theorem tiling_ofSource (source : String) : Tiling source (placed 0 (ofSource source)) where
  covers := by
    have hcovers := contiguous_placed 0 (ofSource source)
    rwa [join_text_ofSource, Nat.zero_add] at hcovers
  start_lt_stop := by
    intro entry hentry
    obtain ⟨front, back, hlexemes, -, hstop⟩ := exists_of_mem_placed hentry
    have hmem : entry.1 ∈ ofSource source := by
      rw [hlexemes]
      exact List.mem_append_right front List.mem_cons_self
    have hsize : entry.1.text.utf8ByteSize ≠ 0 :=
      mt String.utf8ByteSize_eq_zero_iff.mp (text_ne_of_mem_tile hmem)
    omega
  slice := by
    intro entry hentry
    obtain ⟨before, after, hsource, hspan, -⟩ := exists_of_mem_placed_ofSource hentry
    rw [hspan, hsource]
    exact Text.slice?_append before entry.1.text after
  begins := by
    intro entry hentry
    obtain ⟨before, after, hsource, hspan, hbegins⟩ := exists_of_mem_placed_ofSource hentry
    refine ⟨entry.1.text ++ after, ?_, hbegins⟩
    rw [hspan, hsource, String.append_assoc]
    exact Text.slice?_append_right before _
  closes := by
    intro entry hentry hkind
    obtain ⟨before, after, hsource, hspan, hbegins⟩ := exists_of_mem_placed_ofSource hentry
    refine ⟨entry.1.text ++ after, ?_, ?_⟩
    · rw [hspan, hsource, String.append_assoc]
      exact Text.slice?_append_right before _
    · have hmatches := hbegins.2
      rw [hkind] at hmatches
      obtain ⟨⟨p, hp, hmatches⟩, -⟩ := hmatches
      obtain rfl : p = blockCommentPattern := by simpa [declared] using hp
      rw [String.toList_append]
      exact closes_of_matches hmatches

end Lexeme

/-! ### Gathering tokens -/

namespace TokenStream

/-- A lexeme that becomes a token, with the trivia since the last one that does. -/
structure Run where
  before : List (Lexeme × Text.Span)
  entry : Lexeme × Text.Span

/-- All lexemes of a run. -/
def Run.entries (run : Run) : List (Lexeme × Text.Span) := run.before ++ [run.entry]

/-- The token has the kind, the text and the place of the lexeme of a run, and its trivia is the text
of the trivia there. -/
structure Run.Gives (run : Run) (token : Token) : Prop where
  kind : token.kind = Token.Kind.ofLexeme run.entry.1.kind
  trivia : token.trivia = Lexeme.textOf run.before
  text : token.text = run.entry.1.text
  span : token.span = run.entry.2

/-- What a token stream is of the row of lexemes that it is gathered from: the row is one run for
each token, and then the trivia that trails the last. -/
def Gathers (row : List (Lexeme × Text.Span)) (stream : TokenStream) : Prop :=
  ∃ (runs : List Run) (tail : List (Lexeme × Text.Span)),
    row = runs.flatMap Run.entries ++ tail ∧
      (∀ run ∈ runs, run.before.all (·.1.isTrivia) ∧ run.entry.1.isTrivia = false) ∧
      tail.all (·.1.isTrivia) ∧ List.Forall₂ Run.Gives runs stream.tokens ∧
      stream.trailing = Lexeme.textOf tail

theorem gathers_ofLexemes {before : List (Lexeme × Text.Span)}
    (hbefore : before.all (·.1.isTrivia)) (offset : Nat) (lexemes : List Lexeme) :
    Gathers (before ++ Lexeme.placed offset lexemes)
      (ofLexemes offset (Lexeme.textOf before) lexemes) := by
  induction lexemes generalizing offset before with
  | nil => exact ⟨[], before, by simp [Lexeme.placed], by simp, hbefore, .nil, rfl⟩
  | cons lexeme rest ih =>
    rw [Lexeme.placed]
    generalize hstop : offset + lexeme.text.utf8ByteSize = stop
    cases hlexeme : lexeme.isTrivia with
    | true =>
      -- one more lexeme is held back
      have hmore : (before ++ [(lexeme, Text.Span.mk offset stop)]).all (·.1.isTrivia) := by
        simp [hbefore, hlexeme]
      have htext : Lexeme.textOf (before ++ [(lexeme, ⟨offset, stop⟩)]) =
          Lexeme.textOf before ++ lexeme.text := by
        simp [Lexeme.textOf]
      have hgathers := ih hmore stop
      rw [ofLexemes_cons_trivia hlexeme, hstop, ← htext]
      rwa [List.append_assoc] at hgathers
    | false =>
      have hnone : ([] : List (Lexeme × Text.Span)).all (·.1.isTrivia) := rfl
      obtain ⟨runs, tail, hrow, hruns, htail, hgives, htrailing⟩ := ih hnone stop
      rw [ofLexemes_cons_token (by simp [hlexeme]), hstop]
      refine ⟨⟨before, (lexeme, ⟨offset, stop⟩)⟩ :: runs, tail, ?_, ?_, htail, ?_, htrailing⟩
      · rw [List.nil_append] at hrow
        simp [Run.entries, hrow]
      · intro run hrun
        rcases List.mem_cons.mp hrun with rfl | hrun
        · exact ⟨hbefore, hlexeme⟩
        · exact hruns run hrun
      · refine .cons ⟨rfl, rfl, rfl, ?_⟩ hgives
        rw [Token.span, Token.stop, hstop]

/-- **Lexing cuts a source into longest matches that cover it, and the tokens are those of them that
are no trivia, each with the trivia before it.** -/
theorem lexemes_tile_source (source : String) :
    let row := Lexeme.placed 0 (Lexeme.ofSource source)
    Lexeme.Tiling source row ∧ Gathers row (ofSource source) ∧
      (ofSource source).size = source.utf8ByteSize := by
  intro row
  have hnone : ([] : List (Lexeme × Text.Span)).all (·.1.isTrivia) := rfl
  have hgathers := gathers_ofLexemes hnone 0 (Lexeme.ofSource source)
  exact ⟨Lexeme.tiling_ofSource source, hgathers, size_ofSource source⟩

end TokenStream

end WebIdl
