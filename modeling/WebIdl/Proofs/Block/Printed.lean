import WebIdl.Proofs.Block.Remainder
import WebIdl.Proofs.Grammar.Accept.Definitions
import WebIdl.Proofs.Lexing.Written

/-!
# Definitions that are written are read back

Writing needs no source to start from. A definition that obeys the grammar, whose tokens can be told
from each other, is read back from its own text: the grammar takes from its tokens what it stands
for (`Grammar.definition_accepts`), and the scanner finds these tokens
(`TokenStream.ofSource_of_standsApart`).

* `Block.completed_of_wellFormed` — well-formed definitions can be read off their tokens.
* `Block.parse_of_standsApart` — so can they from a text, up to the places of the tokens.
* `Block.parse_written` — a block of one definition is parsed as that definition.
-/

namespace WebIdl.Block

variable {definitions : List Definition}

theorem completed_of_wellFormed (h : ∀ d ∈ definitions, d.wellFormed) :
    Completed (definitions.flatMap (·.tokens)) definitions [] := by
  induction definitions with
  | nil => exact .done
  | cons d definitions ih =>
    rw [List.flatMap_cons]
    exact .step (Grammar.definition_accepts (h d List.mem_cons_self))
      (ih fun d hd => h d (List.mem_cons_of_mem _ hd))

/-- The tokens of the text have places of their own; nothing else is new about what is read. -/
theorem parse_of_standsApart (hwf : ∀ d ∈ definitions, d.wellFormed)
    (hapart : ∀ token ∈ definitions.flatMap (·.tokens), token.standsApart)
    (scope : Option String) :
    let block := parse (written (definitions.flatMap (·.tokens))) scope
    block.definitions.map (·.mapTokens Token.unplaced) =
        definitions.map (·.mapTokens Token.unplaced) ∧
      block.remainder = none ∧ block.diagnostics = [] ∧ block.trailing = "" := by
  obtain ⟨htokens, htrailing⟩ := TokenStream.ofSource_of_standsApart hapart
  obtain ⟨read, hread, hparallel⟩ := (completed_of_wellFormed hwf).parallel Token.keeps_unplaced
  rw [List.append_nil] at hread
  rw [← hread] at hparallel
  obtain ⟨definitions', hrun, hsame⟩ := hparallel [] htokens.symm
  rw [List.append_nil] at hrun
  obtain ⟨hdefinitions, hremainder, hdiagnostics⟩ := parse_of_completed hrun scope
  refine ⟨?_, hremainder, hdiagnostics, htrailing⟩
  rw [hdefinitions, hsame]

/-- A definition that obeys the grammar, each of whose tokens is one lexeme with white space or
complete comments before it, is what its text is parsed as. -/
theorem parse_written (d : Definition) (hwf : d.wellFormed)
    (hapart : ∀ token ∈ d.tokens, token.standsApart) (scope : Option String) :
    let block := parse (written d.tokens) scope
    block.definitions.map (·.mapTokens Token.unplaced) = [d.mapTokens Token.unplaced] ∧
      block.remainder = none ∧ block.diagnostics = [] ∧ block.trailing = "" := by
  have hsingle : [d].flatMap (·.tokens) = d.tokens := List.flatMap_singleton ..
  rw [← hsingle] at hapart ⊢
  exact parse_of_standsApart (by simpa using hwf) hapart scope

/-- An anonymous getter of a type of two words, between comments of both kinds. -/
theorem parse_written_getter :
    let word (trivia text : String) : Token := ⟨.identifier, trivia, text, 0⟩
    let mark (text : String) : Token := ⟨.punctuation, " ", text, 0⟩
    let type : IdlType := .mk none (.named (word "\n" "long") [word "\t" "long"]) (some (mark "?"))
    let getter : Member.Form :=
      .operation [word "// c\n" "getter"] type none (.mk (mark "(") none (mark ")")) (mark ";")
    let d : Definition := ⟨none, .container (.interface none (word "/* c */" "interface"))
      (word " " "I") none ⟨mark "\x7b", [⟨none, "I", getter⟩], mark "\x7d", mark ";"⟩⟩
    let block := parse (written d.tokens) none
    d.wellFormed ∧ (∀ token ∈ d.tokens, token.standsApart) ∧
      block.definitions.map (·.mapTokens Token.unplaced) = [d.mapTokens Token.unplaced] ∧
      block.remainder = none ∧ block.diagnostics = [] ∧ block.trailing = "" :=
  ⟨by decide +kernel, by decide +kernel,
    parse_written _ (by decide +kernel) (by decide +kernel) none⟩

end WebIdl.Block
