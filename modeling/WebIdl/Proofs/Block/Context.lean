import WebIdl.Proofs.Block.Remainder
import WebIdl.Proofs.Grammar.Heading

/-!
# What a syntax error is said to be in

A syntax error comes with a context: the definition that it is in, or else what the block is called.
But a definition that has been read to its end stays the context until the name of another one is
read.

* `Block.context_syntaxError` — the context of an error, by what was read before it.
* `Block.context_parse_iff` — the context is as it should be unless the name of the definition that
  fails has not been read and another definition comes before it.
-/

namespace WebIdl.Block

variable {source : String} {scope : Option String}

theorem context_syntaxError (size : Nat) (last : Option Definition) (failure : Grammar.Failure) :
    (syntaxError source size last scope failure).context =
      (failure.since <|> last.map (·.form.phrase) <|> scope) := rfl

/-- The definition read last hides what the block is called. -/
theorem orElse_last_eq_iff (named : Option String) (last : Option Definition) :
    (named <|> last.map (·.form.phrase) <|> scope) = (named <|> scope) ↔
      named.isSome = true ∨ ∀ d ∈ last, some d.form.phrase = scope := by
  cases named <;> cases last <;> simp

theorem exists_of_stop {stop : Stop} (hstop : (parse source scope).stop = some stop) :
    ∃ left failure, (TokenStream.ofSource source).tokens =
        (parse source scope).definitions.flatMap (·.tokens) ++ left ∧
      Grammar.definition left = .error failure ∧
      stop.error = syntaxError source source.utf8ByteSize (parse source scope).definitions.getLast?
        scope failure := by
  obtain ⟨left, hrun, hends⟩ := completed_read (TokenStream.ofSource source).tokens
  unfold parse at hstop ⊢
  cases hread : read (TokenStream.ofSource source).tokens with
  | mk definitions ended =>
    rw [hread] at hrun hends
    simp only [hread] at hstop ⊢
    obtain ⟨⟨failure, rest⟩, rfl, rfl⟩ := Option.map_eq_some_iff.mp hstop
    obtain ⟨rfl, -, hfail⟩ := hends
    exact ⟨rest, failure, hrun.tokens_eq, hfail, by rw [TokenStream.size_ofSource]⟩

/-- **A syntax error is said to be in the definition that fails, if its name has been read. If not,
it is said to be in the definition read last, and in the block only if there is none: so its context
is that of the definition that fails exactly if the name of this has been read, no definition comes
before it, or the one that does is called as the block is.** -/
theorem context_parse_iff {stop : Stop} (hstop : (parse source scope).stop = some stop) :
    let block := parse source scope
    ∃ left failure named,
      (TokenStream.ofSource source).tokens = block.definitions.flatMap (·.tokens) ++ left ∧
      Grammar.Fails left failure named ∧
      stop.error.range.span = failureSpan failure source.utf8ByteSize ∧
      stop.error.context =
        (named <|> block.definitions.getLast?.map (·.form.phrase) <|> scope) ∧
      (stop.error.context = (named <|> scope) ↔
        named.isSome = true ∨ ∀ d ∈ block.definitions.getLast?, some d.form.phrase = scope) := by
  intro block
  obtain ⟨left, failure, htokens, hfail, herror⟩ := exists_of_stop hstop
  have hcontext : stop.error.context =
      (failure.since <|> block.definitions.getLast?.map (·.form.phrase) <|> scope) := by
    rw [herror, context_syntaxError]
  refine ⟨left, failure, failure.since, htokens, Grammar.fails_of_definition hfail, ?_, hcontext,
    ?_⟩
  · rw [herror]
    rfl
  · rw [hcontext]
    exact orElse_last_eq_iff failure.since _

/-- The name of the second definition has been read. -/
theorem context_parse_iff_secondNamed :
    let source := "interface A \x7b\x7d;\ninterface B \x7b attribute; \x7d;"
    ∃ stop, (parse source none).stop = some stop ∧
      ∃ left failure named,
        (TokenStream.ofSource source).tokens =
          (parse source none).definitions.flatMap (·.tokens) ++ left ∧
        Grammar.Fails left failure named ∧
        stop.error.range.span = failureSpan failure source.utf8ByteSize ∧
        stop.error.context =
          (named <|> (parse source none).definitions.getLast?.map (·.form.phrase) <|> none) ∧
        (stop.error.context = (named <|> none) ↔
          named.isSome = true ∨
            ∀ d ∈ (parse source none).definitions.getLast?, some d.form.phrase = none) := by
  intro source
  have hsome : (parse source none).stop.isSome = true := by decide +kernel
  obtain ⟨stop, hstop⟩ := Option.isSome_iff_exists.mp hsome
  exact ⟨stop, hstop, context_parse_iff hstop⟩

/-- The interface has been read to its end, and still the error after it, before any other name, is
said to be in the interface and not in the block, which is not called anything. -/
theorem context_parse_ne_failing :
    let source := "interface A \x7b\x7d;\n\x7d"
    ∃ stop left failure, (parse source none).stop = some stop ∧
      (TokenStream.ofSource source).tokens =
        (parse source none).definitions.flatMap (·.tokens) ++ left ∧
      Grammar.Fails left failure none ∧ stop.error.context = some "interface A" := by
  intro source
  let left := (TokenStream.ofSource source).tokens.drop 5
  have hcontext : (parse source none).stop.map (·.error.context) = some (some "interface A") := by
    decide +kernel
  obtain ⟨stop, hstop, hcontext⟩ := Option.map_eq_some_iff.mp hcontext
  have htokens : (TokenStream.ofSource source).tokens =
      (parse source none).definitions.flatMap (·.tokens) ++ left := by
    decide +kernel
  have hunread : (Grammar.heading left).isOk = false := by decide +kernel
  cases hheading : Grammar.heading left with
  | error failure => exact ⟨stop, left, failure, hstop, htokens, .unnamed hheading, hcontext⟩
  | ok result =>
    rw [hheading] at hunread
    cases hunread

end WebIdl.Block
