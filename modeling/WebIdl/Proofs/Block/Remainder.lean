import WebIdl.Proofs.Block.Runs
import WebIdl.Proofs.Lexing.Prefix

/-!
# What a syntax error leaves

A syntax error is reported once, at a token that has not been read, and everything from the start
of the failing definition on is left as it is. The definitions before it do not depend on what
follows them: the text in front of the remainder has the same definitions when it is read on its
own, and no error.

* `Block.Interrupted` — what is known of a block that a syntax error has ended.
* `Block.Completed.before`, `Block.Completed.alone` — a run can be made on the tokens of its
  definitions before any others, and alone.
* `Block.failureSpan_spec` — the failure of a definition is at one of the tokens left, or at the
  end.
* `Block.parse_remainder` — a block has neither a remainder nor a diagnostic, or it is interrupted.
-/

namespace WebIdl

/-- Where the tokens of a source are, and its end. -/
def TokenStream.spans (stream : TokenStream) : List Text.Span :=
  stream.tokens.map Token.span ++ [⟨stream.size, stream.size⟩]

namespace Block

/-- A syntax error has ended the reading of `source`: the text `front` has been read, and from there
on the text is left as `remainder`. -/
structure Interrupted (source : String) (block : Block) (front remainder : String) : Prop where
  source_eq : source = front ++ remainder
  remainder_eq : block.remainder = some remainder
  remainder_ne : remainder ≠ ""
  /-- There is one diagnostic, an error at a token of the remainder or at the end. -/
  reported : ∃ diagnostic range, block.diagnostics = [diagnostic] ∧
    diagnostic.severity = .error ∧ diagnostic.code = some "syntax-error" ∧
    diagnostic.range = some range ∧ range.span ∈ (TokenStream.ofSource source).spans ∧
    front.utf8ByteSize ≤ range.span.start ∧ range.span.stop ≤ source.utf8ByteSize
  /-- The front has the same definitions on its own. -/
  reread (scope : Option String) : (parse front scope).definitions = block.definitions ∧
    (parse front scope).remainder = none ∧ (parse front scope).diagnostics = [] ∧
    (parse front scope).trailing = ""

/-! ### Runs that end -/

section Runs

variable {tokens rest : List Token} {definitions : List Definition}

/-- A run does not depend on what it has left. -/
theorem Completed.before (hrun : Completed tokens definitions rest) (rest' : List Token) :
    Completed (definitions.flatMap (·.tokens) ++ rest') definitions rest' := by
  obtain ⟨read, hsplit, hparallel⟩ := hrun.parallel Token.keeps_id
  have hread : definitions.flatMap (·.tokens) = read :=
    List.append_cancel_right (hrun.tokens_eq.symm.trans hsplit)
  obtain ⟨definitions', hrun', hsame⟩ := hparallel rest' rfl
  have hsame : definitions = definitions' := by
    simpa [Definition.mapTokens_id] using hsame
  rw [← hread, ← hsame] at hrun'
  exact hrun'

theorem Completed.alone (hrun : Completed tokens definitions rest) :
    Completed (definitions.flatMap (·.tokens)) definitions [] := by
  simpa using hrun.before []

end Runs

theorem parse_of_completed {source : String} {definitions : List Definition}
    (hrun : Completed (TokenStream.ofSource source).tokens definitions [])
    (scope : Option String) :
    (parse source scope).definitions = definitions ∧ (parse source scope).remainder = none ∧
      (parse source scope).diagnostics = [] := by
  have hread := read_of_completed hrun (show Ends [] none from rfl)
  simp [parse, remainder, diagnostics, hread]

/-! ### Where a definition fails -/

theorem rest_suffix_of_definition {rest : List Token} {failure : Grammar.Failure}
    (hfail : Grammar.definition rest = .error failure) : failure.rest <:+ rest :=
  have hparallel : Grammar.Rule.Parallel id rest.length 0 _ _ _ Grammar.definition _ :=
    Grammar.definition_parallel Token.keeps_id
  hparallel.stops (Nat.le_refl _) hfail

theorem failureSpan_spec {source : String} {front rest : List Token} {failure : Grammar.Failure}
    (hsplit : (TokenStream.ofSource source).tokens = front ++ rest)
    (hsuffix : failure.rest <:+ rest) :
    failureSpan failure source.utf8ByteSize ∈ (TokenStream.ofSource source).spans ∧
      (written front).utf8ByteSize ≤ (failureSpan failure source.utf8ByteSize).start ∧
      (failureSpan failure source.utf8ByteSize).stop ≤ source.utf8ByteSize := by
  unfold failureSpan
  cases hhead : failure.rest.head? with
  | none =>
    have hwritten := congrArg String.utf8ByteSize (TokenStream.written_ofSource source)
    rw [hsplit, written_append] at hwritten
    simp only [String.utf8ByteSize_append] at hwritten
    refine ⟨by simp [TokenStream.spans], ?_, Nat.le_refl _⟩
    show (written front).utf8ByteSize ≤ source.utf8ByteSize
    omega
  | some token =>
    obtain ⟨skipped, hskipped⟩ := hsuffix
    obtain ⟨back, hback⟩ := List.head?_eq_some_iff.mp hhead
    have htokens : (TokenStream.ofSource source).tokens = (front ++ skipped) ++ token :: back := by
      rw [hsplit, ← hskipped, hback, List.append_assoc]
    refine ⟨?_, ?_, TokenStream.stop_le_size htokens⟩
    · simp [TokenStream.spans, htokens]
    · have := TokenStream.start_eq htokens
      rw [written_append, String.utf8ByteSize_append] at this
      show (written front).utf8ByteSize ≤ token.start
      omega

theorem written_ne_of_ne_nil {source : String} {front rest : List Token}
    (hsplit : (TokenStream.ofSource source).tokens = front ++ rest) (hrest : rest ≠ []) :
    (TokenStream.ofSource source).writtenFrom rest ≠ "" := by
  obtain ⟨token, back, rfl⟩ := List.exists_cons_of_ne_nil hrest
  have hmem : token ∈ (TokenStream.ofSource source).tokens := by simp [hsplit]
  have htext := TokenStream.text_ne_of_mem hmem
  simp [TokenStream.writtenFrom, Token.written, htext]

/-! ### Parsed blocks -/

theorem stop_of_read {source : String} {failure : Grammar.Failure} {rest : List Token}
    (h : (read (TokenStream.ofSource source).tokens).2 = some (failure, rest))
    (scope : Option String) :
    ∃ error, (parse source scope).stop =
        some ⟨error, (TokenStream.ofSource source).writtenFrom rest⟩ ∧
      error.range.span = failureSpan failure source.utf8ByteSize := by
  let stream := TokenStream.ofSource source
  refine ⟨syntaxError source stream.size (read stream.tokens).1.getLast? scope failure, ?_, ?_⟩
  · simp [parse, h, stream]
  · simp [syntaxError, Text.LineIndex.range, stream]

/-- Either everything is read and nothing is reported, or one syntax error is reported and the
source is kept from the definition that fails on; what stands before it is not affected. -/
theorem parse_remainder (source : String) (scope : Option String) :
    ((parse source scope).remainder = none ∧ (parse source scope).diagnostics = []) ∨
      ∃ front remainder, Interrupted source (parse source scope) front remainder := by
  obtain ⟨rest, hrun, hends⟩ := completed_read (TokenStream.ofSource source).tokens
  cases hended : (read (TokenStream.ofSource source).tokens).2 with
  | none => exact .inl (by simp [parse, remainder, diagnostics, hended])
  | some ended =>
    obtain ⟨failure, left⟩ := ended
    rw [hended] at hends
    obtain ⟨rfl, hne, hfail⟩ := hends
    have hsplit := hrun.tokens_eq
    obtain ⟨hmem, hstart, hstop⟩ := failureSpan_spec hsplit (rest_suffix_of_definition hfail)
    obtain ⟨error, herror, hspan⟩ := stop_of_read hended scope
    -- the front has the tokens of the definitions, and these can be read without what follows
    obtain ⟨hfront, htrailing⟩ := TokenStream.ofSource_written hsplit
    have halone := hrun.alone
    rw [← hfront] at halone
    refine .inr ⟨written ((parse source scope).definitions.flatMap (·.tokens)), _, ?_,
      by rw [remainder, herror]; rfl, written_ne_of_ne_nil hsplit hne, ?_, ?_⟩
    · change source = written ((read _).1.flatMap _) ++ _
      rw [TokenStream.writtenFrom, ← String.append_assoc, ← written_append, ← hsplit,
        TokenStream.written_ofSource]
    · rw [← hspan] at hmem hstart hstop
      exact ⟨error.diagnostic, error.range, by rw [diagnostics, herror]; rfl, rfl, rfl, rfl, hmem,
        hstart, hstop⟩
    · intro scope'
      obtain ⟨hdefinitions, hremainder, hdiagnostics⟩ := parse_of_completed halone scope'
      exact ⟨hdefinitions, hremainder, hdiagnostics, htrailing⟩

end Block

end WebIdl
