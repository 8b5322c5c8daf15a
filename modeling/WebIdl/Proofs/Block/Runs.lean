import WebIdl.Proofs.Block.RoundTrip
import WebIdl.Proofs.Grammar.Parallel.Statements

/-!
# Blocks whose tokens look the same

* `Block.read_of_completed` — reading is the only run of the definition loop that ends as it has to.
* `Block.Completed.parallel` — a run can be made on all tokens that look the same as those it read,
  whatever follows them.
* `Block.parse_same_tokens` — white space and comments between tokens do not change what a block
  says, nor whether and where a syntax error ends it.
-/

namespace WebIdl.Block

variable {f : Token → Token} {tokens rest : List Token} {definitions : List Definition}

/-! ### The loop has one run -/

theorem length_lt_of_definition {between : List Token} {d : Definition}
    (h : Grammar.definition tokens = .ok (d, between)) : between.length < tokens.length := by
  obtain ⟨read, rfl, rfl, -⟩ := Grammar.definition_reads h
  have hpos := List.length_pos_iff.mpr d.tokens_ne_nil
  rw [List.length_append]
  omega

theorem readUpTo_of_completed {ended : Option (Grammar.Failure × List Token)}
    (hrun : Completed tokens definitions rest) (hends : Ends rest ended) {bound : Nat}
    (hbound : tokens.length ≤ bound) : readUpTo bound tokens = (definitions, ended) := by
  induction hrun generalizing bound with
  | @done tokens =>
    rcases ended with _ | ⟨failure, left⟩
    · obtain rfl : tokens = [] := hends
      cases bound <;> rfl
    · obtain ⟨rfl, hne, hfailure⟩ := hends
      obtain ⟨token, left, rfl⟩ := List.exists_cons_of_ne_nil hne
      cases bound with
      | zero => simp at hbound
      | succ bound => simp [readUpTo, hfailure]
  | @step tokens between rest d definitions hd _ ih =>
    have hshorter := length_lt_of_definition hd
    cases bound with
    | zero => omega
    | succ bound =>
      obtain ⟨token, tokens, rfl⟩ := List.exists_cons_of_length_pos (Nat.zero_lt_of_lt hshorter)
      simp [readUpTo, hd, ih hends (by omega : between.length ≤ bound)]

theorem read_of_completed {ended : Option (Grammar.Failure × List Token)}
    (hrun : Completed tokens definitions rest) (hends : Ends rest ended) :
    read tokens = (definitions, ended) :=
  readUpTo_of_completed hrun hends (Nat.le_refl _)

/-! ### Runs on tokens that look the same -/

theorem Completed.parallel (hf : Token.Keeps f) (hrun : Completed tokens definitions rest) :
    ∃ read, tokens = read ++ rest ∧
      ∀ ⦃read' : List Token⦄ (rest' : List Token), read.map f = read'.map f →
        ∃ definitions', Completed (read' ++ rest') definitions' rest' ∧
          definitions.map (·.mapTokens f) = definitions'.map (·.mapTokens f) := by
  induction hrun with
  | @done tokens =>
    refine ⟨[], rfl, fun read' rest' hread => ⟨[], ?_, rfl⟩⟩
    obtain rfl : read' = [] := by simpa using hread.symm
    exact .done
  | step hd _ ih =>
    obtain ⟨more, rfl, hmore⟩ := ih
    obtain ⟨read, rfl, -, hsame⟩ :=
      Grammar.Rule.Parallel.reads_all (fun _ _ => Grammar.definition_parallel hf) hd
    refine ⟨read ++ more, (List.append_assoc ..).symm, fun all rest' hall => ?_⟩
    obtain ⟨read', more', rfl, hread, hmore'⟩ := List.map_eq_append_iff.mp
      (hall.symm.trans List.map_append)
    obtain ⟨d', hd', heq⟩ := hsame (more' ++ rest') hread.symm rfl
    obtain ⟨definitions', hrun', heqs⟩ := hmore rest' hmore'.symm
    refine ⟨d' :: definitions', ?_, by simp [heq, heqs]⟩
    rw [List.append_assoc]
    exact .step hd' hrun'

/-- Where one run ends, so does the other. -/
theorem definition_fails_parallel (hf : Token.Keeps f) {rest' : List Token}
    (hrest : rest.map f = rest'.map f) {failure : Grammar.Failure}
    (hfail : Grammar.definition rest = .error failure) :
    ∃ failure', Grammar.definition rest' = .error failure' := by
  cases hd : Grammar.definition rest' with
  | error failure' => exact ⟨failure', rfl⟩
  | ok result =>
    obtain ⟨d, between⟩ := result
    obtain ⟨read, rfl, -, hsame⟩ :=
      Grammar.Rule.Parallel.reads_all (fun _ _ => Grammar.definition_parallel hf) hd
    obtain ⟨read', between', rfl, hread, -⟩ := List.map_eq_append_iff.mp
      (hrest.trans List.map_append)
    obtain ⟨d', hd', -⟩ := hsame between' hread.symm rfl
    rw [hd'] at hfail
    cases hfail

theorem read_parallel (hf : Token.Keeps f) {tokens' : List Token}
    (hsame : tokens.map f = tokens'.map f) :
    (read tokens).1.map (·.mapTokens f) = (read tokens').1.map (·.mapTokens f) ∧
      (read tokens).2.isSome = (read tokens').2.isSome := by
  obtain ⟨rest, hrun, hends⟩ := completed_read tokens
  obtain ⟨read, hsplit, hparallel⟩ := hrun.parallel hf
  rw [hsplit, List.map_append] at hsame
  obtain ⟨read', rest', rfl, hread, hrest⟩ := List.map_eq_append_iff.mp hsame.symm
  obtain ⟨definitions', hrun', hdefinitions⟩ := hparallel rest' hread.symm
  cases hended : (Block.read tokens).2 with
  | none =>
    rw [hended] at hends
    obtain rfl : rest = [] := hends
    obtain rfl : rest' = [] := by simpa using hrest
    rw [read_of_completed hrun' (show Ends [] none from rfl)]
    exact ⟨hdefinitions, rfl⟩
  | some ended =>
    obtain ⟨failure, left⟩ := ended
    rw [hended] at hends
    obtain ⟨rfl, hne, hfail⟩ := hends
    obtain ⟨failure', hfail'⟩ := definition_fails_parallel hf hrest.symm hfail
    have hne' : rest' ≠ [] := by
      rintro rfl
      exact hne (by simpa using hrest.symm)
    have hends' : Ends rest' (some (failure', rest')) := ⟨rfl, hne', hfail'⟩
    rw [read_of_completed hrun' hends']
    exact ⟨hdefinitions, rfl⟩

/-! ### Parsed blocks -/

/-- Two sources with the same kinds and texts of tokens, whatever white space and comments stand
between them, have the same definitions up to that and to the places of the tokens, and a syntax
error ends the reading of both after the same number of definitions, or of neither. -/
theorem parse_same_tokens (source source' : String) (scope scope' : Option String)
    (h : (TokenStream.ofSource source).tokens.map (fun token => (token.kind, token.text)) =
      (TokenStream.ofSource source').tokens.map fun token => (token.kind, token.text)) :
    (parse source scope).definitions.map (·.mapTokens Token.core) =
        (parse source' scope').definitions.map (·.mapTokens Token.core) ∧
      (parse source scope).hasErrors = (parse source' scope').hasErrors ∧
      (parse source scope).definitions.length = (parse source' scope').definitions.length := by
  have hsame : (TokenStream.ofSource source).tokens.map Token.core =
      (TokenStream.ofSource source').tokens.map Token.core := by
    have := congrArg (List.map fun (kind, text) => (⟨kind, "", text, 0⟩ : Token)) h
    rw [List.map_map, List.map_map] at this
    exact this
  obtain ⟨hdefinitions, hended⟩ := read_parallel Token.keeps_core hsame
  refine ⟨hdefinitions, ?_, ?_⟩
  · simpa [hasErrors, parse] using hended
  · have := congrArg List.length hdefinitions
    rwa [List.length_map, List.length_map] at this

/-- A comment within a definition, and another one before the error that follows it. -/
theorem parse_same_tokens_comments :
    let plain := "enum E \x7b \"a\" \x7d; enum"
    let commented := "enum/**/E\x7b\"a\"\x7d;// x\nenum\n"
    (parse plain none).definitions.map (·.mapTokens Token.core) =
        (parse commented (some "b")).definitions.map (·.mapTokens Token.core) ∧
      (parse plain none).hasErrors = (parse commented (some "b")).hasErrors ∧
      (parse plain none).definitions.length = (parse commented (some "b")).definitions.length :=
  parse_same_tokens _ _ _ _ (by decide +kernel)

end WebIdl.Block
