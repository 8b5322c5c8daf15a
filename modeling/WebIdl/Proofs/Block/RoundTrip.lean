import WebIdl.Block
import WebIdl.Proofs.Grammar.Statements
import WebIdl.Proofs.Syntax.Tokens

/-!
# Blocks are written back as they were read

* `Block.Completed` — a run of the definition loop: the definitions that were read one after the
  other, and the tokens left after them.
* `Block.Completed.tokens_eq` — over a whole run no token is lost, repeated or moved.
* `Block.completed_read` — reading is such a run, up to the end or to a definition that fails.
* `Block.source_parse` — a block that is written back is the source it was read from, with or
  without a syntax error.
-/

namespace WebIdl.Block

/-! ### Runs of the definition loop -/

/-- The definitions can be read off the front of `tokens` one after the other, which leaves
`rest`. -/
inductive Completed : List Token → List Definition → List Token → Prop where
  | done {tokens : List Token} : Completed tokens [] tokens
  | step {tokens between rest : List Token} {d : Definition} {definitions : List Definition} :
      Grammar.definition tokens = .ok (d, between) → Completed between definitions rest →
      Completed tokens (d :: definitions) rest

namespace Completed

variable {tokens rest : List Token} {definitions : List Definition}

theorem tokens_eq (h : Completed tokens definitions rest) :
    tokens = definitions.flatMap (·.tokens) ++ rest := by
  induction h with
  | done => rfl
  | step hd _ ih =>
    obtain ⟨read, rfl, rfl, -⟩ := Grammar.definition_reads hd
    rw [List.flatMap_cons, List.append_assoc, ← ih]

/-- Members stand in definitions that they fit. -/
theorem membersFit (h : Completed tokens definitions rest) :
    ∀ d ∈ definitions, ∀ member ∈ d.members, member.Fits d.kind d.name := by
  induction h with
  | done => simp
  | step hd _ ih =>
    obtain ⟨-, -, -, -, hfits⟩ := Grammar.definition_reads hd
    rintro d (_ | ⟨_, hmem⟩)
    · exact hfits
    · exact ih d hmem

end Completed

/-- Why a run of the definition loop ends: nothing is left, or no definition can be read off what
is left. -/
def Ends (rest : List Token) : Option (Grammar.Failure × List Token) → Prop
  | none => rest = []
  | some (failure, left) => left = rest ∧ rest ≠ [] ∧ Grammar.definition rest = .error failure

/-- The bound on the loop is never what ends it, since every definition takes a token. -/
theorem completed_readUpTo {bound : Nat} {tokens : List Token} (hbound : tokens.length ≤ bound) :
    ∃ rest, Completed tokens (readUpTo bound tokens).1 rest ∧
      Ends rest (readUpTo bound tokens).2 := by
  induction bound generalizing tokens with
  | zero =>
    obtain rfl : tokens = [] := List.length_eq_zero_iff.mp (Nat.le_zero.mp hbound)
    exact ⟨[], .done, rfl⟩
  | succ bound ih =>
    cases tokens with
    | nil => exact ⟨[], .done, rfl⟩
    | cons token tokens =>
      unfold readUpTo
      split
      · rename_i d between hd
        have hshorter : between.length ≤ bound := by
          obtain ⟨read, hread, rfl, -⟩ := Grammar.definition_reads hd
          have hpos := List.length_pos_iff.mpr d.tokens_ne_nil
          have hlength := congrArg List.length hread
          simp only [List.length_cons, List.length_append] at hlength hbound
          omega
        obtain ⟨rest, hrun, hends⟩ := ih hshorter
        exact ⟨rest, .step hd hrun, hends⟩
      · rename_i failure hd
        exact ⟨token :: tokens, .done, rfl, nofun, hd⟩

theorem completed_read (tokens : List Token) :
    ∃ rest, Completed tokens (read tokens).1 rest ∧ Ends rest (read tokens).2 :=
  completed_readUpTo (Nat.le_refl _)

/-! ### Parsed blocks -/

/-- How the reading of a block that `rest` is left of has ended: nothing is left, or no definition
can be read off what is left, and the block keeps its text. -/
def Stopped (stream : TokenStream) (rest : List Token) : Option Stop → Prop
  | none => rest = []
  | some stop => rest ≠ [] ∧ (∃ failure, Grammar.definition rest = .error failure) ∧
      stop.remainder = stream.writtenFrom rest

/-- The definitions of a block are a run over the tokens of its source, and the block keeps what
the run has left. -/
theorem completed_parse (source : String) (scope : Option String) :
    ∃ rest, Completed (TokenStream.ofSource source).tokens (parse source scope).definitions rest ∧
      Stopped (.ofSource source) rest (parse source scope).stop := by
  obtain ⟨rest, hrun, hends⟩ := completed_read (TokenStream.ofSource source).tokens
  refine ⟨rest, hrun, ?_⟩
  unfold parse
  cases hread : (read (TokenStream.ofSource source).tokens).2 with
  | none =>
    rw [hread] at hends
    simpa [Stopped, Ends, hread] using hends
  | some ended =>
    obtain ⟨failure, left⟩ := ended
    rw [hread] at hends
    obtain ⟨rfl, hne, hfailure⟩ := hends
    simpa [Stopped, hread] using ⟨hne, failure, hfailure⟩

/-- Members stand in definitions that they fit. -/
theorem membersFit_parse {source : String} {scope : Option String} {d : Definition}
    (hd : d ∈ (parse source scope).definitions) :
    ∀ member ∈ d.members, member.Fits d.kind d.name := by
  obtain ⟨rest, hrun, -⟩ := completed_parse source scope
  exact hrun.membersFit d hd

/-- The tokens of a block are tokens of its source. -/
theorem mem_tokens_of_mem_parse {source : String} {scope : Option String} {d : Definition}
    (hd : d ∈ (parse source scope).definitions) {token : Token} (htoken : token ∈ d.tokens) :
    token ∈ (TokenStream.ofSource source).tokens := by
  obtain ⟨rest, hrun, -⟩ := completed_parse source scope
  rw [hrun.tokens_eq]
  exact List.mem_append_left _ (List.mem_flatMap.mpr ⟨d, hd, htoken⟩)

/-- What follows the definitions of a block is what a run has left, with what trails the last
token. -/
theorem remainder_getD_of_stopped {source : String} {scope : Option String} {rest : List Token}
    (h : Stopped (.ofSource source) rest (parse source scope).stop) :
    (parse source scope).remainder.getD (parse source scope).trailing =
      (TokenStream.ofSource source).writtenFrom rest := by
  unfold remainder
  cases hstop : (parse source scope).stop with
  | none =>
    rw [hstop] at h
    obtain rfl : rest = [] := h
    exact String.empty_append.symm
  | some stop =>
    rw [hstop] at h
    exact h.2.2

theorem source_eq_of_completed {source : String} {scope : Option String} {rest : List Token}
    (hrun : Completed (TokenStream.ofSource source).tokens (parse source scope).definitions rest)
    (hstopped : Stopped (.ofSource source) rest (parse source scope).stop) :
    (parse source scope).source = source :=
  calc (parse source scope).source
      = written ((parse source scope).definitions.flatMap (·.tokens)) ++
          (TokenStream.ofSource source).writtenFrom rest := by
        rw [Block.source, remainder_getD_of_stopped hstopped]
    _ = written (TokenStream.ofSource source).tokens ++ (TokenStream.ofSource source).trailing := by
        rw [TokenStream.writtenFrom, hrun.tokens_eq, written_append, String.append_assoc]
    _ = source := TokenStream.written_ofSource source

/-- A block that is written back is its source, byte for byte. Its definitions are those that the
grammar reads one after the other until nothing is left or one of them fails. -/
theorem source_parse (source : String) (scope : Option String) :
    (parse source scope).source = source ∧
      ∃ rest, Completed (TokenStream.ofSource source).tokens (parse source scope).definitions rest ∧
        Stopped (.ofSource source) rest (parse source scope).stop := by
  obtain ⟨rest, hrun, hstopped⟩ := completed_parse source scope
  exact ⟨source_eq_of_completed hrun hstopped, rest, hrun, hstopped⟩

end WebIdl.Block
