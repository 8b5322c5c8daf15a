import WebIdl.Proofs.Block.Remainder
import WebIdl.Proofs.Lexing.Semicolon
import WebIdl.Proofs.Syntax.Relabel

/-!
# Blocks that are put one after the other

Nothing is carried over from one definition to the next. A block that is read to its end, with
nothing after its last semicolon, can be put before any other block: the definitions of both are
read, those of the second further on in the source, and the reading ends as that of the second does.

* `Block.Completed.map` — a run can be made on tokens that are put in the place of those it read, as
  long as they have the same kinds and texts, and it gives the same definitions of the new tokens.
* `Block.Unread` — tokens that the definition loop ends before.
* `Block.parse_of_unread` — what is parsed, from any run that ends before such tokens.
* `Block.parse_append` — the definitions, the remainder and the trailing text of two blocks in a
  row.
-/

namespace WebIdl

namespace Definition

/-- The definition that many bytes further on. -/
def shift (bytes : Nat) (d : Definition) : Definition := d.mapTokens (Token.shift bytes)

end Definition

namespace Block

variable {f : Token → Token} {tokens between rest : List Token}
  {definitions more : List Definition}

/-! ### Runs in a row -/

theorem Completed.append (hrun : Completed tokens definitions between)
    (hmore : Completed between more rest) : Completed tokens (definitions ++ more) rest := by
  induction hrun with
  | done => exact hmore
  | step hd _ ih => exact .step hd (ih hmore)

/-! ### Runs on other tokens -/

/-- Tokens that `f` leaves as they are can be told from any others by `f`. -/
theorem Completed.map_of_idempotent (hf : Token.Keeps f) (hidem : ∀ t ∈ tokens, f (f t) = f t)
    (hrun : Completed tokens definitions rest) :
    Completed (tokens.map f) (definitions.map (·.mapTokens f)) (rest.map f) := by
  obtain ⟨read, rfl, hparallel⟩ := hrun.parallel hf
  have hread : read.map f = (read.map f).map f := by
    rw [List.map_map]
    apply List.map_congr_left
    intro t ht
    exact (hidem t (List.mem_append_left _ ht)).symm
  obtain ⟨definitions', hrun', hsame⟩ := hparallel (rest.map f) hread
  have htokens : read.map f = definitions'.flatMap (·.tokens) :=
    List.append_cancel_right hrun'.tokens_eq
  -- the tokens of the other definitions are all left as they are
  have hself : definitions'.map (·.mapTokens f) = definitions' := by
    rw [← List.map_id definitions', List.map_map]
    apply List.map_congr_left
    intro d hd
    apply d.mapTokens_eq_self
    intro t ht
    have hmem : t ∈ read.map f := htokens ▸ List.mem_flatMap.mpr ⟨d, hd, ht⟩
    obtain ⟨u, hu, rfl⟩ := List.mem_map.mp hmem
    exact hidem u (List.mem_append_left _ hu)
  rw [List.map_append, hsame, hself]
  exact hrun'

/-- A token before `bound`, set apart beyond it. -/
def setApart (bound : Nat) (t : Token) : Token :=
  if t.start < bound then { t with start := t.start + bound } else t

/-- What `f` puts in the place of a token that has been set apart. -/
def putBack (bound : Nat) (f : Token → Token) (t : Token) : Token :=
  if bound ≤ t.start then f { t with start := t.start - bound } else t

theorem keeps_setApart (bound : Nat) : Token.Keeps (setApart bound) := by
  constructor <;> intro t <;> unfold setApart <;> split <;> rfl

theorem keeps_putBack (bound : Nat) (hf : Token.Keeps f) : Token.Keeps (putBack bound f) := by
  constructor <;> intro t <;> unfold putBack <;> split
  · exact hf.kind _
  · rfl
  · exact hf.text _
  · rfl

theorem setApart_setApart (bound : Nat) (t : Token) :
    setApart bound (setApart bound t) = setApart bound t := by
  by_cases ht : t.start < bound
  · have hbeyond : ¬t.start + bound < bound := by omega
    simp only [setApart, if_pos ht, if_neg hbeyond]
  · simp only [setApart, if_neg ht]

theorem putBack_setApart {bound : Nat} {t : Token} (ht : t.start < bound) :
    putBack bound f (setApart bound t) = f t := by
  simp [putBack, setApart, ht]

theorem putBack_of_lt {bound : Nat} {t : Token} (ht : t.start < bound) : putBack bound f t = t := by
  simp [putBack, Nat.not_le.mpr ht]

theorem exists_bound (place : Token → Nat) (tokens : List Token) :
    ∃ bound, ∀ t ∈ tokens, place t < bound := by
  induction tokens with
  | nil => exact ⟨0, nofun⟩
  | cons t tokens ih =>
    obtain ⟨bound, hbound⟩ := ih
    refine ⟨max (place t + 1) bound, ?_⟩
    rintro u (_ | ⟨_, hu⟩)
    · omega
    · have := hbound u hu
      omega

/-- The tokens are set apart first, so that none of them is taken for one that `f` has put in the
place of another, and then `f` is applied to those that have been set apart. -/
theorem Completed.map (hf : Token.Keeps f) (hrun : Completed tokens definitions rest) :
    Completed (tokens.map f) (definitions.map (·.mapTokens f)) (rest.map f) := by
  obtain ⟨bound, hbound⟩ := exists_bound (fun t => t.start + (f t).start) tokens
  have hstart (t : Token) (ht : t ∈ tokens) : t.start < bound ∧ (f t).start < bound := by
    have := hbound t ht
    omega
  have hback (t : Token) (ht : t ∈ tokens) : putBack bound f (setApart bound t) = f t :=
    putBack_setApart (hstart t ht).1
  have hapart := hrun.map_of_idempotent (keeps_setApart bound) fun t _ => setApart_setApart bound t
  have hidem : ∀ t ∈ tokens.map (setApart bound),
      putBack bound f (putBack bound f t) = putBack bound f t := by
    intro u hu
    obtain ⟨t, ht, rfl⟩ := List.mem_map.mp hu
    rw [hback t ht, putBack_of_lt (hstart t ht).2]
  have hput := hapart.map_of_idempotent (keeps_putBack bound hf) hidem
  have hsplit := hrun.tokens_eq
  have hdefinitions : (definitions.map (·.mapTokens (setApart bound))).map
      (·.mapTokens (putBack bound f)) = definitions.map (·.mapTokens f) := by
    rw [List.map_map]
    apply List.map_congr_left
    intro d hd
    apply d.mapTokens_mapTokens
    intro t ht
    apply hback t
    rw [hsplit]
    exact List.mem_append_left _ (List.mem_flatMap.mpr ⟨d, hd, ht⟩)
  have hmap {list : List Token} (hsub : ∀ t ∈ list, t ∈ tokens) :
      (list.map (setApart bound)).map (putBack bound f) = list.map f := by
    rw [List.map_map]
    apply List.map_congr_left
    intro t ht
    exact hback t (hsub t ht)
  rw [hdefinitions, hmap fun _ h => h, hmap fun t ht => hsplit ▸ List.mem_append_right _ ht] at hput
  exact hput

/-! ### Where the loop ends -/

/-- The definition loop ends before these tokens: there are none, or no definition can be read off
them. -/
def Unread (rest : List Token) : Prop :=
  rest = [] ∨ ∃ failure, Grammar.definition rest = .error failure

theorem Unread.map (hf : Token.Keeps f) (h : Unread rest) : Unread (rest.map f) := by
  rcases h with rfl | ⟨failure, hfailure⟩
  · exact .inl rfl
  · have hsame : rest.map Token.core = (rest.map f).map Token.core := by
      rw [List.map_map]
      apply List.map_congr_left
      intro t _
      simp [Token.core, hf.kind, hf.text]
    exact .inr (definition_fails_parallel Token.keeps_core hsame hfailure)

/-- The loop ends where it cannot go on. -/
theorem Unread.exists_ends (h : Unread rest) :
    ∃ ended, Ends rest ended ∧ ended.map (·.2) = if rest = [] then none else some rest := by
  by_cases hrest : rest = []
  · exact ⟨none, hrest, by simp [hrest]⟩
  · obtain ⟨failure, hfailure⟩ := h.resolve_left hrest
    exact ⟨some (failure, rest), ⟨rfl, hrest, hfailure⟩, by simp [hrest]⟩

/-! ### Parsed blocks -/

theorem remainder_eq (source : String) (scope : Option String) :
    (parse source scope).remainder =
      ((read (TokenStream.ofSource source).tokens).2.map (·.2)).map
        (TokenStream.ofSource source).writtenFrom := by
  rw [remainder, parse, Option.map_map, Option.map_map]
  rfl

/-- Any run over the tokens of a source that ends before unread tokens is how it is parsed. -/
theorem parse_of_unread {source : String}
    (hrun : Completed (TokenStream.ofSource source).tokens definitions rest) (hrest : Unread rest)
    (scope : Option String) :
    (parse source scope).definitions = definitions ∧
      (parse source scope).remainder =
        if rest = [] then none else some ((TokenStream.ofSource source).writtenFrom rest) := by
  obtain ⟨ended, hends, hended⟩ := hrest.exists_ends
  have hread := read_of_completed hrun hends
  constructor
  · simp only [parse, hread]
  · rw [remainder_eq, hread, hended]
    by_cases hnil : rest = [] <;> simp [hnil]

/-- A source is parsed by such a run. -/
theorem exists_unread (source : String) :
    ∃ definitions rest, Completed (TokenStream.ofSource source).tokens definitions rest ∧
      Unread rest := by
  obtain ⟨rest, hrun, hends⟩ := completed_read (TokenStream.ofSource source).tokens
  refine ⟨_, rest, hrun, ?_⟩
  cases hended : (read (TokenStream.ofSource source).tokens).2 with
  | none =>
    rw [hended] at hends
    exact .inl hends
  | some ended =>
    obtain ⟨failure, left⟩ := ended
    rw [hended] at hends
    exact .inr ⟨failure, hends.2.2⟩

/-- A block without errors is a run over all of its tokens, the last of which is a semicolon. -/
theorem completed_of_clean {source : String} {scope : Option String}
    (h : (parse source scope).hasErrors = false) :
    Completed (TokenStream.ofSource source).tokens (parse source scope).definitions [] := by
  obtain ⟨rest, hrun, hstopped⟩ := completed_parse source scope
  have hstop : (parse source scope).stop = none := by simpa [hasErrors] using h
  rw [hstop] at hstopped
  obtain rfl : rest = [] := hstopped
  exact hrun

/-- The last token of definitions that have been read is a semicolon. -/
theorem Completed.getLast?_is (hrun : Completed tokens definitions []) :
    ∀ token ∈ tokens.getLast?, token.text = ";" := by
  generalize hrest : ([] : List Token) = rest at hrun
  induction hrun with
  | done =>
    subst hrest
    exact nofun
  | @step tokens between rest d definitions hd _ ih =>
    obtain ⟨read, rfl, rfl, hsemicolon, -⟩ := Grammar.definition_reads hd
    intro token htoken
    rw [List.getLast?_append, Option.mem_def, Option.or_eq_some_iff] at htoken
    rcases htoken with htoken | ⟨-, htoken⟩
    · exact ih hrest token htoken
    · rw [d.getLast?_tokens] at htoken
      obtain rfl := Option.some.inj htoken
      simp only [Token.is, Bool.and_eq_true, beq_iff_eq] at hsemicolon
      exact hsemicolon.2

/-- Two blocks in a row, the first of which has no errors and nothing after its last token. The
definitions of the second come after those of the first, moved by the length of the first, and the
reading ends as that of the second. -/
theorem parse_append (a b : String) (scope : Option String)
    (hclean : (parse a scope).hasErrors = false) (htrailing : (parse a scope).trailing = "") :
    (parse (a ++ b) scope).definitions = (parse a scope).definitions ++
        (parse b scope).definitions.map (·.shift a.utf8ByteSize) ∧
      (parse (a ++ b) scope).remainder = (parse b scope).remainder ∧
      (parse (a ++ b) scope).trailing = (parse b scope).trailing := by
  have hfront := completed_of_clean hclean
  obtain ⟨htokens, htrail⟩ :=
    TokenStream.ofSource_append (b := b) htrailing hfront.getLast?_is
  obtain ⟨definitions, rest, hrun, hrest⟩ := exists_unread b
  obtain ⟨hdefinitions, hremainder⟩ := parse_of_unread hrun hrest scope
  have hkeeps := Token.keeps_shift a.utf8ByteSize
  have hback := hfront.before ((TokenStream.ofSource b).tokens.map (Token.shift a.utf8ByteSize))
  rw [← List.append_nil (List.flatMap _ _), ← hfront.tokens_eq, ← htokens] at hback
  obtain ⟨hall, hleft⟩ :=
    parse_of_unread (hback.append (hrun.map hkeeps)) (hrest.map hkeeps) scope
  refine ⟨?_, ?_, htrail⟩
  · rw [hall, hdefinitions]
    rfl
  · rw [hleft, hremainder]
    simp only [List.map_eq_nil_iff, TokenStream.writtenFrom, written_map_shift, htrail]

/-- A comment right after the semicolon, and at the end a literal that is not closed. -/
theorem parse_append_unclosed :
    let front := "enum E \x7b \"a\" \x7d;"
    let back := "// c\ntypedef long T; enum \"b"
    (parse front none).hasErrors = false ∧ (parse front none).trailing = "" ∧
      (parse (front ++ back) none).definitions = (parse front none).definitions ++
        (parse back none).definitions.map (·.shift front.utf8ByteSize) ∧
      (parse (front ++ back) none).remainder = (parse back none).remainder ∧
      (parse (front ++ back) none).trailing = (parse back none).trailing :=
  ⟨by decide +kernel, by decide +kernel,
    parse_append _ _ none (by decide +kernel) (by decide +kernel)⟩

end Block

end WebIdl
