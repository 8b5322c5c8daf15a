import WebIdl.Proofs.Block.Runs
import WebIdl.Proofs.Grammar.Calls.Depth

/-!
# The reading of tokens comes to an end

* `Rule.Advances` — a rule moves on where it succeeds and never moves back, and what it gives holds
  just the tokens it has passed. `rules_advance` says so of each rule that a loop repeats.
* `Stops` — a loop with as many rounds as there are tokens left has come to its end.
* `CallsBounded` — the calls of rules nest no deeper than twice the number of tokens left, and some.
-/

namespace WebIdl.Grammar

open Rule

namespace Rule

variable {α γ : Type} {rule y : Rule α} {tokensOf : α → List Token}

/-- The cursor is before one of `tokens` or at the end that follows the last of them. Where the rule
succeeds, it moves the cursor further and not past that end, and what it gives holds just the tokens
in between, so nothing of the end. Where it fails, it has not moved the cursor back. -/
structure Advances (rule : Rule α) (tokensOf : α → List Token) : Prop where
  succeeds ⦃tokens rest : List Token⦄ ⦃cursor : Nat⦄ ⦃a : α⦄ : cursor ≤ tokens.length →
    rule (tokens.drop cursor) = .ok (a, rest) →
    ∃ next, cursor < next ∧ next ≤ tokens.length ∧ rest = tokens.drop next ∧
      tokensOf a = (tokens.drop cursor).take (next - cursor)
  fails ⦃tokens : List Token⦄ ⦃cursor : Nat⦄ ⦃failure : Failure⦄ : cursor ≤ tokens.length →
    rule (tokens.drop cursor) = .error failure →
    ∃ next, cursor ≤ next ∧ next ≤ tokens.length ∧ failure.rest = tokens.drop next

namespace Advances

theorem of_reads
    (hreads : rule.Reads fun a read => read ≠ [] ∧ read = tokensOf a)
    (hstops : ∀ ⦃before failure⦄, rule before = .error failure → failure.rest <:+ before) :
    rule.Advances tokensOf where
  succeeds tokens rest cursor a hcursor hok := by
    obtain ⟨read, hsplit, hne, hread⟩ := hreads hok
    have hpos := List.length_pos_iff.mpr hne
    have hlength := congrArg List.length hsplit
    rw [List.length_drop, List.length_append] at hlength
    refine ⟨cursor + read.length, by omega, by omega, ?_, ?_⟩
    · rw [← List.drop_drop, hsplit, List.drop_left]
    · rw [Nat.add_sub_cancel_left, hsplit, List.take_left, hread]
  fails tokens cursor failure hcursor hfail := by
    obtain ⟨passed, hsplit⟩ := hstops hfail
    have hlength := congrArg List.length hsplit
    rw [List.length_drop, List.length_append] at hlength
    refine ⟨cursor + passed.length, by omega, by omega, ?_⟩
    rw [← List.drop_drop, ← hsplit, List.drop_left]

theorem of_parallel {look : Nat} {m : α → γ} (h : ∀ n, Parallel id n n 1 look m rule y)
    (hreads : rule.Reads fun a read => read = tokensOf a) : rule.Advances tokensOf := by
  refine of_reads (fun before a rest hok => ?_) fun before failure => (h _).stops (Nat.le_refl _)
  obtain ⟨read, hsplit, hleast, -⟩ := (h _).reads (Nat.le_refl _) hok
  obtain ⟨read', rfl, hread⟩ := hreads hok
  obtain rfl := List.append_cancel_right hsplit
  exact ⟨read', rfl, List.ne_nil_of_length_pos hleast, hread⟩

theorem consumes (h : rule.Advances tokensOf) : rule.Consumes := by
  intro before a rest hok
  have hok : rule (before.drop 0) = .ok (a, rest) := hok
  obtain ⟨next, hnext, hle, rfl, -⟩ := h.succeeds (Nat.zero_le _) hok
  rw [List.length_drop]
  omega

end Advances

end Rule

/-! ### Rules -/

/-- The rules that make progress, each with the tokens of what it gives. -/
structure RulesAdvance : Prop where
  definition : (rules .definition).Advances Definition.tokens
  interfaceMember (container : Definition.Kind) (scope : String) :
    (rules (.interfaceMember container scope)).Advances Member.tokens
  field (scope : String) : (rules (.field scope)).Advances Member.tokens
  enumValues (scope : String) : (rules (.enumValues scope)).Advances (·.flatMap Member.tokens)
  idlType (missing : Cause) : (rules (.idlType missing)).Advances IdlType.tokens
  argumentList (missing : Cause) : (rules (.argumentList missing)).Advances ArgumentList.tokens
  argument : (rules .argument).Advances Argument.tokens
  literal (missing : Cause) : (rules (.literal missing)).Advances Literal.tokens
  extAttr : (rules .extAttr).Advances ExtAttr.tokens
  extAttrValue : (rules .extAttrValue).Advances ExtAttr.Value.tokens

theorem grammar_alike (n n' : Nat) :
    Nested.Alike id n n' ⟨idlType, extAttrs⟩ ⟨idlType, extAttrs⟩ :=
  ⟨idlType_parallel Token.keeps_id, extAttrs_parallel Token.keeps_id⟩

theorem grammar_sound : Nested.Sound ⟨idlType, extAttrs⟩ := ⟨idlType_reads, extAttrs_reads⟩

theorem interfaceMember_tokens (container : Definition.Kind) (scope : String) :
    (interfaceMember container scope).Reads fun member read => read = member.tokens := by
  have proper {container : Definition.Kind} (hc : container ≠ .dictionary ∧ container ≠ .enum) :
      (interfaceMember container scope).Reads fun member read => read = member.tokens :=
    (interfaceMember_reads hc scope).mono fun _ _ h => h.1
  by_cases hc : container = .dictionary ∨ container = .enum
  · -- all that is asked of the container is whether it is a namespace
    have plain := @proper .interface ⟨nofun, nofun⟩
    obtain rfl | rfl := hc
    · exact plain
    · exact plain
  · exact proper (not_or.mp hc)

theorem enumValues_advances (scope : String) :
    (enumValues scope).Advances (·.flatMap Member.tokens) := by
  have hsome : (enumValues scope).Reads fun values _ => values ≠ [] := by
    refine (Reads.bounded (enumValuesUpTo_reads scope)).bind fun values _ _ => ?_
    exact .guard fun hempty => .pure (by simpa using hempty)
  have hparallel (n : Nat) : Parallel id n n 0 1 (List.map (Member.mapTokens id))
      (enumValues scope) (enumValues scope) := enumValues_parallel Token.keeps_id scope
  refine .of_reads (((enumValues_reads scope).and hsome).mono ?_)
    fun before failure => (hparallel before.length).stops (Nat.le_refl _)
  rintro values read ⟨⟨rfl, -⟩, hvalues⟩
  obtain ⟨value, values, rfl⟩ := List.exists_cons_of_ne_nil hvalues
  exact ⟨by simp [value.tokens_ne_nil], rfl⟩

theorem rules_advance : RulesAdvance where
  definition := .of_parallel (fun _ => definition_parallel Token.keeps_id)
    (definition_reads.mono fun _ _ h => h.1)
  interfaceMember container scope :=
    .of_parallel (fun _ => interfaceMember_parallel Token.keeps_id container scope)
      (interfaceMember_tokens container scope)
  field scope := .of_parallel (fun _ => field_parallel Token.keeps_id scope)
    ((field_reads scope).mono fun _ _ h => h.1)
  enumValues := enumValues_advances
  idlType missing := .of_parallel (fun _ => idlType_parallel Token.keeps_id missing missing)
    (idlType_reads missing)
  argumentList missing :=
    .of_parallel
      (fun _ => (argumentList_parallel Token.keeps_id missing missing).atLeast 2 (by decide))
      (argumentList_reads missing)
  argument := .of_parallel (fun n => (grammar_alike n n).argument Token.keeps_id)
    grammar_sound.argument
  literal missing := .of_parallel (fun _ => literal_parallel Token.keeps_id missing missing)
    (literal_reads missing)
  extAttr := .of_parallel (fun n => (grammar_alike n n).extAttr Token.keeps_id)
    grammar_sound.extAttr
  extAttrValue := .of_parallel (fun _ => extAttrValue_parallel Token.keeps_id) extAttrValue_reads

/-! ### Loops -/

/-- With as many rounds as there are tokens the loop has come to its end: to allow it more makes no
difference. -/
def Stops {β : Type} (loop : Nat → List Token → β) : Prop :=
  ∀ ⦃bound tokens⦄, tokens.length ≤ bound → loop bound tokens = loop tokens.length tokens

theorem Stops.of_bounds {α : Type} {loop : Nat → Rule α}
    (h : ∀ n b b', n ≤ b → n ≤ b' → Agree n (loop b) (loop b')) : Stops loop :=
  fun _ _ hbound => (h _ _ _ hbound (Nat.le_refl _)).same (Nat.le_refl _)

theorem separatedUpTo_stops {α : Type} {item : Rule α} (h : item.Consumes) (word : String) :
    Stops (separatedUpTo item word) :=
  .of_bounds fun _ _ _ => Agree.separatedUpTo_bounds h word

theorem repeatedUpTo_stops {α : Type} {item : Rule α} (h : item.Consumes) (stop : Token → Bool) :
    Stops (repeatedUpTo item stop) :=
  .of_bounds fun _ _ _ => Agree.repeatedUpTo_bounds h stop

theorem enumValuesUpTo_bounds (scope : String) {n b b' : Nat} (hb : n ≤ b) (hb' : n ≤ b') :
    Agree n (enumValuesUpTo scope b) (enumValuesUpTo scope b') := by
  have on_nil (b b' : Nat) : Agree 0 (enumValuesUpTo scope b) (enumValuesUpTo scope b') :=
    .of_nil (by rw [enumValuesUpTo_nil, enumValuesUpTo_nil])
      (.of_reads (enumValuesUpTo_reads scope b'))
  induction b generalizing n b' with
  | zero =>
    obtain rfl := Nat.le_zero.mp hb
    exact on_nil 0 b'
  | succ b ih =>
    cases b' with
    | zero =>
      obtain rfl := Nat.le_zero.mp hb'
      exact on_nil (b + 1) 0
    | succ b' =>
      refine .next?_bind (fun value hn => .bind .eat ?_) .pure
      rintro (_ | separator)
      · exact .pure
      · exact (ih (by omega) (by omega)).bind fun _ => .pure

/-- The loops of the grammar, and the one over the definitions of a block. -/
structure LoopsStop : Prop where
  definitions : Stops Block.readUpTo
  members (container : Definition.Kind) (scope : String) :
    Stops (repeatedUpTo (rules (.interfaceMember container scope)) (·.is "\x7d"))
  fields (scope : String) : Stops (repeatedUpTo (rules (.field scope)) (·.is "\x7d"))
  enumValues (scope : String) : Stops (enumValuesUpTo scope)
  types (missing : Cause) (word : String) : Stops (separatedUpTo (rules (.idlType missing)) word)
  arguments : Stops (separatedUpTo (rules .argument) ",")
  extAttrs : Stops (separatedUpTo (rules .extAttr) ",")
  values : Stops (separatedUpTo (need isListed .attrNoValue) ",")

theorem loops_stop : LoopsStop where
  definitions bound tokens hbound := by
    obtain ⟨rest, hrun, hends⟩ := Block.completed_read tokens
    exact Block.readUpTo_of_completed hrun hends hbound
  members container scope :=
    repeatedUpTo_stops (rules_advance.interfaceMember container scope).consumes _
  fields scope := repeatedUpTo_stops (rules_advance.field scope).consumes _
  enumValues scope := .of_bounds fun _ _ _ => enumValuesUpTo_bounds scope
  types missing word := separatedUpTo_stops (rules_advance.idlType missing).consumes word
  arguments := separatedUpTo_stops rules_advance.argument.consumes ","
  extAttrs := separatedUpTo_stops rules_advance.extAttr.consumes ","
  values := separatedUpTo_stops (need_consumes isListed _) ","

/-! ### Calls -/

/-- No more calls than two for each token left and twelve nest: whatever may be done in the place of
those that are nested deeper, it is never asked for. -/
structure CallsBounded : Prop where
  /-- With its calls left open and then filled with its own rules, the grammar is what it was. -/
  unfold : rules.unfold = rules
  depth (base : Rules) (call : Call) ⦃tokens : List Token⦄ ⦃depth : Nat⦄ :
    2 * tokens.length + 12 ≤ depth → Rules.unfold^[depth] base call tokens = rules call tokens

theorem calls_bounded : CallsBounded where
  unfold := unfold_rules
  depth base call tokens depth hdepth := by
    have hrank := call.rank_le
    exact (agreeBelow_iterate base depth call tokens.length (by omega)).same (Nat.le_refl _)

/-- Rules move on over the tokens, so loops stop, and the number of tokens left bounds how deep calls
nest. -/
theorem rules_terminate : RulesAdvance ∧ LoopsStop ∧ CallsBounded :=
  ⟨rules_advance, loops_stop, calls_bounded⟩

end WebIdl.Grammar
