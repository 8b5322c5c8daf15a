import WebIdl.Proofs.Grammar.Calls.Agree
import WebIdl.Proofs.Grammar.Calls.Open
import WebIdl.Proofs.Grammar.Statements

/-!
# Which rules a rule may call

On the tokens that it was given itself, a rule calls rules of lower rank only. Types, arguments and
extended attributes call one another in a circle, so somewhere on the way round a rule of the same
rank or of the next is called; but a token has been read by then. Twice the number of the tokens
left and the rank on top go down with every call.

* `Rules.AgreeBelow` — two choices of rules agree as far as that measure is below a bound.
* `AgreeBelow.idlType` and the lemmas after it — so what is written over them agrees, rule by rule,
  where the measure is at the bound; `Rules.unfold_agree` is all of them at once.
-/

namespace WebIdl.Grammar

open Rule

/-- Higher than the ranks of the rules that are called before a token has been read for certain, and
no lower than those of the rules that are called after one, less one. -/
@[simp] def Call.rank : Call → Nat
  | literal _ | extAttrValue | includes | inheritance _ | enumValues _ => 1
  | extAttrs | extAttr | singleType _ => 1
  | default | idlType _ | argumentList _ => 2
  | unionType .. | argument => 3
  | constructorForm _ | attributeForm .. | operationForm _ | constantForm _
  | declarationForm .. | field _ | typedef _ | callback _ => 3
  | modifiedMember _ => 4
  | interfaceMemberForm _ => 5
  | interfaceMember .. => 6
  | members .. => 7
  | body .. => 8
  | container _ => 9
  | partialForm _ => 10
  | definitionForm => 11
  | definition => 12

theorem Call.rank_pos (call : Call) : 0 < call.rank := by cases call <;> simp

theorem Call.rank_le (call : Call) : call.rank ≤ 12 := by cases call <;> simp

namespace Rules

/-- The rules agree on what is called with so few tokens, and has a rank so low, that two for each
token and the rank are less than `bound`. -/
def AgreeBelow (bound : Nat) (given other : Rules) : Prop :=
  ∀ call n, 2 * n + call.rank < bound → Agree n (given call) (other call)

namespace AgreeBelow

variable {given other : Rules} {n r : Nat}

theorem mono {b b' : Nat} (h : AgreeBelow b given other) (hle : b' ≤ b) :
    AgreeBelow b' given other :=
  fun call n hn => h call n (by omega)

/-- What is called on the tokens that were given. -/
theorem here (h : AgreeBelow (2 * n + r) given other) (call : Call) (hr : call.rank < r) :
    Agree n (given call) (other call) :=
  h call n (by omega)

/-- What is called after a token has been read. -/
theorem after (h : AgreeBelow (2 * n + r) given other) (hn : 0 < n) (call : Call)
    (hr : call.rank < r + 2) : Agree (n - 1) (given call) (other call) :=
  h call (n - 1) (by omega)

/-! ### Types, arguments and extended attributes -/

theorem idlType (h : AgreeBelow (2 * n + 2) given other) (missing : Cause) :
    Agree n (given.unfold (.idlType missing)) (other.unfold (.idlType missing)) := by
  refine (h.here .extAttrs (by simp)).bind fun attrs => ?_
  have nullable {k : Nat} (form : TypeForm) :
      Agree k (do return IdlType.mk attrs form (← Rule.eat "?"))
        (do return IdlType.mk attrs form (← Rule.eat "?")) :=
    .bind .eat fun _ => .pure
  refine .eat_bind (fun opening hn => ?_) ?_
  · exact (h.after hn (.unionType missing opening) (by simp)).bind nullable
  · exact (h.here (.singleType missing) (by simp)).bind nullable

theorem unionType (h : AgreeBelow (2 * n + 3) given other) (missing : Cause) (opening : Token) :
    Agree n (given.unfold (.unionType missing opening))
      (other.unfold (.unionType missing opening)) := by
  refine (h.here (.idlType missing) (by simp)).bind fun first => .bind .eat ?_
  rintro (_ | separator)
  · exact .fail
  · refine (h.here (.idlType _) (by simp)).separated.bind fun rest => ?_
    exact .bind .expect fun _ => .pure

theorem singleType (h : AgreeBelow (2 * n + 1) given other) (missing : Cause) :
    Agree n (given.unfold (.singleType missing)) (other.unfold (.singleType missing)) := by
  refine .need_bind fun first hn => .ite (.bind .eat ?_) (.of_reads (Nested.namedType_reads first))
  rintro (_ | opening)
  · exact .pure
  · refine (h.after hn (.idlType _) (by simp)).separated.bind fun types => ?_
    exact .bind .expect fun _ => .pure

theorem argumentList (h : AgreeBelow (2 * n + 2) given other) (missing : Cause) :
    Agree n (given.unfold (.argumentList missing)) (other.unfold (.argumentList missing)) := by
  refine .need_bind fun opening hn => .bind .eat ?_
  rintro (_ | closing)
  · refine (h.after hn .argument (by simp)).separated.bind fun items => ?_
    exact .bind .expect fun _ => .pure
  · exact .pure

theorem argument (h : AgreeBelow (2 * n + 3) given other) :
    Agree n (given.unfold .argument) (other.unfold .argument) := by
  refine (h.here .extAttrs (by simp)).bind fun attrs => .bind .eat ?_
  rintro (_ | keyword)
  · refine (h.here (.idlType _) (by simp)).bind fun type => .bind .eat fun variadic => ?_
    exact .bind .identifier fun _ => .pure
  · refine (h.here (.idlType _) (by simp)).bind fun type => .bind .identifier fun name => ?_
    exact (h.here .default (by simp)).bind fun _ => .pure

theorem extAttrs (h : AgreeBelow (2 * n + 1) given other) :
    Agree n (given.unfold .extAttrs) (other.unfold .extAttrs) := by
  refine .eat_bind (fun opening hn => ?_) .pure
  refine (h.after hn .extAttr (by simp)).separated.bind fun items => ?_
  exact .bind .expect fun _ => .pure

theorem extAttr (h : AgreeBelow (2 * n + 1) given other) :
    Agree n (given.unfold .extAttr) (other.unfold .extAttr) := by
  refine .need_bind fun name hn => ?_
  have arguments (assignment : Option ExtAttr.Assignment) :
      Agree (n - 1)
        (do
          if ← Rule.sees (·.is "(") then
            return ExtAttr.mk name assignment (some (← given (.argumentList .attrNoArguments)))
          return ExtAttr.mk name assignment none)
        (do
          if ← Rule.sees (·.is "(") then
            return ExtAttr.mk name assignment (some (← other (.argumentList .attrNoArguments)))
          return ExtAttr.mk name assignment none) := by
    refine .bind .sees fun seen => .ite ?_ .pure
    exact (h.after hn (.argumentList _) (by simp)).bind fun _ => .pure
  refine .bind .eat ?_
  rintro (_ | assign)
  · exact arguments none
  · exact (h.after hn .extAttrValue (by simp)).bind fun value => arguments (some ⟨assign, value⟩)

theorem default (h : AgreeBelow (2 * n + 2) given other) :
    Agree n (given.unfold .default) (other.unfold .default) := by
  refine .bind .eat ?_
  rintro (_ | assign)
  · exact .pure
  · exact (h.here (.literal _) (by simp)).bind fun _ => .pure

/-! ### Members -/

theorem constructorForm (h : AgreeBelow (2 * n + 3) given other) (keyword : Token) :
    Agree n (given.unfold (.constructorForm keyword)) (other.unfold (.constructorForm keyword)) :=
  (h.here (.argumentList _) (by simp)).bind fun _ => .bind .expect fun _ => .pure

theorem attributeForm (h : AgreeBelow (2 * n + 3) given other) (words : List Token)
    (keyword : Token) :
    Agree n (given.unfold (.attributeForm words keyword))
      (other.unfold (.attributeForm words keyword)) :=
  (h.here (.idlType _) (by simp)).bind fun _ => .bind .identifier fun _ =>
    .bind .expect fun _ => .pure

theorem operationForm (h : AgreeBelow (2 * n + 3) given other) (words : List Token) :
    Agree n (given.unfold (.operationForm words)) (other.unfold (.operationForm words)) := by
  refine (h.here (.idlType _) (by simp)).bind fun type => .bind .eatIf fun name => ?_
  exact (h.here (.argumentList _) (by simp)).bind fun _ => .bind .expect fun _ => .pure

theorem constantForm (h : AgreeBelow (2 * n + 3) given other) (keyword : Token) :
    Agree n (given.unfold (.constantForm keyword)) (other.unfold (.constantForm keyword)) := by
  refine (h.here (.idlType _) (by simp)).bind fun type => .bind .identifier fun name => ?_
  refine .bind .expect fun assign => ?_
  exact (h.here (.literal _) (by simp)).bind fun _ => .bind .expect fun _ => .pure

theorem declarationForm (h : AgreeBelow (2 * n + 3) given other) (words : List Token)
    (keyword : Token) :
    Agree n (given.unfold (.declarationForm words keyword))
      (other.unfold (.declarationForm words keyword)) := by
  refine .bind .expect fun opening => ?_
  refine (h.here (.idlType _) (by simp)).separated.bind fun types => ?_
  refine .ite .fail_bind (.bind .expect fun closing => ?_)
  have ended (arguments : Option ArgumentList) :
      Agree n
        (do return Member.Form.declaration words keyword opening types closing arguments
              (← Rule.expect ";" (.declarationUnended keyword.text)))
        (do return Member.Form.declaration words keyword opening types closing arguments
              (← Rule.expect ";" (.declarationUnended keyword.text))) :=
    .bind .expect fun _ => .pure
  refine .bind .sees fun seen => .ite ?_ (.bind .pure ended)
  exact (h.here (.argumentList _) (by simp)).map.bind ended

theorem modifiedMember (h : AgreeBelow (2 * n + 4) given other) (container : Definition.Kind) :
    Agree n (given.unfold (.modifiedMember container))
      (other.unfold (.modifiedMember container)) := by
  refine .bind (.of_reads modifiers_reads) fun words => .bind .eat ?_
  rintro (_ | keyword)
  · refine .ite .fail_bind (.ite ?_ (h.here (.operationForm _) (by simp)))
    refine .bind (.of_reads specialWord_reads) fun special => ?_
    exact h.here (.operationForm _) (by simp)
  · exact h.here (.attributeForm _ _) (by simp)

theorem interfaceMemberForm (h : AgreeBelow (2 * n + 5) given other)
    (container : Definition.Kind) :
    Agree n (given.unfold (.interfaceMemberForm container))
      (other.unfold (.interfaceMemberForm container)) := by
  refine .bind .eat ?_
  rintro (_ | keyword)
  case some => exact h.here (.constantForm _) (by simp)
  refine .bind (.of_reads (.eatBefore _ _)) ?_
  rintro (_ | keyword)
  case some => exact h.here (.constructorForm _) (by simp)
  refine .bind (.of_reads (.eatPair _ _)) ?_
  rintro (_ | ⟨keyword, semicolon⟩)
  case some => exact .pure
  refine .bind .eatIf ?_
  rintro (_ | keyword)
  case some => exact h.here (.declarationForm _ _) (by simp)
  refine .bind (.of_reads (.eatPair _ _)) ?_
  rintro (_ | ⟨word, keyword⟩)
  case some => exact h.here (.declarationForm _ _) (by simp)
  refine .bind (.of_reads (.eatPair _ _)) ?_
  rintro (_ | ⟨word, keyword⟩)
  case some => exact h.here (.declarationForm _ _) (by simp)
  exact h.here (.modifiedMember _) (by simp)

theorem interfaceMember (h : AgreeBelow (2 * n + 6) given other) (container : Definition.Kind)
    (scope : String) :
    Agree n (given.unfold (.interfaceMember container scope))
      (other.unfold (.interfaceMember container scope)) := by
  refine (h.here .extAttrs (by simp)).bind fun attrs => ?_
  exact (h.here (.interfaceMemberForm _) (by simp)).bind fun _ => .pure

theorem field (h : AgreeBelow (2 * n + 3) given other) (scope : String) :
    Agree n (given.unfold (.field scope)) (other.unfold (.field scope)) := by
  refine (h.here .extAttrs (by simp)).bind fun attrs => .bind .eat fun required => ?_
  refine (h.here (.idlType _) (by simp)).bind fun type => .bind .identifier fun name => ?_
  refine (h.here .default (by simp)).bind fun default => .ite .fail_bind ?_
  exact .bind .expect fun _ => .pure

theorem members (h : AgreeBelow (2 * n + 7) given other) (container : Definition.Kind)
    (scope : String) :
    Agree n (given.unfold (.members container scope))
      (other.unfold (.members container scope)) := by
  cases container with
  | enum => exact h.here (.enumValues _) (by simp)
  | dictionary => exact (h.here (.field _) (by simp)).repeated
  | _ => exact (h.here (.interfaceMember _ _) (by simp)).repeated

/-! ### Definitions -/

theorem body (h : AgreeBelow (2 * n + 8) given other) (head : Definition.Head) (name : Token) :
    Agree n (given.unfold (.body head name)) (other.unfold (.body head name)) := by
  refine .bind .expect fun opening => (h.here (.members _ _) (by simp)).bind fun members => ?_
  exact .bind .expect fun _ => .bind .expect fun _ => .pure

theorem container (h : AgreeBelow (2 * n + 9) given other) (head : Definition.Head) :
    Agree n (given.unfold (.container head)) (other.unfold (.container head)) := by
  refine .bind .identifier fun name => .within ?_
  refine (h.here (.inheritance _) (by simp)).bind fun parent => ?_
  exact (h.here (.body _ _) (by simp)).bind fun _ => .pure

theorem typedef (h : AgreeBelow (2 * n + 3) given other) (keyword : Token) :
    Agree n (given.unfold (.typedef keyword)) (other.unfold (.typedef keyword)) := by
  refine (h.here (.idlType _) (by simp)).bind fun type => .bind .identifier fun name => ?_
  exact .within (.bind .expect fun _ => .pure)

theorem callback (h : AgreeBelow (2 * n + 3) given other) (keyword : Token) :
    Agree n (given.unfold (.callback keyword)) (other.unfold (.callback keyword)) := by
  refine .bind .identifier fun name => .within (.bind .expect fun assign => ?_)
  refine (h.here (.idlType _) (by simp)).bind fun result => ?_
  exact (h.here (.argumentList _) (by simp)).bind fun _ => .bind .expect fun _ => .pure

theorem partialForm (h : AgreeBelow (2 * n + 10) given other) (partialWord : Option Token) :
    Agree n (given.unfold (.partialForm partialWord))
      (other.unfold (.partialForm partialWord)) := by
  have container (head : Definition.Head) :
      Agree n (given (.container head)) (other (.container head)) :=
    h.here (.container head) (by simp)
  refine .bind .eat ?_
  rintro (_ | keyword)
  case some =>
    refine .bind .eat ?_
    rintro (_ | mixinWord)
    · exact container _
    · exact container _
  refine .bind .eat ?_
  rintro (_ | keyword)
  case some => exact container _
  refine .bind .eat ?_
  rintro (_ | keyword)
  case some => exact container _
  refine .ite .fail_bind (.bind .eat ?_)
  rintro (_ | keyword)
  case some => exact container _
  refine .bind .eat ?_
  rintro (_ | keyword)
  case some => exact h.here (.typedef _) (by simp)
  refine .bind (.of_reads (.seesSecond _)) fun seen => .ite ?_ .fail
  exact h.here .includes (by simp)

theorem definitionForm (h : AgreeBelow (2 * n + 11) given other) :
    Agree n (given.unfold .definitionForm) (other.unfold .definitionForm) := by
  refine .bind .eat ?_
  rintro (_ | word)
  · exact .bind .eat fun partialWord => h.here (.partialForm partialWord) (by simp)
  · refine .bind .eat ?_
    rintro (_ | keyword)
    · exact h.here (.callback _) (by simp)
    · exact h.here (.container _) (by simp)

theorem definition (h : AgreeBelow (2 * n + 12) given other) :
    Agree n (given.unfold .definition) (other.unfold .definition) := by
  refine (h.here .extAttrs (by simp)).bind fun attrs => ?_
  exact (h.here .definitionForm (by simp)).bind fun _ => .pure

end AgreeBelow

/-- What a rule gives is settled by the calls that it may make. -/
theorem unfold_agree {given other : Rules} {n : Nat} :
    ∀ call : Call, AgreeBelow (2 * n + call.rank) given other →
      Agree n (given.unfold call) (other.unfold call)
  | .definition, h => h.definition
  | .definitionForm, h => h.definitionForm
  | .partialForm partialWord, h => h.partialForm partialWord
  | .container head, h => h.container head
  | .inheritance head, _ => .of_reads (inheritance_reads head)
  | .body head name, h => h.body head name
  | .typedef keyword, h => h.typedef keyword
  | .callback keyword, h => h.callback keyword
  | .includes, _ => .of_reads includes_reads
  | .members container scope, h => h.members container scope
  | .interfaceMember container scope, h => h.interfaceMember container scope
  | .interfaceMemberForm container, h => h.interfaceMemberForm container
  | .modifiedMember container, h => h.modifiedMember container
  | .constructorForm keyword, h => h.constructorForm keyword
  | .attributeForm words keyword, h => h.attributeForm words keyword
  | .operationForm words, h => h.operationForm words
  | .constantForm keyword, h => h.constantForm keyword
  | .declarationForm words keyword, h => h.declarationForm words keyword
  | .field scope, h => h.field scope
  | .enumValues scope, _ => .of_reads (enumValues_reads scope)
  | .idlType missing, h => h.idlType missing
  | .unionType missing opening, h => h.unionType missing opening
  | .singleType missing, h => h.singleType missing
  | .argumentList missing, h => h.argumentList missing
  | .argument, h => h.argument
  | .default, h => h.default
  | .literal missing, _ => .of_reads (literal_reads missing)
  | .extAttrs, h => h.extAttrs
  | .extAttr, h => h.extAttr
  | .extAttrValue, _ => .of_reads extAttrValue_reads

end Rules

end WebIdl.Grammar
