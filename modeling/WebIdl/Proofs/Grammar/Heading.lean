import WebIdl.Proofs.Grammar.Failures
import WebIdl.Proofs.Grammar.Statements

/-!
# Headings

A definition is read in two parts: its heading, which ends with its name, and the rest. Only the
failures of the rest say which definition they are in.

* `Grammar.heading` — the rule for headings alone.
* `Grammar.definition_eq` — the rule for definitions reads a heading, and then the rest of the
  definition that it is the heading of.
* `Grammar.Fails`, `Grammar.fails_of_definition` — so a failure tells whether the name was read
  before it, and what messages call the definition then.
* `Grammar.exists_heading_of_definition` — a definition that is read to its end is called the same.
-/

namespace WebIdl.Grammar

open Rule Definition

/-! ### Headings and the rest of definitions -/

/-- What a definition opens with, up to its name. -/
inductive Opening where
  | container (head : Head) (name : Token)
  | typedef (keyword : Token) (type : IdlType) (name : Token)
  | callback (keyword name : Token)
  | includes (name : Token)

namespace Opening

/-- The keywords and the name. -/
def phrase : Opening → String
  | .container head name => head.words ++ " " ++ name.text
  | .typedef _ _ name => "typedef " ++ name.text
  | .callback _ name => "callback " ++ name.text
  | .includes name => name.text ++ " includes"

/-- What follows the name. -/
def rest : Opening → Rule Form
  | .container head name => do
    let parent ← inheritance head
    return .container head name parent (← body head name)
  | .typedef keyword type name => do
    return .typedef keyword type name (← expect ";" .typedefUnended)
  | .callback keyword name => do
    let assign ← expect "=" .callbackNoAssignment
    let result ← idlType .callbackNoType
    let arguments ← argumentList .callbackNoArguments
    return .callback keyword name assign result arguments (← expect ";" .callbackUnended)
  | .includes name => do
    let keyword ← expect "includes" .includesIncomplete
    let mixin ← identifier .includesIncomplete
    return .includes name keyword mixin (← expect ";" .includesUnended)

end Opening

def containerOpening (head : Head) : Rule Opening := do
  return .container head (← identifier (.noName head.words))

def typedefOpening (keyword : Token) : Rule Opening := do
  let type ← idlType .typedefNoType
  return .typedef keyword type (← identifier .typedefNoName)

def callbackOpening (keyword : Token) : Rule Opening := do
  return .callback keyword (← identifier .callbackNoName)

def includesOpening : Rule Opening := do
  return .includes (← identifier .includesNoTarget)

def partialOpening (partialWord : Option Token) : Rule Opening := do
  if let some keyword ← eat "interface" then
    match ← eat "mixin" with
    | some mixinWord => return ← containerOpening (.interfaceMixin partialWord keyword mixinWord)
    | none => return ← containerOpening (.interface partialWord keyword)
  if let some keyword ← eat "namespace" then
    return ← containerOpening (.namespace partialWord keyword)
  if let some keyword ← eat "dictionary" then
    return ← containerOpening (.dictionary partialWord keyword)
  if partialWord.isSome then
    fail .danglingPartial
  if let some keyword ← eat "enum" then
    return ← containerOpening (.enum keyword)
  if let some keyword ← eat "typedef" then
    return ← typedefOpening keyword
  if ← seesSecond (·.is "includes") then
    return ← includesOpening
  fail .unknownDefinition

def opening : Rule Opening := do
  if let some word ← eat "callback" then
    match ← eat "interface" with
    | some keyword => return ← containerOpening (.callbackInterface word keyword)
    | none => return ← callbackOpening word
  partialOpening (← eat "partial")

/-- A definition up to its name. -/
structure Heading where
  attrs : Option ExtAttrList
  opening : Opening

def heading : Rule Heading := do
  let attrs ← extAttrs
  return ⟨attrs, ← opening⟩

namespace Heading

def phrase (heading : Heading) : String := heading.opening.phrase

/-- The definition that has been read up to its name. -/
def rest (heading : Heading) : Rule Definition := do
  return ⟨heading.attrs, ← heading.opening.rest⟩

end Heading

/-! ### A definition is its heading and the rest -/

/-- The rule reads an opening, and then what follows it in the definition of that name. -/
def Opens (form : Rule Form) (opening : Rule Opening) : Prop :=
  form = opening >>= fun opening => within opening.phrase opening.rest

namespace Opens

variable {α : Type} {x : Rule α} {form : α → Rule Form} {opening : α → Rule Opening}

theorem bind (h : ∀ a, Opens (form a) (opening a)) : Opens (x >>= form) (x >>= opening) := by
  rw [Opens, bind_assoc]
  exact congrArg (x >>= ·) (funext h)

theorem fail (cause : Cause) : Opens (Rule.fail cause) (Rule.fail cause) := rfl

theorem fail_bind (cause : Cause) :
    Opens (Rule.fail cause >>= form) (Rule.fail cause >>= opening) := rfl

theorem ite {c : Prop} [Decidable c] {form form' : Rule Form} {opening opening' : Rule Opening}
    (h : Opens form opening) (h' : Opens form' opening') :
    Opens (if c then form else form') (if c then opening else opening') := by
  by_cases hc : c
  · simpa only [if_pos hc] using h
  · simpa only [if_neg hc] using h'

theorem container (head : Head) : Opens (Grammar.container head) (containerOpening head) :=
  bind fun _ => rfl

theorem typedef (keyword : Token) : Opens (Grammar.typedef keyword) (typedefOpening keyword) :=
  bind fun _ => bind fun _ => rfl

theorem callback (keyword : Token) : Opens (Grammar.callback keyword) (callbackOpening keyword) :=
  bind fun _ => rfl

theorem includes : Opens Grammar.includes includesOpening := bind fun _ => rfl

theorem partialForm (partialWord : Option Token) :
    Opens (Grammar.partialForm partialWord) (partialOpening partialWord) := by
  apply bind
  rintro (_ | keyword)
  case some =>
    apply bind
    rintro (_ | mixinWord)
    · exact container _
    · exact container _
  apply bind
  rintro (_ | keyword)
  case some => exact container _
  apply bind
  rintro (_ | keyword)
  case some => exact container _
  apply ite (fail_bind _)
  apply bind
  rintro (_ | keyword)
  case some => exact container _
  apply bind
  rintro (_ | keyword)
  case some => exact typedef keyword
  apply bind
  intro seen
  exact ite includes (fail _)

theorem definitionForm : Opens Grammar.definitionForm Grammar.opening := by
  apply bind
  rintro (_ | word)
  case some =>
    apply bind
    rintro (_ | keyword)
    · exact callback word
    · exact container _
  exact bind partialForm

end Opens

theorem Rule.within_map {α β : Type} (phrase : String) (rule : Rule α) (f : α → β) :
    within phrase (f <$> rule) = f <$> within phrase rule := by
  funext before
  change within phrase (fun before => rule before >>= fun r => pure (f r.1, r.2)) before =
    (within phrase rule before >>= fun r => pure (f r.1, r.2))
  unfold within
  simp only
  cases rule before <;> rfl

/-- A definition is read up to its name, and then the rest is read in the definition so named. -/
theorem definition_eq :
    definition = heading >>= fun heading => within heading.phrase heading.rest := by
  rw [definition, heading, bind_assoc]
  apply congrArg (extAttrs >>= ·)
  funext attrs
  rw [Opens.definitionForm, bind_assoc, bind_assoc]
  apply congrArg (opening >>= ·)
  funext opening
  rw [pure_bind]
  simp only [Heading.phrase, Heading.rest, ← map_eq_pure_bind, Rule.within_map]

/-! ### Failures -/

theorem unnamed_containerOpening (head : Head) : (containerOpening head).Unnamed :=
  (Unnamed.identifier _).bind fun _ => .pure _

theorem unnamed_typedefOpening (keyword : Token) : (typedefOpening keyword).Unnamed := by
  apply (unnamed_idlType _).bind
  intro type
  exact (Unnamed.identifier _).bind fun _ => .pure _

theorem unnamed_callbackOpening (keyword : Token) : (callbackOpening keyword).Unnamed :=
  (Unnamed.identifier _).bind fun _ => .pure _

theorem unnamed_includesOpening : includesOpening.Unnamed :=
  (Unnamed.identifier _).bind fun _ => .pure _

theorem unnamed_partialOpening (partialWord : Option Token) :
    (partialOpening partialWord).Unnamed := by
  apply (Unnamed.eat "interface").bind
  rintro (_ | keyword)
  case some =>
    apply (Unnamed.eat "mixin").bind
    rintro (_ | mixinWord)
    · exact unnamed_containerOpening _
    · exact unnamed_containerOpening _
  apply (Unnamed.eat "namespace").bind
  rintro (_ | keyword)
  case some => exact unnamed_containerOpening _
  apply (Unnamed.eat "dictionary").bind
  rintro (_ | keyword)
  case some => exact unnamed_containerOpening _
  have others : Rule.Unnamed (do
      if let some keyword ← eat "enum" then
        return ← containerOpening (.enum keyword)
      if let some keyword ← eat "typedef" then
        return ← typedefOpening keyword
      if ← seesSecond (·.is "includes") then
        return ← includesOpening
      fail .unknownDefinition) := by
    apply (Unnamed.eat "enum").bind
    rintro (_ | keyword)
    case some => exact unnamed_containerOpening _
    apply (Unnamed.eat "typedef").bind
    rintro (_ | keyword)
    case some => exact unnamed_typedefOpening keyword
    apply (Unnamed.seesSecond _).bind
    intro seen
    exact .ite unnamed_includesOpening (.fail _)
  exact .ite ((Unnamed.fail _).bind fun _ => others) others

theorem unnamed_opening : opening.Unnamed := by
  apply (Unnamed.eat "callback").bind
  rintro (_ | word)
  case some =>
    apply (Unnamed.eat "interface").bind
    rintro (_ | keyword)
    · exact unnamed_callbackOpening word
    · exact unnamed_containerOpening _
  exact (Unnamed.eat "partial").bind unnamed_partialOpening

theorem unnamed_heading : heading.Unnamed := by
  apply unnamed_extAttrs.bind
  intro attrs
  exact unnamed_opening.bind fun _ => .pure _

theorem within_eq_error {α : Type} {phrase : String} {rule : Rule α} {before : List Token}
    {failure : Failure} : within phrase rule before = .error failure ↔
      ∃ inner, rule before = .error inner ∧ failure = { inner with since := some phrase } := by
  unfold within
  cases hrule : rule before with
  | ok result => simp
  | error inner => simp [eq_comm]

/-- The rule for definitions fails on the tokens: before a name has been read (`none`), or at what
follows the name in the definition that messages call so. -/
inductive Fails (before : List Token) : Failure → Option String → Prop where
  | unnamed {failure : Failure} : heading before = .error failure → Fails before failure none
  | named {failure : Failure} {h : Heading} {between : List Token} :
    heading before = .ok (h, between) → h.rest between = .error failure →
      Fails before { failure with since := some h.phrase } (some h.phrase)

/-- A definition that is not read fails in its heading or after it, and the failure says so. -/
theorem fails_of_definition {before : List Token} {failure : Failure}
    (hfail : definition before = .error failure) : Fails before failure failure.since := by
  rw [definition_eq] at hfail
  rcases bind_eq_error.mp hfail with hheading | ⟨h, between, hheading, hrest⟩
  · rw [unnamed_heading hheading]
    exact .unnamed hheading
  · obtain ⟨inner, hinner, rfl⟩ := within_eq_error.mp hrest
    exact .named hheading hinner

/-! ### Definitions that are read -/

/-- The rest of a definition is read into a form of the same name. -/
theorem Opening.rest_reads (opening : Opening) :
    opening.rest.Reads fun form _ => form.phrase = opening.phrase := by
  cases opening with
  | container head name =>
    apply (inheritance_reads head).bind
    intro parent _ _
    apply (body_reads head name).bind
    intro body _ _
    exact .pure rfl
  | typedef keyword type name =>
    apply (Reads.expect ";" _).bind
    intro semicolon _ _
    exact .pure rfl
  | callback keyword name =>
    apply (Reads.expect "=" _).bind
    intro assign _ _
    apply (idlType_reads _).bind
    intro result _ _
    apply (argumentList_reads _).bind
    intro arguments _ _
    apply (Reads.expect ";" _).bind
    intro semicolon _ _
    exact .pure rfl
  | includes name =>
    apply (Reads.expect "includes" _).bind
    intro keyword _ _
    apply (Reads.identifier _).bind
    intro mixin _ _
    apply (Reads.expect ";" _).bind
    intro semicolon _ _
    exact .pure rfl

/-- A definition that is read to its end is called as it was when its name had been read. -/
theorem exists_heading_of_definition {before after : List Token} {d : Definition}
    (hread : definition before = .ok (d, after)) :
    ∃ h between, heading before = .ok (h, between) ∧ d.form.phrase = h.phrase := by
  rw [definition_eq] at hread
  obtain ⟨h, between, hheading, hrest⟩ := bind_eq_ok_iff.mp hread
  have hphrase : h.rest.Reads fun d _ => d.form.phrase = h.phrase := by
    apply h.opening.rest_reads.bind
    intro form _ hform
    exact .pure hform
  obtain ⟨read, -, hd⟩ := (Reads.within h.phrase hphrase) hrest
  exact ⟨h, between, hheading, hd⟩

end WebIdl.Grammar
