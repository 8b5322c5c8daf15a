import WebIdl.Grammar.Definition
import WebIdl.Proofs.Grammar.Parallel.Nested

/-!
# Members and definitions on tokens that look the same

Each rule for a member or a definition is followed along its steps.

* `definition_parallel` — a definition that can be read off some tokens can be read off any others
  that look the same, and is the same up to what is forgotten of them. It ends with a semicolon, and
  nothing after that is looked at.
-/

namespace WebIdl.Grammar

open Rule

variable {f : Token → Token} {n n' : Nat}

/-! ### Members of interfaces, mixins and namespaces -/

section Members

variable (hf : Token.Keeps f) {t u : Token} {ts us : List Token}

include hf

theorem constructorForm_parallel (h : f t = f u) :
    Parallel f n n' 1 0 (Member.Form.mapTokens f) (constructorForm t) (constructorForm u) := by
  refine (argumentList_parallel hf _ _).bind (by decide) fun args args' hargs => ?_
  refine (Parallel.expect hf).bind (by decide) fun s s' hs => ?_
  exact .pure (by simp [Member.Form.mapTokens, h, hargs, hs])

theorem attributeForm_parallel (hwords : ts.map f = us.map f) (h : f t = f u) :
    Parallel f n n' 1 0 (Member.Form.mapTokens f) (attributeForm ts t) (attributeForm us u) := by
  refine .atLeast 3 (by decide) ?_
  refine (idlType_parallel hf _ _).bind (by decide) fun type type' htype => ?_
  refine (Parallel.identifier hf).bind (by decide) fun name name' hname => ?_
  refine (Parallel.expect hf).bind (by decide) fun s s' hs => ?_
  exact .pure (by simp [Member.Form.mapTokens, hwords, h, htype, hname, hs])

theorem operationForm_parallel (hwords : ts.map f = us.map f) :
    Parallel f n n' 2 0 (Member.Form.mapTokens f) (operationForm ts) (operationForm us) := by
  refine .atLeast 4 (by decide) ?_
  refine (idlType_parallel hf _ _).bind (by decide) fun type type' htype => ?_
  have rest {name name' : Option Token} (hname : name.map f = name'.map f) {p p' : Nat} :
      Parallel f p p' 3 0 (Member.Form.mapTokens f)
        (do
          let arguments ← argumentList .operationNoArguments
          return .operation ts type name arguments (← expect ";" .operationUnended))
        (do
          let arguments ← argumentList .operationNoArguments
          return .operation us type' name' arguments (← expect ";" .operationUnended)) := by
    refine (argumentList_parallel hf _ _).bind (by decide) fun args args' hargs => ?_
    refine (Parallel.expect hf).bind (by decide) fun s s' hs => ?_
    exact .pure (by simp [Member.Form.mapTokens, hwords, htype, hname, hargs, hs])
  refine .eatIf (fun t u htu => by rw [hf.kind_eq htu]) (by decide) (fun t u htu => ?_) (rest rfl)
  exact (rest (by simp [htu])).weaken (by decide) (by decide)

theorem constantForm_parallel (h : f t = f u) :
    Parallel f n n' 1 0 (Member.Form.mapTokens f) (constantForm t) (constantForm u) := by
  refine .atLeast 5 (by decide) ?_
  refine (idlType_parallel hf _ _).bind (by decide) fun type type' htype => ?_
  refine (Parallel.identifier hf).bind (by decide) fun name name' hname => ?_
  refine (Parallel.expect hf).bind (by decide) fun a a' ha => ?_
  refine (literal_parallel hf _ _).bind (by decide) fun value value' hvalue => ?_
  refine (Parallel.expect hf).bind (by decide) fun s s' hs => ?_
  exact .pure (by simp [Member.Form.mapTokens, h, htype, hname, ha, hvalue, hs])

theorem ofDeclaration_eq (hwords : ts.map f = us.map f) (h : f t = f u) :
    Member.Kind.ofDeclaration ts t = Member.Kind.ofDeclaration us u := by
  have hany : ts.any (·.text == "async") = us.any (·.text == "async") := by
    have := congrArg (List.any · (·.text == "async")) hwords
    simpa [List.any_map, Function.comp_def, hf.text] using this
  rw [Member.Kind.ofDeclaration, Member.Kind.ofDeclaration, hf.text_eq h, hany]

theorem declarationForm_parallel (hwords : ts.map f = us.map f) (h : f t = f u) :
    Parallel f n n' 1 0 (Member.Form.mapTokens f) (declarationForm ts t)
      (declarationForm us u) := by
  unfold declarationForm
  rw [ofDeclaration_eq hf hwords h]
  refine .atLeast 4 (by decide) ?_
  refine (Parallel.expect hf).bind (by decide) fun o o' ho => ?_
  refine (Parallel.separated hf (idlType_parallel hf _ _)).bind (by decide) ?_
  intro types types' htypes
  have hcount : types.items.length = types'.items.length := by
    simpa using congrArg (·.items.length) htypes
  refine .ite (by rw [hcount]) .fail_bind ?_
  refine (Parallel.expect hf).bind (by decide) fun c c' hc => ?_
  have ended {args args' : Option ArgumentList}
      (hargs : args.map (·.mapTokens f) = args'.map (·.mapTokens f)) {p p' : Nat} :
      Parallel f p p' 1 0 (Member.Form.mapTokens f)
        (do return Member.Form.declaration ts t o types c args
              (← expect ";" (.declarationUnended t.text)))
        (do return Member.Form.declaration us u o' types' c' args'
              (← expect ";" (.declarationUnended u.text))) := by
    refine (Parallel.expect hf).bind (by decide) fun s s' hs => ?_
    exact .pure (by simp [Member.Form.mapTokens, mapTypes_eq, hwords, h, ho, htypes, hc, hargs, hs])
  refine .sees (fun _ _ htu => hf.is_eq htu _) (by decide) fun seen => ?_
  refine .ite Iff.rfl ?_ (ended rfl)
  have arguments {p p' : Nat} : Parallel f p p' 2 0 (Option.map (ArgumentList.mapTokens f))
      (some <$> argumentList .declarationNoArguments)
      (some <$> argumentList .declarationNoArguments) :=
    (argumentList_parallel hf _ _).map fun args args' hargs => congrArg some hargs
  exact arguments.bind (by decide) fun args args' hargs =>
    (ended hargs).weaken (by decide) (by decide)

theorem modifiers_parallel : Parallel f n n' 0 1 (List.map f) modifiers modifiers := by
  refine (Parallel.word hf).bind (by decide) fun a a' ha => ?_
  refine (Parallel.word hf).bind (by decide) fun b b' hb => ?_
  refine (Parallel.word hf).bind (by decide) fun c c' hc => ?_
  refine (Parallel.word hf).bind (by decide) fun d d' hd => ?_
  exact .pure (by simp [ha, hb, hc, hd, ← Option.toList_map])

theorem specialWord_parallel : Parallel f n n' 0 1 (List.map f) specialWord specialWord := by
  refine .eatIf (fun t u htu => ?_) (by decide) (fun t u htu => .pure (by simp [htu])) (.pure rfl)
  rw [hf.is_eq htu, hf.is_eq htu, hf.is_eq htu]

theorem modifiedMember_parallel (container : Definition.Kind) :
    Parallel f n n' 2 0 (Member.Form.mapTokens f) (modifiedMember container)
      (modifiedMember container) := by
  refine (modifiers_parallel hf).bind (by decide) fun words words' hwords => ?_
  refine .eat hf (by decide) (fun t u htu => attributeForm_parallel hf hwords htu) ?_
  have hread : (words.any fun t => t.text == "readonly" || t.text == "inherit") =
      words'.any fun t => t.text == "readonly" || t.text == "inherit" := by
    have := congrArg (List.any · fun t => t.text == "readonly" || t.text == "inherit") hwords
    simpa [List.any_map, Function.comp_def, hf.text] using this
  have hempty : words.isEmpty = words'.isEmpty := by
    have := congrArg List.isEmpty hwords
    simpa using this
  refine .ite (by rw [hread]) .fail_bind
    (.ite (by rw [hempty]) ?_ (operationForm_parallel hf hwords))
  exact (specialWord_parallel hf).bind (by decide) fun _ _ hword => operationForm_parallel hf hword

theorem interfaceMemberForm_parallel (container : Definition.Kind) :
    Parallel f n n' 2 0 (Member.Form.mapTokens f) (interfaceMemberForm container)
      (interfaceMemberForm container) := by
  have hmap (t u : Token) (h : f t = f u) :
      (t.is "maplike" || t.is "setlike") = (u.is "maplike" || u.is "setlike") := by
    rw [hf.is_eq h, hf.is_eq h]
  have hdeclaration (t u : Token) (h : f t = f u) :
      (t.is "iterable" || t.is "maplike" || t.is "setlike") =
        (u.is "iterable" || u.is "maplike" || u.is "setlike") := by
    rw [hf.is_eq h, Bool.or_assoc, hmap t u h, ← Bool.or_assoc]
  refine .eat hf (by decide) (fun t u h => constantForm_parallel hf h) ?_
  refine .eatBefore (fun _ _ h => hf.is_eq h _) (fun _ _ h => hf.is_eq h _) (by decide)
    (fun t u h => constructorForm_parallel hf h) ?_
  refine .eatPair (fun _ _ h => hf.is_eq h _) (fun _ _ h => hf.is_eq h _) (by decide)
    (fun t s u r h h' => .pure (by simp [Member.Form.mapTokens, h, h'])) ?_
  refine .eatIf hdeclaration (by decide) (fun t u h => declarationForm_parallel hf rfl h) ?_
  refine .eatPair (fun _ _ h => hf.is_eq h _) (fun _ _ h => hf.is_eq h _) (by decide) ?_ ?_
  · intro t s u r h h'
    exact (declarationForm_parallel hf (by simp [h]) h').weaken (by decide) (by decide)
  refine .eatPair (fun _ _ h => hf.is_eq h _) hmap (by decide) ?_ ?_
  · intro t s u r h h'
    exact (declarationForm_parallel hf (by simp [h]) h').weaken (by decide) (by decide)
  exact modifiedMember_parallel hf container

theorem interfaceMember_parallel (container : Definition.Kind) (scope : String) :
    Parallel f n n' 1 1 (Member.mapTokens f) (interfaceMember container scope)
      (interfaceMember container scope) := by
  refine (extAttrs_parallel hf).bind (by decide) fun attrs attrs' hattrs => ?_
  refine ((interfaceMemberForm_parallel hf container).weaken (k := 1) (by decide)
    (Nat.le_refl _)).bind
    (by decide) fun form form' hform => ?_
  exact .pure (by simp [Member.mapTokens, hattrs, hform])

/-! ### Fields and enumeration values -/

theorem field_parallel (scope : String) :
    Parallel f n n' 1 1 (Member.mapTokens f) (field scope) (field scope) := by
  refine (extAttrs_parallel hf).bind (by decide) fun attrs attrs' hattrs => ?_
  refine (Parallel.word hf).bind (by decide) fun required required' hrequired => ?_
  refine (idlType_parallel hf _ _).bind (by decide) fun type type' htype => ?_
  refine (Parallel.identifier hf).bind (by decide) fun name name' hname => ?_
  refine (default?_parallel hf).bind (by decide) fun d d' hd => ?_
  have hsome : required.isSome = required'.isSome := by simpa using congrArg Option.isSome hrequired
  have hsome' : d.isSome = d'.isSome := by simpa using congrArg Option.isSome hd
  refine .ite (by rw [hsome, hsome']) .fail_bind ?_
  refine (Parallel.expect hf).bind (by decide) fun s s' hs => ?_
  exact .pure (by
    simp [Member.mapTokens, Member.Form.mapTokens, hattrs, hrequired, htype, hname, hd, hs])

omit hf in
theorem enumValuesUpTo_nil (scope : String) (bound : Nat) :
    enumValuesUpTo scope bound [] = .ok ([], []) := by
  cases bound <;> rfl

theorem enumValuesUpTo_parallel (scope : String) {b b' : Nat} (hb : n ≤ b) (hb' : n' ≤ b') :
    Parallel f n n' 0 1 (List.map (Member.mapTokens f)) (enumValuesUpTo scope b)
      (enumValuesUpTo scope b') := by
  induction b generalizing n n' b' with
  | zero =>
    have hnone : Parallel f n n' 0 1 (List.map (Member.mapTokens f)) (enumValuesUpTo scope 0)
        (enumValuesUpTo scope 0) := .pure rfl
    exact hnone.of_nil (.inl (by omega)) rfl (enumValuesUpTo_nil ..) rfl
  | succ b ih =>
    have more (b' : Nat) (hb' : n' ≤ b' + 1) : Parallel f n n' 0 1 (List.map (Member.mapTokens f))
        (enumValuesUpTo scope (b + 1)) (enumValuesUpTo scope (b' + 1)) := by
      refine .eatIf (fun t u h => by rw [hf.kind_eq h]) (by decide) (fun t u htu => ?_) (.pure rfl)
      refine .eat hf (by decide) (fun s s' hs => ?_) ?_
      · refine (@ih _ _ b' (by omega) (by omega)).bind (by decide)
          fun values values' hvalues => ?_
        exact .pure (by simp [Member.mapTokens, Member.Form.mapTokens, htu, hs, hvalues])
      · exact .pure (by simp [Member.mapTokens, Member.Form.mapTokens, htu])
    cases b' with
    | zero =>
      exact (more b (by omega)).of_nil (.inr (by omega)) (enumValuesUpTo_nil ..) rfl rfl
    | succ b' => exact more b' hb'

theorem enumValues_parallel (scope : String) :
    Parallel f n n' 0 1 (List.map (Member.mapTokens f)) (enumValues scope) (enumValues scope) := by
  have values : Parallel f n n' 0 1 (List.map (Member.mapTokens f))
      (fun rest => enumValuesUpTo scope rest.length rest)
      (fun rest => enumValuesUpTo scope rest.length rest) :=
    .bounded fun _ _ _ _ => enumValuesUpTo_parallel hf scope (Nat.le_refl _) (Nat.le_refl _)
  refine values.bind (by decide) fun list list' hlist => ?_
  have hempty : list.isEmpty = list'.isEmpty := by simpa using congrArg List.isEmpty hlist
  exact .ite (by rw [hempty]) .fail_bind (.pure hlist)

/-! ### Members in braces -/

theorem members_parallel (container : Definition.Kind) (scope : String) :
    Parallel f n n' 0 1 (List.map (Member.mapTokens f)) (members container scope)
      (members container scope) := by
  unfold members
  split
  · exact enumValues_parallel hf scope
  · exact .repeated (fun _ _ h => hf.is_eq h _) (field_parallel hf scope)
  · exact .repeated (fun _ _ h => hf.is_eq h _) (interfaceMember_parallel hf _ scope)

end Members

/-! ### Definitions -/

section Definitions

open Definition

variable (hf : Token.Keeps f) {head head' : Head} (hhead : head.mapTokens f = head'.mapTokens f)
  {t u : Token} (h : f t = f u)

theorem kind_eq_of_mapTokens {head head' : Head} (hhead : head.mapTokens f = head'.mapTokens f) :
    head.kind = head'.kind := by
  simpa using congrArg Head.kind hhead

include hf

include hhead in
theorem inheritance_parallel :
    Parallel f n n' 0 1 (Option.map (Inheritance.mapTokens f)) (inheritance head)
      (inheritance head') := by
  have hpartial : head.isPartial = head'.isPartial := by
    simpa using congrArg Head.isPartial hhead
  refine .ite (by rw [hpartial, kind_eq_of_mapTokens hhead]) (.pure rfl) ?_
  refine .eat hf (by decide) (fun t u htu => ?_) (.pure rfl)
  refine (Parallel.identifier hf).bind (by decide) fun name name' hname => ?_
  exact .pure (by simp [Inheritance.mapTokens, htu, hname])

include hhead h in
theorem body_parallel :
    Parallel f n n' 3 0 (Body.mapTokens f) (body head t) (body head' u) := by
  unfold body
  rw [kind_eq_of_mapTokens hhead, hf.name_eq h]
  refine (Parallel.expect hf).bind (by decide) fun o o' ho => ?_
  refine (members_parallel hf _ _).bind (by decide) fun list list' hlist => ?_
  refine (Parallel.expect hf).bind (by decide) fun c c' hc => ?_
  refine (Parallel.expect hf).bind (by decide) fun s s' hs => ?_
  exact .pure (by simp [Body.mapTokens, ho, hlist, hc, hs])

include hhead in
theorem container_parallel :
    Parallel f n n' 1 0 (Form.mapTokens f) (container head) (container head') := by
  refine .atLeast 4 (by decide) ?_
  refine (Parallel.identifier hf).bind (by decide) fun name name' hname => .within ?_
  refine (inheritance_parallel hf hhead).bind (by decide) fun parent parent' hparent => ?_
  refine (body_parallel hf hhead hname).bind (by decide) fun b b' hb => ?_
  exact .pure (by simp [Form.mapTokens, hhead, hname, hparent, hb])

include h

theorem typedef_parallel :
    Parallel f n n' 1 0 (Form.mapTokens f) (typedef t) (typedef u) := by
  refine .atLeast 3 (by decide) ?_
  refine (idlType_parallel hf _ _).bind (by decide) fun type type' htype => ?_
  refine (Parallel.identifier hf).bind (by decide) fun name name' hname => .within ?_
  refine (Parallel.expect hf).bind (by decide) fun s s' hs => ?_
  exact .pure (by simp [Form.mapTokens, h, htype, hname, hs])

theorem callback_parallel :
    Parallel f n n' 1 0 (Form.mapTokens f) (callback t) (callback u) := by
  refine .atLeast 6 (by decide) ?_
  refine (Parallel.identifier hf).bind (by decide) fun name name' hname => .within ?_
  refine (Parallel.expect hf).bind (by decide) fun a a' ha => ?_
  refine (idlType_parallel hf _ _).bind (by decide) fun type type' htype => ?_
  refine (argumentList_parallel hf _ _).bind (by decide) fun args args' hargs => ?_
  refine (Parallel.expect hf).bind (by decide) fun s s' hs => ?_
  exact .pure (by simp [Form.mapTokens, h, hname, ha, htype, hargs, hs])

omit h

theorem includes_parallel : Parallel f n n' 4 0 (Form.mapTokens f) includes includes := by
  refine (Parallel.identifier hf).bind (by decide) fun name name' hname => .within ?_
  refine (Parallel.expect hf).bind (by decide) fun w w' hw => ?_
  refine (Parallel.identifier hf).bind (by decide) fun mixin mixin' hmixin => ?_
  refine (Parallel.expect hf).bind (by decide) fun s s' hs => ?_
  exact .pure (by simp [Form.mapTokens, hname, hw, hmixin, hs])

theorem partialForm_parallel {word word' : Option Token} (hword : word.map f = word'.map f) :
    Parallel f n n' 1 0 (Form.mapTokens f) (partialForm word) (partialForm word') := by
  refine .atLeast 2 (by decide) ?_
  refine .eat hf (by decide) (fun t u htu => ?_) ?_
  · refine .eat hf (by decide) (fun s s' hs => ?_) ?_
    · exact (container_parallel hf (by simp [Head.mapTokens, hword, htu, hs])).weaken (by decide)
        (by decide)
    · exact container_parallel hf (by simp [Head.mapTokens, hword, htu])
  refine .eat hf (by decide) (fun t u htu => ?_) ?_
  · exact container_parallel hf (by simp [Head.mapTokens, hword, htu])
  refine .eat hf (by decide) (fun t u htu => ?_) ?_
  · exact container_parallel hf (by simp [Head.mapTokens, hword, htu])
  have hpartial : word.isSome = word'.isSome := by simpa using congrArg Option.isSome hword
  refine .ite (by rw [hpartial]) .fail_bind ?_
  refine .eat hf (by decide) (fun t u htu => ?_) ?_
  · exact container_parallel hf (by simp [Head.mapTokens, htu])
  refine .eat hf (by decide) (fun t u htu => typedef_parallel hf htu) ?_
  refine .seesSecond (fun _ _ htu => hf.is_eq htu _) (by decide) fun seen => ?_
  exact .ite Iff.rfl ((includes_parallel hf).weaken (by decide) (by decide)) .fail

theorem definitionForm_parallel :
    Parallel f n n' 1 0 (Form.mapTokens f) definitionForm definitionForm := by
  refine .eat hf (by decide) (fun t u htu => ?_) ?_
  · refine .atLeast 1 (by decide) ?_
    refine .eat hf (by decide) (fun s s' hs => ?_) (callback_parallel hf htu)
    exact (container_parallel hf (by simp [Head.mapTokens, htu, hs])).weaken (by decide) (by decide)
  exact (Parallel.word hf).bind (by decide) fun word word' hword => partialForm_parallel hf hword

/-- Nothing after a definition is looked at. -/
theorem definition_parallel :
    Parallel f n n' 1 0 (Definition.mapTokens f) definition definition := by
  refine (extAttrs_parallel hf).bind (by decide) fun attrs attrs' hattrs => ?_
  refine (definitionForm_parallel hf).bind (by decide) fun form form' hform => ?_
  exact .pure (by simp [Definition.mapTokens, hattrs, hform])

end Definitions

end WebIdl.Grammar
