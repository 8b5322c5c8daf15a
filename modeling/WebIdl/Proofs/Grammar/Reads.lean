import WebIdl.Grammar.Rule
import WebIdl.Proofs.Lexing

/-!
# What a rule reads

`Rule.Reads rule post` says that a rule that succeeds has read tokens off the front of those it was
given, and that what it gives and the tokens it read stand in the relation `post`. Nothing is said
of a rule that fails. A rule is opened along its steps: `Reads.bind` hands the relation that is
still to be met to the next step, `Reads.pure` closes it, and each of the basic rules has one lemma
that says which tokens it reads.
-/

namespace WebIdl.Grammar.Rule

variable {α β : Type}

/-- Where the rule succeeds, `post` relates what it gives to the tokens that it has read. -/
def Reads (rule : Rule α) (post : α → List Token → Prop) : Prop :=
  ∀ ⦃before : List Token⦄ ⦃a : α⦄ ⦃after : List Token⦄, rule before = .ok (a, after) →
    ∃ read, before = read ++ after ∧ post a read

theorem bind_eq_ok_iff {x : Rule α} {f : α → Rule β} {before after : List Token} {b : β} :
    (x >>= f) before = .ok (b, after) ↔
      ∃ a between, x before = .ok (a, between) ∧ f a between = .ok (b, after) := by
  change (x before >>= fun r => f r.1 r.2) = _ ↔ _
  cases hx : x before with
  | error failure => simp [bind, Except.bind]
  | ok r =>
    obtain ⟨a, between⟩ := r
    constructor
    · exact fun h => ⟨a, between, rfl, h⟩
    · rintro ⟨_, _, hr, h⟩
      obtain ⟨rfl, rfl⟩ := Prod.mk.inj (Except.ok.inj hr)
      exact h

namespace Reads

/-! ### Steps -/

theorem mono {rule : Rule α} {post post' : α → List Token → Prop} (h : rule.Reads post)
    (himp : ∀ a read, post a read → post' a read) : rule.Reads post' := by
  intro before a after hok
  obtain ⟨read, hread, hpost⟩ := h hok
  exact ⟨read, hread, himp a read hpost⟩

/-- What a rule reads is settled by what it leaves, so two relations hold of the same tokens. -/
theorem and {rule : Rule α} {post post' : α → List Token → Prop} (h : rule.Reads post)
    (h' : rule.Reads post') : rule.Reads fun a read => post a read ∧ post' a read := by
  intro before a after hok
  obtain ⟨read, rfl, hpost⟩ := h hok
  obtain ⟨read', hread, hpost'⟩ := h' hok
  obtain rfl := List.append_cancel_right hread
  exact ⟨read, rfl, hpost, hpost'⟩

theorem pure {a : α} {post : α → List Token → Prop} (h : post a []) :
    Reads (Pure.pure a : Rule α) post := by
  intro before b after hok
  obtain ⟨rfl, rfl⟩ := Prod.mk.inj (Except.ok.inj hok)
  exact ⟨[], rfl, h⟩

theorem bind {x : Rule α} {f : α → Rule β} {post : α → List Token → Prop}
    {post' : β → List Token → Prop} (hx : x.Reads post)
    (hf : ∀ a read, post a read → (f a).Reads fun b more => post' b (read ++ more)) :
    Reads (x >>= f) post' := by
  intro before b after hok
  obtain ⟨a, between, ha, hb⟩ := bind_eq_ok_iff.mp hok
  obtain ⟨read, rfl, hpost⟩ := hx ha
  obtain ⟨more, rfl, hpost'⟩ := hf a read hpost hb
  exact ⟨read ++ more, (List.append_assoc ..).symm, hpost'⟩

theorem map {x : Rule α} {f : α → β} {post : α → List Token → Prop}
    {post' : β → List Token → Prop} (hx : x.Reads post)
    (hf : ∀ a read, post a read → post' (f a) read) : Reads (f <$> x) post' := by
  rw [map_eq_pure_bind]
  exact hx.bind fun a read hpost => Reads.pure (by simpa using hf a read hpost)

theorem fail {cause : Cause} {post : α → List Token → Prop} : (fail cause : Rule α).Reads post := by
  intro before a after hok
  cases hok

theorem ite {c : Prop} [Decidable c] {x y : Rule α} {post : α → List Token → Prop}
    (hx : c → x.Reads post) (hy : ¬c → y.Reads post) : (if c then x else y).Reads post := by
  split
  · exact hx ‹c›
  · exact hy ‹¬c›

/-- What follows a check matters only where the check does not fail. -/
theorem guard {c : Prop} [Decidable c] {cause : Cause} {f : Unit → Rule α}
    {post : α → List Token → Prop} (h : ¬c → (f ()).Reads post) :
    (if c then Rule.fail cause >>= f else f ()).Reads post :=
  ite (fun _ => Reads.fail.bind fun _ _ (hfalse : False) => hfalse.elim) h

/-- A bound that is worked out from the tokens left does not matter to what is read. -/
theorem bounded {rule : Nat → Rule α} {post : α → List Token → Prop}
    (h : ∀ bound, (rule bound).Reads post) :
    Reads (fun rest => rule rest.length rest) post :=
  fun before _ _ hok => h before.length hok

theorem within {rule : Rule α} {post : α → List Token → Prop} (phrase : String)
    (h : rule.Reads post) : (within phrase rule).Reads post := by
  intro before a after hok
  unfold Rule.within at hok
  split at hok
  · rename_i result hrule
    obtain rfl := Except.ok.inj hok
    exact h hrule
  · cases hok

/-! ### Single tokens -/

theorem next? (f : Token → Option α) :
    (next? f).Reads fun a read =>
      (a = none ∧ read = []) ∨ ∃ token, f token = a ∧ a.isSome ∧ read = [token] := by
  intro before a after hok
  unfold Rule.next? at hok
  split at hok
  · obtain ⟨rfl, rfl⟩ := Prod.mk.inj (Except.ok.inj hok)
    exact ⟨[], rfl, .inl ⟨rfl, rfl⟩⟩
  · rename_i token rest
    split at hok
    · rename_i b hb
      obtain ⟨rfl, rfl⟩ := Prod.mk.inj (Except.ok.inj hok)
      exact ⟨[token], rfl, .inr ⟨token, hb, rfl, rfl⟩⟩
    · obtain ⟨rfl, rfl⟩ := Prod.mk.inj (Except.ok.inj hok)
      exact ⟨[], rfl, .inl ⟨rfl, rfl⟩⟩

theorem next (f : Token → Option α) (cause : Cause) :
    (next f cause).Reads fun a read => ∃ token, f token = some a ∧ read = [token] := by
  refine (Reads.next? f).bind ?_
  rintro (_ | a) read (⟨h, rfl⟩ | ⟨token, htoken, hsome, rfl⟩)
  · exact .fail
  · cases hsome
  · cases h
  · exact .pure ⟨token, htoken, rfl⟩

theorem eatIf (p : Token → Bool) :
    (eatIf p).Reads fun token read => read = token.toList ∧ ∀ t ∈ token, p t := by
  refine (Reads.next? _).mono ?_
  rintro a read (⟨rfl, rfl⟩ | ⟨token, htoken, hsome, rfl⟩)
  · exact ⟨rfl, nofun⟩
  · by_cases hp : p token
    · obtain rfl : some token = a := by simpa [hp] using htoken
      exact ⟨rfl, by simpa using hp⟩
    · obtain rfl : none = a := by simpa [hp] using htoken
      cases hsome

theorem eat (word : String) :
    (eat word).Reads fun token read => read = token.toList ∧ ∀ t ∈ token, t.is word :=
  eatIf _

theorem need (p : Token → Bool) (cause : Cause) :
    (need p cause).Reads fun token read => read = [token] ∧ p token := by
  refine (Reads.next _ cause).mono ?_
  rintro a read ⟨token, htoken, rfl⟩
  by_cases hp : p token
  · obtain rfl : token = a := by simpa [hp] using htoken
    exact ⟨rfl, hp⟩
  · simp [hp] at htoken

theorem expect (word : String) (cause : Cause) :
    (expect word cause).Reads fun token read => read = [token] ∧ token.is word :=
  need _ cause

theorem identifier (cause : Cause) :
    (identifier cause).Reads fun token read => read = [token] ∧ token.kind = .identifier :=
  (need _ cause).mono fun _ _ h => ⟨h.1, by simpa using h.2⟩

theorem sees (p : Token → Bool) : (sees p).Reads fun _ read => read = [] := by
  intro before a after hok
  obtain ⟨-, rfl⟩ := Prod.mk.inj (Except.ok.inj hok)
  exact ⟨[], rfl, rfl⟩

theorem seesSecond (p : Token → Bool) : (seesSecond p).Reads fun _ read => read = [] := by
  intro before a after hok
  obtain ⟨-, rfl⟩ := Prod.mk.inj (Except.ok.inj hok)
  exact ⟨[], rfl, rfl⟩

theorem eatPair (p q : Token → Bool) :
    (eatPair p q).Reads fun pair read =>
      (read = pair.elim [] fun (first, second) => [first, second]) ∧
        ∀ tokens ∈ pair, p tokens.1 ∧ q tokens.2 := by
  intro before a after hok
  unfold Rule.eatPair at hok
  split at hok
  · split at hok
    · rename_i hboth
      obtain ⟨rfl, rfl⟩ := Prod.mk.inj (Except.ok.inj hok)
      exact ⟨_, rfl, rfl, by simpa using hboth⟩
    · obtain ⟨rfl, rfl⟩ := Prod.mk.inj (Except.ok.inj hok)
      exact ⟨[], rfl, rfl, nofun⟩
  · obtain ⟨rfl, rfl⟩ := Prod.mk.inj (Except.ok.inj hok)
    exact ⟨[], rfl, rfl, nofun⟩

theorem eatBefore (p q : Token → Bool) :
    (eatBefore p q).Reads fun token read => read = token.toList ∧ ∀ t ∈ token, p t := by
  intro before a after hok
  unfold Rule.eatBefore at hok
  split at hok
  · split at hok
    · rename_i hboth
      obtain ⟨rfl, rfl⟩ := Prod.mk.inj (Except.ok.inj hok)
      obtain ⟨hfirst, -⟩ := Bool.and_eq_true_iff.mp hboth
      exact ⟨[_], rfl, rfl, by simpa using hfirst⟩
    · obtain ⟨rfl, rfl⟩ := Prod.mk.inj (Except.ok.inj hok)
      exact ⟨[], rfl, rfl, nofun⟩
  · obtain ⟨rfl, rfl⟩ := Prod.mk.inj (Except.ok.inj hok)
    exact ⟨[], rfl, rfl, nofun⟩

/-! ### Repetition -/

theorem separated {item : Rule α} {ofItem : α → List Token} (word : String)
    (h : item.Reads fun a read => read = ofItem a) :
    (separated item word).Reads fun items read => read = items.tokens ofItem := by
  refine bounded fun bound => ?_
  induction bound with
  | zero => exact h.bind fun a read hread => .pure (by simp [hread, Separated.tokens])
  | succ bound ih =>
    refine h.bind fun a _ ha => (Reads.eat word).bind ?_
    rintro (_ | separator) _ ⟨rfl, -⟩
    · exact .pure (by simp [ha, Separated.tokens])
    · exact ih.bind fun items _ hitems => .pure (by simp [ha, hitems, Separated.tokens])

theorem repeated {item : Rule α} {ofItem : α → List Token} {P : α → Prop} (stop : Token → Bool)
    (h : item.Reads fun a read => read = ofItem a ∧ P a) :
    (repeated item stop).Reads fun items read =>
      read = items.flatMap ofItem ∧ ∀ a ∈ items, P a := by
  refine bounded fun bound => ?_
  induction bound with
  | zero => exact .pure ⟨rfl, nofun⟩
  | succ bound ih =>
    have more : (do return (← item) :: (← repeatedUpTo item stop bound) : Rule (List α)).Reads
        fun items read => read = items.flatMap ofItem ∧ ∀ a ∈ items, P a := by
      refine h.bind fun a _ ⟨ha, hp⟩ => ih.bind fun items _ ⟨hitems, hall⟩ => .pure ⟨?_, ?_⟩
      · simp [ha, hitems]
      · simpa using ⟨hp, hall⟩
    intro before items after hok
    unfold repeatedUpTo at hok
    split at hok
    · obtain ⟨rfl, rfl⟩ := Prod.mk.inj (Except.ok.inj hok)
      exact ⟨[], rfl, rfl, nofun⟩
    · split at hok
      · obtain ⟨rfl, rfl⟩ := Prod.mk.inj (Except.ok.inj hok)
        exact ⟨[], rfl, rfl, nofun⟩
      · exact more hok

end Reads

end WebIdl.Grammar.Rule
