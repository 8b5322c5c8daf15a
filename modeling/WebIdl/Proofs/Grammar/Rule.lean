import WebIdl.Grammar.Rule

/-!
# What the rules give on tokens that are known

The steps of a rule one by one, on token lists whose first tokens are at hand.

* `Rule.bind_of_ok`, `Rule.bind_eq_error` — a rule goes on from where its first step ends, and fails
  where one of its steps does.
* `Rule.Unseen` — the next token is not the word that is looked for.
* `Rule.eat_of_is`, `Rule.eat_of_unseen` and their likes — what the rules for single tokens give.
-/

namespace WebIdl.Grammar.Rule

variable {α β : Type} {before between rest : List Token}

/-! ### Steps -/

theorem bind_of_ok {x : Rule α} {g : α → Rule β} {a : α} (h : x before = .ok (a, between)) :
    (x >>= g) before = g a between := by
  change (x before >>= fun r => g r.1 r.2) = _
  rw [h]
  rfl

theorem map_of_ok {x : Rule α} {f : α → β} {a : α} (h : x before = .ok (a, rest)) :
    (f <$> x) before = .ok (f a, rest) := by
  change (x before >>= fun r => pure (f r.1, r.2)) = _
  rw [h]
  rfl

theorem bind_eq_error {x : Rule α} {g : α → Rule β} {failure : Failure} :
    (x >>= g) before = .error failure ↔
      x before = .error failure ∨
        ∃ a between, x before = .ok (a, between) ∧ g a between = .error failure := by
  change (x before >>= fun r => g r.1 r.2) = _ ↔ _
  cases hx : x before with
  | error failure' => simp [bind, Except.bind]
  | ok r =>
    constructor
    · exact fun h => .inr ⟨r.1, r.2, rfl, h⟩
    · rintro (h | ⟨_, _, hr, h⟩)
      · cases h
      · obtain ⟨rfl, rfl⟩ := Prod.mk.inj (Except.ok.inj hr)
        exact h

theorem within_of_ok {x : Rule α} {a : α} {phrase : String} (h : x before = .ok (a, rest)) :
    within phrase x before = .ok (a, rest) := by
  rw [within, h]

/-! ### Single tokens -/

section Tokens

variable {token second : Token} {word : String} {cause : Cause} {p q : Token → Bool}

/-- The next token, if there is one, is not `word`. -/
def Unseen (word : String) (tokens : List Token) : Prop :=
  ∀ token ∈ tokens.head?, token.is word = false

theorem unseen_cons : Unseen word (token :: rest) ↔ token.is word = false := by
  simp [Unseen]

theorem next?_of_some {h : Token → Option α} {a : α} (ha : h token = some a) :
    next? h (token :: rest) = .ok (some a, rest) := by
  simp [next?, ha]

theorem next?_of_none {h : Token → Option α} (hnone : h token = none) :
    next? h (token :: rest) = .ok (none, token :: rest) := by
  simp [next?, hnone]

theorem next_of_some {h : Token → Option α} {a : α} (ha : h token = some a) :
    next h cause (token :: rest) = .ok (a, rest) :=
  (bind_of_ok (next?_of_some ha)).trans rfl

theorem eatIf_of_true (h : p token) : eatIf p (token :: rest) = .ok (some token, rest) :=
  next?_of_some (by simp [h])

theorem eatIf_of_false (h : ∀ token ∈ rest.head?, p token = false) :
    eatIf p rest = .ok (none, rest) := by
  cases rest with
  | nil => rfl
  | cons token rest => exact next?_of_none (by simp [h token rfl])

theorem eat_of_is (h : token.is word) : eat word (token :: rest) = .ok (some token, rest) :=
  eatIf_of_true h

theorem eat_of_unseen (h : Unseen word rest) : eat word rest = .ok (none, rest) := eatIf_of_false h

theorem need_of_true (h : p token) : need p cause (token :: rest) = .ok (token, rest) :=
  next_of_some (by simp [h])

theorem expect_of_is (h : token.is word) : expect word cause (token :: rest) = .ok (token, rest) :=
  need_of_true h

theorem identifier_of_kind (h : token.kind = .identifier) :
    identifier cause (token :: rest) = .ok (token, rest) :=
  need_of_true (by simp [h])

theorem sees_of_unseen (h : Unseen word rest) : sees (·.is word) rest = .ok (false, rest) := by
  cases rest with
  | nil => rfl
  | cons token rest => simp [sees, unseen_cons.mp h]

theorem sees_of_true (h : p token) : sees p (token :: rest) = .ok (true, token :: rest) := by
  simp [sees, h]

theorem seesSecond_of_true (h : p second) :
    seesSecond p (token :: second :: rest) = .ok (true, token :: second :: rest) := by
  simp [seesSecond, h]

theorem eatPair_of_true (hp : p token) (hq : q second) :
    eatPair p q (token :: second :: rest) = .ok (some (token, second), rest) := by
  simp [eatPair, hp, hq]

theorem eatPair_of_false (h : ∀ token ∈ rest.head?, p token = false) :
    eatPair p q rest = .ok (none, rest) := by
  rcases rest with _ | ⟨token, _ | ⟨second, rest⟩⟩
  · rfl
  · rfl
  · simp [eatPair, h token rfl]

theorem eatPair_of_second (h : ∀ token ∈ rest.head?, q token = false) :
    eatPair p q (token :: rest) = .ok (none, token :: rest) := by
  cases rest with
  | nil => rfl
  | cons second rest => simp [eatPair, h second rfl]

theorem eatBefore_of_true (hp : p token) (hq : q second) :
    eatBefore p q (token :: second :: rest) = .ok (some token, second :: rest) := by
  simp [eatBefore, hp, hq]

theorem eatBefore_of_false (h : ∀ token ∈ rest.head?, p token = false) :
    eatBefore p q rest = .ok (none, rest) := by
  rcases rest with _ | ⟨token, _ | ⟨second, rest⟩⟩
  · rfl
  · rfl
  · simp [eatBefore, h token rfl]

end Tokens

/-! ### Repetition -/

theorem repeatedUpTo_nil (x : Rule α) (stop : Token → Bool) (bound : Nat) :
    repeatedUpTo x stop bound [] = .ok ([], []) := by
  cases bound <;> rfl

/-- Repetition with the look at the next token as a step of its own. -/
theorem repeatedUpTo_succ (x : Rule α) (stop : Token → Bool) (bound : Nat) :
    repeatedUpTo x stop (bound + 1) = do
      if ← sees (!stop ·) then return (← x) :: (← repeatedUpTo x stop bound)
      else return [] := by
  funext rest
  rw [repeatedUpTo]
  rcases rest with _ | ⟨token, rest⟩
  · rfl
  · by_cases hstop : stop token
    · simp [bind_of_ok (x := sees _) rfl, hstop]
      rfl
    · simp [bind_of_ok (x := sees _) rfl, hstop]

end WebIdl.Grammar.Rule
