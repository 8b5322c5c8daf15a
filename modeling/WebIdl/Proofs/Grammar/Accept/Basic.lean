import WebIdl.Proofs.Grammar.Rule
import WebIdl.Proofs.Syntax.WellFormed

/-!
# Reading back what is well-formed

A token that is in its place is none of the words that the grammar looks for there and that it is
not. With that, lists of items are read back item by item, as soon as the rule for an item reads
back each of them.

* `Token.isMark_is`, `Token.isName_is` and their likes — which words a token is, or is not.
* `Rule.separated_accepts`, `Rule.repeated_accepts` — lists are read back, whatever follows them
  that does not go on with them.
-/

namespace WebIdl

/-! ### The words a token is -/

namespace Token

variable {token : Token} {word other : String}

theorem is_of_isMark (h : token.isMark word) : token.is word := by
  simp only [isMark, Bool.and_eq_true, beq_iff_eq] at h
  simp [Token.is, h]

theorem is_of_isWord (h : token.isWord word) : token.is word := by
  simp only [isWord, Bool.and_eq_true, beq_iff_eq] at h
  simp [Token.is, h]

/-- A token is one word at most. -/
theorem is_eq_false_of_is (h : token.is word) (hne : word ≠ other) : token.is other = false := by
  simp [Token.is, text_of_is h, hne]

theorem isMark_is (h : token.isMark word) (hne : word ≠ other) : token.is other = false :=
  is_eq_false_of_is (is_of_isMark h) hne

theorem isWord_is (h : token.isWord word) (hne : word ≠ other) : token.is other = false :=
  is_eq_false_of_is (is_of_isWord h) hne

theorem kind_of_isWord (h : token.isWord word) : token.kind = .identifier := by
  simpa using (Bool.and_eq_true_iff.mp h).1

theorem kind_of_isMark (h : token.isMark word) : token.kind = .punctuation := by
  simpa using (Bool.and_eq_true_iff.mp h).1

theorem isPlain_is (h : token.isPlain) (hmark : word ∈ marks) : token.is word = false := by
  simp only [isPlain, Bool.or_eq_true, beq_iff_eq, Bool.not_eq_true', List.contains_eq_mem,
    decide_eq_false_iff_not] at h
  rcases h with h | h
  · simp [Token.is, h]
  · have hne : token.text ≠ word := fun heq => h (heq ▸ hmark)
    simp [Token.is, hne]

theorem kind_of_isName (h : token.isName) : token.kind = .identifier := by
  simp only [isName, Bool.and_eq_true, beq_iff_eq] at h
  exact h.1.1

theorem text_ne_of_isName (h : token.isName) (hword : word ∈ keywords) : token.text ≠ word := by
  simp only [isName, Bool.and_eq_true, Bool.not_eq_true', List.contains_eq_mem,
    decide_eq_false_iff_not] at h
  exact fun heq => h.2 (heq ▸ hword)

theorem isName_is (h : token.isName) (hword : word ∈ marks ++ keywords) :
    token.is word = false := by
  rcases List.mem_append.mp hword with hmark | hkeyword
  · simp only [isName, Bool.and_eq_true] at h
    exact isPlain_is h.1.2 hmark
  · simp [Token.is, text_ne_of_isName h hkeyword]

end Token

namespace Grammar.Rule

variable {token : Token} {rest : List Token} {word other : String}

theorem unseen_of_isMark (h : token.isMark word) (hne : word ≠ other) :
    Unseen other (token :: rest) :=
  unseen_cons.mpr (Token.isMark_is h hne)

theorem unseen_of_isWord (h : token.isWord word) (hne : word ≠ other) :
    Unseen other (token :: rest) :=
  unseen_cons.mpr (Token.isWord_is h hne)

theorem unseen_of_isPlain (h : token.isPlain) (hmark : word ∈ Token.marks) :
    Unseen word (token :: rest) :=
  unseen_cons.mpr (Token.isPlain_is h hmark)

theorem unseen_of_isName (h : token.isName) (hword : word ∈ Token.marks ++ Token.keywords) :
    Unseen word (token :: rest) :=
  unseen_cons.mpr (Token.isName_is h hword)

end Grammar.Rule

/-! ### Lists with separators -/

namespace Separated

variable {α : Type}

theorem length_separators_le (ofItem : α → List Token) (items : Separated α) :
    items.separators.length ≤ (items.tokens ofItem).length := by
  induction items with
  | last a => simp [separators]
  | cons a separator rest ih =>
    simp only [separators, tokens, List.length_cons, List.length_append]
    omega

theorem length_le_of_mem (ofItem : α → List Token) {items : Separated α} {a : α}
    (h : a ∈ items.items) : (ofItem a).length ≤ (items.tokens ofItem).length := by
  induction items with
  | last b =>
    obtain rfl : a = b := by simpa [items] using h
    simp [tokens]
  | cons b separator rest ih =>
    simp only [tokens, List.length_cons, List.length_append]
    rcases List.mem_cons.mp h with rfl | h
    · omega
    · have := ih h
      omega

end Separated

namespace Grammar.Rule

variable {α : Type} {item : Rule α} {ofItem : α → List Token} {rest : List Token}

section Separated

variable {ok : α → Bool} {separator : Token → Bool} {word : String} {items : Separated α}
  (Ends : List Token → Prop)

/-- `Ends` is what an item needs of the tokens after it; a separator meets it. -/
theorem separatedUpTo_accepts {bound : Nat} (hbound : items.separators.length ≤ bound)
    (hitem : ∀ a ∈ items.items, ok a → ∀ rest, Ends rest → item (ofItem a ++ rest) = .ok (a, rest))
    (hword : ∀ token, separator token → token.is word)
    (hends : ∀ token rest, separator token → Ends (token :: rest))
    (hall : items.all ok separator) (hrest : Ends rest) (hunseen : Unseen word rest) :
    separatedUpTo item word bound (items.tokens ofItem ++ rest) = .ok (items, rest) := by
  induction items generalizing bound with
  | last a =>
    have ha := hitem a List.mem_cons_self hall rest hrest
    cases bound with
    | zero => exact (bind_of_ok ha).trans rfl
    | succ bound =>
      refine (bind_of_ok ha).trans ?_
      exact (bind_of_ok (eat_of_unseen hunseen)).trans rfl
  | cons a token others ih =>
    simp only [Separated.all, Bool.and_eq_true] at hall
    obtain ⟨⟨ha, htoken⟩, hothers⟩ := hall
    cases bound with
    | zero => simp [Separated.separators] at hbound
    | succ bound =>
      simp only [Separated.tokens, List.append_assoc, List.cons_append]
      refine (bind_of_ok (hitem a List.mem_cons_self ha _ (hends _ _ htoken))).trans ?_
      refine (bind_of_ok (eat_of_is (hword token htoken))).trans ?_
      refine (bind_of_ok (ih ?_ (fun b hb => hitem b (List.mem_cons_of_mem _ hb))
        hothers)).trans rfl
      simpa [Separated.separators] using hbound

theorem separated_accepts
    (hitem : ∀ a ∈ items.items, ok a → ∀ rest, Ends rest → item (ofItem a ++ rest) = .ok (a, rest))
    (hword : ∀ token, separator token → token.is word)
    (hends : ∀ token rest, separator token → Ends (token :: rest))
    (hall : items.all ok separator) (hrest : Ends rest) (hunseen : Unseen word rest) :
    separated item word (items.tokens ofItem ++ rest) = .ok (items, rest) := by
  refine separatedUpTo_accepts Ends ?_ hitem hword hends hall hrest hunseen
  have := items.length_separators_le ofItem
  rw [List.length_append]
  omega

end Separated

section Repeated

variable {stop : Token → Bool} {items : List α}

theorem length_le_length_flatMap (h : ∀ a ∈ items, ofItem a ≠ []) :
    items.length ≤ (items.flatMap ofItem).length := by
  induction items with
  | nil => simp
  | cons a items ih =>
    have ha := List.length_pos_iff.mpr (h a List.mem_cons_self)
    have hitems := ih fun b hb => h b (List.mem_cons_of_mem _ hb)
    rw [List.flatMap_cons, List.length_append, List.length_cons]
    omega

theorem repeatedUpTo_accepts {bound : Nat} (hbound : items.length ≤ bound)
    (hitem : ∀ a ∈ items, ∀ rest, item (ofItem a ++ rest) = .ok (a, rest))
    (hgoes : ∀ a ∈ items, ∃ token more, ofItem a = token :: more ∧ stop token = false)
    {closing : Token} (hstop : stop closing) :
    repeatedUpTo item stop bound (items.flatMap ofItem ++ closing :: rest) =
      .ok (items, closing :: rest) := by
  induction items generalizing bound with
  | nil =>
    cases bound with
    | zero => rfl
    | succ bound =>
      rw [repeatedUpTo_succ]
      exact (bind_of_ok rfl).trans (by simp [hstop]; rfl)
  | cons a items ih =>
    cases bound with
    | zero => simp at hbound
    | succ bound =>
      obtain ⟨token, more, hmore, htoken⟩ := hgoes a List.mem_cons_self
      have hsees : sees (!stop ·) (ofItem a ++ (items.flatMap ofItem ++ closing :: rest)) =
          .ok (true, ofItem a ++ (items.flatMap ofItem ++ closing :: rest)) := by
        rw [hmore]
        exact sees_of_true (by simp [htoken])
      rw [repeatedUpTo_succ, List.flatMap_cons, List.append_assoc]
      refine (bind_of_ok hsees).trans ?_
      rw [if_pos rfl]
      refine (bind_of_ok (hitem a List.mem_cons_self _)).trans ?_
      have hbound' : items.length ≤ bound := by simpa using hbound
      have hrest := ih hbound'
        (fun b hb => hitem b (List.mem_cons_of_mem _ hb))
        (fun b hb => hgoes b (List.mem_cons_of_mem _ hb))
      exact (bind_of_ok hrest).trans rfl

theorem repeated_accepts (hitem : ∀ a ∈ items, ∀ rest, item (ofItem a ++ rest) = .ok (a, rest))
    (hgoes : ∀ a ∈ items, ∃ token more, ofItem a = token :: more ∧ stop token = false)
    {closing : Token} (hstop : stop closing) :
    repeated item stop (items.flatMap ofItem ++ closing :: rest) =
      .ok (items, closing :: rest) := by
  refine repeatedUpTo_accepts ?_ hitem hgoes hstop
  have hne (a : α) (ha : a ∈ items) : ofItem a ≠ [] := by
    obtain ⟨token, more, hmore, -⟩ := hgoes a ha
    simp [hmore]
  have hlength := length_le_length_flatMap hne
  rw [List.length_append]
  omega

end Repeated

end Grammar.Rule

end WebIdl
