import WebIdl.Link.Prose
import WebIdl.Proofs.Dfn.Term

/-!
# One text as a term and as a reference

A text is reduced to a key in two ways. Of a term, any call at the end is dropped, with the blanks
before it, and then quotes around the name. Of a reference, double braces are dropped and an empty
call, and nothing else.

* `Dfn.dropCall_eq_dropEmptyCall_iff` — the two drop the same call exactly when it is empty and
  follows the name at once.
* `Dfn.isPrefix_dropCall` — a term never keeps more of a text than a reference does.
* `Dfn.referenceKey_eq_termKey` — the two keys of a text are the same exactly when the same call is
  dropped and there are no quotes to drop.
-/

namespace WebIdl.Dfn

/-! ### Calls -/

/-- A call without arguments. -/
def emptyCall : List Char := ['(', ')']

theorem isCall_emptyCall : IsCall emptyCall := ⟨[], rfl, List.not_mem_nil⟩

theorem two_le_length_of_isCall {call : List Char} (h : IsCall call) : 2 ≤ call.length := by
  obtain ⟨arguments, rfl, -⟩ := h
  simp

/-- Only an empty call fits into two characters. -/
theorem eq_emptyCall_of_length_le {call : List Char} (h : IsCall call) (hlength : call.length ≤ 2) :
    call = emptyCall := by
  obtain ⟨arguments, rfl, -⟩ := h
  cases arguments with
  | nil => rfl
  | cons => simp at hlength

theorem dropEmptyCall_append (w : List Char) : dropEmptyCall (w ++ emptyCall) = w := by
  have hsuffix : ['(', ')'].isSuffixOf? (w ++ emptyCall) = some w :=
    List.isSuffixOf?_eq_some_iff_append_eq.mpr rfl
  rw [dropEmptyCall, hsuffix, Option.getD_some]

theorem dropEmptyCall_of_not_suffix {cs : List Char} (h : ¬ emptyCall <:+ cs) :
    dropEmptyCall cs = cs := by
  cases hsuffix : ['(', ')'].isSuffixOf? cs with
  | none => rw [dropEmptyCall, hsuffix, Option.getD_none]
  | some w => exact absurd ⟨w, List.isSuffixOf?_eq_some_iff_append_eq.mp hsuffix⟩ h

/-- A term never keeps more of a text than a reference does. -/
theorem isPrefix_dropCall (cs : List Char) : dropCall cs <+: dropEmptyCall cs := by
  rcases uncalled_dropCall cs with ⟨hw, hno⟩ | ⟨before, call, rfl, -, hlongest, hw⟩
  · have hsame : dropCall cs = dropEmptyCall cs := by
      rw [hw, dropEmptyCall_of_not_suffix (hno emptyCall isCall_emptyCall)]
    exact hsame ▸ List.prefix_rfl
  · rw [hw]
    by_cases hempty : emptyCall <:+ before ++ call
    · -- the empty call is the end of the longest one
      obtain ⟨more, rfl⟩ := hlongest emptyCall isCall_emptyCall hempty
      rw [← List.append_assoc, dropEmptyCall_append]
      exact List.prefix_append_of_prefix (Text.isPrefix_trimEnd before)
    · rw [dropEmptyCall_of_not_suffix hempty]
      exact List.prefix_append_of_prefix (Text.isPrefix_trimEnd before)

/-- Nothing is dropped from a text that ends with no call. -/
theorem dropCall_eq_self_iff {cs : List Char} :
    dropCall cs = cs ↔ ∀ call, IsCall call → ¬ call <:+ cs := by
  rw [dropCall_eq_iff]
  constructor
  · rintro (⟨-, hno⟩ | ⟨before, call, heq, hcall, -, hcs⟩)
    · exact hno
    · -- without its call, a text is shorter
      have hlengths := congrArg List.length heq
      rw [List.length_append] at hlengths
      have hle : cs.length ≤ before.length := by
        conv_lhs => rw [hcs]
        exact (Text.isPrefix_trimEnd before).length_le
      have htwo := two_le_length_of_isCall hcall
      omega
  · intro hno
    exact .inl ⟨rfl, hno⟩

/-- Of a text with an empty call at its end, only this call is dropped exactly when no other call ends
the text, and no blank stands before it. -/
theorem dropCall_append_emptyCall_iff {w : List Char} :
    dropCall (w ++ emptyCall) = w ↔
      (∀ call, IsCall call → call <:+ w ++ emptyCall → call = emptyCall) ∧ Text.trimEnd w = w := by
  rw [dropCall_eq_iff]
  constructor
  · rintro (⟨heq, -⟩ | ⟨before, call, heq, hcall, hlongest, hw⟩)
    · exact absurd (congrArg List.length heq) (by simp [emptyCall])
    · -- what stands before the longest call is no shorter than `w`, so that call is the empty one
      have hlengths := congrArg List.length heq
      rw [List.length_append, List.length_append] at hlengths
      have hle : w.length ≤ before.length := hw ▸ (Text.isPrefix_trimEnd before).length_le
      have htwo : emptyCall.length = 2 := rfl
      obtain rfl : call = emptyCall := eq_emptyCall_of_length_le hcall (by omega)
      obtain rfl := List.append_cancel_right heq
      refine ⟨?_, hw.symm⟩
      intro other hother hsuffix
      exact eq_emptyCall_of_length_le hother (hlongest other hother hsuffix).length_le
  · rintro ⟨hcalls, hw⟩
    refine .inr ⟨w, emptyCall, rfl, isCall_emptyCall, ?_, hw.symm⟩
    intro other hother hsuffix
    exact hcalls other hother hsuffix ▸ List.suffix_rfl

/-- The same call is dropped exactly when no other than an empty one ends the text, and no blank
stands before that one. -/
theorem dropCall_eq_dropEmptyCall_iff {cs : List Char} :
    dropCall cs = dropEmptyCall cs ↔
      (∀ call, IsCall call → call <:+ cs → call = emptyCall) ∧
        ∀ before c, cs = before ++ [c] ++ emptyCall → Text.isBlank c = false := by
  by_cases hempty : emptyCall <:+ cs
  · obtain ⟨w, rfl⟩ := hempty
    rw [dropEmptyCall_append, dropCall_append_emptyCall_iff, Text.trimEnd_eq_self_iff]
    refine and_congr_right fun _ => ?_
    constructor
    · intro h before c heq
      exact h c (List.getLast?_eq_some_iff.mpr ⟨before, List.append_cancel_right heq⟩)
    · intro h c hc
      obtain ⟨before, rfl⟩ := List.getLast?_eq_some_iff.mp hc
      exact h before c rfl
  · rw [dropEmptyCall_of_not_suffix hempty, dropCall_eq_self_iff]
    constructor
    · intro hno
      refine ⟨fun call hcall hsuffix => absurd hsuffix (hno call hcall), ?_⟩
      rintro before c rfl
      exact absurd (List.suffix_append _ _) hempty
    · rintro ⟨hcalls, -⟩ call hcall hsuffix
      exact hempty (hcalls call hcall hsuffix ▸ hsuffix)

/-! ### Keys -/

/-- The number of characters in a key, with the mark between its container and its name. -/
def Key.size (key : Key) : Nat := key.scope.elim 0 (·.length + 1) + key.name.length

/-- A text is divided into container and name, and nothing of it is lost. -/
theorem size_keyFor (scope : Option String) (cs : List Char) :
    (keyFor scope cs).size = scope.elim 0 (·.length + 1) + cs.length := by
  cases scope with
  | some scope => simp [keyFor, Key.size]
  | none =>
    cases hparts : qualified? cs with
    | none => simp [keyFor, hparts, Key.size]
    | some parts =>
      obtain ⟨-, -, -, mark, -, hcs⟩ := qualified?_eq_some_iff.mp hparts
      have hlength := congrArg List.length hcs
      rw [List.length_append, List.length_cons] at hlength
      simp only [keyFor, hparts, Key.size, Option.elim_some, Option.elim_none,
        String.length_ofList]
      omega

theorem length_unquote_le (name : String) : (unquote name).length ≤ name.length := by
  unfold unquote
  split
  · rename_i cs hname
    have hlength : name.length = cs.length + 1 := by
      rw [← String.length_toList, hname, List.length_cons]
    split
    · rw [String.length_ofList, List.length_dropLast]
      omega
    · exact Nat.le_refl _
  · exact Nat.le_refl _

theorem unquote_eq_self_iff {name : String} :
    unquote name = name ↔ ∀ inner, name.toList ≠ quoted inner := by
  have hiff : unquote (String.ofList name.toList) = name ↔ Unquoted name.toList name.toList :=
    unquote_eq_iff
  rw [String.ofList_toList] at hiff
  rw [hiff]
  constructor
  · rintro (h | ⟨-, h⟩)
    · -- quotes make a text longer
      have hlength := congrArg List.length h
      simp only [quoted, List.length_cons, List.length_append, List.length_nil] at hlength
      omega
    · exact h
  · intro h
    exact .inr ⟨rfl, h⟩

/-! ### Texts that are read alike -/

/-- The text is written in double braces. -/
def InBraces (text : String) : Prop :=
  ∃ inner, Text.trim text.toList = ['\x7b', '\x7b'] ++ inner ++ ['\x7d', '\x7d']

theorem inBraces_iff {text : String} :
    InBraces text ↔ ((['\x7b', '\x7b'].isPrefixOf? (Text.trim text.toList)).bind
      (['\x7d', '\x7d'].isSuffixOf? ·)).isSome = true := by
  rw [Option.isSome_iff_exists]
  refine exists_congr fun inner => ?_
  rw [Option.bind_eq_some_iff]
  simp only [List.isPrefixOf?_eq_some_iff_append_eq, List.isSuffixOf?_eq_some_iff_append_eq]
  constructor
  · intro h
    exact ⟨inner ++ ['\x7d', '\x7d'], by rw [h, List.append_assoc], rfl⟩
  · rintro ⟨rest, hopening, rfl⟩
    rw [← hopening, List.append_assoc]

instance (text : String) : Decidable (InBraces text) := decidable_of_iff _ inBraces_iff.symm

/-- Without double braces, only the blanks at the ends of a reference are dropped. -/
theorem dropBraces_of_not_inBraces {text : String} (h : ¬ InBraces text) :
    dropBraces (Text.trim text.toList) = Text.trim text.toList := by
  rw [inBraces_iff, Option.not_isSome_iff_eq_none] at h
  rw [dropBraces, h]
  exact Text.trim_trim text.toList

/-- A text is read alike in a reference and in a term: a call at its end is empty and follows the
name at once, and the name is not in quotes. -/
structure ReadAlike (text : String) (scope : Option String) : Prop where
  call : ∀ call, IsCall call → call <:+ Text.trim text.toList → call = emptyCall
  adjacent : ∀ before c, Text.trim text.toList = before ++ [c] ++ emptyCall →
    Text.isBlank c = false
  unquoted : ∀ inner, (referenceKey text scope).name.toList ≠ quoted inner

theorem readAlike_iff {text : String} {scope : Option String} :
    ReadAlike text scope ↔
      dropCall (Text.trim text.toList) = dropEmptyCall (Text.trim text.toList) ∧
        unquote (referenceKey text scope).name = (referenceKey text scope).name := by
  rw [dropCall_eq_dropEmptyCall_iff, unquote_eq_self_iff]
  exact ⟨fun h => ⟨⟨h.call, h.adjacent⟩, h.unquoted⟩, fun h => ⟨h.1.1, h.1.2, h.2⟩⟩

instance (text : String) (scope : Option String) : Decidable (ReadAlike text scope) :=
  decidable_of_iff _ readAlike_iff.symm

/-- A text that is not in double braces has one key, as a reference and as a term, exactly when it is
read alike in both. -/
theorem referenceKey_eq_termKey {text : String} {scope : Option String} (h : ¬ InBraces text) :
    referenceKey text scope = termKey text scope ↔ ReadAlike text scope := by
  rw [readAlike_iff, referenceKey, dropBraces_of_not_inBraces h]
  unfold termKey
  dsimp only
  constructor
  · intro hkeys
    -- if more is dropped from the term, its key is the shorter one
    have hdropped : dropCall (Text.trim text.toList) = dropEmptyCall (Text.trim text.toList) := by
      apply (isPrefix_dropCall _).eq_of_length_le
      have hsizes := congrArg Key.size hkeys
      have hle : Key.size { keyFor scope (dropCall (Text.trim text.toList)) with
          name := unquote (keyFor scope (dropCall (Text.trim text.toList))).name } ≤
            (keyFor scope (dropCall (Text.trim text.toList))).size :=
        Nat.add_le_add_left (length_unquote_le _) _
      rw [← hsizes, size_keyFor, size_keyFor] at hle
      omega
    refine ⟨hdropped, ?_⟩
    rw [hdropped] at hkeys
    exact (congrArg Key.name hkeys).symm
  · rintro ⟨hdropped, hname⟩
    rw [hdropped, hname]

end WebIdl.Dfn
