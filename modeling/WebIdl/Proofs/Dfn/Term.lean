import Mathlib.Data.List.Basic
import WebIdl.Dfn.Term
import WebIdl.Proofs.Text.Trim

/-!
# What the text of a term names

The key of a text is worked out in steps, which drop a call, split off a container and drop quotes.
Here is what the steps come to for the text as a whole.

* `Dfn.uncalled_dropCall` — a call is dropped with the blanks before it, the longest that ends the
  text.
* `Dfn.qualified?_eq_some_iff` — a container is split off if it is an identifier and what follows
  its dot or slash is on one line.
* `Dfn.termKey_eq_iff` — which texts are read as a name in a container.
* `TermIndex.matching_scoped_iff` — the terms found for a name in a container are those that have a
  text which says so, up to the terms that are declared for the container and name it in the text
  again.
* `TermIndex.matching_scoped_alternate_ne` — a term that is missed for that.
-/

namespace WebIdl

namespace Dfn

/-! ### Calls -/

/-- A call: arguments on one line in parentheses. -/
def IsCall (cs : List Char) : Prop := ∃ arguments, cs = '(' :: (arguments ++ [')']) ∧ '\n' ∉ arguments

theorem isCall_cons_iff {c : Char} {cs : List Char} :
    IsCall (c :: cs) ↔ (c == '(' && isCallTail cs) = true := by
  unfold isCallTail IsCall
  rw [Bool.and_eq_true, Bool.and_eq_true, beq_iff_eq, beq_iff_eq, List.getLast?_eq_some_iff]
  constructor
  · rintro ⟨arguments, hcs, hline⟩
    obtain ⟨rfl, rfl⟩ := List.cons.inj hcs
    exact ⟨rfl, ⟨arguments, rfl⟩, by simpa using hline⟩
  · rintro ⟨rfl, ⟨arguments, rfl⟩, hline⟩
    exact ⟨arguments, rfl, by simpa using hline⟩

/-- A call starts with a parenthesis. -/
theorem mem_of_isCall {cs : List Char} (h : IsCall cs) : '(' ∈ cs := by
  obtain ⟨arguments, rfl, -⟩ := h
  exact List.mem_cons_self

/-- What stands before the longest call that ends the text. -/
theorem exists_call_of_beforeCall? {cs before : List Char} (h : beforeCall? cs = some before) :
    ∃ call, cs = before ++ call ∧ IsCall call ∧
      ∀ other, IsCall other → other <:+ cs → other <:+ call := by
  induction cs generalizing before with
  | nil => cases h
  | cons c cs ih =>
    rw [beforeCall?] at h
    split at h
    · rename_i hcall
      obtain rfl := Option.some.inj h
      exact ⟨c :: cs, rfl, isCall_cons_iff.mpr hcall, fun other _ hother => hother⟩
    · rename_i hcall
      obtain ⟨before, hbefore, rfl⟩ := Option.map_eq_some_iff.mp h
      obtain ⟨call, rfl, hiscall, hlongest⟩ := ih hbefore
      refine ⟨call, rfl, hiscall, fun other hother hsuffix => ?_⟩
      rcases List.suffix_cons_iff.mp hsuffix with rfl | hsuffix
      · exact absurd (isCall_cons_iff.mp hother) hcall
      · exact hlongest other hother hsuffix

theorem not_suffix_of_beforeCall? {cs : List Char} (h : beforeCall? cs = none) {call : List Char}
    (hcall : IsCall call) : ¬ call <:+ cs := by
  induction cs with
  | nil =>
    intro hsuffix
    rw [List.suffix_nil.mp hsuffix] at hcall
    cases mem_of_isCall hcall
  | cons c cs ih =>
    rw [beforeCall?] at h
    split at h
    · cases h
    · rename_i hno
      intro hsuffix
      rcases List.suffix_cons_iff.mp hsuffix with rfl | hsuffix
      · exact hno (isCall_cons_iff.mp hcall)
      · exact ih (Option.map_eq_none_iff.mp h) hsuffix

/-- What is left of a text without the longest call that ends it and the blanks before that. -/
def Uncalled (cs w : List Char) : Prop :=
  (w = cs ∧ ∀ call, IsCall call → ¬ call <:+ cs) ∨
    ∃ before call, cs = before ++ call ∧ IsCall call ∧
      (∀ other, IsCall other → other <:+ cs → other <:+ call) ∧ w = Text.trimEnd before

theorem uncalled_dropCall (cs : List Char) : Uncalled cs (dropCall cs) := by
  unfold dropCall
  cases h : beforeCall? cs with
  | none => exact .inl ⟨rfl, fun call => not_suffix_of_beforeCall? h⟩
  | some before =>
    obtain ⟨call, hcs, hcall, hlongest⟩ := exists_call_of_beforeCall? h
    exact .inr ⟨before, call, hcs, hcall, hlongest, rfl⟩

/-- A text has one longest call. -/
theorem Uncalled.unique {cs w w' : List Char} (h : Uncalled cs w) (h' : Uncalled cs w') :
    w = w' := by
  rcases h with ⟨rfl, hno⟩ | ⟨before, call, rfl, hcall, hlongest, rfl⟩
  · rcases h' with ⟨rfl, -⟩ | ⟨before, call, rfl, hcall, -, -⟩
    · rfl
    · exact absurd (List.suffix_append before call) (hno call hcall)
  · rcases h' with ⟨rfl, hno⟩ | ⟨before', call', hcs, hcall', hlongest', rfl⟩
    · exact absurd (List.suffix_append before call) (hno call hcall)
    · have hsuffix : call <:+ call' := hlongest' call hcall (List.suffix_append before call)
      have hsuffix' : call' <:+ call := hlongest call' hcall' ⟨before', hcs.symm⟩
      obtain rfl : call = call' := hsuffix.eq_of_length_le hsuffix'.length_le
      rw [List.append_cancel_right hcs]

theorem dropCall_eq_iff {cs w : List Char} : dropCall cs = w ↔ Uncalled cs w :=
  ⟨fun h => h ▸ uncalled_dropCall cs, fun h => (uncalled_dropCall cs).unique h⟩

/-! ### Containers -/

/-- A name of ASCII letters, digits, hyphens and underscores that starts with a letter or an
underscore. -/
def IsIdentifier (cs : List Char) : Prop :=
  ∃ c rest, cs = c :: rest ∧ isNameStart c = true ∧ rest.all isNameChar = true

theorem isNameChar_of_isNameStart {c : Char} (h : isNameStart c = true) : isNameChar c = true := by
  unfold isNameStart at h
  unfold isNameChar Char.isAlphanum
  rcases Bool.or_eq_true_iff.mp h with h | h <;> simp [h]

theorem isNameChar_of_mem {scope : List Char} (h : IsIdentifier scope) :
    ∀ c ∈ scope, isNameChar c = true := by
  obtain ⟨c, rest, rfl, hstart, hrest⟩ := h
  intro d hd
  rcases List.mem_cons.mp hd with rfl | hd
  · exact isNameChar_of_isNameStart hstart
  · exact List.all_eq_true.mp hrest d hd

/-- A dot or a slash divides a container from a name. -/
def Divides (mark : Char) : Prop := mark = '.' ∨ mark = '/'

/-- A container is split off if it is an identifier, and what follows its dot or slash is on one
line. -/
theorem qualified?_eq_some_iff {cs scope name : List Char} :
    qualified? cs = some (scope, name) ↔
      IsIdentifier scope ∧ name ≠ [] ∧ '\n' ∉ name ∧
        ∃ mark, Divides mark ∧ cs = scope ++ mark :: name := by
  constructor
  · intro h
    have hcs := List.takeWhile_append_dropWhile (p := isNameChar) (l := cs)
    have hall := List.all_takeWhile (p := isNameChar) (l := cs)
    unfold qualified? at h
    split at h
    · rename_i c rest mark tail htake hdrop
      split at h
      · rename_i hparts
        obtain ⟨rfl, rfl⟩ := Prod.mk.inj (Option.some.inj h)
        rw [htake, hdrop] at hcs
        rw [htake, List.all_cons, Bool.and_eq_true] at hall
        simp only [Bool.and_eq_true, Bool.or_eq_true, beq_iff_eq] at hparts
        obtain ⟨⟨⟨hstart, hmark⟩, hname⟩, hline⟩ := hparts
        exact ⟨⟨c, rest, rfl, hstart, hall.2⟩, by simpa using hname, by simpa using hline, mark,
          hmark, hcs.symm⟩
      · cases h
    · cases h
  · rintro ⟨hscope, hname, hline, mark, hmark, rfl⟩
    have hno : ¬ isNameChar mark = true := by
      rcases hmark with rfl | rfl <;> decide
    have hall := isNameChar_of_mem hscope
    obtain ⟨c, rest, rfl, hstart, -⟩ := hscope
    unfold qualified?
    rw [List.takeWhile_append_of_pos hall, List.dropWhile_append_of_pos hall,
      List.takeWhile_cons_of_neg hno, List.dropWhile_cons_of_neg hno, List.append_nil]
    unfold Divides at hmark
    have hparts : (isNameStart c && (mark == '.' || mark == '/') && !name.isEmpty &&
        !name.contains '\n') = true := by
      simp [hstart, hmark, hname, hline]
    exact if_pos hparts

/-! ### Quotes -/

def quoted (cs : List Char) : List Char := '"' :: (cs ++ ['"'])

/-- What is left of a text without the quotes around it, if it has both. -/
def Unquoted (w name : List Char) : Prop :=
  w = quoted name ∨ w = name ∧ ∀ inner, w ≠ quoted inner

theorem quoted_inj {cs cs' : List Char} (h : quoted cs = quoted cs') : cs = cs' :=
  List.append_cancel_right (List.tail_eq_of_cons_eq h)

theorem unquote_quoted (cs : List Char) : unquote (String.ofList (quoted cs)) = String.ofList cs := by
  simp [unquote, quoted]

theorem unquote_of_ne_quoted {w : List Char} (h : ∀ inner, w ≠ quoted inner) :
    unquote (String.ofList w) = String.ofList w := by
  unfold unquote
  rw [String.toList_ofList]
  split
  · split
    · rename_i cs hlast
      obtain ⟨inner, rfl⟩ := List.getLast?_eq_some_iff.mp hlast
      exact absurd rfl (h inner)
    · rfl
  · rfl

theorem unquote_eq_iff {w : List Char} {name : String} :
    unquote (String.ofList w) = name ↔ Unquoted w name.toList := by
  unfold Unquoted
  by_cases hquoted : ∃ inner, w = quoted inner
  · obtain ⟨inner, rfl⟩ := hquoted
    rw [unquote_quoted]
    constructor
    · rintro rfl
      simp
    · rintro (h | ⟨-, hnot⟩)
      · rw [quoted_inj h, String.ofList_toList]
      · exact absurd rfl (hnot inner)
  · have hnot : ∀ inner, w ≠ quoted inner := not_exists.mp hquoted
    rw [unquote_of_ne_quoted hnot]
    constructor
    · rintro rfl
      exact .inr ⟨String.toList_ofList.symm, hnot⟩
    · rintro (h | ⟨rfl, -⟩)
      · exact absurd h (hnot _)
      · exact String.ofList_toList

/-! ### Keys -/

/-- A form of a term that is declared for a container, or for none, is read as the name in the
container. Only the forms of a term without a container say it themselves. -/
def Reads (scope name : String) (declared : Option String) (form : String) : Prop :=
  ∃ w, Uncalled (Text.trim form.toList) w ∧
    (declared = some scope ∧ Unquoted w name.toList ∨
      declared = none ∧ IsIdentifier scope.toList ∧ ∃ mark text, Divides mark ∧
        w = scope.toList ++ mark :: text ∧ text ≠ [] ∧ '\n' ∉ text ∧ Unquoted text name.toList)

theorem termKey_eq_iff {scope name form : String} {declared : Option String} :
    termKey form declared = ⟨some scope, name⟩ ↔ Reads scope name declared form := by
  unfold termKey keyFor Reads
  constructor
  · intro h
    refine ⟨_, uncalled_dropCall _, ?_⟩
    cases declared with
    | some declared =>
      obtain ⟨hscope, hname⟩ := Key.mk.inj h
      exact .inl ⟨hscope, unquote_eq_iff.mp hname⟩
    | none =>
      cases hparts : qualified? (dropCall (Text.trim form.toList)) with
      | none => simp [hparts] at h
      | some parts =>
        rw [hparts] at h
        obtain ⟨hscope, hname⟩ := Key.mk.inj h
        obtain rfl := Option.some.inj hscope
        obtain ⟨hidentifier, hne, hline, mark, hmark, hcs⟩ := qualified?_eq_some_iff.mp hparts
        rw [String.toList_ofList]
        exact .inr ⟨rfl, hidentifier, mark, _, hmark, hcs, hne, hline, unquote_eq_iff.mp hname⟩
  · rintro ⟨w, hw, ⟨rfl, hname⟩ | ⟨rfl, hidentifier, mark, text, hmark, rfl, hne, hline, hname⟩⟩
    · rw [dropCall_eq_iff.mpr hw]
      exact congrArg (Key.mk _) (unquote_eq_iff.mpr hname)
    · have hparts : qualified? (dropCall (Text.trim form.toList)) = some (scope.toList, text) :=
        qualified?_eq_some_iff.mpr
          ⟨hidentifier, hne, hline, mark, hmark, dropCall_eq_iff.mpr hw⟩
      rw [hparts]
      simp [unquote_eq_iff.mpr hname]

/-! ### Texts that say a name -/

/-- The text is `w`, or `w` and a call after it, perhaps with blanks between them. -/
def IsWritten (w cs : List Char) : Prop :=
  cs = w ∨ ∃ blanks call, Text.allBlank blanks = true ∧ IsCall call ∧ cs = w ++ (blanks ++ call)

/-- The text is the name, perhaps in quotes and perhaps with a call. -/
def IsName (name cs : List Char) : Prop := IsWritten name cs ∨ IsWritten (quoted name) cs

/-- The text is the name after its container and a dot or a slash. -/
def IsQualifiedName (scope name cs : List Char) : Prop :=
  ∃ mark text, Divides mark ∧ IsName name text ∧ cs = scope ++ mark :: text

/-- A form of a term says that the term is the name in the container: by the name alone if the term
is declared for the container, or by the name with its container unless the term is declared for
another. -/
def Says (scope name : String) (declared : Option String) (form : String) : Prop :=
  declared = some scope ∧ IsName name.toList (Text.trim form.toList) ∨
    (declared = none ∨ declared = some scope) ∧
      IsQualifiedName scope.toList name.toList (Text.trim form.toList)

/-- A name of one line that has no quotes, no opening parenthesis and no blank at its end. -/
structure IsPlain (name : List Char) : Prop where
  nonempty : name ≠ []
  line : '\n' ∉ name
  unquoted : '"' ∉ name
  uncalled : '(' ∉ name
  trimmed : ∀ c, name.getLast? = some c → Text.isBlank c = false

/-- A text is what is left of it without its call, with a call after that or without. -/
theorem isWritten_dropCall (cs : List Char) : IsWritten (dropCall cs) cs := by
  rcases uncalled_dropCall cs with ⟨hcs, -⟩ | ⟨before, call, hcs, hcall, -, hbefore⟩
  · exact .inl hcs.symm
  · obtain ⟨blanks, hblanks, htrimmed⟩ := Text.exists_blanks_of_trimEnd before
    refine .inr ⟨blanks, call, hblanks, hcall, ?_⟩
    rw [hbefore, ← List.append_assoc, ← htrimmed, hcs]

/-- Where nothing before it opens a call, the call that is written is the one that is dropped. -/
theorem dropCall_of_isWritten {w cs : List Char} (hopen : '(' ∉ w)
    (hw : ∀ c, w.getLast? = some c → Text.isBlank c = false) (h : IsWritten w cs) :
    dropCall cs = w := by
  rw [dropCall_eq_iff]
  rcases h with rfl | ⟨blanks, call, hblanks, hcall, rfl⟩
  · exact .inl ⟨rfl, fun call hcall hsuffix => hopen (hsuffix.subset (mem_of_isCall hcall))⟩
  · have hbefore : '(' ∉ w ++ blanks := by
      rw [List.mem_append, not_or]
      refine ⟨hopen, fun hmem => ?_⟩
      have hblank := List.all_eq_true.mp hblanks '(' hmem
      revert hblank
      decide
    refine .inr ⟨w ++ blanks, call, (List.append_assoc ..).symm, hcall, ?_,
      (Text.trimEnd_append_blanks hblanks hw).symm⟩
    intro other hother hsuffix
    rw [← List.append_assoc] at hsuffix
    rcases List.suffix_or_suffix_of_suffix hsuffix (List.suffix_append _ call) with h | ⟨more, rfl⟩
    · exact h
    · -- a longer call would open before this one
      obtain ⟨rest, hrest⟩ := hsuffix
      rw [← List.append_assoc, List.append_left_inj] at hrest
      cases more with
      | nil => exact List.suffix_rfl
      | cons c more =>
        obtain ⟨arguments, harguments, -⟩ := hother
        obtain ⟨rfl, -⟩ := List.cons.inj harguments
        exact absurd (hrest ▸ List.mem_append_right rest List.mem_cons_self) hbefore

theorem isWritten_append_iff {xs w cs : List Char} :
    IsWritten (xs ++ w) cs ↔ ∃ text, IsWritten w text ∧ cs = xs ++ text := by
  constructor
  · rintro (rfl | ⟨blanks, call, hblanks, hcall, rfl⟩)
    · exact ⟨w, .inl rfl, rfl⟩
    · exact ⟨w ++ (blanks ++ call), .inr ⟨blanks, call, hblanks, hcall, rfl⟩,
        List.append_assoc ..⟩
  · rintro ⟨text, rfl | ⟨blanks, call, hblanks, hcall, rfl⟩, rfl⟩
    · exact .inl rfl
    · exact .inr ⟨blanks, call, hblanks, hcall, (List.append_assoc ..).symm⟩

theorem isBlank_getLast?_quoted (name : List Char) :
    ∀ c, (quoted name).getLast? = some c → Text.isBlank c = false := by
  intro c hc
  have hlast : (quoted name).getLast? = some '"' :=
    List.getLast?_eq_some_iff.mpr ⟨'"' :: name, rfl⟩
  obtain rfl := Option.some.inj (hlast.symm.trans hc)
  decide

section Plain

variable {scope name cs : List Char} (hname : IsPlain name)

include hname

/-- What a plain name is written as, alone or in quotes, opens no call and ends in no blank. -/
theorem IsPlain.of_unquoted {w : List Char} (hw : Unquoted w name) :
    w ≠ [] ∧ '\n' ∉ w ∧ '(' ∉ w ∧ ∀ c, w.getLast? = some c → Text.isBlank c = false := by
  rcases hw with rfl | ⟨rfl, -⟩
  · refine ⟨by simp [quoted], ?_, ?_, isBlank_getLast?_quoted name⟩
    · simp [quoted, hname.line]
    · simp [quoted, hname.uncalled]
  · exact ⟨hname.nonempty, hname.line, hname.uncalled, hname.trimmed⟩

theorem isName_iff : IsName name cs ↔ ∃ w, Unquoted w name ∧ IsWritten w cs := by
  constructor
  · rintro (h | h)
    · refine ⟨name, .inr ⟨rfl, fun inner hinner => hname.unquoted ?_⟩, h⟩
      exact hinner ▸ List.mem_cons_self
    · exact ⟨quoted name, .inl rfl, h⟩
  · rintro ⟨w, rfl | ⟨rfl, -⟩, h⟩
    · exact .inr h
    · exact .inl h

theorem isName_iff_uncalled : IsName name cs ↔ ∃ w, Uncalled cs w ∧ Unquoted w name := by
  rw [isName_iff hname]
  constructor
  · rintro ⟨w, hw, h⟩
    obtain ⟨-, -, hopen, htrimmed⟩ := hname.of_unquoted hw
    exact ⟨w, dropCall_eq_iff.mp (dropCall_of_isWritten hopen htrimmed h), hw⟩
  · rintro ⟨w, h, hw⟩
    rw [← dropCall_eq_iff] at h
    exact ⟨w, hw, h ▸ isWritten_dropCall cs⟩

theorem isQualifiedName_iff_uncalled (hscope : IsIdentifier scope) :
    IsQualifiedName scope name cs ↔ ∃ w, Uncalled cs w ∧ ∃ mark text, Divides mark ∧
      w = scope ++ mark :: text ∧ text ≠ [] ∧ '\n' ∉ text ∧ Unquoted text name := by
  have hassoc (mark : Char) (text : List Char) : scope ++ mark :: text = scope ++ [mark] ++ text :=
    List.append_cons ..
  constructor
  · rintro ⟨mark, text, hmark, htext, rfl⟩
    obtain ⟨w, hw, hwritten⟩ := (isName_iff hname).mp htext
    obtain ⟨hne, hline, hopen, htrimmed⟩ := hname.of_unquoted hw
    refine ⟨scope ++ mark :: w, ?_, mark, w, hmark, rfl, hne, hline, hw⟩
    rw [← dropCall_eq_iff, hassoc mark w, hassoc mark text]
    refine dropCall_of_isWritten ?_ ?_ (isWritten_append_iff.mpr ⟨text, hwritten, rfl⟩)
    · -- neither the container nor the mark after it opens a call
      rw [List.mem_append, List.mem_append, not_or, not_or]
      refine ⟨⟨fun hmem => ?_, ?_⟩, hopen⟩
      · have hopens := isNameChar_of_mem hscope '(' hmem
        revert hopens
        decide
      · rcases hmark with rfl | rfl <;> decide
    · rw [List.getLast?_append_of_ne_nil _ hne]
      exact htrimmed
  · rintro ⟨_, hcs, mark, text, hmark, rfl, -, -, htext⟩
    have hwritten := isWritten_dropCall cs
    rw [dropCall_eq_iff.mpr hcs, hassoc, isWritten_append_iff] at hwritten
    obtain ⟨written, hwritten, rfl⟩ := hwritten
    exact ⟨mark, written, hmark, (isName_iff hname).mpr ⟨text, htext, hwritten⟩, (hassoc ..).symm⟩

end Plain

/-- What a form of a term says is what it is read as, unless it names its container although the
term is declared for the container. -/
theorem reads_iff {scope name form : String} {declared : Option String}
    (hscope : IsIdentifier scope.toList) (hname : IsPlain name.toList) :
    Reads scope name declared form ↔
      declared = some scope ∧ IsName name.toList (Text.trim form.toList) ∨
        declared = none ∧ IsQualifiedName scope.toList name.toList (Text.trim form.toList) := by
  unfold Reads
  rw [isName_iff_uncalled hname, isQualifiedName_iff_uncalled hname hscope]
  constructor
  · rintro ⟨w, hw, ⟨hdeclared, hunquoted⟩ | ⟨hdeclared, -, hparts⟩⟩
    · exact .inl ⟨hdeclared, w, hw, hunquoted⟩
    · exact .inr ⟨hdeclared, w, hw, hparts⟩
  · rintro (⟨hdeclared, w, hw, hunquoted⟩ | ⟨hdeclared, w, hw, hparts⟩)
    · exact ⟨w, hw, .inl ⟨hdeclared, hunquoted⟩⟩
    · exact ⟨w, hw, .inr ⟨hdeclared, hscope, hparts⟩⟩

end Dfn

/-! ### Terms by their keys -/

/-- The text of a term and its other forms. -/
def TermInput.forms (term : TermInput) : List String := term.text :: term.alternates

/-- The keys of all forms of a term. -/
def TermInput.keys (term : TermInput) : List Dfn.Key :=
  (term.text :: term.alternates).map (Dfn.termKey · term.scope)

namespace TermIndex

variable {terms : List TermInput}

theorem mem_keys_ofTerms {i : Nat} {key : Dfn.Key} :
    (i, key) ∈ (ofTerms terms).keys ↔ ∃ term, (term, i) ∈ terms.zipIdx ∧ key ∈ term.keys := by
  unfold ofTerms
  rw [List.mem_flatMap]
  constructor
  · rintro ⟨⟨term, j⟩, hterm, hkey⟩
    obtain ⟨text, htext, hsame⟩ := List.mem_map.mp hkey
    obtain ⟨rfl, rfl⟩ := Prod.mk.inj hsame
    exact ⟨term, hterm, List.mem_map.mpr ⟨text, htext, rfl⟩⟩
  · rintro ⟨term, hterm, hkey⟩
    obtain ⟨text, htext, rfl⟩ := List.mem_map.mp hkey
    exact ⟨(term, i), hterm, List.mem_map.mpr ⟨text, htext, rfl⟩⟩

theorem mem_matching_iff {scope : Option String} {name : String} {i : Nat} :
    i ∈ (ofTerms terms).matching scope name ↔
      ∃ term, (term, i) ∈ terms.zipIdx ∧ ⟨scope, name⟩ ∈ term.keys := by
  unfold matching select
  rw [List.mem_eraseDups, List.mem_map]
  constructor
  · rintro ⟨⟨j, key⟩, hkey, rfl⟩
    obtain ⟨hkey, hsame⟩ := List.mem_filter.mp hkey
    obtain rfl : key = ⟨scope, name⟩ := by simpa using hsame
    exact mem_keys_ofTerms.mp hkey
  · intro h
    exact ⟨(i, ⟨scope, name⟩), List.mem_filter.mpr ⟨mem_keys_ofTerms.mpr h, by simp⟩, rfl⟩

theorem lt_of_mem_matching {scope : Option String} {name : String} {i : Nat}
    (h : i ∈ (ofTerms terms).matching scope name) : i < terms.length := by
  obtain ⟨term, hterm, -⟩ := mem_matching_iff.mp h
  exact List.snd_lt_of_mem_zipIdx hterm

/-- The terms of a name in a container are those with a form that is read so. -/
theorem mem_matching_scoped_iff {scope name : String} {i : Nat} :
    i ∈ (ofTerms terms).matching (some scope) name ↔
      ∃ term, terms[i]? = some term ∧ ∃ form ∈ term.forms, Dfn.Reads scope name term.scope form := by
  rw [mem_matching_iff]
  simp only [List.mem_zipIdx_iff_getElem?, TermInput.keys, TermInput.forms, List.mem_map,
    Dfn.termKey_eq_iff]

/-- **The terms found for a name in a container are those with a form that is read as the name in the
container. For an identifier and a plain name these are all terms with a form that says the name,
alone or with its container, exactly when each term that is declared for the container and names it in
a form has another form with the name alone.** -/
theorem matching_scoped_iff (terms : List TermInput) (scope name : String) :
    (∀ i, i ∈ (ofTerms terms).matching (some scope) name ↔
      ∃ term, terms[i]? = some term ∧
        ∃ form ∈ term.forms, Dfn.Reads scope name term.scope form) ∧
    (Dfn.IsIdentifier scope.toList → Dfn.IsPlain name.toList →
      ((∀ i, i ∈ (ofTerms terms).matching (some scope) name ↔
        ∃ term, terms[i]? = some term ∧
          ∃ form ∈ term.forms, Dfn.Says scope name term.scope form) ↔
      ∀ term ∈ terms, term.scope = some scope →
        (∃ form ∈ term.forms,
          Dfn.IsQualifiedName scope.toList name.toList (Text.trim form.toList)) →
        ∃ form ∈ term.forms, Dfn.IsName name.toList (Text.trim form.toList))) := by
  refine ⟨fun i => mem_matching_scoped_iff, fun hscope hname => ?_⟩
  simp only [mem_matching_scoped_iff, Dfn.reads_iff hscope hname, Dfn.Says]
  constructor
  · rintro h term hterm hdeclared ⟨form, hform, hqualified⟩
    obtain ⟨i, hi⟩ := List.mem_iff_getElem?.mp hterm
    obtain ⟨term', hterm', other, hother, hreads⟩ :=
      (h i).mpr ⟨term, hi, form, hform, .inr ⟨.inr hdeclared, hqualified⟩⟩
    obtain rfl := Option.some.inj (hi.symm.trans hterm')
    rcases hreads with ⟨-, halone⟩ | ⟨hnone, -⟩
    · exact ⟨other, hother, halone⟩
    · rw [hdeclared] at hnone
      cases hnone
  · intro h i
    constructor
    · rintro ⟨term, hi, form, hform, halone | ⟨hnone, hqualified⟩⟩
      · exact ⟨term, hi, form, hform, .inl halone⟩
      · exact ⟨term, hi, form, hform, .inr ⟨.inl hnone, hqualified⟩⟩
    · rintro ⟨term, hi, form, hform, halone | ⟨hnone | hdeclared, hqualified⟩⟩
      · exact ⟨term, hi, form, hform, .inl halone⟩
      · exact ⟨term, hi, form, hform, .inr ⟨hnone, hqualified⟩⟩
      · obtain ⟨other, hother, halone⟩ :=
          h term (List.mem_of_getElem? hi) hdeclared ⟨form, hform, hqualified⟩
        exact ⟨term, hi, other, hother, .inl ⟨hdeclared, halone⟩⟩

/-- A term that is declared for its container and names it again in another form. -/
def opening : TermInput :=
  ((TermInput.ofText "opening").forScope "Parcel").withAlternate "Parcel.open"

/-- With the name alone as one more form, the term is found as its forms say. -/
theorem matching_scoped_iff_opening :
    Dfn.IsIdentifier "Parcel".toList ∧ Dfn.IsPlain "open".toList ∧
      ∀ i, i ∈ (ofTerms [opening.withAlternate "open"]).matching (some "Parcel") "open" ↔
        ∃ term, [opening.withAlternate "open"][i]? = some term ∧
          ∃ form ∈ term.forms, Dfn.Says "Parcel" "open" term.scope form := by
  have hscope : Dfn.IsIdentifier "Parcel".toList :=
    ⟨'P', "arcel".toList, by decide +kernel, by decide +kernel, by decide +kernel⟩
  have hname : Dfn.IsPlain "open".toList := by
    refine ⟨by decide +kernel, by decide +kernel, by decide +kernel, by decide +kernel, ?_⟩
    intro c hc
    obtain rfl : 'n' = c := by simpa using hc
    decide
  refine ⟨hscope, hname, ((matching_scoped_iff _ _ _).2 hscope hname).mpr ?_⟩
  rintro term hterm - -
  obtain rfl := List.mem_singleton.mp hterm
  exact ⟨"open", by decide +kernel, .inl (.inl (by decide +kernel))⟩

/-- The other form says which member of the container the term defines, and the member has no
term. -/
theorem matching_scoped_alternate_ne :
    Dfn.Says "Parcel" "open" opening.scope "Parcel.open" ∧
      (ofTerms [opening]).matching (some "Parcel") "open" = [] ∧
      ¬ ∀ i, i ∈ (ofTerms [opening]).matching (some "Parcel") "open" ↔
        ∃ term, [opening][i]? = some term ∧
          ∃ form ∈ term.forms, Dfn.Says "Parcel" "open" term.scope form := by
  have hreads : Dfn.Says "Parcel" "open" opening.scope "Parcel.open" :=
    .inr ⟨.inr rfl, '.', "open".toList, .inl rfl, .inl (.inl rfl), by decide +kernel⟩
  have hmatching : (ofTerms [opening]).matching (some "Parcel") "open" = [] := by decide +kernel
  refine ⟨hreads, hmatching, fun h => ?_⟩
  have hmem := (h 0).mpr ⟨opening, rfl, "Parcel.open", by decide +kernel, hreads⟩
  rw [hmatching] at hmem
  cases hmem

end TermIndex

end WebIdl
