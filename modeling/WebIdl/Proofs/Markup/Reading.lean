import WebIdl.Markup.Html
import WebIdl.Proofs.Markup.Elements
import WebIdl.Proofs.Markup.Text

/-!
# Reading HTML back

A reader of HTML that knows start tags with double-quoted attributes, end tags, and the five entities
that are written. It goes through the text character by character, and builds elements from the tags
that it finds. What it reads of markup is that markup, since no character of a text or a value can be
taken for one that ends it.

* `Html.decode`, `Html.decode_escapeText`, `Html.decode_escapeValue` — entities.
* `Html.State`, `Html.step`, `Html.scan` — the tags and texts of HTML.
* `Html.assemble`, `Html.read?`, `Html.text?` — the markup and the text that they make.
* `Html.scan_htmlOf` — the tags and texts of written markup are those of the markup.
* `Html.assemble_piecesOf`, `Html.read?_htmlOf` — written markup is read back.
* `Html.text?_htmlOf` — without its tags, written markup is its text.
-/

namespace WebIdl

namespace Html

/-! ### Entities -/

/-- A text with the entities in it decoded. An ampersand that begins none stands for itself. -/
def decode : List Char → List Char
  | '&' :: 'a' :: 'm' :: 'p' :: ';' :: cs => '&' :: decode cs
  | '&' :: 'l' :: 't' :: ';' :: cs => '<' :: decode cs
  | '&' :: 'g' :: 't' :: ';' :: cs => '>' :: decode cs
  | '&' :: 'q' :: 'u' :: 'o' :: 't' :: ';' :: cs => '"' :: decode cs
  | '&' :: 'n' :: 'b' :: 's' :: 'p' :: ';' :: cs => '\u00A0' :: decode cs
  | c :: cs => c :: decode cs
  | [] => []

theorem decode_cons_of_ne {c : Char} (h : c ≠ '&') (cs : List Char) :
    decode (c :: cs) = c :: decode cs := by
  rw [decode] <;> exact fun _ hc => absurd hc h

theorem decode_escapeTextChar_append (c : Char) (cs : List Char) :
    decode (escapeTextChar c ++ cs) = c :: decode cs := by
  unfold escapeTextChar
  split
  · subst c; rfl
  split
  · subst c; rfl
  split
  · subst c; rfl
  split
  · subst c; rfl
  · exact decode_cons_of_ne ‹_› cs

theorem decode_escapeValueChar_append (c : Char) (cs : List Char) :
    decode (escapeValueChar c ++ cs) = c :: decode cs := by
  unfold escapeValueChar
  split
  · subst c; rfl
  split
  · subst c; rfl
  split
  · subst c; rfl
  · exact decode_cons_of_ne ‹_› cs

/-- What each character is decoded to, a text is. -/
theorem decode_flatMap {escape : Char → List Char}
    (h : ∀ c cs, decode (escape c ++ cs) = c :: decode cs) (cs : List Char) :
    decode (cs.flatMap escape) = cs := by
  induction cs with
  | nil => rfl
  | cons c cs ih => rw [List.flatMap_cons, h, ih]

theorem decode_escapeText (s : String) : decode (escapeText s).toList = s.toList := by
  rw [escapeText, String.toList_ofList]
  exact decode_flatMap decode_escapeTextChar_append s.toList

theorem decode_escapeValue (s : String) : decode (escapeValue s).toList = s.toList := by
  rw [escapeValue, String.toList_ofList]
  exact decode_flatMap decode_escapeValueChar_append s.toList

theorem ne_of_mem_escapeText {s : String} {c : Char} (h : c ∈ (escapeText s).toList) : c ≠ '<' := by
  rw [escapeText, String.toList_ofList, List.mem_flatMap] at h
  obtain ⟨d, -, hc⟩ := h
  rintro rfl
  unfold escapeTextChar at hc
  repeat' split at hc
  all_goals simp at hc
  exact absurd hc.symm ‹_›

theorem ne_of_mem_escapeValue {s : String} {c : Char} (h : c ∈ (escapeValue s).toList) :
    c ≠ '"' := by
  rw [escapeValue, String.toList_ofList, List.mem_flatMap] at h
  obtain ⟨d, -, hc⟩ := h
  rintro rfl
  unfold escapeValueChar at hc
  repeat' split at hc
  all_goals simp at hc
  exact absurd hc.symm ‹_›

theorem escapeText_ne_nil {s : String} (h : s ≠ "") : (escapeText s).toList ≠ [] := by
  intro hnil
  apply h
  have hs := decode_escapeText s
  rw [hnil] at hs
  exact String.toList_eq_nil_iff.mp hs.symm

/-! ### Tags and texts -/

/-- What HTML consists of. -/
inductive Piece where
  | opening (name : String) (attributes : List (String × String))
  | closing (name : String)
  | text (text : String)
deriving DecidableEq

/-- Where a reader is, and what it has read there. -/
inductive State where
  | text (s : List Char)
  | tag
  | opening (name : List Char)
  | closing (name : List Char)
  | inside (name : List Char) (attributes : List (String × String))
  | key (name : List Char) (attributes : List (String × String)) (key : List Char)
  | assigned (name : List Char) (attributes : List (String × String)) (key : List Char)
  | value (name : List Char) (attributes : List (String × String)) (key value : List Char)

/-- A text that has been read up to a tag or the end. -/
def flush (s : List Char) : List Piece := if s = [] then [] else [.text (String.ofList (decode s))]

/-- After the name of a start tag, or after a value. -/
def stepInside (name : List Char) (attributes : List (String × String)) (c : Char) :
    Option (List Piece × State) :=
  if c = '>' then some ([.opening (String.ofList name) attributes], .text [])
  else if c = ' ' then some ([], .key name attributes [])
  else none

/-- Reads one more character; `none` where no tag has it. -/
def step : State → Char → Option (List Piece × State)
  | .text s, c => some (if c = '<' then (flush s, .tag) else ([], .text (s ++ [c])))
  | .tag, c => some ([], if c = '/' then .closing [] else .opening [c])
  | .opening name, c =>
    if c = '>' ∨ c = ' ' then stepInside name [] c else some ([], .opening (name ++ [c]))
  | .closing name, c =>
    some (if c = '>' then ([.closing (String.ofList name)], .text [])
      else ([], .closing (name ++ [c])))
  | .inside name attributes, c => stepInside name attributes c
  | .key name attributes key, c =>
    some ([], if c = '=' then .assigned name attributes key else .key name attributes (key ++ [c]))
  | .assigned name attributes key, c =>
    if c = '"' then some ([], .value name attributes key []) else none
  | .value name attributes key value, c =>
    some ([], if c = '"' then
        .inside name (attributes ++ [(String.ofList key, String.ofList (decode value))])
      else .value name attributes key (value ++ [c]))

/-- The tags and texts of HTML; `none` if it ends inside a tag. -/
def scan : State → List Char → Option (List Piece)
  | .text s, [] => some (flush s)
  | _, [] => none
  | state, c :: cs => (step state c).bind fun next => (scan next.2 cs).map (next.1 ++ ·)

/-! ### Elements -/

/-- The classes in the value of an attribute. -/
def classNames (value : String) : List String :=
  ((value.toList.splitOn ' ').filter (· ≠ [])).map String.ofList

/-- The start tag of an element with these attributes. -/
def startTag? (name : String) (attributes : List (String × String)) : Option StartTag :=
  (Tag.ofName? name).map fun tag =>
    ⟨tag, (attributes.lookup "class").elim [] classNames, attributes.filter (·.1 ≠ "class")⟩

/-- The nodes that tags and texts make, after `nodes` in the elements that are open, innermost first;
`none` if the end tags do not fit. -/
def assemble : List Piece → List Markup → List (StartTag × List Markup) → Option (List Markup)
  | [], nodes, [] => some nodes
  | [], _, _ :: _ => none
  | .text s :: pieces, nodes, stack => assemble pieces (nodes ++ [.text s]) stack
  | .opening name attributes :: pieces, nodes, stack =>
    (startTag? name attributes).bind fun head => assemble pieces [] ((head, nodes) :: stack)
  | .closing _ :: _, _, [] => none
  | .closing name :: pieces, nodes, (head, before) :: stack =>
    if head.tag.name = name then assemble pieces (before ++ [.element head nodes]) stack else none

/-- The markup that HTML stands for. -/
def read? (html : String) : Option (List Markup) :=
  (scan (.text []) html.toList).bind (assemble · [] [])

def Piece.text? : Piece → Option String
  | .text s => some s
  | .opening .. | .closing .. => none

/-- The text of HTML without its tags. -/
def text? (html : String) : Option String :=
  (scan (.text []) html.toList).map fun pieces => String.join (pieces.filterMap Piece.text?)

end Html

namespace Markup

mutual

/-- The tags and texts of a node. -/
def pieces : Markup → List Html.Piece
  | .text s => [.text s]
  | .element head children =>
    .opening head.tag.name (Html.attributes head) :: (piecesOf children ++ [.closing head.tag.name])

/-- The tags and texts of nodes in a row. -/
def piecesOf : List Markup → List Html.Piece
  | [] => []
  | node :: nodes => pieces node ++ piecesOf nodes

end

end Markup

namespace Html

open Markup

/-! ### Scanning what is written -/

section Scan

variable {state next : State} {out : List Piece} {c : Char} {s rest : List Char}

theorem scan_cons (h : step state c = some (out, next)) :
    scan state (c :: rest) = (scan next rest).map (out ++ ·) := by
  rw [scan, h]
  rfl

/-- A character after which nothing has ended. -/
theorem scan_cons_of_nil (h : step state c = some ([], next)) :
    scan state (c :: rest) = scan next rest := by
  rw [scan_cons h]
  cases scan next rest <;> rfl

/-- A text ends where a tag begins. -/
theorem step_text_lt (s : List Char) : step (.text s) '<' = some (flush s, .tag) := rfl

/-- Characters that a reader keeps, one after the other. -/
theorem scan_append (keep : List Char → State)
    (h : ∀ kept, ∀ c ∈ s, step (keep kept) c = some ([], keep (kept ++ [c]))) (kept : List Char) :
    scan (keep kept) (s ++ rest) = scan (keep (kept ++ s)) rest := by
  induction s generalizing kept with
  | nil => rw [List.nil_append, List.append_nil]
  | cons c s ih =>
    have hs := ih (fun kept d hd => h kept d (List.mem_cons_of_mem c hd)) (kept ++ [c])
    rw [List.cons_append, scan_cons_of_nil (h kept c List.mem_cons_self), hs, List.append_assoc,
      List.singleton_append]

theorem scan_keep (keep : List Char → State)
    (h : ∀ kept, ∀ c ∈ s, step (keep kept) c = some ([], keep (kept ++ [c]))) :
    scan (keep []) (s ++ rest) = scan (keep s) rest :=
  scan_append keep h []

variable {name key : List Char} {attributes : List (String × String)}

theorem scan_attribute (a : String × String) (ha : '=' ∉ a.1.toList) :
    scan (.inside name attributes) ((writeAttribute a).toList ++ rest) =
      scan (.inside name (attributes ++ [a])) rest := by
  have hwritten : (writeAttribute a).toList ++ rest =
      ' ' :: (a.1.toList ++ '=' :: '"' :: ((escapeValue a.2).toList ++ '"' :: rest)) := by
    simp [writeAttribute]
  have hspace : step (.inside name attributes) ' ' = some ([], .key name attributes []) := rfl
  have hkey (rest : List Char) : scan (.key name attributes []) (a.1.toList ++ rest) =
      scan (.key name attributes a.1.toList) rest := by
    refine scan_keep (.key name attributes) ?_
    intro kept c hc
    have hne : c ≠ '=' := by
      rintro rfl
      exact ha hc
    simp [step, hne]
  have hequals : step (.key name attributes a.1.toList) '=' =
      some ([], .assigned name attributes a.1.toList) := rfl
  have hquote : step (.assigned name attributes a.1.toList) '"' =
      some ([], .value name attributes a.1.toList []) := rfl
  have hvalue (rest : List Char) :
      scan (.value name attributes a.1.toList []) ((escapeValue a.2).toList ++ rest) =
        scan (.value name attributes a.1.toList (escapeValue a.2).toList) rest := by
    refine scan_keep (.value name attributes a.1.toList) ?_
    intro kept c hc
    simp [step, ne_of_mem_escapeValue hc]
  have hclosed : step (.value name attributes a.1.toList (escapeValue a.2).toList) '"' =
      some ([], .inside name (attributes ++ [a])) := by
    simp [step, decode_escapeValue]
  rw [hwritten, scan_cons_of_nil hspace, hkey, scan_cons_of_nil hequals, scan_cons_of_nil hquote,
    hvalue, scan_cons_of_nil hclosed]

theorem scan_attributes (more : List (String × String)) (hmore : ∀ a ∈ more, '=' ∉ a.1.toList) :
    scan (.inside name attributes) ((String.join (more.map writeAttribute)).toList ++ rest) =
      scan (.inside name (attributes ++ more)) rest := by
  induction more generalizing attributes with
  | nil => simp
  | cons a more ih =>
    have hrest : ∀ b ∈ more, '=' ∉ b.1.toList := fun b hb => hmore b (List.mem_cons_of_mem a hb)
    rw [List.map_cons, String.join_cons, String.toList_append, List.append_assoc,
      scan_attribute a (hmore a List.mem_cons_self), ih hrest, List.append_assoc,
      List.singleton_append]

/-- The keys of the attributes can be told from what comes after them, and none is that of the
classes. -/
def Keyed (head : StartTag) : Prop := ∀ a ∈ head.attributes, a.1 ≠ "class" ∧ '=' ∉ a.1.toList

theorem Keyed.not_mem {head : StartTag} (h : Keyed head) :
    ∀ a ∈ Html.attributes head, '=' ∉ a.1.toList := by
  intro a ha
  unfold Html.attributes at ha
  split at ha
  · exact (h a ha).2
  · rcases List.mem_cons.mp ha with rfl | ha
    · exact (by decide : '=' ∉ "class".toList)
    · exact (h a ha).2

/-- The name of a tag begins with no slash and goes on to no character that ends it. -/
theorem exists_name_eq (tag : Tag) :
    ∃ c cs, tag.name.toList = c :: cs ∧ c ≠ '/' ∧ ∀ d ∈ c :: cs, d ≠ '>' ∧ d ≠ ' ' := by
  cases tag with
  | pre => exact ⟨'p', ['r', 'e'], rfl, by simp⟩
  | span => exact ⟨'s', ['p', 'a', 'n'], rfl, by simp⟩
  | a => exact ⟨'a', [], rfl, by simp⟩
  | dfn => exact ⟨'d', ['f', 'n'], rfl, by simp⟩

/-- What comes after the name of a start tag is read as after a value. -/
theorem scan_opening {c : Char} (h : c = '>' ∨ c = ' ') :
    scan (.opening name) (c :: rest) = scan (.inside name []) (c :: rest) := by
  rw [scan, scan, step, if_pos h, step]

theorem scan_startTag {head : StartTag} (h : Keyed head) :
    scan (.text s) ((startTag head).toList ++ rest) =
      (scan (.text []) rest).map
        (flush s ++ .opening head.tag.name (Html.attributes head) :: ·) := by
  obtain ⟨c, cs, hname, hslash, hends⟩ := exists_name_eq head.tag
  have hwritten : (startTag head).toList ++ rest = '<' :: c :: (cs ++
      ((String.join ((Html.attributes head).map writeAttribute)).toList ++ '>' :: rest)) := by
    simp [startTag, hname]
  have htag : step .tag c = some ([], .opening [c]) := by
    simp [step, hslash]
  have hopening (rest : List Char) :
      scan (.opening [c]) (cs ++ rest) = scan (.opening head.tag.name.toList) rest := by
    rw [hname]
    refine scan_append .opening ?_ [c]
    intro kept d hd
    obtain ⟨hgt, hspace⟩ := hends d (List.mem_cons_of_mem c hd)
    simp [step, hgt, hspace]
  -- after the name there is a space or the end of the tag
  have hinside : scan (.opening head.tag.name.toList)
      ((String.join ((Html.attributes head).map writeAttribute)).toList ++ '>' :: rest) =
        scan (.inside head.tag.name.toList (Html.attributes head)) ('>' :: rest) := by
    have hattributes : scan (.inside head.tag.name.toList [])
        ((String.join ((Html.attributes head).map writeAttribute)).toList ++ '>' :: rest) =
          scan (.inside head.tag.name.toList (Html.attributes head)) ('>' :: rest) :=
      scan_attributes (Html.attributes head) h.not_mem
    rw [← hattributes]
    cases Html.attributes head with
    | nil => exact scan_opening (.inl rfl)
    | cons a more =>
      rw [List.map_cons, String.join_cons, writeAttribute]
      simp only [String.append_assoc, String.toList_append]
      exact scan_opening (.inr rfl)
  have hend : step (.inside head.tag.name.toList (Html.attributes head)) '>' =
      some ([.opening head.tag.name (Html.attributes head)], .text []) := by
    simp [step, stepInside]
  rw [hwritten, scan_cons (step_text_lt s), scan_cons_of_nil htag, hopening, hinside,
    scan_cons hend, Option.map_map]
  rfl

theorem scan_endTag (head : StartTag) :
    scan (.text s) ((endTag head).toList ++ rest) =
      (scan (.text []) rest).map (flush s ++ .closing head.tag.name :: ·) := by
  obtain ⟨c, cs, hname, -, hends⟩ := exists_name_eq head.tag
  have hwritten : (endTag head).toList ++ rest =
      '<' :: '/' :: (head.tag.name.toList ++ '>' :: rest) := by
    simp [endTag]
  have hslash : step .tag '/' = some ([], .closing []) := rfl
  have hclosing (rest : List Char) : scan (.closing []) (head.tag.name.toList ++ rest) =
      scan (.closing head.tag.name.toList) rest := by
    refine scan_keep .closing ?_
    intro kept d hd
    rw [hname] at hd
    simp [step, (hends d hd).1]
  have hend : step (.closing head.tag.name.toList) '>' =
      some ([.closing head.tag.name], .text []) := by
    simp [step]
  rw [hwritten, scan_cons (step_text_lt s), scan_cons_of_nil hslash, hclosing, scan_cons hend,
    Option.map_map]
  rfl

/-- A text is read as one up to the tag that comes after it, or up to the end. -/
theorem scan_text {text : String} (htext : text ≠ "") (hrest : ∀ c ∈ rest.head?, c = '<') :
    scan (.text []) ((escapeText text).toList ++ rest) =
      (scan (.text []) rest).map (Piece.text text :: ·) := by
  have hkept (rest : List Char) : scan (.text []) ((escapeText text).toList ++ rest) =
      scan (.text (escapeText text).toList) rest := by
    refine scan_keep .text ?_
    intro kept c hc
    simp [step, ne_of_mem_escapeText hc]
  have hflush : flush (escapeText text).toList = [.text text] := by
    rw [flush, if_neg (escapeText_ne_nil htext), decode_escapeText, String.ofList_toList]
  rw [hkept]
  cases rest with
  | nil =>
    rw [scan, scan, hflush]
    rfl
  | cons c rest =>
    obtain rfl : c = '<' := hrest c rfl
    rw [scan_cons (step_text_lt _), scan_cons (step_text_lt []), Option.map_map, hflush]
    rfl

/-- The HTML of nodes after a text begins with a tag, or what comes after it does. -/
theorem head?_htmlOf {nodes : List Markup} (h : ∀ node ∈ nodes.head?, node.isText = false)
    (hrest : ∀ c ∈ rest.head?, c = '<') :
    ∀ c ∈ ((htmlOf nodes).toList ++ rest).head?, c = '<' := by
  intro c hc
  cases nodes with
  | nil => exact hrest c (by simpa [htmlOf] using hc)
  | cons node nodes =>
    cases node with
    | text s => cases h _ rfl
    | element head children =>
      simp only [htmlOf, Markup.html, startTag, String.toList_append] at hc
      exact (Option.some.inj hc).symm

/-- Every element in nodes in a row can be told from what is around it. -/
def Apart (nodes : List Markup) : Prop := Settled nodes ∧ Made Keyed nodes

theorem Apart.text {s : String} {nodes : List Markup} (h : Apart (.text s :: nodes)) :
    s ≠ "" ∧ Apart nodes :=
  ⟨h.1.text_ne s List.mem_cons_self, h.1.tail, (made_text_cons s).mp h.2⟩

theorem Apart.element {head : StartTag} {children nodes : List Markup}
    (h : Apart (.element head children :: nodes)) :
    Keyed head ∧ Apart children ∧ Apart nodes := by
  obtain ⟨⟨hkeyed, hsettled⟩, hchildren, hnodes⟩ := made_element_cons.mp h.2
  exact ⟨hkeyed, ⟨hsettled, hchildren⟩, h.1.tail, hnodes⟩

theorem map_append_map (xs ys : List Piece) (found : Option (List Piece)) :
    (found.map (ys ++ ·)).map (xs ++ ·) = found.map (xs ++ ys ++ ·) := by
  cases found with
  | none => rfl
  | some zs => exact congrArg some (List.append_assoc xs ys zs).symm

/-- **The tags and texts of written markup are those of the markup.** -/
theorem scan_htmlOf {nodes : List Markup} (h : Apart nodes) {rest : List Char}
    (hrest : ∀ c ∈ rest.head?, c = '<') :
    scan (.text []) ((htmlOf nodes).toList ++ rest) =
      (scan (.text []) rest).map (piecesOf nodes ++ ·) := by
  match nodes with
  | [] =>
    rw [htmlOf, piecesOf]
    simp
  | .text s :: nodes =>
    obtain ⟨htext, hafter⟩ := h.text
    have hnodes := scan_htmlOf hafter hrest
    rw [htmlOf, Markup.html, String.toList_append, List.append_assoc,
      scan_text htext (head?_htmlOf h.1.isText_head hrest), hnodes]
    exact map_append_map [.text s] (piecesOf nodes) _
  | .element head children :: nodes =>
    obtain ⟨hkeyed, hchildren, hafter⟩ := h.element
    have hnodes := scan_htmlOf hafter hrest
    have hclosed : ∀ c ∈ ((endTag head).toList ++ ((htmlOf nodes).toList ++ rest)).head?,
        c = '<' := by
      intro c hc
      simp only [endTag, String.toList_append] at hc
      exact (Option.some.inj hc).symm
    have hinside := scan_htmlOf hchildren hclosed
    rw [htmlOf, Markup.html]
    simp only [String.toList_append, List.append_assoc]
    rw [scan_startTag hkeyed, hinside, scan_endTag, hnodes]
    cases scan (.text []) rest with
    | none => rfl
    | some found => simp [flush, piecesOf, pieces]

theorem scan_htmlOf_eq {nodes : List Markup} (h : Apart nodes) :
    scan (.text []) (htmlOf nodes).toList = some (piecesOf nodes) := by
  have hend : ∀ c ∈ ([] : List Char).head?, c = '<' := nofun
  have hscan := scan_htmlOf h hend
  rwa [List.append_nil, scan, flush, if_pos rfl, Option.map_some, List.append_nil] at hscan

end Scan

/-! ### Assembling what is written -/

/-- A name of a class: it can be told from the others in the value of an attribute. -/
def IsClassName (c : String) : Prop := c ≠ "" ∧ ' ' ∉ c.toList

def Classed (head : StartTag) : Prop := ∀ c ∈ head.classes, IsClassName c

theorem classNames_intercalate {classes : List String} (hne : classes ≠ [])
    (h : ∀ c ∈ classes, IsClassName c) : classNames (" ".intercalate classes) = classes := by
  have hspace : ∀ s ∈ classes.map String.toList, ' ' ∉ s := by
    intro s hs
    obtain ⟨c, hc, rfl⟩ := List.mem_map.mp hs
    exact (h c hc).2
  have hsplit : (" ".intercalate classes).toList.splitOn ' ' = classes.map String.toList := by
    rw [String.toList_intercalate]
    exact List.splitOn_intercalate ' ' hspace (by simpa using hne)
  have hfilter : (classes.map String.toList).filter (· ≠ []) = classes.map String.toList := by
    apply List.filter_eq_self.mpr
    intro s hs
    obtain ⟨c, hc, rfl⟩ := List.mem_map.mp hs
    simpa using (h c hc).1
  rw [classNames, hsplit, hfilter, List.map_map]
  simp [Function.comp_def]

theorem startTag?_attributes {head : StartTag} (hkeyed : Keyed head) (hclassed : Classed head) :
    startTag? head.tag.name (Html.attributes head) = some head := by
  have htag : Tag.ofName? head.tag.name = some head.tag := by
    cases head.tag <;> decide
  have hlookup : head.attributes.lookup "class" = none := by
    apply List.lookup_eq_none_iff.mpr
    intro a ha
    simpa using (hkeyed a ha).1.symm
  have hfilter : head.attributes.filter (·.1 ≠ "class") = head.attributes := by
    apply List.filter_eq_self.mpr
    intro a ha
    simpa using (hkeyed a ha).1
  obtain ⟨tag, classes, attributes⟩ := head
  rw [startTag?, htag, Option.map_some, Html.attributes]
  cases classes with
  | nil => simpa [hlookup] using hfilter
  | cons c classes =>
    have hnames := classNames_intercalate (List.cons_ne_nil c classes) hclassed
    simp [hnames] at hfilter ⊢
    exact hfilter

/-- Every start tag in nodes in a row can be read back. -/
def Legible (nodes : List Markup) : Prop := Made (fun head => Keyed head ∧ Classed head) nodes

/-- Elements that are read are put where they were. -/
theorem assemble_piecesOf {nodes : List Markup} (h : Legible nodes) (rest : List Piece)
    (before : List Markup) (stack : List (StartTag × List Markup)) :
    assemble (piecesOf nodes ++ rest) before stack = assemble rest (before ++ nodes) stack := by
  match nodes with
  | [] => rw [piecesOf, List.nil_append, List.append_nil]
  | .text s :: nodes =>
    have hnodes := assemble_piecesOf ((made_text_cons s).mp h) rest (before ++ [.text s]) stack
    rw [piecesOf, pieces, List.singleton_append, List.cons_append, assemble, hnodes,
      List.append_assoc, List.singleton_append]
  | .element head children :: nodes =>
    obtain ⟨⟨⟨hkeyed, hclassed⟩, -⟩, hchildren, hafter⟩ := made_element_cons.mp h
    have hinside := assemble_piecesOf hchildren
      (.closing head.tag.name :: (piecesOf nodes ++ rest)) [] ((head, before) :: stack)
    have hnodes := assemble_piecesOf hafter rest (before ++ [.element head children]) stack
    rw [piecesOf, pieces]
    simp only [List.cons_append, List.append_assoc, List.nil_append]
    rw [assemble, startTag?_attributes hkeyed hclassed, Option.bind_some, hinside, assemble,
      if_pos rfl, List.nil_append, hnodes, List.append_assoc, List.singleton_append]

/-- **Written markup is read back.** -/
theorem read?_htmlOf {nodes : List Markup} (hsettled : Settled nodes) (h : Legible nodes) :
    read? (htmlOf nodes) = some nodes := by
  have hkeyed : Made Keyed nodes := fun e he => ⟨(h e he).1.1, (h e he).2⟩
  have hpieces := scan_htmlOf_eq ⟨hsettled, hkeyed⟩
  have hassemble := assemble_piecesOf h [] [] []
  rw [List.append_nil, List.nil_append] at hassemble
  rw [read?, hpieces, Option.bind_some, hassemble, assemble]

/-! ### Text -/

theorem join_text?_piecesOf (nodes : List Markup) :
    String.join ((piecesOf nodes).filterMap Piece.text?) = textContents nodes := by
  match nodes with
  | [] => simp [piecesOf]
  | .text s :: nodes =>
    have hnodes := join_text?_piecesOf nodes
    simp [piecesOf, pieces, Piece.text?, hnodes]
  | .element head children :: nodes =>
    have hchildren := join_text?_piecesOf children
    have hnodes := join_text?_piecesOf nodes
    have hpieces : (piecesOf (.element head children :: nodes)).filterMap Piece.text? =
        (piecesOf children).filterMap Piece.text? ++ (piecesOf nodes).filterMap Piece.text? := by
      rw [piecesOf, pieces]
      simp only [List.cons_append, List.append_assoc, List.nil_append]
      rw [List.filterMap_cons_none rfl, List.filterMap_append, List.filterMap_cons_none rfl]
    rw [hpieces, String.join_append, hchildren, hnodes, textContents_cons, textContent_element]

/-- **Without its tags, written markup is its text.** -/
theorem text?_htmlOf {nodes : List Markup} (h : Apart nodes) :
    text? (htmlOf nodes) = some (textContents nodes) := by
  rw [text?, scan_htmlOf_eq h, Option.map_some, join_text?_piecesOf]

end Html

end WebIdl
