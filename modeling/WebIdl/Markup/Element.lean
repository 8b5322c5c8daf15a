/-!
# Markup

A small tree of elements and text. An element has classes, none twice, and other attributes, no name
twice, both in the order in which they were added. Between its children there are no empty texts and
no two texts in a row: texts that meet are joined.
-/

namespace WebIdl

inductive Tag where
  | pre | span | a | dfn
deriving DecidableEq, Repr

namespace Tag

def name : Tag → String
  | .pre => "pre"
  | .span => "span"
  | .a => "a"
  | .dfn => "dfn"

def all : List Tag := [.pre, .span, .a, .dfn]

def ofName? (name : String) : Option Tag := all.find? (·.name == name)

end Tag

/-- What the start tag of an element says. -/
structure StartTag where
  tag : Tag
  classes : List String
  /-- The attributes other than `class`. -/
  attributes : List (String × String)
deriving DecidableEq, Repr

namespace StartTag

def ofTag (tag : Tag) : StartTag := ⟨tag, [], []⟩

def hasClass (head : StartTag) (c : String) : Bool := head.classes.contains c

def addClass (head : StartTag) (c : String) : StartTag :=
  if head.hasClass c then head else { head with classes := head.classes ++ [c] }

/-- Sets an attribute, which keeps its place if it has one. -/
def put (name value : String) : List (String × String) → List (String × String)
  | [] => [(name, value)]
  | (n, v) :: rest =>
    if n = name then (name, value) :: rest else (n, v) :: put name value rest

def setAttr (head : StartTag) (name value : String) : StartTag :=
  { head with attributes := put name value head.attributes }

/-- Sets an attribute if there is a value for it. -/
def setAttr? (head : StartTag) (name : String) (value : Option String) : StartTag :=
  match value with
  | some value => head.setAttr name value
  | none => head

def attr? (head : StartTag) (name : String) : Option String := head.attributes.lookup name

def id? (head : StartTag) : Option String := head.attr? "id"

def span (c : String) : StartTag := (ofTag .span).addClass c

end StartTag

inductive Markup where
  | text (text : String)
  | element (head : StartTag) (children : List Markup)

namespace Markup

/-- Drops empty texts and joins those that meet. -/
def join : List Markup → List Markup
  | [] => []
  | .text s :: rest =>
    if s.isEmpty then join rest
    else match join rest with
      | .text t :: rest => .text (s ++ t) :: rest
      | rest => .text s :: rest
  | .element head children :: rest => .element head children :: join rest

/-- An element around nodes in a row. -/
def wrap (head : StartTag) (nodes : List Markup) : Markup := .element head (join nodes)

/-- An element around a text. -/
def label (head : StartTag) (text : String) : Markup := wrap head [.text text]

mutual

def textContent : Markup → String
  | .text s => s
  | .element _ children => textContents children

/-- The text of nodes in a row. -/
def textContents : List Markup → String
  | [] => ""
  | node :: nodes => textContent node ++ textContents nodes

end

end Markup

structure Element where
  head : StartTag
  children : List Markup

namespace Element

def ofTag (tag : Tag) : Element := ⟨.ofTag tag, []⟩

def addClass (element : Element) (c : String) : Element :=
  { element with head := element.head.addClass c }

def setAttr (element : Element) (name value : String) : Element :=
  { element with head := element.head.setAttr name value }

/-- Adds a child at the end. -/
def push (element : Element) (child : Markup) : Element :=
  { element with children := Markup.join (element.children ++ [child]) }

def markup (element : Element) : Markup := .element element.head element.children

def textContent (element : Element) : String := Markup.textContents element.children

end Element

namespace Markup

mutual

/-- The element of a node and those inside it, in order. -/
def elements : Markup → List Element
  | .text _ => []
  | .element head children => ⟨head, children⟩ :: elementsOf children

/-- The elements of nodes in a row. -/
def elementsOf : List Markup → List Element
  | [] => []
  | node :: nodes => elements node ++ elementsOf nodes

end

end Markup

namespace Element

/-- The elements inside an element, in order. -/
def descendants (element : Element) : List Element := Markup.elementsOf element.children

def findByClass (element : Element) (c : String) : List Element :=
  element.descendants.filter (·.head.hasClass c)

def findByTag (element : Element) (tag : Tag) : List Element :=
  element.descendants.filter (·.head.tag == tag)

def findByAttr? (element : Element) (name value : String) : Option Element :=
  element.descendants.find? (·.head.attr? name == some value)

end Element

end WebIdl
