import WebIdl.Markup.Element

/-!
# HTML

Markup as HTML text. Ampersands and no-break spaces are written as entities everywhere, angle
brackets in text, and double quotes in the values of attributes.
-/

namespace WebIdl

namespace Html

def escapeTextChar (c : Char) : List Char :=
  if c = '&' then "&amp;".toList
  else if c = '\u00A0' then "&nbsp;".toList
  else if c = '<' then "&lt;".toList
  else if c = '>' then "&gt;".toList
  else [c]

def escapeValueChar (c : Char) : List Char :=
  if c = '&' then "&amp;".toList
  else if c = '\u00A0' then "&nbsp;".toList
  else if c = '"' then "&quot;".toList
  else [c]

def escapeText (s : String) : String := String.ofList (s.toList.flatMap escapeTextChar)

def escapeValue (s : String) : String := String.ofList (s.toList.flatMap escapeValueChar)

/-- The attributes of an element, the classes first if there are any. -/
def attributes (head : StartTag) : List (String × String) :=
  if head.classes.isEmpty then head.attributes
  else ("class", " ".intercalate head.classes) :: head.attributes

def writeAttribute (a : String × String) : String :=
  " " ++ a.1 ++ "=\"" ++ escapeValue a.2 ++ "\""

def startTag (head : StartTag) : String :=
  "<" ++ head.tag.name ++ String.join ((attributes head).map writeAttribute) ++ ">"

def endTag (head : StartTag) : String := "</" ++ head.tag.name ++ ">"

end Html

namespace Markup

mutual

def html : Markup → String
  | .text s => Html.escapeText s
  | .element head children => Html.startTag head ++ htmlOf children ++ Html.endTag head

/-- The HTML of nodes in a row. -/
def htmlOf : List Markup → String
  | [] => ""
  | node :: nodes => html node ++ htmlOf nodes

end

end Markup

namespace Element

def html (element : Element) : String := element.markup.html

end Element

end WebIdl
