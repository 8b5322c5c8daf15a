import WebIdl.Text.Position

/-!
# Diagnostics

What is reported about a block: an error or a warning, with the place in the source where there is
one, a code that names the rule, and the member that it is about. A syntax error is reported as a
diagnostic whose message shows the lines around the error.
-/

namespace WebIdl

inductive Severity where
  | error | warning
deriving DecidableEq, Repr

namespace Severity

def name : Severity → String
  | .error => "error"
  | .warning => "warning"

end Severity

structure Diagnostic where
  range : Option Text.Range
  severity : Severity
  message : String
  code : Option String
  member : Option String
  /-- The component that reports. -/
  source : String
deriving DecidableEq

namespace Diagnostic

/-- The component that reads blocks. -/
def parserSource : String := "idlweave-parser"

/-- The component that checks and links them. -/
def engineSource : String := "idlweave-engine"

/-- A diagnostic with nothing but a message. -/
def ofMessage (severity : Severity) (message : String) : Diagnostic :=
  ⟨none, severity, message, none, none, parserSource⟩

def isError (diagnostic : Diagnostic) : Bool := diagnostic.severity == .error

/-- The diagnostic in one line, with the position where it starts. -/
def display (diagnostic : Diagnostic) : String :=
  diagnostic.severity.name ++ " [" ++ diagnostic.source ++ "]: " ++ diagnostic.message
    ++ diagnostic.range.elim "" fun range => " at " ++ range.start.display

end Diagnostic

/-- A place where the grammar cannot go on. -/
structure SyntaxError where
  message : String
  range : Text.Range
  /-- The definition that the error is in, or a name for the block. -/
  context : Option String
  /-- The lines before the error, and a caret under it. -/
  excerpt : String
deriving DecidableEq

namespace SyntaxError

def text (error : SyntaxError) : String :=
  "Syntax error at line " ++ toString (error.range.start.line + 1)
    ++ error.context.elim "" (fun context => ", since `" ++ context ++ "`") ++ ":\n"
    ++ error.excerpt ++ error.message

def diagnostic (error : SyntaxError) : Diagnostic :=
  { Diagnostic.ofMessage .error error.text with
    range := some error.range, code := some "syntax-error" }

end SyntaxError

end WebIdl
