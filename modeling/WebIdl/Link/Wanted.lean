import WebIdl.Syntax.Definition
import WebIdl.Vocabulary

/-!
# Wanted types

The names in a definition that are resolved as types, which is what has to be looked up before the
definition is rendered: the names in its types, what it inherits from, the operands of an includes
statement, the name that a partial definition extends, and the interfaces of the globals that its
extended attributes name.
-/

namespace WebIdl

/-! ### Types, arguments and extended attributes -/

/-- The interfaces of the globals that an extended attribute names. -/
def ExtAttr.globalsWanted (attr : ExtAttr) : List String :=
  if attr.namesGlobals then attr.valueNames.filterMap Vocabulary.globalInterface? else []

mutual

def ExtAttrList.wanted : ExtAttrList → List String
  | .mk _ items _ => extAttrsWanted items

def extAttrsWanted : Separated ExtAttr → List String
  | .last attr => attr.wanted
  | .cons attr _ rest => attr.wanted ++ extAttrsWanted rest

def ExtAttr.wanted : ExtAttr → List String
  | .mk name assignment none => (ExtAttr.mk name assignment none).globalsWanted
  | .mk name assignment (some arguments) =>
    (ExtAttr.mk name assignment none).globalsWanted ++ arguments.wanted

def ArgumentList.wanted : ArgumentList → List String
  | .mk _ none _ => []
  | .mk _ (some items) _ => argumentsWanted items

def argumentsWanted : Separated Argument → List String
  | .last argument => argument.wanted
  | .cons argument _ rest => argument.wanted ++ argumentsWanted rest

def Argument.wanted : Argument → List String
  | .required none type _ _ => type.wanted
  | .required (some attrs) type _ _ => attrs.wanted ++ type.wanted
  | .optional none _ type _ _ => type.wanted
  | .optional (some attrs) _ type _ _ => attrs.wanted ++ type.wanted

/-- The extended attributes of the types inside a type are passed over. -/
def IdlType.wanted : IdlType → List String
  | .mk none form _ => form.references
  | .mk (some attrs) form _ => attrs.wanted ++ form.references

end

/-! ### Members and definitions -/

namespace Member.Form

def wanted : Form → List String
  | .attribute _ _ type _ _ => type.wanted
  | .operation _ type _ arguments _ => type.wanted ++ arguments.wanted
  | .stringifier .. => []
  | .constructor _ arguments _ => arguments.wanted
  | .constant _ type _ _ _ _ => type.wanted
  | .field _ type _ _ _ => type.wanted
  | .enumValue .. => []
  | .declaration _ _ _ types _ arguments _ =>
    types.items.flatMap (·.wanted) ++ arguments.elim [] (·.wanted)

end Member.Form

namespace Member

def wanted (member : Member) : List String :=
  member.attrs.elim [] (·.wanted) ++ member.form.wanted

end Member

namespace Definition

def Form.wanted : Form → List String
  | .container _ _ _ body => body.members.flatMap (·.wanted)
  | .typedef _ type _ _ => type.wanted
  | .callback _ _ _ result arguments _ => result.wanted ++ arguments.wanted
  | .includes name _ mixin _ => [name.name, mixin.name]

/-- The wanted names, each at its first occurrence. -/
def wanted (definition : Definition) : List String :=
  (definition.attrs.elim [] (·.wanted)
    ++ (if definition.isPartial then [definition.name] else [])
    ++ definition.parentName?.toList
    ++ definition.form.wanted).eraseDups

end Definition

end WebIdl
