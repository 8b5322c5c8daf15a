/-!
# The vocabulary of Web IDL

Names that mean something without being defined in any block: the builtin types, the extended
attributes of the Web IDL specification, and the globals that interfaces are exposed on. Types and
extended attributes have anchors in that specification.
-/

namespace WebIdl.Vocabulary

/-- Builtin types that take no arguments. -/
def simpleTypes : List String :=
  ["any", "ArrayBuffer", "BigInt64Array", "BigUint64Array", "bigint", "boolean", "BufferSource",
   "byte", "ByteString", "DataView", "DOMException", "DOMString", "double", "float",
   "Float32Array", "Float64Array", "Function", "Int16Array", "Int32Array", "Int8Array", "long",
   "long long", "object", "octet", "short", "symbol", "Uint16Array", "Uint32Array", "Uint8Array",
   "Uint8ClampedArray", "undefined", "unrestricted double", "unrestricted float",
   "unsigned long", "unsigned long long", "unsigned short", "USVString", "void", "VoidFunction"]

/-- Builtin types that take arguments in angle brackets, and their anchors. -/
def genericTypes : List (String × String) :=
  [("sequence", "idl-sequence"), ("Promise", "idl-promise"), ("FrozenArray", "idl-frozen-array"),
   ("ObservableArray", "idl-observable-array"), ("record", "idl-record"),
   ("async_sequence", "idl-async-sequence")]

def extendedAttributes : List String :=
  ["AllowResizable", "AllowShared", "Clamp", "Constructor", "CrossOriginIsolated", "Default",
   "EnforceRange", "Exposed", "Global", "LegacyFactoryFunction", "LegacyLenientSetter",
   "LegacyLenientThis", "LegacyNamespace", "LegacyNoInterfaceObject", "LegacyNullToEmptyString",
   "LegacyOverrideBuiltIns", "LegacyTreatNonObjectAsNull", "LegacyUnenumerableNamedProperties",
   "LegacyUnforgeable", "LegacyWindowAlias", "NamedConstructor", "NewObject",
   "NoInterfaceObject", "PutForwards", "Replaceable", "SameObject", "SecureContext", "Unscopable"]

/-- The names of globals, and the interface of each. -/
def globals : List (String × String) :=
  [("Window", "Window"), ("Worker", "WorkerGlobalScope"),
   ("DedicatedWorker", "DedicatedWorkerGlobalScope"),
   ("SharedWorker", "SharedWorkerGlobalScope"), ("ServiceWorker", "ServiceWorkerGlobalScope"),
   ("Worklet", "WorkletGlobalScope"), ("AudioWorklet", "AudioWorkletGlobalScope"),
   ("PaintWorklet", "PaintWorkletGlobalScope"), ("LayoutWorklet", "LayoutWorkletGlobalScope"),
   ("AnimationWorklet", "AnimationWorkletGlobalScope")]

/-- The anchor of what `[Default] toJSON()` does. -/
def defaultToJsonAnchor : String := "default-tojson-operation"

def isGeneric (name : String) : Bool := genericTypes.any (·.1 == name)

/-- The anchor of a builtin type; that of a type without arguments is its name, with hyphens for
blanks. -/
def typeAnchor? (name : String) : Option String :=
  match genericTypes.lookup name with
  | some anchor => some anchor
  | none =>
    if simpleTypes.contains name then
      some ("idl-" ++ name.map fun c => if c == ' ' then '-' else c)
    else none

def isBuiltinType (name : String) : Bool := (typeAnchor? name).isSome

/-- The anchor of an extended attribute is its name. -/
def extAttrAnchor? (name : String) : Option String :=
  if extendedAttributes.contains name then some name else none

def globalInterface? (name : String) : Option String := globals.lookup name

end WebIdl.Vocabulary
