import ClassFile.Layout.Annotations

/-!
# The layout of a method body

A method body is an attribute of a method, with a table of attributes in it. Here it is taken apart
as far as these attributes, and its code is left as it is. As for the other parts of a class file
there is the action for a body that was read before.

The last part says what only a walk through a body comes to: the classes that its code loads by
name, and the types that attributes in it mention (`ClassFile.RawAttribute.Harbours`).
-/

namespace ClassFile

/-- A method body. -/
structure RawCode where
  maxStack : UInt16
  maxLocals : UInt16
  code : Bytes
  /-- The handlers: the bytes that say where each is in force, and the index of the type that it
  catches. -/
  handlers : List (Bytes × UInt16)
  attributes : List RawAttribute
  deriving DecidableEq, Repr

namespace RawCode

/-- A handler is written with its type last. -/
def handlerForm : Form (Bytes × UInt16) := (Form.bytes 6).andThen fun _ => Form.u2

/-- A method body is written with the length of its code. -/
def form : Form RawCode where
  encode raw :=
    Form.u2.encode raw.maxStack ++ (Form.u2.encode raw.maxLocals ++
      (Bytes.bigEndian 4 raw.code.length ++ (raw.code ++
        (handlerForm.table.encode raw.handlers ++
          RawAttribute.form.table.encode raw.attributes))))
  Fits raw :=
    raw.code.length < UInt32.size ∧ handlerForm.table.Fits raw.handlers ∧
      RawAttribute.form.table.Fits raw.attributes

instance : DecidablePred handlerForm.Fits := fun raw =>
  inferInstanceAs (Decidable (raw.1.length = 6 ∧ True))

instance : DecidablePred form.Fits := fun raw =>
  inferInstanceAs (Decidable (raw.code.length < UInt32.size ∧ handlerForm.table.Fits raw.handlers ∧
    RawAttribute.form.table.Fits raw.attributes))

end RawCode

namespace Decode

/-- What `code` does with a method body. -/
def codeOf (context : Context) (raw : RawCode) : Decode Unit := do
  (handlers context).walk (← get).targets raw.code
  raw.handlers.forM fun handler => referClassConstant context handler.2
  attributesOf context (pure ()) .method 0 raw.attributes

end Decode

/-! ### Classes that are loaded by name -/

namespace Pool

/-- The methods that load classes in a class of this name. -/
def loaders (pool : Pool) (name : TypeName) : Targets where
  forName := pool.findMethod ⟨"java/lang/Class", "forName", Decode.loaderDescriptor⟩
  classDollar := pool.findMethod ⟨name.binary, "class$", Decode.loaderDescriptor⟩

/-- Takes down the names of the classes that are loaded, the last one first. -/
def scribe (pool : Pool) : Handlers (List String) where
  constant _ := pure ()
  method _ := pure ()
  text? _ index := pool.stringConstant index
  loaded text := modify (text :: ·)

/-- The names of the classes that a walk through code loads. -/
def loads (pool : Pool) (targets : Targets) (code : Bytes) : List String :=
  match pool.scribe.walk targets code [] with
  | .ok _ texts | .error _ texts => texts

end Pool

/-! ### Types that are mentioned -/

/-- The text at an index names a class, which is referred to as this type. -/
def Pool.Spells (pool : Pool) (index : UInt16) (type : TypeName) : Prop :=
  ∃ text name, pool.utf8 index = .ok text ∧ name ∈ (Signature.scan text).names ∧
    (TypeName.ofText name).referent = type

/-- The body of an attribute mentions a type: in an annotation that is visible at run time, in a
signature, or as an exception. -/
inductive AttributeKind.Mentions (pool : Pool) (type : TypeName) :
    AttributeKind → Bytes → Prop where
  | annotation {kind : AttributeKind} {body : Bytes} {index : UInt16} :
    kind.Annotates index body → pool.Spells index type → Mentions pool type kind body
  | signature {index : UInt16} (rest : Bytes) : pool.Spells index type →
    Mentions pool type .signature (Form.u2.encode index ++ rest)
  | exceptions {indices : List UInt16} {index : UInt16} {name : String} (rest : Bytes) :
    Form.u2.table.Fits indices → index ∈ indices → pool.className index = .ok name →
    (TypeName.ofText name).referent = type →
    Mentions pool type .exceptions (Form.u2.table.encode indices ++ rest)

/-- An attribute mentions a type, by what the pool says is its name. -/
def RawAttribute.Mentions (pool : Pool) (type : TypeName) (raw : RawAttribute) : Prop :=
  ∃ name, pool.utf8 raw.name = .ok name ∧ (AttributeKind.ofName name).Mentions pool type raw.body

/-- A walk through the body of an attribute, if that is a method body, comes to a type: its code
loads the class by name, or an attribute in it mentions the type. -/
def RawAttribute.Harbours (pool : Pool) (targets : Targets) (type : TypeName)
    (raw : RawAttribute) : Prop :=
  ∃ code rest, RawCode.form.Fits code ∧ raw.body = RawCode.form.encode code ++ rest ∧
    ((∃ text ∈ pool.loads targets code.code, Handlers.namesClass text = true ∧
        (TypeName.ofDotted text).referent = type) ∨
      ∃ inner ∈ code.attributes, inner.Mentions pool type)

/-- A walk through the method bodies of a class of this name comes to a type. -/
def Layout.Harbours (layout : Layout) (name type : TypeName) : Prop :=
  ∃ method ∈ layout.methods, ∃ raw ∈ method.attributes,
    layout.constants.utf8 raw.name = .ok "Code" ∧
      raw.Harbours layout.constants (layout.constants.loaders name) type

end ClassFile
