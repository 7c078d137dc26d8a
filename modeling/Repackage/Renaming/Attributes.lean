import Repackage.ClassFile.Attribute
import Repackage.Renaming.Rewriter

/-!
# Renaming in attributes

Each rewrite gives `none` if nothing changed and the new value otherwise. A value also
counts as changed if only the constants behind its indices changed.

Texts in element values are entries of the pool in their own right and are left to the
renaming of the pool. Nest and module attributes are not renamed, which is told.
-/

namespace Repackage

variable {α : Type}

/-- A list whose head or tail may have changed. -/
def consChanged (x : α) (xs : List α) : Option α → Option (List α) → Option (List α)
  | none, none => none
  | x', xs' => some (x'.getD x :: xs'.getD xs)

/-- Rewrites the items of a list; `none` if none of them changed. -/
def rewriteEach {m : Type → Type} [Monad m] (rewrite : α → m (Option α)) :
    List α → m (Option (List α))
  | [] => return none
  | x :: xs => do
    let x' ← rewrite x
    let xs' ← rewriteEach rewrite xs
    return consChanged x xs x' xs'

namespace Rewrite

/-- A reference to a class keeps its index. -/
def rewriteClass (i : Index) : Rewrite (Option Index) := do
  return if ← renameClass i then some i else none

/-! ## Annotations -/

mutual

def rewriteValue : ElementValue → Rewrite (Option ElementValue)
  | .const _ _ => return none
  | .enumConst type name => do
    return (← renameUtf8 .descriptor type).map (.enumConst · name)
  | .classLiteral descriptor => do
    return (← renameUtf8 .classLiteral descriptor).map .classLiteral
  | .nested a => do return (← rewriteAnnotationInfo a).map .nested
  | .array values => do return (← rewriteValues values).map .array

def rewriteValues : List ElementValue → Rewrite (Option (List ElementValue))
  | [] => return none
  | v :: vs => do
    let v' ← rewriteValue v
    let vs' ← rewriteValues vs
    return consChanged v vs v' vs'

def rewriteAnnotationInfo : AnnotationInfo → Rewrite (Option AnnotationInfo)
  | ⟨type, elements⟩ => do
    let type' ← renameUtf8 .descriptor type
    let elements' ← rewriteElements elements
    if type'.isNone && elements'.isNone then return none
    return some ⟨type'.getD type, elements'.getD elements⟩

def rewriteElements :
    List (Index × ElementValue) → Rewrite (Option (List (Index × ElementValue)))
  | [] => return none
  | (name, v) :: rest => do
    let v' ← rewriteValue v
    let rest' ← rewriteElements rest
    return consChanged (name, v) rest (v'.map (name, ·)) rest'

end

def rewriteTypeAnnotationInfo (a : TypeAnnotationInfo) : Rewrite (Option TypeAnnotationInfo) := do
  return (← rewriteAnnotationInfo a.info).map fun info => { a with info }

/-! ## Frames -/

def rewriteVerificationType : VerificationType → Rewrite (Option VerificationType)
  | .object i => do return (← rewriteClass i).map .object
  | _ => return none

def rewriteFrame : Frame → Rewrite (Option Frame)
  | .same _ | .chop _ _ | .sameExtended _ => return none
  | .sameLocalsOneStack delta stack => do
    return (← rewriteVerificationType stack).map (.sameLocalsOneStack delta)
  | .sameLocalsOneStackExtended delta stack => do
    return (← rewriteVerificationType stack).map (.sameLocalsOneStackExtended delta)
  | .append delta locals => do
    return (← rewriteEach rewriteVerificationType locals).map (.append delta)
  | .full delta locals stack => do
    let locals' ← rewriteEach rewriteVerificationType locals
    let stack' ← rewriteEach rewriteVerificationType stack
    if locals'.isNone && stack'.isNone then return none
    return some (.full delta (locals'.getD locals) (stack'.getD stack))

/-! ## Other parts -/

def rewriteHandler (h : Handler) : Rewrite (Option Handler) := do
  match h.catchType with
  | none => return none
  | some i => return if ← renameClass i then some h else none

def rewriteInnerClass (c : InnerClass) : Rewrite (Option InnerClass) := do
  let inner ← renameClass c.inner
  let outer ← match c.outer with
    | some i => renameClass i
    | none => pure false
  return if inner || outer then some c else none

/-- The type of a local variable is a descriptor or a signature, as the role says. -/
def rewriteVariable (role : Role) (v : LocalVariable) : Rewrite (Option LocalVariable) := do
  return (← renameUtf8 role v.type).map fun type => { v with type }

/-- Of the constants that a field can start with, only strings are renamed. -/
def renameConstantValue (i : Index) : Rewrite Bool := do
  match ← constant i with
  | .string _ => renameStringConstant i
  | _ => return false

/-- Attributes that are kept as bytes although packages are named in them. -/
def moduleAttributes : List String := ["Module", "ModulePackages", "ModuleMainClass"]

/-! ## Attributes -/

mutual

/-- The kind says what the attribute belongs to, which decides how a signature is read. -/
def rewriteAttribute (kind : SignatureKind) : Attribute → Rewrite (Option Attribute)
  | ⟨name, body⟩ => do return (← rewriteBody kind name body).map (⟨name, ·⟩)

def rewriteBody (kind : SignatureKind) (name : Index) :
    AttributeBody → Rewrite (Option AttributeBody)
  | .constantValue i => do
    return if ← renameConstantValue i then some (.constantValue i) else none
  | .code c => do return (← rewriteCode c).map .code
  | .stackMapTable frames => do
    return (← rewriteEach rewriteFrame frames).map .stackMapTable
  | .exceptions classes => do return (← rewriteEach rewriteClass classes).map .exceptions
  | .innerClasses classes => do
    return (← rewriteEach rewriteInnerClass classes).map .innerClasses
  | .enclosingMethod owner method => do
    let ownerChanged ← renameClass owner
    let methodChanged ← match method with
      | some i => renameNameAndType i
      | none => pure false
    return if ownerChanged || methodChanged then some (.enclosingMethod owner method) else none
  | .signature text => do return (← renameUtf8 (.signature kind) text).map .signature
  | .localVariableTable vars => do
    return (← rewriteEach (rewriteVariable .descriptor) vars).map .localVariableTable
  | .localVariableTypeTable vars => do
    return (← rewriteEach (rewriteVariable (.signature .ofField)) vars).map
      .localVariableTypeTable
  | .annotations retention as => do
    return (← rewriteEach rewriteAnnotationInfo as).map (.annotations retention)
  | .parameterAnnotations retention ps => do
    return (← rewriteEach (rewriteEach rewriteAnnotationInfo) ps).map
      (.parameterAnnotations retention)
  | .typeAnnotations retention as => do
    return (← rewriteEach rewriteTypeAnnotationInfo as).map (.typeAnnotations retention)
  | .annotationDefault value => do return (← rewriteValue value).map .annotationDefault
  | .nestHost _ | .nestMembers _ => do
    tell .nestSkipped
    return none
  | .other _ => do
    let text ← (← get).pool.utf8 name
    if moduleAttributes.contains text then tell (.moduleSkipped text)
    return none

def rewriteCode : Code → Rewrite (Option Code)
  | ⟨maxStack, maxLocals, instructions, handlers, attributes⟩ => do
    let handlers' ← rewriteEach rewriteHandler handlers
    let attributes' ← rewriteAttributes .ofMethod attributes
    if handlers'.isNone && attributes'.isNone then return none
    return some ⟨maxStack, maxLocals, instructions, handlers'.getD handlers,
      attributes'.getD attributes⟩

def rewriteAttributes (kind : SignatureKind) : List Attribute → Rewrite (Option (List Attribute))
  | [] => return none
  | a :: rest => do
    let a' ← rewriteAttribute kind a
    let rest' ← rewriteAttributes kind rest
    return consChanged a rest a' rest'

end

end Rewrite

end Repackage
