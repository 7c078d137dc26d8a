import Repackage.ClassFile.Error
import Repackage.Renaming.Walked
import Repackage.Rules.Builder

/-!
# Renaming texts by their role

A descriptor or a signature is read into its tree, the classes in the tree are renamed,
and the tree is written again if a name changed. A text in no special role is tried as
all that it may be (`Table.renameText`).

`Role.rename` is the renaming of each role, and `Role.refusals` tells which new names it
refuses.
-/

namespace Repackage

namespace Table

/-- What is told when the table was built. -/
def announcement (t : Table) : Event := .tableBuilt t.rules.length t.direct.length

/-- A descriptor with its classes renamed, if a name in it changes. -/
def renameTree (t : Table) (d : Descriptor) : Option Descriptor :=
  let walked := d.renamed t
  if walked.changed then some walked.part else none

def renameDescriptor (t : Table) (text : String) : Except ClassError (Option String) :=
  match Descriptor.parse text with
  | .error cause => .error (.badDescriptor text cause)
  | .ok d => .ok ((t.renameTree d).map Descriptor.render)

/-- Like `renameDescriptor`, but `V` is also taken, which stands for no class. -/
def renameClassLiteral (t : Table) (text : String) : Except ClassError (Option String) :=
  if text = "V" then .ok none else t.renameDescriptor text

/-- A signature with its classes renamed, if a name in it changes. -/
def renameSignatureTree (t : Table) (s : Signature) : Option Signature :=
  let walked := s.renamed t
  if walked.changed then some walked.part else none

def renameSignature (t : Table) (kind : SignatureKind) (text : String) :
    Except ClassError (Option String) :=
  match Signature.parse kind text with
  | .error cause => .error (.badDescriptor text cause)
  | .ok s => .ok ((t.renameSignatureTree s).map Signature.render)

/-- The first stage for a text: a descriptor has its classes renamed, any other text its
dotted packages. -/
def renameAsDescriptor (t : Table) (text : String) : Option String :=
  match Descriptor.parse text with
  | .ok d => (t.renameTree d).map Descriptor.render
  | .error _ => t.replacePackages text .dotted

/-- The second stage for a text: a binary name is renamed as a class, any other text has
its packages with slashes renamed. -/
def renameAsType (t : Table) (text : String) : Option String :=
  if isBinaryName text then t.renameType text else t.replacePackages text .binary

/-- Renames a text that may be a type or have packages in it. The stages are tried in
order up to the first that changes something; the last is the replacement of the text as
a whole. A blank text never changes. -/
def renameText (t : Table) (text : String) : Option String :=
  if text.toList.all Text.isBlank then none
  else (t.renameAsDescriptor text).or ((t.renameAsType text).or (t.direct? text))

end Table

/-- What is told while a table is built. -/
def Builder.announcements (b : Builder) : List Event :=
  match b.forward with
  | .error _ => []
  | .ok t =>
    t.announcement ::
      if b.inverts then
        match t.inverted with
        | .ok t => [t.announcement]
        | .error _ => []
      else []

namespace Role

def rename (t : Table) : Role → String → Except ClassError (Option String)
  | .className, text => .ok (t.renameType text)
  | .descriptor, text => t.renameDescriptor text
  | .classLiteral, text => t.renameClassLiteral text
  | .signature kind, text => t.renameSignature kind text
  | .plain, text => .ok (t.renameText text)

/-- The refusals in a text that is read as a descriptor. -/
def descriptorRefusals (t : Table) (text : String) : List Event :=
  match Descriptor.parse text with
  | .ok d => (d.renamed t).told
  | .error _ => []

/-- Only descriptors refuse names. -/
def refusals (t : Table) : Role → String → List Event
  | .className, _ | .signature _, _ => []
  | .descriptor, text | .classLiteral, text | .plain, text => descriptorRefusals t text

end Role

end Repackage
