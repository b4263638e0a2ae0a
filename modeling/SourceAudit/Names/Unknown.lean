import SourceAudit.Finding
import SourceAudit.Names.Function
import SourceAudit.Names.Local
import Std.Data.HashSet.Basic

/-!
# Unknown names

## Uses without an introduction

Every name in a function body is a use.  A use is unknown when the function does not introduce the
name and the allow list does not hold it.  Each unknown use is reported, also of the same name.
-/

namespace SourceAudit

structure NameUse where
  pos : Nat
  name : Text
  deriving DecidableEq, Repr

namespace Names

open Pattern

def readUse : Reader NameUse := fun c =>
  wordBoundary.run c fun c =>
    (seq name wordBoundary).run c fun d => some (d, { pos := c.pos, name := c.upTo d })

def usesIn (t : Text) : List NameUse :=
  readUse.scan t

/-- The unknown uses in one function, with their places in the whole text. -/
def unknownUsesIn (allowList : AllowList) (function : FunctionText) : List NameUse :=
  let introduced :=
    Std.HashSet.ofList
      ((localNames allowList function.parameters function.body).map String.ofList)
  ((usesIn function.body).filter fun used =>
    !introduced.contains (String.ofList used.name) && !allowList.allows used.name).map fun used =>
      { used with pos := function.bodyPos + used.pos }

end Names

def unknownUses (allowList : AllowList) (t : Text) : List NameUse :=
  (functionsIn t).flatMap (Names.unknownUsesIn allowList)

def nameFindings (allowList : AllowList) (t : Text) : List Finding :=
  (unknownUses allowList t).map fun used => .unknownName used.name

end SourceAudit
