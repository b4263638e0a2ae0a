import SourceAudit.Pattern.Search

/-!
# Names of pictures

## Codes on the screen

A text on the screen may name a picture between two colons.  The name may end in a hyphen and
`emoji` or `text`, which picks the form of the picture.  A name that is not known stays as it is,
colons included.  Letter case does not matter in the name.  Which names are known is a parameter.
-/

namespace SourceAudit
namespace Emoji

open Pattern

abbrev Table := List (String × Text)

/-- The pictures that have a name, unless other ones are given. -/
def pictures : Table :=
  [("heart", ['\u2764'])]

def forms : List (String × Char) :=
  [("emoji", '\ufe0f'), ("text", '\ufe0e')]

def picture? (table : Table) (name : Text) (form : Text) : Option Text :=
  (table.find? fun entry => entry.1.toList == name.map Char.toLower).map fun entry =>
    entry.2 ++ form

/-- The end of a code: a closing colon, perhaps with a form before it. -/
def codeEnd (c : Cursor) : Option (Cursor × Text) :=
  let formed := forms.findSome? fun form =>
    (sequence [exactly '-', literal form.1, exactly ':']).run c fun d => some (d, [form.2])
  match formed with
  | some found => some found
  | none => (exactly ':').run c fun d => some (d, [])

/-- Reads a code; its value is the picture, or the code itself if the name is not known. -/
def readCode (table : Table) : Reader Text := fun c =>
  (exactly ':').run c fun first =>
    (few fun x => !Text.isBlank x).run first fun last =>
      (codeEnd last).map fun found =>
        (found.1, (picture? table (first.upTo last) found.2).getD (c.upTo found.1))

def render (table : Table) (t : Text) : Text :=
  (readCode table).replace t

end Emoji
end SourceAudit
