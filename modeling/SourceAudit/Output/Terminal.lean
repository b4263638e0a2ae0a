import SourceAudit.Output.Emoji

/-!
# Terminals

## Width and pictures

What a run shows depends on the terminal: on the number of its columns and on the pictures that it
knows by name.  A terminal has at least eighty columns, on which no table has to be squeezed.
-/

namespace SourceAudit

structure Terminal where
  width : Nat := 80
  pictures : Emoji.Table := Emoji.pictures
  isWide : 80 ≤ width := by decide

end SourceAudit
