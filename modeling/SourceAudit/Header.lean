import SourceAudit.Pattern.Search

/-!
# Headers of definitions and blocks

## The first lines of blocks

A function header is `def`, a word, a parenthesised text and a colon; a class header is `class`, a
word, perhaps a parenthesised text, and a colon.  Blanks may separate the parts.  The word is given
as a pattern, since one rule looks for any word and another for a proper name.

A parenthesised text ends at the first closing parenthesis, and may span lines.
-/

namespace SourceAudit
namespace Header

open Pattern

def word : Pattern :=
  several Text.isWord

def parenthesised : Pattern :=
  sequence [exactly '(', whole (· != ')'), exactly ')']

/-- A function header whose name is described by a pattern. -/
def function (named : Pattern) : Pattern :=
  sequence [literal "def", someBlanks, named, blanks, parenthesised, blanks, exactly ':']

def classOf (named : Pattern) : Pattern :=
  sequence [literal "class", someBlanks, named, optional (seq blanks parenthesised), blanks,
    exactly ':']

/-- A word that may begin a line that ends in a colon. -/
def blockKeyword : Pattern :=
  wholeWord ["if", "elif", "else", "while", "for", "def", "class", "try", "except", "finally"]

end Header
end SourceAudit
