import SourceAudit.Text.Basic

/-!
# Names that need no introduction

## Two lists

The compact list holds the keywords and functions that almost every program uses.  The extended list
adds all keywords and all built-in names of the audited language.
-/

namespace SourceAudit

/-- Which names a function body may use without introducing them. -/
inductive AllowList where
  | compat
  | extended
  deriving DecidableEq, Repr

namespace AllowList

def all : List AllowList :=
  [compat, extended]

def label : AllowList → String
  | compat => "compat"
  | extended => "extended"

def ofLabel? (label : String) : Option AllowList :=
  all.find? (·.label == label)

def compactNames : List String :=
  ["print", "def", "class", "return", "if", "else", "elif", "while", "for", "in", "and", "or",
    "not", "True", "False", "None", "len", "range", "str", "int", "float", "list", "dict", "set",
    "tuple"]

def builtinNames : List String :=
  ["ArithmeticError", "AssertionError", "AttributeError", "BaseException",
    "BaseExceptionGroup", "BlockingIOError", "BrokenPipeError", "BufferError", "BytesWarning",
    "ChildProcessError", "ConnectionAbortedError", "ConnectionError", "ConnectionRefusedError",
    "ConnectionResetError", "DeprecationWarning", "EOFError", "Ellipsis", "EncodingWarning",
    "EnvironmentError", "Exception", "ExceptionGroup", "False", "FileExistsError",
    "FileNotFoundError", "FloatingPointError", "FutureWarning", "GeneratorExit", "IOError",
    "ImportError", "ImportWarning", "IndentationError", "IndexError", "InterruptedError",
    "IsADirectoryError", "KeyError", "KeyboardInterrupt", "LookupError", "MemoryError",
    "ModuleNotFoundError", "NameError", "None", "NotADirectoryError", "NotImplemented",
    "NotImplementedError", "OSError", "OverflowError", "PendingDeprecationWarning",
    "PermissionError", "ProcessLookupError", "RecursionError", "ReferenceError",
    "ResourceWarning", "RuntimeError", "RuntimeWarning", "StopAsyncIteration", "StopIteration",
    "SyntaxError", "SyntaxWarning", "SystemError", "SystemExit", "TabError", "TimeoutError",
    "True", "TypeError", "UnboundLocalError", "UnicodeDecodeError", "UnicodeEncodeError",
    "UnicodeError", "UnicodeTranslateError", "UnicodeWarning", "UserWarning", "ValueError",
    "Warning", "ZeroDivisionError", "_", "__build_class__", "__debug__", "__doc__",
    "__import__", "__loader__", "__name__", "__package__", "__spec__", "abs", "aiter", "all",
    "and", "anext", "any", "as", "ascii", "assert", "async", "await", "bin", "bool", "break",
    "breakpoint", "bytearray", "bytes", "callable", "case", "chr", "class", "classmethod",
    "compile", "complex", "continue", "copyright", "credits", "def", "del", "delattr", "dict",
    "dir", "divmod", "elif", "else", "enumerate", "eval", "except", "exec", "exit", "filter",
    "finally", "float", "for", "format", "from", "frozenset", "getattr", "global", "globals",
    "hasattr", "hash", "help", "hex", "id", "if", "import", "in", "input", "int", "is",
    "isinstance", "issubclass", "iter", "lambda", "len", "license", "list", "locals", "map",
    "match", "max", "memoryview", "min", "next", "nonlocal", "not", "object", "oct", "open",
    "or", "ord", "pass", "pow", "print", "property", "quit", "raise", "range", "repr",
    "return", "reversed", "round", "set", "setattr", "slice", "sorted", "staticmethod", "str",
    "sum", "super", "try", "tuple", "type", "vars", "while", "with", "yield", "zip"]

def names : AllowList → List String
  | compat => compactNames
  | extended => compactNames ++ builtinNames

def allows (allowList : AllowList) (name : Text) : Bool :=
  allowList.names.contains (String.ofList name)

theorem allows_extended_of_allows_compat {name : Text} (h : compat.allows name = true) :
    extended.allows name = true := by
  unfold allows names at h ⊢
  rw [List.contains_iff_mem] at h ⊢
  exact List.mem_append_left _ h

end AllowList
end SourceAudit
