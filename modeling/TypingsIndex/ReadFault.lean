/-!
# Faults of reading a file

A read that fails does so with a kind and a reason in words. What follows depends on the kind alone: a
file that does not exist is gone, one whose bytes are not text stays so until it is written again, and
any other failure may pass, since the file is probably locked or half written.
-/

set_option autoImplicit false

namespace TypingsIndex

namespace ReadFault

/-- The kinds of failure that an operating system tells apart. -/
inductive Kind where
  | notFound
  | permissionDenied
  | invalidData
  | invalidInput
  | interrupted
  | wouldBlock
  | timedOut
  | unexpectedEnd
  | alreadyExists
  | isADirectory
  | notADirectory
  | resourceBusy
  | other
  deriving DecidableEq, Repr, Inhabited

/-- What to make of a failed read. -/
inductive Verdict where
  /-- The file is gone. -/
  | missing
  /-- The file is there and is not text. -/
  | undecodable
  /-- The file may be readable later. -/
  | transient
  deriving DecidableEq, Repr, Inhabited

/-- What to make of a failure of a kind. -/
def Kind.verdict : Kind → Verdict
  | .notFound => .missing
  | .invalidData => .undecodable
  | _ => .transient

end ReadFault

/-- A failed read. -/
structure ReadFault where
  kind : ReadFault.Kind
  /-- The reason in words. -/
  reason : String
  deriving DecidableEq, Repr, Inhabited

namespace ReadFault

/-- What to make of a failed read. -/
def verdict (fault : ReadFault) : Verdict :=
  fault.kind.verdict

/-- The path leads nowhere. -/
def notFound : ReadFault :=
  ⟨.notFound, "No such file or directory (os error 2)"⟩

/-- The path goes on below a file. -/
def notADirectory : ReadFault :=
  ⟨.notADirectory, "Not a directory (os error 20)"⟩

/-- The path leads to a directory where a file is wanted. -/
def isADirectory : ReadFault :=
  ⟨.isADirectory, "Is a directory (os error 21)"⟩

/-- A name on the path is longer than a file system takes. -/
def nameTooLong : ReadFault :=
  ⟨.other, "File name too long (os error 36)"⟩

/-- The symbolic links on the path go round in a circle. -/
def linkLoop : ReadFault :=
  ⟨.other, "Too many levels of symbolic links (os error 40)"⟩

/-- No file has a name with the character U+0000. -/
def nulInPath : ReadFault :=
  ⟨.invalidInput, "file name contained an unexpected NUL byte"⟩

/-- The bytes of the file are not UTF-8. -/
def notText : ReadFault :=
  ⟨.invalidData, "stream did not contain valid UTF-8"⟩

/-- The path cannot be that of a module. -/
def notADeclarationFile : ReadFault :=
  ⟨.invalidInput, "not a declaration file below the declaration root"⟩

end ReadFault

end TypingsIndex
