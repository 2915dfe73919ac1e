/-!
Failures of files and streams. An `IoError` has a kind, which decides how callers treat it, and the
text it was reported with.
-/

set_option autoImplicit false

namespace ScriptTrace

/-- The kinds of failure that files and streams report. -/
inductive IoErrorKind where
  | notFound
  | permissionDenied
  | connectionRefused
  | connectionReset
  | connectionAborted
  | notConnected
  | addrInUse
  | addrNotAvailable
  | brokenPipe
  | alreadyExists
  | wouldBlock
  | notADirectory
  | isADirectory
  | directoryNotEmpty
  | readOnlyFilesystem
  | invalidInput
  | invalidData
  | timedOut
  | writeZero
  | storageFull
  | quotaExceeded
  | fileTooLarge
  | resourceBusy
  | deadlock
  | invalidFilename
  | interrupted
  | unsupported
  | unexpectedEof
  | outOfMemory
  | other
deriving DecidableEq, Repr

namespace IoErrorKind

def name : IoErrorKind → String
  | notFound => "NotFound"
  | permissionDenied => "PermissionDenied"
  | connectionRefused => "ConnectionRefused"
  | connectionReset => "ConnectionReset"
  | connectionAborted => "ConnectionAborted"
  | notConnected => "NotConnected"
  | addrInUse => "AddrInUse"
  | addrNotAvailable => "AddrNotAvailable"
  | brokenPipe => "BrokenPipe"
  | alreadyExists => "AlreadyExists"
  | wouldBlock => "WouldBlock"
  | notADirectory => "NotADirectory"
  | isADirectory => "IsADirectory"
  | directoryNotEmpty => "DirectoryNotEmpty"
  | readOnlyFilesystem => "ReadOnlyFilesystem"
  | invalidInput => "InvalidInput"
  | invalidData => "InvalidData"
  | timedOut => "TimedOut"
  | writeZero => "WriteZero"
  | storageFull => "StorageFull"
  | quotaExceeded => "QuotaExceeded"
  | fileTooLarge => "FileTooLarge"
  | resourceBusy => "ResourceBusy"
  | deadlock => "Deadlock"
  | invalidFilename => "InvalidFilename"
  | interrupted => "Interrupted"
  | unsupported => "Unsupported"
  | unexpectedEof => "UnexpectedEof"
  | outOfMemory => "OutOfMemory"
  | other => "Other"

/-- Every kind. -/
def all : List IoErrorKind :=
  [notFound, permissionDenied, connectionRefused, connectionReset, connectionAborted, notConnected,
   addrInUse, addrNotAvailable, brokenPipe, alreadyExists, wouldBlock, notADirectory, isADirectory,
   directoryNotEmpty, readOnlyFilesystem, invalidInput, invalidData, timedOut, writeZero,
   storageFull, quotaExceeded, fileTooLarge, resourceBusy, deadlock, invalidFilename, interrupted,
   unsupported, unexpectedEof, outOfMemory, other]

/-- The kind with this name; a name that is not known stands for `other`. -/
def ofName (name : String) : IoErrorKind :=
  (all.find? (·.name == name)).getD other

end IoErrorKind

/-- A failure of a file or stream. -/
structure IoError where
  kind : IoErrorKind
  message : String
deriving DecidableEq, Repr

/-- The failure of a writer that takes no more bytes without saying why. -/
def IoError.writeZero : IoError := ⟨.writeZero, "failed to write whole buffer"⟩

end ScriptTrace
