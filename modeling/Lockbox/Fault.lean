namespace Lockbox

/-!
# Faults

What the world outside can answer instead of doing what it was asked: the file system, a terminal or
the other end of a connection.

Missing permissions, a disk that is full or broken and an output that nobody reads have no faults of
their own here.  They do not follow from the tree of files, so a `Disk` or an output says at which
step they come up, with any of these faults: what becomes of it does not depend on which.
-/

/-- Why the world outside refuses. -/
inductive Fault
  /-- There is nothing of this name. -/
  | notFound
  /-- A file stands where a directory is needed. -/
  | notADirectory
  /-- A directory stands where a file is needed. -/
  | isADirectory
  /-- The name is taken. -/
  | alreadyExists
  /-- The directory is in use under this name. -/
  | resourceBusy
  /-- The name can name nothing. -/
  | invalidInput
  /-- The name is too long. -/
  | invalidFilename
  /-- Symbolic links lead to each other without end. -/
  | linkLoop
  /-- The bytes are not UTF-8 where a text is needed. -/
  | invalidData
  /-- There is no terminal to ask at. -/
  | noTerminal
  /-- Nobody listens. -/
  | connectionRefused
  /-- There is no way to the other end. -/
  | networkUnreachable
  /-- Somebody listens there already. -/
  | addressInUse
  /-- The other end closed the connection too early. -/
  | unexpectedEnd
  deriving DecidableEq, Repr

end Lockbox
