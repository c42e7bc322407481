/-!
# What can go wrong with a file
-/

namespace LedgerBench

/-- Why a file cannot be read or written. -/
inductive FileFault where
  /-- There is no such file or directory. -/
  | notFound
  /-- The content is no UTF-8 text. -/
  | notText
  /-- The path names a directory. -/
  | isDirectory
  /-- A part of the path that has to be a directory is none. -/
  | notDirectory
  /-- Any other trouble. -/
  | other
deriving Repr, DecidableEq

end LedgerBench
