import Mathlib.Data.Nat.Notation

/-!
# Limits of the system

The sizes of the buffers for names and paths, as on Linux.
-/

namespace Ganesha

/-- `MAXNAMLEN` of `dirent.h`. -/
abbrev maxnamlen : ℕ := 255

/-- `MAXPATHLEN` of `sys/param.h`. -/
abbrev maxpathlen : ℕ := 4096

end Ganesha
