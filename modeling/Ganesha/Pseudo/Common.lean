import Mathlib.Logic.Function.Basic
import Ganesha.Limits

/-!
# The pseudo filesystem

`nfs4_ExportToPseudoFS` of `NFS_Protocols/nfs4_pseudo.c` and `nfs_ParseConfLine` of
`support/exports.c`. Entries are pointers, 0 for the root, which lies in the static `gPseudoFs`; the
memory for an entry can always be had. A string is the list of its bytes without the last `'\0'`. A call
gives `none` when it does not end, or writes outside of a buffer or a table.
-/

namespace Ganesha.Pseudo

abbrev Name := List UInt8

abbrev nbTokPath : ℕ := 20

abbrev maxPseudoEntry : ℕ := 100

/-- `'/'`. -/
abbrev slash : UInt8 := 47

/-- `pseudofs_entry_t`; an export is its place in the list of exports. -/
structure PseudofsEntry where
  name : Name
  fullname : Name
  pseudoId : ℕ
  junctionExport : Option ℕ
  sons : Option ℕ
  parent : ℕ
  next : Option ℕ
  last : Option ℕ
  deriving DecidableEq

/-- `pseudofs_t` with the memory of its entries, of which the first `allocated` after the root have
been allocated. -/
structure Pseudofs where
  mem : ℕ → PseudofsEntry
  allocated : ℕ
  lastPseudoId : ℕ
  reverseTab : ℕ → Option ℕ

/-- `exportlist_t`, as far as it is read here. -/
structure ExportEntry where
  options : UInt32
  pseudopath : Name

/-- `entry->options & EXPORT_OPTION_PSEUDO`. -/
def ExportEntry.isPseudo (e : ExportEntry) : Bool := e.options &&& 0x100 ≠ 0

/-- Assign fields of an entry. -/
def Pseudofs.modify (fs : Pseudofs) (p : ℕ) (f : PseudofsEntry → PseudofsEntry) : Pseudofs :=
  { fs with mem := Function.update fs.mem p (f (fs.mem p)) }

/-! ## Parsing a path -/

/-- The blanks before a token. -/
def isBlank (c : UInt8) : Bool := c = 32 || c = 9

def findEndLine (c : UInt8) : Bool := c = 0 || c = 10

def findSlash (c : UInt8) : Bool := c = slash

/-- `nfs_ParseConfLine`, for paths, with the places of `Argv` that are left: `some none` for -1. -/
def nfsParseConfLine : ℕ → Name → Option (Option (List Name))
  | 0, _ => some none
  | nbArgv + 1, p1 =>
    if p1.head?.all (· = 0) then some (some [])
    else
      let p1 := p1.dropWhile isBlank
      let token := p1.takeWhile fun c => ¬ findSlash c ∧ ¬ findEndLine c
      let p2 := p1.dropWhile fun c => ¬ findSlash c ∧ ¬ findEndLine c
      -- `strcpy` into a buffer of `MAXNAMLEN` bytes
      if token.length ≥ maxnamlen then none
      else if p2.head?.all findEndLine then some (some [token])
      else (nfsParseConfLine nbArgv p2.tail).map (Option.map (token :: ·))

/-! ## Building the tree -/

/-- The loop over the sons that looks for a name. -/
def findSon (fs : Pseudofs) (name : Name) : ℕ → Option ℕ → Option (Option ℕ)
  | 0, _ => none
  | _ + 1, none => some none
  | fuel + 1, some p =>
    if (fs.mem p).name = name then some (some p) else findSon fs name fuel (fs.mem p).next

/-- A new entry with the next id, for a son of `current`. -/
def allocEntry (fs : Pseudofs) (current : ℕ) (token : Name) : Pseudofs where
  mem := Function.update fs.mem (fs.allocated + 1)
    { name := token
      fullname := ((fs.mem current).fullname ++ slash :: token).take (maxpathlen - 1)
      pseudoId := fs.lastPseudoId + 1
      junctionExport := none
      sons := none
      parent := current
      next := none
      last := some (fs.allocated + 1) }
  allocated := fs.allocated + 1
  lastPseudoId := fs.lastPseudoId + 1
  reverseTab := Function.update fs.reverseTab (fs.lastPseudoId + 1) (some (fs.allocated + 1))

/-- The new entry is attached to the tree. -/
def attachEntry (fs : Pseudofs) (current new : ℕ) : Option Pseudofs :=
  match (fs.mem current).sons with
  | none => some (fs.modify current fun e => { e with sons := some new })
  | some first =>
    (fs.mem first).last.map fun last =>
      (fs.modify last fun e => { e with next := some new }).modify first fun e =>
        { e with last := some new }

/-- A new entry becomes the last son of `current`. -/
def addEntry (fs : Pseudofs) (current : ℕ) (token : Name) : Option (ℕ × Pseudofs) :=
  if fs.lastPseudoId + 1 ≥ maxPseudoEntry then none
  else
    (attachEntry (allocEntry fs current token) current (fs.allocated + 1)).map fun fs' =>
      (fs.allocated + 1, fs')

/-- One component of a path: step into the son with this name, which is made if there is none. -/
def stepInto (fs : Pseudofs) (current : ℕ) (token : Name) : Option (ℕ × Pseudofs) :=
  (findSon fs token (fs.allocated + 2) (fs.mem current).sons).bind fun found =>
    match found with
    | some p => some (p, fs)
    | none => addEntry fs current token

/-- The loop over the components of a path. -/
def addTokens (current : ℕ) : List Name → Pseudofs → Option (ℕ × Pseudofs)
  | [], fs => some (current, fs)
  | token :: rest, fs =>
    (stepInto fs current token).bind fun (current, fs) => addTokens current rest fs

/-- The loop over the exports, from the one at the place `k` on. A badly formed path is met by
`continue`, with the same entry. -/
def exportLoop : ℕ → ℕ → List ExportEntry → Pseudofs → Option Pseudofs
  | 0, _, _, _ => none
  | _ + 1, _, [], fs => some fs
  | fuel + 1, k, entry :: rest, fs =>
    let fs := { fs with reverseTab := Function.update fs.reverseTab 0 (some 0) }
    if ¬ entry.isPseudo then exportLoop fuel (k + 1) rest fs
    else match nfsParseConfLine nbTokPath entry.pseudopath with
      | none => none
      | some none => exportLoop fuel k (entry :: rest) fs
      | some (some pathTok) =>
        if entry.pseudopath.head? ≠ some slash then exportLoop fuel k (entry :: rest) fs
        else
          (addTokens 0 pathTok.tail fs).bind fun (current, fs) =>
            exportLoop fuel (k + 1) rest
              (fs.modify current fun e => { e with junctionExport := some k })

/-- The root, with the full name `(nfsv4root)`. It is its own parent. -/
def rootEntry : PseudofsEntry where
  name := [slash]
  fullname := [40, 110, 102, 115, 118, 52, 114, 111, 111, 116, 41]
  pseudoId := 0
  junctionExport := none
  sons := none
  parent := 0
  next := none
  last := none

/-- `gPseudoFs` with its root; the other entries have no contents yet. -/
def initialPseudofs : Pseudofs where
  mem _ := rootEntry
  allocated := 0
  lastPseudoId := 0
  reverseTab _ := none

/-- `nfs4_ExportToPseudoFS`, called once when the server starts. -/
def nfs4ExportToPseudoFs (fuel : ℕ) (exports : List ExportEntry) : Option Pseudofs :=
  exportLoop fuel 0 exports initialPseudofs

end Ganesha.Pseudo
