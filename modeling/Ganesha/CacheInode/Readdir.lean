import Mathlib

/-!
# Reading a cached directory

`cache_inode_readdir` of `Cache_inode/cache_inode_readdir.c`, for a directory that is populated and
that the caller may read. A directory is a chain of arrays of 16 dirents, the first one in the
`DIR_BEGINNING` entry and the others in `DIR_CONTINUE` entries. A cookie is the position of a dirent
in the whole chain. Counters are `unsigned int`.
-/

namespace Ganesha.CacheInode.Readdir

def childrenArraySize : ℕ := 16

/-- `cache_inode_dir_entry_t`: `active` is true for `VALID`. -/
structure DirEntry where
  active : Bool
  pentry : ℕ
  name : List UInt8
  deriving DecidableEq, Inhabited

/-- A `DIR_BEGINNING` or a `DIR_CONTINUE` entry. `dirContPos` is 0 for the first one. -/
structure Extent where
  dirEntries : Fin childrenArraySize → DirEntry
  endOfDir : Bool
  dirContPos : ℕ

/-- The dirent that the code reads in an array at `cookie % CHILDREN_ARRAY_SIZE`. -/
def Extent.entry (n : Extent) (cookie : ℕ) : DirEntry :=
  n.dirEntries ⟨cookie % childrenArraySize, Nat.mod_lt _ (by decide)⟩

/-- A directory: the entries along `pdir_cont`, of which the last one is marked. Every position, and
two more, is an `unsigned int`. -/
structure Directory where
  chain : List Extent
  nonempty : chain ≠ []
  endOfDir : ∀ i (h : i < chain.length), chain[i].endOfDir = decide (i + 1 = chain.length)
  dirContPos : ∀ i (h : i < chain.length), chain[i].dirContPos = i
  small : childrenArraySize * chain.length + 2 < 2 ^ 32

/-- What a call returns: the dirents with their positions, `*pend_cookie`, and whether `*peod_met` is
`END_OF_DIR`. -/
structure Result where
  entries : List (ℕ × DirEntry)
  endCookie : ℕ
  eodMet : Bool

/-- The loop that looks for the entry with the cookie: `none` beyond the end of the directory. The
outer `none` is a `NULL` pointer. -/
def locate (cookie : ℕ) : List Extent → Option (Option (List Extent))
  | [] => none
  | n :: rest =>
    let firstPentryCookie := n.dirContPos * childrenArraySize % 2 ^ 32
    if (cookie + 2 ^ 32 - firstPentryCookie) % 2 ^ 32 ≥ childrenArraySize then
      if n.endOfDir then some none else locate cookie rest
    else some (some (n :: rest))

/-- The loop that fills `dirent_array`, from the position `cookieIter` in the first entry of the
chain. -/
def readLoop (nbwanted : ℕ) : ℕ → List Extent → ℕ → List (ℕ × DirEntry) → Option Result
  | 0, _, _, _ => none
  | fuel + 1, chain, cookieIter, found =>
    if found.length < nbwanted then
      match chain with
      | [] => none
      | n :: rest =>
        let e := n.entry cookieIter
        let found := if e.active then found ++ [(cookieIter, e)] else found
        -- the cookie is an `unsigned int`
        let cookieIter := (cookieIter + 1) % 2 ^ 32
        -- the end of this node
        if cookieIter % childrenArraySize = 0 then
          if n.endOfDir then some ⟨found, cookieIter, true⟩
          else readLoop nbwanted fuel rest cookieIter found
        else readLoop nbwanted fuel (n :: rest) cookieIter found
    else some ⟨found, cookieIter, false⟩

/-- `cache_inode_readdir`, with the chain from the entry that it is called with. -/
def cacheInodeReaddir (chain : List Extent) (cookie nbwanted : ℕ) : Option Result :=
  if nbwanted = 0 then some ⟨[], cookie, false⟩
  else (locate cookie chain).bind fun
    | none => some ⟨[], cookie, true⟩
    | some chain => readLoop nbwanted (childrenArraySize * chain.length + 1) chain cookie []

end Ganesha.CacheInode.Readdir
