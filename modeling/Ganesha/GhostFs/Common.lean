import Mathlib.Data.Finmap
import Ganesha.Library.Transition

/-!
# GHOST_FS

The namespace of the file system in memory of `FSAL/FSAL_GHOST_FS/GHOST_FS/ghost_fs.c`: its items, the
lists of entries of its directories, and the operations that change them. The attributes other than the
link count are left out. A handle is the address of an item with its magic number, and the memory of an
item that was freed keeps its content until it is allocated again.

The locks of the items are left out, except that a call that would wait for a lock it holds does not
return (`none`).
-/

namespace Ganesha.GhostFs

/-- A name, shorter than `GHOSTFS_MAX_FILENAME`. -/
abbrev Name := List Char

/-- The name of a directory in itself. -/
def dot : Name := ['.']

/-- The name of the parent. -/
def dotDot : Name := ['.', '.']

/-- `GHOSTFS_handle_t`. -/
structure Handle where
  inode : ℕ
  magic : ℕ
  deriving DecidableEq

/-- `GHOSTFS_typeitem_t`. -/
inductive TypeItem
  | dir
  | file
  | lnk
  deriving DecidableEq

/-- `GHOSTFS_dirlist_t`. -/
structure Dirlist where
  name : Name
  handle : Handle
  deriving DecidableEq

/-- What is used of `GHOSTFS_item_t`, and whether it was freed. The `linkcount` is an
`unsigned int` in the source, the same for fewer than 2^32 links. -/
structure Item where
  magic : ℕ
  linkcount : ℕ
  type : TypeItem
  direntries : List Dirlist
  live : Bool
  deriving DecidableEq

/-- The memory of the items. -/
structure State where
  memory : Finmap fun _ : ℕ => Item

/-- The values of `err_ghost_fs.h` that are returned here. -/
inductive Error
  | noError
  | args
  | stale
  | notDir
  | isDir
  | exist
  | noEnt
  | notEmpty
  | internal
  deriving DecidableEq

/-! ## Lists of entries -/

def addDirEntry (l : List Dirlist) (h : Handle) (name : Name) : List Dirlist := l ++ [⟨name, h⟩]

def findEntry (l : List Dirlist) (name : Name) : Option Handle :=
  (l.find? fun e => e.name = name).map Dirlist.handle

/-- The loop of `Rename_Entry` and `Change_Entry_Handle`, which changes the first entry with a name. -/
def updateEntry (f : Dirlist → Dirlist) (name : Name) : List Dirlist → Option (List Dirlist)
  | [] => none
  | e :: l => if e.name = name then some (f e :: l) else (updateEntry f name l).map (e :: ·)

def renameEntry (l : List Dirlist) (oldName newName : Name) : Option (List Dirlist) :=
  updateEntry (fun e => { e with name := newName }) oldName l

def changeEntryHandle (l : List Dirlist) (name : Name) (h : Handle) : Option (List Dirlist) :=
  updateEntry (fun e => { e with handle := h }) name l

def removeEntry (name : Name) : List Dirlist → Option (List Dirlist)
  | [] => none
  | e :: l => if e.name = name then some l else (removeEntry name l).map (e :: ·)

def isNameOk (name : Name) : Bool := name ≠ [] ∧ name ≠ dot ∧ name ≠ dotDot ∧ '/' ∉ name

def isEmptyDir (l : List Dirlist) : Bool := l.all fun e => e.name = dot ∨ e.name = dotDot

/-! ## Memory -/

/-- Change the item at an address. -/
def State.modify (s : State) (p : ℕ) (f : Item → Item) : State :=
  match s.memory.lookup p with
  | none => s
  | some it => ⟨s.memory.insert p (f it)⟩

/-- `Mem_Free` of an item. -/
def State.free (s : State) (p : ℕ) : State := s.modify p fun it => { it with live := false }

/-- `Mem_Alloc` of an item and its initialisation. -/
def State.alloc (s : State) (p : ℕ) (it : Item) : State := ⟨s.memory.insert p it⟩

def getEntryFromHandle (s : State) (h : Handle) : Option (ℕ × Item) :=
  if h.inode = 0 then none
  else
    match s.memory.lookup h.inode with
    | none => none
    | some it => if it.magic = h.magic then some (h.inode, it) else none

/-! ## Operations -/

/-- `GHOSTFS_Init`, with the parameter `dot_dot_root_eq_root`. -/
def ghostfsInit (dotDotRootEqRoot : Bool) (root magic : ℕ) : State :=
  let h : Handle := ⟨root, magic⟩
  let l := addDirEntry [] h dot
  ⟨Finmap.singleton root (if dotDotRootEqRoot then ⟨magic, 2, .dir, addDirEntry l h dotDot, true⟩
    else ⟨magic, 1, .dir, l, true⟩)⟩

/-- How the operations that add a name begin: the parent, if the name can be added to it. -/
def getParent (s : State) (parent : Handle) (name : Name) : Except Error ℕ :=
  if ¬isNameOk name then .error .args
  else
    match getEntryFromHandle s parent with
    | none => .error .stale
    | some (p, it) =>
      if it.type ≠ .dir then .error .notDir
      else if (findEntry it.direntries name).isSome then .error .exist
      else .ok p

/-- `GHOSTFS_MkDir`, with the address and the magic number of the new item. -/
def ghostfsMkDir (s : State) (parent : Handle) (name : Name) (addr magic : ℕ) : State × Error :=
  match getParent s parent name with
  | .error rc => (s, rc)
  | .ok p =>
    let h : Handle := ⟨addr, magic⟩
    let l := addDirEntry (addDirEntry [] h dot) parent dotDot
    ((s.alloc addr ⟨magic, 2, .dir, l, true⟩).modify p fun it =>
      { it with linkcount := it.linkcount + 1, direntries := addDirEntry it.direntries h name }, .noError)

/-- `GHOSTFS_Create` and `GHOSTFS_Symlink`, which differ in the type of the new item. -/
def createObject (type : TypeItem) (s : State) (parent : Handle) (name : Name) (addr magic : ℕ) :
    State × Error :=
  match getParent s parent name with
  | .error rc => (s, rc)
  | .ok p =>
    ((s.alloc addr ⟨magic, 1, type, [], true⟩).modify p fun it =>
      { it with direntries := addDirEntry it.direntries ⟨addr, magic⟩ name }, .noError)

def ghostfsCreate (s : State) (parent : Handle) (name : Name) (addr magic : ℕ) : State × Error :=
  createObject .file s parent name addr magic

def ghostfsSymlink (s : State) (parent : Handle) (name : Name) (addr magic : ℕ) : State × Error :=
  createObject .lnk s parent name addr magic

def ghostfsLink (s : State) (parent : Handle) (name : Name) (target : Handle) : State × Error :=
  match getParent s parent name with
  | .error rc => (s, rc)
  | .ok p =>
    match getEntryFromHandle s target with
    | none => (s, .stale)
    | some (o, it) =>
      if it.type = .dir then (s, .isDir)
      else
        ((s.modify p fun it => { it with direntries := addDirEntry it.direntries target name }).modify o
          fun it => { it with linkcount := it.linkcount + 1 }, .noError)

/-- The removal of an entry from the list of a directory. -/
def State.removeEntry (s : State) (p : ℕ) (name : Name) : State :=
  s.modify p fun it => { it with direntries := (GhostFs.removeEntry name it.direntries).getD it.direntries }

/-- The removal of an object by `GHOSTFS_Unlink`, and of the target by `GHOSTFS_Rename`: the entry, then
the directory, or the file or symbolic link if it has no entry left. -/
def removeObject (s : State) (p : ℕ) (name : Name) (o : ℕ) (it : Item) : State :=
  let s := s.removeEntry p name
  if it.type = .dir then
    (s.modify p fun it => { it with linkcount := it.linkcount - 1 }).free o
  else
    let s := s.modify o fun it => { it with linkcount := it.linkcount - 1 }
    if it.linkcount - 1 = 0 then s.free o else s

def ghostfsUnlink (s : State) (parent : Handle) (name : Name) : Option (State × Error) :=
  if ¬isNameOk name then some (s, .args)
  else
    match getEntryFromHandle s parent with
    | none => some (s, .stale)
    | some (p, itp) =>
      if itp.type ≠ .dir then some (s, .notDir)
      else
        match findEntry itp.direntries name with
        | none => some (s, .noEnt)
        | some h =>
          match getEntryFromHandle s h with
          | none => some (s, .stale)
          | some (o, it) =>
            -- the entry is the parent itself: its lock would be taken twice
            if o = p then none
            else if it.type = .dir ∧ ¬isEmptyDir it.direntries then some (s, .notEmpty)
            else some (removeObject s p name o it, .noError)

/-- The removal of an existing target by `GHOSTFS_Rename`. The source is of type `type`. -/
def removeTarget (s : State) (p₁ p₂ : ℕ) (tgtName : Name) (h : Handle) (type : TypeItem) :
    Option (Except Error State) :=
  match getEntryFromHandle s h with
  | none => some (.error .stale)
  | some (o, it) =>
    if o = p₁ ∨ o = p₂ then none
    else if type = .dir ∧ it.type = .dir then
      if isEmptyDir it.direntries then some (.ok (removeObject s p₂ tgtName o it)) else some (.error .notEmpty)
    else if type ≠ .dir ∧ it.type ≠ .dir then some (.ok (removeObject s p₂ tgtName o it))
    else some (.error .exist)

/-- The end of `GHOSTFS_Rename`, where the target does not exist. -/
def moveSource (s : State) (src tgt : Handle) (p₁ p₂ : ℕ) (srcName tgtName : Name) (h : Handle)
    (type : TypeItem) : Option (State × Error) :=
  -- within one directory the entry is renamed in place
  if src = tgt then
    match s.memory.lookup p₁ with
    | none => none
    | some it =>
      match renameEntry it.direntries srcName tgtName with
      | none => some (s, .internal)
      | some l => some (s.modify p₁ fun it => { it with direntries := l }, .noError)
  else if type = .dir then
    -- the lock of the object would be taken twice
    if h.inode = p₁ ∨ h.inode = p₂ then none
    else
      let s := s.removeEntry p₁ srcName
      match s.memory.lookup h.inode with
      | none => none
      | some it =>
        -- its `..` entry is pointed to the new parent
        match changeEntryHandle it.direntries dotDot tgt with
        | none => some (s, .internal)
        | some l =>
          let s := s.modify h.inode fun it => { it with direntries := l }
          let s := s.modify p₁ fun it => { it with linkcount := it.linkcount - 1 }
          some (s.modify p₂ fun it =>
            { it with
              linkcount := it.linkcount + 1
              direntries := addDirEntry it.direntries h tgtName }, .noError)
  else
    some ((s.removeEntry p₁ srcName).modify p₂ fun it =>
      { it with direntries := addDirEntry it.direntries h tgtName }, .noError)

/-- `GHOSTFS_Rename`. The handle of the target is compared even if it was not found: `tmphandle` is what
the variable holds then. -/
def ghostfsRename (s : State) (src tgt : Handle) (srcName tgtName : Name) (tmphandle : Handle) :
    Option (State × Error) :=
  if ¬isNameOk tgtName then some (s, .args)
  else
    match getEntryFromHandle s src, getEntryFromHandle s tgt with
    | some (p₁, it₁), some (p₂, it₂) =>
      if it₁.type ≠ .dir ∨ it₂.type ≠ .dir then some (s, .notDir)
      else
        match findEntry it₁.direntries srcName with
        | none => some (s, .noEnt)
        | some h =>
          match getEntryFromHandle s h with
          | none => some (s, .stale)
          | some (_, it) =>
            let found := findEntry it₂.direntries tgtName
            -- without a target `tmphandle` is as the caller passed it
            let tmp := found.getD tmphandle
            -- the magic compared is that of the target directory
            if h.inode = tmp.inode ∧ tmp.magic = tgt.magic then some (s, .noError)
            else
              match found with
              | none => moveSource s src tgt p₁ p₂ srcName tgtName h it.type
              | some h₂ =>
                match removeTarget s p₁ p₂ tgtName h₂ it.type with
                | none => none
                | some (.error rc) => some (s, rc)
                | some (.ok s') => moveSource s' src tgt p₁ p₂ srcName tgtName h it.type
    | _, _ => some (s, .stale)

/-- A call of one of the operations. -/
inductive Call
  | mkDir (parent : Handle) (name : Name) (addr magic : ℕ)
  | create (parent : Handle) (name : Name) (addr magic : ℕ)
  | symlink (parent : Handle) (name : Name) (addr magic : ℕ)
  | link (parent : Handle) (name : Name) (target : Handle)
  | unlink (parent : Handle) (name : Name)
  | rename (src tgt : Handle) (srcName tgtName : Name) (tmphandle : Handle)

/-- The allocator gives an address that is not in use. -/
def State.isFree (s : State) (addr : ℕ) : Bool :=
  addr ≠ 0 ∧ (s.memory.lookup addr).all fun it => !it.live

/-- The effect of a call that returns. -/
def step (s : State) : Call → Option State
  | .mkDir parent name addr magic =>
    if s.isFree addr then some (ghostfsMkDir s parent name addr magic).1 else none
  | .create parent name addr magic =>
    if s.isFree addr then some (ghostfsCreate s parent name addr magic).1 else none
  | .symlink parent name addr magic =>
    if s.isFree addr then some (ghostfsSymlink s parent name addr magic).1 else none
  | .link parent name target => some (ghostfsLink s parent name target).1
  | .unlink parent name => (ghostfsUnlink s parent name).map Prod.fst
  | .rename src tgt srcName tgtName tmphandle =>
    (ghostfsRename s src tgt srcName tgtName tmphandle).map Prod.fst

end Ganesha.GhostFs
