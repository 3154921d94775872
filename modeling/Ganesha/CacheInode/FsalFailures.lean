import Ganesha.CacheInode.LockSteps

/-!
# Failures of the FSAL in link, rename and remove

What `cache_inode_link`, `cache_inode_rename` and `cache_inode_remove_sw` return when the call of the
FSAL for the operation fails, and which entries they kill then.
-/

namespace Ganesha.CacheInode.FsalFailures
open Library.LockTrace LockSteps

variable {c : Cache} {e x : ℕ}

/-- What `FSAL_getattrs` answers for the handle of an entry; an extent has the one of its
directory. -/
structure Reports (c : Cache) where
  answer : ℕ → Option FsalError
  extent : ∀ e, ∀ x ∈ c.pdirCont e, answer x = answer e

/-- The operations; the entry `e` is found for the name to remove. -/
inductive Operation
  | link (src dest : ℕ) (env : LinkEnv)
  | rename (s d : ℕ) (env : RenameEnv)
  | remove (useMutex : Bool) (p e : ℕ) (env : RemoveEnv)

namespace Operation

/-- The operation. -/
def run (c : Cache) : Operation → Locking ℕ Status
  | .link src dest env => LockSteps.link c src dest env
  | .rename s d env => LockSteps.rename c s d env
  | .remove useMutex p _ env => removeSw c useMutex p env

/-- The part of the operation with the call of the FSAL. -/
def path (c : Cache) : Operation → Locking ℕ Status
  | .link src dest env => linkLocked c src dest env (lookupSw c true dest env.lookup).result.2
  | .rename s d env => renameMove c s d env
  | .remove useMutex p e env => removeLocked c useMutex p e env .success

/-- The entries that the operation is about. -/
def entries : Operation → List ℕ
  | .link src dest _ => [src, dest]
  | .rename s d _ => [s, d]
  | .remove _ p e _ => [p, e]

/-- What the FSAL answers to `FSAL_link`, `FSAL_rename` or `FSAL_unlink`. -/
def answer : Operation → Option FsalError
  | .link _ _ env => env.fsalLink
  | .rename _ _ env => env.fsalRename
  | .remove _ _ _ env => env.unlink

/-- The operation gets to the call of the FSAL. -/
def Reaches (c : Cache) : Operation → Prop
  | .link src dest env =>
    FileType.IsDir (c.type dest) ∧ ¬ FileType.IsDir (c.type src) ∧ FileType.hasHandle (c.type src) ∧
      (accessSw c true dest env.access).result = .success ∧
      (lookupSw c true dest env.lookup).result.1 = none
  | .rename s d env =>
    FileType.IsDir (c.type s) ∧ FileType.IsDir (c.type d) ∧
      ∃ old, (lookupSw c false s env.lookupSrc).result.1 = some old ∧
        ((lookupSw c false d env.lookupDest).result.1 = none ∧
            (lookupSw c false d env.lookupDest).result.2 ≠ .fsalEstale ∨
          ∃ new, (lookupSw c false d env.lookupDest).result.1 = some new ∧
            (c.type new = .dirBeginning ↔ c.type old = .dirBeginning) ∧ new ≠ old ∧
            (c.type new = .dirBeginning → env.dirEmpty) ∧
            (removeSw c false d env.remove).result = .success)
  | .remove _ p e env =>
    (accessSw c false p env.access).result = .success ∧
      (lookupSw c false p env.lookup).result = (some e, .success) ∧ FileType.IsDir (c.type p) ∧
      c.type e ≠ .dirContinue ∧ (c.type e = .dirBeginning ∧ env.readdirYes → env.dirEmpty)

/-- What the operation is told of the two handles when it looks for the stale one. -/
def Asks (reports : Reports c) : Operation → Prop
  | .link src dest env =>
    env.getattrsSrc = reports.answer src ∧ env.getattrsDest = reports.answer dest
  | .rename s d env => env.getattrsSrc = reports.answer s ∧ env.getattrsDest = reports.answer d
  | .remove .. => True

end Operation

/-- A call that fails in the FSAL with `err`. -/
structure Failure (c : Cache) where
  op : Operation
  err : FsalError
  reports : Reports c
  reaches : op.Reaches c
  fails : op.answer = some err
  asks : op.Asks reports

/-- The status is the one of the error, and is that of a stale handle only if the error is; in that
case the entries with a stale handle are killed and no others. -/
structure Faithful (f : Failure c) : Prop where
  status : (f.op.run c).result = errorConvert f.err
  stale : (f.op.run c).result = .fsalEstale → f.err = .stale
  killed : f.err = .stale → ∀ y ∈ f.op.entries, f.reports.answer y = some .stale →
    .retire y ∈ (f.op.path c).steps
  kept : f.err = .stale → ∀ y, .retire y ∈ (f.op.path c).steps → f.reports.answer y = some .stale

/-! ## Which entries are killed -/

variable {env : KillEnv}

/-- An entry that is looked at after a stale handle is not stale, and is not killed. -/
def Spared (reports : Reports c) (env : KillEnv) (e : ℕ) : Prop :=
  reports.answer e ≠ some .stale ∧ (reports.answer e = some .access → killed c env e = [])

/-- When the operation does with the failure what it should. -/
def Sound (reports : Reports c) (err : FsalError) : Operation → Prop
  | .link src dest env =>
    err = .stale ∧ Spared reports env.killSrc src ∧ Spared reports env.killDest dest
  | .rename s d env => err = .stale → Spared reports env.killSrc s ∧ Spared reports env.killDest d
  | .remove _ p e env =>
    err = .stale → (reports.answer p ≠ some .stale → killed c env.kill p = []) ∧
      ∀ y ∈ [p, e], reports.answer y = some .stale → y ∈ killed c env.kill p

/-- A cache in which every entry is a directory without extents and without a parent. -/
def directories : Cache where
  type _ := .dirBeginning
  pdirBegin e := e
  pdirCont _ := []
  parentList _ := []
  pentryContent _ := false
  begin_type e h := absurd h (by decide)
  nodup_chain e := by simp
  extent_parents e x h := absurd h (by simp)
  parent_not_mem e q h := absurd h (by simp)

end Ganesha.CacheInode.FsalFailures
