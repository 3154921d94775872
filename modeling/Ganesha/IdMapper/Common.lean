import Mathlib.Data.List.Basic

/-!
# The id mapper

`IdMapper/idmapper.c` without `libnfsidmap`, over the caches of `IdMapper/idmapper_cache.c`. A string is the
list of its bytes up to the zero. The tables are lists of entries, the memory is enough, and the map of
group ids that the build with GSS keeps is left out, as the four functions do not read it. Of the store
through `(unsigned long *)&uid` only the id is kept, not the four bytes behind the variable.
-/

namespace Ganesha.IdMapper

def pwentMaxLen : ℕ := 81

/-- `MAXNAMLEN`, of the system. -/
def maxNamLen : ℕ := 255

/-- `MAXPATHLEN`, of the system. -/
def maxPathLen : ℕ := 4096

/-! ## Keys -/

/-- The string at a buffer of `n` bytes after `strncpy`, when `behind` lies behind it. -/
def strncpy (n : ℕ) (src behind : List UInt8) : List UInt8 :=
  if src.length < n then src else src.take n ++ behind

/-- `idmapper_value_hash_func`. The first byte is not added. -/
def idmapperValueHashFunc (indexSize : UInt32) (key : List UInt8) : UInt32 :=
  key.tail.foldl (fun sum c => sum + c.toUInt32) 0 % indexSize

/-- What `idmap_compute_hash_value` takes from nine bytes: seven bits of each, with the eighth ones, and the
sum of the bytes, which are signed. -/
def extract (bytes : List UInt8) : UInt64 × UInt64 :=
  let seven := (bytes.zipIdx.map fun b => (b.1 &&& 0x7f).toUInt64 <<< (7 * b.2).toUInt64).foldl (· ^^^ ·) 0
  let eighth := (bytes.map fun b => (b &&& 0x80).toUInt64).foldl (· ^^^ ·) 0
  (seven ||| eighth, (bytes.map fun b => b.toInt8.toInt64.toUInt64).foldl (· + ·) 0)

def idmapComputeHashValue (name : List UInt8) : UInt32 :=
  let padded := name.take pwentMaxLen ++ List.replicate (pwentMaxLen - name.length) 0
  let value := (List.range 9).foldl (fun (value : UInt64) k =>
    let e := extract ((padded.drop (9 * k)).take 9)
    (value ^^^ e.1) ^^^ e.2) 0
  ((value >>> 32) + (value &&& 0xffffffff)).toUInt32

/-- The key finds the entry of the other one: the same tree, the same value in it, and `compare_idmapper`. -/
def sameKey (indexSize : UInt32) (key key' : List UInt8) : Bool :=
  idmapperValueHashFunc indexSize key = idmapperValueHashFunc indexSize key' ∧
    idmapComputeHashValue key = idmapComputeHashValue key' ∧ key.take pwentMaxLen = key'.take pwentMaxLen

/-! ## Caches -/

/-- The two caches of the users, `ht_pwnam` and `ht_pwuid`, or those of the groups, `ht_grnam` and
`ht_grgid`. -/
structure Caches where
  ids : List (List UInt8 × UInt32)
  names : List (UInt32 × List UInt8)
  deriving DecidableEq

/-- What the functions find on the stack and in the memory: the field of a result that was not filled, and
what lies behind the buffers of a key and of a name. -/
structure Env where
  unset : UInt32
  behindKey : List UInt8
  behindName : List UInt8

def idmapGet (indexSize : UInt32) (ids : List (List UInt8 × UInt32)) (key : List UInt8) : Option UInt32 :=
  (ids.find? fun e => sameKey indexSize key e.1).map Prod.snd

/-- `idmap_add`, without overwriting. -/
def idmapAdd (indexSize : UInt32) (ids : List (List UInt8 × UInt32)) (key : List UInt8) (val : UInt32)
    (env : Env) : List (List UInt8 × UInt32) :=
  let key := strncpy pwentMaxLen key env.behindKey
  match idmapGet indexSize ids key with
  | some _ => ids
  | none => (key, val) :: ids

/-- `namemap_get`. The hash functions give the key, and `compare_namemapper` compares it. -/
def namemapGet (names : List (UInt32 × List UInt8)) (key : UInt32) (env : Env) : Option (List UInt8) :=
  (names.find? fun e => e.1 = key).map fun e => strncpy pwentMaxLen e.2 env.behindName

/-- `namemap_add`, without overwriting. -/
def namemapAdd (names : List (UInt32 × List UInt8)) (key : UInt32) (val : List UInt8) (env : Env) :
    List (UInt32 × List UInt8) :=
  match names.find? fun e => e.1 = key with
  | some _ => names
  | none => (key, strncpy pwentMaxLen val env.behindKey) :: names

/-- `uidmap_add` and `gidmap_add`. -/
def Caches.add (indexSize : UInt32) (s : Caches) (key : List UInt8) (val : UInt32) (env : Env) : Caches :=
  ⟨idmapAdd indexSize s.ids key val env, namemapAdd s.names val key env⟩

/-! ## The database -/

/-- An entry of the passwords or of the groups, with the number of bytes that it needs in a buffer. -/
structure Entry where
  name : List UInt8
  id : UInt32
  size : ℕ
  deriving DecidableEq

/-- What `getpwnam_r` and the others return: an error, or 0 with an entry or with none. -/
inductive Lookup
  | error
  | absent
  | found (e : Entry)

/-- `getpwnam_r`, `getpwuid_r`, `getgrnam_r` and `getgrgid_r` with a buffer of `MAXPATHLEN` bytes. -/
def get (entries : List Entry) (p : Entry → Bool) : Lookup :=
  match entries.find? p with
  | none => .absent
  | some e => if e.size ≤ maxPathLen then .found e else .error

/-! ## The functions -/

/-- `uid2name` and `gid2name`, with the name if they return 1. -/
def id2name (indexSize : UInt32) (entries : List Entry) (s : Caches) (id : UInt32) (env : Env) :
    Caches × Option (List UInt8) :=
  match namemapGet s.names id env with
  | some name => (s, some name)
  | none =>
    match get entries fun e => e.id = id with
    | .error => (s, none)
    | .absent => (s, none)
    | .found e =>
      let name := strncpy maxNamLen e.name env.behindName
      (s.add indexSize name id env, some name)

/-- `name2gid`, and `name2uid` for a name that is not of a principal. Only the returned code of the lookup is
tested. -/
def name2id (indexSize : UInt32) (entries : List Entry) (s : Caches) (name : List UInt8) (env : Env) :
    Caches × Option UInt32 :=
  match idmapGet indexSize s.ids name with
  | some id => (s, some id)
  | none =>
    match get entries fun e => e.name = name with
    | .error => (s, none)
    -- the structure was not filled
    | .absent => (s.add indexSize name env.unset env, some env.unset)
    | .found e => (s.add indexSize name e.id env, some e.id)

/-- The passwords and the groups. -/
structure Database where
  passwd : List Entry
  group : List Entry

/-- The caches of the users and of the groups. -/
structure State where
  users : Caches
  groups : Caches
  deriving DecidableEq

/-- The sizes of the indices of `ht_pwnam` and of `ht_grnam`. -/
structure IdmapParam where
  uidIndexSize : UInt32
  gidIndexSize : UInt32

/-- `"nfs/"`. -/
def nfsPrincipal : List UInt8 := [110, 102, 115, 47]

variable (p : IdmapParam) (db : Database)

def uid2name (s : State) (uid : UInt32) (env : Env) : State × Option (List UInt8) :=
  let r := id2name p.uidIndexSize db.passwd s.users uid env
  ({ s with users := r.1 }, r.2)

def name2uid (s : State) (name : List UInt8) (env : Env) : State × Option UInt32 :=
  if name.take 4 = nfsPrincipal then (s, some 0)
  else
    let r := name2id p.uidIndexSize db.passwd s.users name env
    ({ s with users := r.1 }, r.2)

def gid2name (s : State) (gid : UInt32) (env : Env) : State × Option (List UInt8) :=
  let r := id2name p.gidIndexSize db.group s.groups gid env
  ({ s with groups := r.1 }, r.2)

def name2gid (s : State) (name : List UInt8) (env : Env) : State × Option UInt32 :=
  let r := name2id p.gidIndexSize db.group s.groups name env
  ({ s with groups := r.1 }, r.2)

/-- A call of one of the functions. -/
inductive Call
  | uid2name (uid : UInt32) (env : Env)
  | name2uid (name : List UInt8) (env : Env)
  | gid2name (gid : UInt32) (env : Env)
  | name2gid (name : List UInt8) (env : Env)

/-- What a call returns: 0, or 1 with a name or an id. -/
inductive Answer
  | failed
  | withName (name : List UInt8)
  | withId (id : UInt32)
  deriving DecidableEq

/-- The answer with a name. -/
def Answer.ofName : Option (List UInt8) → Answer
  | none => .failed
  | some name => .withName name

/-- The answer with an id. -/
def Answer.ofId : Option UInt32 → Answer
  | none => .failed
  | some id => .withId id

/-- The effect of a call with what it returns. -/
def call (s : State) : Call → State × Answer
  | .uid2name uid env => ((uid2name p db s uid env).1, .ofName (uid2name p db s uid env).2)
  | .name2uid name env => ((name2uid p db s name env).1, .ofId (name2uid p db s name env).2)
  | .gid2name gid env => ((gid2name p db s gid env).1, .ofName (gid2name p db s gid env).2)
  | .name2gid name env => ((name2gid p db s name env).1, .ofId (name2gid p db s name env).2)

/-- One step. -/
def step (s : State) (c : Call) : Option State := some (call p db s c).1

end Ganesha.IdMapper
