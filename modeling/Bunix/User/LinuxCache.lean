import Bunix.User.Vfs

/-! # The caches of the Linux server

The Linux server (`user/linux/main.c`) keeps answers of the VFS: results of access checks and
metadata of paths, once for each process and once for all, contents of files, and names in
directories. An entry is known by the text of a path, and it counts as long as the epoch of its
domain has not moved on; requests that change files move it.

`LinuxCaches` holds all of them: those that are fields of a process or of an open file in the source
are maps here.
-/
namespace Bunix.User

open Bunix.Lib Function

/-- `LINUX_CACHE_DOMAIN_OTHER`, `_ETC` and `_RUN`. -/
inductive CacheDomain where
  | other
  | etc
  | run
deriving DecidableEq, Repr

/-- `linux_path_prefix`. -/
def linuxPathUnder (path dir : Path) : Bool :=
  dir.isPrefixOf path && (path.drop dir.length).head?.all (· == '/')

def etcDir : Path := ['/', 'e', 't', 'c']
def runDir : Path := ['/', 'r', 'u', 'n']
def usrDir : Path := ['/', 'u', 's', 'r']
def binDir : Path := ['/', 'b', 'i', 'n']
def sbinDir : Path := ['/', 's', 'b', 'i', 'n']
def libDir : Path := ['/', 'l', 'i', 'b']

def domainUnder (path : Path) : CacheDomain :=
  if linuxPathUnder path etcDir then .etc
  else if linuxPathUnder path runDir then .run
  else .other

/-- `linux_cache_domain_for_path`; `cwd` is there if a process is given. -/
def cacheDomainForPath (cwd : Option Path) (path : Path) : CacheDomain :=
  if path.head? = some '/' then domainUnder path
  else match cwd with
    | some cwd => domainUnder cwd
    | none => .other

def globalPathCacheAllowed (cachePath : Path) : Bool :=
  match cacheDomainForPath none cachePath with
  | .etc | .run => true
  | .other => false

def fileReadCacheAllowed (cachePath : Path) : Bool :=
  cachePath.head? == some '/' && (linuxPathUnder cachePath etcDir || linuxPathUnder cachePath usrDir ||
      linuxPathUnder cachePath binDir || linuxPathUnder cachePath sbinDir ||
      linuxPathUnder cachePath libDir)

def dirCacheAllowed (path : Path) : Bool :=
  path.head? == some '/' && cacheDomainForPath none path == .etc

structure LinuxVfsStat where
  size : U64
  modeType : U64
  owner : U64
  dev : U64
  ino : U64
  nlink : U64
  rdev : U64
  blksize : U64
  blocks : U64
  atime : U64
  mtime : U64
  ctime : U64
deriving DecidableEq, Repr

/-- What every entry is known by. -/
structure CacheStamp where
  domain : CacheDomain
  epoch : U64
  path : Path
deriving DecidableEq, Repr

/-- A `linux_access_cache_entry`: either its `valid` or its `stat_valid` is set. -/
inductive PathEntry where
  | access (base mode flags : U64) (stamp : CacheStamp) (result : Int)
  | stat (base nofollow : U64) (stamp : CacheStamp) (result : Int) (stat : Option LinuxVfsStat)
deriving DecidableEq, Repr

structure ReadEntry where
  stamp : CacheStamp
  offset : U64
  len : U64
  data : List UInt8
deriving DecidableEq, Repr

structure DirEntry where
  type : U64
  name : Path
deriving DecidableEq, Repr

structure DirListing where
  stamp : CacheStamp
  entries : List DirEntry
deriving DecidableEq, Repr

/-- The read-ahead of a `linux_open_file`, `none` if it is empty. -/
structure Readahead where
  offset : U64
  domain : CacheDomain
  epoch : U64
  data : List UInt8
deriving DecidableEq, Repr

/-- An array of entries that are replaced in turn; an entry that is not valid is `none`. -/
structure Ring (α : Type) where
  slots : Nat → Option α := fun _ => none
  next : U64 := 0

namespace Ring

variable {α β : Type}

/-- The loops over the array: the first entry that `f` accepts. -/
def find (ring : Ring α) (size : Nat) (f : α → Option β) : Option β :=
  (List.range size).findSome? fun i => (ring.slots i).bind f

def put (ring : Ring α) (size : Nat) (entry : α) : Ring α where
  slots := update ring.slots (ring.next.toNat % size) (some entry)
  next := ring.next + 1

/-- The entry that is next in turn is taken out. -/
def drop (ring : Ring α) (size : Nat) : Ring α :=
  { ring with slots := update ring.slots (ring.next.toNat % size) none }

end Ring

/-- `LINUX_ACCESS_CACHE_SIZE`, and the sizes of the other caches. -/
def accessCacheSize : Nat := 8
def globalPathCacheSize : Nat := 512
def fileReadCacheSize : Nat := 128
def fileReadCacheMax : U64 := 4096
def fileReadaheadSize : U64 := 4096
def fileReadaheadTriggerMax : U64 := 256
def dirCacheSize : Nat := 16
def dirCacheMaxEntries : Nat := 128

structure LinuxCaches where
  /-- `linux_vfs_mutation_epochs`. -/
  epochs : CacheDomain → U64 := fun _ => 0
  globalPath : Ring PathEntry := {}
  /-- `access_cache` of the process of a task. -/
  access : U64 → Ring PathEntry := fun _ => {}
  fileRead : Ring ReadEntry := {}
  dir : Ring DirListing := {}
  readahead : Nat → Option Readahead := fun _ => none
  /-- `read_cache` of an open file has its memory. -/
  readBuffer : Nat → Bool := fun _ => false

namespace LinuxCaches

variable (c : LinuxCaches) (task : U64) (cwd : Path) (base : U64) (path : Path) (cachePath : Option Path)

/-- `++`, which skips 0. -/
def nextEpoch (epoch : U64) : U64 := if epoch + 1 = 0 then 1 else epoch + 1

/-- `linux_vfs_note_mutation`; all domains if there is no path. -/
def noteMutation (path : Option Path) : LinuxCaches :=
  match path with
  | none => { c with epochs := fun domain => nextEpoch (c.epochs domain) }
  | some path =>
    let domain := cacheDomainForPath none path
    { c with epochs := update c.epochs domain (nextEpoch (c.epochs domain)) }

/-- What an entry that is stored now is known by. -/
def stamp (domain : CacheDomain) (path : Path) : CacheStamp where
  domain
  epoch := c.epochs domain
  path

/-! ## Results of access checks -/

/-- The conditions on an entry in the loops over access results. -/
def accessHit (base : Option U64) (mode flags : U64) (stamp : CacheStamp) : PathEntry → Option Int
  | .access base' mode' flags' stamp' result =>
    if base.all (· == base') ∧ mode' = mode ∧ flags' = flags ∧ stamp' = stamp then some result
    else none
  | .stat .. => none

def globalAccessCacheGet (mode flags : U64) : Option Int :=
  match cachePath.filter globalPathCacheAllowed with
  | none => none
  | some cachePath =>
    c.globalPath.find globalPathCacheSize
      (accessHit none mode flags (c.stamp (cacheDomainForPath none cachePath) cachePath))

def globalAccessCachePut (mode flags : U64) (result : Int) : LinuxCaches :=
  match cachePath.filter globalPathCacheAllowed with
  | none => c
  | some cachePath =>
    let stamp := c.stamp (cacheDomainForPath none cachePath) cachePath
    { c with globalPath := c.globalPath.put globalPathCacheSize (.access 0 mode flags stamp result) }

def accessCacheGet (mode flags : U64) : Option Int :=
  (c.globalAccessCacheGet cachePath mode flags).or <|
    (c.access task).find accessCacheSize
      (accessHit (some base) mode flags (c.stamp (cacheDomainForPath (some cwd) path) path))

/-- The end of `linux_access_cache_put` and `linux_stat_cache_put`. -/
def putAccess (entry : PathEntry) : LinuxCaches :=
  { c with access := update c.access task ((c.access task).put accessCacheSize entry) }

def accessCachePut (mode flags : U64) (result : Int) : LinuxCaches :=
  (c.globalAccessCachePut cachePath mode flags result).putAccess task
    (.access base mode flags (c.stamp (cacheDomainForPath (some cwd) path) path) result)

def accessCacheClear : LinuxCaches :=
  { c with access := update c.access task {} }

/-! ## Metadata -/

def statHit (base : Option U64) (nofollow : U64) (stamp : CacheStamp) :
    PathEntry → Option (Int × Option LinuxVfsStat)
  | .stat base' nofollow' stamp' result stat =>
    if base.all (· == base') ∧ nofollow' = nofollow ∧ stamp' = stamp then some (result, stat)
    else none
  | .access .. => none

def globalStatCacheGet (nofollow : U64) : Option (Int × Option LinuxVfsStat) :=
  match cachePath.filter globalPathCacheAllowed with
  | none => none
  | some cachePath =>
    c.globalPath.find globalPathCacheSize
      (statHit none nofollow (c.stamp (cacheDomainForPath none cachePath) cachePath))

def globalStatCachePut (nofollow : U64) (result : Int) (stat : Option LinuxVfsStat) : LinuxCaches :=
  match cachePath.filter globalPathCacheAllowed with
  | none => c
  | some cachePath =>
    let stamp := c.stamp (cacheDomainForPath none cachePath) cachePath
    { c with globalPath := c.globalPath.put globalPathCacheSize (.stat 0 nofollow stamp result stat) }

def statCacheGet (nofollow : U64) : Option (Int × Option LinuxVfsStat) :=
  (c.globalStatCacheGet cachePath nofollow).or <|
    (c.access task).find accessCacheSize
      (statHit (some base) nofollow (c.stamp (cacheDomainForPath (some cwd) path) path))

def statCachePut (nofollow : U64) (result : Int) (stat : Option LinuxVfsStat) : LinuxCaches :=
  (c.globalStatCachePut cachePath nofollow result stat).putAccess task
    (.stat base nofollow (c.stamp (cacheDomainForPath (some cwd) path) path) result stat)

/-! ## Contents of files -/

/-- `linux_file_read_cache_get`, without the writing to the buffer of the reader. -/
def fileReadCacheGet (offset len : U64) : Option (List UInt8) :=
  if len = 0 ∨ fileReadCacheMax < len ∨ fileReadCacheAllowed path = false then none
  else c.fileRead.find fileReadCacheSize fun entry =>
    if entry.offset = offset ∧ entry.len = len ∧
        entry.stamp = c.stamp (cacheDomainForPath none path) path then some entry.data
    else none

/-- `linux_file_read_cache_put`; `data` is `none` if the buffer cannot be read. -/
def fileReadCachePut (offset len : U64) (data : Option (List UInt8)) : LinuxCaches :=
  if len = 0 ∨ fileReadCacheMax < len ∨ fileReadCacheAllowed path = false then c
  else match data with
    | none => { c with fileRead := c.fileRead.drop fileReadCacheSize }
    | some data =>
      let stamp := c.stamp (cacheDomainForPath none path) path
      { c with fileRead := c.fileRead.put fileReadCacheSize { stamp, offset, len, data } }

/-- `linux_open_file_readahead_get`, without the writing to the buffer of the reader. -/
def readaheadGet (file : Nat) (path : Path) (offset len : U64) : Option (List UInt8) :=
  if path.head? ≠ some '/' ∨ len = 0 ∨ fileReadCacheAllowed path = false then none
  else match c.readahead file with
    | none => none
    | some ahead =>
      if ahead.data = [] ∨ ahead.domain ≠ cacheDomainForPath none path ∨
          ahead.epoch ≠ c.epochs ahead.domain ∨ offset < ahead.offset then none
      else
        let delta := (offset - ahead.offset).toNat
        if ahead.data.length ≤ delta ∨ ahead.data.length - delta < len.toNat then none
        else some ((ahead.data.drop delta).take len.toNat)

/-- The end of `linux_open_file_readahead_fill`. -/
def readaheadPut (file : Nat) (path : Path) (offset : U64) (data : List UInt8) : LinuxCaches :=
  let domain := cacheDomainForPath none path
  let ahead : Readahead := { offset, domain, epoch := c.epochs domain, data }
  { c with readahead := update c.readahead file (some ahead) }

/-- The memory that `linux_open_file_readahead_fill` allocates once. -/
def readaheadReserve (file : Nat) : LinuxCaches :=
  { c with readBuffer := update c.readBuffer file true }

/-- `linux_open_file_readahead_clear`, and a new open file. -/
def readaheadClear (file : Nat) : LinuxCaches :=
  { c with readahead := update c.readahead file none }

/-! ## Directories -/

def dirCacheLookup : Option (List DirEntry) :=
  if dirCacheAllowed path = false then none
  else c.dir.find dirCacheSize fun listing =>
    if listing.stamp = c.stamp (cacheDomainForPath none path) path then some listing.entries else none

/-- `linux_dir_cache_claim`: the slot, which is not valid any more. -/
def dirCacheClaim : Nat × LinuxCaches :=
  match (List.range dirCacheSize).find? fun i => (c.dir.slots i).isNone with
  | some i => (i, c)
  | none =>
    let i := c.dir.next.toNat % dirCacheSize
    (i, { c with dir := {
      slots := update c.dir.slots i none
      next := c.dir.next + 1 } })

/-- The names of a directory are complete. -/
def dirCacheStore (slot : Nat) (path : Path) (entries : List DirEntry) : LinuxCaches :=
  let listing : DirListing := { stamp := c.stamp (cacheDomainForPath none path) path, entries }
  { c with dir := { c.dir with slots := update c.dir.slots slot (some listing) } }

end LinuxCaches

end Bunix.User
