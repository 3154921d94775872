import Ganesha.BuddyMalloc.DoubleFree
import Ganesha.BuddyMalloc.Statistics
import Ganesha.BuddyMalloc.ThreadTheorems
import Ganesha.CacheInode.Expiration
import Ganesha.CacheInode.FsalFailures
import Ganesha.CacheInode.NewEntry
import Ganesha.CacheInode.OpenTheorems
import Ganesha.CacheInode.RdwrTheorems
import Ganesha.CacheInode.ReaddirTheorems
import Ganesha.CacheInode.Search
import Ganesha.CacheInode.SetattrTheorems
import Ganesha.ClientId.Isolation
import Ganesha.ClientId.Names
import Ganesha.ClientId.Tables
import Ganesha.CommonUtils
import Ganesha.Compound.Theorems
import Ganesha.DupReq.ExecuteTheorems
import Ganesha.DupReq.Theorems
import Ganesha.Exports.Credentials
import Ganesha.Fattr.Compare
import Ganesha.FileContent.DirIter
import Ganesha.FileContent.EmergencyFlush
import Ganesha.FileContent.NewEntry
import Ganesha.Fsal.ExpandDigest
import Ganesha.Fsal.HandleTools
import Ganesha.Fsal.OpenAccess
import Ganesha.Fsal.Rcp
import Ganesha.Fsal.Xattrs
import Ganesha.Fsal.XfsReaddir
import Ganesha.FuseLike.Atomicity
import Ganesha.FuseLike.NamespaceTheorems
import Ganesha.FuseLike.Path
import Ganesha.GhostFs.Theorems
import Ganesha.HandleMapping.Theorems
import Ganesha.HashTable.Counters
import Ganesha.IdMapper.Common
import Ganesha.IdMapper.Theorems
import Ganesha.LRU.Runs
import Ganesha.Library.Buffer
import Ganesha.Library.Ring
import Ganesha.Library.Scope
import Ganesha.Library.Transfer
import Ganesha.Limits
import Ganesha.MfslAsync.Theorems
import Ganesha.Nfs4.AddState
import Ganesha.Nfs4.Downgrade
import Ganesha.Nfs4.Exclusive
import Ganesha.Nfs4.Keys
import Ganesha.Nfs4.LockCounts
import Ganesha.Nfs4.Lockt
import Ganesha.Nfs4.StateTheorems
import Ganesha.Nfs41.CreateSession
import Ganesha.Nfs41.ExchangeId
import Ganesha.Nfs41.ExchangeIsolation
import Ganesha.Nfs41.Replay
import Ganesha.Nlm.Coverage
import Ganesha.Nlm.Glist
import Ganesha.Nlm.Promises
import Ganesha.Nlm.RefCount
import Ganesha.PosixDb.Common
import Ganesha.PosixDb.PathOf
import Ganesha.PosixDb.Results
import Ganesha.PosixDb.Sql
import Ganesha.Protocols.ReaddirTheorems
import Ganesha.Pseudo.Listing
import Ganesha.RWLock.Theorems
import Ganesha.RWLock.Wakeups
import Ganesha.Rbt.Theorems
import Ganesha.SemN.Theorems
import Ganesha.Snmp.DigestTheorems
