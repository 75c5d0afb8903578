import EverDb.Block.Holder
import EverDb.Block.Mock
import EverDb.Btree.Model
import EverDb.Btree.PopNode
import EverDb.Btree.Regroup
import EverDb.Btree.Rebalance
import EverDb.Btree.PopRun
import EverDb.Btree.PopEffect
import EverDb.Btree.PopValue
import EverDb.Btree.PopShape
import EverDb.Btree.PopAbsent
import EverDb.Btree.Node
import EverDb.Btree.Grow
import EverDb.Btree.Layout
import EverDb.Btree.Lookup
import EverDb.Btree.Placed
import EverDb.Btree.Set
import EverDb.Btree.SetRefusal
import EverDb.Btree.SortedList
import EverDb.Btree.Update
import EverDb.Foundation.BPlus.Grow
import EverDb.Foundation.BPlus.RemoveSpec
import EverDb.Edb.Descriptor
import EverDb.Edb.Durable
import EverDb.Edb.Element
import EverDb.Edb.Model
import EverDb.Edb.NewFile
import EverDb.Edb.Open
import EverDb.Edb.ReadOnly
import EverDb.Edb.Sharing
import EverDb.Io.Spec
import EverDb.MemHash.Bound
import EverDb.MemHash.Probes
import EverDb.MemHash.Spec
import EverDb.Page.Headers
import EverDb.Page.Lookup
import EverDb.Page.Refusal
import EverDb.Page.Resize
import EverDb.Page.Sequence
import EverDb.Txn.Atomic
import EverDb.Txn.Boundary
import EverDb.Txn.DoubleFree
import EverDb.Txn.Growth
import EverDb.Txn.Ledger
import EverDb.Txn.Model
import EverDb.Txn.Nested
import EverDb.Txn.Outgrown
import EverDb.Txn.Release
import EverDb.Txn.Conversion
import EverDb.Txn.Merge
import EverDb.Txn.MergeSound
import EverDb.Txn.NestedCommit
import EverDb.Txn.Partition
import EverDb.Txn.Refine
import EverDb.Txn.Session
import EverDb.Txn.Sound
import EverDb.Txn.Contract
import EverDb.Txn.Progress
import EverDb.Txn.Tracks
import EverDb.Txn.Working
import EverDb.Array.Capacity
import EverDb.Array.Control
import EverDb.Array.Inline
import EverDb.Array.Live
import EverDb.Array.Purity
import EverDb.Array.Refusal
import EverDb.Array.Refine
import EverDb.MemHash.Model
import EverDb.Array.Open
import EverDb.Array.Pointer
import EverDb.Array.Relocation
import EverDb.Array.Shares
import EverDb.Array.Stored
import EverDb.Btree.Pointer
import EverDb.Btree.Load
import EverDb.Btree.Relocation
import EverDb.Edb.Recovery
import EverDb.Edb.Remapping
import EverDb.Edb.Reopen
import EverDb.Page.Pointer
import EverDb.Txn.History
import EverDb.Txn.Lent
import EverDb.Txn.Space
