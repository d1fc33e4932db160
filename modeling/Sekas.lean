import Sekas.Engine
import Sekas.Txn.Intent
import Sekas.Txn.Eval
import Sekas.Txn.Shard
import Sekas.Txn.WellFormed
import Sekas.Txn.Resolve
import Sekas.Txn.Replay
import Sekas.Txn.Register
import Sekas.Txn.Displace
import Sekas.Txn.Readers
import Sekas.Txn.Refusal
import Sekas.Root.TxnId
import Sekas.Root.Epochs
import Sekas.Root.Leader
import Sekas.Root.Node
import Sekas.Root.Report
import Sekas.Root.Stats
import Sekas.Root.Heartbeat
import Sekas.Root.Delivery
import Sekas.Root.Catalog
import Sekas.Root.Alloc
import Sekas.Bootstrap
import Sekas.Root.Reporting
import Sekas.Root.Join
import Sekas.Root.Cluster
import Sekas.Root.Info
