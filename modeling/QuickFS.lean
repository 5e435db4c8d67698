import QuickFS.Cache.Completion
import QuickFS.Cache.Batches
import QuickFS.Client.Reads
import QuickFS.Client.Generations
import QuickFS.Client.Reopening
import QuickFS.Client.Mutations
import QuickFS.Adapter.Listings
import QuickFS.Adapter.FlushedLocks
import QuickFS.Daemon.Identity
import QuickFS.Daemon.Pairing
import QuickFS.Server.LockWaits
import QuickFS.Export.ReadOnly
import QuickFS.Export.Confinement
import QuickFS.Export.Forks
import QuickFS.Wire.Batches
import QuickFS.Export.Attributes
