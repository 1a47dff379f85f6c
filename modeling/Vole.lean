import Vole.Cli.SplitArgs
import Vole.Resp.Faults
import Vole.Resp.RoundTrip
import Vole.Store.SetAlgebra
import Vole.Store.Removal
import Vole.Store.Transfers
import Vole.Store.SortOrder
import Vole.Store.StreamReads
import Vole.Store.Globs
import Vole.Store.JsonPaths
import Vole.Store.RateWindow
import Vole.Store.Sketches
import Vole.Store.Downsample
import Vole.Store.Moves
import Vole.Store.Cursor
import Vole.Store.Sweep
import Vole.Store.Overwrite
import Vole.Store.Failures
import Vole.Store.Counters
import Vole.Store.ScoreMap
import Vole.Server.Scanning
import Vole.Server.Numbers
import Vole.Server.SnapshotFile
import Vole.Server.QueueRestart
import Vole.Server.Transaction
import Vole.Server.FullSync
import Vole.Server.Peers
import Vole.Server.Streaming
import Vole.Server.Convergence
import Vole.Server.HttpLog
import Vole.Server.Scores
import Vole.Server.LogOrder
import Vole.Server.StoreCalls
import Vole.Server.Together
import Vole.Server.Namespace
import Vole.Server.Ownership
import Vole.Server.Redirect
import Vole.Server.GroupReads
import Vole.Server.ByteStreams
