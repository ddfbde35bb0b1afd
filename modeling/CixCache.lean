import CixCache.Lib.Agreement
import CixCache.Lib.Component
import CixCache.Lib.Run
import CixCache.Lib.SortedSearch
import CixCache.Name.Laws
import CixCache.Store.Publish
import CixCache.Store.Correction
import CixCache.Importer
import CixCache.Invariant
import CixCache.Server.Delivery
import CixCache.Server.Immutability
import CixCache.Server.Signed
import CixCache.Store.Collect
import CixCache.Store.Migrate
import CixCache.Store.Resolution
import CixCache.Store.Spelling
import CixCache.Process.Calls
import CixCache.Process.Race
import CixCache.Process.Entry
import CixCache.Process.Overwrite
import CixCache.ImportLoss
import CixCache.Lib.Search
import CixCache.Server.Parse
import CixCache.Server.Reading
import CixCache.Lib.Traced
import CixCache.Store.Traced
import CixCache.Server.Confinement
import CixCache.Lib.PathWalk
import CixCache.Server.WebRoot
import CixCache.Server.Authority
import CixCache.Lib.Grouping
import CixCache.Lib.Sorting
import CixCache.Store.Version
import CixCache.JsonWriter
import CixCache.Document.Manifest
import CixCache.Document.Listing
import CixCache.Document.Status
import CixCache.Document.Agreement
import CixCache.Document.Order
import CixCache.Document.Asserted
import CixCache.Document.Recorded
import CixCache.Document.Ranks
import CixCache.Server.Head
import CixCache.Server.Settings
import CixCache.Lib.Numeral
import CixCache.Name.Decimal
import CixCache.Store.Identity
import CixCache.Store.VersionOrder
import CixCache.Store.Canonicalize
import CixCache.Server.Activity
import CixCache.Server.Transfer
import CixCache.Store.SetArch
import CixCache.Lib.Intrusive
import CixCache.Server.Records
import CixCache.Server.EventLoop
import CixCache.Server.Bookkeeping
import CixCache.Server.Handled
import CixCache.Server.Consistency
import CixCache.Server.Sweep
import CixCache.Server.Orderly
import CixCache.Server.Steady
import CixCache.Store.Release
import CixCache.Server.Decode
import CixCache.Lib.Lines
import CixCache.Server.Lines
import CixCache.Server.ContentLength
import CixCache.Server.Policy
import CixCache.Lib.Selection
import CixCache.Seed.Plan
import CixCache.Seed.Prune
import CixCache.Server.Tracking
import CixCache.Server.Hashers
import CixCache.JsonReader
import CixCache.JsonParse
import CixCache.Document.Parsed
import CixCache.Document.Mirror
import CixCache.Client.Request
import CixCache.Client.Response
import CixCache.Client.Upload
import CixCache.Server.Views
import CixCache.Server.Refinement
import CixCache.Client.Call
import CixCache.Server.Announced
import CixCache.Lib.Rounding
import CixCache.JsonRewrite
import CixCache.Server.Disclosed
import CixCache.Server.Staging
import CixCache.Store.Pairing
