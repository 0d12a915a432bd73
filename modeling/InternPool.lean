import InternPool.Catalog
import InternPool.Concurrent.Interleaving
import InternPool.Concurrent.SharedCell
import InternPool.Concurrent.TableSections
import InternPool.Decimal.Shortest
import InternPool.Foreign
import InternPool.Handle
import InternPool.Hash.Content
import InternPool.Hash.Lanes
import InternPool.Hash.PassThrough
import InternPool.Hash.Words
import InternPool.Hash.Xxh3
import InternPool.Json.Document
import InternPool.Json.Number
import InternPool.Json.Spelling
import InternPool.Json.Text
import InternPool.Json.Writer
import InternPool.Keyed.HandleMap
import InternPool.Keyed.OrderedMap
import InternPool.Mismatch
import InternPool.Options
import InternPool.Process
import InternPool.Proofs.Table.Valid
import InternPool.Proofs.Utf8.AsciiRun
import InternPool.Proofs.Utf8.Decoding
import InternPool.Proofs.Utf8.Mended
import InternPool.Proofs.Utf8.Reading
import InternPool.Proofs.Utf8.Segments
import InternPool.Proofs.Utf8.Spelling
import InternPool.Proofs.Utf8.Verdict
import InternPool.Session
import InternPool.Shard
import InternPool.Table
import InternPool.Table.Observe
import InternPool.Table.Request
import InternPool.Text.Hex
import InternPool.Text.Padding
import InternPool.Text.Quoted
import InternPool.Text.Unprintable
import InternPool.Utf8.Ascii
import InternPool.Utf8.Decoder
import InternPool.Utf8.Repair
import InternPool.Utf8.Restart
import InternPool.Utf8.Scalar
import InternPool.Utf8.Scan
import InternPool.Utf8.Segment
import InternPool.Utf8.Sequence
import InternPool.Utf8.Validate
import InternPool.World
import InternPool.World.Action
import InternPool.World.History
import InternPool.World.JsonMap
import InternPool.World.Route
import InternPool.Proofs.Table.Observed
import InternPool.Proofs.Table.Refinement
import InternPool.Proofs.Table.Account
import InternPool.Proofs.Concurrent.ExactlyOnce
import InternPool.Proofs.Concurrent.FilledOnce
import InternPool.Proofs.Concurrent.Representation
import InternPool.Proofs.World.Arrival
import InternPool.Proofs.World.Order
import InternPool.Proofs.Concurrent.Waiting
import InternPool.Proofs.Concurrent.ChosenOnce
import InternPool.Proofs.World.SharedTable
import InternPool.Proofs.Utf8.Projection
import InternPool.Proofs.Table.Tally
import InternPool.Proofs.Concurrent.EndState
import InternPool.Proofs.Table.Regrouping
import InternPool.Proofs.Table.Growth
import InternPool.Proofs.Table.LogText
import InternPool.Proofs.World.Permanence
import InternPool.Proofs.World.Meeting
import InternPool.Proofs.Utf8.Cutting
import InternPool.Proofs.World.ForeignView
import InternPool.Proofs.Concurrent.Moments
import InternPool.Proofs.Concurrent.Turns
import InternPool.Proofs.Concurrent.Snapshot
import InternPool.Proofs.Keyed.FiniteMap
import InternPool.Proofs.World.Keyed
import InternPool.Proofs.Utf8.Seam
import InternPool.Proofs.Utf8.Extension
import InternPool.Proofs.Concurrent.Journal
import InternPool.Proofs.Json.Escapes
import InternPool.Proofs.Json.Reading
import InternPool.Proofs.Json.Writing
import InternPool.Proofs.World.Documents
import InternPool.Proofs.Utf8.Restarting
import InternPool.Proofs.World.CutString
import InternPool.Proofs.Utf8.Measure
import InternPool.Proofs.World.Measured
import InternPool.Proofs.Table.Construction
import InternPool.Proofs.Utf8.Searching
import InternPool.Proofs.Utf8.AsciiWords
import InternPool.Proofs.Utf8.Copying
import InternPool.Proofs.Json.Members
import InternPool.Proofs.Keyed.Filing
import InternPool.Proofs.World.Maps
import InternPool.Proofs.Hash.Rotation
import InternPool.Proofs.Hash.Settling
