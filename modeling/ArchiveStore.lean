import ArchiveStore.Bucket.Basic
import ArchiveStore.Bucket.Read
import ArchiveStore.Bucket.Write
import ArchiveStore.Bytes.Basic
import ArchiveStore.Console.Command
import ArchiveStore.Console.Log
import ArchiveStore.Console.Run
import ArchiveStore.Console.Similar
import ArchiveStore.Cursor
import ArchiveStore.Database
import ArchiveStore.Database.Open
import ArchiveStore.Decimal.Notation
import ArchiveStore.Decimal.Shortest
import ArchiveStore.Document.Codec
import ArchiveStore.Document.Debug
import ArchiveStore.Document.Json
import ArchiveStore.Document.Value
import ArchiveStore.Error
import ArchiveStore.Host
import ArchiveStore.Host.Path
import ArchiveStore.Image
import ArchiveStore.Keys
import ArchiveStore.Main
import ArchiveStore.NameList
import ArchiveStore.Packed.Reader
import ArchiveStore.Packed.Writer
import ArchiveStore.Record.Envelope
import ArchiveStore.Record.Layout
import ArchiveStore.Record.Meta
import ArchiveStore.Session.Basic
import ArchiveStore.Session.Run
import ArchiveStore.StoreFile
import ArchiveStore.Table
import ArchiveStore.Text.Base64
import ArchiveStore.Text.GraphemeExtend
import ArchiveStore.Text.Printable
import ArchiveStore.Text.Quoted
import ArchiveStore.Text.Utf8
import ArchiveStore.Proofs.Utf8
import ArchiveStore.Proofs.Envelope
import ArchiveStore.Proofs.ChunkedRead
import ArchiveStore.Proofs.Keys
import ArchiveStore.Proofs.Table
import ArchiveStore.Proofs.Write
import ArchiveStore.Proofs.Host
import ArchiveStore.Proofs.Ownership.Invariant
import ArchiveStore.Proofs.Ownership.Writes
import ArchiveStore.Proofs.Ownership.Stores
import ArchiveStore.Proofs.Ownership.Sessions
import ArchiveStore.Proofs.Contents.Model
import ArchiveStore.Proofs.Contents.Reads
import ArchiveStore.Proofs.Contents.Tables
import ArchiveStore.Proofs.Contents.Writes
import ArchiveStore.Proofs.Contents.Refusals
import ArchiveStore.Proofs.Document.Depth
import ArchiveStore.Proofs.Document.RoundTrip
import ArchiveStore.Proofs.Session.Failures
import ArchiveStore.Proofs.Session.Home
import ArchiveStore.Proofs.Cursor.Walk
import ArchiveStore.Proofs.Cursor.Held
import ArchiveStore.Proofs.NameLists.Frame
import ArchiveStore.Proofs.NameLists.Lists
import ArchiveStore.Proofs.NameLists.Registry
import ArchiveStore.Proofs.NameLists.Runs
import ArchiveStore.Proofs.Contents.Stores
import ArchiveStore.Proofs.Session.Logs
import ArchiveStore.Proofs.Contents.Sessions
import ArchiveStore.Proofs.KeyRoles
import ArchiveStore.Proofs.ChunkedWrite
import ArchiveStore.Proofs.InBounds
import ArchiveStore.Proofs.Sequence.Counters
import ArchiveStore.Proofs.Sequence.Runs
import ArchiveStore.Proofs.PrefixScan
import ArchiveStore.Proofs.NameLists.Load
