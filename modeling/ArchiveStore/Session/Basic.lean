import ArchiveStore.Cursor
import ArchiveStore.Console.Run
/-!
# Sessions: requests and replies

A session is a client working with one store over time: it opens the store, holds handles on
namespaces, user buckets and cursors, and sends requests. This module holds the vocabulary:
which bucket a request addresses, how a store is opened, what a request may ask, what comes
back, and the failures that belong to the session rather than to the store.
-/

namespace ArchiveStore

/-- Which bucket of a namespace a request addresses. -/
inductive BucketRef where
  | documents
  | objects
  | chunks
  | user (name : Bytes)
deriving DecidableEq, Repr

/-- How a store is opened. -/
structure OpenOptions where
  /-- Open for reading only. -/
  readOnly : Bool := false
  /-- Open by path alone, with every other setting at its default (so for writing). -/
  byPath : Bool := false
  /-- The data directory, relative to the session's directory. -/
  subdir : String := ""
deriving DecidableEq, Repr

/-- An object to store beside a document, as a request gives it. -/
abbrev ObjectInput := Resource

/-- A request of a session. -/
inductive Request where
  | createNamespace (space : Bytes)
  | deleteNamespace (space : Bytes)
  | listNamespaces
  | storedNamespaces
  | isReadOnly
  | compact
  | reopen (options : OpenOptions)
  | storePath
  | makeFile (path : String) (content : Bytes)
  | replaceStoreFile (content : Bytes)
  | console (args : List String)
  | bucketInfo (space : Bytes) (b : BucketRef)
  | createBucket (space name : Bytes)
  | deleteBucket (space name : Bytes)
  | listBuckets (space : Bytes)
  | storedBuckets (space : Bytes)
  | loadBuckets (space : Bytes)
  | namespacePrefix (space : Bytes)
  | putDocumentWithObjects (space key : Bytes) (doc : Document) (objects : List ObjectInput)
  | putDocument (space key : Bytes) (doc : Document)
  | getDocument (space key : Bytes)
  | find (space : Bytes) (cursor : String) (query : Document)
  | findAll (space : Bytes) (query : Document)
  | put (space : Bytes) (b : BucketRef) (key value : Bytes) (info : Option Meta)
  | putValue (space : Bytes) (b : BucketRef) (value : Bytes) (info : Option Meta)
  | get (space : Bytes) (b : BucketRef) (key : Bytes)
  | getAt (space : Bytes) (b : BucketRef) (key : Bytes) (len offset : Nat)
  | getMeta (space : Bytes) (b : BucketRef) (key : Bytes)
  | contains (space : Bytes) (b : BucketRef) (key : Bytes)
  | delete (space : Bytes) (b : BucketRef) (key : Bytes)
  | count (space : Bytes) (b : BucketRef) (lo hi : Option Bytes)
  | scan (space : Bytes) (b : BucketRef) (reverse : Bool) (lo hi : Option Bytes)
  | range (space : Bytes) (b : BucketRef) (cursor : String) (reverse : Bool) (lo hi : Option Bytes)
  | advance (cursor : String)
  | cursorState (cursor : String)
  | cursorKey (cursor : String)
  | cursorValue (cursor : String)
  | cursorMeta (cursor : String)
  | cursorDocument (cursor : String)
  | release (cursor : String)
  | dumpTable
  | setRecord (key value : Bytes)
  | deleteRecord (key : Bytes)
deriving Repr

/-- One entry of a scan: its key, and its value and meta or why they could not be read. -/
structure ScanRow where
  key : Bytes
  value : Except StoreError Bytes
  info : Except StoreError (Option Meta)

/-- One document of a search: its key, and the document or why it could not be read. -/
structure FoundRow where
  key : Bytes
  doc : Except StoreError Document

/-- The answer to a request. -/
inductive Reply where
  | unit
  | flag (b : Bool)
  | number (n : Nat)
  | bytes (b : Bytes)
  | names (names : List Bytes)
  | text (s : String)
  /-- Whether a registration returned the handle already held; `none` if none was held. -/
  | same (held : Option Bool)
  | info (m : Option Meta)
  | entry (value : Bytes) (m : Option Meta)
  | slice (data : Bytes)
  | rows (rows : List ScanRow)
  | found (rows : List FoundRow)
  | document (d : Document)
  | bucketInfo (name : Bytes) (kind : Option BucketKind)
  | dump (entries : List (Bytes × Bytes))
  | opened (result : Option StoreError)
  /-- A run of the inspection tool: its status, its standard output, the lines of its standard
  error a reader is shown, and how opening the store again went. -/
  | console (code : Nat) (stdout : Bytes) (stderr : List String) (reopen : Option StoreError)

/-- Why a session could not carry out a request. -/
inductive SessionError where
  /-- The store refused or failed. -/
  | store (e : StoreError)
  /-- The session holds no handle on that namespace. -/
  | noNamespace (space : Bytes)
  /-- The session holds no handle on that user bucket. -/
  | noBucket (name : Bytes)
  /-- The session holds no cursor of that name. -/
  | noCursor (name : String)
  /-- The store could not be opened. -/
  | notOpen
  /-- A document was asked of a cursor over plain entries. -/
  | notDocumentCursor
  /-- The operating system refused to make a file the session asked for. -/
  | host (failure : IoFailure)
deriving DecidableEq, Repr

/-- The name of the kind of a session failure. -/
def SessionError.label : SessionError → String
  | .store e => e.kind.label
  | _ => "DriverError"

/-- The text of a session failure. -/
def SessionError.message : SessionError → String
  | .store e => e.message
  | .noNamespace space => "no handle for namespace " ++ Bytes.hex space
  | .noBucket name => "no handle for bucket " ++ Bytes.hex name
  | .noCursor name => "no iterator " ++ name
  | .notOpen => "database not open"
  | .notDocumentCursor => "not a document iterator"
  | .host failure => failure.message

end ArchiveStore
