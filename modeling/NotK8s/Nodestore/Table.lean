import Mathlib.Data.List.Dedup
import Mathlib.Data.Prod.Lex
import Mathlib.Data.Sum.Order
import NotK8s.Library.Bytes
import NotK8s.Library.Versions

namespace NotK8s.Nodestore

open Library

/-!
# The state machine's input language

The commands a replica applies, as recorded in the log, and the reads a
transaction branch may contain.  Nothing ambient enters a command: lease
identities and clock readings are chosen before it is proposed, so applying
it is a function of the state alone.
-/

/-- A key range after the wire pair `(key, range_end)` has been decoded. -/
inductive KeyRange where
  | single (key : Bytes)
  /-- The half-open interval from `lower` up to, not including, `upper`. -/
  | between (lower upper : Bytes)
  /-- Every key from `lower` on. -/
  | fromKey (lower : Bytes)
  | all
  deriving DecidableEq

namespace KeyRange

/-- Decode a wire pair.  A single zero byte as the end means "no end", and
with a single zero byte as the key too it means every key. -/
def decode (key rangeEnd : Bytes) : KeyRange :=
  if rangeEnd = [] then .single key
  else if key = [0] ∧ rangeEnd = [0] then .all
  else if rangeEnd = [0] then .fromKey key
  else .between key rangeEnd

/-- Whether a key falls in the range. -/
def contains : KeyRange -> Bytes -> Bool
  | .single wanted, key => key = wanted
  | .all, _ => true
  | .fromKey lower, key => lower ≤ key
  | .between lower upper, key => lower ≤ key && key < upper

end KeyRange

structure PutOp where
  key : Bytes
  value : Bytes
  lease : Int
  prevKv : Bool
  /-- Update only the lease and keep the existing value. -/
  ignoreValue : Bool
  /-- Update only the value and keep the existing lease. -/
  ignoreLease : Bool
  deriving DecidableEq

structure DeleteOp where
  range : KeyRange
  prevKv : Bool
  deriving DecidableEq

inductive CompareResult where
  | equal | greater | less | notEqual
  deriving DecidableEq

inductive CompareTarget where
  | version (expected : Int)
  | createRevision (expected : Int)
  | modRevision (expected : Int)
  | value (expected : Bytes)
  | lease (expected : Int)
  deriving DecidableEq

structure Compare where
  key : Bytes
  result : CompareResult
  target : CompareTarget
  deriving DecidableEq

inductive SortTarget where
  | key | version | createRevision | modRevision | value
  deriving DecidableEq

structure SortOrder where
  target : SortTarget
  ascending : Bool
  deriving DecidableEq

structure RangeQuery where
  range : KeyRange
  /-- Read the store as of this revision; at most zero means "as it is now". -/
  revision : Int
  limit : Int
  keysOnly : Bool
  countOnly : Bool
  sort : Option SortOrder
  deriving DecidableEq

/-- A plain read of `range` at the current revision. -/
def RangeQuery.current (range : KeyRange) : RangeQuery where
  range := range
  revision := 0
  limit := 0
  keysOnly := false
  countOnly := false
  sort := none

inductive RequestOp where
  | range (query : RangeQuery)
  | put (op : PutOp)
  | delete (op : DeleteOp)
  deriving DecidableEq

/-- If every comparison holds apply `success`, otherwise apply `failure`. -/
structure TxnOp where
  compare : List Compare
  success : List RequestOp
  failure : List RequestOp
  deriving DecidableEq

/-- A cluster member in the replicated address book. -/
structure Member where
  id : UInt64
  peerUrl : String
  clientUrl : String
  name : String
  isLearner : Bool
  deriving DecidableEq

inductive Command where
  | put (op : PutOp)
  | delete (op : DeleteOp)
  | txn (op : TxnOp)
  | compact (revision : Int)
  | leaseGrant (id ttlSecs nowUnixSecs : Int)
  | leaseRevoke (id : Int)
  | leaseKeepAlive (id nowUnixSecs : Int)
  | expireLeases (nowUnixSecs : Int)
  | setMember (member : Member)
  | removeMember (id : UInt64)
  deriving DecidableEq

/-!
# The version table and its queries

One row per write, and no row is ever updated.  The list is the table in
rowid order, so an unordered query that a secondary index answers meets rows
with equal index entries in the order of the list.  The primary key is
`(revision, sub)`; it is also the stamp that orders the versions of a key.

Each function below is one query of the source over that list.  A bound
`none` stands for the largest 64-bit integer, which no stored revision
exceeds.
-/

/-- A key/value pair as it is reported to clients. -/
structure KeyValue where
  key : Bytes
  createRevision : Int
  modRevision : Int
  version : Int
  value : Bytes
  lease : Int
  deriving DecidableEq

/-- The all-zero pair that a comparison sees for a missing key. -/
instance : Inhabited KeyValue where
  default := ⟨[], 0, 0, 0, [], 0⟩

inductive EventKind where
  | put | delete
  deriving DecidableEq

structure Event where
  kind : EventKind
  kv : KeyValue
  prevKv : Option KeyValue
  deriving DecidableEq

structure RangeResult where
  kvs : List KeyValue
  /-- Total matching keys, ignoring `limit`. -/
  count : Int
  more : Bool
  deriving DecidableEq

/-- One row of the `kv` table.  Tombstones have no value and `deleted` set. -/
structure KvRow where
  revision : Int
  sub : Nat
  key : Bytes
  value : Option Bytes
  createRevision : Int
  version : Int
  lease : Int
  deleted : Bool
  prevRevision : Int
  deriving DecidableEq

namespace KvRow

/-- The order of versions: `ORDER BY revision DESC, sub DESC` reads it
downwards. -/
def stamp (row : KvRow) : Int ×ₗ Nat :=
  toLex (row.revision, row.sub)

/-- The columns every reading query selects. -/
def toKeyValue (row : KvRow) : KeyValue where
  key := row.key
  createRevision := row.createRevision
  modRevision := row.revision
  version := row.version
  value := row.value.getD []
  lease := row.lease

/-- What a row stands for: a tombstone resolves to no value. -/
def live (row : KvRow) : Option KeyValue :=
  if row.deleted then none else some row.toKeyValue

/-- The row satisfies `revision <= asOf`. -/
def within (asOf : Option Int) (row : KvRow) : Bool :=
  asOf.all fun bound => row.revision ≤ bound

end KvRow

/-- The SQL predicate of a key range. -/
def rangePredicate : KeyRange -> Bytes -> Bool
  | .all, _ => true
  | .single wanted, key => key = wanted
  | .fromKey lower, key => lower ≤ key
  | .between lower upper, key => lower ≤ key && key < upper

/-- The newest row of one key, tombstones included. -/
def newestOf (kv : List KvRow) (asOf : Option Int) (key : Bytes) : Option KvRow :=
  newest KvRow.stamp (fun row => row.key = key && row.within asOf) kv

/-- The current value of a key. -/
def currentIn (kv : List KvRow) (key : Bytes) : Option KeyValue :=
  (newestOf kv none key).bind KvRow.live

/-- The newest visible row of every key in the range.  A single key is
looked up directly; any other range enumerates its distinct keys first. -/
def latestIn (kv : List KvRow) (range : KeyRange) (asOf : Option Int) : List KvRow :=
  match range with
  | .single key => (newestOf kv asOf key).toList
  | range =>
    ((kv.filter fun row => rangePredicate range row.key && row.within asOf).map KvRow.key).dedup.filterMap
      (newestOf kv asOf)

/-- Tombstones are filtered after the newest row of each key was chosen. -/
def selectIn (kv : List KvRow) (range : KeyRange) (asOf : Option Int) : List KvRow :=
  kv.filter fun row => decide (row ∈ latestIn kv range asOf) && !row.deleted

/-- The sort column of a row.  Integers sort below blobs. -/
def column : SortTarget -> KeyValue -> Int ⊕ₗ Bytes
  | .key, kv => Sum.inrₗ kv.key
  | .version, kv => Sum.inlₗ kv.version
  | .createRevision, kv => Sum.inlₗ kv.createRevision
  | .modRevision, kv => Sum.inlₗ kv.modRevision
  | .value, kv => Sum.inrₗ kv.value

/-- The order of a result page.  The key breaks ties, ascending. -/
def orderBy : Option SortOrder -> KeyValue -> KeyValue -> Prop
  | none, first, second => first.key ≤ second.key
  | some sort, first, second =>
    (if sort.ascending then column sort.target first < column sort.target second
      else column sort.target second < column sort.target first) ∨
    column sort.target first = column sort.target second ∧ first.key ≤ second.key

instance (sort : Option SortOrder) : DecidableRel (orderBy sort) := fun first second =>
  match sort with
  | none => inferInstanceAs (Decidable (first.key ≤ second.key))
  | some sort => inferInstanceAs (Decidable
      ((if sort.ascending then column sort.target first < column sort.target second
        else column sort.target second < column sort.target first) ∨
      column sort.target first = column sort.target second ∧ first.key ≤ second.key))

/-- Sort the selected rows and cut them to the page the query asks for.
The window count is taken before the limit and read off a returned row, so
it stays zero when no row is returned. -/
def pageOf (query : RangeQuery) (rows : List KeyValue) : RangeResult :=
  if query.countOnly then { kvs := [], count := rows.length, more := false }
  else
    let ordered := rows.insertionSort (orderBy query.sort)
    let fetched := if query.limit > 0 then ordered.take (query.limit + 1).toNat else ordered
    let count : Int := if fetched.isEmpty then 0 else rows.length
    let kvs := fetched.map fun kv => if query.keysOnly then { kv with value := [] } else kv
    let more := decide (query.limit > 0) && decide ((kvs.length : Int) > query.limit)
    { kvs := if more then kvs.take query.limit.toNat else kvs, count := count, more := more }

/-- Read a range as of a revision. -/
def rangeIn (kv : List KvRow) (range : KeyRange) (asOf : Option Int) (query : RangeQuery) : RangeResult :=
  pageOf query ((selectIn kv range asOf).map KvRow.toKeyValue)

/-- Every live key of a range, in key order. -/
def currentRangeIn (kv : List KvRow) (range : KeyRange) : List KeyValue :=
  (rangeIn kv range none (RangeQuery.current range)).kvs

/-- The value `key` had at exactly `revision`, used to resolve `prev_kv`.
The query has no order: the index on `(key, revision)` answers it with the
first such row in rowid order. -/
def rowAt (kv : List KvRow) (key : Bytes) (revision : Int) : Option KeyValue :=
  if revision = 0 then none
  else (kv.find? fun row => row.key = key && row.revision = revision).bind KvRow.live

/-- The live keys held by a lease, in key order. -/
def leaseKeysIn (kv : List KvRow) (id : Int) : List Bytes :=
  ((kv.filter fun row =>
      decide (newestOf kv none row.key = some row) && !row.deleted && decide (row.lease = id)).map
    KvRow.key).insertionSort (· ≤ ·)

end NotK8s.Nodestore
