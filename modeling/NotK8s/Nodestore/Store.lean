import NotK8s.Nodestore.Table

namespace NotK8s.Nodestore

open Library

/-!
# The MVCC store

The state machine of a replica: the database a transaction works on, and the
store around it, which adds the cache of full RBAC lists.  A transaction that
fails returns no database, so the store it was opened on is kept as it was;
that is the rollback.

Revisions, versions and leases are 64-bit integers in the source.  Only the
expiry of a lease adds numbers a client chooses, so that addition wraps here
and the counters do not.
-/

inductive Error where
  | compacted (compactRevision : Int)
  | futureRevision (requested current : Int)
  | keyNotFound
  | invalidRequest (message : String)
  | sqlite (message : String)
  | unavailable (message : String)
  deriving DecidableEq

structure Lease where
  id : Int
  ttlSecs : Int
  expiresAt : Int
  deriving DecidableEq

/-- The database: the version table, the `meta` row values and the lease and
member tables in primary key order.  An absent `applied_index` row reads as
zero. -/
structure Db where
  kv : List KvRow
  revision : Int
  compactRevision : Int
  appliedIndex : Nat
  leases : List Lease
  members : List Member
  deriving DecidableEq

/-- A fresh database sits at revision 1. -/
def Db.initSchema : Db where
  kv := []
  revision := 1
  compactRevision := 0
  appliedIndex := 0
  leases := []
  members := []

structure CachedRbacRange where
  revision : Int
  result : RangeResult
  deriving DecidableEq

structure Store where
  db : Db
  rbacCache : Bytes -> Option CachedRbacRange

/-- A store opened on an empty database. -/
def Store.fresh : Store where
  db := Db.initSchema
  rbacCache := fun _ => none

/-! ## The RBAC list cache -/

def rbacListPrefixes : List Bytes :=
  [ascii "/registry/clusterrolebindings/", ascii "/registry/clusterroles/",
    ascii "/registry/rolebindings/", ascii "/registry/roles/"]

/-- The end of the interval of keys that start with `stem`. -/
def prefixRangeEnd (stem : Bytes) : Bytes :=
  match stem.reverse.dropWhile (· = 255) with
  | [] => [0]
  | last :: front => front.reverse ++ [last + 1]

def rbacListPrefix : KeyRange -> Option Bytes
  | .between lower upper =>
    rbacListPrefixes.find? fun stem => lower = stem && upper = prefixRangeEnd stem
  | _ => none

def rbacKey (key : Bytes) : Bool :=
  rbacListPrefixes.any fun stem => stem.isPrefixOf key

def rbacRange : KeyRange -> Bool
  | .single key => rbacKey key
  | .between lower upper =>
    rbacListPrefixes.any fun stem => lower < prefixRangeEnd stem && stem < upper
  | .fromKey lower => rbacListPrefixes.any fun stem => lower < prefixRangeEnd stem
  | .all => true

def requestTouches : RequestOp -> Bool
  | .range _ => false
  | .put op => rbacKey op.key
  | .delete op => rbacRange op.range

def commandTouchesRbac : Command -> Bool
  | .put op => rbacKey op.key
  | .delete op => rbacRange op.range
  | .txn op => op.success.any requestTouches || op.failure.any requestTouches
  | _ => false

/-! ## Reads -/

/-- The queries whose results are cached: whole lists, neither cut, trimmed
nor sorted. -/
def cacheable (q : RangeQuery) : Bool :=
  decide (q.limit = 0) && !q.keysOnly && !q.countOnly && q.sort.isNone

/-- The revision a query selects, or its refusal. -/
def Db.readRevision (db : Db) (q : RangeQuery) : Except Error Int :=
  if q.revision > 0 then
    if q.revision ≤ db.compactRevision then .error (.compacted db.compactRevision)
    else if q.revision > db.revision then .error (.futureRevision q.revision db.revision)
    else .ok q.revision
  else .ok db.revision

/-- The cached list that answers a query at revision `asOf`, if one does. -/
def Store.cachedList (s : Store) (q : RangeQuery) (asOf : Int) : Option RangeResult :=
  match rbacListPrefix q.range with
  | none => none
  | some stem =>
    if cacheable q then
      match s.rbacCache stem with
      | none => none
      | some cached => if asOf ≥ cached.revision then some cached.result else none
    else none

/-- Put a result read at revision `asOf` into the cache. -/
def Store.fillCache (s : Store) (q : RangeQuery) (asOf : Int) (result : RangeResult) : Store :=
  match rbacListPrefix q.range with
  | none => s
  | some stem =>
    if cacheable q then
      { s with rbacCache := Function.update s.rbacCache stem (some { revision := asOf, result := result }) }
    else s

/-- Read a range, and keep the result in the cache when it is one of the
full RBAC lists. -/
def Store.range (s : Store) (q : RangeQuery) : Except Error RangeResult × Store :=
  match s.db.readRevision q with
  | .error refusal => (.error refusal, s)
  | .ok asOf =>
    match s.cachedList q asOf with
    | some result => (.ok result, s)
    | none =>
      let result := rangeIn s.db.kv q.range (some asOf) q
      (.ok result, s.fillCache q asOf result)

/-- The event a stored row replays as. -/
def rowEvent (kv : List KvRow) (row : KvRow) : Event :=
  let prevKv := rowAt kv row.key row.prevRevision
  if row.deleted then
    { kind := .delete, kv := { (default : KeyValue) with key := row.key, modRevision := row.revision },
      prevKv := prevKv }
  else { kind := .put, kv := row.toKeyValue, prevKv := prevKv }

/-- Events strictly after `since`, in apply order. -/
def Db.eventsSince (db : Db) (since : Int) (range : KeyRange) : Except Error (List (Int × Event)) :=
  if since < db.compactRevision then .error (.compacted db.compactRevision)
  else
    let rows := (db.kv.filter fun row => rangePredicate range row.key && decide (row.revision > since)).insertionSort
      (fun first second => first.stamp ≤ second.stamp)
    .ok (rows.map fun row => (row.revision, rowEvent db.kv row))

/-! ## Table writes -/

/-- Insert a row; the primary key is `(revision, sub)`. -/
def insertKv (kv : List KvRow) (row : KvRow) : Except Error (List KvRow) :=
  if kv.any fun stored => stored.revision = row.revision && stored.sub = row.sub then
    .error (.sqlite "UNIQUE constraint failed: kv.revision, kv.sub")
  else .ok (kv ++ [row])

def insertLease (leases : List Lease) (lease : Lease) : Except Error (List Lease) :=
  if leases.any fun stored => stored.id = lease.id then
    .error (.sqlite "UNIQUE constraint failed: lease.id")
  else .ok (leases.orderedInsert (fun first second => first.id ≤ second.id) lease)

/-- `INSERT OR REPLACE`. -/
def replaceLease (leases : List Lease) (lease : Lease) : List Lease :=
  (leases.filter fun stored => stored.id ≠ lease.id).orderedInsert
    (fun first second => first.id ≤ second.id) lease

/-- The primary key of a member: its identity reinterpreted as signed. -/
def memberKey (member : Member) : Int :=
  member.id.toInt64.toInt

def insertMember (members : List Member) (member : Member) : Except Error (List Member) :=
  if members.any fun stored => stored.id = member.id then
    .error (.sqlite "UNIQUE constraint failed: member.id")
  else .ok (members.orderedInsert (fun first second => memberKey first ≤ memberKey second) member)

/-- `INSERT ... ON CONFLICT(id) DO UPDATE`. -/
def upsertMember (members : List Member) (member : Member) : List Member :=
  (members.filter fun stored => stored.id ≠ member.id).orderedInsert
    (fun first second => memberKey first ≤ memberKey second) member

/-! ## Snapshots -/

/-- The whole state machine at one applied index. -/
structure SnapshotState where
  revision : Int
  compactRevision : Int
  appliedIndex : Nat
  kvs : List KeyValue
  leases : List Lease
  members : List Member
  deriving DecidableEq

/-- Everything a replica needs to rebuild this state machine: live keys
only, no history. -/
def Db.exportSnapshot (db : Db) : SnapshotState where
  revision := db.revision
  compactRevision := db.compactRevision
  appliedIndex := db.appliedIndex
  kvs := (rangeIn db.kv .all (some db.revision) (RangeQuery.current .all)).kvs
  leases := db.leases
  members := db.members

/-- The smallest 64-bit integer, which no pair carries as its revision. -/
def i64Min : Int := -9223372036854775808

/-- Insert the pairs of a snapshot.  `sub` counts up while consecutive pairs
share a revision and starts over when the revision differs from that of the
pair before. -/
def restoreRows : List KeyValue -> Int -> Nat -> List KvRow -> Except Error (List KvRow)
  | [], _, _, kv => .ok kv
  | pair :: rest, lastRevision, sub, kv =>
    let sub := if pair.modRevision = lastRevision then sub + 1 else 0
    do
      let kv ← insertKv kv
        { revision := pair.modRevision, sub := sub, key := pair.key, value := some pair.value,
          createRevision := pair.createRevision, version := pair.version, lease := pair.lease,
          deleted := false, prevRevision := 0 }
      restoreRows rest pair.modRevision sub kv

/-- Replace this state machine wholesale with a snapshot. -/
def Store.restoreSnapshot (_s : Store) (snapshot : SnapshotState) : Except Error Store := do
  let kv ← restoreRows snapshot.kvs i64Min 0 []
  let leases ← snapshot.leases.foldlM insertLease []
  let members ← snapshot.members.foldlM insertMember []
  .ok
    { db :=
        { kv := kv, revision := snapshot.revision, compactRevision := snapshot.compactRevision,
          appliedIndex := snapshot.appliedIndex, leases := leases, members := members }
      rbacCache := fun _ => none }

/-! ## Applying a command -/

/-- Revision bookkeeping for one applied command. -/
structure Writer where
  next : Int
  sub : Nat
  used : Bool
  events : List Event
  deriving DecidableEq

def Writer.takeSub (w : Writer) : Nat × Writer :=
  (w.sub, { w with used := true, sub := w.sub + 1 })

def Writer.push (w : Writer) (event : Event) : Writer :=
  { w with events := w.events ++ [event] }

def applyPut (kv : List KvRow) (w : Writer) (op : PutOp) :
    Except Error (Option KeyValue × List KvRow × Writer) :=
  let prev := currentIn kv op.key
  if (op.ignoreValue || op.ignoreLease) && prev.isNone then .error .keyNotFound
  else
    let value := if op.ignoreValue then (prev.map KeyValue.value).getD [] else op.value
    let lease := if op.ignoreLease then (prev.map KeyValue.lease).getD 0 else op.lease
    let (createRevision, version, prevRevision) :=
      match prev with
      | none => (w.next, 1, 0)
      | some p => (p.createRevision, p.version + 1, p.modRevision)
    let (sub, w) := w.takeSub
    do
      let kv ← insertKv kv
        { revision := w.next, sub := sub, key := op.key, value := some value,
          createRevision := createRevision, version := version, lease := lease,
          deleted := false, prevRevision := prevRevision }
      let pair : KeyValue :=
        { key := op.key, createRevision := createRevision, modRevision := w.next,
          version := version, value := value, lease := lease }
      let w := w.push { kind := .put, kv := pair, prevKv := prev }
      .ok (if op.prevKv then prev else none, kv, w)

/-- The loop of a delete over its victims. -/
def deleteVictims (prevKv : Bool) :
    List KeyValue -> List KvRow -> Writer -> Except Error (List KeyValue × List KvRow × Writer)
  | [], kv, w => .ok ([], kv, w)
  | prev :: rest, kv, w =>
    let (sub, w) := w.takeSub
    do
      let kv ← insertKv kv
        { revision := w.next, sub := sub, key := prev.key, value := none, createRevision := 0,
          version := 0, lease := 0, deleted := true, prevRevision := prev.modRevision }
      let w := w.push
        { kind := .delete, kv := { (default : KeyValue) with key := prev.key, modRevision := w.next },
          prevKv := some prev }
      let (prevKvs, kv, w) ← deleteVictims prevKv rest kv w
      .ok (if prevKv then prev :: prevKvs else prevKvs, kv, w)

def applyDelete (kv : List KvRow) (w : Writer) (op : DeleteOp) :
    Except Error (Int × List KeyValue × List KvRow × Writer) :=
  let victims := currentRangeIn kv op.range
  do
    let (prevKvs, kv, w) ← deleteVictims op.prevKv victims kv w
    .ok ((victims.length : Int), prevKvs, kv, w)

/-- A missing key compares as the all-zero pair. -/
def evaluateCompare (kv : List KvRow) (c : Compare) : Bool :=
  let pair := (currentIn kv c.key).getD default
  let ordering :=
    match c.target with
    | .version v => cmp pair.version v
    | .createRevision v => cmp pair.createRevision v
    | .modRevision v => cmp pair.modRevision v
    | .lease v => cmp pair.lease v
    | .value v => cmp pair.value v
  match c.result with
  | .equal => ordering.isEq
  | .notEqual => ordering.isNe
  | .greater => ordering.isGT
  | .less => ordering.isLT

inductive OpResponse where
  | range (result : RangeResult)
  | put (prevKv : Option KeyValue)
  | delete (deleted : Int) (prevKvs : List KeyValue)
  deriving DecidableEq

/-- The revision a read inside a transaction selects.  Unlike a read of its
own it is not checked against the compaction point or the current revision. -/
def txnReadRevision (w : Writer) (current : Int) (q : RangeQuery) : Int :=
  if q.revision > 0 then q.revision else if w.used then w.next else current

/-- The operations of the chosen branch, in order. -/
def runRequests (current : Int) :
    List RequestOp -> List KvRow -> Writer -> Except Error (List OpResponse × List KvRow × Writer)
  | [], kv, w => .ok ([], kv, w)
  | .put op :: rest, kv, w => do
      let (prevKv, kv, w) ← applyPut kv w op
      let (responses, kv, w) ← runRequests current rest kv w
      .ok (.put prevKv :: responses, kv, w)
  | .delete op :: rest, kv, w => do
      let (deleted, prevKvs, kv, w) ← applyDelete kv w op
      let (responses, kv, w) ← runRequests current rest kv w
      .ok (.delete deleted prevKvs :: responses, kv, w)
  | .range q :: rest, kv, w => do
      let result := rangeIn kv q.range (some (txnReadRevision w current q)) q
      let (responses, kv, w) ← runRequests current rest kv w
      .ok (.range result :: responses, kv, w)

/-- The branch a transaction takes. -/
def TxnOp.branch (op : TxnOp) (kv : List KvRow) : List RequestOp :=
  if op.compare.all (evaluateCompare kv) then op.success else op.failure

def applyTxn (kv : List KvRow) (w : Writer) (op : TxnOp) (current : Int) :
    Except Error (Bool × List OpResponse × List KvRow × Writer) := do
  let (responses, kv', w) ← runRequests current (op.branch kv) kv w
  .ok (op.compare.all (evaluateCompare kv), responses, kv', w)

/-- The two deletes of a compaction: superseded rows first, then the
tombstones that are left. -/
def pruneRows (kv : List KvRow) (revision : Int) : List KvRow :=
  (kv.filter fun row =>
      !(decide (row.revision ≤ revision) && !decide (newestOf kv (some revision) row.key = some row))).filter
    fun row => !(decide (row.revision ≤ revision) && row.deleted)

def applyCompact (tx : Db) (revision current : Int) : Except Error Db :=
  if revision ≤ tx.compactRevision then .error (.compacted tx.compactRevision)
  else if revision > current then .error (.futureRevision revision current)
  else .ok { tx with kv := pruneRows tx.kv revision, compactRevision := revision }

theorem applyCompact_ok {tx tx' : Db} {revision current : Int} (compacted : applyCompact tx revision current = .ok tx') :
    tx.compactRevision < revision ∧ revision <= current ∧
      tx' = { tx with kv := pruneRows tx.kv revision, compactRevision := revision } := by
  unfold applyCompact at compacted
  split_ifs at compacted with below future
  cases compacted
  exact ⟨not_le.mp below, not_lt.mp future, rfl⟩

/-- Delete the keys a lease holds, one by one. -/
def deleteKeys : List Bytes -> List KvRow -> Writer -> Except Error (List KvRow × Writer)
  | [], kv, w => .ok (kv, w)
  | key :: rest, kv, w => do
      let (_, _, kv, w) ← applyDelete kv w { range := .single key, prevKv := false }
      deleteKeys rest kv w

def revokeLease (tx : Db) (w : Writer) (id : Int) : Except Error (Db × Writer) := do
  let (kv, w) ← deleteKeys (leaseKeysIn tx.kv id) tx.kv w
  .ok ({ tx with kv := kv, leases := tx.leases.filter fun lease => lease.id ≠ id }, w)

def revokeLeases : List Int -> Db -> Writer -> Except Error (Db × Writer)
  | [], tx, w => .ok (tx, w)
  | id :: rest, tx, w => do
      let (tx, w) ← revokeLease tx w id
      revokeLeases rest tx w

/-- Leases whose time is up, in the order of the index on the expiry. -/
def expiredLeases (leases : List Lease) (nowUnixSecs : Int) : List Int :=
  ((leases.filter fun lease => decide (lease.expiresAt ≤ nowUnixSecs)).insertionSort fun first second =>
      first.expiresAt < second.expiresAt ∨ first.expiresAt = second.expiresAt ∧ first.id ≤ second.id).map
    Lease.id

/-- Machine addition of 64-bit integers. -/
def i64Add (first second : Int) : Int :=
  (first + second).bmod 18446744073709551616

inductive CommandResponse where
  | put (prevKv : Option KeyValue)
  | delete (deleted : Int) (prevKvs : List KeyValue)
  | txn (succeeded : Bool) (responses : List OpResponse)
  | compact
  | lease (ttlSecs : Int)
  | empty
  deriving DecidableEq

/-- The outcome of applying one command. -/
structure Applied where
  revision : Int
  response : CommandResponse
  events : List Event
  deriving DecidableEq

/-- The command itself, inside the transaction. -/
def runCommand (tx : Db) (w : Writer) (current : Int) : Command -> Except Error (CommandResponse × Db × Writer)
  | .put op => do
      let (prevKv, kv, w) ← applyPut tx.kv w op
      .ok (.put prevKv, { tx with kv := kv }, w)
  | .delete op => do
      let (deleted, prevKvs, kv, w) ← applyDelete tx.kv w op
      .ok (.delete deleted prevKvs, { tx with kv := kv }, w)
  | .txn op => do
      let (succeeded, responses, kv, w) ← applyTxn tx.kv w op current
      .ok (.txn succeeded responses, { tx with kv := kv }, w)
  | .compact revision => do
      let tx ← applyCompact tx revision current
      .ok (.compact, tx, w)
  | .leaseGrant id ttlSecs nowUnixSecs =>
    let ttl := max ttlSecs 1
    let lease : Lease := { id := id, ttlSecs := ttl, expiresAt := i64Add nowUnixSecs ttl }
    .ok (.lease ttl, { tx with leases := replaceLease tx.leases lease }, w)
  | .leaseKeepAlive id nowUnixSecs =>
    match tx.leases.find? fun lease => lease.id = id with
    | none => .ok (.lease 0, tx, w)
    | some held =>
      let renew (lease : Lease) : Lease :=
        if lease.id = id then { lease with expiresAt := i64Add nowUnixSecs held.ttlSecs } else lease
      .ok (.lease held.ttlSecs, { tx with leases := tx.leases.map renew }, w)
  | .leaseRevoke id => do
      let (tx, w) ← revokeLease tx w id
      .ok (.empty, tx, w)
  | .setMember member => .ok (.empty, { tx with members := upsertMember tx.members member }, w)
  | .removeMember id =>
    .ok (.empty, { tx with members := tx.members.filter fun member => member.id ≠ id }, w)
  | .expireLeases nowUnixSecs => do
      let (tx, w) ← revokeLeases (expiredLeases tx.leases nowUnixSecs) tx w
      .ok (.empty, tx, w)

/-- Apply a command as log index `index`.  The index is recorded in the same
transaction, and index 0 records none. -/
def Store.applyAt (s : Store) (index : Nat) (cmd : Command) : Except Error (Applied × Store) :=
  let current := s.db.revision
  do
    let (response, tx, w) ← runCommand s.db { next := current + 1, sub := 0, used := false, events := [] } current cmd
    let revision := if w.used then w.next else current
    let tx := { tx with revision := revision }
    let tx := if index > 0 then { tx with appliedIndex := index } else tx
    let committedEventsTouchRbac := w.events.any fun event => rbacKey event.kv.key
    let rbacCache := if commandTouchesRbac cmd || committedEventsTouchRbac then fun _ => none else s.rbacCache
    .ok ({ revision := revision, response := response, events := w.events },
      { db := tx, rbacCache := rbacCache })

end NotK8s.Nodestore
