import Mathlib.Logic.Function.Basic

/-!
# A transactional bucket store

The database interface the guest programs against: named buckets of keys and byte values, read in
read-only transactions and written in read-write ones.

**The store is a parameter.** `Bolt` bundles the operations with the laws a caller relies on, and
nothing else about the implementation: what a bucket contains after a create or a put, and that
creating a bucket is refused **by the kind of transaction alone**, whether or not the bucket is
already there. `Bolt.mem` is the in-memory instance, so the laws are satisfiable.

**Transactions.** `Bolt.view` runs a body in a read-only transaction and discards whatever state it
computed; `Bolt.updateTx` runs it in a read-write one and keeps the state only when the body and the
commit both succeed. A failed update is therefore the unchanged database.
-/

/-- The errors of the store that its callers can meet. -/
inductive BoltError
  | txNotWritable
  | bucketNameRequired
  | keyRequired
  | keyTooLarge
  | valueTooLarge
  | io
  deriving DecidableEq, Repr

/-- The contents of one bucket. -/
abbrev Bucket := String → Option (List UInt8)

/-- A bucket store: its operations, and the laws its callers rely on. -/
structure Bolt where
  /-- The committed contents of a database file. -/
  Db : Type
  /-- The database that opening a new file creates. -/
  empty : Db
  /-- The named bucket, if there is one. -/
  bucket : Db → String → Option Bucket
  /-- Create a bucket unless it is there, in a transaction that is writable or not. -/
  createBucketIfNotExists : Bool → Db → String → Except BoltError Db
  /-- Put a value under a key of a bucket, in a writable transaction. -/
  put : Db → String → String → List UInt8 → Except BoltError Db
  /-- A new database has no bucket. -/
  bucket_empty : ∀ name, bucket empty name = none
  /-- **Creation is refused in every read-only transaction**, also when the bucket exists. -/
  create_readOnly : ∀ db name, createBucketIfNotExists false db name = .error .txNotWritable
  /-- Creation adds an empty bucket, keeps an existing one, and touches no other. -/
  bucket_of_create : ∀ {db db' name}, createBucketIfNotExists true db name = .ok db' →
    bucket db' = Function.update (bucket db) name (some ((bucket db name).getD fun _ ↦ none))
  /-- A put changes one key of one existing bucket. -/
  bucket_of_put : ∀ {db db' name key val}, put db name key val = .ok db' →
    ∃ m, bucket db name = some m ∧
      bucket db' = Function.update (bucket db) name (some (Function.update m key (some val)))

namespace Bolt

variable (B : Bolt)

/-- A transaction: whether it may write, and the state it sees. -/
structure Tx where
  /-- Set by `updateTx`, unset by `view`. -/
  writable : Bool
  /-- The buckets as this transaction sees them. -/
  db : B.Db

variable {B}

/-- Create a bucket inside a transaction. -/
def Tx.createBucketIfNotExists (tx : B.Tx) (name : String) : Except BoltError B.Tx :=
  match B.createBucketIfNotExists tx.writable tx.db name with
  | .ok db => .ok { tx with db := db }
  | .error e => .error e

/-- Read a key of a bucket inside a transaction; a bucket that is missing has no keys. -/
def Tx.get (tx : B.Tx) (name key : String) : Option (List UInt8) :=
  (B.bucket tx.db name).bind fun m ↦ m key

/-- Put a key of a bucket inside a transaction. -/
def Tx.put (tx : B.Tx) (name key : String) (val : List UInt8) : Except BoltError B.Tx :=
  match B.put tx.db name key val with
  | .ok db => .ok { tx with db := db }
  | .error e => .error e

/-- Run a body in a read-only transaction. -/
def view {α : Type} (db : B.Db) (fn : B.Tx → Except BoltError α) : Except BoltError α :=
  fn { writable := false, db := db }

/-- Run a body in a read-write transaction and commit it. `commit` is the commit's own outcome: a
body that succeeds can still fail to reach the disk. -/
def updateTx (db : B.Db) (commit : Option BoltError) (fn : B.Tx → Except BoltError B.Tx) :
    Except BoltError B.Db :=
  match fn { writable := true, db := db } with
  | .error e => .error e
  | .ok tx =>
    match commit with
    | none => .ok tx.db
    | some e => .error e

@[simp] theorem createBucketIfNotExists_view (db : B.Db) (name : String) :
    Tx.createBucketIfNotExists (B := B) { writable := false, db := db } name =
      .error .txNotWritable := by
  simp [Tx.createBucketIfNotExists, B.create_readOnly]

/-- A successful update committed the state its body ended in. -/
theorem updateTx_eq_ok {db db' : B.Db} {commit : Option BoltError}
    {fn : B.Tx → Except BoltError B.Tx} (h : updateTx db commit fn = .ok db') :
    ∃ tx, fn { writable := true, db := db } = .ok tx ∧ tx.db = db' := by
  unfold updateTx at h
  split at h
  · cases h
  · rename_i tx htx
    split at h
    · cases h
      exact ⟨tx, htx, rfl⟩
    · cases h

/-- **What a create-then-put update leaves behind.** One key of one bucket is set, and every other
bucket is as it was. -/
theorem bucket_of_create_put {db : B.Db} {tx tx' : B.Tx} {name key : String} {val : List UInt8}
    (hc : Tx.createBucketIfNotExists (B := B) { writable := true, db := db } name = .ok tx)
    (hp : tx.put name key val = .ok tx') :
    B.bucket tx'.db = Function.update (B.bucket db) name
      (some (Function.update ((B.bucket db name).getD fun _ ↦ none) key (some val))) := by
  unfold Tx.createBucketIfNotExists at hc
  split at hc
  · rename_i db₁ h₁
    cases hc
    unfold Tx.put at hp
    split at hp
    · rename_i db₂ h₂
      cases hp
      obtain ⟨m, hm, hput⟩ := B.bucket_of_put h₂
      have hcreate := B.bucket_of_create h₁
      rw [hcreate, Function.update_self] at hm
      cases hm
      rw [hput, hcreate, Function.update_idem]
    · cases hp
  · cases hc

/-! ### The in-memory store -/

/-- A store held in memory, with the size limits left out. -/
def mem : Bolt where
  Db := String → Option Bucket
  empty := fun _ ↦ none
  bucket db := db
  createBucketIfNotExists writable db name :=
    if writable then
      if name = "" then .error .bucketNameRequired
      else .ok (Function.update db name (some ((db name).getD fun _ ↦ none)))
    else .error .txNotWritable
  put db name key val :=
    if key = "" then .error .keyRequired
    else
      match db name with
      | some m => .ok (Function.update db name (some (Function.update m key (some val))))
      | none => .error .io
  bucket_empty _ := rfl
  create_readOnly _ _ := rfl
  bucket_of_create {db db' name} h := by
    simp only [if_true] at h
    split at h
    · cases h
    · cases h
      rfl
  bucket_of_put {db db' name key val} h := by
    split at h
    · cases h
    · split at h
      · rename_i m hm
        cases h
        exact ⟨m, hm, rfl⟩
      · cases h

end Bolt
