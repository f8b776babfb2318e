import Isle.Go.Bolt

/-!
# The guest's variable store

`getVar` and `setVar` of `guest/db.go`: named variables kept as JSON in the `config` bucket of the
guest database. `setVar` writes in a read-write transaction. `getVar` reads in a **read-only** one,
and asks that transaction to create the bucket first.

The intended law is that of a last-write-wins map (`LastWriteWins`). Its two halves fare
differently, and the development keeps them apart:

* the **writer** half holds: `configAt_varHistory` says that after any sequence of calls and
  reopenings the database holds, under each name, the value of the latest call that returned no
  error;
* the **reader** half does not: `getVar_eq_txNotWritable` says that `getVar` returns the store's
  refusal to create a bucket, whatever the database holds.
-/

namespace Guest

variable {V : Type}

/-- JSON encoding of the values of one type, as far as the guest relies on it. -/
structure Json (V : Type) where
  /-- The JSON text of a value. -/
  marshal : V → Option (List UInt8)
  /-- The value of a JSON text. -/
  unmarshal : List UInt8 → Option V
  /-- A value that has a JSON text is read back from it. -/
  unmarshal_marshal : ∀ {v text}, marshal v = some text → unmarshal text = some v

/-- The encoding given by any injective text function. -/
noncomputable def Json.ofInjective (text : V → List UInt8) (h : Function.Injective text) :
    Json V where
  marshal v := some (text v)
  unmarshal t := by
    classical
    exact if ht : ∃ v, text v = t then some ht.choose else none
  unmarshal_marshal {v t} hv := by
    have hex : ∃ w, text w = t := ⟨v, Option.some.inj hv⟩
    rw [dif_pos hex]
    exact congrArg some (h (hex.choose_spec.trans (Option.some.inj hv).symm))

/-- What `getVar` and `setVar` can return instead of `nil`. -/
inductive VarError
  | unknownKey
  | json
  | bolt (e : BoltError)
  deriving DecidableEq, Repr

/-- The bucket of the guest's variables. -/
def configBucket : String := "config"

variable (B : Bolt) (J : Json V)

/-- `getVar`: the stored text of a variable, decoded. -/
def getVar (db : B.Db) (name : String) : Except VarError V :=
  match B.view db fun tx ↦ do
      let tx ← tx.createBucketIfNotExists configBucket
      return tx.get configBucket name with
  | .error e => .error (.bolt e)
  | .ok none => .error .unknownKey
  | .ok (some val) =>
    match J.unmarshal val with
    | some v => .ok v
    | none => .error .json

/-- `setVar`: encode a value and put it, creating the bucket on demand. -/
def setVar (db : B.Db) (name : String) (v : V) (commit : Option BoltError) :
    Except VarError B.Db :=
  match J.marshal v with
  | none => .error .json
  | some val =>
    match B.updateTx db commit fun tx ↦ do
        let tx ← tx.createBucketIfNotExists configBucket
        tx.put configBucket name val with
    | .ok db => .ok db
    | .error e => .error (.bolt e)

/-! ### Histories of the store -/

/-- One event in the life of a guest database. -/
inductive VarOp (V : Type)
  /-- A `setVar` call, with the outcome of its commit. -/
  | set (name : String) (v : V) (commit : Option BoltError)
  /-- The database is closed and opened again. -/
  | reopen

/-- The database after an event. A call that fails leaves it as it was. -/
def applyOp (db : B.Db) : VarOp V → B.Db
  | .set name v commit =>
    match setVar B J db name v commit with
    | .ok db' => db'
    | .error _ => db
  | .reopen => db

/-- The value that an event sets `name` to, when the event is a `setVar` of it that returned no
error. -/
def valueSet (db : B.Db) (name : String) : VarOp V → Option V
  | .set n v commit =>
    if n = name then
      match setVar B J db n v commit with
      | .ok _ => some v
      | .error _ => none
    else none
  | .reopen => none

/-- The database after a sequence of events, together with the value of the latest successful
`setVar` of `name` in it. -/
def varHistory (name : String) : B.Db → List (VarOp V) → B.Db × Option V
  | db, [] => (db, none)
  | db, op :: ops =>
    let rest := varHistory name (applyOp B J db op) ops
    (rest.1, rest.2.or (valueSet B J db name op))

/-- **The law of the store.** After a sequence of events, `getVar` yields the value of the latest
successful `setVar`, and `ErrUnknownKey` exactly when there was none. -/
def LastWriteWins (db : B.Db) (ops : List (VarOp V)) (name : String) : Prop :=
  getVar B J (varHistory B J name db ops).1 name =
    match (varHistory B J name db ops).2 with
    | some v => .ok v
    | none => .error .unknownKey

/-! ### The writer half -/

/-- The text the database holds for a variable. -/
def configAt (db : B.Db) (name : String) : Option (List UInt8) :=
  (B.bucket db configBucket).bind fun m ↦ m name

variable {B J}

variable {db db' : B.Db} {name : String} {v : V} {commit : Option BoltError}

/-- What a successful `setVar` does to the buckets. -/
theorem bucket_of_setVar (h : setVar B J db name v commit = .ok db') :
    ∃ val, J.marshal v = some val ∧
      B.bucket db' = Function.update (B.bucket db) configBucket
        (some (Function.update ((B.bucket db configBucket).getD fun _ ↦ none) name
          (some val))) := by
  unfold setVar at h
  split at h
  · cases h
  · rename_i val hval
    split at h
    · rename_i db₁ hup
      cases h
      obtain ⟨tx, hbody, rfl⟩ := Bolt.updateTx_eq_ok hup
      rcases hc : Bolt.Tx.createBucketIfNotExists (B := B) { writable := true, db := db }
        configBucket with e | tx₁
      · rw [hc] at hbody
        cases hbody
      · rw [hc] at hbody
        exact ⟨val, hval, Bolt.bucket_of_create_put hc hbody⟩
    · cases h

/-- `setVar` touches no bucket but `config`. -/
theorem bucket_of_setVar_of_ne {other : String} (h : setVar B J db name v commit = .ok db')
    (hne : other ≠ configBucket) : B.bucket db' other = B.bucket db other := by
  obtain ⟨val, -, hb⟩ := bucket_of_setVar h
  rw [hb, Function.update_of_ne hne]

theorem configAt_of_setVar (h : setVar B J db name v commit = .ok db') :
    configAt B db' name = J.marshal v := by
  obtain ⟨val, hval, hb⟩ := bucket_of_setVar h
  rw [configAt, hb, Function.update_self, Option.bind_some, Function.update_self, hval]

theorem configAt_of_setVar_of_ne {other : String} (h : setVar B J db name v commit = .ok db')
    (hne : other ≠ name) : configAt B db' other = configAt B db other := by
  obtain ⟨val, -, hb⟩ := bucket_of_setVar h
  rw [configAt, hb, Function.update_self, Option.bind_some, Function.update_of_ne hne, configAt]
  rcases B.bucket db configBucket with - | m <;> rfl

/-- One event: the text of a variable is the text of the value the event set it to, and otherwise
as before. -/
theorem configAt_applyOp (db : B.Db) (name : String) (op : VarOp V) :
    configAt B (applyOp B J db op) name =
      match valueSet B J db name op with
      | some v => J.marshal v
      | none => configAt B db name := by
  cases op with
  | reopen => rfl
  | set n v commit =>
    rcases hset : setVar B J db n v commit with e | db'
    · simp [applyOp, valueSet, hset]
    · by_cases hn : n = name
      · subst hn
        simp [applyOp, valueSet, hset, configAt_of_setVar hset]
      · simp [applyOp, valueSet, hset, hn, configAt_of_setVar_of_ne hset (Ne.symm hn)]

/-- **The writer half of the law.** After any sequence of `setVar` calls and reopenings, the
database holds for each variable the text of the latest value set without an error, and what it held
at first when there was none. -/
theorem configAt_varHistory (db : B.Db) (name : String) (ops : List (VarOp V)) :
    configAt B (varHistory B J name db ops).1 name =
      match (varHistory B J name db ops).2 with
      | some v => J.marshal v
      | none => configAt B db name := by
  induction ops generalizing db with
  | nil => rfl
  | cons op ops ih =>
    have hrest := ih (applyOp B J db op)
    rw [varHistory]
    rcases hlast : (varHistory B J name (applyOp B J db op) ops).2 with - | v
    · -- nothing later set the variable, so this event decides
      rw [hlast] at hrest
      rw [Option.none_or, hrest, configAt_applyOp]
    · rw [hlast] at hrest
      simpa only [hlast, Option.some_or] using hrest

/-! ### The reader half -/

variable (B J)

/-- **`getVar` never reads.** Creating the bucket is refused in the read-only transaction that
`getVar` runs in, so its result does not depend on the database. -/
theorem getVar_eq_txNotWritable (db : B.Db) (name : String) :
    getVar B J db name = .error (.bolt .txNotWritable) := by
  simp [getVar, Bolt.view, Bolt.createBucketIfNotExists_view, bind, Except.bind]

/-- **The law of the store fails everywhere**: for every store, every database, every sequence of
events and every name. -/
theorem not_lastWriteWins (db : B.Db) (ops : List (VarOp V)) (name : String) :
    ¬ LastWriteWins B J db ops name := by
  intro h
  rw [LastWriteWins, getVar_eq_txNotWritable] at h
  rcases hlast : (varHistory B J name db ops).2 with - | v
  · simp [hlast] at h
  · simp [hlast] at h

/-! ### The smallest instance -/

/-- The JSON text of a string without characters that need an escape: the string in quotes. -/
def quoted (s : String) : List UInt8 :=
  34 :: (s.toUTF8.data.toList ++ [34])

theorem quoted_injective : Function.Injective quoted := by
  intro s t h
  have hlist : s.toUTF8.data.toList = t.toUTF8.data.toList :=
    List.append_cancel_right (List.cons.inj h).2
  exact String.toByteArray_inj.1 (ByteArray.ext (Array.toList_inj.1 hlist))

/-- JSON for strings without characters that need an escape. -/
noncomputable def jsonString : Json String :=
  Json.ofInjective quoted quoted_injective

/-- A subnet id that was stored without an error is not read back. -/
theorem getVar_after_setVar_subnetId :
    (varHistory Bolt.mem jsonString "subnet-id" Bolt.mem.empty
        [.set "subnet-id" "ab12" none]).2 = some "ab12" ∧
      ¬ LastWriteWins Bolt.mem jsonString Bolt.mem.empty [.set "subnet-id" "ab12" none]
        "subnet-id" := by
  have hset : (varHistory Bolt.mem jsonString "subnet-id" Bolt.mem.empty
      [.set "subnet-id" "ab12" none]).2 = some "ab12" := rfl
  refine ⟨hset, ?_⟩
  rw [LastWriteWins, hset, getVar_eq_txNotWritable]
  simp

end Guest
