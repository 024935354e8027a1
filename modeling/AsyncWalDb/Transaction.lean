import AsyncWalDb.Recovery

/-! `Transaction`: its buffer, the entries it logs and what one operation does to the store.
On a store an operation is a write, except that an update refuses a missing key. -/
namespace AsyncWalDb

open KeyedWrites

inductive TxState where
  | active
  | committed
  | aborted
  deriving DecidableEq, Repr

structure Transaction where
  id : UInt64
  state : TxState
  entries : List WalEntry
  deriving DecidableEq, Repr

/-- `NEXT_TX_ID.fetch_add(1)`, which wraps. -/
def Transaction.new (nextTxId : UInt64) : Transaction × UInt64 :=
  (⟨nextTxId, .active, []⟩, nextTxId + 1)

def Transaction.addEntry (tx : Transaction) (entry : WalEntry) : Transaction :=
  { tx with entries := tx.entries ++ [entry] }

/-- The operation as logged by this transaction at this time; markers are refused. -/
def WalEntry.stamped (id now : UInt64) : WalEntry → Except WalError WalEntry
  | insert _ _ key value => .ok (.insert id now key value)
  | update _ _ key oldValue newValue => .ok (.update id now key oldValue newValue)
  | delete _ _ key oldValue => .ok (.delete id now key oldValue)
  | commit _ _ | abort _ _ => .error (.invalidState "Cannot append non-operation entry")

/-- `append_op` up to the append: the transaction with its buffer grown, and the entry to append. -/
def Transaction.appendOp (tx : Transaction) (op : WalEntry) (now : UInt64) :
    Except WalError (Transaction × WalEntry) :=
  match op.stamped tx.id now with
  | .error e => .error e
  | .ok op => .ok (tx.addEntry op, op)

def applyToStore (store : Store) : WalEntry → Except WalError Store
  | .insert _ _ key value => .ok (Function.update store key (some value))
  | .update _ _ key _ newValue =>
    if (store key).isSome then .ok (Function.update store key (some newValue))
    else .error (.applyStore ("Update on non-existent key: " ++ key))
  | .delete _ _ key _ => .ok (Function.update store key none)
  | .commit _ _ | .abort _ _ => .error (.invalidState "Cannot apply non-operation entry to store")

/-- `commit` and `abort` refuse a transaction that is not active. -/
def Transaction.commitEntry (tx : Transaction) (now : UInt64) : Except WalError WalEntry :=
  if tx.state ≠ .active then .error (.invalidState "Cannot commit non-active transaction")
  else .ok (.commit tx.id now)

def Transaction.abortEntry (tx : Transaction) (now : UInt64) : Except WalError WalEntry :=
  if tx.state ≠ .active then .error (.invalidState "Cannot abort non-active transaction")
  else .ok (.abort tx.id now)

def applyEntries (store : Store) : List WalEntry → Except WalError Unit × Store
  | [] => (.ok (), store)
  | op :: rest =>
    match applyToStore store op with
    | .error e => (.error e, store)
    | .ok store' => applyEntries store' rest

def WalEntry.key : WalEntry → String
  | insert _ _ key _ | update _ _ key _ _ | delete _ _ key _ => key
  | commit _ _ | abort _ _ => ""

def WalEntry.act : WalEntry → Option Bytes → Option (Option Bytes)
  | insert _ _ _ value, _ => some (some value)
  | update _ _ _ _ newValue, cell => if cell.isSome then some (some newValue) else none
  | delete _ _ _ _, _ => some none
  | commit _ _, _ | abort _ _, _ => none

theorem stamped_operation {op e : WalEntry} {id now : UInt64} (h : op.stamped id now = .ok e) :
    e.isMarker = false ∧ e.txId = id ∧ e.key = op.key := by
  cases op <;> cases h <;> exact ⟨rfl, rfl, rfl⟩

theorem appendOp_ok {tx tx' : Transaction} {op e : WalEntry} {now : UInt64}
    (h : tx.appendOp op now = .ok (tx', e)) :
    op.stamped tx.id now = .ok e ∧ tx' = tx.addEntry e := by
  simp only [Transaction.appendOp] at h
  split at h
  · contradiction
  · rename_i ok
    cases h
    exact ⟨ok, rfl⟩

theorem applyToStore_eq (store : Store) (op : WalEntry) :
    (applyToStore store op).toOption = perform WalEntry.key WalEntry.act store op := by
  cases op with
  | update id ts key old new =>
    cases h : store key <;> simp [applyToStore, perform, WalEntry.key, WalEntry.act, h,
      Except.toOption]
  | insert | delete | commit | abort => rfl

theorem applyToStore_perform {store store' : Store} {op : WalEntry}
    (h : applyToStore store op = .ok store') :
    perform WalEntry.key WalEntry.act store op = some store' := by
  rw [← applyToStore_eq, h]
  rfl

theorem applyToStore_ok {store store' : Store} {op : WalEntry}
    (h : applyToStore store op = .ok store') :
    ∃ w, op.write? = some w ∧ w.key = op.key ∧ store' = apply store w := by
  cases op with
  | update id ts key old new =>
    simp only [applyToStore] at h
    split at h
    · cases h; exact ⟨_, rfl, rfl, rfl⟩
    · contradiction
  | insert | delete => cases h; exact ⟨_, rfl, rfl, rfl⟩
  | commit | abort => cases h

theorem write?_key {e : WalEntry} {w : Write String Bytes} (h : e.write? = some w) :
    w.key = e.key := by
  cases e <;> cases h <;> rfl

theorem lastOn_ops {key : String} {es : List WalEntry} :
    lastOn key (es.filterMap WalEntry.write?) ≠ none ↔ ∃ e ∈ es, e.isMarker = false ∧
      e.key = key := by
  rw [Ne, lastOn_eq_none, not_forall]
  constructor
  · rintro ⟨w, hw⟩
    obtain ⟨mem, same⟩ := Classical.not_imp.mp hw
    obtain ⟨e, he, write⟩ := List.mem_filterMap.mp mem
    have shape := WalEntry.write?_isSome e
    rw [write] at shape
    exact ⟨e, he, by simpa using shape, (write?_key write).symm.trans (not_not.mp same)⟩
  · rintro ⟨e, he, operation, rfl⟩
    have shape := WalEntry.write?_isSome e
    rw [operation] at shape
    obtain ⟨w, write⟩ := Option.isSome_iff_exists.mp shape
    exact ⟨w, Classical.not_imp.mpr ⟨List.mem_filterMap.mpr ⟨e, he, write⟩,
      not_not.mpr (write?_key write)⟩⟩

theorem applyEntries_ok_iff {store store' : Store} {ops : List WalEntry} :
    applyEntries store ops = (.ok (), store') ↔
      performAll WalEntry.key WalEntry.act store ops = some store' := by
  induction ops generalizing store with
  | nil => simp [applyEntries, performAll]
  | cons op rest ih =>
    have one := applyToStore_eq store op
    simp only [applyEntries, performAll]
    cases h : applyToStore store op with
    | error e =>
      rw [h] at one
      simp [← one, Except.toOption]
    | ok s =>
      rw [h] at one
      simp only [← one, Except.toOption, Option.bind_some]
      exact ih

theorem applyEntries_store {store store' : Store} {ops : List WalEntry}
    (h : applyEntries store ops = (.ok (), store')) :
    store' = applyAll store (ops.filterMap WalEntry.write?) := by
  induction ops generalizing store with
  | nil => cases h; rfl
  | cons op rest ih =>
    simp only [applyEntries] at h
    split at h
    · cases h
    · rename_i s applied
      obtain ⟨w, hw, _, rfl⟩ := applyToStore_ok applied
      rw [ih h, List.filterMap_cons, hw, applyAll_cons]

theorem performAll_store {store store' : Store} {ops : List WalEntry}
    (h : performAll WalEntry.key WalEntry.act store ops = some store') :
    store' = applyAll store (ops.filterMap WalEntry.write?) :=
  applyEntries_store (applyEntries_ok_iff.mpr h)

end AsyncWalDb
