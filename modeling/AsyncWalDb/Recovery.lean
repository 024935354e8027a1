import AsyncWalDb.Log
import AsyncWalDb.Reader
import Mathlib.Data.List.AList

/-! `Database::recover_with_validation`, phase by phase, and what it computes: the store the
log stands for. A panic is an outcome of its own; the memory it leaves behind is kept. -/
namespace AsyncWalDb

open KeyedWrites Framing

inductive Outcome (α : Type) where
  | ok (a : α)
  | err (e : WalError)
  | panicked
  deriving DecidableEq, Repr

/-- What a call may change in the process: the store and the counter `NEXT_TX_ID`. -/
structure Memory where
  store : Store
  nextTxId : UInt64

abbrev TxMap (α : Type) := AList fun _ : UInt64 => α

/-- `tx_entries` and `tx_actions`. -/
structure Tracking where
  txEntries : TxMap (List WalEntry)
  txActions : TxMap RecoveryAction

def Tracking.empty : Tracking := ⟨∅, ∅⟩

/-- `tx_entries.entry(tx_id).or_default().push(entry)`. -/
def pushEntry (m : TxMap (List WalEntry)) (e : WalEntry) : TxMap (List WalEntry) :=
  m.insert e.txId ((m.lookup e.txId).getD [] ++ [e])

def trackAction (m : TxMap RecoveryAction) : WalEntry → TxMap RecoveryAction
  | .commit id _ => m.insert id .commit
  | .abort id _ => m.insert id .rollback
  | e => if (m.lookup e.txId).isSome then m else m.insert e.txId .incomplete

def track (t : Tracking) (e : WalEntry) : Tracking where
  txEntries := pushEntry t.txEntries e
  txActions := trackAction t.txActions e

def countActions (m : TxMap RecoveryAction) (a : RecoveryAction) : Nat :=
  (m.entries.filter fun p => p.2 = a).length

/-- Phases 1 and 2 counted: how the loop ended, at which offset, and the classification. -/
def recoveryStats (exit : ReadExit) (entryStartOffset : Nat) (t : Tracking) : RecoveryStats where
  totalTransactions := t.txEntries.entries.length
  committed := countActions t.txActions .commit
  aborted := countActions t.txActions .rollback
  incomplete := countActions t.txActions .incomplete
  partialWrites := match exit with
    | .headerEof => if entryStartOffset > 0 then 1 else 0
    | .payloadEof | .undecodable => 1
    | .checksum _ | .capacityOverflow => 0
  checksumFailures := match exit with
    | .checksum _ => 1
    | _ => 0

def committedTxIds (t : Tracking) : List UInt64 :=
  ((t.txActions.entries.filter fun p => p.2 = .commit).map Sigma.fst).insertionSort (· ≤ ·)

/-- The replay's match: neither loop lets a missing key or a marker stop it. -/
def replayEntry (store : Store) : WalEntry → Store
  | .insert _ _ key value => Function.update store key (some value)
  | .update _ _ key _ newValue => Function.update store key (some newValue)
  | .delete _ _ key _ => Function.update store key none
  | .commit _ _ | .abort _ _ => store

def replayTx (txEntries : TxMap (List WalEntry)) (store : Store) (id : UInt64) : Store :=
  match txEntries.lookup id with
  | none => store
  | some entries => (entries.filter fun e => !e.isMarker).foldl replayEntry store

def replay (txEntries : TxMap (List WalEntry)) (ids : List UInt64) (store : Store) : Store :=
  ids.foldl (replayTx txEntries) store

def recoverWithValidation (crates : Crates) (file : Option Bytes) (mem : Memory) :
    Outcome RecoveryStats × Memory :=
  match file with
  | none => (.err .openWal, mem)
  | some bytes =>
    let scan := readLog crates bytes
    if scan.exit = .capacityOverflow then (.panicked, mem)
    else
      let tracking := scan.items.foldl track .empty
      let stats := recoveryStats scan.exit (bytes.length - scan.rest.length) tracking
      let store := replay tracking.txEntries (committedTxIds tracking) mem.store
      -- Phase 4: the store is already changed when a key is refused
      if (store "").isSome then
        (.err (.validation "Invalid empty key after recovery"), { mem with store := store })
      else match tracking.txEntries.keys.max? with
        | none => (.ok stats, { mem with store := store })
        | some maxTxId =>
          -- Phase 5: `max_tx_id + 1` panics or wraps
          if crates.overflowChecks ∧ maxTxId + 1 = 0 then (.panicked, { mem with store := store })
          else (.ok stats, ⟨store, max mem.nextTxId (maxTxId + 1)⟩)

structure Tracks (t : Tracking) (es : List WalEntry) : Prop where
  entries : ∀ id, t.txEntries.lookup id = if entriesOf id es = [] then none
    else some (entriesOf id es)
  actions : ∀ id, t.txActions.lookup id = if entriesOf id es = [] then none else
    match lastMarker id es with
    | none => some .incomplete
    | some m => some (if m.isCommit then .commit else .rollback)

theorem tracks_empty : Tracks .empty [] := by
  constructor <;> intro id <;> simp [Tracking.empty]

theorem lookup_orInsert (m : TxMap RecoveryAction) (id : UInt64) :
    AList.lookup id (if (m.lookup id).isSome then m else m.insert id .incomplete) =
      some ((m.lookup id).getD .incomplete) := by
  cases known : m.lookup id with
  | some a => simp [known]
  | none => simp

theorem lookup_orInsert_other {m : TxMap RecoveryAction} {id own : UInt64} (other : id ≠ own) :
    AList.lookup id (if (m.lookup own).isSome then m else m.insert own .incomplete) =
      m.lookup id := by
  cases known : m.lookup own with
  | some a => simp
  | none => simpa using AList.lookup_insert_ne other

theorem lookup_trackAction_other {m : TxMap RecoveryAction} {e : WalEntry} {id : UInt64}
    (other : id ≠ e.txId) : (trackAction m e).lookup id = m.lookup id := by
  cases e with
  | commit | abort => exact AList.lookup_insert_ne other
  | insert | update | delete => exact lookup_orInsert_other other

theorem lookup_trackAction_own (m : TxMap RecoveryAction) (e : WalEntry) :
    (trackAction m e).lookup e.txId =
      if e.isMarker then some (if e.isCommit then .commit else .rollback)
      else some ((m.lookup e.txId).getD .incomplete) := by
  cases e with
  | commit | abort => exact AList.lookup_insert m
  | insert | update | delete => exact lookup_orInsert m _

theorem tracks_step {t : Tracking} {es : List WalEntry} (h : Tracks t es) (e : WalEntry) :
    Tracks (track t e) (es ++ [e]) := by
  constructor
  · intro id
    by_cases own : id = e.txId
    · subst own
      have before : (t.txEntries.lookup e.txId).getD [] = entriesOf e.txId es := by
        rw [h.entries]
        split
        · rename_i none_yet
          exact none_yet.symm
        · rfl
      rw [track, pushEntry, AList.lookup_insert, before, entriesOf_snoc_own, if_neg (by simp)]
    · rw [track, pushEntry, AList.lookup_insert_ne own, h.entries, entriesOf_snoc_other es own]
  · intro id
    by_cases own : id = e.txId
    · subst own
      have nonempty : ¬ entriesOf e.txId es ++ [e] = [] := by simp
      rw [track, lookup_trackAction_own, entriesOf_snoc_own, if_neg nonempty, lastMarker_append,
        lastMarker_one,
        h.actions]
      by_cases mark : e.isMarker = true
      · simp [mark]
      · have operation : e.isMarker = false := by simpa using mark
        simp only [operation, Bool.false_eq_true, if_false, and_false, Option.none_or]
        by_cases fresh : entriesOf e.txId es = []
        · have unmarked : lastMarker e.txId es = none := by rw [lastMarker, fresh]; rfl
          simp [fresh, unmarked]
        · cases marker : lastMarker e.txId es <;> simp [fresh]
    · have unchanged : lastMarker id (es ++ [e]) = lastMarker id es :=
        lastMarker_congr (entriesOf_snoc_other es own)
      rw [track, lookup_trackAction_other own, h.actions, entriesOf_snoc_other es own, unchanged]

theorem tracks_run {t : Tracking} {es : List WalEntry} (h : Tracks t es) (fs : List WalEntry) :
    Tracks (fs.foldl track t) (es ++ fs) := by
  induction fs generalizing t es with
  | nil => rw [List.append_nil]; exact h
  | cons e fs ih => rw [List.append_cons]; exact ih (tracks_step h e)

theorem tracks_scan (es : List WalEntry) : Tracks (es.foldl track .empty) es :=
  tracks_run tracks_empty es

theorem Tracks.mem_keys {t : Tracking} {es : List WalEntry} (h : Tracks t es) (id : UInt64) :
    id ∈ t.txEntries.keys ↔ ∃ e ∈ es, e.txId = id := by
  rw [← AList.mem_keys, ← AList.lookup_isSome, h.entries]
  split
  · rename_i empty
    have absent := entriesOf_eq_nil.mp empty
    simpa using absent
  · rename_i nonempty
    have some_entry := mt entriesOf_eq_nil.mpr nonempty
    push Not at some_entry
    simpa using some_entry

theorem Tracks.committed_iff {t : Tracking} {es : List WalEntry} (h : Tracks t es) (id : UInt64) :
    t.txActions.lookup id = some .commit ↔ committed es id = true := by
  rw [h.actions, committed]
  split
  · rename_i empty
    have unmarked : lastMarker id es = none := by rw [lastMarker, empty]; rfl
    simp [unmarked]
  · cases marker : lastMarker id es with
    | none => simp
    | some m => cases m.isCommit <;> simp

theorem Tracks.committedTxIds_eq {t : Tracking} {es : List WalEntry} (h : Tracks t es) :
    committedTxIds t = committedIds es := by
  apply eq_committedIds
  · apply sorted_lt_of_nodup (List.pairwise_insertionSort _ _)
    apply (List.perm_insertionSort _ _).nodup_iff.mpr
    exact (List.filter_sublist.map Sigma.fst).nodup t.txActions.keys_nodup
  · intro id
    rw [committedTxIds, List.mem_insertionSort, List.mem_map, ← h.committed_iff, ← Option.mem_def,
      AList.mem_lookup_iff]
    constructor
    · rintro ⟨⟨id', a⟩, mem, rfl⟩
      obtain ⟨mem, commit⟩ := List.mem_filter.mp mem
      have commit : a = .commit := by simpa using commit
      exact commit ▸ mem
    · intro mem
      exact ⟨⟨id, .commit⟩, List.mem_filter.mpr ⟨mem, by simp⟩, rfl⟩

theorem replayEntry_eq (store : Store) (e : WalEntry) :
    replayEntry store e = applyAll store (e.write?.toList) := by
  cases e <;> rfl

theorem foldl_replayEntry (store : Store) (es : List WalEntry) :
    (es.filter fun e => !e.isMarker).foldl replayEntry store =
      applyAll store (es.filterMap WalEntry.write?) := by
  induction es generalizing store with
  | nil => rfl
  | cons e es ih =>
    have shape := WalEntry.write?_isSome e
    cases w : e.write? with
    | none =>
      have marker : e.isMarker = true := by simpa [w] using shape
      simp [marker, w, ih]
    | some v =>
      have operation : e.isMarker = false := by simpa [w] using shape
      simp [operation, w, ih, replayEntry_eq]

theorem Tracks.replayTx_eq {t : Tracking} {es : List WalEntry} (h : Tracks t es)
    (store : Store) (id : UInt64) :
    replayTx t.txEntries store id = applyAll store (writesOf id es) := by
  rw [replayTx, h.entries]
  by_cases empty : entriesOf id es = []
  · simp [empty, writesOf_eq_nil empty]
  · simp only [empty, if_false]
    exact foldl_replayEntry _ _

theorem Tracks.replay_eq {t : Tracking} {es : List WalEntry} (h : Tracks t es) (ids : List UInt64)
    (store : Store) :
    replay t.txEntries ids store = applyAll store (ids.flatMap fun id => writesOf id es) := by
  induction ids generalizing store with
  | nil => rfl
  | cons id ids ih =>
    rw [List.flatMap_cons, applyAll_append, ← h.replayTx_eq, ← ih]
    rfl

/-- The highest id of the log, as `tx_entries.keys().max()` finds it. -/
def maxTxId (es : List WalEntry) : Option UInt64 := (es.foldl track .empty).txEntries.keys.max?

theorem maxTxId_eq_some {es : List WalEntry} {m : UInt64} (h : maxTxId es = some m) :
    (∃ e ∈ es, e.txId = m) ∧ ∀ e ∈ es, e.txId ≤ m := by
  have members := (tracks_scan es).mem_keys
  obtain ⟨mem, bound⟩ := List.max?_eq_some_iff.mp h
  exact ⟨(members m).mp mem, fun e he => bound _ ((members _).mpr ⟨e, he, rfl⟩)⟩

theorem maxTxId_eq_none {es : List WalEntry} : maxTxId es = none ↔ es = [] := by
  rw [maxTxId, List.max?_eq_none_iff, List.eq_nil_iff_forall_not_mem]
  constructor
  · intro h
    rw [List.eq_nil_iff_forall_not_mem]
    intro e he
    exact h e.txId (((tracks_scan es).mem_keys _).mpr ⟨e, he, rfl⟩)
  · rintro rfl id
    simpa using mt ((tracks_scan []).mem_keys id).mp (by simp)

theorem recover_store {crates : Crates} {bytes : Bytes} (mem : Memory)
    (readable : (readLog crates bytes).exit ≠ .capacityOverflow) :
    (recoverWithValidation crates (some bytes) mem).2.store =
      applyAll mem.store (replayWrites (readLog crates bytes).items) := by
  have t := tracks_scan (readLog crates bytes).items
  have same := t.replay_eq (committedIds (readLog crates bytes).items) mem.store
  simp only [recoverWithValidation, if_neg readable, t.committedTxIds_eq]
  split
  · exact same
  · split
    · exact same
    · split <;> exact same

theorem recover_ok_iff {crates : Crates} {bytes : Bytes} (mem : Memory)
    (readable : (readLog crates bytes).exit ≠ .capacityOverflow) :
    (∃ stats, (recoverWithValidation crates (some bytes) mem).1 = .ok stats) ↔
      applyAll mem.store (replayWrites (readLog crates bytes).items) "" = none ∧
      ∀ m, maxTxId (readLog crates bytes).items = some m →
        ¬ (crates.overflowChecks = true ∧ m + 1 = 0) := by
  have t := tracks_scan (readLog crates bytes).items
  have same := t.replay_eq (committedIds (readLog crates bytes).items) mem.store
  simp only [recoverWithValidation, if_neg readable, t.committedTxIds_eq, same]
  change _ ↔ applyAll _ ((committedIds _).flatMap fun id => writesOf id _) "" = none ∧ _
  split
  · rename_i empty
    obtain ⟨v, hv⟩ := Option.isSome_iff_exists.mp empty
    simp [hv]
  · rename_i none_empty
    rw [Option.not_isSome_iff_eq_none.mp none_empty]
    change (∃ stats, (match maxTxId (readLog crates bytes).items with
      | none => _
      | some maxTxId => _ : Outcome RecoveryStats × Memory).1 = .ok stats) ↔ _
    cases hm : maxTxId (readLog crates bytes).items with
    | none => simp
    | some m =>
      by_cases overflow : crates.overflowChecks = true ∧ m + 1 = 0
      · simp [overflow]
      · simpa [overflow] using not_and.mp overflow

theorem succ_ne_zero_of_lt {id bound : UInt64} (h : id < bound) : id + 1 ≠ 0 := by
  intro wraps
  have limit := UInt64.toNat_lt bound
  rw [← UInt64.toNat_inj, UInt64.toNat_add] at wraps
  rw [UInt64.lt_iff_toNat_lt] at h
  simp at wraps
  omega

theorem no_overflow_of_lt {crates : Crates} {es : List WalEntry} {bound : UInt64}
    (below : ∀ e ∈ es, e.txId < bound) :
    ∀ m, maxTxId es = some m → ¬ (crates.overflowChecks = true ∧ m + 1 = 0) := by
  rintro m highest ⟨_, wraps⟩
  obtain ⟨⟨e, he, rfl⟩, _⟩ := maxTxId_eq_some highest
  exact succ_ne_zero_of_lt (below e he) wraps

theorem recover_nextTxId {crates : Crates} {bytes : Bytes} {mem : Memory} {stats : RecoveryStats}
    (readable : (readLog crates bytes).exit ≠ .capacityOverflow)
    (ok : (recoverWithValidation crates (some bytes) mem).1 = .ok stats) :
    (recoverWithValidation crates (some bytes) mem).2.nextTxId =
      match maxTxId (readLog crates bytes).items with
      | none => mem.nextTxId
      | some m => max mem.nextTxId (m + 1) := by
  simp only [recoverWithValidation, if_neg readable] at ok ⊢
  change _ = match ((readLog crates bytes).items.foldl track .empty).txEntries.keys.max? with
    | none => _
    | some m => _
  split at ok
  · contradiction
  · rename_i none_empty
    rw [if_neg none_empty]
    split at ok
    · simp
    · split at ok
      · contradiction
      · rename_i no_overflow
        simp only [if_neg no_overflow]

theorem recover_readable {crates : Crates} {bytes : Bytes} {mem : Memory} {stats : RecoveryStats}
    (ok : (recoverWithValidation crates (some bytes) mem).1 = .ok stats) :
    (readLog crates bytes).exit ≠ .capacityOverflow := by
  intro overflow
  simp [recoverWithValidation, overflow] at ok

theorem recover_above {crates : Crates} {bytes : Bytes} {mem : Memory} {stats : RecoveryStats}
    (ok : (recoverWithValidation crates (some bytes) mem).1 = .ok stats)
    (room : ∀ e ∈ (readLog crates bytes).items, e.txId + 1 ≠ 0) :
    ∀ e ∈ (readLog crates bytes).items,
      e.txId < (recoverWithValidation crates (some bytes) mem).2.nextTxId := by
  intro e he
  rw [recover_nextTxId (recover_readable ok) ok]
  cases highest : maxTxId (readLog crates bytes).items with
  | none => exact absurd he (by simp [maxTxId_eq_none.mp highest])
  | some m =>
    obtain ⟨⟨top, mem_top, rfl⟩, bound⟩ := maxTxId_eq_some highest
    have le := bound e he
    have no_wrap := room top mem_top
    have limit := UInt64.toNat_lt top.txId
    refine lt_of_lt_of_le ?_ (le_max_right _ _)
    rw [UInt64.le_iff_toNat_le] at le
    rw [Ne, ← UInt64.toNat_inj, UInt64.toNat_add] at no_wrap
    rw [UInt64.lt_iff_toNat_lt, UInt64.toNat_add]
    simp at no_wrap ⊢
    omega

/-- Recovery of the file replays the transaction, with exactly these operations. -/
def Applies (crates : Crates) (file : Bytes) (id : UInt64) (ops : List (Write String Bytes)) :
    Prop :=
  (readLog crates file).exit ≠ .capacityOverflow ∧ committed (readLog crates file).items id = true ∧
    writesOf id (readLog crates file).items = ops

theorem Applies.store {crates : Crates} {file : Bytes} {id : UInt64}
    {ops : List (Write String Bytes)} (h : Applies crates file id ops)
    (mem : Memory) : ∃ lower higher : List UInt64, (∀ j ∈ lower, j < id) ∧ (∀ j ∈ higher, id < j) ∧
      (recoverWithValidation crates (some file) mem).2.store =
        applyAll mem.store (lower.flatMap (fun j => writesOf j (readLog crates file).items) ++
          ops ++ higher.flatMap fun j => writesOf j (readLog crates file).items) := by
  obtain ⟨readable, commit, rfl⟩ := h
  obtain ⟨lower, higher, split⟩ := List.append_of_mem (mem_committedIds.mpr commit)
  have sorted := committedIds_sorted (readLog crates file).items
  rw [split, List.pairwise_append, List.pairwise_cons] at sorted
  refine ⟨lower, higher, fun j hj => sorted.2.2 j hj id List.mem_cons_self, sorted.2.1.1, ?_⟩
  rw [recover_store mem readable, replayWrites, split, List.flatMap_append, List.flatMap_cons,
    List.append_assoc]

end AsyncWalDb
