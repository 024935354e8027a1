import AsyncWalDb.Bincode
import AsyncWalDb.Recovery

/-! What the statistics of recovery say. The transactions are counted from the two maps of phase 1,
whose keys are the ids of the log; the damage is counted where the reading loop stops, and the end
of the file stops it like a torn header does. -/
namespace AsyncWalDb

open Framing

def WalEntry.isAbort : WalEntry → Bool
  | abort _ _ => true
  | _ => false

def txIds (es : List WalEntry) : List UInt64 := (es.map WalEntry.txId).dedup

/-- Every transaction is counted once, under its last marker. -/
structure Partitioned (es : List WalEntry) (stats : RecoveryStats) : Prop where
  total : stats.totalTransactions = (txIds es).length
  committed : stats.committed = ((txIds es).filter
    fun id => (lastMarker id es).any WalEntry.isCommit).length
  aborted : stats.aborted = ((txIds es).filter
    fun id => (lastMarker id es).any WalEntry.isAbort).length
  incomplete : stats.incomplete = ((txIds es).filter fun id => (lastMarker id es).isNone).length
  sum : stats.committed + stats.aborted + stats.incomplete = stats.totalTransactions

/-- Phase 3 replays each transaction counted as committed once, with all its entries. -/
def ReplaysCommitted (es : List WalEntry) (t : Tracking) : Prop :=
  (committedTxIds t).Perm ((txIds es).filter fun id => (lastMarker id es).any WalEntry.isCommit) ∧
    ∀ id ∈ committedTxIds t, t.txEntries.lookup id = some (entriesOf id es)

/-- The damage counters are zero exactly on a file of whole
frames, and never count more than one damage. -/
def DamageReported (crates : Crates) (bytes : Bytes) (stats : RecoveryStats) : Prop :=
  (stats.partialWrites + stats.checksumFailures = 0 ↔ ∃ es, ValidLog crates bytes es) ∧
    stats.partialWrites + stats.checksumFailures ≤ 1

section Counts

variable {t : Tracking} {es : List WalEntry}

def actionOf (es : List WalEntry) (id : UInt64) : RecoveryAction :=
  match lastMarker id es with
  | none => .incomplete
  | some m => if m.isCommit then .commit else .rollback

theorem mem_txIds {id : UInt64} : id ∈ txIds es ↔ ∃ e ∈ es, e.txId = id := by
  rw [txIds, List.mem_dedup, List.mem_map]

theorem actionOf_commit (id : UInt64) :
    decide (actionOf es id = .commit) = (lastMarker id es).any WalEntry.isCommit := by
  unfold actionOf
  cases lastMarker id es with
  | none => rfl
  | some m => cases h : m.isCommit <;> simp [h]

theorem actionOf_rollback (id : UInt64) :
    decide (actionOf es id = .rollback) = (lastMarker id es).any WalEntry.isAbort := by
  unfold actionOf
  cases marker : lastMarker id es with
  | none => rfl
  | some m =>
    -- a marker that is no Commit is an Abort
    have shape := (lastMarker_mem marker).2.2
    cases m <;> first | rfl | cases shape

theorem actionOf_incomplete (id : UInt64) :
    decide (actionOf es id = .incomplete) = (lastMarker id es).isNone := by
  unfold actionOf
  cases lastMarker id es with
  | none => rfl
  | some m => cases h : m.isCommit <;> simp [h]

theorem Tracks.keys_perm (h : Tracks t es) : t.txEntries.keys.Perm (txIds es) ∧
    t.txActions.keys.Perm (txIds es) := by
  have distinct := List.nodup_dedup (es.map WalEntry.txId)
  refine ⟨(List.perm_ext_iff_of_nodup t.txEntries.keys_nodup distinct).mpr fun id => ?_,
    (List.perm_ext_iff_of_nodup t.txActions.keys_nodup distinct).mpr fun id => ?_⟩
  · rw [h.mem_keys, ← mem_txIds, txIds]
  · rw [← AList.mem_keys, ← AList.lookup_isSome, h.actions, List.mem_dedup, List.mem_map]
    by_cases absent : entriesOf id es = []
    · simpa [absent] using entriesOf_eq_nil.mp absent
    · have present := mt entriesOf_eq_nil.mpr absent
      push Not at present
      simp only [if_neg absent]
      refine iff_of_true ?_ present
      cases lastMarker id es <;> rfl

theorem Tracks.lookup_action (h : Tracks t es) {id : UInt64} (mem : id ∈ txIds es) :
    t.txActions.lookup id = some (actionOf es id) := by
  have present : entriesOf id es ≠ [] := by
    obtain ⟨e, he, own⟩ := mem_txIds.mp mem
    exact fun absent => entriesOf_eq_nil.mp absent e he own
  rw [h.actions, if_neg present, actionOf]
  cases lastMarker id es <;> rfl

theorem countActions_eq (m : TxMap RecoveryAction) (a : RecoveryAction) :
    countActions m a = (m.keys.filter fun id => m.lookup id = some a).length := by
  rw [countActions, AList.keys, List.keys, List.filter_map, List.length_map]
  congr 1
  refine List.filter_congr fun p hp => ?_
  have found : m.lookup p.1 = some p.2 := AList.mem_lookup_iff.mpr hp
  simp [found]

theorem Tracks.countActions_eq (h : Tracks t es) (a : RecoveryAction) :
    countActions t.txActions a = ((txIds es).filter fun id => actionOf es id = a).length := by
  rw [AsyncWalDb.countActions_eq, (h.keys_perm.2.filter _).length_eq]
  congr 1
  refine List.filter_congr fun id hid => ?_
  rw [h.lookup_action hid]
  simp

theorem actions_partition (f : UInt64 → RecoveryAction) (ids : List UInt64) :
    (ids.filter fun id => f id = .commit).length + (ids.filter fun id => f id = .rollback).length +
      (ids.filter fun id => f id = .incomplete).length = ids.length := by
  induction ids with
  | nil => rfl
  | cons id ids ih =>
    cases action : f id <;> simp [action] <;> omega

theorem Tracks.partitioned (h : Tracks t es) (exit : ReadExit) (offset : Nat) :
    Partitioned es (recoveryStats exit offset t) := by
  have total : t.txEntries.entries.length = (txIds es).length := by
    rw [← h.keys_perm.1.length_eq, AList.keys, List.keys, List.length_map]
  have commits := h.countActions_eq .commit
  have aborts := h.countActions_eq .rollback
  have opens := h.countActions_eq .incomplete
  refine ⟨total, ?_, ?_, ?_, ?_⟩
  · simp only [← actionOf_commit]
    exact commits
  · simp only [← actionOf_rollback]
    exact aborts
  · simp only [← actionOf_incomplete]
    exact opens
  · change countActions _ _ + countActions _ _ + countActions _ _ = t.txEntries.entries.length
    rw [commits, aborts, opens, total]
    exact actions_partition _ _

theorem Tracks.replaysCommitted (h : Tracks t es) : ReplaysCommitted es t := by
  have same := h.committedTxIds_eq
  refine ⟨same ▸ List.perm_insertionSort _ _, fun id hid => ?_⟩
  rw [same, mem_committedIds] at hid
  obtain ⟨m, hm, own, _⟩ := committed_mem hid
  rw [h.entries, if_neg fun absent => entriesOf_eq_nil.mp absent m hm own]

/-- However the log interleaves operations and markers, the statistics partition its transactions,
and the ones counted as committed are the ones replayed. -/
theorem statistics_partition (exit : ReadExit) (offset : Nat) (es : List WalEntry) :
    Partitioned es (recoveryStats exit offset (es.foldl track .empty)) ∧
      ReplaysCommitted es (es.foldl track .empty) :=
  ⟨(tracks_scan es).partitioned exit offset, (tracks_scan es).replaysCommitted⟩

end Counts

section Damage

variable {crates : Crates} {bytes : Bytes} {mem : Memory} {stats : RecoveryStats}

theorem recover_stats (ok : (recoverWithValidation crates (some bytes) mem).1 = .ok stats) :
    stats = recoveryStats (readLog crates bytes).exit
      (bytes.length - (readLog crates bytes).rest.length)
      ((readLog crates bytes).items.foldl track .empty) := by
  simp only [recoverWithValidation, if_neg (recover_readable ok)] at ok
  split at ok
  · contradiction
  · split at ok
    · exact (Outcome.ok.inj ok).symm
    · split at ok
      · contradiction
      · exact (Outcome.ok.inj ok).symm

/-- So what recovery returns partitions the transactions it has read. -/
theorem recover_partitioned (ok : (recoverWithValidation crates (some bytes) mem).1 = .ok stats) :
    Partitioned (readLog crates bytes).items stats :=
  recover_stats ok ▸ (tracks_scan _).partitioned _ _

theorem damage_count (ok : (recoverWithValidation crates (some bytes) mem).1 = .ok stats) :
    stats.partialWrites + stats.checksumFailures = if bytes.length < WalEntryHeader.SIZE then 0
      else 1 := by
  have readable := recover_readable ok
  rw [recover_stats ok]
  split
  · rename_i short
    rw [readLog_stop (readFrame_headerEof_iff.mpr short)]
    simp [recoveryStats]
  · rename_i long
    have stop : readFrame crates (readLog crates bytes).rest = .error (readLog crates bytes).exit :=
      (walReader crates).run_stops bytes
    cases exit : (readLog crates bytes).exit with
    | headerEof =>
      -- the loop stopped behind at least one frame, so the offset is not 0
      have rest_short := readFrame_headerEof_iff.mp (exit ▸ stop)
      have offset : 0 < bytes.length - (readLog crates bytes).rest.length := by omega
      simp [recoveryStats, offset]
    | capacityOverflow => exact absurd exit readable
    | payloadEof | undecodable | checksum => rfl

theorem ValidLog.length {es : List WalEntry} (whole : ValidLog crates bytes es) :
    bytes = [] ∨ WalEntryHeader.SIZE ≤ bytes.length := by
  cases whole with
  | nil => exact .inl rfl
  | @cons bytes rest e es head tail =>
    have size := head.header
    rw [List.length_append]
    exact .inr (by omega)

/-- The report is right exactly on the empty file and on
files that are damaged and no shorter than a header. -/
theorem damage_reported_iff (mem : Memory)
    (ok : (recoverWithValidation crates (some bytes) mem).1 = .ok stats) :
    DamageReported crates bytes stats ↔
      bytes = [] ∨ (WalEntryHeader.SIZE ≤ bytes.length ∧ ¬ ∃ es, ValidLog crates bytes es) := by
  rw [DamageReported, damage_count ok]
  by_cases short : bytes.length < WalEntryHeader.SIZE
  · have empty : (∃ es, ValidLog crates bytes es) ↔ bytes = [] := by
      constructor
      · rintro ⟨es, whole⟩
        exact whole.length.resolve_right (Nat.not_le_of_lt short)
      · rintro rfl
        exact ⟨[], .nil⟩
    simp [short, Nat.not_le_of_lt short, empty]
  · have long := Nat.le_of_not_lt short
    have nonempty : bytes ≠ [] := by
      rintro rfl
      exact short (by decide)
    simp [short, long, nonempty]

def cleanLog : List WalEntry := [.insert 1 7 "k" [1], .commit 1 8]

def cleanWal : Bytes := cleanLog.flatMap (frame (Bincode.crates true))

theorem clean_reported_damaged :
    ¬ ∀ (crates : Crates) (bytes : Bytes) (mem : Memory) (stats : RecoveryStats),
      (recoverWithValidation crates (some bytes) mem).1 = .ok stats →
        DamageReported crates bytes stats := by
  intro claim
  have reported := claim (Bincode.crates true) cleanWal ⟨fun _ => none, 1⟩
    { totalTransactions := 1, committed := 1, partialWrites := 1 } (by decide +kernel)
  have undamaged := reported.1.mpr ⟨cleanLog, .of_entries (by decide +kernel)⟩
  revert undamaged
  decide

theorem damage_reported_iff_cut :
    DamageReported (Bincode.crates true) (cleanWal.take 60)
      { totalTransactions := 1, incomplete := 1, partialWrites := 1 } ↔
      cleanWal.take 60 = [] ∨ (WalEntryHeader.SIZE ≤ (cleanWal.take 60).length ∧
        ¬ ∃ es, ValidLog (Bincode.crates true) (cleanWal.take 60) es) :=
  damage_reported_iff ⟨fun _ => none, 1⟩ (by decide +kernel)

end Damage

end AsyncWalDb
