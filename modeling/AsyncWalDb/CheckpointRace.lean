import AsyncWalDb.Acknowledged
import AsyncWalDb.ReadBack

/-! Checkpoints beside commits. A checkpoint reads the file first and replays later: it keeps the
newest values as long as no transaction above the last one it replays on a key has applied an
operation to that key by then. -/
namespace AsyncWalDb

open Interleaving KeyedWrites

/-- Every key holds what the last committed operation on it left. -/
def HoldsLatest (before : Store) (s : System) : Prop :=
  ∀ key, s.mem.store key = (lastOn key (committedWrites s.wal)).getD (before key)

def CommitsAscend (w : Wal) : Prop :=
  (w.history.filter fun it => it.entry.isCommit).Pairwise fun a b => a.entry.txId < b.entry.txId

instance (w : Wal) : Decidable (CommitsAscend w) := by
  unfold CommitsAscend
  infer_instance

def CkptScan.writes (found : CkptScan) (id : UInt64) (key : String) : Bool :=
  ((found.txEntries.lookup id).getD []).any fun e => !e.isMarker && e.key = key

/-- When a checkpoint replays writes to a key, those of the highest transaction it has read are not
older than any operation already applied to that key. -/
def ReplayFresh (σ : SystemConfig) : SystemAction → Prop
  | .move i .proceed =>
    match σ.tasks[i]? with
    | some ⟨none, .checkpoint (.replay _ found)⟩ => ∀ op ∈ appliedOps σ.shared,
      (∃ id ∈ found.committedTxs, found.writes id op.key = true) →
        ∃ id ∈ found.committedTxs, op.txId ≤ id ∧ found.writes id op.key = true
    | _ => True
  | _ => True

instance (σ : SystemConfig) (a : SystemAction) : Decidable (ReplayFresh σ a) := by
  unfold ReplayFresh
  rcases a with _ | ⟨i, _ | _ | _ | _ | _ | _ | _ | _ | _ | _⟩
  case move.proceed =>
    dsimp only
    rcases σ.tasks[i]? with _ | ⟨_ | _, _ | _ | _ | _ | _ | (_ | _ | _ | _ | _ | _ | _)⟩ <;>
      infer_instance
  all_goals infer_instance

def Prog.checkpointing : Prog → Bool
  | .checkpoint (.returned _) | .checkpoint .interrupted => false
  | .checkpoint _ => true
  | _ => false

def CheckpointIdle (σ : SystemConfig) : Prop := ∀ t ∈ σ.tasks, t.prog.checkpointing = false

instance (σ : SystemConfig) : Decidable (CheckpointIdle σ) := by
  unfold CheckpointIdle
  infer_instance

variable {crates : Crates} {w w' : Wal} {i k : Nat} {σ σ' : SystemConfig} {a : SystemAction}
  {es : List WalEntry} {before : Store} {lastCkpt first : UInt64} {found : CkptScan}

section Scan

theorem CkptTracks.writes_iff {items : List WalEntry} (tracks : CkptTracks lastCkpt found items)
    {id : UInt64} (above : lastCkpt < id) (key : String) : found.writes id key = true ↔
      lastOn key (writesOf id items) ≠ none := by
  have entries : (found.txEntries.lookup id).getD [] = entriesOf id items := by
    rw [tracks.entries id above]
    split
    · rename_i empty
      exact empty.symm
    · rfl
  rw [CkptScan.writes, entries, writesOf, lastOn_ops]
  simp

theorem CkptTracks.mem_iff {items : List WalEntry} (tracks : CkptTracks lastCkpt found items)
    {id : UInt64} : id ∈ found.committedTxs ↔ id ∈ ckptIds lastCkpt items := by
  rw [tracks.members, mem_ckptIds]

theorem checkpointScan_ok {bytes : Bytes} (h : checkpointScan crates lastCkpt bytes = .ok found) :
    CkptTracks lastCkpt found (readLog crates bytes).items := by
  unfold checkpointScan at h
  dsimp only at h
  split at h
  · cases h
    exact ckptTracks_scan lastCkpt _
  all_goals cases h

end Scan

section Growth

theorem runs_stream_prefix {c : WalCall} {t : Option WalCall} (h : Runs crates i w c w' t) :
    w.stream <+: w'.stream := by
  cases h with
  | header | payload => exact List.prefix_append _ _
  | wait | reserve | push | appended | poll | force | drained | pop | empty | popped | lock | flush
  | sync | sub | wake =>
    exact List.prefix_refl _

theorem begun_take (grows : w.stream <+: w'.stream) (within : k ≤ (begun w).length) :
    k ≤ (begun w').length ∧ (begun w').take k = (begun w).take k := by
  obtain ⟨more, same⟩ := grows
  have later : begun w' = begun w ++ more.filterMap Piece.begins := by
    rw [begun, ← same, List.filterMap_append, begun]
  rw [later]
  exact ⟨by simp; omega, List.take_append_of_le_length within⟩

theorem commitsAscend_push {it : Item} (push : w'.history = w.history ++ [it])
    (ascend : CommitsAscend w') : CommitsAscend w := by
  rw [CommitsAscend, push, List.filter_append] at ascend
  exact (List.pairwise_append.mp ascend).1

end Growth

section Replay

theorem logged_of_commit (logs : TxLogs σ) {c : Item} (pushed : c ∈ σ.shared.wal.history)
    {e : WalEntry} (he : e ∈ logged σ.shared.wal c.owner) : e.txId = c.entry.txId := by
  obtain ⟨it, hit, rfl⟩ := List.mem_map.mp he
  obtain ⟨old, own⟩ := List.mem_filter.mp hit
  have own : it.owner = c.owner := by simpa using own
  obtain ⟨_, tx, _, slot, same⟩ := pushed_by logs pushed
  obtain ⟨_, tx', _, slot', same'⟩ := pushed_by logs old
  rw [own] at slot'
  cases Option.some.inj (slot.symm.trans slot')
  exact same'.trans same.symm

theorem committed_applied (order : CommitsInOrder σ) {key : String}
    (settled : ∀ e ∈ owedOps σ, e.key ≠ key) {c : Item}
    (commit : c ∈ σ.shared.wal.history.filter fun it => it.entry.isCommit) {e : WalEntry}
    (he : e ∈ logged σ.shared.wal c.owner) (operation : e.isMarker = false) (own : e.key = key) :
    e ∈ appliedOps σ.shared := by
  have mem : e ∈ appliedOps σ.shared ++ owedOps σ := by
    rw [order.applied, committedOps]
    exact List.mem_flatMap.mpr ⟨c.owner, List.mem_map_of_mem commit, List.mem_filter.mpr
      ⟨he, by simp [operation]⟩⟩
  exact (List.mem_append.mp mem).resolve_right fun owed => settled e owed own

theorem applied_le {items : List WalEntry} (tracks : CkptTracks lastCkpt found items)
    (fresh : ∀ op ∈ appliedOps σ.shared,
      (∃ id ∈ found.committedTxs, found.writes id op.key = true) →
      ∃ id ∈ found.committedTxs, op.txId ≤ id ∧ found.writes id op.key = true)
    {lower higher : List UInt64} {id : UInt64}
    (split : ckptIds lastCkpt items = lower ++ id :: higher) {op : WalEntry}
    (writes : lastOn op.key (writesOf id items) ≠ none)
    (last : ∀ j ∈ higher, lastOn op.key (writesOf j items) = none)
    (applied : op ∈ appliedOps σ.shared) : op.txId ≤ id := by
  have above : ∀ {j : UInt64}, j ∈ ckptIds lastCkpt items → lastCkpt < j := fun hj =>
    (mem_ckptIds.mp hj).1
  have mem : id ∈ ckptIds lastCkpt items := by rw [split]; simp
  obtain ⟨j, hj, le, written⟩ :=
    fresh op applied ⟨id, tracks.mem_iff.mpr mem, (tracks.writes_iff (above mem) _).mpr writes⟩
  have hj := tracks.mem_iff.mp hj
  have written := (tracks.writes_iff (above hj) _).mp written
  have sorted := ckptIds_sorted lastCkpt items
  rw [split] at hj sorted
  rcases List.mem_append.mp hj with low | rest
  · exact le_trans le ((List.pairwise_append.mp sorted).2.2 j low id List.mem_cons_self).le
  · rcases List.mem_cons.mp rest with rfl | high
    · exact le
    · exact absurd (last j high) written

theorem replay_last_old {fs : List WalEntry} (apart : ∀ e ∈ es, ∀ f ∈ fs, e.txId < f.txId)
    {lower higher : List UInt64}
    {id : UInt64} (split : ckptIds lastCkpt (es ++ fs) = lower ++ id :: higher)
    (old : ∃ e ∈ es, e.txId = id) {key : String}
    {v : Option Bytes} (at_id : lastOn key (writesOf id (es ++ fs)) = some v)
    (last : ∀ j ∈ higher, lastOn key (writesOf j (es ++ fs)) = none) :
    lastOn key (replayWrites es) = some v := by
  have alone : ∀ {j : UInt64}, (∃ e ∈ es, e.txId = j) →
      entriesOf j (es ++ fs) = entriesOf j es := by
    rintro j ⟨e, he, rfl⟩
    rw [entriesOf_append, entriesOf_eq_nil.mpr fun f hf => (ne_of_lt (apart e he f hf)).symm,
      List.append_nil]
  obtain ⟨above, commit⟩ := mem_ckptIds.mp (by rw [split]; simp : id ∈ ckptIds lastCkpt (es ++ fs))
  rw [committed_congr (alone old)] at commit
  obtain ⟨pre, post, split'⟩ := List.append_of_mem (mem_committedIds.mpr commit)
  refine lastOn_flatMap.mpr
    ⟨pre, id, post, split', by rw [← writesOf_congr (alone old)]; exact at_id, fun j hj => ?_⟩
  have committed_j : committed es j = true := mem_committedIds.mp (by rw [split']; simp [hj])
  have old_j : ∃ e ∈ es, e.txId = j := by
    obtain ⟨e, he, own, _⟩ := committed_mem committed_j
    exact ⟨e, he, own⟩
  have later : id < j := by
    have sorted := committedIds_sorted es
    rw [split'] at sorted
    exact (List.pairwise_cons.mp (List.pairwise_append.mp sorted).2.1).1 j hj
  have mem : j ∈ ckptIds lastCkpt (es ++ fs) :=
    mem_ckptIds.mpr ⟨lt_trans above later, by rw [committed_congr (alone old_j)]; exact committed_j⟩
  have sorted := ckptIds_sorted lastCkpt (es ++ fs)
  rw [split] at mem sorted
  rw [← writesOf_congr (alone old_j)]
  rcases List.mem_append.mp mem with low | rest
  · exact absurd ((List.pairwise_append.mp sorted).2.2 j low id List.mem_cons_self) (lt_asymm later)
  · rcases List.mem_cons.mp rest with rfl | high
    · exact absurd later (lt_irrefl _)
    · exact last j high

theorem replay_latest (frames : FramesOrdered crates SameTxOrder (logView σ)) (logs : TxLogs σ)
    (ids : TxIds first σ) (order : CommitsInOrder σ) (older : ∀ e ∈ es, e.txId < first)
    (ascend : CommitsAscend σ.shared.wal)
    (tracks : CkptTracks lastCkpt found (es ++ ((begun σ.shared.wal).take k).map Item.entry))
    (fresh : ∀ op ∈ appliedOps σ.shared,
      (∃ id ∈ found.committedTxs, found.writes id op.key = true) →
      ∃ id ∈ found.committedTxs, op.txId ≤ id ∧ found.writes id op.key = true)
    {key : String} (settled : ∀ e ∈ owedOps σ, e.key ≠ key) {v : Option Bytes}
    (written : lastOn key
      (ckptWrites lastCkpt (es ++ ((begun σ.shared.wal).take k).map Item.entry)) = some v) :
    (lastOn key (committedWrites σ.shared.wal)).getD ((lastOn key (replayWrites es)).getD none) =
      v := by
  have pushed : (begun σ.shared.wal).take k ⊆ σ.shared.wal.history := frames.pushed_take k
  obtain ⟨lower, id, higher, split, at_id, last⟩ := lastOn_flatMap.mp written
  have writes : lastOn key (writesOf id (es ++ ((begun σ.shared.wal).take k).map Item.entry)) ≠
    none := by rw [at_id]; simp
  have newest : ∀ c ∈ σ.shared.wal.history.filter (fun it => it.entry.isCommit),
      lastOn key ((logged σ.shared.wal c.owner).filterMap WalEntry.write?) ≠ none →
        c.entry.txId ≤ id := by
    intro c hc some_write
    obtain ⟨e, he, operation, rfl⟩ := lastOn_ops.mp some_write
    rw [← logged_of_commit logs (List.mem_of_mem_filter hc) he]
    exact applied_le tracks fresh split writes last
      (committed_applied order settled hc he operation rfl)
  have commit := (mem_ckptIds.mp (by rw [split]; simp : id ∈ ckptIds lastCkpt _)).2
  have drawn : ∀ it ∈ σ.shared.wal.history, first ≤ it.entry.txId := by
    intro it hit
    obtain ⟨call, tx, stage, slot, same⟩ := pushed_by logs hit
    rw [same]
    exact (ids.drawn _ _ tx.id slot rfl).1
  by_cases old : ∃ e ∈ es, e.txId = id
  · -- an old transaction is the last writer in the old log, and no newer one has written the key
    have none_new : lastOn key (committedWrites σ.shared.wal) = none := by
      by_contra some_write
      obtain ⟨v', hv'⟩ := Option.ne_none_iff_exists'.mp some_write
      rw [committedWrites_eq] at hv'
      obtain ⟨pre, c, post, items, at_c, _⟩ := lastOn_flatMap.mp hv'
      have hc : c ∈ σ.shared.wal.history.filter fun it => it.entry.isCommit := by rw [items]; simp
      obtain ⟨e, he, rfl⟩ := old
      exact absurd (lt_of_lt_of_le (older e he) (drawn c (List.mem_of_mem_filter hc)))
        (not_lt.mpr (newest c hc (by rw [at_c]; simp)))
    rw [none_new, replay_last_old ?_ split old at_id last]
    · rfl
    · intro e he f hf
      obtain ⟨it, hit, rfl⟩ := List.mem_map.mp hf
      exact lt_of_lt_of_le (older e he) (drawn it (pushed hit))
  · -- the last writer is a transaction of this run, whole in what was read
    have none_old : entriesOf id es = [] := entriesOf_eq_nil.mpr fun e he own => old ⟨e, he, own⟩
    have here : entriesOf id (es ++ ((begun σ.shared.wal).take k).map Item.entry) =
        entriesOf id (((begun σ.shared.wal).take k).map Item.entry) := by
          rw [entriesOf_append, none_old, List.nil_append]
    rw [committed_congr here] at commit
    obtain ⟨i, call, tx, stage, slot, rfl⟩ := transaction_of_id logs pushed commit
    have whole := read_committed frames logs ids slot commit
    have mine := (committed_logged logs slot whole).mp commit
    obtain ⟨c, hc, rfl⟩ := List.mem_map.mp mine
    obtain ⟨pre, post, items⟩ := List.append_of_mem hc
    have id_c : c.entry.txId = tx.id :=
      (owner_of_txId logs ids slot (List.mem_of_mem_filter hc)).mpr rfl
    have latest : lastOn key (committedWrites σ.shared.wal) = some v := by
      rw [committedWrites_eq]
      refine lastOn_flatMap.mpr ⟨pre, c, post, items, ?_, fun d hd => ?_⟩
      · rw [← whole, ← here]
        exact at_id
      · by_contra some_write
        have le := newest d (by rw [items]; simp [hd]) some_write
        rw [CommitsAscend, items] at ascend
        have lt := (List.pairwise_cons.mp (List.pairwise_append.mp ascend).2.1).1 d hd
        exact absurd lt (not_lt.mpr (id_c ▸ le))
    rw [latest]
    rfl

end Replay

section Runs

structure Latest (es : List WalEntry) (σ : SystemConfig) : Prop where
  scans : ∀ (i : Nat) (call : Option WalCall) (lastCkpt : UInt64) (found : CkptScan),
    σ.tasks[i]? = some ⟨call, .checkpoint (.replay lastCkpt found)⟩ →
      ∃ k ≤ (begun σ.shared.wal).length,
      CkptTracks lastCkpt found (es ++ ((begun σ.shared.wal).take k).map Item.entry)
  latest : CommitsAscend σ.shared.wal → ∀ key, (∀ e ∈ owedOps σ, e.key ≠ key) →
    σ.shared.mem.store key = (lastOn key (committedWrites σ.shared.wal)).getD
      ((lastOn key (replayWrites es)).getD none)

structure RaceKnown (crates : Crates) (es : List WalEntry) (first : UInt64) (σ : SystemConfig) :
    Prop where
  frames : FramesOrdered crates SameTxOrder (logView σ)
  logs : TxLogs σ
  ids : TxIds first σ
  order : CommitsInOrder σ
  whole : ValidLog crates σ.shared.base es

theorem returned_checkpoint {prog : Prog} {stage : CkptStage}
    (h : prog.returned (.ok ()) = .checkpoint stage) : prog = .checkpoint stage := by
  cases prog with
  | transaction tx stage => cases stage <;> cases h
  | flusher stage => cases stage <;> cases h
  | storeHandle | stopFlusher | flushCaller | checkpoint => exact h

theorem scans_grow (ok : Latest es σ) (grows : σ.shared.wal.stream <+: w'.stream) {i : Nat}
    {call : Option WalCall}
    (slot : σ.tasks[i]? = some ⟨call, .checkpoint (.replay lastCkpt found)⟩) :
    ∃ k ≤ (begun w').length,
      CkptTracks lastCkpt found (es ++ ((begun w').take k).map Item.entry) := by
  obtain ⟨k, within, tracks⟩ := ok.scans i call lastCkpt found slot
  obtain ⟨within', same⟩ := begun_take grows within
  exact ⟨k, within', by rw [same]; exact tracks⟩

theorem scan_found (known : RaceKnown crates es first σ) {n : Nat}
    (enough : σ.shared.flushedBytes crates ≤ n)
    (scanned : checkpointScan crates lastCkpt ((σ.shared.file crates).take n) = .ok found) :
    ∃ k ≤ (begun σ.shared.wal).length,
      CkptTracks lastCkpt found (es ++ ((begun σ.shared.wal).take k).map Item.entry) := by
  obtain ⟨k, items, _⟩ :=
    file_items known.frames known.whole (le_trans (Nat.le_add_right _ _) enough)
  have tracks := checkpointScan_ok scanned
  rw [items] at tracks
  refine ⟨min k (begun σ.shared.wal).length, Nat.min_le_right _ _, ?_⟩
  rwa [← List.take_eq_take_min]

theorem lastOn_settled {key : String} {ops : List WalEntry} (settled : ∀ e ∈ ops, e.key ≠ key) :
    lastOn key (ops.filterMap WalEntry.write?) = none := by
  by_contra some_write
  obtain ⟨e, he, _, same⟩ := lastOn_ops.mp some_write
  exact settled e he same

theorem apply_latest (order : CommitsInOrder σ) (ok : Latest es σ)
    (ascend : CommitsAscend σ.shared.wal) {tx : Transaction} {op : WalEntry} {rest : List WalEntry}
    (slot : σ.tasks[i]? = some ⟨none, .transaction tx (.applying (op :: rest))⟩)
    {store : Store} (applied : applyToStore σ.shared.mem.store op = .ok store) {key : String}
    (settled : ∀ e ∈ rest, e.key ≠ key) :
    store key = (lastOn key (committedWrites σ.shared.wal)).getD
      ((lastOn key (replayWrites es)).getD none) := by
  obtain ⟨owed, _⟩ := order.owed_busy slot rfl
  obtain ⟨w, write, own, rfl⟩ := applyToStore_ok applied
  by_cases here : op.key = key
  · have all : committedOps σ.shared.wal = appliedOps σ.shared ++ [op] ++ rest := by
      rw [← order.applied, owed, List.append_assoc]
      rfl
    have value : lastOn key (committedWrites σ.shared.wal) = some w.value := by
      rw [committedWrites, all, List.filterMap_append, List.filterMap_append,
        lastOn_append, lastOn_append,
        lastOn_settled settled]
      simp [write, lastOn, own.trans here]
    rw [value, apply, own, here, Function.update_self]
    rfl
  · rw [apply, own, Function.update_of_ne (Ne.symm here)]
    refine ok.latest ascend key fun e he => ?_
    rw [owed] at he
    rcases List.mem_cons.mp he with rfl | later
    · exact here
    · exact settled e later

theorem replayed_latest (known : RaceKnown crates es first σ) (ok : Latest es σ)
    (older : ∀ e ∈ es, e.txId < first) (ascend : CommitsAscend σ.shared.wal)
    (slot : σ.tasks[i]? = some ⟨none, .checkpoint (.replay lastCkpt found)⟩)
    (fresh : ReplayFresh σ (.move i .proceed))
    {key : String} (settled : ∀ e ∈ owedOps σ, e.key ≠ key) :
    checkpointReplay lastCkpt found σ.shared.mem.store key =
      (lastOn key (committedWrites σ.shared.wal)).getD
        ((lastOn key (replayWrites es)).getD none) := by
  obtain ⟨k, _, tracks⟩ := ok.scans i none lastCkpt found slot
  rw [tracks.replay_eq, applyAll_at]
  cases written :
    lastOn key (ckptWrites lastCkpt (es ++ ((begun σ.shared.wal).take k).map Item.entry)) with
  | none => exact ok.latest ascend key settled
  | some v =>
    simp only [ReplayFresh, slot] at fresh
    exact (replay_latest known.frames known.logs known.ids known.order older ascend tracks fresh
      settled written).symm

theorem latest_spawn (ok : Latest es σ) {s : System} {t : Task} (wal : s.wal = σ.shared.wal)
    (mem : s.mem.store = σ.shared.mem.store) (idle : t.owed = [])
    (unread : ∀ call lastCkpt found, t ≠ ⟨call, .checkpoint (.replay lastCkpt found)⟩) :
    Latest es ⟨s, σ.tasks ++ [t]⟩ := by
  refine ⟨fun j call lastCkpt found hj => ?_, fun ascend key settled => ?_⟩
  · rcases getElem?_append_one hj with old | ⟨_, new⟩
    · exact scans_grow ok (wal ▸ List.prefix_refl _) old
    · exact absurd new.symm (unread call lastCkpt found)
  · dsimp only at ascend ⊢
    rw [wal] at ascend ⊢
    rw [mem]
    exact ok.latest ascend key (by simpa [owedOps, idle] using settled)

theorem latest_set (ok : Latest es σ) {s : System} {t : Task}
    (grows : σ.shared.wal.stream <+: s.wal.stream)
    (read : ∀ lastCkpt found, t.prog = .checkpoint (.replay lastCkpt found) →
      ∃ k ≤ (begun s.wal).length,
        CkptTracks lastCkpt found (es ++ ((begun s.wal).take k).map Item.entry))
    (latest : CommitsAscend s.wal → ∀ key, (∀ e ∈ owedOps ⟨s, σ.tasks.set i t⟩, e.key ≠ key) →
      s.mem.store key = (lastOn key (committedWrites s.wal)).getD
        ((lastOn key (replayWrites es)).getD none)) : Latest es ⟨s, σ.tasks.set i t⟩ := by
  refine ⟨fun j call lastCkpt found hj => ?_, latest⟩
  rcases getElem?_set_cases hj with ⟨_, same, _⟩ | ⟨_, old⟩
  · exact read lastCkpt found (by rw [← same])
  · exact scans_grow ok grows old

theorem latest_call (ok : Latest es σ) (known : RaceKnown crates es first σ)
    {c : WalCall} {prog : Prog} {call : Option WalCall} (slot : σ.tasks[i]? = some ⟨some c, prog⟩)
    (runs : Runs crates i σ.shared.wal c w call) : Latest es ⟨{ σ.shared with wal := w },
      σ.tasks.set i ⟨call, if call.isSome then prog else prog.returned (.ok ())⟩⟩ := by
  have grows := runs_stream_prefix runs
  obtain ⟨_, out⟩ := call_owed runs (known.logs.tasks i _ slot)
  refine latest_set ok grows (fun lastCkpt found read => ?_) fun ascend key settled => ?_
  · have stage : prog = .checkpoint (.replay lastCkpt found) := by
      cases call with
      | some c' => exact read
      | none => exact returned_checkpoint read
    subst stage
    exact scans_grow ok grows slot
  · have ascend : CommitsAscend w := ascend
    have before : CommitsAscend σ.shared.wal := by
      rcases runs_history runs with same | ⟨it, _, _, push⟩
      · rw [CommitsAscend, ← same]
        exact ascend
      · exact commitsAscend_push push ascend
    change σ.shared.mem.store key = (lastOn key (committedWrites w)).getD _
    rcases out with ⟨same, owed⟩ | ⟨committing, none_owed, push⟩
    · rw [owedOps_set slot owed] at settled
      rw [committedWrites, same]
      exact ok.latest before key settled
    · obtain ⟨owed, owed'⟩ := known.order.owed_busy slot committing
      rw [owed'] at settled
      rw [committedWrites, push, List.filterMap_append, lastOn_append, lastOn_settled settled]
      exact ok.latest before key (by simp [owed, none_owed])

theorem latest_own (ok : Latest es σ) (known : RaceKnown crates es first σ)
    (older : ∀ e ∈ es, e.txId < first) {m : Move}
    {prog : Prog} {s' : System} {t' : Task} (slot : σ.tasks[i]? = some ⟨none, prog⟩)
    (runs : OwnRuns crates i σ.shared m prog s' t') (faultless : SystemFaultless σ (.move i m))
    (applies : CommitsApply σ (.move i m)) (fresh : ReplayFresh σ (.move i m)) :
    Latest es ⟨s', σ.tasks.set i t'⟩ := by
  have history := (logMove_records runs.log).1
  have grows : σ.shared.wal.stream <+: s'.wal.stream :=
    (logMove_stream runs.log) ▸ List.prefix_refl _
  have committed_same : committedWrites s'.wal = committedWrites σ.shared.wal := by
    rw [committedWrites, committedOps_congr history, committedWrites]
  have ascend_same : CommitsAscend s'.wal → CommitsAscend σ.shared.wal := by
    rw [CommitsAscend, history]
    exact id
  -- most moves leave the store and what is owed alone
  have keep : s'.mem.store = σ.shared.mem.store → t'.owed = Task.owed ⟨none, prog⟩ →
      (∀ lastCkpt found, t'.prog = .checkpoint (.replay lastCkpt found) →
        ∃ k ≤ (begun s'.wal).length,
          CkptTracks lastCkpt found (es ++ ((begun s'.wal).take k).map Item.entry)) →
      Latest es ⟨s', σ.tasks.set i t'⟩ := by
    intro store owed read
    refine latest_set ok grows read fun ascend key settled => ?_
    rw [owedOps_set slot owed] at settled
    rw [store, committed_same]
    exact ok.latest (ascend_same ascend) key settled
  cases runs with
  | @apply tx op rest store unlocked applied =>
    refine latest_set ok grows (fun _ _ read => by cases read) fun ascend key settled => ?_
    rw [(known.order.owed_busy slot rfl).2] at settled
    exact apply_latest known.order ok ascend slot applied settled
  | applyFails unlocked failed =>
    simp only [CommitsApply, slot, failed] at applies
    cases applies
  | cancel => exact absurd slot (faultless _ _ _)
  | control shutdown handle exited before after log appends =>
    refine keep rfl ((owed_committing (control_committing after)).trans
      (owed_committing (t := ⟨none, prog⟩) (control_committing before)).symm) fun _ _ read => ?_
    cases read
    cases after
  | @ckpt m stage s' t' moved =>
    obtain ⟨stage', rfl, ran⟩ := ckptMove_runs moved
    cases ran with
    | read before after found =>
      refine keep rfl rfl fun lastCkpt found' read => ?_
      cases read
      obtain ⟨_, n, enough, scanned⟩ := found lastCkpt found' rfl
      exact scan_found known enough scanned
    | @replay lastCkpt found unlocked =>
      have proceeds : m = .proceed := by
        cases m with
        | proceed => rfl
        | interrupt => simp [ckptMove] at moved
        | call | notified | appendOp | commit | abort | discard | flush | see => cases moved
      subst proceeds
      refine latest_set ok grows (fun _ _ read => by cases read) fun ascend key settled => ?_
      have owed : Task.owed ⟨none, .checkpoint (.openMarker (maxCkpt lastCkpt found))⟩ =
          Task.owed ⟨none, .checkpoint (.replay lastCkpt found)⟩ := rfl
      rw [owedOps_set slot owed] at settled
      exact replayed_latest known ok older ascend slot fresh settled
    | openMarker | writeMarker | unlock | interrupt =>
      exact keep rfl rfl fun _ _ read => by cases read
  | refused | append | commit | abort | notActive | discard | commitFlush | abortFlush | done =>
    exact keep rfl rfl fun _ _ read => by cases read

theorem latest_step (ok : Latest es σ) (known : RaceKnown crates es first σ)
    (older : ∀ e ∈ es, e.txId < first)
    (step : SystemStep crates σ a σ') (faultless : SystemFaultless σ a) (applies : CommitsApply σ a)
    (fresh : ReplayFresh σ a) : Latest es σ' := by
  cases step with
  | begin => exact latest_spawn ok rfl rfl rfl fun _ _ _ same => by cases same
  | @spawn k prog other =>
    rcases other with control | ⟨_, rfl⟩
    · refine latest_spawn ok rfl rfl (owed_committing (control_committing control))
        fun _ _ _ same => ?_
      cases same
      cases control
    · exact latest_spawn ok rfl rfl rfl fun _ _ _ same => by cases same
  | call slot runs => exact latest_call ok known slot runs
  | @fault i c k prog prog' slot fallible stops after =>
    cases k with
    | run => exact absurd rfl stops
    | fail | drop => exact faultless.elim
  | own slot other runs => exact latest_own ok known older slot runs faultless applies fresh

variable {m : Nat} {path : String} {base : Bytes} {ckpt : Option (List Char)} {mem : Memory}

/-- In every run of commits one after another on a log kept in order
whose checkpoints replay fresh: as long as the ids of the commits ascend,
the store holds the latest values whenever no commit is in progress. -/
theorem checkpoints_keep_latest (whole : ValidLog crates base es)
    (older : ∀ e ∈ es, e.txId < mem.nextTxId)
    (recovered : mem.store = applyAll (fun _ => none) (replayWrites es))
    (run : (systemProtocol crates).Reaches
      (fun σ a => SystemNoFaultAnd (LockOrder SameTxOrder) σ a ∧ NoWrap σ a ∧ OneByOne σ a ∧
        CommitsApply σ a ∧ ReplayFresh σ a)
      (System.start m path base ckpt mem) σ)
    (ascend : CommitsAscend σ.shared.wal) (idle : CommitIdle σ) :
    HoldsLatest mem.store σ.shared := by
  have known : ∀ τ, (systemProtocol crates).Reaches
      (fun σ a => SystemNoFaultAnd (LockOrder SameTxOrder) σ a ∧ NoWrap σ a ∧ OneByOne σ a ∧
        CommitsApply σ a ∧ ReplayFresh σ a)
      (System.start m path base ckpt mem) τ → RaceKnown crates es mem.nextTxId τ := by
    intro τ run
    refine ⟨?_, txLogs_run (fun _ _ ok => ok.1.faultless) run, txIds_run (fun _ _ ok => ok.2.1) run,
      commitsInOrder_run (fun _ _ ok => ⟨ok.1.faultless, ok.2.2.1, ok.2.2.2.1⟩) run,
        by rw [base_run run]; exact whole⟩
    exact framesOrdered_system (fun _ _ => And.left) (fun _ _ => id) (fun o c must => must.2) run
  have initial : ∀ key, mem.store key = (lastOn key (replayWrites es)).getD none := by
    intro key
    rw [recovered, applyAll_at]
  have latest : Latest es σ := by
    refine run.invariant_with known ⟨fun j call lastCkpt found hj => ?_,
      fun _ key _ => initial key⟩ ?_
    · rcases start_slot hj with same | same <;> cases same
    · intro τ a τ' known _ ok guarded taken
      exact latest_step ok known older (system_step_cases taken) guarded.1.faultless
        guarded.2.2.2.1 guarded.2.2.2.2
  intro key
  rw [initial key]
  refine latest.latest ascend key fun e he => ?_
  obtain ⟨t, ht, owed⟩ := List.mem_flatMap.mp he
  rw [owed_committing (idle t ht)] at owed
  cases owed

end Runs

def insertAlone (value : Bytes) (i : Nat) : List SystemAction :=
  [.spawn .transaction] ++ insertInto "k" value i ++ commitOne i 2

def readFile (i : Nat) : List SystemAction :=
  [.spawn .checkpoint, .move i .proceed, .move i (.see 1000)]

def replayRead (i : Nat) : List SystemAction := List.replicate 4 (.move i .proceed)

/-- The checkpoint reads after the first commit and replays after the second. -/
def revertedEnd : SystemConfig :=
  ((systemProtocol (Bincode.crates true)).exec
    (fun σ a => SystemNoFaultAnd (fun _ _ => True) σ a ∧ OneByOne σ a ∧
      CommitsApply σ a) newDatabase
    (insertAlone [1] 2 ++ readFile 3 ++ insertAlone [2] 4 ++ replayRead 3)).get (by decide +kernel)

theorem checkpoint_reverts :
    ¬ ∀ (crates : Crates) (base : Bytes) (es : List WalEntry) (mem : Memory)
      (m : Nat) (path : String)
      (ckpt : Option (List Char)) (σ : SystemConfig), ValidLog crates base es →
        (∀ e ∈ es, e.txId < mem.nextTxId) →
      mem.store = applyAll (fun _ => none) (replayWrites es) →
      (systemProtocol crates).Reaches (fun σ a => SystemNoFaultAnd (fun _ _ => True) σ a ∧
        OneByOne σ a ∧ CommitsApply σ a)
        (System.start m path base ckpt mem) σ → CommitsAscend σ.shared.wal → CommitIdle σ →
          CheckpointIdle σ →
      HoldsLatest mem.store σ.shared := by
  intro claim
  have reached : (systemProtocol (Bincode.crates true)).Reaches
      (fun σ a => SystemNoFaultAnd (fun _ _ => True) σ a ∧ OneByOne σ a ∧
        CommitsApply σ a) newDatabase revertedEnd :=
    Protocol.reaches_exec _ (by decide +kernel)
  have latest := claim _ _ [] _ _ _ _ _ .nil (List.forall_mem_nil _) rfl reached (by decide +kernel)
    (by decide +kernel)
    (by decide +kernel)
  have differs : revertedEnd.shared.mem.store "k" ≠
      (lastOn "k" (committedWrites revertedEnd.shared.wal)).getD none := by
    decide +kernel
  exact differs (latest "k")

theorem checkpoints_keep_latest_between :
    HoldsLatest newDatabase.shared.mem.store (((systemProtocol (Bincode.crates true)).exec
      (fun σ a => SystemNoFaultAnd (LockOrder SameTxOrder) σ a ∧ NoWrap σ a ∧ OneByOne σ a ∧
        CommitsApply σ a ∧ ReplayFresh σ a)
      newDatabase (insertAlone [1] 2 ++ readFile 3 ++ replayRead 3 ++ insertAlone [2] 4)).get
        (by decide +kernel)).shared :=
  checkpoints_keep_latest .nil (List.forall_mem_nil _) rfl
    (Protocol.reaches_exec _ (by decide +kernel)) (by decide +kernel)
    (by decide +kernel)

end AsyncWalDb
