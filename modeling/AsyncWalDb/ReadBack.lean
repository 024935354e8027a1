import AsyncWalDb.Commits
import AsyncWalDb.CrashImage

/-! What a reader of the log learns about transactions when the file
keeps the order of each one's own entries: a Commit frame comes with
everything its transaction logged, in the order it was logged. -/
namespace AsyncWalDb

open Interleaving KeyedWrites

def SameTxOrder (o c : Item) : Prop := o.owner = c.owner ∧ o.stamp < c.stamp

instance (o c : Item) : Decidable (SameTxOrder o c) := by
  unfold SameTxOrder
  infer_instance

variable {crates : Crates} {σ : SystemConfig} {first : UInt64} {i k : Nat} {call : Option WalCall}
  {tx : Transaction} {stage : TxStage}

theorem own_sorted (ok : FramesOrdered crates SameTxOrder (logView σ)) :
    ((begun σ.shared.wal).filter fun it => it.owner = i).Pairwise fun a b => a.stamp < b.stamp := by
  have ordered : (begun σ.shared.wal).Pairwise fun a b => a.owner = b.owner →
      a.stamp < b.stamp := by
    rw [List.pairwise_iff_getElem]
    intro p q hp hq before same
    by_contra late
    -- the later item would have to be begun before the earlier one, and it is begun once
    have distinct : (begun σ.shared.wal)[q].stamp ≠ (begun σ.shared.wal)[p].stamp := by
      intro stamps
      have one := ok.placed.stamp_inj (ok.pushed (List.getElem_mem hq))
        (ok.pushed (List.getElem_mem hp)) stamps
      exact absurd ((ok.nodup.getElem_inj_iff).mp one) (by omega)
    have split : begun σ.shared.wal = (begun σ.shared.wal).take p ++ (begun σ.shared.wal)[p] ::
        (begun σ.shared.wal).drop (p + 1) := by
      rw [List.getElem_cons_drop, List.take_append_drop]
    have early := ok.behind _ _ _ split _ (ok.pushed (List.getElem_mem hq)) ⟨same.symm, by omega⟩
    obtain ⟨r, hr, value⟩ := List.mem_take_iff_getElem.mp (early.resolve_left (by simp))
    exact absurd ((ok.nodup.getElem_inj_iff).mp value) (by omega)
  refine (ordered.filter _).imp_of_mem fun {a b} ha hb imp => imp ?_
  have own : a.owner = i := by simpa using (List.mem_filter.mp ha).2
  have own' : b.owner = i := by simpa using (List.mem_filter.mp hb).2
  rw [own, own']

theorem own_whole (ok : FramesOrdered crates SameTxOrder (logView σ))
    (all : ownItems σ.shared.wal i ⊆ (begun σ.shared.wal).take k) :
    (((begun σ.shared.wal).take k).filter fun it => it.owner = i) = ownItems σ.shared.wal i := by
  have perm := ok.own_perm all
  have sorted :=
    (own_sorted (i := i) ok).sublist ((List.take_sublist k (begun σ.shared.wal)).filter _)
  have sorted' : (ownItems σ.shared.wal i).Pairwise fun a b => a.stamp < b.stamp :=
    ok.placed.sorted.filter _
  exact perm.eq_of_pairwise (fun a b _ _ lt gt => absurd lt (lt_asymm gt)) sorted sorted'

theorem committed_logged (logs : TxLogs σ) (slot : σ.tasks[i]? = some ⟨call, .transaction tx stage⟩)
    {es : List WalEntry}
    (same : entriesOf tx.id es = logged σ.shared.wal i) : committed es tx.id = true ↔
      i ∈ commitOrder σ.shared.wal := by
  obtain ⟨operations, log, _⟩ := logs.tasks i _ slot
  obtain ⟨ops, ends, shape, only, marker⟩ := txLogged_shape operations log
  have no_marker : ops.filter WalEntry.isMarker = [] := by
    rw [List.filter_eq_nil_iff]
    intro e he
    simp [(only e he).1]
  have no_commit : ∀ e ∈ ops, e.isCommit = false := by
    intro e he
    cases commit : e.isCommit with
    | false => rfl
    | true => rw [← WalEntry.isMarker_of_isCommit commit, (only e he).1]
  rw [committed, lastMarker, same, mem_commitOrder, shape, List.filter_append, no_marker]
  rcases marker with rfl | ⟨now, rfl⟩ | ⟨now, rfl, _⟩
  · simpa using no_commit
  · simpa [WalEntry.isMarker, WalEntry.isCommit] using no_commit
  · simp [WalEntry.isMarker, WalEntry.isCommit]

theorem read_whole (ok : FramesOrdered crates SameTxOrder (logView σ)) (logs : TxLogs σ)
    (ids : TxIds first σ) (slot : σ.tasks[i]? = some ⟨call, .transaction tx stage⟩)
    (all : ownItems σ.shared.wal i ⊆ (begun σ.shared.wal).take k) :
    entriesOf tx.id (((begun σ.shared.wal).take k).map Item.entry) = logged σ.shared.wal i := by
  have pushed : (begun σ.shared.wal).take k ⊆ σ.shared.wal.history := ok.pushed_take k
  have own := entriesOf_owned logs ids slot (List.forall_mem_nil _) pushed
  rw [List.nil_append] at own
  rw [own, own_whole ok all, logged]

theorem read_committed (ok : FramesOrdered crates SameTxOrder (logView σ)) (logs : TxLogs σ)
    (ids : TxIds first σ) (slot : σ.tasks[i]? = some ⟨call, .transaction tx stage⟩)
    (commit : committed (((begun σ.shared.wal).take k).map Item.entry) tx.id = true) :
    entriesOf tx.id (((begun σ.shared.wal).take k).map Item.entry) = logged σ.shared.wal i := by
  obtain ⟨e, he, id, isCommit⟩ := committed_mem commit
  obtain ⟨c, front, rfl⟩ := List.mem_map.mp he
  have pushed := ok.pushed_take k front
  have own : c.owner = i := (owner_of_txId logs ids slot pushed).mp id
  have mine : c ∈ ownItems σ.shared.wal i := List.mem_filter.mpr ⟨pushed, by simpa using own⟩
  obtain ⟨_, last⟩ := commit_last logs ok.placed.sorted slot mine isCommit
  refine read_whole ok logs ids slot (ok.own_subset front (List.filter_subset_self _)
    fun o ho ne => ⟨?_, last o ho ne⟩)
  have own' : o.owner = i := by simpa using (List.mem_filter.mp ho).2
  rw [own, own']

theorem read_history (logs : TxLogs σ) (ids : TxIds first σ)
    (slot : σ.tasks[i]? = some ⟨call, .transaction tx stage⟩) :
    entriesOf tx.id (σ.shared.wal.history.map Item.entry) = logged σ.shared.wal i := by
  have own := entriesOf_owned logs ids slot (List.forall_mem_nil _) (List.Subset.refl _)
  rw [List.nil_append] at own
  exact own

theorem transaction_of_id (logs : TxLogs σ) {its : List Item} (pushed : its ⊆ σ.shared.wal.history)
    {id : UInt64} (commit : committed (its.map Item.entry) id = true) :
    ∃ (i : Nat) (call : Option WalCall) (tx : Transaction) (stage : TxStage),
      σ.tasks[i]? = some ⟨call, .transaction tx stage⟩ ∧ tx.id = id := by
  obtain ⟨e, he, own, _⟩ := committed_mem commit
  obtain ⟨it, hit, rfl⟩ := List.mem_map.mp he
  obtain ⟨call, tx, stage, slot, same⟩ := pushed_by logs (pushed hit)
  exact ⟨it.owner, call, tx, stage, slot, same.symm.trans own⟩

theorem replay_read (ok : FramesOrdered crates SameTxOrder (logView σ)) (logs : TxLogs σ)
    (ids : TxIds first σ)
    (all : ∀ i ∈ commitOrder σ.shared.wal, ownItems σ.shared.wal i ⊆ (begun σ.shared.wal).take k) :
    replayWrites (((begun σ.shared.wal).take k).map Item.entry) =
      replayWrites (σ.shared.wal.history.map Item.entry) := by
  have pushed : (begun σ.shared.wal).take k ⊆ σ.shared.wal.history := ok.pushed_take k
  have there : ∀ id, committed (σ.shared.wal.history.map Item.entry) id = true →
      entriesOf id (((begun σ.shared.wal).take k).map Item.entry) =
        entriesOf id (σ.shared.wal.history.map Item.entry) := by
    intro id commit
    obtain ⟨i, call, tx, stage, slot, rfl⟩ := transaction_of_id logs (List.Subset.refl _) commit
    have same := read_history logs ids slot
    rw [read_whole ok logs ids slot (all i ((committed_logged logs slot same).mp commit)), same]
  have back : ∀ id, committed (((begun σ.shared.wal).take k).map Item.entry) id = true →
      entriesOf id (((begun σ.shared.wal).take k).map Item.entry) =
        entriesOf id (σ.shared.wal.history.map Item.entry) := by
    intro id commit
    obtain ⟨i, call, tx, stage, slot, rfl⟩ := transaction_of_id logs pushed commit
    rw [read_committed ok logs ids slot commit, read_history logs ids slot]
  refine replayWrites_congr (fun id => ?_) fun id commit => writesOf_congr (back id commit)
  rw [Bool.eq_iff_iff]
  constructor
  · intro commit
    rwa [← committed_congr (back id commit)]
  · intro commit
    rwa [committed_congr (there id commit)]

end AsyncWalDb
