import AsyncWalDb.Bincode
import AsyncWalDb.Recovery

/-! Recovery key by key. Of the operations on a key that belong to committed transactions the one
that is greatest by id, and then by position in the file, decides; the order in which a hash map
hands out the transactions has no part in it. -/
namespace AsyncWalDb

open KeyedWrites

def WalEntry.outcome : WalEntry → Option Bytes
  | insert _ _ _ value => some value
  | update _ _ _ _ newValue => some newValue
  | delete _ _ _ _ => none
  | commit _ _ | abort _ _ => none

/-- At this position stands an operation on the key, and its
transaction's last marker is a Commit. -/
structure WritesAt (es : List WalEntry) (key : String) (i : ℕ) (e : WalEntry) : Prop where
  here : es[i]? = some e
  writes : e.write? = some ⟨key, e.outcome⟩
  committed : committed es e.txId = true

/-- No other one is greater by transaction id and position. -/
def Decides (es : List WalEntry) (key : String) (i : ℕ) (e : WalEntry) : Prop :=
  WritesAt es key i e ∧ ∀ j f, WritesAt es key j f → f.txId < e.txId ∨ (f.txId = e.txId ∧ j ≤ i)

/-- Every key holds the outcome of the operation that decides it. Where none decides there is none
on the key, and the old value stays. -/
structure LastWriterWins (es : List WalEntry) (before after : Store) : Prop where
  decided : ∀ key i e, Decides es key i e → after key = e.outcome
  untouched : ∀ key, (¬ ∃ i e, Decides es key i e) → (∀ i e, ¬ WritesAt es key i e) ∧
    after key = before key

/-- `committed_tx_ids`, when the map of the actions is iterated in this order. -/
def sortedCommits (actions : List (Σ _ : UInt64, RecoveryAction)) : List UInt64 :=
  ((actions.filter fun p => p.2 = .commit).map Sigma.fst).insertionSort (· ≤ ·)

variable {es : List WalEntry} {key : String}

theorem WalEntry.write?_eq_some {e : WalEntry} {w : Write String Bytes} (h : e.write? = some w) :
    w.value = e.outcome := by
  cases e <;> cases h <;> rfl

theorem writesAt_of_write {w : Write String Bytes} {i : ℕ} {e : WalEntry} (here : es[i]? = some e)
    (write : e.write? = some w) (done : committed es e.txId = true) : WritesAt es w.key i e :=
  ⟨here, by rw [write, ← WalEntry.write?_eq_some write], done⟩

theorem WritesAt.mem {i : ℕ} {e : WalEntry} (h : WritesAt es key i e) :
    ⟨key, e.outcome⟩ ∈ writesOf e.txId es :=
  List.mem_filterMap.mpr ⟨e, mem_entriesOf.mpr ⟨List.mem_of_getElem? h.here, rfl⟩, h.writes⟩

theorem lastOn_writesOf {id : UInt64} {v : Option Bytes} :
    lastOn key (writesOf id es) = some v ↔ ∃ (i : ℕ) (e : WalEntry), es[i]? = some e ∧
      (e.txId = id ∧ e.write? = some ⟨key, v⟩) ∧
      ∀ (j : ℕ) (f : WalEntry), i < j → es[j]? = some f → f.txId = id → ∀ w, f.write? = some w →
        w.key ≠ key := by
  have split : writesOf id es = es.filterMap fun e => if e.txId = id then e.write? else none := by
    simp [writesOf, entriesOf, List.filterMap_filter]
  rw [split, lastOn_filterMap]
  simp only [Option.ite_none_right_eq_some, and_imp]
  refine exists_congr fun i => exists_congr fun e => and_congr_right fun _ =>
    and_congr_right fun _ => ?_
  exact forall_congr' fun j => forall_congr' fun f => forall_congr' fun _ => forall_congr' fun _ =>
    forall_comm

theorem lastOn_replay_iff {v : Option Bytes} :
    lastOn key (replayWrites es) = some v ↔ ∃ i e, Decides es key i e ∧ e.outcome = v := by
  constructor
  · intro last
    obtain ⟨id, done, writes, quiet⟩ := lastOn_replayWrites.mp last
    obtain ⟨i, e, here, ⟨rfl, write⟩, later⟩ := lastOn_writesOf.mp writes
    have value : v = e.outcome := WalEntry.write?_eq_some write
    refine ⟨i, e, ⟨⟨here, value ▸ write, done⟩, fun j f other => ?_⟩, value.symm⟩
    rcases lt_trichotomy f.txId e.txId with below | own | above
    · exact .inl below
    · refine .inr ⟨own, Nat.le_of_not_lt fun after => ?_⟩
      exact later j f after other.here own _ other.writes rfl
    · exact absurd rfl (lastOn_eq_none.mp (quiet f.txId above other.committed) _ other.mem)
  · rintro ⟨i, e, ⟨at_i, greatest⟩, rfl⟩
    refine lastOn_replayWrites.mpr ⟨e.txId, at_i.committed, lastOn_writesOf.mpr ⟨i, e, at_i.here,
      ⟨rfl, at_i.writes⟩, ?_⟩, ?_⟩
    · rintro j f after here own w write rfl
      have other : WritesAt es w.key j f :=
        writesAt_of_write here write (by rw [own]; exact at_i.committed)
      rcases greatest j f other with below | ⟨_, le⟩
      · exact absurd own (ne_of_lt below)
      · omega
    · intro id above done
      rw [lastOn_eq_none]
      rintro w mem rfl
      obtain ⟨f, hf, write⟩ := List.mem_filterMap.mp mem
      obtain ⟨inside, rfl⟩ := mem_entriesOf.mp hf
      obtain ⟨j, here⟩ := List.mem_iff_getElem?.mp inside
      rcases greatest j f (writesAt_of_write here write done) with below | ⟨own, _⟩
      · exact absurd above (lt_asymm below)
      · exact absurd own (ne_of_gt above)

theorem lastWriterWins_replay (es : List WalEntry) (store : Store) :
    LastWriterWins es store (applyAll store (replayWrites es)) := by
  constructor
  · intro key i e decides
    rw [applyAll_at, lastOn_replay_iff.mpr ⟨i, e, decides, rfl⟩]
    rfl
  · intro key undecided
    have unwritten : lastOn key (replayWrites es) = none := by
      cases last : lastOn key (replayWrites es) with
      | none => rfl
      | some v =>
        obtain ⟨i, e, decides, _⟩ := lastOn_replay_iff.mp last
        exact absurd ⟨i, e, decides⟩ undecided
    refine ⟨fun i e writes => ?_, by rw [applyAll_at, unwritten]; rfl⟩
    have mem : (⟨key, e.outcome⟩ : Write String Bytes) ∈ replayWrites es :=
      List.mem_flatMap.mpr ⟨e.txId, mem_committedIds.mpr writes.committed, writes.mem⟩
    exact lastOn_eq_none.mp unwritten _ mem rfl

theorem sortedCommits_perm {order actions : List (Σ _ : UInt64, RecoveryAction)}
    (perm : order.Perm actions) : sortedCommits order = sortedCommits actions := by
  have same := ((perm.filter fun p => p.2 = .commit).map Sigma.fst)
  have sorted := ((List.perm_insertionSort (· ≤ ·) _).trans same).trans
    (List.perm_insertionSort (· ≤ ·) _).symm
  exact sorted.eq_of_pairwise (fun a b _ _ hab hba => le_antisymm hab hba)
    (List.pairwise_insertionSort _ _)
    (List.pairwise_insertionSort _ _)

/-- Recovery of any log is last writer wins, in whatever order its hash maps are iterated. -/
theorem last_writer_wins {crates : Crates} {bytes : Bytes} (mem : Memory)
    (readable : (readLog crates bytes).exit ≠ .capacityOverflow) :
    LastWriterWins (readLog crates bytes).items mem.store (recoverWithValidation crates
      (some bytes) mem).2.store ∧
      ∀ order, order.Perm ((readLog crates bytes).items.foldl track .empty).txActions.entries →
        replay ((readLog crates bytes).items.foldl track .empty).txEntries
          (sortedCommits order) mem.store =
          (recoverWithValidation crates (some bytes) mem).2.store := by
  have t := tracks_scan (readLog crates bytes).items
  rw [recover_store mem readable]
  refine ⟨lastWriterWins_replay _ _, fun order perm => ?_⟩
  have ids : sortedCommits order = committedIds (readLog crates bytes).items :=
    (sortedCommits_perm perm).trans t.committedTxIds_eq
  rw [ids, t.replay_eq]
  rfl

def mixedLog : Bytes :=
  ([.insert 2 7 "k" [2], .insert 1 7 "k" [1], .delete 3 7 "k" [], .abort 2 8, .commit 2 8,
    .update 2 8 "k" [2] [4],
    .commit 1 9] : List WalEntry).flatMap (frame (Bincode.crates true))

theorem last_writer_wins_mixedLog :
    LastWriterWins (readLog (Bincode.crates true) mixedLog).items (fun _ => none)
        (recoverWithValidation (Bincode.crates true) (some mixedLog) ⟨fun _ => none, 1⟩).2.store ∧
      ∀ order, order.Perm ((readLog (Bincode.crates true) mixedLog).items.foldl track
        .empty).txActions.entries →
        replay ((readLog (Bincode.crates true) mixedLog).items.foldl track .empty).txEntries
          (sortedCommits order)
          (fun _ => none) = (recoverWithValidation (Bincode.crates true) (some mixedLog)
            ⟨fun _ => none, 1⟩).2.store :=
  last_writer_wins ⟨fun _ => none, 1⟩ (by decide +kernel)

end AsyncWalDb
