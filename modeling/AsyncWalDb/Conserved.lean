import AsyncWalDb.Bincode
import AsyncWalDb.CrashImage

/-! Between append and file no entry is lost or written twice: the queue, the unwritten part of
every batch and the frames of the file are disjoint and together hold what was pushed. -/
namespace AsyncWalDb

open Interleaving

def Piece.completes : Piece → Option Item
  | .header _ => none
  | .payload it => some it

/-- The items whose frame is complete, in file order. -/
def written (w : Wal) : List Item := w.stream.filterMap Piece.completes

def DrainPc.unwritten : DrainPc → List Item
  | .pop batch | .lock batch => batch
  | .write _ rest _ => rest
  | .sync _ | .sub _ | .wake => []

def unwrittenBy : Option WalCall → List Item
  | some (.drain _ pc) => pc.unwritten
  | _ => []

def draining : Option WalCall → Bool
  | some (.drain _ _) => true
  | _ => false

/-- Every pushed entry is once in the queue, in the unwritten part of a batch or in the file,
batches keep the order of the queue, and at rest the file holds all pushed entries in some order. -/
structure Conserved (crates : Crates) (σ : WalConfig) : Prop where
  once : σ.shared.history.Nodup
  union : (σ.shared.pending : Multiset Item) + σ.total (fun t => (unwrittenBy t : Multiset Item)) +
    (written σ.shared : Multiset Item) = (σ.shared.history : Multiset Item)
  batches : ∀ (j : Nat) (t : Option WalCall), σ.tasks[j]? = some t →
    List.Sublist (heldBy t) σ.shared.history
  rest : σ.shared.pending = [] → (∀ t ∈ σ.tasks, draining t = false) →
    (readLog crates (streamBytes crates σ.shared.stream)).items.Perm
      (σ.shared.history.map Item.entry)

variable {crates : Crates} {m i : Nat} {w w' : Wal} {c : WalCall} {t : Option WalCall}
  {σ σ' : WalConfig} {a : WalAction}

theorem written_append (w : Wal) (p : Piece) :
    written { w with stream := w.stream ++ [p] } = written w ++ p.completes.toList := by
  cases p <;> simp [written, Piece.completes]

theorem runs_unwritten (h : Runs crates i w c w' t) :
    (w'.pending : Multiset Item) + (unwrittenBy t : Multiset Item) + (written w' : Multiset Item) +
      (w.history : Multiset Item) =
      (w.pending : Multiset Item) + (unwrittenBy (some c) : Multiset Item) +
        (written w : Multiset Item) + (w'.history : Multiset Item) := by
  cases h with
  | push =>
    simp only [unwrittenBy, written, ← Multiset.coe_add]
    abel
  | @pop caller batch it rest front =>
    have cons : (w.pending : Multiset Item) = ([it] : List Item) + (rest : Multiset Item) := by
      rw [front]; rfl
    simp only [unwrittenBy, DrainPc.unwritten, written, ← Multiset.coe_add, cons]
    abel
  | @header caller done it rest fits =>
    rw [written_append]
    simp [unwrittenBy, DrainPc.unwritten, Piece.completes]
  | @payload caller done it rest =>
    have cons : ((it :: rest : List Item) : Multiset Item) = ([it] : List Item) +
      (rest : Multiset Item) := rfl
    simp only [written_append, unwrittenBy, DrainPc.unwritten, Piece.completes, Option.toList,
      ← Multiset.coe_add, cons]
    abel
  | wait | reserve | appended | poll | force | drained | empty | popped | lock | flush | sync
  | sub | wake => rfl

theorem unwritten_fresh (h : Fresh w t) : unwrittenBy t = [] := by
  cases h <;> rfl

theorem runs_batch (h : Runs crates i w c w' t)
    (sorted : (heldBy (some c)).Pairwise fun a b => a.stamp < b.stamp)
    (queued : ∀ b ∈ unbegunBy (some c), ∀ p ∈ w.pending, b.stamp < p.stamp) :
    (heldBy t).Pairwise fun a b => a.stamp < b.stamp := by
  cases h with
  | @pop caller batch it rest front =>
    refine List.pairwise_append.mpr ⟨sorted, List.pairwise_singleton _ _, fun b hb p hp => ?_⟩
    cases List.mem_singleton.mp hp
    exact queued b hb it (front ▸ List.mem_cons_self)
  | payload => simpa [heldBy, DrainPc.batch] using sorted
  | flush => simpa [heldBy, DrainPc.batch] using sorted
  | popped | lock | header | sync => exact sorted
  | wait | reserve | push | appended | poll | force | drained | empty | sub | wake =>
    exact List.Pairwise.nil

theorem runs_batch_pushed (h : Runs crates i w c w' t) (queue : w.pending ⊆ w.history)
    (held : heldBy (some c) ⊆ w.history) : heldBy t ⊆ w'.history := by
  cases h with
  | @pop caller batch it rest front =>
    refine List.append_subset.mpr ⟨held, fun p hp => ?_⟩
    cases List.mem_singleton.mp hp
    exact queue (front ▸ List.mem_cons_self)
  | payload => simpa [heldBy, DrainPc.batch] using held
  | flush => simpa [heldBy, DrainPc.batch] using held
  | popped | lock | header | sync => exact held
  | wait | reserve | push | appended | poll | force | drained | empty | sub | wake =>
    exact List.nil_subset _

def BatchesOk (σ : WalConfig) : Prop := ∀ (j : Nat) (t : Option WalCall), σ.tasks[j]? = some t →
  (heldBy t).Pairwise (fun a b => a.stamp < b.stamp) ∧ heldBy t ⊆ σ.shared.history

theorem batches_step (placed : Placement σ) (ok : BatchesOk σ) (step : WalStep crates σ a σ') :
    BatchesOk σ' := by
  refine tasks_step ok step (fun t => And.imp_right
    fun held it hit => step_history step (held hit)) ?_ ?_
  · intro t fresh
    have nothing : heldBy t = [] := by cases fresh <;> rfl
    rw [nothing]
    exact ⟨List.Pairwise.nil, List.nil_subset _⟩
  · intro i c t _ slot ⟨sorted, held⟩ runs
    exact ⟨runs_batch runs sorted fun b hb p hp => placed.before_pending slot hb hp,
      runs_batch_pushed runs placed.queue.subset held⟩

theorem unlocked_of_idle (lock : LockOk σ) (idle : ∀ t ∈ σ.tasks, draining t = false) :
    σ.shared.locked = false := by
  rw [Bool.eq_false_iff]
  intro locked
  obtain ⟨j, t, slot, held⟩ := lock.held locked
  have none := idle t (List.mem_of_getElem? slot)
  unfold draining at none
  split at none
  · cases none
  · rename_i other
    cases t with
    | none => cases held
    | some c =>
      cases c with
      | append | flush => cases held
      | drain caller pc => exact other caller pc rfl

theorem unwritten_of_idle (h : draining t = false) : unwrittenBy t = [] := by
  unfold draining at h
  split at h
  · cases h
  · rename_i other
    unfold unwrittenBy
    split
    · exact absurd rfl (other _ _)
    · rfl

theorem written_framesOf (ws : List Item) : (framesOf ws).filterMap Piece.completes = ws := by
  induction ws with
  | nil => rfl
  | cons it ws ih =>
    rw [framesOf, List.flatMap_cons, List.filterMap_append]
    exact congrArg (it :: ·) ih

/-- In every run in which no step fails and no future is dropped. -/
theorem entries_conserved
    (run : (walProtocol crates).Reaches (fun _ a => Faultless a) ⟨Wal.new m, []⟩ σ) :
    Conserved crates σ := by
  have frames : FramesOrdered crates (fun _ _ => False) σ := framesOrdered_faultless run
  have batches : BatchesOk σ := by
    apply run.invariant_with (J := Placement) fun τ earlier =>
      (framesOrdered_faultless earlier).placed
    · intro j t hj
      cases hj
    · intro τ a τ' placed _ ok faultless taken
      exact batches_step placed ok (wal_step_cases taken)
  have union : (σ.shared.pending : Multiset Item) +
    σ.total (fun t => (unwrittenBy t : Multiset Item)) +
      (written σ.shared : Multiset Item) = (σ.shared.history : Multiset Item) := by
    apply run.invariant (I := fun σ => (σ.shared.pending : Multiset Item) +
      σ.total (fun t => (unwrittenBy t : Multiset Item)) + (written σ.shared : Multiset Item) =
        (σ.shared.history : Multiset Item))
    · simp [Config.total, written, Wal.new]
    · intro τ a τ' conserved faultless taken
      exact conserved_step rfl (fun h => by rw [unwritten_fresh h]; rfl) (fun _ _ => rfl)
        runs_unwritten conserved
        (wal_step_cases taken) faultless
  refine ⟨frames.placed.nodup, union, fun j t slot => ?_, fun none_queued idle => ?_⟩
  · obtain ⟨sorted, pushed⟩ := batches j t slot
    have distinct : (heldBy t).Nodup := sorted.imp fun lt same => by
      rw [same] at lt; exact absurd lt (lt_irrefl _)
    have antisymm : Std.Antisymm fun a b : Item => a.stamp < b.stamp :=
      ⟨fun a b lt gt => absurd gt (lt_asymm lt)⟩
    exact List.sublist_of_subperm_of_pairwise (distinct.subperm pushed) sorted frames.placed.sorted
  · obtain ⟨ws, whole⟩ := frames.closed (unlocked_of_idle frames.lock idle)
    have file : written σ.shared = ws := by rw [written, whole, written_framesOf]
    have fits : ∀ e ∈ ws.map Item.entry, crates.Fits e := by
      intro e he
      obtain ⟨it, hit, rfl⟩ := List.mem_map.mp he
      exact frames.fits it (by rw [begun, whole, begins_framesOf]; exact hit)
    have none_held : σ.total (fun t => (unwrittenBy t : Multiset Item)) = 0 :=
      total_idle _ fun t ht => congrArg _ (unwritten_of_idle (idle t ht))
    rw [none_queued, none_held, file] at union
    rw [whole, streamBytes_framesOf, (ValidLog.of_entries fits).read_all]
    refine List.Perm.map _ (Multiset.coe_eq_coe.mp ?_)
    simpa using union

def betweenDrains : List WalAction :=
  [.spawn (), .spawn (), .spawn (), .move 0 (.append (.insert 1 7 "a" [1]))] ++
    List.replicate 4 (.move 0 (.call .run)) ++
    [.move 2 .drain] ++ List.replicate 4 (.move 2 (.call .run)) ++
      [.move 1 (.append (.commit 1 7))] ++
    List.replicate 4 (.move 1 (.call .run))

theorem entries_conserved_betweenDrains : Conserved (Bincode.crates true)
    (((walProtocol (Bincode.crates true)).exec (fun _ a => Faultless a) ⟨Wal.new 10,
      []⟩ betweenDrains).get (by decide +kernel)) :=
  entries_conserved (Protocol.reaches_exec betweenDrains (by decide +kernel))

end AsyncWalDb
