import AsyncWalDb.CheckpointRace
import AsyncWalDb.Lib.Exclusive

/-! A checkpoint beside everything else. It keeps the write lock of the store from its replay until
its marker is written, so no other task moves the store or the marker in between; and when
checkpoints run one at a time, as the scheduler runs them, one that succeeds is the sequential
`checkpoint` on a front of the file, at the moment it takes the lock. -/
namespace AsyncWalDb

open Interleaving

/-- From the replay to the end of the marker's write the guard of the store is kept. -/
def Task.holdsStore (t : Task) : Bool :=
  match t.prog with
  | .checkpoint (.openMarker _) | .checkpoint (.writeMarker _ _) => true
  | _ => false

/-- `start_checkpoint_scheduler` awaits each checkpoint before the next one. -/
def OneCheckpoint (σ : SystemConfig) : SystemAction → Prop
  | .spawn .checkpoint => CheckpointIdle σ
  | _ => True

instance (σ : SystemConfig) (a : SystemAction) : Decidable (OneCheckpoint σ a) := by
  unfold OneCheckpoint
  rcases a with (_ | _ | _ | _) | ⟨_, _⟩ <;> infer_instance

def StillRead (crates : Crates) (s : System) : CkptStage → Prop
  | .scan lastCkpt => getLastCheckpoint s.ckpt = .ok lastCkpt ∧ ¬ (lastCkpt = 0 ∧ s.path.isEmpty)
  | .replay lastCkpt found =>
    getLastCheckpoint s.ckpt = .ok lastCkpt ∧ ¬ (lastCkpt = 0 ∧ s.path.isEmpty) ∧
      found.committedTxs.isEmpty = false ∧ ∃ bytes, bytes <+: s.file crates ∧
        checkpointScan crates lastCkpt bytes = .ok found
  | _ => True

def Task.replays (t : Task) : Bool :=
  match t with
  | ⟨none, .checkpoint (.replay _ _)⟩ => true
  | _ => false

/-- The replay of task `i` is the sequential `checkpoint` on these bytes. While the lock is kept
nobody moves the store, and the marker is the old one or a front of the new digits; a return from
there is that of the sequential one. -/
structure RunsAsSequential (crates : Crates) (i : Nat) (σ σ₁ : SystemConfig) (bytes : Bytes)
    (id : UInt64) : Prop where
  front : bytes <+: σ.shared.file crates
  sequential : checkpoint crates ⟨σ.shared.path, some bytes, σ.shared.ckpt⟩ σ.shared.mem.store =
    (.ok id, ⟨σ.shared.path, some bytes, setCheckpoint id σ.shared.ckpt⟩, σ₁.shared.mem.store)
  kept : ∀ n σ₂,
    (systemProtocol crates).Stays OneCheckpoint (fun t => t.holdsStore = true) i σ₁ n σ₂ →
    σ₂.shared.mem.store = σ₁.shared.mem.store ∧
      (σ₂.shared.ckpt = σ.shared.ckpt ∨ ∃ k, σ₂.shared.ckpt = some ((decimal id).take k))
  returned : ∀ n σ₂ c σ₃ result,
    (systemProtocol crates).Stays OneCheckpoint (fun t => t.holdsStore = true) i σ₁ n σ₂ →
    (systemProtocol crates).step σ₂ (.move i c) = some σ₃ →
    σ₃.tasks[i]? = some ⟨none, .checkpoint (.returned result)⟩ →
    result = .ok id ∧ σ₃.shared.ckpt = setCheckpoint id σ.shared.ckpt ∧
      σ₃.shared.mem.store = σ₁.shared.mem.store

structure CkptAlone (crates : Crates) (σ : SystemConfig) : Prop where
  alone : ∀ (i j : Nat) (t u : Task), σ.tasks[i]? = some t → σ.tasks[j]? = some u →
    t.prog.checkpointing = true → u.prog.checkpointing = true → j = i
  read : ∀ (i : Nat) (call : Option WalCall) (stage : CkptStage),
    σ.tasks[i]? = some ⟨call, .checkpoint stage⟩ →
    StillRead crates σ.shared stage

variable {crates : Crates} {i : Nat} {m : Move} {s s' : System} {t t' : Task} {σ σ' : SystemConfig}
  {a : SystemAction} {guard : SystemConfig → SystemAction → Prop}

section Lock

theorem returned_holds (result : Except WalError Unit) (prog : Prog) (call call' : Option WalCall) :
    Task.holdsStore ⟨call, prog.returned result⟩ = Task.holdsStore ⟨call', prog⟩ := by
  cases prog with
  | transaction tx stage => cases stage <;> cases result <;> rfl
  | flusher stage => cases stage <;> rfl
  | storeHandle | stopFlusher | flushCaller | checkpoint => rfl

theorem dropped_holds (prog : Prog) (call call' : Option WalCall) :
    Task.holdsStore ⟨call, prog.dropped⟩ = Task.holdsStore ⟨call', prog⟩ := by
  cases prog with
  | transaction tx stage => cases stage <;> rfl
  | flusher | storeHandle | stopFlusher | flushCaller | checkpoint => rfl

theorem control_holds {prog : Prog} (control : prog.isControl = true) (call : Option WalCall) :
    Task.holdsStore ⟨call, prog⟩ = false := by
  cases prog with
  | transaction | checkpoint => cases control
  | flusher | storeHandle | stopFlusher | flushCaller => rfl

theorem stage_holds {stage : CkptStage}
    (before : ∀ id k, stage ≠ .openMarker id ∧ stage ≠ .writeMarker id k)
    (call : Option WalCall) : Task.holdsStore ⟨call, .checkpoint stage⟩ = false := by
  cases stage with
  | openMarker id => exact absurd rfl (before id 0).1
  | writeMarker id k => exact absurd rfl (before id k).2
  | start | scan | replay | returned | interrupted => rfl

theorem ckptRuns_lock {stage stage' : CkptStage} (runs : CkptRuns crates s stage s' stage')
    (held : Task.holdsStore ⟨none, .checkpoint stage⟩ = true → s.storeLocked = true) :
    LockMove System.storeLocked Task.holdsStore s ⟨none, .checkpoint stage⟩ s'
      ⟨none, .checkpoint stage'⟩ := by
  cases runs with
  | read before after found =>
    exact .keep rfl ((stage_holds after none).trans (stage_holds before none).symm)
  | replay unlocked => simp [LockMove, Task.holdsStore, unlocked]
  | openMarker | writeMarker => exact .keep rfl rfl
  | unlock => simp [LockMove, Task.holdsStore, held rfl]
  | interrupt locking =>
    obtain ⟨id, k, rfl | rfl⟩ := locking
    all_goals simp [LockMove, Task.holdsStore, held rfl]

theorem storeLock_step (ok : Exclusive System.storeLocked Task.holdsStore σ)
    (step : SystemStep crates σ a σ') : Exclusive System.storeLocked Task.holdsStore σ' := by
  cases step with
  | begin => exact exclusive_spawn ok rfl rfl
  | spawn other =>
    refine exclusive_spawn ok rfl ?_
    rcases other with control | ⟨_, rfl⟩
    · exact control_holds control none
    · rfl
  | @call i c prog w call slot runs =>
    refine exclusive_move ok slot (.keep rfl ?_)
    cases call with
    | some c' => rfl
    | none => exact returned_holds (.ok ()) prog none (some c)
  | @fault i c k prog prog' slot fallible stops after =>
    refine exclusive_move ok slot (.keep rfl ?_)
    rcases after with rfl | ⟨e, rfl⟩
    · exact dropped_holds prog none (some c)
    · exact returned_holds (.error e) prog none (some c)
  | @own i m prog s' t' slot other runs =>
    refine exclusive_move ok slot ?_
    cases runs with
    | control shutdown handle exited before after log appends =>
      exact .keep rfl ((control_holds after _).trans (control_holds before none).symm)
    | ckpt moved =>
      obtain ⟨stage', rfl, ran⟩ := ckptMove_runs moved
      exact ckptRuns_lock ran (ok.locked_of_holds slot)
    | refused | append | commit | abort | notActive | discard | commitFlush | abortFlush | done
    | apply | applyFails | cancel =>
      exact .keep rfl rfl

theorem storeLock_start {m : Nat} {path : String} {base : Bytes} {ckpt : Option (List Char)}
    {mem : Memory} :
    Exclusive System.storeLocked Task.holdsStore (System.start m path base ckpt mem) := rfl

theorem store_locked (step : SystemStep crates σ a σ') (locked : σ.shared.storeLocked = true) :
    σ'.shared.mem.store = σ.shared.mem.store := by
  cases step with
  | begin | spawn | call | fault => rfl
  | own slot other runs =>
    cases runs with
    | apply unlocked applied => rw [unlocked] at locked; contradiction
    | ckpt moved =>
      obtain ⟨stage', rfl, ran⟩ := ckptMove_runs moved
      cases ran with
      | replay unlocked => rw [unlocked] at locked; contradiction
      | read | openMarker | writeMarker | unlock | interrupt => rfl
    | refused | append | commit | abort | notActive | discard | commitFlush | abortFlush | done
    | applyFails | cancel
    | control => rfl

theorem marker_moves (step : SystemStep crates σ a σ') : σ'.shared.ckpt = σ.shared.ckpt ∨
    ∃ (i : Nat) (m : Move) (t : Task), a = .move i m ∧ σ.tasks[i]? = some t ∧
      t.holdsStore = true := by
  cases step with
  | begin | spawn | call | fault => exact .inl rfl
  | own slot other runs =>
    cases runs with
    | ckpt moved =>
      obtain ⟨stage', rfl, ran⟩ := ckptMove_runs moved
      cases ran with
      | openMarker | writeMarker => exact .inr ⟨_, _, _, rfl, slot, rfl⟩
      | read | replay | unlock | interrupt => exact .inl rfl
    | refused | append | commit | abort | notActive | discard | commitFlush | abortFlush | done
    | apply | applyFails | cancel
    | control => exact .inl rfl

end Lock

section Reading

theorem file_step (step : SystemStep crates σ a σ') :
    σ.shared.file crates <+: σ'.shared.file crates := by
  have grows : σ.shared.wal.stream <+: σ'.shared.wal.stream := by
    cases step with
    | begin | spawn => exact List.prefix_refl _
    | call slot runs => exact runs_stream_prefix runs
    | fault slot fallible =>
      rw [release_eq]
      split <;> exact List.prefix_refl _
    | own slot other runs => exact (logMove_stream runs.log) ▸ List.prefix_refl _
  obtain ⟨more, same⟩ := grows
  rw [System.file, System.file, step.base, ← same, streamBytes_append, ← List.append_assoc]
  exact List.prefix_append _ _

theorem path_step (step : SystemStep crates σ a σ') : σ'.shared.path = σ.shared.path := by
  cases step with
  | begin | spawn | call | fault => rfl
  | own slot other runs =>
    cases runs with
    | ckpt moved =>
      obtain ⟨stage', rfl, runs⟩ := ckptMove_runs moved
      cases runs <;> rfl
    | refused | append | commit | abort | notActive | discard | commitFlush | abortFlush | done
    | apply | applyFails | cancel
    | control => rfl

theorem StillRead.mono {stage : CkptStage} (still : StillRead crates s stage)
    (ckpt : s'.ckpt = s.ckpt) (path : s'.path = s.path) (grows : s.file crates <+: s'.file crates) :
    StillRead crates s' stage := by
  cases stage with
  | scan lastCkpt => simpa only [StillRead, ckpt, path] using still
  | replay lastCkpt found =>
    obtain ⟨marker, named, some_new, bytes, front, scanned⟩ := still
    exact ⟨by rw [ckpt]; exact marker, by rw [path]; exact named, some_new, bytes,
      front.trans grows, scanned⟩
  | start | openMarker | writeMarker | returned | interrupted => trivial

theorem ckptMove_stillRead {stage : CkptStage} (moved : ckptMove crates m s stage = some (s', t'))
    (still : StillRead crates s stage) : ∃ stage', t' = ⟨none, .checkpoint stage'⟩ ∧
      StillRead crates s' stage' := by
  unfold ckptMove at moved
  split at moved
  · split at moved
    · cases moved; exact ⟨_, rfl, trivial⟩
    · rename_i lastCkpt marker
      split at moved
      · cases moved; exact ⟨_, rfl, trivial⟩
      · rename_i named
        cases moved; exact ⟨_, rfl, marker, named⟩
  · rename_i lastCkpt n
    split at moved
    · contradiction
    · split at moved
      · cases moved; exact ⟨_, rfl, trivial⟩
      · cases moved; exact ⟨_, rfl, trivial⟩
      · rename_i found scanned
        split at moved
        · cases moved; exact ⟨_, rfl, trivial⟩
        · rename_i some_new
          cases moved
          exact ⟨_, rfl, still.1, still.2, by simpa using some_new, _,
            List.take_prefix _ _, scanned⟩
  · split at moved <;> cases moved
    exact ⟨_, rfl, trivial⟩
  · cases moved; exact ⟨_, rfl, trivial⟩
  · split at moved <;> (cases moved; exact ⟨_, rfl, trivial⟩)
  all_goals first | (cases moved; exact ⟨_, rfl, trivial⟩) | contradiction

theorem ckptMove_busy {stage : CkptStage} (moved : ckptMove crates m s stage = some (s', t')) :
    Prog.checkpointing (.checkpoint stage) = true := by
  cases stage with
  | start | scan | replay | openMarker | writeMarker => rfl
  | returned | interrupted => cases m <;> cases moved

theorem returned_checkpointing (result : Except WalError Unit) (prog : Prog) :
    (prog.returned result).checkpointing = prog.checkpointing := by
  cases prog with
  | transaction tx stage => cases stage <;> cases result <;> rfl
  | flusher stage => cases stage <;> rfl
  | storeHandle | stopFlusher | flushCaller | checkpoint => rfl

theorem dropped_checkpointing (prog : Prog) : prog.dropped.checkpointing = prog.checkpointing := by
  cases prog with
  | transaction tx stage => cases stage <;> rfl
  | flusher | storeHandle | stopFlusher | flushCaller | checkpoint => rfl

theorem control_checkpointing {prog : Prog} (control : prog.isControl = true) :
    prog.checkpointing = false := by
  cases prog with
  | transaction | checkpoint => cases control
  | flusher | storeHandle | stopFlusher | flushCaller => rfl

theorem fault_checkpoint {prog prog' : Prog} {stage : CkptStage}
    (after : prog' = prog.dropped ∨ ∃ e, prog' = prog.returned (.error e))
    (same : prog' = .checkpoint stage) : prog = .checkpoint stage := by
  cases prog with
  | transaction tx stage => rcases after with rfl | ⟨e, rfl⟩ <;> cases stage <;> cases same
  | flusher stage => rcases after with rfl | ⟨e, rfl⟩ <;> cases stage <;> cases same
  | storeHandle | stopFlusher | flushCaller | checkpoint =>
    rcases after with rfl | ⟨e, rfl⟩ <;> exact same

theorem ckptAlone_set (ok : CkptAlone crates σ) (slot : σ.tasks[i]? = some t)
    (stays : t'.prog.checkpointing = true → t.prog.checkpointing = true)
    (own : ∀ stage, t'.prog = .checkpoint stage → StillRead crates s' stage)
    (others : ∀ stage, t.prog.checkpointing = false → StillRead crates σ.shared stage →
      StillRead crates s' stage) : CkptAlone crates ⟨s', σ.tasks.set i t'⟩ := by
  have idle : ∀ (j : Nat) (u : Task), j ≠ i → σ.tasks[j]? = some u → t.prog.checkpointing = true →
      u.prog.checkpointing = false := by
    intro j u other at_j checkpointing
    by_contra busy
    exact other (ok.alone i j t u slot at_j checkpointing (by simpa using busy))
  refine ⟨fun j k u v at_j at_k busy busy' => ?_, fun j call stage at_j => ?_⟩
  · rcases getElem?_set_cases at_j with ⟨rfl, rfl, _⟩ | ⟨apart, old⟩
    · rcases getElem?_set_cases at_k with ⟨same, _, _⟩ | ⟨apart', old'⟩
      · exact same
      · rw [idle k v apart' old' (stays busy)] at busy'
        cases busy'
    · rcases getElem?_set_cases at_k with ⟨rfl, rfl, _⟩ | ⟨_, old'⟩
      · rw [idle j u apart old (stays busy')] at busy
        cases busy
      · exact ok.alone j k u v old old' busy busy'
  · rcases getElem?_set_cases at_j with ⟨_, same, _⟩ | ⟨apart, old⟩
    · exact own stage (by rw [← same])
    · by_cases checkpointing : t.prog.checkpointing = true
      · have quiet := idle j _ apart old checkpointing
        cases stage with
        | returned | interrupted => trivial
        | start | scan | replay | openMarker | writeMarker => cases quiet
      · exact others stage (by simpa using checkpointing) (ok.read j call stage old)

theorem ckptAlone_spawn (ok : CkptAlone crates σ)
    (single : t.prog.checkpointing = true → CheckpointIdle σ)
    (own : ∀ stage, t.prog = .checkpoint stage → StillRead crates s stage)
    (others : ∀ stage, StillRead crates σ.shared stage → StillRead crates s stage) :
    CkptAlone crates ⟨s, σ.tasks ++ [t]⟩ := by
  refine ⟨fun j k u v at_j at_k busy busy' => ?_, fun j call stage at_j => ?_⟩
  · rcases getElem?_append_one at_j with old | ⟨rfl, rfl⟩
    · rcases getElem?_append_one at_k with old' | ⟨_, rfl⟩
      · exact ok.alone j k u v old old' busy busy'
      · rw [single busy' u (List.mem_of_getElem? old)] at busy
        cases busy
    · rcases getElem?_append_one at_k with old' | ⟨rfl, _⟩
      · rw [single busy v (List.mem_of_getElem? old')] at busy'
        cases busy'
      · rfl
  · rcases getElem?_append_one at_j with old | ⟨_, new⟩
    · exact others stage (ok.read j call stage old)
    · exact own stage (by rw [← new])

theorem ckptAlone_step (ok : CkptAlone crates σ) (single : OneCheckpoint σ a)
    (step : SystemStep crates σ a σ') : CkptAlone crates σ' := by
  have grows := file_step step
  have path := path_step step
  cases step with
  | begin =>
    exact ckptAlone_spawn ok (fun busy => by cases busy) (fun _ same => by cases same)
      fun _ still => still.mono rfl rfl grows
  | @spawn k prog other =>
    refine ckptAlone_spawn ok ?_ (fun stage same => ?_) fun _ still => still.mono rfl rfl grows
    · intro busy
      rcases other with control | ⟨rfl, rfl⟩
      · rw [control_checkpointing control] at busy
        cases busy
      · exact single
    · rcases other with control | ⟨_, rfl⟩
      · rw [show prog = .checkpoint stage from same] at control
        cases control
      · cases same
        trivial
  | @call i c prog w call slot runs =>
    have same : (if call.isSome then prog else prog.returned (.ok ())).checkpointing =
        prog.checkpointing := by
      split
      · rfl
      · exact returned_checkpointing _ prog
    refine ckptAlone_set ok slot (fun busy => same ▸ busy) (fun stage own => ?_) fun _ _ still =>
      still.mono rfl rfl grows
    refine (ok.read i (some c) stage ?_).mono rfl rfl grows
    cases call with
    | some c' =>
      have own : prog = .checkpoint stage := own
      rw [slot, own]
    | none => rw [slot, returned_checkpoint own]
  | @fault i c k prog prog' slot fallible stops after =>
    have same : prog'.checkpointing = prog.checkpointing := by
      rcases after with rfl | ⟨e, rfl⟩
      · exact dropped_checkpointing prog
      · exact returned_checkpointing _ prog
    refine ckptAlone_set ok slot (fun busy => same ▸ busy) (fun stage own => ?_) fun _ _ still =>
      still.mono rfl rfl grows
    have own := fault_checkpoint after own
    exact (ok.read i (some c) stage (by rw [slot, own])).mono rfl rfl grows
  | @own i m prog s' t' slot other runs =>
    have keep : t'.prog.checkpointing = false → s'.ckpt = σ.shared.ckpt →
        CkptAlone crates ⟨s', σ.tasks.set i t'⟩ := by
      intro idle marker
      refine ckptAlone_set ok slot (fun busy => ?_) (fun stage same => ?_) fun _ _ still =>
        still.mono marker path grows
      · rw [idle] at busy
        cases busy
      · rw [same] at idle
        cases stage with
        | returned | interrupted => trivial
        | start | scan | replay | openMarker | writeMarker => cases idle
    cases runs with
    | control shutdown handle exited before after log appends =>
      exact keep (control_checkpointing after) rfl
    | @ckpt m stage s' t' moved =>
      obtain ⟨stage', rfl, still⟩ := ckptMove_stillRead moved (ok.read i none stage slot)
      obtain ⟨_, same, ran⟩ := ckptMove_runs moved
      cases same
      have busy := ckptMove_busy moved
      refine ckptAlone_set ok slot (fun _ => busy) (fun _ same => by cases same; exact still)
        fun _ idle _ => ?_
      rw [show Prog.checkpointing (.checkpoint stage) = false from idle] at busy
      cases busy
    | refused | append | commit | abort | notActive | discard | commitFlush | abortFlush | done
    | apply | applyFails | cancel =>
      exact keep rfl rfl

end Reading

section Runs

/-- The task keeps the lock from its replay on; `k` digits of this marker are in the file. -/
inductive Writing (i : Nat) (id : UInt64) (before : Option (List Char)) (σ : SystemConfig) :
    Prop where
  | opening (slot : σ.tasks[i]? = some ⟨none, .checkpoint (.openMarker id)⟩)
    (marker : σ.shared.ckpt = before)
  | writing {k : Nat} (slot : σ.tasks[i]? = some ⟨none, .checkpoint (.writeMarker id k)⟩)
    (marker : σ.shared.ckpt = some ((decimal id).take k))

variable {id lastCkpt : UInt64} {found : CkptScan} {before : Option (List Char)} {store : Store}

theorem Writing.holds (writing : Writing i id before σ) : ∃ t, σ.tasks[i]? = some t ∧
    t.holdsStore = true := by
  cases writing with
  | opening slot | writing slot => exact ⟨_, slot, rfl⟩

theorem writing_other (lock : Exclusive System.storeLocked Task.holdsStore σ)
    (writing : Writing i id before σ)
    (others : ∀ c, a ≠ .move i c) (taken : (systemProtocol crates).step σ a = some σ') :
    Writing i id before σ' ∧ σ'.shared.mem.store = σ.shared.mem.store := by
  have step := system_step_cases taken
  obtain ⟨t, slot, held⟩ := writing.holds
  refine ⟨?_, store_locked step (lock.locked_of_holds slot held)⟩
  have same : σ'.shared.ckpt = σ.shared.ckpt := by
    rcases marker_moves step with same | ⟨j, m, u, rfl, at_j, held'⟩
    · exact same
    · rw [lock.alone slot at_j held held'] at others
      exact absurd rfl (others m)
  cases writing with
  | opening slot marker =>
    exact .opening (Protocol.step_other taken others slot) (same.trans marker)
  | writing slot marker =>
    exact .writing (Protocol.step_other taken others slot) (same.trans marker)

theorem writing_own (writing : Writing i id before σ)
    (taken : (systemProtocol crates).step σ (.move i m) = some σ') :
    σ'.shared.mem.store = σ.shared.mem.store ∧ (Writing i id before σ' ∨
      (σ'.tasks[i]? = some ⟨none, .checkpoint (.returned (.ok id))⟩ ∧
        σ'.shared.ckpt = setCheckpoint id before) ∨
      (σ'.tasks[i]? = some ⟨none, .checkpoint .interrupted⟩ ∧ σ'.shared.ckpt = σ.shared.ckpt)) := by
  obtain ⟨t, s, t', slot, moved, rfl⟩ := Protocol.step_move taken
  have bound := (List.getElem?_eq_some_iff.mp slot).1
  have here : (σ.tasks.set i t')[i]? = some t' := by simp [bound]
  cases writing with
  | opening slot' marker =>
    cases Option.some.inj (slot.symm.trans slot')
    cases m with
    | proceed => cases moved; exact ⟨rfl, .inl (.writing here rfl)⟩
    | interrupt => cases moved; exact ⟨rfl, .inr (.inr ⟨here, rfl⟩)⟩
    | call | notified | appendOp | commit | abort | discard | flush | see => cases moved
  | @writing k slot' marker =>
    cases Option.some.inj (slot.symm.trans slot')
    cases m with
    | proceed =>
      simp only [systemProtocol, ownMove, ckptMove] at moved
      split at moved
      · cases moved
        exact ⟨rfl, .inl (.writing here (marker ▸ writeDigits_next id k))⟩
      · rename_i written
        cases moved
        refine ⟨rfl, .inr (.inl ⟨here, ?_⟩)⟩
        rw [setCheckpoint_eq]
        change σ.shared.ckpt = _
        rw [marker, List.take_of_length_le (Nat.le_of_not_lt written)]
    | interrupt => cases moved; exact ⟨rfl, .inr (.inr ⟨here, rfl⟩)⟩
    | call | notified | appendOp | commit | abort | discard | flush | see => cases moved

theorem stillRead_sequential (still : StillRead crates s (.replay lastCkpt found)) :
    ∃ bytes, bytes <+: s.file crates ∧ checkpoint crates ⟨s.path, some bytes, s.ckpt⟩ s.mem.store =
      (.ok (maxCkpt lastCkpt found), ⟨s.path, some bytes,
        setCheckpoint (maxCkpt lastCkpt found) s.ckpt⟩,
        checkpointReplay lastCkpt found s.mem.store) := by
  obtain ⟨marker, named, some_new, bytes, front, scanned⟩ := still
  refine ⟨bytes, front, ?_⟩
  simp only [checkpoint, marker, if_neg named, scanned, some_new, Bool.false_eq_true, if_false]

variable {m : Nat} {path : String} {base : Bytes} {ckpt : Option (List Char)} {mem : Memory}

theorem storeLock_run
    (run : (systemProtocol crates).Reaches guard (System.start m path base ckpt mem) σ) :
    Exclusive System.storeLocked Task.holdsStore σ := by
  apply run.invariant (I := Exclusive System.storeLocked Task.holdsStore) storeLock_start
  intro τ a τ' ok _ taken
  exact storeLock_step ok (system_step_cases taken)

theorem ckptAlone_run (single : ∀ σ a, guard σ a → OneCheckpoint σ a)
    (run : (systemProtocol crates).Reaches guard (System.start m path base ckpt mem) σ) :
    CkptAlone crates σ := by
  have idle : ∀ (j : Nat) (t : Task), (System.start m path base ckpt mem).tasks[j]? = some t →
      t.prog.checkpointing = false := by
    intro j t slot
    rcases start_slot slot with rfl | rfl <;> rfl
  refine run.invariant (I := CkptAlone crates) ⟨fun j k t u at_j _ busy _ => ?_,
    fun j call stage slot => ?_⟩ ?_
  · rw [idle j t at_j] at busy
    cases busy
  · rcases start_slot slot with same | same <;> cases same
  · intro τ a τ' ok guarded taken
    exact ckptAlone_step ok (single _ _ guarded) (system_step_cases taken)

theorem writing_stays {σ₀ σ₁ : SystemConfig} {n : Nat}
    (run : (systemProtocol crates).Reaches guard (System.start m path base ckpt mem) σ₀)
    (writing : Writing i id before σ₀)
    (stays : (systemProtocol crates).Stays guard (fun t => t.holdsStore = true) i σ₀ n σ₁) :
    Writing i id before σ₁ ∧ σ₁.shared.mem.store = σ₀.shared.mem.store := by
  refine stays.invariant
    (I := fun τ => Writing i id before τ ∧ τ.shared.mem.store = σ₀.shared.mem.store)
    (fun τ later => storeLock_run (run.trans later)) ⟨writing, rfl⟩ ?_ ?_
  · intro τ c τ' t t' lock ok slot slot' held taken
    obtain ⟨store, writing | ⟨done, _⟩ | ⟨cut, _⟩⟩ := writing_own ok.1 taken
    · exact ⟨writing, store.trans ok.2⟩
    · cases Option.some.inj (slot'.symm.trans done)
      cases held
    · cases Option.some.inj (slot'.symm.trans cut)
      cases held
  · intro τ a τ' lock ok others taken
    obtain ⟨writing, store⟩ := writing_other lock ok.1 others taken
    exact ⟨writing, store.trans ok.2⟩

/-- In every run in which checkpoints come one at a time, whatever else runs or fails, each
checkpoint that comes to its replay is the sequential one on a front of the file, with the store and
the marker as they are at that moment. -/
theorem checkpoint_atomic {σ₁ : SystemConfig}
    (run : (systemProtocol crates).Reaches OneCheckpoint (System.start m path base ckpt mem) σ)
    (replays : σ.tasks[i]?.any Task.replays = true)
    (taken : (systemProtocol crates).step σ (.move i .proceed) = some σ₁) :
    ∃ bytes id, RunsAsSequential crates i σ σ₁ bytes id := by
  have run₁ := run.step (a := .move i .proceed) trivial taken
  obtain ⟨t, s, t', slot, moved, rfl⟩ := Protocol.step_move taken
  have bound := (List.getElem?_eq_some_iff.mp slot).1
  rw [slot, Option.any_some] at replays
  unfold Task.replays at replays
  split at replays
  · rename_i lastCkpt found
    obtain ⟨bytes, front, sequential⟩ :=
      stillRead_sequential ((ckptAlone_run (fun _ _ => id) run).read i none _ slot)
    simp only [systemProtocol, ownMove, ckptMove] at moved
    split at moved
    · contradiction
    cases moved
    have opened : Writing i (maxCkpt lastCkpt found) σ.shared.ckpt
        ⟨{ σ.shared with
            mem := { σ.shared.mem with store := checkpointReplay lastCkpt found σ.shared.mem.store }
            storeLocked := true },
          σ.tasks.set i ⟨none, .checkpoint (.openMarker (maxCkpt lastCkpt found))⟩⟩ :=
      .opening (by simp [bound]) rfl
    refine ⟨bytes, maxCkpt lastCkpt found, front, sequential, fun n σ₂ stays => ?_,
      fun n σ₂ c σ₃ result stays taken done => ?_⟩
    · obtain ⟨writing, store⟩ := writing_stays run₁ opened stays
      refine ⟨store, ?_⟩
      cases writing with
      | opening slot marker => exact .inl marker
      | writing slot marker => exact .inr ⟨_, marker⟩
    · obtain ⟨writing, store⟩ := writing_stays run₁ opened stays
      obtain ⟨same, writing | ⟨returned, marker⟩ | ⟨cut, _⟩⟩ := writing_own writing taken
      · obtain ⟨t, slot, held⟩ := writing.holds
        cases Option.some.inj (done.symm.trans slot)
        cases held
      · cases Option.some.inj (done.symm.trans returned)
        exact ⟨rfl, marker, same.trans store⟩
      · cases Option.some.inj (done.symm.trans cut)
  · contradiction

end Runs

def beforeReplay : SystemConfig :=
  ((systemProtocol (Bincode.crates true)).exec OneCheckpoint newDatabase
    (insertAlone [1] 2 ++ readFile 3)).get (by decide +kernel)

theorem checkpoint_atomic_insert : ∃ bytes id,
    RunsAsSequential (Bincode.crates true) 3 beforeReplay
      (((systemProtocol (Bincode.crates true)).step beforeReplay (.move 3 .proceed)).get
        (by decide +kernel)) bytes id :=
  checkpoint_atomic (Protocol.reaches_exec _ (by decide +kernel)) (by decide +kernel)
    (Option.some_get _).symm

end AsyncWalDb
