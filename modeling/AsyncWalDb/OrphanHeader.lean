import AsyncWalDb.Acknowledged
import AsyncWalDb.CrashImage

/-! Drains whose writes may fail. A failed payload write leaves its header at
the end of the file, and the next drain writes behind it; as long as no header
is written behind such an orphan, the file stays a run of whole frames with at
most one header at its end, and every batch that was synced can be read. -/
namespace AsyncWalDb

open Interleaving Framing

def trailingHeader (w : Wal) : Option Item := w.stream.getLast?.bind Piece.begins

/-- A drain that writes a header finds no header without its payload in front of it. -/
def HeaderBehindFrames (σ : WalConfig) (i : Nat) : Prop :=
  match σ.tasks[i]? with
  | some (some (.drain _ (.write _ (_ :: _) false))) => trailingHeader σ.shared = none
  | _ => True

instance (σ : WalConfig) (i : Nat) : Decidable (HeaderBehindFrames σ i) := by
  unfold HeaderBehindFrames
  rcases σ.tasks[i]? with _ | _ | _ | _ | ⟨_, _ | _ | ⟨_, _ | _, _ | _⟩ | _ | _ | _⟩ <;>
    infer_instance

/-- Anything may fail, be dropped or be interrupted; each
header that is written meets the condition. -/
def HeadersInPlace (σ : SystemConfig) : SystemAction → Prop
  | .move i (.call .run) => HeaderBehindFrames (logView σ) i
  | _ => True

instance (σ : SystemConfig) (a : SystemAction) : Decidable (HeadersInPlace σ a) := by
  unfold HeadersInPlace
  rcases a with _ | ⟨i, (_ | _ | _) | _ | _ | _ | _ | _ | _ | _ | _ | _⟩ <;> infer_instance

/-- The batch of a drain that completes its sync: nothing
behind it can fail, so the drain returns Ok. -/
def syncedBatch (σ : SystemConfig) : SystemAction → Option (List Item)
  | .move i (.call .run) =>
    match σ.tasks[i]? with
    | some ⟨some (.drain _ (.sync batch)), _⟩ => some batch
    | _ => none
  | _ => none

/-- Every entry of every drain that returned Ok is read from the file, also after a crash. -/
def DrainsRead (crates : Crates) (seen : List (List Item × Unit)) (σ : SystemConfig) : Prop :=
  ∀ out ∈ seen, ∀ it ∈ out.1, ∀ bytes, σ.shared.CrashFile crates bytes →
    it.entry ∈ (readLog crates bytes).items

variable {crates : Crates} {σ σ' : WalConfig} {a : WalAction} {i : Nat} {w w' : Wal} {c : WalCall}
  {t : Option WalCall}

/-- What holds of the log under faults: the file ends in whole frames but for one header, which a
drain that is about to write a payload has written itself. -/
structure Framed (crates : Crates) (σ : WalConfig) : Prop where
  lock : LockOk σ
  bounds : σ.shared.Bounds
  calls : ∀ (j : Nat) (c : WalCall), σ.tasks[j]? = some (some c) → CallStored σ.shared c
  stream : ∃ ws, σ.shared.stream = framesOf ws ++ (trailingHeader σ.shared).toList.map Piece.header
  writer : ∀ (j : Nat) (t : Option WalCall) (it : Item), σ.tasks[j]? = some t →
    openedBy t = some it →
    trailingHeader σ.shared = some it
  fits : ∀ it ∈ begun σ.shared, crates.Fits it.entry

theorem trailingHeader_snoc (w : Wal) (p : Piece) :
    trailingHeader { w with stream := w.stream ++ [p] } = p.begins := by
  simp [trailingHeader]

theorem begun_framed {ws : List Item}
    (same : w.stream = framesOf ws ++ (trailingHeader w).toList.map Piece.header) :
    begun w = ws ++ (trailingHeader w).toList := by
  rw [begun, same, List.filterMap_append, begins_framesOf]
  cases trailingHeader w <;> rfl

theorem openedBy_fresh (h : Fresh w t) : openedBy t = none := by
  cases h <;> rfl

theorem openedBy_holds {it : Item} (h : openedBy t = some it) : holds t = true := by
  unfold openedBy at h
  split at h
  · rfl
  · cases h

theorem runs_stream_framed (h : Runs crates i w c w' t)
    (stream : ∃ ws, w.stream = framesOf ws ++ (trailingHeader w).toList.map Piece.header)
    (place : ∀ caller done it rest, c = .drain caller (.write done (it :: rest) false) →
      trailingHeader w = none)
    (opened : ∀ it, openedBy (some c) = some it → trailingHeader w = some it) :
    ∃ ws, w'.stream = framesOf ws ++ (trailingHeader w').toList.map Piece.header := by
  obtain ⟨ws, same⟩ := stream
  cases h with
  | @header caller done it rest fits =>
    refine ⟨ws, ?_⟩
    rw [place caller done it rest rfl] at same
    rw [trailingHeader_snoc, same]
    simp [Piece.begins]
  | @payload caller done it rest =>
    refine ⟨ws ++ [it], ?_⟩
    rw [opened it rfl] at same
    rw [trailingHeader_snoc, ← framesOf_snoc, same]
    simp [Piece.begins]
  | wait | reserve | push | appended | poll | force | drained | pop | empty | popped | lock | flush
  | sync | sub | wake =>
    exact ⟨ws, same⟩

theorem runs_writer {it : Item} (h : Runs crates i w c w' t) (opened : openedBy t = some it) :
    trailingHeader w' = some it := by
  cases h with
  | header fits =>
    rw [trailingHeader_snoc]
    exact opened
  | @payload caller done it' rest => cases rest <;> cases opened
  | @lock caller batch free => cases batch <;> cases opened
  | wait | reserve | push | appended | poll | force | drained | pop | empty | popped | flush
  | sync | sub | wake =>
    cases opened

theorem framed_step (ok : Framed crates σ) (step : WalStep crates σ a σ')
    (place : ∀ j, a = .move j (.call .run) → HeaderBehindFrames σ j) : Framed crates σ' := by
  have lock := lockOk_step ok.lock step
  obtain ⟨ext, bounds⟩ := step_extends step ok.bounds
  have calls := calls_step ok.calls step (fun _ => callStored_mono ext)
    (fun c fresh => by cases fresh <;> trivial) fun j c t _ _ call_ok runs =>
      runs_callStored runs call_ok ext
  cases step with
  | spawn =>
    refine ⟨lock, bounds, calls, ok.stream, fun j t it hj opened => ?_, ok.fits⟩
    rcases getElem?_append_one hj with old | ⟨_, rfl⟩
    · exact ok.writer j t it old opened
    · cases opened
  | start flushNotify slot fresh own =>
    refine ⟨lock, bounds, calls, ok.stream, fun j t it hj opened => ?_, ok.fits⟩
    rcases getElem?_set_cases hj with ⟨_, rfl, _⟩ | ⟨_, old⟩
    · rw [openedBy_fresh fresh] at opened
      cases opened
    · exact ok.writer j t it old opened
  | @run i c w' t slot runs =>
    refine ⟨lock, bounds, calls, ?_, fun j u it hj opened => ?_, runs_fits runs ok.fits⟩
    · refine runs_stream_framed runs ok.stream ?_ fun it => ok.writer i _ it slot
      rintro caller done it rest rfl
      simpa [HeaderBehindFrames, slot] using place i rfl
    · rcases getElem?_set_cases hj with ⟨_, rfl, _⟩ | ⟨other, old⟩
      · exact runs_writer runs opened
      · -- whoever else waits to write a payload holds the lock, so the file is as before
        have same : w'.stream = σ.shared.stream := by
          refine (runs_stream runs).resolve_right fun mine => ?_
          exact other (ok.lock.alone j i u _ old slot (openedBy_holds opened) mine)
        have before := ok.writer j u it old opened
        rw [trailingHeader, ← same] at before
        exact before
  | fault slot fallible stops =>
    refine ⟨lock, bounds, calls, ok.stream, fun j t it hj opened => ?_, ok.fits⟩
    rcases getElem?_set_cases hj with ⟨_, rfl, _⟩ | ⟨_, old⟩
    · cases opened
    · exact ok.writer j t it old opened

theorem framed_new {m : Nat} {tasks : List (Option WalCall)} (idle : ∀ t ∈ tasks, t = none) :
    Framed crates ⟨Wal.new m, tasks⟩ := by
  have none_at : ∀ (j : Nat) (t : Option WalCall), tasks[j]? = some t → t = none :=
    fun j t hj => idle t (List.mem_of_getElem? hj)
  refine ⟨⟨fun j t hj held => ?_, fun j k t u hj hk held _ => ?_, fun now => by cases now⟩,
    ⟨le_rfl, le_rfl, List.forall_mem_nil _⟩,
    fun j c hj => ?_, ⟨[], rfl⟩, fun j t it hj opened => ?_, by simp [begun, Wal.new]⟩
  · cases none_at j t hj; cases held
  · cases none_at j t hj; cases held
  · cases none_at j _ hj
  · cases none_at j t hj; cases opened

theorem sync_durable {caller : Caller} {batch : List Item} (ok : Framed crates σ)
    (slot : σ.tasks[i]? = some (some (.drain caller (.sync batch))))
    (step : WalStep crates σ (.move i (.call .run)) σ') : ∀ it ∈ batch, σ'.shared.Durable it := by
  cases step with
  | start flushNotify idle fresh own => exact absurd rfl (own .run)
  | fault _ _ stops => exact absurd rfl stops
  | run slot' runs =>
    cases Option.some.inj (slot.symm.trans slot')
    cases runs with
    | sync => exact ok.calls i _ slot

section Observed

variable {m : Nat} {path : String} {base : Bytes} {es : List WalEntry} {ckpt : Option (List Char)}
  {mem : Memory} {τ τ' : SystemConfig} {b : SystemAction} {seen : List (List Item × Unit)}

def DrainsDurable (crates : Crates) (seen : List (List Item × Unit)) (σ : SystemConfig) : Prop :=
  Framed crates (logView σ) ∧ ∀ out ∈ seen, ∀ it ∈ out.1, σ.shared.wal.Durable it

theorem drainsDurable_step (ok : DrainsDurable crates seen τ) (guard : HeadersInPlace τ b)
    (taken : (systemProtocol crates).step τ b = some τ') :
    DrainsDurable crates (seen ++ (syncedBatch τ b).toList.map fun e => (e, ())) τ' := by
  obtain ⟨framed, durable⟩ := ok
  rcases log_step taken with ⟨same, no_call⟩ | ⟨b', matching, moved⟩
  · have unseen : syncedBatch τ b = none := by
      unfold syncedBatch
      split
      · exact absurd rfl (no_call _ _)
      · rfl
    have kept : τ'.shared.wal = τ.shared.wal := congrArg Config.shared same
    rw [DrainsDurable, same, kept, unseen]
    exact ⟨framed, by simpa using durable⟩
  · have step := wal_step_cases moved
    have place : ∀ j, b' = .move j (.call .run) → HeaderBehindFrames (logView τ) j := by
      intro j now
      rw [(matching j .run).mpr now] at guard
      exact guard
    obtain ⟨ext, _⟩ := step_extends step framed.bounds
    refine ⟨framed_step framed step place, fun out hout it hit => ?_⟩
    rcases List.mem_append.mp hout with old | new
    · exact ext.durable (durable out old it hit)
    · obtain ⟨batch, seen_now, rfl⟩ := List.mem_map.mp new
      rw [Option.mem_toList] at seen_now
      unfold syncedBatch at seen_now
      split at seen_now
      · rename_i j
        split at seen_now
        · rename_i slot
          cases seen_now
          rw [(matching j .run).mp rfl] at step
          exact sync_durable framed (logView_slot slot) step it hit
        · cases seen_now
      · cases seen_now

theorem drainsDurable_run
    (run : (systemProtocol crates).Observed syncedBatch (fun _ => ()) HeadersInPlace
    (System.start m path base ckpt mem) seen τ) : DrainsDurable crates seen τ := by
  apply run.invariant
  · exact ⟨framed_new (by simp [System.start]), List.forall_mem_nil _⟩
  · intro seen σ a σ' ok guard taken
    exact drainsDurable_step ok guard taken

/-- Whatever fails, as long as no header is written behind a header without its payload, every entry
of every drain that returned Ok is read. -/
theorem drains_read (whole : ValidLog crates base es)
    (run : (systemProtocol crates).Observed syncedBatch (fun _ => ())
    HeadersInPlace (System.start m path base ckpt mem) seen τ) : DrainsRead crates seen τ := by
  obtain ⟨framed, durable⟩ := drainsDurable_run run
  have old : τ.shared.base = base := base_run run.reaches
  obtain ⟨ws, same⟩ := framed.stream
  have same : τ.shared.wal.stream = framesOf ws ++
    (trailingHeader τ.shared.wal).toList.map Piece.header := same
  have items := begun_framed same
  rintro out hout it hit bytes ⟨n, synced, rfl⟩
  have beyond : base.length ≤ n := old ▸ le_trans (Nat.le_add_right _ _) synced
  have fits : ∀ it ∈ ws ++ (trailingHeader τ.shared.wal).toList, crates.Fits it.entry :=
    items ▸ framed.fits
  obtain ⟨k, read, _, within⟩ := framed_items whole same fits beyond
  have inside := within τ.shared.wal.synced it (durable out hout it hit).2 (old ▸ synced)
  rw [System.file, old, read]
  exact List.mem_append_right _ (List.mem_map_of_mem inside)

end Observed

/-- The flusher's first drain fails at its move `n + 1`; the
next one takes another insert to the disk. -/
def drainFailing (n : Nat) : List SystemAction :=
  [.spawn .transaction] ++ insertInto "k" [1] 2 ++ [.move 0 .proceed] ++ runs 0 n ++
    [.move 0 (.call (.fail .io)), .move 0 .proceed] ++ insertInto "j" [2] 2 ++ flusherRound 1

def secondBatch : List Item := [⟨1, 2, .insert 1 7 "j" [2]⟩]

def observeDrains (guard : SystemConfig → SystemAction → Prop) [∀ σ a, Decidable (guard σ a)]
    (as : List SystemAction) : Option (List (List Item × Unit) × SystemConfig) :=
  (systemProtocol (Bincode.crates true)).observe syncedBatch (fun _ => ()) guard newDatabase as

def orphanRun : List (List Item × Unit) × SystemConfig :=
  (observeDrains (fun _ _ => True) (drainFailing 4)).get (by decide +kernel)

theorem orphan_hides_drain :
    ¬ ∀ (crates : Crates) (m : Nat) (path : String) (base : Bytes) (es : List WalEntry)
      (ckpt : Option (List Char))
      (mem : Memory) (seen : List (List Item × Unit)) (σ : SystemConfig), ValidLog crates base es →
      (systemProtocol crates).Observed syncedBatch (fun _ => ()) (fun _ _ => True)
        (System.start m path base ckpt mem) seen σ →
      DrainsRead crates seen σ := by
  intro claim
  have observed : (systemProtocol (Bincode.crates true)).Observed syncedBatch (fun _ => ())
    (fun _ _ => True) newDatabase
      orphanRun.1 orphanRun.2 :=
        Protocol.observed_of_observe (drainFailing 4) (Option.some_get _).symm
  have read := claim _ _ _ _ [] _ _ _ _ .nil observed (secondBatch, ()) (by decide +kernel)
    ⟨1, 2, .insert 1 7 "j" [2]⟩
    (by decide) _ (crashFile_file _ _)
  revert read
  decide +kernel

def headerFailedRun : List (List Item × Unit) × SystemConfig :=
  (observeDrains HeadersInPlace (drainFailing 3)).get (by decide +kernel)

theorem drains_read_headerFailedRun :
    headerFailedRun.1 = [(secondBatch, ())] ∧
      DrainsRead (Bincode.crates true) headerFailedRun.1 headerFailedRun.2 :=
  ⟨by decide +kernel,
    drains_read .nil (Protocol.observed_of_observe (drainFailing 3) (Option.some_get _).symm)⟩

end AsyncWalDb
