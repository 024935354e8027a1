import AsyncWalDb.Lifetimes
import AsyncWalDb.OrphanHeader
import Mathlib.Data.List.Chain
import Mathlib.Data.List.Infix

/-! What the file of a run is made of when calls fail. In the model a `BufWriter` keeps all it has
accepted, so the file holds fronts of frames; a failed write of the real one may also lose what it
had accepted. Where no write fails and no drain is dropped while it writes, nothing can be lost, and
the file is whole frames but for one header at its end. -/
namespace AsyncWalDb

open Interleaving Framing

def PairsWith (p q : Piece) : Prop :=
  q.begins.isSome = true ∨ ∃ it, p = .header it ∧ q = .payload it

structure Paired (ps : List Piece) : Prop where
  chain : ps.IsChain PairsWith
  first : ∀ p ∈ ps.head?, p.begins.isSome = true

def Chunk.Begun (crates : Crates) (c : Chunk) : Prop :=
  crates.Fits c.entry ∧ c.bytes <+: frame crates c.entry

/-- Some part of the frame of an entry that was pushed. -/
def Chunk.Remains (crates : Crates) (w : Wal) (c : Chunk) : Prop :=
  crates.Fits c.entry ∧ c.bytes <:+: frame crates c.entry ∧ ∃ it ∈ w.history, it.entry = c.entry

instance (crates : Crates) (w : Wal) (c : Chunk) : Decidable (c.Remains crates w) := by
  unfold Chunk.Remains Crates.Fits
  infer_instance

/-- The call does not lose what it has handed to the `BufWriter`: no write, flush or sync fails, and
the drain is not dropped while it has frames to write. -/
def KeepsWrites (σ : WalConfig) (i : Nat) : CallMove → Prop
  | .fail .io => False
  | .drop =>
    match σ.tasks[i]? with
    | some (some (.drain _ (.write _ (_ :: _) _))) => False
    | _ => True
  | _ => True

instance (σ : WalConfig) (i : Nat) (k : CallMove) : Decidable (KeepsWrites σ i k) := by
  unfold KeepsWrites
  cases k with
  | run => infer_instance
  | fail fault => cases fault <;> infer_instance
  | drop =>
    dsimp only
    rcases σ.tasks[i]? with _ | _ | _ | _ | ⟨_, _ | _ | ⟨_, _ | _, _⟩ | _ | _ | _⟩ <;>
      infer_instance

def WritesIntact (σ : SystemConfig) : SystemAction → Prop
  | .move i (.call k) => KeepsWrites (logView σ) i k
  | _ => True

instance (σ : SystemConfig) (a : SystemAction) : Decidable (WritesIntact σ a) := by
  unfold WritesIntact
  rcases a with _ | ⟨_, _ | _ | _ | _ | _ | _ | _ | _ | _ | _⟩ <;> infer_instance

variable {crates : Crates} {i : Nat} {w w' : Wal} {c : WalCall} {t : Option WalCall}
  {σ σ' : WalConfig} {a : WalAction}

section Stream

theorem Paired.header {ps : List Piece} (ok : Paired ps) (it : Item) :
    Paired (ps ++ [.header it]) := by
  refine ⟨List.isChain_append.mpr ⟨ok.chain, List.isChain_singleton _, fun p _ q hq => ?_⟩,
    fun p hp => ?_⟩
  · cases hq
    exact .inl rfl
  · cases ps with
    | nil => cases hp; rfl
    | cons q ps => exact ok.first p hp

theorem begins_eq_some {p : Piece} {it : Item} (begins : p.begins = some it) : p = .header it := by
  cases p with
  | header => cases begins; rfl
  | payload => cases begins

theorem Paired.payload {ps : List Piece} (ok : Paired ps) {it : Item}
    (last : ps.getLast?.bind Piece.begins = some it) : Paired (ps ++ [.payload it]) := by
  refine ⟨List.isChain_append.mpr ⟨ok.chain, List.isChain_singleton _, fun p hp q hq => ?_⟩,
    fun p hp => ?_⟩
  · cases hq
    rw [Option.mem_def.mp hp] at last
    exact .inr ⟨it, begins_eq_some last, rfl⟩
  · cases ps with
    | nil => cases last
    | cons q ps => exact ok.first p hp

/-- Who waits to write a payload has written its header last. -/
structure Legible (σ : WalConfig) : Prop where
  lock : LockOk σ
  paired : Paired σ.shared.stream
  writer : ∀ (j : Nat) (t : Option WalCall) (it : Item), σ.tasks[j]? = some t →
    openedBy t = some it →
    trailingHeader σ.shared = some it

theorem runs_paired (h : Runs crates i w c w' t) (paired : Paired w.stream)
    (opened : ∀ it, openedBy (some c) = some it → trailingHeader w = some it) :
    Paired w'.stream := by
  cases h with
  | header => exact paired.header _
  | payload => exact paired.payload (opened _ rfl)
  | wait | reserve | push | appended | poll | force | drained | pop | empty | popped | lock | flush
  | sync | sub | wake =>
    exact paired

theorem legible_step (ok : Legible σ) (step : WalStep crates σ a σ') : Legible σ' := by
  refine ⟨lockOk_step ok.lock step, ?_, fun j u it hj opened => ?_⟩
  · cases step with
    | spawn | start | fault => exact ok.paired
    | run slot runs => exact runs_paired runs ok.paired fun it => ok.writer _ _ it slot
  · cases step with
    | spawn =>
      rcases getElem?_append_one hj with old | ⟨_, rfl⟩
      · exact ok.writer j u it old opened
      · cases opened
    | start flushNotify slot fresh own =>
      rcases getElem?_set_cases hj with ⟨_, rfl, _⟩ | ⟨_, old⟩
      · rw [openedBy_fresh fresh] at opened
        cases opened
      · exact ok.writer j u it old opened
    | @run i c w' t slot runs =>
      rcases getElem?_set_cases hj with ⟨_, rfl, _⟩ | ⟨other, old⟩
      · exact runs_writer runs opened
      · -- whoever else waits to write a payload holds the lock, so the file is as before
        have same : w'.stream = σ.shared.stream := (runs_stream runs).resolve_right fun mine =>
          other (ok.lock.alone j i u _ old slot (openedBy_holds opened) mine)
        have before := ok.writer j u it old opened
        rw [trailingHeader, ← same] at before
        exact before
    | fault =>
      rcases getElem?_set_cases hj with ⟨_, rfl, _⟩ | ⟨_, old⟩
      · cases opened
      · exact ok.writer j u it old opened

theorem framed_start {m : Nat} {path : String} {base : Bytes} {ckpt : Option (List Char)}
    {mem : Memory} : Framed crates (logView (System.start m path base ckpt mem)) :=
  framed_new (by simp [System.start])

theorem legible_run {guard : SystemConfig → SystemAction → Prop} {m : Nat}
    {path : String} {base : Bytes} {ckpt : Option (List Char)} {mem : Memory} {τ : SystemConfig}
    (run : (systemProtocol crates).Reaches guard (System.start m path base ckpt mem) τ) :
    Legible (logView τ) := by
  apply run.invariant (I := fun τ => Legible (logView τ))
  · have unused : Framed crates (logView (System.start m path base ckpt mem)) := framed_start
    exact ⟨unused.lock, ⟨List.isChain_nil, fun p hp => by cases hp⟩, unused.writer⟩
  · intro τ a τ' ok _ taken
    rcases log_step taken with ⟨same, _⟩ | ⟨b, _, moved⟩
    · rw [same]
      exact ok
    · exact legible_step ok (wal_step_cases moved)

end Stream

section Chunks

variable {life n : Nat} {ps : List Piece} {cs : List Chunk} {d : Chunk}

theorem chunk_begun (paired : Paired ps) (mem : d ∈ chunksOf crates life ps) :
    ∃ it, .header it ∈ ps ∧ d.entry = it.entry ∧ d.bytes <+: frame crates it.entry := by
  fun_induction chunksOf crates life ps with
  | case1 => cases mem
  | case2 it it' rest ih =>
    rcases List.mem_cons.mp mem with rfl | later
    · -- the payload is of the header in front of it
      have follows := (List.isChain_cons_cons.mp paired.chain).1
      obtain begins | ⟨it₀, same, same'⟩ := follows
      · cases begins
      · cases same
        cases same'
        exact ⟨it, List.mem_cons_self, rfl, List.prefix_refl _⟩
    · have behind : Paired rest := by
        refine ⟨paired.chain.tail.tail, fun q hq => ?_⟩
        -- behind a payload comes a header
        cases rest with
        | nil => cases hq
        | cons q' rest =>
          cases hq
          obtain begins | ⟨it₀, same, _⟩ := (List.isChain_cons_cons.mp paired.chain.tail).1
          · exact begins
          · cases same
      obtain ⟨it₀, header, found⟩ := ih behind later
      exact ⟨it₀, List.mem_cons_of_mem _ (List.mem_cons_of_mem _ header), found⟩
  | case3 it rest none_behind ih =>
    rcases List.mem_cons.mp mem with rfl | later
    · exact ⟨it, List.mem_cons_self, rfl, List.prefix_append _ _⟩
    · have behind : Paired rest := by
        refine ⟨paired.chain.tail, fun q hq => ?_⟩
        cases rest with
        | nil => cases hq
        | cons q' rest =>
          cases hq
          cases q with
          | header => rfl
          | payload it' => exact absurd rfl (none_behind it' rest)
      obtain ⟨it₀, header, found⟩ := ih behind later
      exact ⟨it₀, List.mem_cons_of_mem _ header, found⟩
  | case4 it rest ih => cases paired.first _ rfl

theorem cut_prefix (mem : d ∈ cutChunks cs n) :
    ∃ c ∈ cs, d.entry = c.entry ∧ d.bytes <+: c.bytes := by
  induction cs generalizing n with
  | nil => cases mem
  | cons c cs ih =>
    simp only [cutChunks] at mem
    split at mem
    · cases mem
    · split at mem
      · rcases List.mem_cons.mp mem with rfl | later
        · exact ⟨d, List.mem_cons_self, rfl, List.prefix_refl _⟩
        · obtain ⟨c', hc, same⟩ := ih later
          exact ⟨c', List.mem_cons_of_mem _ hc, same⟩
      · rw [List.mem_singleton.mp mem]
        exact ⟨c, List.mem_cons_self, rfl, List.take_prefix _ _⟩

variable {guard : SystemConfig → SystemAction → Prop} {m : Nat} {path : String} {base : Bytes}
  {ckpt : Option (List Char)} {mem : Memory} {τ : SystemConfig}

theorem cut_begun
    (run : (systemProtocol crates).Reaches guard (System.start m path base ckpt mem) τ)
    (mem : d ∈ cutChunks (chunksOf crates life τ.shared.wal.stream) n) :
    d.Begun crates ∧ ∃ it ∈ τ.shared.wal.history, it.entry = d.entry := by
  have traced : Traced crates (logView τ) := traced_run run
  obtain ⟨c, hc, entry, shorter⟩ := cut_prefix mem
  obtain ⟨it, header, same, begun⟩ := chunk_begun (legible_run run).paired hc
  obtain ⟨pushed, fits⟩ := traced.headers it header
  have own : d.entry = it.entry := entry.trans same
  refine ⟨?_, it, pushed, own.symm⟩
  rw [Chunk.Begun, own]
  exact ⟨fits, shorter.trans begun⟩

end Chunks

section Intact

/-- A header without its payload is being completed. -/
def Attended (σ : WalConfig) : Prop :=
  ∀ it, trailingHeader σ.shared = some it → ∃ (j : Nat) (t : Option WalCall), σ.tasks[j]? = some t ∧
    openedBy t = some it

theorem runs_attended (h : Runs crates i w c w' t) :
    (∃ it, trailingHeader w' = some it ∧ openedBy t = some it) ∨ trailingHeader w' = none ∨
      (trailingHeader w' = trailingHeader w ∧ openedBy (some c) = none) := by
  cases h with
  | @header caller done it rest fits => exact .inl ⟨it, trailingHeader_snoc w (.header it), rfl⟩
  | @payload caller done it rest => exact .inr (.inl (trailingHeader_snoc w (.payload it)))
  | wait | reserve | push | appended | poll | force | drained | pop | empty | popped | lock | flush
  | sync | sub | wake =>
    exact .inr (.inr ⟨rfl, rfl⟩)

theorem keeps_opened {k : CallMove} (slot : σ.tasks[i]? = some t) (keeps : KeepsWrites σ i k)
    (stops : k ≠ .run) (moved : ((walProtocol crates).move i (.call k) σ.shared t).isSome = true) :
    openedBy t = none := by
  unfold openedBy
  split
  · cases k with
    | run => exact absurd rfl stops
    | fail fault =>
      cases fault with
      | serialization => cases moved
      | io => exact keeps.elim
    | drop =>
      simp only [KeepsWrites, slot] at keeps
  · rfl

theorem attended_step (ok : Attended σ) (keeps : ∀ j k, a = .move j (.call k) → KeepsWrites σ j k)
    (taken : (walProtocol crates).step σ a = some σ') : Attended σ' := by
  have still : ∀ {i : Nat} {t t' : Option WalCall} {s : Wal}, σ.tasks[i]? = some t →
    openedBy t = none →
      trailingHeader s = trailingHeader σ.shared → Attended ⟨s, σ.tasks.set i t'⟩ := by
    intro i t t' s slot quiet same it trailing
    obtain ⟨j, u, at_j, opened⟩ := ok it (same ▸ trailing)
    have other : j ≠ i := by
      rintro rfl
      cases Option.some.inj (at_j.symm.trans slot)
      rw [quiet] at opened
      cases opened
    exact ⟨j, u, by rw [List.getElem?_set_ne (Ne.symm other)]; exact at_j, opened⟩
  cases wal_step_cases taken with
  | spawn =>
    intro it trailing
    obtain ⟨j, u, at_j, opened⟩ := ok it trailing
    exact ⟨j, u,
      by rw [List.getElem?_append_left (List.getElem?_eq_some_iff.mp at_j).1]; exact at_j, opened⟩
  | start flushNotify slot fresh own => exact still slot rfl rfl
  | @run i c w' t slot runs =>
    rcases runs_attended runs with ⟨it, trailing, opened⟩ | none_left | ⟨same, quiet⟩
    · intro it' trailing'
      cases Option.some.inj (trailing.symm.trans trailing')
      exact ⟨i, t, List.getElem?_set_self (List.getElem?_eq_some_iff.mp slot).1, opened⟩
    · intro it trailing
      cases none_left.symm.trans trailing
    · exact still slot quiet same
  | @fault i c k slot fallible stops =>
    obtain ⟨t, s, t', slot', moved, _⟩ := Protocol.step_move taken
    cases Option.some.inj (slot.symm.trans slot')
    have quiet := keeps_opened slot (keeps i k rfl) stops (Option.isSome_of_mem moved)
    refine still slot quiet ?_
    rw [release_eq]
    split <;> rfl

theorem Attended.place (ok : Attended σ) (lock : LockOk σ) (i : Nat) : HeaderBehindFrames σ i := by
  unfold HeaderBehindFrames
  split
  · rename_i slot
    by_contra trailing
    obtain ⟨it, trailing⟩ := Option.ne_none_iff_exists'.mp trailing
    obtain ⟨j, t, at_j, opened⟩ := ok it trailing
    have one := lock.alone j i t _ at_j slot (openedBy_holds opened) rfl
    subst one
    cases Option.some.inj (at_j.symm.trans slot)
    cases opened
  · trivial

variable {guard : SystemConfig → SystemAction → Prop} {m : Nat} {path : String} {base : Bytes}
  {ckpt : Option (List Char)} {mem : Memory} {τ : SystemConfig}

theorem intact_run (intact : ∀ τ a, guard τ a → WritesIntact τ a)
    (run : (systemProtocol crates).Reaches guard (System.start m path base ckpt mem) τ) :
    Framed crates (logView τ) := by
  have both : Framed crates (logView τ) ∧ Attended (logView τ) := by
    apply run.invariant (I := fun τ => Framed crates (logView τ) ∧ Attended (logView τ))
    · exact ⟨framed_start, fun it trailing => by cases trailing⟩
    · intro τ a τ' ok guarded taken
      rcases log_step taken with ⟨same, _⟩ | ⟨b, matching, moved⟩
      · rw [same]
        exact ok
      · have keeps : ∀ j k, b = .move j (.call k) → KeepsWrites (logView τ) j k := by
          intro j k now
          have kept := intact τ a guarded
          rw [(matching j k).mpr now] at kept
          exact kept
        exact ⟨framed_step ok.1 (wal_step_cases moved) fun j _ => ok.2.place ok.1.lock j,
          attended_step ok.2 keeps moved⟩
  exact both.1

theorem intact_items (intact : ∀ τ a, guard τ a → WritesIntact τ a) {es : List WalEntry}
    (whole : ValidLog crates base es)
    (run : (systemProtocol crates).Reaches guard (System.start m path base ckpt mem) τ) {n : Nat}
    (beyond : base.length ≤ n) :
    ∃ its ⊆ τ.shared.wal.history,
      (readLog crates ((τ.shared.file crates).take n)).items = es ++ its.map Item.entry := by
  have framed := intact_run intact run
  have traced : Traced crates (logView τ) := traced_run run
  obtain ⟨ws, same⟩ := framed.stream
  have same : τ.shared.wal.stream =
    framesOf ws ++ (trailingHeader τ.shared.wal).toList.map Piece.header := same
  have items := begun_framed same
  have old : τ.shared.base = base := base_run run
  obtain ⟨k, read, _⟩ := framed_items whole same (items ▸ framed.fits) beyond
  refine ⟨_, fun it hit => ?_, by rw [System.file, old, read]⟩
  rw [← items] at hit
  obtain ⟨p, hp, begins⟩ := List.mem_filterMap.mp (List.mem_of_mem_take hit)
  exact (traced.headers it (begins_eq_some begins ▸ hp)).1

end Intact

end AsyncWalDb
