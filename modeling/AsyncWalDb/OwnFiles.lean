import AsyncWalDb.Allocation
import AsyncWalDb.EmptyKey
import AsyncWalDb.Isolation

/-! Files that this program has written, over any number of lifetimes that lose no
write. A reader takes a length that nobody has written only where a crash has cut
through a header and later frames complete it. There recovery and checkpoint panic
when no buffer can have that length, and the process aborts when the allocator
refuses it; otherwise recovery refuses nothing but a value under the empty key. -/
namespace AsyncWalDb

open Interleaving Framing

/-- The files of `Lifetimes` whose lifetimes lose no write. -/
inductive IntactLives (crates : Crates) : Nat → Bytes → List Chunk → Prop where
  | new : IntactLives crates 0 [] []
  | life {lives n m : Nat} {path : String} {file : Bytes} {chunks : List Chunk}
    {ckpt : Option (List Char)} {stats : RecoveryStats} {mem : Memory} {σ : SystemConfig}
    (earlier : IntactLives crates lives file chunks)
    (recovered : recoverWithValidation crates (some file) ⟨fun _ => none, 1⟩ = (.ok stats, mem))
    (run : (systemProtocol crates).Reaches (fun σ a => NoWrap σ a ∧ WritesIntact σ a)
      (System.start m path file ckpt mem) σ)
    (synced : σ.shared.syncedBytes crates ≤ n)
    (uncompleted : Uncompleted crates
      (chunks ++ cutChunks (chunksOf crates lives σ.shared.wal.stream) (n - file.length))) :
    IntactLives crates (lives + 1) ((σ.shared.file crates).take n)
      (chunks ++ cutChunks (chunksOf crates lives σ.shared.wal.stream) (n - file.length))

/-- The first torn frame was cut within its header, and so it
is with what a reader finds from there on. -/
def AtCutHeader (crates : Crates) (cs : List Chunk) (P : Bytes → Prop) : Prop :=
  ∃ pre c post, cs = pre ++ c :: post ∧ (∀ d ∈ pre, d.Whole crates) ∧
    c.bytes.length < WalEntryHeader.SIZE ∧ P (bytesOf (c :: post))

structure ComesUp (alloc : Nat → Nat → Bool) (crates : Crates) (file : Bytes)
    (chunks : List Chunk) : Prop where
  panics : ∀ mem, (recoverAllocating alloc crates (some file) mem).map Prod.fst = some .panicked ↔
    AtCutHeader crates chunks Oversized
  aborts : ∀ mem, recoverAllocating alloc crates (some file) mem = none ↔
    AtCutHeader crates chunks (refusedAt alloc · = true)
  accepts : (∃ stats,
      (recoverAllocating alloc crates (some file) ⟨fun _ => none, 1⟩).map Prod.fst =
        some (.ok stats)) ↔
    ¬ AtCutHeader crates chunks Oversized ∧ ¬ AtCutHeader crates chunks (refusedAt alloc · = true) ∧
      ¬ PutsEmptyKey ((front crates chunks).map Chunk.entry)
  checkpoints : ∀ (disk : Disk) (store : Store) (lastCkpt : UInt64),
    getLastCheckpoint disk.ckpt = .ok lastCkpt →
    ¬ (lastCkpt = 0 ∧ disk.path.isEmpty = true) → disk.wal = some file →
      ((checkpointAllocating alloc crates disk store).map Prod.fst = some .panicked ↔
        AtCutHeader crates chunks Oversized) ∧
      (checkpointAllocating alloc crates disk store = none ↔
        AtCutHeader crates chunks (refusedAt alloc · = true))

variable {alloc : Nat → Nat → Bool} {crates : Crates} {lives : Nat} {file : Bytes}
  {chunks cs : List Chunk} {d : Chunk}

theorem IntactLives.lifetimes (lived : IntactLives crates lives file chunks) :
    Lifetimes crates lives file chunks := by
  induction lived with
  | new => exact .new
  | life _ recovered run synced uncompleted ih =>
    exact .life ih recovered (run.weaken fun _ _ => And.left) synced uncompleted

section Chunks

theorem lives_begun (lived : IntactLives crates lives file chunks) :
    ∀ c ∈ chunks, c.Begun crates := by
  induction lived with
  | new => exact List.forall_mem_nil _
  | life earlier recovered run synced uncompleted ih =>
    intro c hc
    rcases List.mem_append.mp hc with old | new
    · exact ih c old
    · exact (cut_begun run new).1

theorem begun_resizeLength {rest : Bytes} (begun : d.Begun crates)
    (header : WalEntryHeader.SIZE ≤ d.bytes.length) :
    resizeLength (d.bytes ++ rest) = some (crates.serialize d.entry).length := by
  obtain ⟨fits, tail, whole⟩ := begun
  have size : WalEntryHeader.SIZE =
      (WalEntryHeader.new crates (crates.serialize d.entry)).toBytes.length :=
    (WalEntryHeader.toBytes_length _).symm
  have announced : (d.bytes ++ rest).take WalEntryHeader.SIZE =
      (WalEntryHeader.new crates (crates.serialize d.entry)).toBytes := by
    rw [List.take_append_of_le_length header, ← List.take_append_of_le_length header, whole, frame,
      size, List.take_left]
  refine resizeLength_eq_some.mpr ⟨?_, ?_, fits⟩
  · rw [List.length_append]
    exact le_trans header (Nat.le_add_right _ _)
  · rw [announced, WalEntryHeader.fromBytes_toBytes, header_length fits]

theorem not_oversized_of_resizeLength {bytes : Bytes} {len : Nat}
    (asks : resizeLength bytes = some len) : ¬ Oversized bytes := by
  obtain ⟨_, same, small⟩ := resizeLength_eq_some.mp asks
  exact fun large => absurd large.2 (Nat.not_lt_of_le (same ▸ small))

theorem refused_not_oversized {bytes : Bytes} (turned : refusedAt alloc bytes = true) :
    ¬ Oversized bytes := by
  obtain ⟨len, asks, _⟩ := refusedAt_eq_true.mp turned
  exact not_oversized_of_resizeLength asks

theorem whole_header_length (whole : d.Whole crates) : WalEntryHeader.SIZE ≤ d.bytes.length := by
  rw [whole, frame, List.length_append, WalEntryHeader.toBytes_length]
  exact Nat.le_add_right _ _

variable {P : Bytes → Prop}

theorem atCutHeader_nil : ¬ AtCutHeader crates [] P := by
  rintro ⟨pre, c, post, split, _⟩
  exact absurd split (by simp)

theorem atCutHeader_whole (whole : d.Whole crates) : AtCutHeader crates (d :: cs) P ↔
    AtCutHeader crates cs P := by
  constructor
  · rintro ⟨pre, c, post, split, front, short, large⟩
    cases pre with
    | nil =>
      cases split
      exact absurd (whole_header_length whole) (Nat.not_le_of_lt short)
    | cons d' pre =>
      cases split
      exact ⟨pre, c, post, rfl, fun e he => front e (List.mem_cons_of_mem _ he), short, large⟩
  · rintro ⟨pre, c, post, rfl, front, torn⟩
    exact ⟨d :: pre, c, post, rfl, List.forall_mem_cons.mpr ⟨whole, front⟩, torn⟩

theorem atCutHeader_torn (torn : ¬ d.Whole crates) :
    AtCutHeader crates (d :: cs) P ↔ d.bytes.length < WalEntryHeader.SIZE ∧
      P (bytesOf (d :: cs)) := by
  constructor
  · rintro ⟨pre, c, post, split, front, short, large⟩
    cases pre with
    | nil => cases split; exact ⟨short, large⟩
    | cons d' pre =>
      cases split
      exact absurd (front d List.mem_cons_self) torn
  · exact fun ⟨short, large⟩ => ⟨[], d, cs, rfl, List.forall_mem_nil _, short, large⟩

theorem atCutHeader_both {Q : Bytes → Prop} (one : AtCutHeader crates cs P)
    (other : AtCutHeader crates cs Q) : ∃ bytes, P bytes ∧ Q bytes := by
  induction cs with
  | nil => exact absurd one atCutHeader_nil
  | cons c cs ih =>
    by_cases whole : c.Whole crates
    · exact ih ((atCutHeader_whole whole).mp one) ((atCutHeader_whole whole).mp other)
    · exact ⟨_, ((atCutHeader_torn whole).mp one).2, ((atCutHeader_torn whole).mp other).2⟩

theorem atCutHeader_stop (torn : ¬ d.Whole crates)
    (complete : WalEntryHeader.SIZE ≤ d.bytes.length → ¬ P (bytesOf (d :: cs))) :
    AtCutHeader crates (d :: cs) P ↔ P (bytesOf (d :: cs)) := by
  rw [atCutHeader_torn torn]
  refine ⟨And.right, fun large => ⟨?_, large⟩⟩
  by_contra header
  exact complete (Nat.le_of_not_lt header) large

theorem read_overflow_iff (h : Uncompleted crates cs) (begun : ∀ c ∈ cs, c.Begun crates) :
    (readLog crates (bytesOf cs)).exit = .capacityOverflow ↔ AtCutHeader crates cs Oversized := by
  induction cs with
  | nil =>
    rw [show bytesOf [] = [] from rfl, readLog_nil]
    exact iff_of_false (by decide) atCutHeader_nil
  | cons c cs ih =>
    have own := begun c List.mem_cons_self
    by_cases whole : c.Whole crates
    · have valid : ValidFrame crates c.bytes c.entry := whole ▸ frame_valid own.1
      have read := (ValidLog.cons valid .nil).read (bytesOf cs)
      rw [List.append_nil] at read
      rw [bytesOf_cons, read, atCutHeader_whole whole]
      exact ih h.tail fun d hd => begun d (List.mem_cons_of_mem _ hd)
    · cases read : readFrame crates (bytesOf (c :: cs)) with
      | ok out => exact absurd (h.next (fun w => absurd w whole) read).1 whole
      | error exit =>
        have stops : exit = .capacityOverflow ↔ Oversized (bytesOf (c :: cs)) := by
          have oversized : readFrame crates (bytesOf (c :: cs)) = .error .capacityOverflow ↔ _ :=
            readFrame_overflow_iff
          rw [← oversized, read, Except.error.injEq]
        rw [readLog_stop read, stops]
        refine (atCutHeader_stop whole fun header => ?_).symm
        exact not_oversized_of_resizeLength (begun_resizeLength own header)

theorem grants_iff (h : Uncompleted crates cs) (begun : ∀ c ∈ cs, c.Begun crates)
    (granted : ∀ c ∈ cs, ∀ left, alloc left (crates.serialize c.entry).length = true) :
    ¬ Grants alloc crates (bytesOf cs) ↔ AtCutHeader crates cs (refusedAt alloc · = true) := by
  have written : ∀ {c : Chunk} {rest : Bytes}, c ∈ cs → WalEntryHeader.SIZE ≤ c.bytes.length →
      refusedAt alloc (c.bytes ++ rest) = false := by
    intro c rest hc header
    rw [refusedAt, begun_resizeLength (begun c hc) header, Option.any_some, granted c hc]
    rfl
  induction cs with
  | nil =>
    have ends : readFrame crates (bytesOf []) = .error .headerEof := rfl
    exact iff_of_false (not_not.mpr ((grants_stop ends).mpr rfl)) atCutHeader_nil
  | cons c cs ih =>
    have own := begun c List.mem_cons_self
    by_cases whole : c.Whole crates
    · have valid : ValidFrame crates c.bytes c.entry := whole ▸ frame_valid own.1
      have taken : readFrame crates (c.bytes ++ bytesOf cs) = .ok (c.entry, bytesOf cs) :=
        valid.reads _
      have passes : refusedAt alloc (c.bytes ++ bytesOf cs) = false :=
        written List.mem_cons_self (whole_header_length whole)
      rw [bytesOf_cons, grants_frame taken, atCutHeader_whole whole, passes]
      simp only [true_and]
      exact ih h.tail (fun d hd => begun d (List.mem_cons_of_mem _ hd))
        (fun d hd => granted d (List.mem_cons_of_mem _ hd))
        fun hd => written (List.mem_cons_of_mem _ hd)
    · cases read : readFrame crates (bytesOf (c :: cs)) with
      | ok out => exact absurd (h.next (fun w => absurd w whole) read).1 whole
      | error exit =>
        rw [grants_stop read, Bool.not_eq_false]
        refine (atCutHeader_stop (P := (refusedAt alloc · = true)) whole fun header => ?_).symm
        rw [bytesOf_cons, written List.mem_cons_self header]
        exact Bool.false_ne_true

end Chunks

section Outcomes

theorem lives_items (lived : Lifetimes crates lives file chunks) :
    (readLog crates file).items = (front crates chunks).map Chunk.entry := by
  have ok := authored_lives lived
  exact ok.file ▸ read_front ok.uncompleted ok.fits

theorem lives_fit (lived : Lifetimes crates lives file chunks) {m : UInt64}
    (highest : maxTxId (readLog crates file).items = some m) : m + 1 ≠ 0 := by
  obtain ⟨⟨e, he, rfl⟩, _⟩ := maxTxId_eq_some highest
  rw [lives_items lived] at he
  obtain ⟨c, hc, rfl⟩ := List.mem_map.mp he
  exact (authored_lives lived).room c hc

theorem lives_panics (lived : Lifetimes crates lives file chunks) (mem : Memory) :
    (recoverWithValidation crates (some file) mem).1 = .panicked ↔
      (readLog crates file).exit = .capacityOverflow := by
  refine ⟨fun panicked => ?_, fun large => by simp [recoverWithValidation, large]⟩
  by_contra readable
  simp only [recoverWithValidation, if_neg readable] at panicked
  split at panicked
  · cases panicked
  · split at panicked
    · cases panicked
    · rename_i m highest
      split at panicked
      · rename_i wraps
        exact lives_fit lived highest wraps.2
      · cases panicked

theorem lives_accepts (lived : Lifetimes crates lives file chunks) :
    (∃ stats, (recoverWithValidation crates (some file) ⟨fun _ => none, 1⟩).1 = .ok stats) ↔
      (readLog crates file).exit ≠ .capacityOverflow ∧
        ¬ PutsEmptyKey ((front crates chunks).map Chunk.entry) := by
  by_cases large : (readLog crates file).exit = .capacityOverflow
  · refine iff_of_false ?_ fun accepts => accepts.1 large
    rintro ⟨stats, accepted⟩
    rw [(lives_panics lived _).mpr large] at accepted
    cases accepted
  · rw [recover_ok_iff _ large, emptyKey_absent_iff, lives_items lived]
    refine ⟨fun accepts => ⟨large, accepts.1⟩, fun accepts => ⟨accepts.2, ?_⟩⟩
    rintro m highest ⟨_, wraps⟩
    exact lives_fit lived (lives_items lived ▸ highest) wraps

end Outcomes

/-- After any number of lifetimes that lose no write, wherever the crashes cut, where a buffer of
each length that was written is granted. -/
theorem own_files_recover (lived : IntactLives crates lives file chunks)
    (granted : ∀ c ∈ chunks, ∀ left, alloc left (crates.serialize c.entry).length = true) :
    ComesUp alloc crates file chunks := by
  have known := lived.lifetimes
  have ok := authored_lives known
  have overflow : (readLog crates file).exit = .capacityOverflow ↔
      AtCutHeader crates chunks Oversized :=
    ok.file ▸ read_overflow_iff ok.uncompleted (lives_begun lived)
  have refused : ¬ Grants alloc crates file ↔
      AtCutHeader crates chunks (refusedAt alloc · = true) :=
    ok.file ▸ grants_iff ok.uncompleted (lives_begun lived) granted
  -- the loop does not come past the first torn frame, so it cannot both panic and abort
  have apart : ¬ Grants alloc crates file → ¬ AtCutHeader crates chunks Oversized := by
    intro aborts large
    obtain ⟨bytes, turned, large⟩ := atCutHeader_both (refused.mp aborts) large
    exact refused_not_oversized turned large
  refine ⟨fun mem => ?_, fun mem => ?_, ?_, fun disk store lastCkpt marker path wal => ?_⟩
  · by_cases grants : Grants alloc crates file
    · simpa [recoverAllocating, grants] using (lives_panics known mem).trans overflow
    · simpa [recoverAllocating, grants] using apart grants
  · rw [← refused]
    by_cases grants : Grants alloc crates file <;> simp [recoverAllocating, grants]
  · rw [← overflow, ← refused, not_not]
    by_cases grants : Grants alloc crates file
    · simpa [recoverAllocating, grants] using lives_accepts known
    · simp [recoverAllocating, grants]
  · rw [← refused]
    by_cases grants : Grants alloc crates file
    · have same : checkpointAllocating alloc crates disk store =
          some (checkpoint crates disk store) := by
        simp [checkpointAllocating, marker, wal, grants]
      rw [same, ← overflow, Option.map_some, Option.some.injEq]
      refine ⟨?_, by simpa using grants⟩
      simp only [checkpoint, marker, if_neg path, wal, checkpointScan]
      cases (readLog crates file).exit with
      | capacityOverflow => exact iff_of_true rfl rfl
      | headerEof => refine iff_of_false ?_ (by simp); dsimp only; split <;> simp
      | payloadEof | checksum | undecodable => simp
    · have same : checkpointAllocating alloc crates disk store = none := by
        simp only [checkpointAllocating, marker, wal]
        rw [if_pos ⟨path, grants⟩]
      rw [same]
      exact ⟨iff_of_false (by simp) (apart grants), iff_of_true rfl grants⟩

def cutLife : SystemConfig :=
  ((systemProtocol (Bincode.crates true)).exec (fun σ a => NoWrap σ a ∧ WritesIntact σ a)
    (System.start 10000 "wal.log" [] none (recoveredMemory []))
    ([.spawn .transaction] ++ insertInto "k" [1] 2 ++ [.move 0 .proceed] ++ runs 0 4)).get
      (by decide +kernel)

def cutFile : Bytes := (cutLife.shared.file (Bincode.crates true)).take 7

def cutFileChunks : List Chunk :=
  [] ++ cutChunks (chunksOf (Bincode.crates true) 0 cutLife.shared.wal.stream) 7

def longLife : SystemConfig :=
  ((systemProtocol (Bincode.crates true)).exec (fun σ a => NoWrap σ a ∧ WritesIntact σ a)
    (System.start 10000 "wal.log" cutFile none (recoveredMemory cutFile))
    ([.spawn .transaction] ++ insertInto "k" (List.replicate 93 1) 2 ++ flusherRound 1)).get
      (by decide +kernel)

def completedFile : Bytes := (longLife.shared.file (Bincode.crates true)).take 150

def completedChunks : List Chunk :=
  cutFileChunks ++ cutChunks (chunksOf (Bincode.crates true) 1 longLife.shared.wal.stream)
    (150 - cutFile.length)

theorem own_files_recover_cutHeader : AtCutHeader (Bincode.crates true) completedChunks Oversized ∧
    ComesUp megabyte (Bincode.crates true) completedFile completedChunks := by
  have first : IntactLives (Bincode.crates true) 1 cutFile cutFileChunks :=
    .life .new (Prod.ext (by decide +kernel : _ = Outcome.ok ({} : RecoveryStats)) rfl)
      (Protocol.reaches_exec _ (by decide +kernel)) (by decide +kernel)
        (uncompleted_iff.mpr (by decide +kernel))
  have second : IntactLives (Bincode.crates true) 2 completedFile completedChunks :=
    .life first (Prod.ext (by decide +kernel : _ = Outcome.ok ({} : RecoveryStats)) rfl)
      (Protocol.reaches_exec _ (by decide +kernel)) (by decide +kernel)
        (uncompleted_iff.mpr (by decide +kernel))
  have split : completedChunks = [] ++ completedChunks.head (by decide +kernel) ::
    completedChunks.tail := by decide +kernel
  have small : ∀ c ∈ completedChunks,
    ((Bincode.crates true).serialize c.entry).length ≤ 2 ^ 20 := by decide +kernel
  refine ⟨⟨[], _, _, split, List.forall_mem_nil _, by decide +kernel, ?_⟩,
    own_files_recover second fun c hc _ => decide_eq_true (small c hc)⟩
  exact ⟨by decide +kernel, by decide +kernel⟩

end AsyncWalDb
