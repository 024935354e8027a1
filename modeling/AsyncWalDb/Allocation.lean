import AsyncWalDb.Checkpoint

/-! `buffer.resize(len, 0)` in the two reading loops. A length above `isize::MAX` panics; for any
other the allocator decides, and where it refuses the process aborts. `readFrame` lets every such
request succeed, so what is proved over it holds of the process as long as no request is refused. -/
namespace AsyncWalDb

open Framing

/-- What the loop asks `buffer.resize` for at the next header, if it comes to ask. -/
def resizeLength (bytes : Bytes) : Option Nat :=
  if bytes.length < WalEntryHeader.SIZE then none
  else
    let len := (WalEntryHeader.fromBytes (bytes.take WalEntryHeader.SIZE)).length.toNat
    if isizeMax < len then none else some len

/-- `alloc left len` is the allocator's answer to a request for `len` bytes made with `left` bytes
of the file to read, so it may depend on what was asked for before. -/
def refusedAt (alloc : Nat → Nat → Bool) (bytes : Bytes) : Bool :=
  (resizeLength bytes).any fun len => !alloc bytes.length len

def megabyte (_ len : Nat) : Bool := len ≤ 2 ^ 20

def readAllocating (alloc : Nat → Nat → Bool) (crates : Crates) (bytes : Bytes) :
    Reading UInt8 WalEntry (Option ReadExit) :=
  ((walReader crates).guarded (refusedAt alloc)).run bytes

def Grants (alloc : Nat → Nat → Bool) (crates : Crates) (bytes : Bytes) : Prop :=
  (readAllocating alloc crates bytes).exit ≠ none

instance (alloc : Nat → Nat → Bool) (crates : Crates) (bytes : Bytes) :
    Decidable (Grants alloc crates bytes) :=
  inferInstanceAs (Decidable (_ ≠ _))

/-- Behind some whole frames comes a header whose length no
buffer can have or the allocator refuses. -/
def Unallocatable (alloc : Nat → Nat → Bool) (crates : Crates) (bytes : Bytes) : Prop :=
  ∃ front es rest, bytes = front ++ rest ∧ ValidLog crates front es ∧
    (Oversized rest ∨ refusedAt alloc rest = true)

/-- `recover_with_validation` under such an allocator; `none` is the aborted process. -/
def recoverAllocating (alloc : Nat → Nat → Bool) (crates : Crates) (file : Option Bytes)
    (mem : Memory) : Option (Outcome RecoveryStats × Memory) :=
  match file with
  | none => some (recoverWithValidation crates none mem)
  | some bytes =>
    if Grants alloc crates bytes then some (recoverWithValidation crates (some bytes) mem) else none

/-- `checkpoint` under such an allocator; it asks only where it comes to read the file. -/
def checkpointAllocating (alloc : Nat → Nat → Bool) (crates : Crates) (disk : Disk)
    (store : Store) : Option (Outcome UInt64 × Disk × Store) :=
  match getLastCheckpoint disk.ckpt, disk.wal with
  | .ok lastCkpt, some bytes =>
    if ¬ (lastCkpt = 0 ∧ disk.path.isEmpty) ∧ ¬ Grants alloc crates bytes then none
    else some (checkpoint crates disk store)
  | _, _ => some (checkpoint crates disk store)

variable {alloc : Nat → Nat → Bool} {crates : Crates} {bytes rest : Bytes} {e : WalEntry}
  {exit : ReadExit}

theorem resizeLength_eq_some {len : Nat} : resizeLength bytes = some len ↔
    WalEntryHeader.SIZE ≤ bytes.length ∧
      (WalEntryHeader.fromBytes (bytes.take WalEntryHeader.SIZE)).length.toNat = len ∧
        len ≤ isizeMax := by
  unfold resizeLength
  split
  · rename_i short
    exact iff_of_false (by simp) fun h => absurd short (Nat.not_lt_of_le h.1)
  · rename_i long
    dsimp only
    split
    · rename_i large
      exact iff_of_false (by simp) fun h => absurd large (Nat.not_lt_of_le (h.2.1 ▸ h.2.2))
    · rename_i small
      rw [Option.some.injEq]
      refine ⟨fun same => ⟨Nat.le_of_not_lt long, same, same ▸ Nat.le_of_not_lt small⟩,
        fun h => h.2.1⟩

theorem refusedAt_eq_true :
    refusedAt alloc bytes = true ↔ ∃ len, resizeLength bytes = some len ∧
      alloc bytes.length len = false := by
  unfold refusedAt
  cases resizeLength bytes <;> simp

theorem Grants.read (granted : Grants alloc crates bytes) :
    readAllocating alloc crates bytes =
      ⟨(readLog crates bytes).items, some (readLog crates bytes).exit,
        (readLog crates bytes).rest⟩ := by
  obtain ⟨exit, reached⟩ := Option.ne_none_iff_exists'.mp granted
  exact Reader.run_guarded reached

theorem grants_frame (taken : readFrame crates bytes = .ok (e, rest)) :
    Grants alloc crates bytes ↔ refusedAt alloc bytes = false ∧ Grants alloc crates rest := by
  unfold Grants readAllocating
  cases turned : refusedAt alloc bytes with
  | true =>
    rw [Reader.run_error _ (Reader.guarded_refused turned)]
    simp
  | false =>
    have next : ((walReader crates).guarded (refusedAt alloc)).next bytes = .ok (e, rest) := by
      rw [Reader.guarded_next turned]
      change (readFrame crates bytes).mapError some = _
      rw [taken]
      rfl
    rw [Reader.run_ok _ next]
    simp

theorem grants_stop (stop : readFrame crates bytes = .error exit) :
    Grants alloc crates bytes ↔ refusedAt alloc bytes = false := by
  unfold Grants readAllocating
  cases turned : refusedAt alloc bytes with
  | true =>
    rw [Reader.run_error _ (Reader.guarded_refused turned)]
    simp
  | false =>
    have next : ((walReader crates).guarded (refusedAt alloc)).next bytes = .error (some exit) := by
      rw [Reader.guarded_next turned]
      change (readFrame crates bytes).mapError some = _
      rw [stop]
      rfl
    rw [Reader.run_error _ next]
    simp

theorem readFrame_not_oversized (taken : readFrame crates bytes = .ok (e, rest)) :
    ¬ Oversized bytes := by
  intro large
  have stop : readFrame crates bytes = _ := readFrame_overflow_iff.mpr large
  rw [taken] at stop
  cases stop

theorem unallocatable_frame (taken : readFrame crates bytes = .ok (e, rest)) :
    Unallocatable alloc crates bytes ↔ refusedAt alloc bytes = true ∨
      Unallocatable alloc crates rest := by
  obtain ⟨first, split, valid⟩ := readFrame_ok taken
  constructor
  · rintro ⟨front, es, behind, same, whole, ends⟩
    cases whole with
    | nil =>
      rw [List.nil_append] at same
      rw [← same] at ends
      exact .inl (ends.resolve_left (readFrame_not_oversized taken))
    | @cons head more e' es head_valid tail =>
      -- the reader takes one frame only, so both splits have the same rest
      have again : readFrame crates bytes = .ok (e', more ++ behind) := by
        rw [same, List.append_assoc]
        exact head_valid.reads _
      rw [taken] at again
      cases again
      exact .inr ⟨more, es, behind, rfl, tail, ends⟩
  · rintro (turned | ⟨front, es, behind, rfl, whole, ends⟩)
    · exact ⟨[], [], bytes, rfl, .nil, .inr turned⟩
    · exact ⟨first ++ front, e :: es, behind, by rw [split, List.append_assoc],
        .cons valid whole, ends⟩

theorem unallocatable_stop (stop : readFrame crates bytes = .error exit) :
    Unallocatable alloc crates bytes ↔ Oversized bytes ∨ refusedAt alloc bytes = true := by
  constructor
  · rintro ⟨front, es, behind, same, whole, ends⟩
    cases whole with
    | nil => exact same ▸ ends
    | @cons first more e es head tail =>
      have taken : readFrame crates bytes = .ok (e, more ++ behind) := by
        rw [same, List.append_assoc]
        exact head.reads _
      rw [stop] at taken
      cases taken
  · exact fun ends => ⟨[], [], bytes, rfl, .nil, ends⟩

theorem not_unallocatable_iff :
    ¬ Unallocatable alloc crates bytes ↔
      Grants alloc crates bytes ∧ (readLog crates bytes).exit ≠ .capacityOverflow := by
  induction hn : bytes.length using Nat.strong_induction_on generalizing bytes with
  | _ n ih =>
    cases next : readFrame crates bytes with
    | error exit =>
      have overflow : readFrame crates bytes = .error .capacityOverflow ↔ _ :=
        readFrame_overflow_iff
      rw [next, Except.error.injEq] at overflow
      rw [unallocatable_stop next, grants_stop next, readLog_stop next, Ne, overflow, not_or,
        Bool.not_eq_true]
      exact And.comm
    | ok out =>
      obtain ⟨e, later⟩ := out
      have read : readLog crates bytes = _ := (walReader crates).run_ok next
      have behind := ih later.length (hn ▸ readFrame_shrinks _ _ _ next) rfl
      rw [unallocatable_frame next, grants_frame next, read, not_or, Bool.not_eq_true, behind]
      exact and_assoc.symm

theorem recoverAllocating_eq_some {mem : Memory} {out : Outcome RecoveryStats × Memory} :
    recoverAllocating alloc crates (some bytes) mem = some out ↔
      Grants alloc crates bytes ∧ recoverWithValidation crates (some bytes) mem = out := by
  simp [recoverAllocating]

end AsyncWalDb
