import AsyncWalDb.CheckpointRecover
import AsyncWalDb.LastWriter

/-! The exits of recovery. The validation comes after the replay into the shared store, so its error
leaves the new store behind; the length of a header is used before anything checks it, and the
highest id may have no successor. -/
namespace AsyncWalDb

open KeyedWrites Framing

/-- The empty key is present in the end: the operation that decides it puts a value there, or none
decides it and it was present before. -/
def LeavesEmptyKey (es : List WalEntry) (before : Store) : Prop :=
  (∃ i e, Decides es "" i e ∧ e.outcome.isSome = true) ∨
    ((¬ ∃ i e, Decides es "" i e) ∧ (before "").isSome = true)

/-- Every key holds already what its deciding operation leaves there. -/
def AlreadyHolds (es : List WalEntry) (store : Store) : Prop := ∀ key i e, Decides es key i e →
    store key = e.outcome

/-- How recovery ends on a file that begins with the frames of `es` and goes on with `rest`. -/
inductive RecoverExit (crates : Crates) (es : List WalEntry) (rest : Bytes) (mem : Memory) :
    Outcome RecoveryStats × Memory → Prop where
  | oversized (large : Oversized rest) : RecoverExit crates es rest mem (.panicked, mem)
  | emptyKey (small : ¬ Oversized rest) (left : LeavesEmptyKey es mem.store) :
    RecoverExit crates es rest mem
      (.err (.validation "Invalid empty key after recovery"),
        { mem with store := applyAll mem.store (replayWrites es) })
  | overflow {m : UInt64} (small : ¬ Oversized rest) (absent : ¬ LeavesEmptyKey es mem.store)
    (highest : maxTxId es = some m) (wraps : m + 1 = 0) :
    RecoverExit crates es rest mem
      (.panicked, { mem with store := applyAll mem.store (replayWrites es) })
  | ok {stats : RecoveryStats} {next : UInt64} (small : ¬ Oversized rest)
    (absent : ¬ LeavesEmptyKey es mem.store)
    (fresh : (∀ e ∈ es, e.txId + 1 ≠ 0) → ∀ e ∈ es, e.txId < next) :
    RecoverExit crates es rest mem
      (.ok stats, ⟨applyAll mem.store (replayWrites es), next⟩)

/-- With Err the store and the id counter are as before the call. -/
def KeepsOnErr (mem : Memory) (out : Outcome RecoveryStats × Memory) : Prop :=
  ∀ e, out.1 = .err e → out.2 = mem

/-- No panic, and after Ok the counter is above every id that was read. -/
def SafeAndFresh (es : List WalEntry) (out : Outcome RecoveryStats × Memory) : Prop :=
  out.1 ≠ .panicked ∧ ∀ stats, out.1 = .ok stats → ∀ e ∈ es, e.txId < out.2.nextTxId

variable {crates : Crates} {bytes rest : Bytes} {file : Option Bytes} {es : List WalEntry}
  {mem : Memory}

theorem leavesEmptyKey_iff (store : Store) :
    (applyAll store (replayWrites es) "").isSome = true ↔ LeavesEmptyKey es store := by
  have wins := lastWriterWins_replay es store
  by_cases decided : ∃ i e, Decides es "" i e
  · obtain ⟨i, e, decides⟩ := decided
    rw [wins.decided "" i e decides]
    constructor
    · exact fun present => .inl ⟨i, e, decides, present⟩
    · rintro (⟨j, f, other, present⟩ | ⟨none_decides, _⟩)
      · rw [← wins.decided "" i e decides, wins.decided "" j f other]
        exact present
      · exact absurd ⟨i, e, decides⟩ none_decides
  · rw [(wins.untouched "" decided).2]
    constructor
    · exact fun present => .inr ⟨decided, present⟩
    · rintro (⟨i, e, decides, _⟩ | ⟨_, present⟩)
      · exact absurd ⟨i, e, decides⟩ decided
      · exact present

theorem replay_unchanged_iff (store : Store) : applyAll store (replayWrites es) = store ↔
    AlreadyHolds es store := by
  have wins := lastWriterWins_replay es store
  constructor
  · intro same key i e decides
    rw [← wins.decided key i e decides, same]
  · intro holds
    funext key
    by_cases decided : ∃ i e, Decides es key i e
    · obtain ⟨i, e, decides⟩ := decided
      rw [wins.decided key i e decides, holds key i e decides]
    · exact (wins.untouched key decided).2

theorem recover_exits (front : FrontFrames crates bytes es rest) (mem : Memory) :
    RecoverExit crates es rest mem (recoverWithValidation crates (some bytes) mem) := by
  obtain ⟨exit, stop, read⟩ := front.read
  by_cases large : Oversized rest
  · have overflow : exit = .capacityOverflow :=
      Except.error.inj (stop.symm.trans (readFrame_overflow_iff.mpr large))
    have panics : recoverWithValidation crates (some bytes) mem = (.panicked, mem) := by
      simp [recoverWithValidation, read, overflow]
    rw [panics]
    exact .oversized large
  · have readable : (readLog crates bytes).exit ≠ .capacityOverflow := by
      rw [read]
      rintro rfl
      exact large (readFrame_overflow_iff.mp stop)
    have no_overflow : exit ≠ .capacityOverflow := by rwa [read] at readable
    have t := tracks_scan es
    have same : replay (es.foldl track .empty).txEntries (committedIds es) mem.store =
        applyAll mem.store (replayWrites es) :=
      t.replay_eq (committedIds es) mem.store
    have fresh : ∀ stats, (recoverWithValidation crates (some bytes) mem).1 = .ok stats →
      (∀ e ∈ es, e.txId + 1 ≠ 0) →
        ∀ e ∈ es, e.txId < (recoverWithValidation crates (some bytes) mem).2.nextTxId := by
      intro stats ok room
      have above := recover_above ok (by rw [read]; exact room)
      rwa [read] at above
    generalize returned : recoverWithValidation crates (some bytes) mem = out at fresh ⊢
    simp only [recoverWithValidation, read, if_neg no_overflow, t.committedTxIds_eq, same]
      at returned
    split at returned
    · rename_i left
      subst returned
      exact .emptyKey large ((leavesEmptyKey_iff _).mp left)
    · rename_i absent
      have absent := mt (leavesEmptyKey_iff _).mpr absent
      split at returned
      · subst returned
        exact .ok large absent (fresh _ rfl)
      · rename_i m highest
        split at returned
        · rename_i wraps
          subst returned
          exact .overflow large absent highest wraps.2
        · subst returned
          exact .ok large absent (fresh _ rfl)

/-- Recovery with Err changes nothing exactly when the loop never comes to the validation, the
validation finds nothing to refuse, or the replay found nothing to change. -/
theorem recover_keeps_iff (front : ∀ bytes, file = some bytes → FrontFrames crates bytes es rest)
    (fault : IoFault) : KeepsOnErr mem (recoverWith crates fault file mem) ↔
      file = none ∨ (∃ n, fault = .read n ∧ readFails crates n file = true) ∨ Oversized rest ∨
        ¬ LeavesEmptyKey es mem.store ∨ AlreadyHolds es mem.store := by
  by_cases fails : ∃ n, fault = .read n ∧ readFails crates n file = true
  · obtain ⟨n, rfl, stops⟩ := fails
    have result : recoverWith crates (.read n) file mem =
      (.err (.io .other), mem) := by simp [recoverWith, stops]
    exact iff_of_true (fun e _ => by rw [result]) (.inr (.inl ⟨n, rfl, stops⟩))
  · have plain : recoverWith crates fault file mem = recoverWithValidation crates file mem := by
      rcases recoverWith_cases fault file mem with plain | ⟨n, read, stops, _⟩
      · exact plain
      · exact absurd ⟨n, read, stops⟩ fails
    rw [plain]
    cases file with
    | none => exact iff_of_true (fun e _ => rfl) (.inl rfl)
    | some bytes =>
      have exit := recover_exits (front bytes rfl) mem
      generalize recoverWithValidation crates (some bytes) mem = out at exit
      simp only [reduceCtorEq, false_or, fails]
      cases exit with
      | oversized large => exact iff_of_true (fun e _ => rfl) (.inl large)
      | emptyKey small left =>
        simp only [small, left, not_true, false_or]
        rw [← replay_unchanged_iff]
        constructor
        · exact fun keeps => congrArg Memory.store (keeps _ rfl)
        · exact fun same e _ => by rw [same]
      | overflow small absent => exact iff_of_true (fun e err => by cases err) (.inr (.inl absent))
      | ok small absent => exact iff_of_true (fun e err => by cases err) (.inr (.inl absent))

def refusedLog : List WalEntry := [.insert 1 7 "a" [1], .insert 1 7 "" [2], .commit 1 8]

def refusedWal : Bytes := refusedLog.flatMap (frame (Bincode.crates true))

theorem recover_changes_on_err :
    ¬ ∀ (crates : Crates) (file : Option Bytes) (mem : Memory),
      KeepsOnErr mem (recoverWithValidation crates file mem) := by
  intro claim
  have kept := claim (Bincode.crates true) (some refusedWal) ⟨fun _ => none, 1⟩
    (.validation "Invalid empty key after recovery") (by decide +kernel)
  have added := congrArg (fun mem => mem.store "a") kept
  revert added
  decide +kernel

theorem recover_keeps_iff_refusedWal :
    KeepsOnErr ⟨fun _ => none, 1⟩ (recoverWith (Bincode.crates true) .none (some refusedWal)
      ⟨fun _ => none, 1⟩) ↔
      some refusedWal = none ∨
        (∃ n, IoFault.none = .read n ∧ readFails (Bincode.crates true) n (some refusedWal) = true) ∨
        Oversized [] ∨ ¬ LeavesEmptyKey refusedLog (fun _ => none) ∨ AlreadyHolds refusedLog
          fun _ => none := by
  have whole : ValidLog (Bincode.crates true) refusedWal refusedLog :=
    .of_entries (by decide +kernel)
  exact recover_keeps_iff (fun bytes same => Option.some.inj same ▸ whole.frontFrames) .none

/-- Recovery does not panic, and leaves a fresh counter after Ok, exactly when no length is too
large for a `Vec` and, unless the validation refuses the store, no id is the last one of 64 bits. -/
theorem recover_fresh_iff (front : FrontFrames crates bytes es rest) (mem : Memory) :
    SafeAndFresh es (recoverWithValidation crates (some bytes) mem) ↔
      ¬ Oversized rest ∧ (LeavesEmptyKey es mem.store ∨ ∀ e ∈ es, e.txId + 1 ≠ 0) := by
  have exit := recover_exits front mem
  generalize recoverWithValidation crates (some bytes) mem = out at exit ⊢
  cases exit with
  | oversized large => exact iff_of_false (fun safe => safe.1 rfl) fun h => h.1 large
  | emptyKey small left =>
    exact iff_of_true ⟨by simp, fun stats ok => by cases ok⟩ ⟨small, .inl left⟩
  | overflow small absent highest wraps =>
    obtain ⟨⟨e, he, rfl⟩, _⟩ := maxTxId_eq_some highest
    refine iff_of_false (fun safe => safe.1 rfl) ?_
    rintro ⟨_, left | room⟩
    · exact absent left
    · exact room e he wraps
  | @ok stats next small absent fresh =>
    constructor
    · intro safe
      refine ⟨small, .inr fun e he => ?_⟩
      exact succ_ne_zero_of_lt (safe.2 stats rfl e he)
    · rintro ⟨_, left | room⟩
      · exact absurd left absent
      · refine ⟨by simp, fun _ ok => ?_⟩
        exact fresh room

def oversizedHeader : Bytes :=
  WalEntryHeader.toBytes ⟨9223372036854775808, 0, WalEntryHeader.VERSION⟩

theorem recover_panics :
    ¬ ∀ (crates : Crates) (bytes : Bytes) (mem : Memory),
      SafeAndFresh (readLog crates bytes).items (recoverWithValidation crates
        (some bytes) mem) := by
  intro claim
  obtain ⟨safe, _⟩ := claim (Bincode.crates true) oversizedHeader ⟨fun _ => none, 1⟩
  revert safe
  decide +kernel

theorem recover_fresh_iff_lastId :
    SafeAndFresh [.commit (-1) 7] (recoverWithValidation (Bincode.crates true)
        (some (frame (Bincode.crates true) (.commit (-1) 7) ++ [])) ⟨fun _ => none, 1⟩) ↔
      ¬ Oversized [] ∧ (LeavesEmptyKey [.commit (-1) 7] (fun _ => none) ∨
        ∀ e ∈ [WalEntry.commit (-1) 7], e.txId + 1 ≠ 0) := by
  have whole : ValidLog (Bincode.crates true) (frame (Bincode.crates true) (.commit (-1) 7) ++ [])
      [.commit (-1) 7] :=
    .cons (frame_valid (by decide +kernel)) .nil
  exact recover_fresh_iff whole.frontFrames ⟨fun _ => none, 1⟩

end AsyncWalDb
