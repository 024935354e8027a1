import AsyncWalDb.Bincode
import AsyncWalDb.Serial

/-! Serial runs against the map of the committed operations. The live
store is that map at every step of every run, through checkpoints and
crashes, as long as the 64-bit id counter does not run out. -/
namespace AsyncWalDb

open KeyedWrites Refinement

/-- Transactions with non-empty keys whose updates hit, checkpoints and crashes; no truncation. -/
def PlainCalls (_ : Process) (s : Spec) : SerialAction → Prop
  | .appendOp op _ => op.isMarker = false → op.key ≠ ""
  | .commit _ => updatesHit s.map s.opened = true
  | .truncate => False
  | _ => True

instance (p : Process) (s : Spec) (a : SerialAction) : Decidable (PlainCalls p s a) :=
  match a with
  | .appendOp op _ => inferInstanceAs (Decidable (op.isMarker = false → op.key ≠ ""))
  | .commit _ => inferInstanceAs (Decidable (updatesHit s.map s.opened = true))
  | .truncate => .isFalse id
  | .new | .abort _ | .discard | .drain | .checkpoint | .restart => .isTrue trivial

instance (crates : Crates) (p : Process) (s : Spec) (a : SerialAction) :
    Decidable ((serialPair crates PlainCalls).allowed p s a) :=
  inferInstanceAs (Decidable (PlainCalls p s a))

/-- A commit and a recovery return Ok, a checkpoint returns Ok or finds nothing new. -/
def Reply.fine : Reply → Prop
  | .committed result => result = .ok ()
  | .checkpointed result => result = .err .noNewCheckpoints ∨ ∃ id, result = .ok id
  | .recovered result => ∃ stats, result = .ok stats
  | .done | .appended _ | .aborted _ => True

/-- The live store is the map, and every answer to an allowed call is fine. -/
def Refines (crates : Crates) (p : Process) (s : Spec) : Prop :=
  p.mem.store = s.map ∧ ∀ a p' r, PlainCalls p s a → serialStep crates p a = some (p', r) → r.fine

def NonEmptyKeys (es : List WalEntry) : Prop := ∀ e ∈ es, e.isMarker = false → e.key ≠ ""

def Plain (crates : Crates) (n : Nat) (p : Process) (s : Spec) : Prop :=
  (∃ es, Tied crates es n p s) ∧ s.committed = s.logged ∧ NonEmptyKeys (s.committed ++ s.opened)

variable {crates : Crates} {p p' : Process} {s : Spec} {a : SerialAction} {r : Reply} {n : Nat}

theorem map_empty_key (keys : NonEmptyKeys (s.committed ++ s.opened)) : s.map "" = none := by
  have untouched : lastOn "" (s.committed.filterMap WalEntry.write?) = none := by
    by_contra written
    obtain ⟨e, he, operation, empty⟩ := lastOn_ops.mp written
    exact keys e (List.mem_append_left _ he) operation empty
  rw [Spec.map, applyAll_at, untouched]
  rfl

theorem NonEmptyKeys.drop_opened {es fs : List WalEntry} (keys : NonEmptyKeys (es ++ fs)) :
    NonEmptyKeys (es ++ []) :=
  fun e he => keys e (List.append_nil es ▸ List.mem_append_left _ (List.append_nil es ▸ he))

theorem plain_step (plain : Plain crates n p s) (within : n + a.begins ≤ 2 ^ 64 - 2)
    (ok : PlainCalls p s a)
    (taken : serialStep crates p a = some (p', r)) : Plain crates (n + a.begins) p' (s.next a r) ∧
      r.fine := by
  obtain ⟨⟨es, tied⟩, whole, keys⟩ := plain
  cases a with
  | new =>
    have next := tied_new tied within taken
    simp only [serialStep] at taken
    split at taken
    · contradiction
    · cases taken
      exact ⟨⟨⟨es, next⟩, whole, keys⟩, trivial⟩
  | appendOp op now =>
    have next := tied_appendOp tied taken
    obtain ⟨tx, current, answer⟩ := Option.map_eq_some_iff.mp taken
    split at answer
    · cases answer
      exact ⟨⟨⟨es, next⟩, whole, keys⟩, trivial⟩
    · rename_i tx' entry appended
      cases answer
      refine ⟨⟨⟨es, next⟩, whole, fun e he => ?_⟩, trivial⟩
      rw [show (s.next (.appendOp op now) (.appended (.ok ()))).committed ++
          (s.next (.appendOp op now) (.appended (.ok ()))).opened = s.committed ++
            (s.opened ++ [op]) from rfl,
        ← List.append_assoc, List.mem_append, List.mem_singleton] at he
      rcases he with old | rfl
      · exact keys e old
      · exact ok
  | commit now =>
    obtain ⟨rfl, entry, _, next⟩ := tied_commit tied ok taken
    refine ⟨⟨⟨_, next⟩, ?_, fun e he => ?_⟩, rfl⟩
    · change s.committed ++ s.opened = s.logged ++ s.opened
      rw [whole]
    · have he : e ∈ (s.committed ++ s.opened) ++ [] := he
      rw [List.append_nil] at he
      exact keys e he
  | abort now =>
    obtain ⟨entry, _, next⟩ := tied_abort tied taken
    obtain ⟨tx, current, answer⟩ := Option.bind_eq_some_iff.mp taken
    refine ⟨⟨⟨_, next⟩, whole, keys.drop_opened⟩, ?_⟩
    split at answer
    · cases answer; trivial
    · obtain ⟨q, _, answer⟩ := Option.map_eq_some_iff.mp answer
      cases answer; trivial
  | discard =>
    have next := tied_discard tied taken
    obtain ⟨tx, current, answer⟩ := Option.map_eq_some_iff.mp taken
    cases answer
    exact ⟨⟨⟨es, next⟩, whole, keys.drop_opened⟩, trivial⟩
  | drain =>
    have next := tied_drain tied taken
    obtain ⟨q, _, answer⟩ := Option.map_eq_some_iff.mp taken
    cases answer
    exact ⟨⟨⟨_, next⟩, whole, keys⟩, trivial⟩
  | checkpoint =>
    obtain ⟨next, ⟨rfl, _⟩ | ⟨id, rfl, _⟩⟩ := tied_checkpoint tied taken
    · exact ⟨⟨⟨es, next⟩, whole, keys⟩, .inl rfl⟩
    · exact ⟨⟨⟨es, next⟩, whole, keys⟩, .inr ⟨id, rfl⟩⟩
  | truncate => exact ok.elim
  | restart =>
    have rebuilt : applyAll (fun _ => none) (replayWrites es) = s.map := by
      rw [tied.replay, Spec.map, whole]
    obtain ⟨next, stats, rfl⟩ := tied_restart tied rebuilt (map_empty_key keys) taken
    exact ⟨⟨⟨es, next⟩, whole, keys.drop_opened⟩, stats, rfl⟩

theorem plain_fresh (path : String) : Plain crates 0 (.fresh path) .start := by
  refine ⟨⟨[], ⟨⟨[], rfl, .nil⟩, ⟨0, rfl⟩, le_rfl, List.forall_mem_nil _, List.forall_mem_nil _,
    rfl, ⟨[], rfl⟩, rfl,
    fun _ => rfl, fun _ same => by cases same⟩⟩, rfl, List.forall_mem_nil _⟩

/-- The whole run: fewer than `2 ^ 64 - 1` transactions begin in it. -/
theorem serial_refines_map {path : String} {as : List SerialAction}
    (run : (serialPair crates PlainCalls).exec (.fresh path, .start) as = some (p, s))
    (few : (as.map SerialAction.begins).sum < 2 ^ 64 - 1) : Refines crates p s := by
  have plain : Plain crates (0 + (as.map SerialAction.begins).sum) p s :=
    Paired.exec_invariant (P := serialPair crates PlainCalls) SerialAction.begins (2 ^ 64 - 2)
      (fun plain within ok taken => (plain_step plain within ok taken).1) run (plain_fresh path)
        (by omega)
  refine ⟨plain.1.choose_spec.store, fun a p' r ok taken => ?_⟩
  cases a with
  | new =>
    simp only [serialStep] at taken
    split at taken
    · contradiction
    · cases taken
      trivial
  | appendOp | commit | abort | discard | drain | checkpoint | truncate | restart =>
    refine (plain_step plain ?_ ok taken).2
    simp only [SerialAction.begins]
    omega

section Exhausted

def idleProcess (i : Nat) : Process :=
  { Process.fresh "wal.log" with mem := ⟨fun _ => none, UInt64.ofNat (i + 1)⟩ }

theorem idle_body (i : Nat) :
    (serialPair (Bincode.crates false) PlainCalls).exec (idleProcess i, .start) [.new, .discard] =
    some (idleProcess (i + 1), .start) := by
  have counter : UInt64.ofNat (i + 1) + 1 = UInt64.ofNat (i + 1 + 1) :=
    (UInt64.ofNat_add (i + 1) 1).symm
  rw [idleProcess, idleProcess, ← counter]
  rfl

/-- The transaction of the highest id writes, then the one of id 0 after the wrap, then a crash. -/
def acrossWrap : List SerialAction :=
  [.new, .appendOp (.insert 0 0 "k" [1]) 7, .commit 7, .new, .appendOp (.insert 0 0 "k" [2]) 7,
    .commit 7, .restart]

/-- After `2 ^ 64 - 1` transactions the ids start again at 0,
and recovery replays the newest one first. -/
theorem wrapped_ids_lose_commit :
    ¬ ∀ (crates : Crates) (path : String) (as : List SerialAction) (p : Process) (s : Spec),
      (serialPair crates PlainCalls).exec (.fresh path, .start) as = some (p, s) →
        Refines crates p s := by
  intro claim
  have idle : (serialPair (Bincode.crates false) PlainCalls).exec (.fresh "wal.log", .start)
      (List.replicate (2 ^ 64 - 2) [.new, .discard]).flatten =
        some (idleProcess (2 ^ 64 - 2), .start) :=
    Paired.exec_loop (f := fun i => (idleProcess i, Spec.start)) _ fun i _ => idle_body i
  have ends : ((serialPair (Bincode.crates false) PlainCalls).exec (idleProcess (2 ^ 64 - 2),
      .start) acrossWrap).isSome = true := by
    decide +kernel
  obtain ⟨⟨p, s⟩, last⟩ := Option.isSome_iff_exists.mp ends
  have refines := claim (Bincode.crates false) "wal.log" (_ ++ acrossWrap) p s
    (by rw [Paired.exec_append, idle]; exact last)
  have differs : (((serialPair (Bincode.crates false) PlainCalls).exec (idleProcess (2 ^ 64 - 2),
    .start) acrossWrap).map
      fun out => decide (out.1.mem.store "k" = out.2.map "k")) = some false := by decide +kernel
  rw [last] at differs
  exact absurd (congrFun refines.1 "k") (of_decide_eq_false (Option.some.inj differs))

end Exhausted

def someLife : List SerialAction :=
  [.new, .appendOp (.insert 0 0 "k" [1]) 7, .commit 7, .new, .appendOp (.delete 0 0 "k" []) 7,
    .abort 7, .checkpoint,
    .new, .appendOp (.insert 0 0 "k" [3]) 7, .discard, .drain, .new,
      .appendOp (.update 0 0 "k" [1] [2]) 7, .commit 7, .restart]

theorem serial_refines_map_someLife :
    let out := ((serialPair (Bincode.crates true) PlainCalls).exec (.fresh "wal.log", .start)
      someLife).get (by decide +kernel)
    Refines (Bincode.crates true) out.1 out.2 :=
  serial_refines_map (Option.some_get _).symm (by decide)

end AsyncWalDb
