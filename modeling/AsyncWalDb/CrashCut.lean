import AsyncWalDb.Bincode
import AsyncWalDb.Recovery

/-! A crash cuts the WAL file at an arbitrary byte. Recovery of what is left applies exactly
the transactions whose Commit frame lies whole before the cut. -/
namespace AsyncWalDb

open KeyedWrites Framing

/-- Each transaction's entries are operations on non-empty keys, then at most one marker. -/
def Disciplined (es : List WalEntry) : Prop :=
  ∀ id, ∃ ops ends, entriesOf id es = ops ++ ends ∧ ends.length ≤ 1 ∧
    (∀ e ∈ ops, ∃ w, e.write? = some w ∧ w.key ≠ "") ∧ ∀ e ∈ ends, e.isMarker = true

/-- The Commit frame of the transaction ends at or before the offset. -/
def CommitEndsBy (crates : Crates) (es : List WalEntry) (c : Nat) (id : UInt64) : Prop :=
  ∃ before ts after, es = before ++ .commit id ts :: after ∧
    ((before ++ [.commit id ts]).flatMap (frame crates)).length ≤ c

theorem operation_of_write {e : WalEntry} {w : Write String Bytes} (h : e.write? = some w) :
    e.isMarker = false := by
  simpa [h] using WalEntry.write?_isSome e

theorem Disciplined.marker_last {es before after : List WalEntry} {m : WalEntry}
    (disciplined : Disciplined es) (split : es = before ++ m :: after) (mark : m.isMarker = true) :
    entriesOf m.txId after = [] := by
  obtain ⟨ops, ends, shape, short, operations, _⟩ := disciplined m.txId
  have front : entriesOf m.txId es = entriesOf m.txId before ++ m :: entriesOf m.txId after := by
    rw [split, entriesOf_append]
    simp [entriesOf]
  -- a last entry of `after` would be an operation behind a marker, or a second marker
  rcases List.eq_nil_or_concat (entriesOf m.txId after) with none_after | ⟨rest, last, tail⟩
  · exact none_after
  · exfalso
    have whole : (entriesOf m.txId before ++ m :: rest) ++ [last] = ops ++ ends := by
      rw [← shape, front, tail, List.concat_eq_append]
      simp
    have m_in_front : m ∈ entriesOf m.txId before ++ m :: rest := by simp
    have mem : m ∈ ops := by
      rcases ends with _ | ⟨e, _ | ⟨_, _⟩⟩
      · rw [List.append_nil] at whole
        exact whole ▸ List.mem_append_left _ m_in_front
      · exact (List.append_inj_left' whole rfl) ▸ m_in_front
      · simp at short
    obtain ⟨w, hw, _⟩ := operations m mem
    rw [operation_of_write hw] at mark
    contradiction

variable {crates : Crates} {es : List WalEntry}

theorem Disciplined.commit_within (disciplined : Disciplined es) {c : Nat} {id : UInt64}
    (ends : CommitEndsBy crates es c id) : ∃ before ts later rest,
      wholeWithin (frame crates) es c = before ++ .commit id ts :: later ∧
        es = wholeWithin (frame crates) es c ++ rest ∧
      entriesOf id later = [] ∧ entriesOf id rest = [] := by
  obtain ⟨rest, cut⟩ := wholeWithin_prefix (frame crates) es c
  obtain ⟨before, ts, after, split, ends⟩ := ends
  have pre : before ++ [.commit id ts] <+: es := ⟨after, by rw [split]; simp⟩
  obtain ⟨later, inside⟩ := (prefix_wholeWithin_iff (frame crates) _ es c pre).mpr (.inl ends)
  have tail : after = later ++ rest := by
    rw [← cut, ← inside] at split
    simpa using split.symm
  have none_after : entriesOf id after = [] := disciplined.marker_last split rfl
  rw [tail, entriesOf_append] at none_after
  obtain ⟨none_later, none_rest⟩ := List.append_eq_nil_iff.mp none_after
  exact ⟨before, ts, later, rest, by simpa using inside.symm, cut.symm, none_later, none_rest⟩

theorem Disciplined.committed_cut_iff (disciplined : Disciplined es) (c : Nat) (id : UInt64) :
    committed (wholeWithin (frame crates) es c) id = true ↔ CommitEndsBy crates es c id := by
  constructor
  · intro h
    obtain ⟨rest, cut⟩ := wholeWithin_prefix (frame crates) es c
    obtain ⟨m, mem, own, commit⟩ := committed_mem h
    obtain ⟨before, after, split⟩ := List.append_of_mem mem
    have inside : before ++ [m] <+: wholeWithin (frame crates) es c := ⟨after, by rw [split]; simp⟩
    have ends := (prefix_wholeWithin_iff (frame crates) _ es c (inside.trans ⟨rest, cut⟩)).mp inside
    cases m with
    | commit id' ts =>
      cases own
      exact ⟨before, ts, after ++ rest, by rw [← cut, split]; simp [WalEntry.txId],
        ends.resolve_right (by simp)⟩
    | _ => cases commit
  · intro ends
    obtain ⟨before, ts, later, rest, inside, _, none_later, _⟩ := disciplined.commit_within ends
    have unmarked : lastMarker id later = none := by rw [lastMarker, none_later]; rfl
    rw [committed_iff]
    refine ⟨.commit id ts, ?_, rfl⟩
    rw [inside, List.append_cons, lastMarker_append, unmarked, lastMarker_append, lastMarker_one]
    simp [WalEntry.txId, WalEntry.isMarker]

theorem Disciplined.writesOf_cut (disciplined : Disciplined es) {c : Nat} {id : UInt64}
    (ends : CommitEndsBy crates es c id) :
    writesOf id (wholeWithin (frame crates) es c) = writesOf id es := by
  obtain ⟨_, _, _, rest, _, cut, _, none_rest⟩ := disciplined.commit_within ends
  calc writesOf id (wholeWithin (frame crates) es c)
      = writesOf id (wholeWithin (frame crates) es c ++ rest) := by
        rw [writesOf_append, writesOf_eq_nil none_rest, List.append_nil]
    _ = writesOf id es := by rw [← cut]

def recoveredIds (crates : Crates) (es : List WalEntry) (c : Nat) : List UInt64 :=
  committedIds (readLog crates ((es.flatMap (frame crates)).take c)).items

theorem mem_recoveredIds (fits : ∀ e ∈ es, crates.Fits e) (disciplined : Disciplined es)
    (c : Nat) (id : UInt64) : id ∈ recoveredIds crates es c ↔ CommitEndsBy crates es c id := by
  rw [recoveredIds, mem_committedIds, (readLog_take fits c).1, disciplined.committed_cut_iff]

/-- Recovery from a crash at any byte is atomic: the store is that of the whole transactions
whose Commit frame ends by the cut, in ascending id order, and later cuts recover no fewer. -/
theorem crash_cut_atomic (fits : ∀ e ∈ es, crates.Fits e) (disciplined : Disciplined es) (c : Nat)
    (nextTxId : UInt64) :
    (∃ ids : List UInt64, ids.Pairwise (· < ·) ∧ (∀ id, id ∈ ids ↔ CommitEndsBy crates es c id) ∧
      (recoverWithValidation crates (some ((es.flatMap (frame crates)).take c))
        ⟨fun _ => none, nextTxId⟩).2.store =
        applyAll (fun _ => none) (ids.flatMap fun id => writesOf id es)) ∧
    ∀ d, c ≤ d → ∀ id ∈ recoveredIds crates es c, id ∈ recoveredIds crates es d := by
  refine ⟨⟨recoveredIds crates es c, committedIds_sorted _,
    mem_recoveredIds fits disciplined c, ?_⟩, ?_⟩
  · rw [recover_store _ (readLog_take_readable fits c), replayWrites]
    congr 1
    refine List.flatMap_congr fun id hid => ?_
    rw [(readLog_take fits c).1]
    exact disciplined.writesOf_cut ((mem_recoveredIds fits disciplined c id).mp hid)
  · intro d later id hid
    obtain ⟨before, ts, after, split, ends⟩ := (mem_recoveredIds fits disciplined c id).mp hid
    exact (mem_recoveredIds fits disciplined d id).mpr ⟨before, ts, after, split,
      Nat.le_trans ends later⟩

def cutLog : List WalEntry :=
  [.insert 1 7 "a" [1], .insert 2 7 "b" [2], .commit 2 7, .commit 1 7]

theorem cutLog_disciplined : Disciplined cutLog := by
  intro id
  by_cases one : id = 1
  · subst one
    exact ⟨[.insert 1 7 "a" [1]], [.commit 1 7], by decide, by decide,
      by simp [WalEntry.write?], by simp [WalEntry.isMarker]⟩
  · by_cases two : id = 2
    · subst two
      exact ⟨[.insert 2 7 "b" [2]], [.commit 2 7], by decide, by decide,
        by simp [WalEntry.write?], by simp [WalEntry.isMarker]⟩
    · exact ⟨[], [], by simp [entriesOf_eq_nil, cutLog, WalEntry.txId, Ne.symm one, Ne.symm two],
        by simp, by simp, by simp⟩

theorem crash_cut_atomic_cutLog :
    (∃ ids : List UInt64, ids.Pairwise (· < ·) ∧
      (∀ id, id ∈ ids ↔ CommitEndsBy (Bincode.crates true) cutLog 150 id) ∧
      (recoverWithValidation (Bincode.crates true)
        (some ((cutLog.flatMap (frame (Bincode.crates true))).take 150))
        ⟨fun _ => none, 1⟩).2.store =
          applyAll (fun _ => none) (ids.flatMap fun id => writesOf id cutLog)) ∧
    ∀ d, 150 ≤ d → ∀ id ∈ recoveredIds (Bincode.crates true) cutLog 150,
      id ∈ recoveredIds (Bincode.crates true) cutLog d :=
  crash_cut_atomic (by decide +kernel) cutLog_disciplined 150 1

end AsyncWalDb
