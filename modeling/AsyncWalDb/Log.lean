import AsyncWalDb.Types
import Mathlib.Data.List.Dedup
import Mathlib.Data.List.Sort

/-! What a log of entries means: a transaction is committed when its last marker is a Commit,
and the log stands for the writes of its committed transactions in ascending id order. -/
namespace AsyncWalDb

open KeyedWrites

def entriesOf (id : UInt64) (es : List WalEntry) : List WalEntry := es.filter fun e => e.txId = id

def lastMarker (id : UInt64) (es : List WalEntry) : Option WalEntry :=
  ((entriesOf id es).filter WalEntry.isMarker).getLast?

def committed (es : List WalEntry) (id : UInt64) : Bool := (lastMarker id es).any WalEntry.isCommit

def writesOf (id : UInt64) (es : List WalEntry) : List (Write String Bytes) :=
  (entriesOf id es).filterMap WalEntry.write?

def committedIds (es : List WalEntry) : List UInt64 :=
  ((es.map WalEntry.txId).dedup.filter (committed es)).insertionSort (· ≤ ·)

def replayWrites (es : List WalEntry) : List (Write String Bytes) :=
  (committedIds es).flatMap fun id => writesOf id es

@[simp] theorem entriesOf_nil (id : UInt64) : entriesOf id [] = [] := rfl

@[simp] theorem entriesOf_append (id : UInt64) (es fs : List WalEntry) :
    entriesOf id (es ++ fs) = entriesOf id es ++ entriesOf id fs := List.filter_append es fs

@[simp] theorem writesOf_append (id : UInt64) (es fs : List WalEntry) :
    writesOf id (es ++ fs) = writesOf id es ++ writesOf id fs := by
  rw [writesOf, entriesOf_append, List.filterMap_append]
  rfl

theorem mem_entriesOf {id : UInt64} {es : List WalEntry} {e : WalEntry} :
    e ∈ entriesOf id es ↔ e ∈ es ∧ e.txId = id := by simp [entriesOf]

theorem entriesOf_eq_nil {id : UInt64} {es : List WalEntry} :
    entriesOf id es = [] ↔ ∀ e ∈ es, e.txId ≠ id := by simp [entriesOf]

theorem writesOf_eq_nil {id : UInt64} {es : List WalEntry} (h : entriesOf id es = []) :
    writesOf id es = [] := by
  rw [writesOf, h]
  rfl

theorem lastMarker_append (id : UInt64) (es fs : List WalEntry) :
    lastMarker id (es ++ fs) = (lastMarker id fs).or (lastMarker id es) := by
  rw [lastMarker, entriesOf_append, List.filter_append, List.getLast?_append]
  rfl

theorem lastMarker_one (id : UInt64) (e : WalEntry) :
    lastMarker id [e] = if e.txId = id ∧ e.isMarker = true then some e else none := by
  by_cases own : e.txId = id
  · by_cases mark : e.isMarker = true <;> simp [lastMarker, entriesOf, own, mark]
  · simp [lastMarker, entriesOf, own]

theorem lastMarker_mem {id : UInt64} {es : List WalEntry} {m : WalEntry}
    (h : lastMarker id es = some m) : m ∈ es ∧ m.txId = id ∧ m.isMarker = true := by
  have mem := List.mem_filter.mp (List.mem_of_getLast? h)
  exact ⟨(mem_entriesOf.mp mem.1).1, (mem_entriesOf.mp mem.1).2, mem.2⟩

theorem committed_iff {es : List WalEntry} {id : UInt64} :
    committed es id = true ↔ ∃ m, lastMarker id es = some m ∧ m.isCommit = true := by
  cases h : lastMarker id es <;> simp [committed, h]

theorem committed_mem {es : List WalEntry} {id : UInt64} (h : committed es id = true) :
    ∃ m ∈ es, m.txId = id ∧ m.isCommit = true := by
  obtain ⟨m, hm, hc⟩ := committed_iff.mp h
  exact ⟨m, (lastMarker_mem hm).1, (lastMarker_mem hm).2.1, hc⟩

theorem lastMarker_congr {id : UInt64} {es fs : List WalEntry}
    (h : entriesOf id es = entriesOf id fs) :
    lastMarker id es = lastMarker id fs := by rw [lastMarker, lastMarker, h]

theorem committed_congr {id : UInt64} {es fs : List WalEntry}
    (h : entriesOf id es = entriesOf id fs) :
    committed es id = committed fs id := by rw [committed, committed, lastMarker_congr h]

theorem writesOf_congr {id : UInt64} {es fs : List WalEntry}
    (h : entriesOf id es = entriesOf id fs) :
    writesOf id es = writesOf id fs := by rw [writesOf, writesOf, h]

theorem entriesOf_snoc_own (es : List WalEntry) (e : WalEntry) :
    entriesOf e.txId (es ++ [e]) = entriesOf e.txId es ++ [e] := by
  simp [entriesOf]

theorem entriesOf_snoc_other {id : UInt64} {e : WalEntry} (es : List WalEntry)
    (other : id ≠ e.txId) : entriesOf id (es ++ [e]) = entriesOf id es := by
  simp [entriesOf, Ne.symm other]

theorem committed_snoc_other {id : UInt64} {e : WalEntry} (es : List WalEntry)
    (other : id ≠ e.txId) :
    committed (es ++ [e]) id = committed es id := committed_congr (entriesOf_snoc_other es other)

theorem committed_snoc_own (es : List WalEntry) (e : WalEntry) :
    committed (es ++ [e]) e.txId = if e.isMarker then e.isCommit else committed es e.txId := by
  rw [committed, lastMarker_append, lastMarker_one]
  cases mark : e.isMarker <;> simp [committed]

theorem mem_committedIds {es : List WalEntry} {id : UInt64} : id ∈ committedIds es ↔
    committed es id = true := by
  rw [committedIds, List.mem_insertionSort, List.mem_filter, List.mem_dedup, List.mem_map]
  constructor
  · exact And.right
  · intro h
    obtain ⟨m, mem, own, _⟩ := committed_mem h
    exact ⟨⟨m, mem, own⟩, h⟩

theorem committedIds_nodup (es : List WalEntry) : (committedIds es).Nodup :=
  (List.perm_insertionSort _ _).nodup_iff.mpr ((List.nodup_dedup _).filter _)

theorem sorted_lt_of_nodup {ids : List UInt64} (sorted : ids.Pairwise (· ≤ ·))
    (distinct : ids.Nodup) :
    ids.Pairwise (· < ·) := (sorted.and distinct).imp fun ⟨le, ne⟩ => lt_of_le_of_ne le ne

theorem committedIds_sorted (es : List WalEntry) : (committedIds es).Pairwise (· < ·) :=
  sorted_lt_of_nodup (List.pairwise_insertionSort _ _) (committedIds_nodup es)

theorem eq_of_sorted_lt {ids js : List UInt64} (hi : ids.Pairwise (· < ·))
    (hj : js.Pairwise (· < ·)) (same : ∀ id, id ∈ ids ↔ id ∈ js) : ids = js := by
  have perm : ids.Perm js :=
    (List.perm_ext_iff_of_nodup (hi.imp ne_of_lt) (hj.imp ne_of_lt)).mpr same
  exact perm.eq_of_pairwise (fun a b _ _ hab hba => absurd hab (lt_asymm hba)) hi hj

theorem eq_committedIds {ids : List UInt64} {es : List WalEntry} (sorted : ids.Pairwise (· < ·))
    (members : ∀ id, id ∈ ids ↔ committed es id = true) : ids = committedIds es :=
  eq_of_sorted_lt sorted (committedIds_sorted es) fun id => (members id).trans mem_committedIds.symm

theorem committedIds_congr {es fs : List WalEntry}
    (same : ∀ id, committed es id = committed fs id) : committedIds es = committedIds fs :=
  eq_committedIds (committedIds_sorted es) fun id => by rw [mem_committedIds, same]

theorem replayWrites_congr {es fs : List WalEntry} (same : ∀ id, committed es id = committed fs id)
    (writes : ∀ id, committed es id = true → writesOf id es = writesOf id fs) :
    replayWrites es = replayWrites fs := by
  rw [replayWrites, replayWrites, committedIds_congr same]
  refine List.flatMap_congr fun id hid => writes id ?_
  rw [same]
  exact mem_committedIds.mp hid

def without (ids : List UInt64) (es : List WalEntry) : List WalEntry :=
  es.filter fun e => e.txId ∉ ids

theorem entriesOf_without {id : UInt64} {ids : List UInt64} (es : List WalEntry)
    (other : id ∉ ids) : entriesOf id (without ids es) = entriesOf id es := by
  rw [entriesOf, without, List.filter_filter]
  refine List.filter_congr fun e _ => ?_
  by_cases own : e.txId = id <;> simp [own, other]

/-- Logs that differ only in uncommitted transactions have
the same committed ones, with the same operations. -/
structure SameCommitted (es fs : List WalEntry) : Prop where
  ids : ∀ id, committed es id = committed fs id
  writes : ∀ id, committed es id = true → writesOf id es = writesOf id fs

theorem sameCommitted_of_without {ids : List UInt64} {es fs : List WalEntry}
    (same : without ids es = without ids fs) (none_es : ∀ id ∈ ids, committed es id = false)
    (none_fs : ∀ id ∈ ids, committed fs id = false) : SameCommitted es fs := by
  have others : ∀ id, id ∉ ids → entriesOf id es = entriesOf id fs := by
    intro id other
    rw [← entriesOf_without es other, same, entriesOf_without fs other]
  refine ⟨fun id => ?_, fun id done => writesOf_congr (others id fun lost => ?_)⟩
  · by_cases lost : id ∈ ids
    · rw [none_es id lost, none_fs id lost]
    · exact committed_congr (others id lost)
  · rw [none_es id lost] at done
    contradiction

theorem committed_append_quiet {es fs : List WalEntry}
    (apart : ∀ f ∈ fs, committed es f.txId = false)
    (quiet : ∀ f ∈ fs, f.isCommit = false) (id : UInt64) :
    committed (es ++ fs) id = committed es id := by
  by_cases later : entriesOf id fs = []
  · exact committed_congr (by rw [entriesOf_append, later, List.append_nil])
  · have some_entry := mt entriesOf_eq_nil.mpr later
    push Not at some_entry
    obtain ⟨f, hf, rfl⟩ := some_entry
    cases marker : lastMarker f.txId fs with
    | none => rw [committed, lastMarker_append, marker, Option.none_or, committed]
    | some m =>
      rw [apart f hf, committed, lastMarker_append, marker, Option.some_or, Option.any_some]
      exact quiet m (lastMarker_mem marker).1

theorem replayWrites_append_quiet {es fs : List WalEntry}
    (apart : ∀ f ∈ fs, committed es f.txId = false)
    (quiet : ∀ f ∈ fs, f.isCommit = false) : replayWrites (es ++ fs) = replayWrites es := by
  refine replayWrites_congr (committed_append_quiet apart quiet) fun id done => writesOf_congr ?_
  rw [committed_append_quiet apart quiet] at done
  have none_later : entriesOf id fs = [] := by
    refine entriesOf_eq_nil.mpr fun f hf own => ?_
    rw [← own, apart f hf] at done
    contradiction
  rw [entriesOf_append, none_later, List.append_nil]

theorem replayWrites_commit {es : List WalEntry} {id timestamp : UInt64}
    (above : ∀ j, committed es j = true → j < id) :
    replayWrites (es ++ [.commit id timestamp]) = replayWrites es ++ writesOf id es := by
  have other : ∀ {j}, j ≠ id → entriesOf j (es ++ [.commit id timestamp]) = entriesOf j es :=
    fun ne => entriesOf_snoc_other es ne
  have ids : committedIds es ++ [id] = committedIds (es ++ [.commit id timestamp]) := by
    apply eq_committedIds
    · refine List.pairwise_append.mpr ⟨committedIds_sorted es, List.pairwise_singleton _ _,
        fun j hj i hi => ?_⟩
      rw [List.mem_singleton.mp hi]
      exact above j (mem_committedIds.mp hj)
    · intro j
      rw [List.mem_append, mem_committedIds, List.mem_singleton]
      by_cases own : j = id
      · have done : committed (es ++ [.commit id timestamp]) id = true :=
          committed_snoc_own es (.commit id timestamp)
        simp [own, done]
      · simp [own, committed_congr (other own)]
  rw [replayWrites, ← ids, List.flatMap_append, List.flatMap_singleton, replayWrites]
  congr 1
  · exact List.flatMap_congr fun j hj =>
      writesOf_congr (other (ne_of_lt (above j (mem_committedIds.mp hj))))
  · rw [writesOf_append]
    simp [writesOf, entriesOf, WalEntry.txId, WalEntry.write?]

theorem replayWrites_append {es fs : List WalEntry} (apart : ∀ e ∈ es, ∀ f ∈ fs, e.txId < f.txId) :
    replayWrites (es ++ fs) = replayWrites es ++ replayWrites fs := by
  have left : ∀ id, (∃ e ∈ es, e.txId = id) → entriesOf id fs = [] := by
    rintro id ⟨e, he, rfl⟩
    exact entriesOf_eq_nil.mpr fun f hf => (ne_of_lt (apart e he f hf)).symm
  have right : ∀ id, (∃ f ∈ fs, f.txId = id) → entriesOf id es = [] := by
    rintro id ⟨f, hf, rfl⟩
    exact entriesOf_eq_nil.mpr fun e he => ne_of_lt (apart e he f hf)
  have occurs : ∀ {gs : List WalEntry} {id : UInt64}, committed gs id = true → ∃ e ∈ gs,
      e.txId = id := by
    intro gs id h
    obtain ⟨e, he, own, _⟩ := committed_mem h
    exact ⟨e, he, own⟩
  have ids : committedIds es ++ committedIds fs = committedIds (es ++ fs) := by
    apply eq_committedIds
    · refine List.pairwise_append.mpr ⟨committedIds_sorted es, committedIds_sorted fs,
        fun a ha b hb => ?_⟩
      obtain ⟨e, he, rfl⟩ := occurs (mem_committedIds.mp ha)
      obtain ⟨f, hf, rfl⟩ := occurs (mem_committedIds.mp hb)
      exact apart e he f hf
    · intro id
      rw [List.mem_append, mem_committedIds, mem_committedIds]
      by_cases low : ∃ e ∈ es, e.txId = id
      · have none_high := left id low
        have quiet : committed fs id ≠ true := fun h => by
          obtain ⟨f, hf, own⟩ := occurs h
          exact entriesOf_eq_nil.mp none_high f hf own
        rw [committed_congr (by rw [entriesOf_append, none_high,
          List.append_nil] : entriesOf id (es ++ fs) = entriesOf id es)]
        simp [quiet]
      · have none_low : entriesOf id es = [] := entriesOf_eq_nil.mpr fun e he own =>
          low ⟨e, he, own⟩
        have quiet : committed es id ≠ true := fun h => low (occurs h)
        rw [committed_congr (by rw [entriesOf_append, none_low,
          List.nil_append] : entriesOf id (es ++ fs) = entriesOf id fs)]
        simp [quiet]
  rw [replayWrites, ← ids, List.flatMap_append]
  congr 1
  · refine List.flatMap_congr fun id hid => ?_
    rw [writesOf_append, writesOf_eq_nil (left id (occurs (mem_committedIds.mp hid))),
      List.append_nil]
  · refine List.flatMap_congr fun id hid => ?_
    rw [writesOf_append, writesOf_eq_nil (right id (occurs (mem_committedIds.mp hid))),
      List.nil_append]

theorem lastOn_replayWrites {key : String} {es : List WalEntry} {v : Option Bytes} :
    lastOn key (replayWrites es) = some v ↔ ∃ id, committed es id = true ∧
      lastOn key (writesOf id es) = some v ∧
      ∀ j, id < j → committed es j = true → lastOn key (writesOf j es) = none := by
  have sorted := committedIds_sorted es
  rw [replayWrites, lastOn_flatMap]
  constructor
  · rintro ⟨pre, id, post, split, at_id, quiet⟩
    rw [split, List.pairwise_append, List.pairwise_cons] at sorted
    refine ⟨id, mem_committedIds.mp (by rw [split]; simp), at_id, fun j above done => quiet j ?_⟩
    have mem := mem_committedIds.mpr done
    rw [split, List.mem_append, List.mem_cons] at mem
    rcases mem with low | rfl | high
    · exact absurd above (lt_asymm (sorted.2.2 j low id List.mem_cons_self))
    · exact absurd above (lt_irrefl _)
    · exact high
  · rintro ⟨id, done, at_id, quiet⟩
    obtain ⟨pre, post, split⟩ := List.append_of_mem (mem_committedIds.mpr done)
    refine ⟨pre, id, post, split, at_id,
      fun j hj => quiet j ?_ (mem_committedIds.mp (by rw [split]; simp [hj]))⟩
    rw [split, List.pairwise_append, List.pairwise_cons] at sorted
    exact sorted.2.1.1 j hj

end AsyncWalDb
