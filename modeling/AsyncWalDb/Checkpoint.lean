import AsyncWalDb.Recovery

/-! The checkpoint marker file and `Database::checkpoint`. The scan, the replay and the two steps
of writing the marker are separate definitions, since other tasks can run between them. -/
namespace AsyncWalDb

open KeyedWrites Framing

/-- The files behind one WAL path; the marker file holds text. -/
structure Disk where
  path : String
  wal : Option Bytes
  ckpt : Option (List Char)

/-- Unicode `White_Space`, which `str::trim` removes at both ends. -/
def isWhiteSpace (c : Char) : Bool :=
  let n := c.toNat
  (9 ≤ n ∧ n ≤ 13) ∨ n = 0x20 ∨ n = 0x85 ∨ n = 0xA0 ∨ n = 0x1680 ∨ (0x2000 ≤ n ∧ n ≤ 0x200A) ∨
    n = 0x2028 ∨ n = 0x2029 ∨ n = 0x202F ∨ n = 0x205F ∨ n = 0x3000

def trim (cs : List Char) : List Char :=
  ((cs.dropWhile isWhiteSpace).reverse.dropWhile isWhiteSpace).reverse

/-- The digits from the left: each is checked before the number so far can overflow on it. -/
def parseDigits : List Char → Nat → Except String UInt64
  | [], n => .ok (UInt64.ofNat n)
  | c :: rest, n =>
    if ¬ c.isDigit then .error "invalid digit found in string"
    else
      let n := 10 * n + (c.toNat - '0'.toNat)
      if 2 ^ 64 ≤ n then .error "number too large to fit in target type" else parseDigits rest n

/-- `str::parse::<u64>`, with the texts of its errors. -/
def parseU64 (cs : List Char) : Except String UInt64 :=
  match cs with
  | [] => .error "cannot parse integer from empty string"
  | c :: rest =>
    let digits := if c = '+' then rest else cs
    if digits = [] then .error "invalid digit found in string" else parseDigits digits 0

def getLastCheckpoint : Option (List Char) → Except WalError UInt64
  | none => .ok 0
  | some contents =>
    match parseU64 (trim contents) with
    | .error e => .error (.checkpoint ("Invalid checkpoint TxID: " ++ e))
    | .ok id => .ok id

def decimal (id : UInt64) : List Char := Nat.toDigits 10 id.toNat

/-- `set_checkpoint` opens with truncation and writes the text from the start of the file. -/
def openMarker (_ : Option (List Char)) : Option (List Char) := some []

def writeMarker (id : UInt64) (ckpt : Option (List Char)) : Option (List Char) :=
  some (decimal id ++ (ckpt.getD []).drop (decimal id).length)

/-- The same write when only the first `k` characters have come into the file. -/
def writeDigits (id : UInt64) (k : Nat) (ckpt : Option (List Char)) : Option (List Char) :=
  some ((decimal id).take k ++ (ckpt.getD []).drop k)

def setCheckpoint (id : UInt64) (ckpt : Option (List Char)) : Option (List Char) :=
  writeMarker id (openMarker ckpt)

/-- `tx_entries` and `committed_txs`; the latter is a set. -/
structure CkptScan where
  txEntries : TxMap (List WalEntry)
  committedTxs : List UInt64

def CkptScan.empty : CkptScan := ⟨∅, []⟩

def ckptTrack (lastCkpt : UInt64) (t : CkptScan) (e : WalEntry) : CkptScan :=
  if e.txId ≤ lastCkpt then t
  else
    { txEntries := pushEntry t.txEntries e
      committedTxs := match e with
        | .commit id _ => t.committedTxs.insert id
        | .abort id _ => t.committedTxs.erase id
        | _ => t.committedTxs }

/-- The reading loop: only a short header ends it without an error. -/
def checkpointScan (crates : Crates) (lastCkpt : UInt64) (bytes : Bytes) : Outcome CkptScan :=
  let scan := readLog crates bytes
  match scan.exit with
  | .headerEof => .ok (scan.items.foldl (ckptTrack lastCkpt) .empty)
  | .payloadEof => .err (.io .unexpectedEof)
  | .checksum e => .err e
  | .undecodable => .err .deserialization
  | .capacityOverflow => .panicked

def checkpointReplay (lastCkpt : UInt64) (t : CkptScan) (store : Store) : Store :=
  replay t.txEntries ((t.committedTxs.filter fun id => lastCkpt < id).insertionSort (· ≤ ·)) store

def maxCkpt (lastCkpt : UInt64) (t : CkptScan) : UInt64 := (t.committedTxs.max?).getD lastCkpt

/-- `Database::checkpoint` running alone, its marker write succeeding. -/
def checkpoint (crates : Crates) (disk : Disk) (store : Store) : Outcome UInt64 × Disk × Store :=
  match getLastCheckpoint disk.ckpt with
  | .error e => (.err e, disk, store)
  | .ok lastCkpt =>
    if lastCkpt = 0 ∧ disk.path.isEmpty then (.err .noNewCheckpoints, disk, store)
    else match disk.wal with
      | none => (.err .openWal, disk, store)
      | some bytes =>
        match checkpointScan crates lastCkpt bytes with
        | .err e => (.err e, disk, store)
        | .panicked => (.panicked, disk, store)
        | .ok t =>
          if t.committedTxs.isEmpty then (.err .noNewCheckpoints, disk, store)
          else
            let id := maxCkpt lastCkpt t
            (.ok id, { disk with ckpt := setCheckpoint id disk.ckpt },
              checkpointReplay lastCkpt t store)

section Marker

theorem isWhiteSpace_of_isDigit {c : Char} (h : c.isDigit = true) : isWhiteSpace c = false := by
  simp only [Char.isDigit, Bool.and_eq_true, decide_eq_true_eq, ge_iff_le] at h
  have low : 48 ≤ c.toNat := UInt32.le_iff_toNat_le.mp h.1
  have high : c.toNat ≤ 57 := UInt32.le_iff_toNat_le.mp h.2
  simp only [isWhiteSpace, decide_eq_false_iff_not]
  omega

theorem trim_digits {cs : List Char} (h : ∀ c ∈ cs, c.isDigit = true) : trim cs = cs := by
  have keep : ∀ ds : List Char, (∀ c ∈ ds, c.isDigit = true) → ds.dropWhile isWhiteSpace = ds := by
    intro ds hd
    cases ds with
    | nil => rfl
    | cons d ds =>
      rw [List.dropWhile_cons_of_neg]
      simp [isWhiteSpace_of_isDigit (hd d List.mem_cons_self)]
  rw [trim, keep cs h, keep cs.reverse (fun c hc => h c (List.mem_reverse.mp hc)),
    List.reverse_reverse]

theorem decimal_isDigit (id : UInt64) : ∀ c ∈ decimal id, c.isDigit = true :=
  fun _ hc => Nat.isDigit_of_mem_toDigits (by decide) (by decide) hc

theorem le_ofDigitChars (cs : List Char) (n : Nat) : n ≤ Nat.ofDigitChars 10 cs n := by
  induction cs generalizing n with
  | nil => exact Nat.le_refl n
  | cons c cs ih =>
    rw [Nat.ofDigitChars_cons]
    exact le_trans (by omega) (ih _)

theorem parseDigits_fit {cs : List Char} {n : Nat} (digits : ∀ c ∈ cs, c.isDigit = true)
    (fits : Nat.ofDigitChars 10 cs n < 2 ^ 64) :
    parseDigits cs n = .ok (UInt64.ofNat (Nat.ofDigitChars 10 cs n)) := by
  induction cs generalizing n with
  | nil => rfl
  | cons c cs ih =>
    rw [Nat.ofDigitChars_cons] at fits ⊢
    have small : ¬ 2 ^ 64 ≤ 10 * n + (c.toNat - '0'.toNat) :=
      Nat.not_le_of_lt (lt_of_le_of_lt (le_ofDigitChars cs _) fits)
    rw [parseDigits, if_neg (not_not_intro (digits c List.mem_cons_self)), if_neg small]
    exact ih (fun d hd => digits d (List.mem_cons_of_mem _ hd)) fits

theorem parseU64_digits {cs : List Char} (nonempty : cs ≠ []) (digits : ∀ c ∈ cs, c.isDigit = true)
    (fits : Nat.ofDigitChars 10 cs 0 < 2 ^ 64) :
    parseU64 cs = .ok (UInt64.ofNat (Nat.ofDigitChars 10 cs 0)) := by
  cases cs with
  | nil => exact absurd rfl nonempty
  | cons c rest =>
    have first : c ≠ '+' := by
      rintro rfl
      exact absurd (digits '+' List.mem_cons_self) (by decide)
    rw [parseU64, if_neg first, if_neg (by simp)]
    exact parseDigits_fit digits fits

theorem decimal_ne_nil (id : UInt64) : decimal id ≠ [] := Nat.toDigits_ne_nil

theorem ofDigitChars_decimal (id : UInt64) : Nat.ofDigitChars 10 (decimal id) 0 = id.toNat :=
  Nat.ofDigitChars_ten_toDigits

theorem parseU64_decimal (id : UInt64) : parseU64 (decimal id) = .ok id := by
  have back := ofDigitChars_decimal id
  have fits : Nat.ofDigitChars 10 (decimal id) 0 < 2 ^ 64 := by
    rw [back]
    exact id.toNat_lt
  rw [parseU64_digits (decimal_ne_nil id) (decimal_isDigit id) fits, back, UInt64.ofNat_toNat]

theorem writeDigits_next (id : UInt64) (k : Nat) :
    writeDigits id (k + 1) (some ((decimal id).take k)) = some ((decimal id).take (k + 1)) := by
  rw [writeDigits, Option.getD_some, List.drop_of_length_le, List.append_nil]
  rw [List.length_take]
  omega

theorem setCheckpoint_eq (id : UInt64) (ckpt : Option (List Char)) :
    setCheckpoint id ckpt = some (decimal id) := by
  simp [setCheckpoint, writeMarker, openMarker]

theorem getLastCheckpoint_setCheckpoint (id : UInt64) (ckpt : Option (List Char)) :
    getLastCheckpoint (setCheckpoint id ckpt) = .ok id := by
  rw [setCheckpoint_eq]
  simp only [getLastCheckpoint, trim_digits (decimal_isDigit id), parseU64_decimal]

end Marker

def ckptIds (lastCkpt : UInt64) (es : List WalEntry) : List UInt64 :=
  (committedIds es).filter fun id => lastCkpt < id

def ckptWrites (lastCkpt : UInt64) (es : List WalEntry) : List (Write String Bytes) :=
  (ckptIds lastCkpt es).flatMap fun id => writesOf id es

theorem mem_ckptIds {lastCkpt id : UInt64} {es : List WalEntry} :
    id ∈ ckptIds lastCkpt es ↔ lastCkpt < id ∧ committed es id = true := by
  rw [ckptIds, List.mem_filter, mem_committedIds, and_comm]
  simp

theorem ckptIds_congr {es fs : List WalEntry} (same : SameCommitted es fs) (lastCkpt : UInt64) :
    ckptIds lastCkpt es = ckptIds lastCkpt fs := by
  rw [ckptIds, ckptIds, committedIds_congr same.ids]

theorem ckptWrites_congr {es fs : List WalEntry} (same : SameCommitted es fs) (lastCkpt : UInt64) :
    ckptWrites lastCkpt es = ckptWrites lastCkpt fs := by
  rw [ckptWrites, ckptWrites, ckptIds_congr same]
  refine List.flatMap_congr fun id hid => same.writes id ?_
  rw [same.ids]
  exact (mem_ckptIds.mp hid).2

theorem ckptIds_sorted (lastCkpt : UInt64) (es : List WalEntry) :
    (ckptIds lastCkpt es).Pairwise (· < ·) :=
  (committedIds_sorted es).filter _

def belowWrites (marker : UInt64) (es : List WalEntry) : List (Write String Bytes) :=
  ((committedIds es).filter fun id => id ≤ marker).flatMap fun id => writesOf id es

theorem sorted_split {ids : List UInt64} (sorted : ids.Pairwise (· < ·)) (marker : UInt64) :
    ids = ids.filter (fun id => id ≤ marker) ++ ids.filter fun id => marker < id := by
  induction ids with
  | nil => rfl
  | cons id ids ih =>
    obtain ⟨head, tail⟩ := List.pairwise_cons.mp sorted
    by_cases low : id ≤ marker
    · have not_high : ¬ marker < id := not_lt.mpr low
      simpa [low, not_high] using ih tail
    · have high : marker < id := not_le.mp low
      have none_low : ids.filter (fun j => j ≤ marker) = [] := by
        rw [List.filter_eq_nil_iff]
        intro j hj
        simpa using lt_trans high (head j hj)
      have all_high : ids.filter (fun j => marker < j) = ids := by
        rw [List.filter_eq_self]
        intro j hj
        simpa using lt_trans high (head j hj)
      simp [low, high, none_low, all_high]

theorem replayWrites_split (marker : UInt64) (es : List WalEntry) :
    replayWrites es = belowWrites marker es ++ ckptWrites marker es := by
  rw [replayWrites, belowWrites, ckptWrites, ckptIds, ← List.flatMap_append,
    ← sorted_split (committedIds_sorted es) marker]

theorem ckptWrites_again (before : Store) (marker : UInt64) (es : List WalEntry) :
    applyAll (applyAll before (replayWrites es)) (ckptWrites marker es) =
      applyAll before (replayWrites es) := by
  rw [replayWrites_split marker es]
  exact applyAll_suffix_again before (belowWrites marker es) (ckptWrites marker es)

structure CkptTracks (lastCkpt : UInt64) (t : CkptScan) (es : List WalEntry) : Prop where
  entries : ∀ id, lastCkpt < id →
    t.txEntries.lookup id = if entriesOf id es = [] then none else some (entriesOf id es)
  members : ∀ id, id ∈ t.committedTxs ↔ lastCkpt < id ∧ committed es id = true
  distinct : t.committedTxs.Nodup

theorem ckptTracks_step {lastCkpt : UInt64} {t : CkptScan} {es : List WalEntry}
    (h : CkptTracks lastCkpt t es)
    (e : WalEntry) : CkptTracks lastCkpt (ckptTrack lastCkpt t e) (es ++ [e]) := by
  unfold ckptTrack
  split
  · -- an entry at or below the marker is skipped
    rename_i below
    have other : ∀ id, lastCkpt < id → id ≠ e.txId := fun id above same =>
      absurd below (not_le.mpr (same ▸ above))
    constructor
    · intro id above
      rw [h.entries id above, entriesOf_snoc_other es (other id above)]
    · intro id
      rw [h.members]
      exact and_congr_right fun above => by rw [committed_snoc_other es (other id above)]
    · exact h.distinct
  · rename_i above
    have above : lastCkpt < e.txId := not_le.mp above
    constructor
    · intro id hid
      by_cases own : id = e.txId
      · subst own
        have before : (t.txEntries.lookup e.txId).getD [] = entriesOf e.txId es := by
          rw [h.entries _ hid]
          split
          · rename_i none_yet
            exact none_yet.symm
          · rfl
        rw [pushEntry, AList.lookup_insert, before, entriesOf_snoc_own, if_neg (by simp)]
      · rw [pushEntry, AList.lookup_insert_ne own, h.entries id hid, entriesOf_snoc_other es own]
    · intro id
      by_cases own : id = e.txId
      · subst own
        rw [committed_snoc_own]
        cases e with
        | commit id ts =>
          simpa [WalEntry.isMarker, WalEntry.isCommit, WalEntry.txId] using above
        | abort id ts =>
          simp [WalEntry.isMarker, WalEntry.isCommit, WalEntry.txId, h.distinct.mem_erase_iff]
        | insert | update | delete => exact h.members _
      · rw [committed_snoc_other es own, ← h.members]
        cases e with
        | commit id' ts => simpa [WalEntry.txId] using fun same : id = id' => absurd same own
        | abort id' ts =>
          have own : id ≠ id' := own
          simp [h.distinct.mem_erase_iff, own]
        | insert | update | delete => rfl
    · cases e with
      | commit id ts => exact h.distinct.insert
      | abort id ts => exact h.distinct.erase _
      | insert | update | delete => exact h.distinct

theorem ckptTracks_run {lastCkpt : UInt64} {t : CkptScan} {es : List WalEntry}
    (h : CkptTracks lastCkpt t es)
    (fs : List WalEntry) : CkptTracks lastCkpt (fs.foldl (ckptTrack lastCkpt) t) (es ++ fs) := by
  induction fs generalizing t es with
  | nil => rw [List.append_nil]; exact h
  | cons e fs ih => rw [List.append_cons]; exact ih (ckptTracks_step h e)

theorem ckptTracks_empty (lastCkpt : UInt64) : CkptTracks lastCkpt .empty [] := by
  constructor
  · intro id _
    simp [CkptScan.empty]
  · intro id
    simp [CkptScan.empty, committed, lastMarker]
  · exact List.nodup_nil

theorem ckptTracks_scan (lastCkpt : UInt64) (es : List WalEntry) :
    CkptTracks lastCkpt (es.foldl (ckptTrack lastCkpt) .empty) es :=
  ckptTracks_run (ckptTracks_empty lastCkpt) es

theorem CkptTracks.sorted_eq {lastCkpt : UInt64} {t : CkptScan} {es : List WalEntry}
    (h : CkptTracks lastCkpt t es) :
    (t.committedTxs.filter fun id => lastCkpt < id).insertionSort (· ≤ ·) =
      ckptIds lastCkpt es := by
  apply eq_of_sorted_lt _ (ckptIds_sorted lastCkpt es)
  · intro id
    rw [List.mem_insertionSort, List.mem_filter, h.members, mem_ckptIds]
    simp +contextual
  · exact sorted_lt_of_nodup (List.pairwise_insertionSort _ _)
      ((List.perm_insertionSort _ _).nodup_iff.mpr (h.distinct.filter _))

theorem CkptTracks.replay_eq {lastCkpt : UInt64} {t : CkptScan} {es : List WalEntry}
    (h : CkptTracks lastCkpt t es) (store : Store) :
    checkpointReplay lastCkpt t store = applyAll store (ckptWrites lastCkpt es) := by
  rw [checkpointReplay, h.sorted_eq, ckptWrites, replay]
  have above : ∀ id ∈ ckptIds lastCkpt es, lastCkpt < id := fun id hid => (mem_ckptIds.mp hid).1
  generalize ckptIds lastCkpt es = ids at above
  induction ids generalizing store with
  | nil => rfl
  | cons id ids ih =>
    rw [List.foldl_cons, List.flatMap_cons, applyAll_append,
      ih _ fun id' hid' => above id' (List.mem_cons_of_mem _ hid')]
    congr 1
    rw [replayTx, h.entries id (above id List.mem_cons_self)]
    by_cases empty : entriesOf id es = []
    · simp [empty, writesOf_eq_nil empty]
    · simp only [empty, if_false]
      exact foldl_replayEntry _ _

theorem CkptTracks.isEmpty_iff {lastCkpt : UInt64} {t : CkptScan} {es : List WalEntry}
    (h : CkptTracks lastCkpt t es) : t.committedTxs.isEmpty = true ↔ ckptIds lastCkpt es = [] := by
  simp only [List.isEmpty_iff, List.eq_nil_iff_forall_not_mem, h.members, mem_ckptIds]

theorem CkptTracks.maxCkpt_spec {lastCkpt : UInt64} {t : CkptScan} {es : List WalEntry}
    (h : CkptTracks lastCkpt t es) (nonempty : ¬ t.committedTxs.isEmpty = true) :
    maxCkpt lastCkpt t ∈ ckptIds lastCkpt es ∧ ∀ id ∈ ckptIds lastCkpt es,
      id ≤ maxCkpt lastCkpt t := by
  have some_max : t.committedTxs.max? ≠ none := by
    rw [Ne, List.max?_eq_none_iff]
    simpa using nonempty
  obtain ⟨m, hm⟩ := Option.ne_none_iff_exists'.mp some_max
  obtain ⟨mem, bound⟩ := List.max?_eq_some_iff.mp hm
  have value : maxCkpt lastCkpt t = m := by rw [maxCkpt, hm]; rfl
  rw [value]
  exact ⟨mem_ckptIds.mpr ((h.members m).mp mem),
    fun id hid => bound id ((h.members id).mpr (mem_ckptIds.mp hid))⟩

section Whole

variable {crates : Crates} (disk : Disk) {bytes : Bytes} {lastCkpt : UInt64} (store : Store)
  (marker : getLastCheckpoint disk.ckpt = .ok lastCkpt)
  (path : ¬ (lastCkpt = 0 ∧ disk.path.isEmpty = true))
  (file : disk.wal = some bytes) (readable : (readLog crates bytes).exit = .headerEof)
include marker path file readable

theorem checkpoint_none (none_new : ckptIds lastCkpt (readLog crates bytes).items = []) :
    checkpoint crates disk store = (.err .noNewCheckpoints, disk, store) := by
  have t := ckptTracks_scan lastCkpt (readLog crates bytes).items
  simp only [checkpoint, marker, if_neg path, file, checkpointScan, readable,
    t.isEmpty_iff.mpr none_new, if_true]

theorem checkpoint_some (new : ckptIds lastCkpt (readLog crates bytes).items ≠ []) :
    ∃ id ∈ ckptIds lastCkpt (readLog crates bytes).items,
      (∀ id' ∈ ckptIds lastCkpt (readLog crates bytes).items, id' ≤ id) ∧
      checkpoint crates disk store = (.ok id, { disk with ckpt := setCheckpoint id disk.ckpt },
        applyAll store (ckptWrites lastCkpt (readLog crates bytes).items)) := by
  have t := ckptTracks_scan lastCkpt (readLog crates bytes).items
  have nonempty := mt t.isEmpty_iff.mp new
  obtain ⟨mem, bound⟩ := t.maxCkpt_spec nonempty
  refine ⟨_, mem, bound, ?_⟩
  simp only [checkpoint, marker, if_neg path, file, checkpointScan, readable, if_neg nonempty,
    t.replay_eq]

theorem checkpoint_store :
    (checkpoint crates disk store).2.2 =
      applyAll store (ckptWrites lastCkpt (readLog crates bytes).items) := by
  by_cases new : ckptIds lastCkpt (readLog crates bytes).items = []
  · rw [checkpoint_none disk store marker path file readable new, ckptWrites, new]
    rfl
  · obtain ⟨id, _, _, h⟩ := checkpoint_some disk store marker path file readable new
    rw [h]

end Whole

structure Advances (crates : Crates) (disk : Disk) (store : Store) (lastCkpt id : UInt64)
    (bytes : Bytes) : Prop where
  marker : getLastCheckpoint disk.ckpt = .ok lastCkpt
  path : ¬ (lastCkpt = 0 ∧ disk.path.isEmpty = true)
  file : disk.wal = some bytes
  readable : (readLog crates bytes).exit = .headerEof
  new : id ∈ ckptIds lastCkpt (readLog crates bytes).items
  highest : ∀ id' ∈ ckptIds lastCkpt (readLog crates bytes).items, id' ≤ id
  result : checkpoint crates disk store = (.ok id, { disk with ckpt := setCheckpoint id disk.ckpt },
    applyAll store (ckptWrites lastCkpt (readLog crates bytes).items))

theorem checkpoint_exits (crates : Crates) (disk : Disk) (store : Store) :
    ((∀ id, (checkpoint crates disk store).1 ≠ .ok id) ∧
        (checkpoint crates disk store).2 = (disk, store)) ∨
      ∃ lastCkpt id bytes, Advances crates disk store lastCkpt id bytes := by
  cases marker : getLastCheckpoint disk.ckpt with
  | error e => simp [checkpoint, marker]
  | ok lastCkpt =>
    by_cases path : lastCkpt = 0 ∧ disk.path.isEmpty = true
    · simp [checkpoint, marker, path]
    cases file : disk.wal with
    | none =>
      simp only [checkpoint, marker, if_neg path, file]
      exact .inl ⟨fun _ => by simp, trivial⟩
    | some bytes =>
      by_cases readable : (readLog crates bytes).exit = .headerEof
      · by_cases new : ckptIds lastCkpt (readLog crates bytes).items = []
        · simp [checkpoint_none disk store marker path file readable new]
        · obtain ⟨id, mem, highest, result⟩ :=
            checkpoint_some disk store marker path file readable new
          exact .inr ⟨lastCkpt, id, bytes, marker, path, file, readable, mem, highest, result⟩
      · left
        cases stop : (readLog crates bytes).exit with
        | headerEof => exact absurd stop readable
        | payloadEof | checksum | undecodable | capacityOverflow =>
          simp only [checkpoint, checkpointScan, marker, if_neg path, file, stop]
          exact ⟨fun _ => by simp, trivial⟩

theorem checkpoint_congr {crates : Crates} {bytes bytes' : Bytes} (disk : Disk) (store : Store)
    (exits : (readLog crates bytes).exit = (readLog crates bytes').exit)
    (same : SameCommitted (readLog crates bytes).items (readLog crates bytes').items) :
    let out := checkpoint crates { disk with wal := some bytes } store
    let out' := checkpoint crates { disk with wal := some bytes' } store
    out.1 = out'.1 ∧ out.2.1.ckpt = out'.2.1.ckpt ∧ out.2.2 = out'.2.2 := by
  cases marker : getLastCheckpoint disk.ckpt with
  | error e => simp [checkpoint, marker]
  | ok lastCkpt =>
    by_cases path : lastCkpt = 0 ∧ disk.path.isEmpty = true
    · simp [checkpoint, marker, path]
    by_cases readable : (readLog crates bytes).exit = .headerEof
    · have readable' := exits ▸ readable
      have ids := ckptIds_congr same lastCkpt
      have left := checkpoint_none { disk with wal := some bytes } store marker path rfl readable
      have right := checkpoint_none { disk with wal := some bytes' } store marker path rfl readable'
      by_cases none_new : ckptIds lastCkpt (readLog crates bytes).items = []
      · simp [left none_new, right (ids ▸ none_new)]
      · obtain ⟨id, mem, bound, result⟩ :=
          checkpoint_some { disk with wal := some bytes } store marker path rfl readable none_new
        obtain ⟨id', mem', bound', result'⟩ :=
          checkpoint_some { disk with wal := some bytes' } store marker path rfl readable'
            (ids ▸ none_new)
        have highest : id = id' := le_antisymm (bound' id (ids ▸ mem)) (bound id' (ids ▸ mem'))
        simp only [result, result', highest, ckptWrites_congr same, and_self]
    · -- the reading loop returns its error before the store is touched
      have readable' := exits ▸ readable
      cases stop : (readLog crates bytes').exit with
      | headerEof => exact absurd stop readable'
      | payloadEof | checksum | undecodable | capacityOverflow =>
        simp only [checkpoint, checkpointScan, marker, if_neg path, exits, stop, and_self]

end AsyncWalDb
