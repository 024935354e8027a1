import AsyncWalDb.Durability
import AsyncWalDb.FrameOrder
import AsyncWalDb.System

/-! What a reader finds in the file of a running system: the entries the file held before, then
those of the first begun items. After a crash every durable item is among them. -/
namespace AsyncWalDb

open Interleaving Framing

variable {crates : Crates} {Must : Item → Item → Prop} {σ : WalConfig}

theorem begins_framesOf (ws : List Item) : (framesOf ws).filterMap Piece.begins = ws := by
  induction ws with
  | nil => rfl
  | cons it ws ih =>
    rw [framesOf, List.flatMap_cons, List.filterMap_append]
    exact congrArg (it :: ·) ih

theorem FramesOrdered.stream (ok : FramesOrdered crates Must σ) :
    ∃ ws, ∃ opened : Option Item, σ.shared.stream = framesOf ws ++ opened.toList.map Piece.header ∧
      begun σ.shared = ws ++ opened.toList := by
  have shape : ∃ ws, ∃ opened : Option Item, σ.shared.stream = framesOf ws ++
      opened.toList.map Piece.header := by
    cases locked : σ.shared.locked with
    | false =>
      obtain ⟨ws, same⟩ := ok.closed locked
      exact ⟨ws, none, by simpa using same⟩
    | true =>
      obtain ⟨j, t, at_j, held⟩ := ok.lock.held locked
      obtain ⟨ws, same⟩ := ok.framed j t at_j held
      exact ⟨ws, _, same⟩
  obtain ⟨ws, opened, same⟩ := shape
  refine ⟨ws, opened, same, ?_⟩
  rw [begun, same, List.filterMap_append, begins_framesOf]
  cases opened <;> rfl

theorem streamBytes_framesOf (crates : Crates) (ws : List Item) :
    streamBytes crates (framesOf ws) = (ws.map Item.entry).flatMap (frame crates) := by
  rw [streamBytes, framesOf, List.flatMap_assoc, List.flatMap_map]
  refine List.flatMap_congr fun it _ => ?_
  simp [Piece.bytes, frame]

@[simp] theorem streamBytes_append (crates : Crates) (ps qs : List Piece) :
    streamBytes crates (ps ++ qs) = streamBytes crates ps ++ streamBytes crates qs := by
  simp [streamBytes]

theorem streamBytes_framed (crates : Crates) (ws : List Item) (opened : Option Item) :
    streamBytes crates (framesOf ws ++ opened.toList.map Piece.header) <+:
      ((ws ++ opened.toList).map Item.entry).flatMap (frame crates) := by
  rw [streamBytes_append, streamBytes_framesOf, List.map_append, List.flatMap_append,
    List.prefix_append_right_inj]
  cases opened with
  | none => exact List.nil_prefix
  | some it => exact ⟨crates.serialize it.entry, by simp [streamBytes, Piece.bytes, frame]⟩

theorem payload_in_front {ws : List Item} {opened : Option Item} {it : Item} {j : Nat}
    (mem : .payload it ∈ (framesOf ws ++ opened.toList.map Piece.header).take j) :
    ∃ pre post, ws = pre ++ it :: post ∧
      framesOf (pre ++ [it]) <+: (framesOf ws ++ opened.toList.map Piece.header).take j := by
  induction ws generalizing j with
  | nil =>
    have mem := List.mem_of_mem_take mem
    simp [framesOf] at mem
  | cons a ws ih =>
    have unfolded : framesOf (a :: ws) ++ opened.toList.map Piece.header =
        .header a :: .payload a :: (framesOf ws ++ opened.toList.map Piece.header) := rfl
    rw [unfolded] at mem ⊢
    rcases j with _ | _ | j
    · simp at mem
    · simp at mem
    · simp only [List.take_succ_cons, List.mem_cons, reduceCtorEq, Piece.payload.injEq, false_or]
        at mem ⊢
      rcases mem with rfl | later
      · exact ⟨[], ws, rfl, by simp [framesOf]⟩
      · obtain ⟨pre, post, rfl, within⟩ := ih later
        refine ⟨a :: pre, post, rfl, ?_⟩
        rw [show framesOf (a :: pre ++ [it]) = .header a :: .payload a :: framesOf (pre ++ [it])
          from rfl]
        exact List.cons_prefix_cons.mpr ⟨rfl, List.cons_prefix_cons.mpr ⟨rfl, within⟩⟩

theorem FramesOrdered.precedes (ok : FramesOrdered crates Must σ) {n : Nat} {o c : Item}
    (written : .payload c ∈ σ.shared.stream.take n)
    (pushed : o ∈ σ.shared.history) (must : Must o c) : σ.shared.Inside n o := by
  obtain ⟨ws, opened, same, items⟩ := ok.stream
  rw [same] at written
  obtain ⟨pre, post, split, framed⟩ := payload_in_front written
  have before : o ∈ pre := by
    have somewhere :=
      ok.behind pre c (post ++ opened.toList) (by rw [items, split]; simp) o pushed must
    simpa using somewhere
  rw [← same] at framed
  have inside : ∀ p ∈ [Piece.header o, .payload o], p ∈ σ.shared.stream.take n := by
    intro p hp
    refine framed.subset (List.mem_flatMap.mpr ⟨o, List.mem_append_left _ before, hp⟩)
  exact ⟨inside _ List.mem_cons_self, inside _ (List.mem_cons_of_mem _ List.mem_cons_self)⟩

theorem FramesOrdered.pushed (ok : FramesOrdered crates Must σ) :
    begun σ.shared ⊆ σ.shared.history :=
  fun _ hit => ok.placed.somewhere.mpr (.inr (.inr hit))

theorem FramesOrdered.pushed_take (ok : FramesOrdered crates Must σ) (k : Nat) :
    (begun σ.shared).take k ⊆ σ.shared.history :=
  fun _ hit => ok.pushed (List.mem_of_mem_take hit)

theorem FramesOrdered.nodup (ok : FramesOrdered crates Must σ) : (begun σ.shared).Nodup :=
  Multiset.coe_nodup.mp (Multiset.nodup_of_le ok.placed.begun_le
    (Multiset.coe_nodup.mpr ok.placed.nodup))

theorem FramesOrdered.own_subset (ok : FramesOrdered crates Must σ) {k : Nat} {c : Item}
    (front : c ∈ (begun σ.shared).take k) {its : List Item} (pushed : its ⊆ σ.shared.history)
    (must : ∀ o ∈ its, o ≠ c → Must o c) : its ⊆ (begun σ.shared).take k := by
  intro o ho
  by_cases same : o = c
  · exact same ▸ front
  · obtain ⟨pre, post, split⟩ := List.append_of_mem front
    have whole : begun σ.shared = pre ++ c :: (post ++ (begun σ.shared).drop k) := by
      rw [← List.cons_append, ← List.append_assoc, ← split, List.take_append_drop]
    have before : o ∈ pre := by simpa using ok.behind pre c _ whole o (pushed ho) (must o ho same)
    rw [split]
    exact List.mem_append_left _ before

theorem FramesOrdered.own_perm (ok : FramesOrdered crates Must σ) {k i : Nat}
    (all : (σ.shared.history.filter fun it => it.owner = i) ⊆ (begun σ.shared).take k) :
    (((begun σ.shared).take k).filter fun it => it.owner = i).Perm
      (σ.shared.history.filter fun it => it.owner = i) := by
  refine (List.perm_ext_iff_of_nodup ((ok.nodup.take).filter _) (ok.placed.nodup.filter _)).mpr
    fun it => ?_
  rw [List.mem_filter]
  constructor
  · rintro ⟨hit, own⟩
    exact List.mem_filter.mpr ⟨ok.pushed_take k hit, own⟩
  · intro hit
    exact ⟨all hit, (List.mem_filter.mp hit).2⟩

theorem framesOrdered_system {guard : SystemConfig → SystemAction → Prop}
    {C : WalConfig → Nat → Prop} {m : Nat}
    {path : String} {base : Bytes} {ckpt : Option (List Char)} {mem : Memory} {τ : SystemConfig}
    (known : ∀ σ a, guard σ a → SystemNoFaultAnd C σ a)
    (ordered : ∀ σ i, C σ i → LockOrder Must σ i) (older : ∀ o c, Must o c → o.stamp < c.stamp)
    (run : (systemProtocol crates).Reaches guard (System.start m path base ckpt mem) τ) :
    FramesOrdered crates Must (logView τ) := by
  have log := log_reaches (run.weaken known)
  exact framesOrdered_run (by simp [System.start]) older (log.weaken
    fun _ _ => NoFaultAnd.imp ordered)

theorem framed_items {old : Bytes} {base : List WalEntry} {pieces : List Piece} {ws : List Item}
    {opened : Option Item} (whole : ValidLog crates old base)
    (same : pieces = framesOf ws ++ opened.toList.map Piece.header)
    (fits : ∀ it ∈ ws ++ opened.toList, crates.Fits it.entry) {n : Nat} (beyond : old.length ≤ n) :
    ∃ k, (readLog crates ((old ++ streamBytes crates pieces).take n)).items =
        base ++ ((ws ++ opened.toList).take k).map Item.entry ∧
      (readLog crates ((old ++ streamBytes crates pieces).take n)).exit ≠ .capacityOverflow ∧
      ∀ j it, .payload it ∈ pieces.take j →
        old.length + (streamBytes crates (pieces.take j)).length ≤ n →
        it ∈ (ws ++ opened.toList).take k := by
  have entries_fit : ∀ e ∈ (ws ++ opened.toList).map Item.entry, crates.Fits e := by
    intro e he
    obtain ⟨it, hit, rfl⟩ := List.mem_map.mp he
    exact fits it hit
  -- the bytes read are the old ones and a cut of the frames of the items
  obtain ⟨rest, bytes⟩ := streamBytes_framed crates ws opened
  rw [← same] at bytes
  have cut : (streamBytes crates pieces).take (n - old.length) =
      (((ws ++ opened.toList).map Item.entry).flatMap (frame crates)).take
        (min (n - old.length) (streamBytes crates pieces).length) := by
    rw [← bytes, ← List.take_take, List.take_left]
  have front : (old ++ streamBytes crates pieces).take n = old ++
      (((ws ++ opened.toList).map Item.entry).flatMap (frame crates)).take
        (min (n - old.length) (streamBytes crates pieces).length) := by
    rw [← cut, List.take_append, List.take_of_length_le beyond]
  generalize hc : min (n - old.length) (streamBytes crates pieces).length = c at front
  have read := readLog_take entries_fit c
  obtain ⟨k, within⟩ : ∃ k, wholeWithin (frame crates) ((ws ++ opened.toList).map Item.entry) c =
      ((ws ++ opened.toList).take k).map Item.entry := by
    refine ⟨(wholeWithin (frame crates) ((ws ++ opened.toList).map Item.entry) c).length, ?_⟩
    rw [List.map_take]
    exact List.prefix_iff_eq_take.mp ( wholeWithin_prefix _ _ c)
  refine ⟨k, ?_, ?_, fun j it inside enough => ?_⟩
  · rw [front, whole.read, read.1, within]
  · rw [front, whole.read]
    rcases read.2 with stop | stop <;> rw [stop] <;> decide
  · obtain ⟨pre, post, split, framed⟩ := payload_in_front (same ▸ inside)
    have ends : (((pre ++ [it]).map Item.entry).flatMap (frame crates)).length ≤ c := by
      obtain ⟨later, framed⟩ := framed
      have size := congrArg (fun ps => (streamBytes crates ps).length) framed
      rw [← same] at size
      have total :=
        congrArg (fun ps => (streamBytes crates ps).length) (List.take_append_drop j pieces)
      simp only [streamBytes_append, List.length_append, streamBytes_framesOf] at size total
      omega
    have front_items : (pre ++ [it]).map Item.entry <+: (ws ++ opened.toList).map Item.entry := by
      rw [split]
      exact ⟨(post ++ opened.toList).map Item.entry, by simp⟩
    have read_in := (prefix_wholeWithin_iff (frame crates) _ _ c front_items).mpr (.inl ends)
    rw [within] at read_in
    have long := read_in.length_le
    simp only [List.length_map, List.length_append, List.length_singleton, List.length_take] at long
    have here : (ws ++ opened.toList).take (pre.length + 1) = pre ++ [it] := by
      rw [split]
      simp [List.take_append]
    have mem : it ∈ (ws ++ opened.toList).take (pre.length + 1) := by rw [here]; simp
    exact List.take_subset_take_left _ (by omega) mem

variable {τ : SystemConfig} {base : List WalEntry}

theorem file_items (ok : FramesOrdered crates Must (logView τ))
    (whole : ValidLog crates τ.shared.base base) {n : Nat} (beyond : τ.shared.base.length ≤ n) :
    ∃ k, (readLog crates ((τ.shared.file crates).take n)).items =
        base ++ ((begun τ.shared.wal).take k).map Item.entry ∧
      (readLog crates ((τ.shared.file crates).take n)).exit ≠ .capacityOverflow ∧
      ∀ j it, τ.shared.wal.Inside j it →
        τ.shared.base.length + (streamBytes crates (τ.shared.wal.stream.take j)).length ≤ n →
        it ∈ (begun τ.shared.wal).take k := by
  obtain ⟨ws, opened, same, items⟩ := ok.stream
  have items : begun τ.shared.wal = ws ++ opened.toList := items
  obtain ⟨k, read, readable, within⟩ := framed_items whole same (items ▸ ok.fits) beyond
  rw [items]
  exact ⟨k, read, readable, fun j it inside => within j it inside.2⟩

theorem closed_items (ok : FramesOrdered crates Must (logView τ))
    (whole : ValidLog crates τ.shared.base base) (free : τ.shared.wal.locked = false) :
    readLog crates (τ.shared.file crates) = ⟨base ++ (begun τ.shared.wal).map Item.entry,
      .headerEof, []⟩ := by
  obtain ⟨ws, same⟩ := ok.closed free
  have same : τ.shared.wal.stream = framesOf ws := same
  have items : begun τ.shared.wal = ws := by rw [begun, same, begins_framesOf]
  have written : ValidLog crates ((ws.map Item.entry).flatMap (frame crates))
      (ws.map Item.entry) := by
    apply ValidLog.of_entries
    intro e he
    obtain ⟨it, hit, rfl⟩ := List.mem_map.mp he
    exact ok.fits it (items.symm ▸ hit)
  rw [System.file, same, streamBytes_framesOf, items]
  exact (whole.append written).read_all

theorem crashFile_file (crates : Crates) (s : System) : s.CrashFile crates (s.file crates) :=
  ⟨s.syncedBytes crates + (s.file crates).length, Nat.le_add_right _ _,
    (List.take_of_length_le (Nat.le_add_left _ _)).symm⟩

theorem crash_items (ok : FramesOrdered crates Must (logView τ))
    (whole : ValidLog crates τ.shared.base base) {bytes : Bytes}
    (crash : τ.shared.CrashFile crates bytes) :
    ∃ k, (readLog crates bytes).items = base ++ ((begun τ.shared.wal).take k).map Item.entry ∧
      (readLog crates bytes).exit ≠ .capacityOverflow ∧
      ∀ it, τ.shared.wal.Durable it → it ∈ (begun τ.shared.wal).take k := by
  obtain ⟨n, synced, rfl⟩ := crash
  have beyond : τ.shared.base.length ≤ n := le_trans (Nat.le_add_right _ _) synced
  obtain ⟨k, items, readable, durable⟩ := file_items ok whole beyond
  exact ⟨k, items, readable, fun it inside => durable _ it inside synced⟩

end AsyncWalDb
