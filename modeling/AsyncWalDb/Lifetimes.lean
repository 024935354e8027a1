import AsyncWalDb.Acknowledged
import AsyncWalDb.Conserved

/-! Any number of process lifetimes on one file. Each recovers what the one
before left, runs under any faults and is cut by a crash. What is in the file is
kept as the frames that were begun, each with the transaction that wrote it and
as far as its bytes got; ids are fresh over everything a reader can reach. -/
namespace AsyncWalDb

open Interleaving Framing

/-- What the file holds of one frame, and the lifetime and
the task of the transaction that wrote it. -/
structure Chunk where
  writer : Nat × Nat
  entry : WalEntry
  bytes : Bytes
  deriving DecidableEq

def Chunk.Whole (crates : Crates) (c : Chunk) : Prop := c.bytes = frame crates c.entry

instance (crates : Crates) (c : Chunk) : Decidable (c.Whole crates) :=
  inferInstanceAs (Decidable (_ = _))

def bytesOf (cs : List Chunk) : Bytes := cs.flatMap Chunk.bytes

/-- The frames that a lifetime has begun to write; a fault
may leave a header without its payload. -/
def chunksOf (crates : Crates) (life : Nat) : List Piece → List Chunk
  | [] => []
  | .header it :: .payload it' :: rest =>
    ⟨(life, it.owner), it.entry,
      (Piece.header it).bytes crates ++ (Piece.payload it').bytes crates⟩ ::
      chunksOf crates life rest
  | .header it :: rest =>
    ⟨(life, it.owner), it.entry, (Piece.header it).bytes crates⟩ :: chunksOf crates life rest
  | .payload it :: rest =>
    ⟨(life, it.owner), it.entry, (Piece.payload it).bytes crates⟩ :: chunksOf crates life rest

/-- What a crash that keeps `n` bytes leaves of them. -/
def cutChunks : List Chunk → Nat → List Chunk
  | [], _ => []
  | c :: cs, n =>
    if n = 0 then []
    else if c.bytes.length ≤ n then c :: cutChunks cs (n - c.bytes.length)
    else [{ c with bytes := c.bytes.take n }]

/-- No torn frame is completed by the bytes that follow it. -/
def Uncompleted (crates : Crates) (cs : List Chunk) : Prop :=
  ∀ pre c post, cs = pre ++ c :: post → ¬ c.Whole crates →
    ∀ e later, readFrame crates (c.bytes ++ bytesOf post) ≠ .ok (e, later)

/-- The files that any number of lifetimes can leave, with the frames they are made of. -/
inductive Lifetimes (crates : Crates) : Nat → Bytes → List Chunk → Prop where
  | new : Lifetimes crates 0 [] []
  | life {lives n m : Nat} {path : String} {file : Bytes} {chunks : List Chunk}
    {ckpt : Option (List Char)} {stats : RecoveryStats} {mem : Memory} {σ : SystemConfig}
    (earlier : Lifetimes crates lives file chunks)
    (recovered : recoverWithValidation crates (some file) ⟨fun _ => none, 1⟩ = (.ok stats, mem))
    (run : (systemProtocol crates).Reaches NoWrap (System.start m path file ckpt mem) σ)
    (synced : σ.shared.syncedBytes crates ≤ n)
    (uncompleted : Uncompleted crates
      (chunks ++ cutChunks (chunksOf crates lives σ.shared.wal.stream) (n - file.length))) :
    Lifetimes crates (lives + 1) ((σ.shared.file crates).take n)
      (chunks ++ cutChunks (chunksOf crates lives σ.shared.wal.stream) (n - file.length))

/-- The reading loop comes to offset `p` and takes a frame of `e` there. -/
def Readable (crates : Crates) (file : Bytes) (p : Nat) (e : WalEntry) : Prop :=
  ∃ front es rest later, file = front ++ rest ∧ ValidLog crates front es ∧ front.length = p ∧
    readFrame crates rest = .ok (e, later)

theorem ValidLog.split {crates : Crates} {bytes : Bytes} {pre post : List WalEntry} {e : WalEntry}
    (whole : ValidLog crates bytes (pre ++ e :: post)) :
    ∃ front frame rest, bytes = front ++ (frame ++ rest) ∧ ValidLog crates front pre ∧
      ValidFrame crates frame e := by
  induction pre generalizing bytes with
  | nil =>
    cases whole with
    | @cons frame rest _ _ head tail => exact ⟨[], frame, rest, rfl, .nil, head⟩
  | cons d pre ih =>
    cases whole with
    | @cons bytes rest _ _ head tail =>
      obtain ⟨front, frame, last, rfl, before, valid⟩ := ih tail
      exact ⟨bytes ++ front, frame, last, by rw [List.append_assoc], .cons head before, valid⟩

theorem readable_iff {crates : Crates} {file : Bytes} {e : WalEntry} :
    (∃ p, Readable crates file p e) ↔ e ∈ (readLog crates file).items := by
  constructor
  · rintro ⟨_, front, es, rest, later, rfl, whole, _, next⟩
    obtain ⟨bytes, rfl, valid⟩ := readFrame_ok next
    rw [whole.read, ← List.append_nil bytes, (ValidLog.cons valid .nil).read]
    simp
  · intro mem
    have found : FrontFrames crates file (readLog crates file).items (readLog crates file).rest :=
      readLog_front file
    obtain ⟨bytes, split, whole⟩ := found.front
    obtain ⟨pre, post, items⟩ := List.append_of_mem mem
    rw [items] at whole
    obtain ⟨front, frame, rest, rfl, before, valid⟩ := whole.split
    refine ⟨_, front, pre, _, rest ++ (readLog crates file).rest,
      split.trans (List.append_assoc _ _ _), before, rfl, ?_⟩
    rw [List.append_assoc]
    exact valid.reads _

def WrittenAt (crates : Crates) (cs : List Chunk) (p : Nat) (c : Chunk) : Prop :=
  ∃ pre post, cs = pre ++ c :: post ∧ (bytesOf pre).length = p ∧ c.Whole crates

section Chunks

variable {crates : Crates} {life n : Nat} {ps : List Piece} {cs : List Chunk} {c : Chunk}

@[simp] theorem bytesOf_cons (c : Chunk) (cs : List Chunk) :
    bytesOf (c :: cs) = c.bytes ++ bytesOf cs := rfl

@[simp] theorem bytesOf_append (cs ds : List Chunk) :
    bytesOf (cs ++ ds) = bytesOf cs ++ bytesOf ds := by
  simp [bytesOf]

theorem bytesOf_cut (cs : List Chunk) (n : Nat) :
    bytesOf (cutChunks cs n) = (bytesOf cs).take n := by
  induction cs generalizing n with
  | nil => simp [cutChunks, bytesOf]
  | cons c cs ih =>
    rw [cutChunks, bytesOf_cons, List.take_append]
    split
    · rename_i zero
      simp [zero, bytesOf]
    · split
      · rename_i whole
        rw [bytesOf_cons, ih, List.take_of_length_le whole]
      · rename_i torn
        have none_left : n - c.bytes.length = 0 := by omega
        simp [none_left, bytesOf]

theorem bytesOf_chunks (crates : Crates) (life : Nat) (ps : List Piece) :
    bytesOf (chunksOf crates life ps) = streamBytes crates ps := by
  fun_induction chunksOf crates life ps with
  | case1 => rfl
  | case2 it it' rest ih =>
    rw [bytesOf_cons, ih]
    simp [streamBytes]
  | case3 it rest _ ih =>
    rw [bytesOf_cons, ih]
    simp [streamBytes]
  | case4 it rest ih =>
    rw [bytesOf_cons, ih]
    simp [streamBytes]

theorem whole_header (mem : c ∈ chunksOf crates life ps) :
    (∃ it, .header it ∈ ps ∧ c.writer = (life, it.owner) ∧ c.entry = it.entry) ∨
      c.bytes.length < (frame crates c.entry).length := by
  fun_induction chunksOf crates life ps with
  | case1 => cases mem
  | case2 it it' rest ih =>
    rcases List.mem_cons.mp mem with rfl | later
    · exact .inl ⟨it, List.mem_cons_self, rfl, rfl⟩
    · refine (ih later).imp_left fun ⟨it, header, same⟩ => ⟨it, ?_, same⟩
      exact List.mem_cons_of_mem _ (List.mem_cons_of_mem _ header)
  | case3 it rest _ ih =>
    rcases List.mem_cons.mp mem with rfl | later
    · exact .inl ⟨it, List.mem_cons_self, rfl, rfl⟩
    · exact (ih later).imp_left fun ⟨it, header, same⟩ => ⟨it, List.mem_cons_of_mem _ header, same⟩
  | case4 it rest ih =>
    rcases List.mem_cons.mp mem with rfl | later
    · refine .inr ?_
      simp only [Piece.bytes, frame, List.length_append, WalEntryHeader.toBytes_length]
      have size : 0 < WalEntryHeader.SIZE := by decide
      omega
    · exact (ih later).imp_left fun ⟨it, header, same⟩ => ⟨it, List.mem_cons_of_mem _ header, same⟩

theorem cut_from (mem : c ∈ cutChunks cs n) :
    ∃ d ∈ cs, c.writer = d.writer ∧ c.entry = d.entry ∧ c.bytes.length ≤ d.bytes.length := by
  induction cs generalizing n with
  | nil => cases mem
  | cons d cs ih =>
    simp only [cutChunks] at mem
    split at mem
    · cases mem
    · split at mem
      · rcases List.mem_cons.mp mem with rfl | later
        · exact ⟨c, List.mem_cons_self, rfl, rfl, le_rfl⟩
        · obtain ⟨e, he, same⟩ := ih later
          exact ⟨e, List.mem_cons_of_mem _ he, same⟩
      · rw [List.mem_singleton.mp mem]
        exact ⟨d, List.mem_cons_self, rfl, rfl, by simp⟩

theorem whole_written (mem : c ∈ cutChunks (chunksOf crates life ps) n) (whole : c.Whole crates) :
    ∃ it, .header it ∈ ps ∧ c.writer = (life, it.owner) ∧ c.entry = it.entry := by
  obtain ⟨d, hd, writer, entry, shorter⟩ := cut_from mem
  rcases whole_header hd with ⟨it, header, own, same⟩ | short
  · exact ⟨it, header, writer.trans own, entry.trans same⟩
  · rw [whole, entry] at shorter
    exact absurd shorter (Nat.not_le_of_lt short)

def front (crates : Crates) (cs : List Chunk) : List Chunk := cs.takeWhile fun c => c.Whole crates

theorem mem_front (h : c ∈ front crates cs) : c ∈ cs ∧ c.Whole crates :=
  ⟨(List.takeWhile_prefix _).subset h, by simpa using List.all_eq_true.mp List.all_takeWhile c h⟩

theorem Uncompleted.tail (h : Uncompleted crates (c :: cs)) : Uncompleted crates cs :=
  fun pre d post split => h (c :: pre) d post (congrArg (c :: ·) split)

theorem Uncompleted.next (h : Uncompleted crates (c :: cs))
    (fits : c.Whole crates → crates.Fits c.entry)
    {e : WalEntry} {later : Bytes} (read : readFrame crates (bytesOf (c :: cs)) = .ok (e, later)) :
    c.Whole crates ∧ e = c.entry ∧ later = bytesOf cs := by
  by_cases whole : c.Whole crates
  · have valid : ValidFrame crates c.bytes c.entry := whole ▸ frame_valid (fits whole)
    have next : readFrame crates (c.bytes ++ bytesOf cs) = _ := valid.reads (bytesOf cs)
    rw [bytesOf_cons, next] at read
    cases read
    exact ⟨whole, rfl, rfl⟩
  · exact absurd read (h [] c cs rfl whole e later)

theorem read_front (h : Uncompleted crates cs) (fits : ∀ c ∈ front crates cs, crates.Fits c.entry) :
    (readLog crates (bytesOf cs)).items = (front crates cs).map Chunk.entry := by
  induction cs with
  | nil => exact congrArg Reading.items (readLog_nil crates)
  | cons c cs ih =>
    by_cases whole : c.Whole crates
    · have split : front crates (c :: cs) = c :: front crates cs := by simp [front, whole]
      rw [split] at fits ⊢
      have valid : ValidFrame crates c.bytes c.entry :=
        whole ▸ frame_valid (fits c List.mem_cons_self)
      have read := (ValidLog.cons valid .nil).read (bytesOf cs)
      rw [List.append_nil] at read
      rw [bytesOf_cons, read, List.map_cons, ← ih h.tail
        fun d hd => fits d (List.mem_cons_of_mem _ hd)]
      rfl
    · have none_whole : front crates (c :: cs) = [] := by simp [front, whole]
      rw [none_whole, List.map_nil]
      cases read : readFrame crates (bytesOf (c :: cs)) with
      | error exit => rw [readLog_stop read]
      | ok out => exact absurd (h.next (fun w => absurd w whole) read).1 whole

theorem readable_written (h : Uncompleted crates cs)
    (fits : ∀ c ∈ front crates cs, crates.Fits c.entry) {p : Nat}
    {e : WalEntry} (read : Readable crates (bytesOf cs) p e) :
    ∃ c ∈ front crates cs, WrittenAt crates cs p c ∧ c.entry = e := by
  obtain ⟨prior, es, rest, later, split, valid, rfl, next⟩ := read
  induction cs generalizing prior es with
  | nil =>
    have nothing : rest = [] := (List.append_eq_nil_iff.mp split.symm).2
    rw [nothing, readFrame_nil] at next
    cases next
  | cons c cs ih =>
    have own : c.Whole crates → crates.Fits c.entry := fun whole => fits c (by simp [front, whole])
    cases valid with
    | nil =>
      rw [List.nil_append] at split
      rw [← split] at next
      obtain ⟨whole, rfl, _⟩ := h.next own next
      exact ⟨c, by simp [front, whole], ⟨[], cs, rfl, rfl, whole⟩, rfl⟩
    | @cons bytes more e₀ es head tail =>
      have first := head.reads (more ++ rest)
      rw [← List.append_assoc, ← split] at first
      obtain ⟨whole, _, rest_same⟩ := h.next own first
      have both : front crates (c :: cs) = c :: front crates cs := by simp [front, whole]
      rw [both] at fits ⊢
      obtain ⟨d, hd, ⟨pre, post, at_d, offset, whole_d⟩, entry⟩ :=
        ih h.tail (fun d hd => fits d (List.mem_cons_of_mem _ hd)) more es rest_same.symm tail
      refine ⟨d, List.mem_cons_of_mem _ hd, ⟨c :: pre, post, by rw [at_d]; rfl, ?_, whole_d⟩, entry⟩
      have size := congrArg List.length split
      have size' := congrArg List.length rest_same
      simp only [List.length_append, bytesOf_cons] at size size' ⊢
      omega

end Chunks

section Traced

variable {crates : Crates} {σ σ' : WalConfig} {a : WalAction}

structure Traced (crates : Crates) (σ : WalConfig) : Prop where
  queue : σ.shared.pending <:+ σ.shared.history
  held : ∀ (j : Nat) (t : Option WalCall), σ.tasks[j]? = some t → heldBy t ⊆ σ.shared.history
  headers : ∀ it, .header it ∈ σ.shared.stream → it ∈ σ.shared.history ∧ crates.Fits it.entry

theorem runs_headers {i : Nat} {w w' : Wal} {c : WalCall} {t : Option WalCall}
    (h : Runs crates i w c w' t)
    (held : heldBy (some c) ⊆ w.history) {it : Item} (header : .header it ∈ w'.stream) :
    .header it ∈ w.stream ∨ (it ∈ w.history ∧ crates.Fits it.entry) := by
  cases h with
  | header fits =>
    rcases List.mem_append.mp header with old | new
    · exact .inl old
    · cases List.mem_singleton.mp new
      exact .inr ⟨held (by simp [heldBy, DrainPc.batch]), fits⟩
  | payload =>
    rcases List.mem_append.mp header with old | new
    · exact .inl old
    · cases List.mem_singleton.mp new
  | wait | reserve | push | appended | poll | force | drained | pop | empty | popped | lock | flush
  | sync | sub | wake =>
    exact .inl header

theorem traced_step (ok : Traced crates σ) (step : WalStep crates σ a σ') : Traced crates σ' := by
  have grows := step_history step
  have held : ∀ (j : Nat) (t : Option WalCall), σ'.tasks[j]? = some t →
      heldBy t ⊆ σ'.shared.history := by
    refine tasks_step ok.held step (fun t held it hit => grows (held hit)) ?_ ?_
    · intro t fresh
      cases fresh <;> exact List.nil_subset _
    · intro i c t _ _ held runs
      exact runs_batch_pushed runs ok.queue.subset held
  cases step with
  | spawn | start | fault => exact ⟨ok.queue, held, ok.headers⟩
  | run slot runs =>
    refine ⟨runs_queue runs ok.queue, held, fun it header => ?_⟩
    rcases runs_headers runs (ok.held _ _ slot) header with old | new
    · exact (ok.headers it old).imp_left (grows ·)
    · exact new.imp_left (grows ·)

end Traced

section Signed

variable {crates : Crates} {σ σ' : SystemConfig} {a : SystemAction} {m : Nat}
  {path : String} {base : Bytes} {ckpt : Option (List Char)} {mem : Memory}

structure Signed (σ : SystemConfig) : Prop where
  calls : ∀ (i : Nat) (e : WalEntry) (pc : AppendPc) (prog : Prog),
    σ.tasks[i]? = some ⟨some (.append e pc), prog⟩ →
    prog.txId? = some e.txId
  items : ∀ it ∈ σ.shared.wal.history, ∃ t, σ.tasks[it.owner]? = some t ∧
    t.prog.txId? = some it.entry.txId

theorem signed_set {s : System} {i : Nat} {t t' : Task} (ok : Signed σ)
    (slot : σ.tasks[i]? = some t) (same : t'.prog.txId? = t.prog.txId?)
    (calls : ∀ e pc, t'.call = some (.append e pc) → t'.prog.txId? = some e.txId)
    (items : ∀ it ∈ s.wal.history, it ∈ σ.shared.wal.history ∨
      (it.owner = i ∧ t'.prog.txId? = some it.entry.txId)) : Signed ⟨s, σ.tasks.set i t'⟩ := by
  have bound := (List.getElem?_eq_some_iff.mp slot).1
  have here : (σ.tasks.set i t')[i]? = some t' := List.getElem?_set_self bound
  refine ⟨fun j e pc prog hj => ?_, fun it hit => ?_⟩
  · rcases getElem?_set_cases hj with ⟨_, rfl, _⟩ | ⟨_, old⟩
    · exact calls e pc rfl
    · exact ok.calls j e pc prog old
  · rcases items it hit with old | ⟨rfl, own⟩
    · obtain ⟨u, at_owner, own⟩ := ok.items it old
      by_cases mine : it.owner = i
      · subst mine
        cases Option.some.inj (at_owner.symm.trans slot)
        exact ⟨t', here, same.trans own⟩
      · exact ⟨u, by rw [List.getElem?_set_ne (Ne.symm mine)]; exact at_owner, own⟩
    · exact ⟨t', here, own⟩

theorem signed_spawn {s : System} {prog : Prog} (ok : Signed σ)
    (history : s.wal.history = σ.shared.wal.history) : Signed ⟨s, σ.tasks ++ [⟨none, prog⟩]⟩ := by
  refine ⟨fun j e pc prog hj => ?_, fun it hit => ?_⟩
  · rcases getElem?_append_one hj with old | ⟨_, same⟩
    · exact ok.calls j e pc prog old
    · cases same
  · obtain ⟨t, at_owner, own⟩ := ok.items it (history ▸ hit)
    exact ⟨t,
      by rw [List.getElem?_append_left (List.getElem?_eq_some_iff.mp at_owner).1]; exact at_owner,
      own⟩

theorem own_appends {i : Nat} {m : Move} {prog : Prog} {s s' : System} {t' : Task}
    (h : OwnRuns crates i s m prog s' t')
    {e : WalEntry} {pc : AppendPc} (call : t'.call = some (.append e pc)) :
    t'.prog.txId? = some e.txId := by
  cases h with
  | append appended =>
    obtain ⟨stamped, rfl⟩ := appendOp_ok appended
    cases call
    exact congrArg some (stamped_operation stamped).2.1.symm
  | commit | abort => cases call; rfl
  | control shutdown handle exited before after log appends => exact absurd call (appends e pc)
  | ckpt moved =>
    obtain ⟨stage', rfl, _⟩ := ckptMove_runs moved
    cases call
  | refused | notActive | discard | commitFlush | abortFlush | done | apply | applyFails | cancel =>
    cases call

theorem signed_step (ok : Signed σ) (step : SystemStep crates σ a σ') : Signed σ' := by
  cases step with
  | begin | spawn => exact signed_spawn ok rfl
  | @call i c prog w call slot runs =>
    have same : (if call.isSome then prog else prog.returned (.ok ())).txId? = prog.txId? := by
      split
      · rfl
      · exact returned_txId (.ok ()) prog
    by_cases appends : ∃ e pc, c = .append e pc
    · obtain ⟨e, pc, rfl⟩ := appends
      have own := ok.calls i e pc prog slot
      rcases append_runs runs with ⟨pc', rfl, _, _, history⟩ | ⟨it, _, owner, entry, rfl, push, _⟩
        | ⟨it, _, rfl, history, _⟩
      · refine signed_set ok slot same (fun e' pc'' again => ?_) fun it hit => .inl (history ▸ hit)
        cases again
        exact own
      · refine signed_set ok slot same (fun e' pc'' again => ?_) fun it' hit => ?_
        · cases again
          exact own
        · change it' ∈ w.history at hit
          rw [push] at hit
          rcases List.mem_append.mp hit with old | new
          · exact .inl old
          · rw [List.mem_singleton.mp new, entry]
            exact .inr ⟨owner, own⟩
      · exact signed_set ok slot same (by simp) fun it hit => .inl (history ▸ hit)
    · obtain ⟨history, none_appends⟩ := other_runs runs fun e pc same => appends ⟨e, pc, same⟩
      exact signed_set ok slot same (fun e pc again => absurd again (none_appends e pc))
        fun it hit => .inl (history ▸ hit)
  | @fault i c k prog prog' slot fallible stops after =>
    refine signed_set ok slot ?_ (by simp) fun it hit => .inl hit
    rcases after with rfl | ⟨e, rfl⟩
    · exact dropped_txId prog
    · exact returned_txId (.error e) prog
  | @own i m prog s' t' slot other runs =>
    obtain ⟨history, _, _⟩ := logMove_records runs.log
    exact signed_set ok slot (own_txId runs).1 (fun e pc => own_appends runs) fun it hit =>
      .inl (history ▸ hit)

theorem signed_run {guard : SystemConfig → SystemAction → Prop}
    (run : (systemProtocol crates).Reaches guard (System.start m path base ckpt mem) σ) :
    Signed σ := by
  apply run.invariant
  · refine ⟨fun j e pc prog hj => ?_, fun it hit => ?_⟩
    · have known := List.mem_of_getElem? hj
      simp [System.start] at known
    · cases hit
  · intro τ a τ' ok _ taken
    exact signed_step ok (system_step_cases taken)

theorem traced_run {guard : SystemConfig → SystemAction → Prop}
    (run : (systemProtocol crates).Reaches guard (System.start m path base ckpt mem) σ) :
    Traced crates (logView σ) := by
  apply run.invariant (I := fun σ => Traced crates (logView σ))
  · refine ⟨List.nil_suffix, fun j t hj => ?_, fun it header => ?_⟩
    · have idle : t = none := by simpa [logView, System.start] using List.mem_of_getElem? hj
      rw [idle]
      exact List.nil_subset _
    · cases header
  · intro τ a τ' ok _ taken
    rcases log_step taken with ⟨same, _⟩ | ⟨b, _, moved⟩
    · rw [same]
      exact ok
    · exact traced_step ok (wal_step_cases moved)

end Signed

section Authored

variable {crates : Crates} {lives : Nat} {file : Bytes} {chunks : List Chunk}

/-- What every file left by some lifetimes satisfies: its
readable frames are told apart by their ids. -/
structure Authored (crates : Crates) (file : Bytes) (chunks : List Chunk) : Prop where
  file : file = bytesOf chunks
  uncompleted : Uncompleted crates chunks
  fits : ∀ c ∈ front crates chunks, crates.Fits c.entry
  room : ∀ c ∈ front crates chunks, c.entry.txId + 1 ≠ 0
  unique : ∀ c ∈ front crates chunks, ∀ d ∈ front crates chunks, c.entry.txId = d.entry.txId →
    c.writer = d.writer

theorem front_append {cs ds : List Chunk} {c : Chunk} (h : c ∈ front crates (cs ++ ds)) :
    c ∈ front crates cs ∨ c ∈ front crates ds := by
  rw [front, List.takeWhile_append] at h
  split at h
  · rename_i all
    rcases List.mem_append.mp h with old | new
    · left
      rw [front, (List.takeWhile_prefix _).eq_of_length all]
      exact old
    · exact .inr new
  · exact .inl h

theorem life_writes {m n : Nat} {path : String} {ckpt : Option (List Char)} {mem : Memory}
    {σ : SystemConfig}
    (run : (systemProtocol crates).Reaches NoWrap (System.start m path file ckpt mem) σ) {c : Chunk}
    (readable : c ∈ front crates (cutChunks (chunksOf crates lives σ.shared.wal.stream) n)) :
    ∃ i t, c.writer = (lives, i) ∧ σ.tasks[i]? = some t ∧ t.prog.txId? = some c.entry.txId ∧
      crates.Fits c.entry ∧
      mem.nextTxId ≤ c.entry.txId ∧ c.entry.txId < σ.shared.mem.nextTxId := by
  have ids : TxIds mem.nextTxId σ := txIds_run (fun _ _ ok => ok) run
  have signed : Signed σ := signed_run run
  have traced : Traced crates (logView σ) := traced_run run
  obtain ⟨written, whole⟩ := mem_front readable
  obtain ⟨it, header, writer, entry⟩ := whole_written written whole
  obtain ⟨pushed, fits⟩ := traced.headers it header
  obtain ⟨t, at_owner, own⟩ := signed.items it pushed
  obtain ⟨low, high⟩ := ids.drawn it.owner t _ at_owner own
  rw [← entry] at own fits low high
  exact ⟨it.owner, t, writer, at_owner, own, fits, low, high⟩

theorem authored_life {m n : Nat} {path : String} {ckpt : Option (List Char)}
    {stats : RecoveryStats} {mem : Memory} {σ : SystemConfig} (ok : Authored crates file chunks)
    (recovered : recoverWithValidation crates (some file) ⟨fun _ => none, 1⟩ = (.ok stats, mem))
    (run : (systemProtocol crates).Reaches NoWrap (System.start m path file ckpt mem) σ)
    (synced : σ.shared.syncedBytes crates ≤ n)
    (uncompleted : Uncompleted crates
      (chunks ++ cutChunks (chunksOf crates lives σ.shared.wal.stream) (n - file.length))) :
    Authored crates ((σ.shared.file crates).take n)
      (chunks ++ cutChunks (chunksOf crates lives σ.shared.wal.stream) (n - file.length)) := by
  have base : σ.shared.base = file := base_run run
  have beyond : file.length ≤ n := base ▸ le_trans (Nat.le_add_right _ _) synced
  have read := read_front ok.uncompleted ok.fits
  rw [← ok.file] at read
  have above := recover_above (congrArg Prod.fst recovered) (by
    rw [read]
    intro e he
    obtain ⟨c, hc, rfl⟩ := List.mem_map.mp he
    exact ok.room c hc)
  rw [read, recovered] at above
  have older : ∀ c ∈ front crates chunks, c.entry.txId < mem.nextTxId := fun c hc =>
    above _ (List.mem_map_of_mem hc)
  refine ⟨?_, uncompleted, fun c hc => ?_, fun c hc => ?_, fun c hc d hd same => ?_⟩
  · rw [bytesOf_append, bytesOf_cut, bytesOf_chunks, ← ok.file, System.file, base, List.take_append,
      List.take_of_length_le beyond]
  · rcases front_append hc with old | new
    · exact ok.fits c old
    · obtain ⟨_, _, _, _, _, fits, _⟩ := life_writes run new
      exact fits
  · rcases front_append hc with old | new
    · exact ok.room c old
    · obtain ⟨_, _, _, _, _, _, _, high⟩ := life_writes run new
      exact succ_ne_zero_of_lt high
  · rcases front_append hc with old | new <;> rcases front_append hd with old' | new'
    · exact ok.unique c old d old' same
    · obtain ⟨_, _, _, _, _, _, low, _⟩ := life_writes run new'
      exact absurd same (ne_of_lt (lt_of_lt_of_le (older c old) low))
    · obtain ⟨_, _, _, _, _, _, low, _⟩ := life_writes run new
      exact absurd same.symm (ne_of_lt (lt_of_lt_of_le (older d old') low))
    · obtain ⟨i, t, writer, at_i, own, _⟩ := life_writes run new
      obtain ⟨j, u, writer', at_j, own', _⟩ := life_writes run new'
      have ids : TxIds mem.nextTxId σ := txIds_run (fun _ _ ok => ok) run
      rw [writer, writer', ids.unique at_i at_j own (same ▸ own')]

theorem authored_lives (lived : Lifetimes crates lives file chunks) :
    Authored crates file chunks := by
  induction lived with
  | new =>
    refine ⟨rfl, fun pre c post split => ?_, List.forall_mem_nil _, List.forall_mem_nil _,
      List.forall_mem_nil _⟩
    exact absurd split (by simp)
  | life _ recovered run synced uncompleted ih =>
    exact authored_life ih recovered run synced uncompleted

/-- Whatever faults and crashes there were, two frames that can be read and carry the same id were
written by the same transaction of the same lifetime. -/
theorem same_id_same_writer (lived : Lifetimes crates lives file chunks) {p q : Nat}
    {e f : WalEntry}
    (read : Readable crates file p e) (read' : Readable crates file q f) (same : e.txId = f.txId) :
    ∃ c d, WrittenAt crates chunks p c ∧ WrittenAt crates chunks q d ∧ c.entry = e ∧ d.entry = f ∧
      c.writer = d.writer := by
  have ok := authored_lives lived
  rw [ok.file] at read read'
  obtain ⟨c, hc, at_p, rfl⟩ := readable_written ok.uncompleted ok.fits read
  obtain ⟨d, hd, at_q, rfl⟩ := readable_written ok.uncompleted ok.fits read'
  exact ⟨c, d, at_p, at_q, rfl, rfl, ok.unique c hc d hd same⟩

end Authored

def recoveredMemory (file : Bytes) : Memory :=
  (recoverWithValidation (Bincode.crates true) (some file) ⟨fun _ => none, 1⟩).2

def firstLife : SystemConfig :=
  ((systemProtocol (Bincode.crates true)).exec NoWrap (System.start 10000 "wal.log" [] none
    (recoveredMemory []))
    ([.spawn .transaction] ++ insertInto "k" [1] 2 ++ flusherRound 1)).get (by decide +kernel)

def firstFile : Bytes := (firstLife.shared.file (Bincode.crates true)).take 51

def firstChunks : List Chunk :=
  [] ++ cutChunks (chunksOf (Bincode.crates true) 0 firstLife.shared.wal.stream) 51

def secondLife : SystemConfig :=
  ((systemProtocol (Bincode.crates true)).exec NoWrap (System.start 10000 "wal.log" firstFile none
    (recoveredMemory firstFile))
    (insertAndCommit ++ flusherRound 2)).get (by decide +kernel)

def secondFile : Bytes := (secondLife.shared.file (Bincode.crates true)).take 135

def secondChunks : List Chunk :=
  firstChunks ++ cutChunks (chunksOf (Bincode.crates true) 1 secondLife.shared.wal.stream)
    (135 - firstFile.length)

theorem uncompleted_of_whole {crates : Crates} {cs : List Chunk}
    (whole : ∀ c ∈ cs, c.Whole crates) : Uncompleted crates cs := by
  rintro pre c post rfl torn
  exact absurd (whole c (by simp)) torn

def readableLog : List WalEntry := [.insert 1 7 "k" [1], .insert 2 7 "k" [1], .commit 2 8]

theorem readable_frame {crates : Crates} (pre : List WalEntry) (e : WalEntry) (post : List WalEntry)
    (fits : ∀ f ∈ pre ++ e :: post, crates.Fits f) :
    Readable crates ((pre ++ e :: post).flatMap (frame crates))
      (pre.flatMap (frame crates)).length e := by
  refine ⟨pre.flatMap (frame crates), pre, (e :: post).flatMap (frame crates),
    post.flatMap (frame crates), List.flatMap_append,
    .of_entries fun f hf => fits f (by simp [hf]), rfl, ?_⟩
  have valid : ValidFrame crates (frame crates e) e := frame_valid (fits e (by simp))
  rw [List.flatMap_cons]
  generalize frame crates e = bytes at valid ⊢
  exact valid.reads _

theorem same_id_same_writer_secondLife :
    ∃ c d, WrittenAt (Bincode.crates true) secondChunks 51 c ∧
      WrittenAt (Bincode.crates true) secondChunks 102 d ∧
      c.entry = .insert 2 7 "k" [1] ∧ d.entry = .commit 2 8 ∧ c.writer = d.writer := by
  have first : Lifetimes (Bincode.crates true) 1 firstFile firstChunks :=
    .life .new (Prod.ext (by decide +kernel : _ = Outcome.ok ({} : RecoveryStats)) rfl)
      (Protocol.reaches_exec _ (by decide +kernel)) (by decide +kernel)
        (uncompleted_of_whole (by decide +kernel))
  have second : Lifetimes (Bincode.crates true) 2 secondFile secondChunks :=
    .life first (Prod.ext (by decide +kernel : _ = Outcome.ok
      { totalTransactions := 1, incomplete := 1, partialWrites := 1 }) rfl)
      (Protocol.reaches_exec _ (by decide +kernel)) (by decide +kernel)
        (uncompleted_of_whole (by decide +kernel))
  have log : secondFile = readableLog.flatMap (frame (Bincode.crates true)) := by decide +kernel
  have fits : ∀ e ∈ readableLog, (Bincode.crates true).Fits e := by decide +kernel
  have read := readable_frame [.insert 1 7 "k" [1]] (.insert 2 7 "k" [1]) [.commit 2 8] fits
  have read' := readable_frame [.insert 1 7 "k" [1], .insert 2 7 "k" [1]] (.commit 2 8) [] fits
  exact same_id_same_writer second (log ▸ read) (log ▸ read') rfl

end AsyncWalDb
