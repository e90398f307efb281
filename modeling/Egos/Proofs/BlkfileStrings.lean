import Egos.Proofs.BlkfileContents

/-! The files of the block file server are byte strings: every reply is the one that the
strings give. -/

namespace Egos.Blkfile
open Library Files
open Grass (Pid Uid bytesOf)

/-- The table and the store hold the files; what is not a file is empty. -/
structure Holds (cache : Cache) (s : InodeStore) (files : ByteFiles) : Prop where
  table : files 0 = none
  free : ∀ ino : Fin MAX_INODES, ino ≠ 0 → files ino = none →
    (cache ino).stAlloc = false ∧ (cache ino).stSize = 0 ∧ Stores s (UInt32.ofNat ino) []
  used : ∀ (ino : Fin MAX_INODES) (file : ByteFile), files ino = some file →
    cache ino = file.stat ∧ file.bytes.length < 2 ^ 31 ∧ Stores s (UInt32.ofNat ino) file.bytes

section Calls
variable {s : InodeStore} {src : Pid}

theorem findUid_run (super : s.uid src = some 0) : (findUid src).run InodeStore.serve s = .done 0 s := by
  unfold findUid call
  rw [Effect.run_bind, Effect.run_perform]
  unfold InodeStore.serve
  dsimp only [bind]
  rw [super]
  rfl

/-- The superuser may do everything. -/
theorem allowed_run (super : s.uid src = some 0) (owner other : UInt32) (stat : Option FileStat) :
    (allowed owner other stat src).run InodeStore.serve s = .done true s := by
  unfold allowed
  rw [Effect.run_bind, Prog.bind_done (findUid_run super), if_pos rfl]
  rfl

theorem refuse_run (cache : Cache) (src : Pid) (s : InodeStore) :
    (refuse cache src).run InodeStore.serve s = .done cache (InodeStore.reply s src (.cleared .error)) := by
  unfold refuse respond
  rw [Effect.run_bind, Prog.bind_done (send_call ..)]
  rfl

end Calls

namespace Holds
variable {cache : Cache} {s after : InodeStore} {files : ByteFiles} {ino : UInt32}

theorem inode_ne {i j : Fin MAX_INODES} (apart : i ≠ j) : UInt32.ofNat i ≠ UInt32.ofNat j := by
  intro same
  have value : ∀ k : Fin MAX_INODES, (UInt32.ofNat k).toNat = k := fun k =>
    UInt32.toNat_ofNat_of_lt' (Nat.lt_trans k.isLt (by decide))
  apply apart
  apply Fin.ext
  rw [← value i, ← value j, same]

/-- A file is changed, and no other inode but the table. -/
theorem put (holds : Holds cache s files) {i : Fin MAX_INODES} (some : i ≠ 0) {file : ByteFile}
    (small : file.bytes.length < 2 ^ 31)
    (stores : Stores after (UInt32.ofNat i) file.bytes)
    (same : ∀ other, other ≠ UInt32.ofNat i → other ≠ 0 → after.blocks other = s.blocks other) :
    Holds (Function.update cache i file.stat) after (Function.update files i (.some file)) := by
  refine ⟨?_, fun j positive none => ?_, fun j other file => ?_⟩
  · rw [Function.update_of_ne some.symm]
    exact holds.table
  · have apart : j ≠ i := by
      rintro rfl
      rw [Function.update_self] at none
      cases none
    rw [Function.update_of_ne apart] at none ⊢
    obtain ⟨alloc, size, empty⟩ := holds.free j positive none
    exact ⟨alloc, size, empty.congr (same _ (inode_ne apart) (inode_ne positive))⟩
  · by_cases here : j = i
    · subst here
      rw [Function.update_self] at file ⊢
      cases file
      exact ⟨rfl, small, stores⟩
    · rw [Function.update_of_ne here] at file ⊢
      obtain ⟨entry, short, held⟩ := holds.used j other file
      have positive : j ≠ 0 := by
        rintro rfl
        rw [holds.table] at file
        cases file
      exact ⟨entry, short, held.congr (same _ (inode_ne here) (inode_ne positive))⟩

theorem stored (holds : Holds cache s files) (same : ∀ other, other ≠ 0 → after.blocks other = s.blocks other) :
    Holds cache after files := by
  refine ⟨holds.table, fun i positive none => ?_, fun i file used => ?_⟩
  · obtain ⟨alloc, size, empty⟩ := holds.free i positive none
    exact ⟨alloc, size, empty.congr (same _ (inode_ne positive))⟩
  · have positive : i ≠ 0 := by
      rintro rfl
      rw [holds.table] at used
      cases used
    obtain ⟨entry, short, held⟩ := holds.used i file used
    exact ⟨entry, short, held.congr (same _ (inode_ne positive))⟩

/-- The server finds an entry where there is a file. -/
theorem no_file (holds : Holds cache s files) (some : ino ≠ 0) (none : files.file ino = none) :
    cache.allocated ino = .none := by
  unfold Cache.allocated Cache.entry
  unfold ByteFiles.file at none
  by_cases inside : ino.toNat < MAX_INODES
  · rw [dif_pos inside] at none ⊢
    have positive : (⟨ino.toNat, inside⟩ : Fin MAX_INODES) ≠ 0 := fun zero =>
      some (UInt32.toNat_inj.mp (show ino.toNat = 0 from congrArg Fin.val zero))
    rw [Option.filter_some, (holds.free _ positive none).1]
    rfl
  · rw [dif_neg inside]
    rfl

theorem a_file (holds : Holds cache s files) {file : ByteFile} (used : files.file ino = some file) :
    ∃ inside : ino.toNat < MAX_INODES, cache.allocated ino = some file.stat ∧ files ⟨ino.toNat, inside⟩ = some file ∧
      file.bytes.length < 2 ^ 31 ∧ Stores s ino file.bytes := by
  unfold ByteFiles.file at used
  by_cases inside : ino.toNat < MAX_INODES
  · rw [dif_pos inside] at used
    obtain ⟨entry, small, stores⟩ := holds.used _ _ used
    refine ⟨inside, ?_, used, small, ?_⟩
    · unfold Cache.allocated Cache.entry
      rw [dif_pos inside, entry]
      rfl
    · rwa [UInt32.ofNat_toNat] at stores
  · rw [dif_neg inside] at used
    cases used

theorem unallocated_eq (holds : Holds cache s files) : cache.unallocated = files.unused := by
  unfold Cache.unallocated ByteFiles.unused
  congr 1
  funext ino
  by_cases zero : ino = 0
  · rw [zero]
    rfl
  · congr 1
    cases used : files ino with
    | none =>
      rw [(holds.free ino zero used).1]
      rfl
    | some file =>
      rw [(holds.used ino file used).1]
      rfl

end Holds

/-- The handler replies once, and what the server holds afterwards are the given files. -/
def Answers (program : Server Cache) (s : InodeStore) (src : Pid) (answer : FileReply × ByteFiles) : Prop :=
  ∃ cache after, program.run InodeStore.serve s = .done cache after ∧ after.sent = s.sent ++ [(src, answer.1)] ∧
    after.uid = s.uid ∧
    Holds cache after answer.2

section Handlers
variable {cache : Cache} {s : InodeStore} {files : ByteFiles} {req : FileRequest} {src : Pid}

theorem Holds.refuses (holds : Holds cache s files) : Answers (refuse cache src) s src (.cleared .error, files) :=
  ⟨cache, _, refuse_run cache src s, rfl, rfl, holds.stored fun _ _ => rfl⟩

/-- The last steps of the handlers that change an entry. -/
theorem flush_answers {middle : InodeStore} (flushes : ∀ after, Flushed s after → Holds cache after files)
    (reply : FileReply)
    (sent : middle.sent = s.sent) (uid : middle.uid = s.uid) (blocks : middle.blocks = s.blocks) :
    Answers (do
      flushStatCache cache
      call (.send src reply)
      pure cache) middle src (reply, files) := by
  obtain ⟨after, flushed, kept⟩ := flushStatCache_run cache middle
  have same : Flushed s after := ⟨kept.uid.trans uid, kept.sent.trans sent,
    fun ino some => (kept.blocks ino some).trans (congrFun blocks ino)⟩
  refine ⟨cache, InodeStore.reply after src reply, ?_, ?_, kept.uid, (flushes after same).stored fun _ _ => rfl⟩
  · rw [Effect.run_bind, Prog.bind_done flushed, Effect.run_bind, Prog.bind_done (send_call ..)]
    rfl
  · unfold InodeStore.reply
    dsimp only
    rw [kept.sent]

theorem create_answers (holds : Holds cache s files) (super : s.uid src = some 0) (create : req.type = .create)
    (data : List UInt8) :
    Answers (doCreate cache req src) s src (files.answer req data) := by
  unfold doCreate ByteFiles.answer
  rw [create, holds.unallocated_eq]
  dsimp only
  cases found : files.unused with
  | none => exact holds.refuses
  | some ino =>
    have picked := List.find?_some found
    rw [Bool.and_eq_true, decide_eq_true_eq, Option.isNone_iff_eq_none] at picked
    have some : ino ≠ 0 := fun zero => picked.1 (congrArg Fin.val zero)
    obtain ⟨_, size, empty⟩ := holds.free ino some picked.2
    have entry : { cache ino with stAlloc := true, stMode := req.mode, stUid := 0 } =
        ByteFile.stat { bytes := [], uid := 0, mode := req.mode } := by
      dsimp only
      rw [size]
      rfl
    dsimp only
    unfold Answers
    rw [Effect.run_bind, Prog.bind_done (findUid_run super), entry]
    refine flush_answers (s := s) (fun after flushed => ?_) _ rfl rfl rfl
    exact holds.put some (show 0 < 2 ^ 31 by decide) (empty.congr (flushed.blocks _ (Holds.inode_ne some)))
      fun other _ positive => flushed.blocks other positive

/-- A handler that looks at the entry of a file first. -/
theorem file_answers (holds : Holds cache s files) (some : req.ino ≠ 0) {found : FileStat → Server Cache}
    {answer : ByteFile → FileReply × ByteFiles}
    (handles : ∀ (file : ByteFile) (inside : req.ino.toNat < MAX_INODES), files ⟨req.ino.toNat, inside⟩ = .some file →
    file.bytes.length < 2 ^ 31 →
      Stores s req.ino file.bytes → Answers (found file.stat) s src (answer file)) :
    Answers (match cache.allocated req.ino with | none => refuse cache src | .some stat => found stat) s src
      (match files.file req.ino with | none => (.cleared .error, files) | .some file => answer file) := by
  cases used : files.file req.ino with
  | none =>
    rw [holds.no_file some used]
    exact holds.refuses
  | some file =>
    obtain ⟨inside, entry, here, small, stores⟩ := holds.a_file used
    rw [entry]
    exact handles file inside here small stores

/-- A change of the entry of a file that leaves its bytes. -/
theorem entry_answers (holds : Holds cache s files) (some : req.ino ≠ 0) {file changed : ByteFile}
    (inside : req.ino.toNat < MAX_INODES)
    (small : file.bytes.length < 2 ^ 31) (stores : Stores s req.ino file.bytes) (same : changed.bytes = file.bytes) :
    Answers (do
      let cache := cache.put req.ino changed.stat
      flushStatCache cache
      call (.send src (.cleared .ok))
      pure cache) s src (.cleared .ok, files.put req.ino changed) := by
  have positive : (⟨req.ino.toNat, inside⟩ : Fin MAX_INODES) ≠ 0 := fun zero =>
    some (UInt32.toNat_inj.mp (show req.ino.toNat = 0 from congrArg Fin.val zero))
  have number : UInt32.ofNat req.ino.toNat = req.ino := UInt32.ofNat_toNat
  unfold Cache.put ByteFiles.put
  rw [dif_pos inside, dif_pos inside]
  refine flush_answers (s := s) (fun after flushed => ?_) _ rfl rfl rfl
  refine holds.put positive (same ▸ small) ?_ fun other _ zero => flushed.blocks other zero
  rw [number, same]
  exact stores.congr (flushed.blocks _ some)

theorem chown_answers (holds : Holds cache s files) (super : s.uid src = .some 0) (some : req.ino ≠ 0)
    (chown : req.type = .chown) (data : List UInt8) :
    Answers (doChown cache req src) s src (files.answer req data) := by
  unfold doChown ByteFiles.answer
  rw [chown]
  refine file_answers holds some fun file inside _ small stores => ?_
  unfold Answers
  rw [Effect.run_bind, Prog.bind_done (findUid_run super), if_neg (not_not_intro rfl)]
  exact @entry_answers cache s files req src holds some file { file with uid := req.uid } inside small stores rfl

theorem chmod_answers (holds : Holds cache s files) (super : s.uid src = .some 0) (some : req.ino ≠ 0)
    (chmod : req.type = .chmod) (data : List UInt8) :
    Answers (doChmod cache req src) s src (files.answer req data) := by
  unfold doChmod ByteFiles.answer
  rw [chmod]
  refine file_answers holds some fun file inside _ small stores => ?_
  unfold Answers
  rw [Effect.run_bind, Prog.bind_done (findUid_run super), if_neg fun denied => denied.1 rfl]
  exact @entry_answers cache s files req src holds some file { file with mode := req.mode } inside small stores rfl

theorem stat_answers (holds : Holds cache s files) (super : s.uid src = .some 0) (some : req.ino ≠ 0)
    (stat : req.type = .stat) (data : List UInt8) :
    Answers (doStat cache req src) s src (files.answer req data) := by
  unfold doStat ByteFiles.answer
  rw [stat]
  refine file_answers holds some fun file inside _ small stores => ?_
  refine ⟨cache, InodeStore.reply s src { FileReply.cleared .ok with op := .stat, stat := file.stat }, ?_, rfl,
    rfl, holds.stored fun _ _ => rfl⟩
  rw [Effect.run_bind]
  unfold readAllowed
  rw [Prog.bind_done (allowed_run super ..)]
  dsimp only
  rw [Effect.run_bind, Prog.bind_done (send_call ..)]
  rfl

theorem stat_size {file : ByteFile} (small : file.bytes.length < 2 ^ 31) : file.stat.stSize.toNat = file.bytes.length :=
  UInt64.toNat_ofNat_of_lt' (Nat.lt_trans small (by decide))

theorem read_answers (holds : Holds cache s files) (super : s.uid src = .some 0) (some : req.ino ≠ 0)
    (read : req.type = .read)
    (fits : req.size.toNat < 2 ^ 32 - 56) (data : List UInt8) :
    Answers (doRead cache req src) s src (files.answer req data) := by
  unfold doRead ByteFiles.answer
  rw [read]
  refine file_answers holds some fun file inside _ small stores => ?_
  have length := stat_size small
  dsimp only
  refine ⟨cache, InodeStore.reply s src _, ?_, rfl, rfl, holds.stored fun _ _ => rfl⟩
  rw [Effect.run_bind]
  unfold readAllowed
  rw [Prog.bind_done (allowed_run super ..)]
  dsimp only
  by_cases before : req.size ≠ 0 ∧ req.offset < file.stat.stSize
  · rw [if_pos before]
    exact readContents_run inside stores cache length small (length ▸ UInt64.lt_iff_toNat_lt.mp before.2) fits src
  · have nothing : (file.bytes.drop req.offset.toNat).take req.size.toNat = [] := by
      rw [not_and_or, not_not] at before
      rcases before with zero | past
      · rw [zero]
        exact List.take_zero
      · rw [UInt64.lt_iff_toNat_lt, length] at past
        rw [List.drop_eq_nil_of_le (Nat.not_lt.mp past)]
        exact List.take_nil
    rw [if_neg before, nothing, Effect.run_bind, Prog.bind_done (send_call ..), Effect.run_bind,
      Prog.bind_done (freeReply_run fits _)]
    rfl

theorem write_answers (holds : Holds cache s files) (super : s.uid src = .some 0) (some : req.ino ≠ 0)
    (write : req.type = .write) (data : List UInt8)
    (fits : ∀ ino file, (files.answer req data).2 ino = .some file → file.bytes.length < 2 ^ 31) :
    Answers (doWrite cache req data src) s src (files.answer req data) := by
  unfold doWrite
  unfold ByteFiles.answer at fits ⊢
  rw [write] at fits ⊢
  refine file_answers holds some fun file inside here small stores => ?_
  dsimp only at fits ⊢
  have used : files.file req.ino = .some file := by
    unfold ByteFiles.file
    rw [dif_pos inside, here]
  rw [used] at fits
  dsimp only at fits
  by_cases mismatch : req.size.toNat ≠ data.length
  · rw [if_pos mismatch, if_pos mismatch]
    exact holds.refuses
  rw [if_neg mismatch] at fits
  rw [if_neg mismatch, if_neg mismatch]
  have positive : (⟨req.ino.toNat, inside⟩ : Fin MAX_INODES) ≠ 0 := fun zero =>
    some (UInt32.toNat_inj.mp (show req.ino.toNat = 0 from congrArg Fin.val zero))
  have number : UInt32.ofNat req.ino.toNat = req.ino := UInt32.ofNat_toNat
  have short : (writeAt file.bytes req.offset.toNat data).length < 2 ^ 31 := by
    apply fits ⟨req.ino.toNat, inside⟩ { file with bytes := writeAt file.bytes req.offset.toNat data }
    unfold ByteFiles.put
    rw [dif_pos inside]
    exact Function.update_self ..
  have room := short
  rw [writeAt_length] at room
  obtain ⟨finalSize, middle, ran, size, stored, uid, sent, others⟩ :=
    put_run inside some stores cache (stat_size small) small (not_not.mp mismatch)
    (show req.offset.toNat + data.length < 2 ^ 31 by omega)
  have entry : { file.stat with stSize := finalSize } =
      ByteFile.stat { file with bytes := writeAt file.bytes req.offset.toNat data } := by
    have same : finalSize = UInt64.ofNat (writeAt file.bytes req.offset.toNat data).length := by
      apply UInt64.toNat_inj.mp
      rw [size, UInt64.toNat_ofNat_of_lt' (Nat.lt_trans short (by decide))]
    rw [same]
    rfl
  rw [entry] at ran
  refine ⟨cache.put req.ino (ByteFile.stat { file with bytes := writeAt file.bytes req.offset.toNat data }),
    InodeStore.reply middle src (.cleared .ok), ?_, ?_, uid, ?_⟩
  · unfold writeAllowed
    rw [Effect.run_bind, Prog.bind_done (allowed_run super ..)]
    dsimp only
    rw [Effect.run_bind, Prog.bind_done ran]
    dsimp only
    unfold respond
    rw [Effect.run_bind, Prog.bind_done (send_call ..)]
    rfl
  · unfold InodeStore.reply
    dsimp only
    rw [sent]
  · unfold Cache.put ByteFiles.put
    rw [dif_pos inside, dif_pos inside]
    refine holds.put positive short ?_ fun other apart zero => others other (number ▸ apart) zero
    rw [number]
    exact stored.congr rfl

/-- One request: the handler replies what the strings give. -/
theorem receive_answers (holds : Holds cache s files) {request : Pid × List UInt8} (ordinary : Ordinary s.uid request)
    (fits : ∀ ino file, (files.receive request).2 ino = some file → file.bytes.length < 2 ^ 31) :
    Answers (serve cache request.2 request.1) s request.1 (files.receive request) := by
  obtain ⟨super, req, data, decoded, kind⟩ := ordinary
  unfold serve
  unfold ByteFiles.receive at fits ⊢
  rw [decoded] at fits ⊢
  dsimp only at fits ⊢
  unfold handle
  rcases kind with create | ⟨positive, write | ⟨read, small⟩ | stat | chmod | chown⟩
  · rw [create]
    exact create_answers holds super create data
  · rw [write]
    exact write_answers holds super positive write data fits
  · rw [read]
    exact read_answers holds super positive read small data
  · rw [stat]
    exact stat_answers holds super positive stat data
  · rw [chmod]
    exact chmod_answers holds super positive chmod data
  · rw [chown]
    exact chown_answers holds super positive chown data

/-- All requests, one after the other. -/
theorem serveAll_answers {requests : List (Pid × List UInt8)} (holds : Holds cache s files)
    (ordinary : ∀ request ∈ requests, Ordinary s.uid request)
    (fits : ∀ taken, taken <+: requests → ∀ ino file, (files.answers taken).2 ino = some file →
    file.bytes.length < 2 ^ 31) :
    ∃ last after, (serveAll cache requests).run InodeStore.serve s = .done last after ∧
      after.sent = s.sent ++ (files.answers requests).1 ∧
      Holds last after (files.answers requests).2 := by
  induction requests generalizing cache s files with
  | nil => exact ⟨cache, s, rfl, (List.append_nil _).symm, holds⟩
  | cons request rest ih =>
    obtain ⟨next, middle, ran, sent, uid, held⟩ := receive_answers holds (ordinary request List.mem_cons_self)
      (fits [request] ⟨rest, rfl⟩)
    obtain ⟨last, after, ends, replies, final⟩ :=
      ih held (fun other member => uid ▸ ordinary other (List.mem_cons_of_mem _ member))
      fun taken le => fits (request :: taken) (List.cons_prefix_cons.mpr ⟨rfl, le⟩)
    refine ⟨last, after, ?_, ?_, final⟩
    · unfold serveAll at ends ⊢
      rw [List.foldlM_cons, Effect.run_bind, Prog.bind_done ran]
      exact ends
    · rw [replies, sent, List.append_assoc]
      rfl

end Handlers

/-- On a new disk there are no files. -/
theorem start_run (uid : Pid → Option Uid) :
    ∃ after, start.run InodeStore.serve (.empty uid) = .done .new after ∧ after.uid = uid ∧ after.sent = [] ∧
    Holds .new after fun _ => none := by
  obtain ⟨after, flushed, kept⟩ := flushStatCache_run .new (.empty uid)
  have missing : loadStatCache.run InodeStore.serve (.empty uid) = .done none (.empty uid) := by
    unfold loadStatCache call
    rw [Effect.run_bind, Effect.run_perform]
    rfl
  refine ⟨after, ?_, kept.uid, kept.sent, rfl, fun ino some _ => ?_, nofun⟩
  · unfold start
    rw [Effect.run_bind, Prog.bind_done missing]
    dsimp only
    rw [Effect.run_bind, Prog.bind_done flushed]
    rfl
  · have entry : Cache.new ino = FileStat.zero := Function.update_of_ne some _ _
    have blocks := kept.blocks _ (Holds.inode_ne some)
    rw [entry]
    exact ⟨rfl, rfl, Stores.congr ⟨fun i => rfl, fun other => absurd rfl other⟩ blocks⟩

theorem session_answers {uid : Pid → Option Uid} {requests : List (Pid × List UInt8)}
    (ordinary : ∀ request ∈ requests, Ordinary uid request)
    (fits : ∀ taken, taken <+: requests → ∀ ino file, (ByteFiles.answers (fun _ => none) taken).2 ino = some file →
    file.bytes.length < 2 ^ 31) :
    ∃ cache s, session uid requests = .done cache s ∧ s.sent = (ByteFiles.answers (fun _ => none) requests).1 ∧
      Holds cache s (ByteFiles.answers (fun _ => none) requests).2 := by
  obtain ⟨first, started, same, none, holds⟩ := start_run uid
  obtain ⟨cache, s, ran, sent, held⟩ := serveAll_answers holds (same ▸ ordinary) fits
  rw [none, List.nil_append] at sent
  refine ⟨cache, s, ?_, sent, held⟩
  unfold session
  rw [Effect.run_bind, Prog.bind_done started]
  exact ran

/-- As long as all files stay below 2 GiB, the replies to requests of the superuser are those of byte strings, which
are what the inodes hold. -/
theorem files_are_strings {uid : Pid → Option Uid} {requests : List (Pid × List UInt8)}
    (ordinary : ∀ request ∈ requests, Ordinary uid request)
    (fits : ∀ taken, taken <+: requests → ∀ ino file, (ByteFiles.answers (fun _ => none) taken).2 ino = some file →
    file.bytes.length < 2 ^ 31) :
    ∃ cache s, session uid requests = .done cache s ∧ s.sent = (ByteFiles.answers (fun _ => none) requests).1 ∧
      ∀ ino file, (ByteFiles.answers (fun _ => none) requests).2 ino = some file →
          ∀ i, s.byte (UInt32.ofNat ino) i = file.bytes.getD i 0 := by
  obtain ⟨cache, s, ran, sent, holds⟩ := session_answers ordinary fits
  exact ⟨cache, s, ran, sent, fun ino file used => (holds.used ino file used).2.2.byte⟩

def message (code : UInt32) (req : FileRequest) (data : List UInt8) : List UInt8 :=
  bytesOf code ++ bytesOf req.ino ++ bytesOf64 req.offset ++ bytesOf req.size ++ bytesOf req.uid ++
    bytesOf req.mode ++ bytesOf 0 ++ data

theorem long_joined (value : UInt64) : value.toUInt32.toUInt64 ||| (value >>> 32).toUInt32.toUInt64 <<< 32 = value := by
  apply UInt64.eq_of_toBitVec_eq
  simp only [UInt64.toBitVec_or, UInt64.toBitVec_shiftLeft, UInt32.toBitVec_toUInt64, UInt64.toBitVec_toUInt32,
    UInt64.toBitVec_shiftRight]
  apply BitVec.eq_of_getLsbD_eq
  intro i inside
  simp only [show UInt64.toBitVec 32 % 64 =
    32#64 by decide, BitVec.getLsbD_or, BitVec.getLsbD_setWidth, BitVec.shiftLeft_eq',
    BitVec.ushiftRight_eq', BitVec.getLsbD_shiftLeft, BitVec.getLsbD_ushiftRight, BitVec.toNat_ofNat]
  rcases Nat.lt_or_ge i 32 with low | high
  · grind
  · grind

/-- The server finds in its buffer what the client sent, up to a page of data. -/
theorem decode_message {code : UInt32} {req : FileRequest} (kind : FileOp.ofCode code = req.type) (data : List UInt8) :
    FileRequest.decode (message code req data) = some (req, data.take PAGESIZE) := by
  have header : ∀ rest : List UInt8, (message code req rest) = (message code req []) ++ rest := fun rest => by
    unfold message
    rw [List.append_nil]
  have long : (message code req []).length = requestSize := rfl
  have received : (message code req data).take (requestSize + PAGESIZE) = message code req (data.take PAGESIZE) := by
    rw [header data, header (data.take PAGESIZE), List.take_append,
      List.take_of_length_le (by rw [long]; exact Nat.le_add_right ..), long,
      Nat.add_sub_cancel_left]
  have enough : ¬ (message code req (data.take PAGESIZE)).length < requestSize := by
    rw [header, List.length_append, long]
    exact Nat.not_lt.mpr (Nat.le_add_right ..)
  have rest : (message code req (data.take PAGESIZE)).drop requestSize = data.take PAGESIZE := by
    rw [header, ← long, List.drop_left]
  unfold FileRequest.decode
  dsimp only
  rw [received, if_neg enough, rest]
  generalize data.take PAGESIZE = tail
  have word : ∀ (front : List UInt8) (w : UInt32) (back : List UInt8),
    message code req tail = front ++ (bytesOf w ++ back) →
      wordAt (message code req tail) front.length = w := fun front w back shape => shape ▸ wordAt_bytesOf front w back
  have type : wordAt (message code req tail) 0 = code := word [] code
    (bytesOf req.ino ++ (bytesOf64 req.offset ++
      (bytesOf req.size ++ (bytesOf req.uid ++ (bytesOf req.mode ++ (bytesOf 0 ++ tail))))))
    (by simp only [message, List.append_assoc, List.nil_append])
  have ino : wordAt (message code req tail) 4 = req.ino := word (bytesOf code) req.ino
    (bytesOf64 req.offset ++ (bytesOf req.size ++ (bytesOf req.uid ++ (bytesOf req.mode ++ (bytesOf 0 ++ tail)))))
    (by simp only [message, List.append_assoc])
  have low : wordAt (message code req tail) 8 = req.offset.toUInt32 :=
    word (bytesOf code ++ bytesOf req.ino) req.offset.toUInt32
    (bytesOf (req.offset >>> 32).toUInt32 ++
      (bytesOf req.size ++ (bytesOf req.uid ++ (bytesOf req.mode ++ (bytesOf 0 ++ tail)))))
    (by simp only [message, bytesOf64, List.append_assoc])
  have high : wordAt (message code req tail) 12 = (req.offset >>> 32).toUInt32 :=
    word (bytesOf code ++ (bytesOf req.ino ++ bytesOf req.offset.toUInt32)) (req.offset >>> 32).toUInt32
      (bytesOf req.size ++ (bytesOf req.uid ++ (bytesOf req.mode ++ (bytesOf 0 ++ tail))))
        (by simp only [message, bytesOf64, List.append_assoc])
  have size : wordAt (message code req tail) 16 = req.size :=
    word (bytesOf code ++ (bytesOf req.ino ++ bytesOf64 req.offset)) req.size
    (bytesOf req.uid ++ (bytesOf req.mode ++ (bytesOf 0 ++ tail))) (by simp only [message, List.append_assoc])
  have uid : wordAt (message code req tail) 20 = req.uid :=
    word (bytesOf code ++ (bytesOf req.ino ++ (bytesOf64 req.offset ++ bytesOf req.size))) req.uid
      (bytesOf req.mode ++ (bytesOf 0 ++ tail)) (by simp only [message, List.append_assoc])
  have mode : wordAt (message code req tail) 24 = req.mode :=
    word (bytesOf code ++ (bytesOf req.ino ++ (bytesOf64 req.offset ++ (bytesOf req.size ++ bytesOf req.uid)))) req.mode
      (bytesOf 0 ++ tail) (by simp only [message, List.append_assoc])
  have offset : longAt (message code req tail) 8 = req.offset := by
    unfold longAt
    rw [low, high]
    exact long_joined req.offset
  rw [type, ino, offset, size, uid, mode, kind]

def gapRequests : List (Pid × List UInt8) :=
  [(7, message 1 { type := .create, ino := 0, offset := 0, size := 0, uid := 0, mode := 15 } []),
    (7, message 5 { type := .write, ino := 1, offset := 3, size := 5, uid := 0, mode := 0 } [1, 2, 3, 4, 5]),
    (7, message 4 { type := .read, ino := 1, offset := 2, size := 100, uid := 0, mode := 0 } [])]

private theorem small_of_counts (requests : List (Pid × List UInt8))
    (small : ∀ count, count ≤ requests.length → ∀ ino,
      ((ByteFiles.answers (fun _ => none) (requests.take count)).2 ino).all fun file => file.bytes.length < 2 ^ 31) :
    ∀ taken, taken <+: requests → ∀ ino file, (ByteFiles.answers (fun _ => none) taken).2 ino = some file →
        file.bytes.length < 2 ^ 31 := by
  intro taken le ino file used
  have all := small taken.length le.length_le ino
  rw [← List.prefix_iff_eq_take.mp le, used] at all
  exact of_decide_eq_true all

theorem files_are_strings_gap : ∃ cache s, session (fun _ => some 0) gapRequests = .done cache s ∧
    s.sent = (ByteFiles.answers (fun _ => none) gapRequests).1 ∧
    ∀ ino file, (ByteFiles.answers (fun _ => none) gapRequests).2 ino = some file →
        ∀ i, s.byte (UInt32.ofNat ino) i = file.bytes.getD i 0 := by
  refine files_are_strings (fun request member => ?_) (small_of_counts _ (by decide +kernel))
  rcases List.mem_cons.mp member with rfl | later
  · exact ⟨rfl, _, _, decode_message rfl [], .inl rfl⟩
  rcases List.mem_cons.mp later with rfl | last
  · exact ⟨rfl, _, _, decode_message rfl _, .inr ⟨by decide, .inl rfl⟩⟩
  · rw [List.mem_singleton.mp last]
    exact ⟨rfl, _, _, decode_message rfl [], .inr ⟨by decide, .inr (.inl ⟨rfl, by decide⟩)⟩⟩

/-- A new file, and a write of one byte more than a page. -/
def pageRequests : List (Pid × List UInt8) :=
  [(7, message 1 { type := .create, ino := 0, offset := 0, size := 0, uid := 0, mode := 15 } []),
    (7, message 5 { type := .write, ino := 1, offset := 0, size := 4097, uid := 0, mode := 0 } (List.replicate 4097 1))]

/-- A read of more bytes than the server can free the room for, and another file. -/
def hugeRequests : List (Pid × List UInt8) :=
  [(7, message 1 { type := .create, ino := 0, offset := 0, size := 0, uid := 0, mode := 15 } []),
    (7, message 4 { type := .read, ino := 1, offset := 0, size := 0xFFFFFFFF, uid := 0, mode := 0 } []),
    (7, message 1 { type := .create, ino := 0, offset := 0, size := 0, uid := 0, mode := 15 } [])]

private def overruns : Outcome InodeStore Halt Cache → Bool
  | .halted reason _ => reason = .overflow
  | .done .. => false

private theorem overruns_eq {outcome : Outcome InodeStore Halt Cache} (stopped : overruns outcome = true) :
    outcome = .halted .overflow outcome.state := by
  cases outcome with
  | done => cases stopped
  | halted reason s =>
    rw [of_decide_eq_true stopped]
    rfl

/-- The write is refused. After the read there are no replies any more. -/
theorem long_write_refused : (∃ cache s, session (fun _ => some 0) pageRequests = .done cache s ∧
      s.sent = [(7, { FileReply.cleared .ok with ino := 1 }), (7, .cleared .error)]) ∧
    ∃ s, session (fun _ => some 0) hugeRequests = .halted .overflow s ∧
      s.sent = [(7, { FileReply.cleared .ok with ino := 1 }), (7, readReply 0 [])] := by
  have ordinary : ∀ request ∈ pageRequests, Ordinary (fun _ => some 0) request := by
    intro request member
    rcases List.mem_cons.mp member with rfl | later
    · exact ⟨rfl, _, _, decode_message rfl [], .inl rfl⟩
    · rw [List.mem_singleton.mp later]
      exact ⟨rfl, _, _, decode_message rfl _, .inr ⟨by decide, .inl rfl⟩⟩
  constructor
  · obtain ⟨cache, s, ran, sent, _⟩ := session_answers ordinary (small_of_counts _ (by decide +kernel))
    refine ⟨cache, s, ran, sent.trans ?_⟩
    decide +kernel
  · have stopped : overruns (session (fun _ => some 0) hugeRequests) = true := by decide +kernel
    exact ⟨_, overruns_eq stopped, by decide +kernel⟩

end Egos.Blkfile
