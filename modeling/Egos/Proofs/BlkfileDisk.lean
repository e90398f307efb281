import Egos.Proofs.BlkfileStrings
import Egos.Proofs.BlockFiles

/-! The block file server on top of the other servers, down to the disk. -/

namespace Egos.BlockStack
open Library BlockClient
open Files (DataBlock FileRequest FileStat FileReply InodeStore ByteFiles Ordinary findUid allowed respond freeReply)
open Disk (BLOCK_SIZE)
open Grass (Pid Uid)

/-! What the file server asks for. -/

/-- Blocks are read and written, and the number of blocks stays an `unsigned int`. -/
def Extends : Files.Call → Prop
  | .blockWrite _ offset _ => offset.toNat + 1 < 2 ^ 32
  | .blockSetsize .. | .garbage _ => False
  | _ => True

abbrev Asks {α : Type} (program : Files.Server α) : Prop := program.Uses Extends fun _ => True

/-- A write does not reach beyond 2 GiB. -/
def Small (request : Pid × List UInt8) : Prop :=
  ∀ req data, FileRequest.decode request.2 = some (req, data) → req.type = .write →
    req.offset.toNat + data.length < 2 ^ 31

theorem findUid_asks (src : Pid) : Asks (findUid src) := ⟨trivial, fun uid => by cases uid <;> trivial⟩

theorem allowed_asks (owner other : UInt32) (stat : Option FileStat) (src : Pid) :
    Asks (allowed owner other stat src) := by
  refine Effect.uses_bind (findUid_asks src) fun uid => Effect.uses_ite trivial ?_
  cases stat <;> trivial

theorem send_asks (dst : Pid) (reply : FileReply) : Asks (Files.call (.send dst reply)) := ⟨trivial, fun _ => trivial⟩

section Handlers
open Blkfile
variable {cache : Cache} {req : FileRequest} {src : Pid} {ino : UInt32}

theorem refuse_asks : Asks (refuse cache src) := Effect.uses_bind (send_asks ..) fun _ => trivial

theorem readBlocks_asks (rest i : Nat) (offset : UInt32) (addr : Buffer) :
    Asks (readBlocks ino rest i offset addr) := by
  induction rest generalizing i offset addr with
  | zero => trivial
  | succ rest ih =>
    refine ⟨trivial, fun block => ?_⟩
    cases block with
    | none => trivial
    | some block => exact Effect.uses_ite trivial (ih ..)

theorem writeBlocks_asks {rest : Nat} {offset : UInt32} (small : offset.toNat + rest < 2 ^ 32) (i : Nat)
    (addr : Buffer) :
    Asks (writeBlocks ino rest i offset addr) := by
  induction rest generalizing i offset with
  | zero => trivial
  | succ rest ih =>
    refine Effect.uses_ite trivial ⟨show offset.toNat + 1 < 2 ^ 32 by omega, fun success => ?_⟩
    cases success with
    | false => trivial
    | true =>
      refine ih ?_ _
      rw [UInt32.toNat_add, UInt32.toNat_one, Nat.mod_eq_of_lt (by omega)]
      omega

theorem flushStatCache_asks (cache : Cache) : Asks (flushStatCache cache) :=
  Effect.uses_bind (writeBlocks_asks (by decide) ..) fun _ => trivial

theorem start_asks : Asks start := by
  refine Effect.uses_bind ⟨trivial, fun size => Effect.uses_ite trivial ?_⟩ fun loaded => ?_
  · exact Effect.uses_bind (readBlocks_asks ..) fun _ => trivial
  · cases loaded with
    | some cache => trivial
    | none => exact Effect.uses_bind (flushStatCache_asks _) fun _ => trivial

theorem doCreate_asks : Asks (doCreate cache req src) := by
  unfold doCreate
  cases cache.unallocated with
  | none => exact refuse_asks
  | some ino =>
    exact Effect.uses_bind (findUid_asks src) fun uid => Effect.uses_bind (flushStatCache_asks _)
      fun _ => Effect.uses_bind (send_asks ..) fun _ => trivial

/-- An entry is changed. -/
theorem entry_asks (next : Cache) : Asks (do flushStatCache next; Files.call (.send src (.cleared .ok)); pure next) :=
  Effect.uses_bind (flushStatCache_asks _) fun _ => Effect.uses_bind (send_asks ..) fun _ => trivial

theorem doChown_asks : Asks (doChown cache req src) := by
  unfold doChown
  cases cache.allocated req.ino with
  | none => exact refuse_asks
  | some stat => exact Effect.uses_bind (findUid_asks src) fun uid => Effect.uses_ite refuse_asks (entry_asks _)

theorem doChmod_asks : Asks (doChmod cache req src) := by
  unfold doChmod
  cases cache.allocated req.ino with
  | none => exact refuse_asks
  | some stat => exact Effect.uses_bind (findUid_asks src) fun uid => Effect.uses_ite refuse_asks (entry_asks _)

theorem freeReply_asks (ext : UInt32) : Asks (freeReply ext) := Effect.uses_ite trivial trivial

theorem freed_asks : Asks (freeReply req.size >>= fun _ => refuse cache src) :=
  Effect.uses_bind (freeReply_asks _) fun _ => refuse_asks

theorem replied_asks (reply : FileReply) :
    Asks (Files.call (.send src reply) >>= fun _ => freeReply req.size >>= fun _ => pure cache) :=
  Effect.uses_bind (send_asks ..) fun _ => Effect.uses_bind (freeReply_asks _) fun _ => trivial

theorem readContents_asks (stat : FileStat) : Asks (readContents cache req stat src) := by
  refine Effect.uses_bind ?_ fun result => ?_
  · exact Effect.uses_bind (readBlocks_asks ..) fun _ => trivial
  · cases result with
    | none => exact freed_asks
    | some result => exact Effect.uses_ite freed_asks (Effect.uses_ite trivial (replied_asks _))

theorem doRead_asks : Asks (doRead cache req src) := by
  unfold doRead
  cases cache.allocated req.ino with
  | none => exact refuse_asks
  | some stat =>
    refine Effect.uses_bind (allowed_asks ..) fun granted => ?_
    cases granted with
    | false => exact refuse_asks
    | true => exact Effect.uses_ite (readContents_asks stat) (replied_asks _)

theorem doStat_asks : Asks (doStat cache req src) := by
  unfold doStat
  cases cache.allocated req.ino with
  | none => exact refuse_asks
  | some stat =>
    refine Effect.uses_bind (allowed_asks ..) fun granted => ?_
    cases granted with
    | false => exact refuse_asks
    | true => exact Effect.uses_bind (send_asks ..) fun _ => trivial

/-- The blocks that a write reaches. -/
theorem extent_small {offset : UInt64} {size : UInt32} (small : offset.toNat + size.toNat < 2 ^ 31)
    (fileSize : UInt64) :
    (extent fileSize offset size).startBlock.toUInt32.toNat +
      ((extent fileSize offset size).endBlock - (extent fileSize offset size).startBlock + 1).toUInt32.toNat <
          2 ^ 32 := by
  have block : (UInt64.ofNat BLOCK_SIZE).toNat = 1024 := rfl
  have first : (extent fileSize offset size).startBlock.toNat = offset.toNat / 1024 := by
    unfold extent
    dsimp only
    split_ifs <;> rw [UInt64.toNat_div, block]
  have finish : (offset + size.toUInt64).toNat = offset.toNat + size.toNat := by
    rw [UInt64.toNat_add, UInt32.toNat_toUInt64, Nat.mod_eq_of_lt (by omega)]
  have last : (extent fileSize offset size).endBlock.toNat = (offset.toNat + size.toNat) / 1024 := by
    unfold extent
    dsimp only
    split_ifs <;> rw [UInt64.toNat_div, block, finish]
  rw [UInt64.toNat_toUInt32, UInt64.toNat_toUInt32, UInt64.toNat_add, UInt64.toNat_sub_of_le _ _ (by
    rw [UInt64.le_iff_toNat_le, first, last]
    omega), first, last, UInt64.toNat_one]
  omega

theorem put_asks {stat : FileStat} {offset : UInt64} {data : List UInt8} {size : UInt32}
    (small : offset.toNat + size.toNat < 2 ^ 31) :
    Asks (put cache ino stat offset data size) := by
  refine Effect.uses_bind (Effect.uses_ite trivial ?_) fun contents => ?_
  · exact Effect.uses_bind (Effect.uses_bind (readBlocks_asks ..) fun _ => trivial) fun _ => trivial
  · cases contents with
    | none => trivial
    | some contents =>
      refine Effect.uses_ite trivial (Effect.uses_bind (writeBlocks_asks (extent_small small _) ..) fun success => ?_)
      cases success with
      | false => trivial
      | true => exact Effect.uses_bind (flushStatCache_asks _) fun _ => trivial

theorem doWrite_asks {data : List UInt8} (small : req.offset.toNat + data.length < 2 ^ 31) :
    Asks (doWrite cache req data src) := by
  unfold doWrite
  cases cache.allocated req.ino with
  | none => exact refuse_asks
  | some stat =>
    dsimp only
    by_cases size : req.size.toNat = data.length
    · rw [if_neg (not_not.mpr size)]
      refine Effect.uses_bind (allowed_asks ..) fun granted => ?_
      cases granted with
      | false => exact refuse_asks
      | true =>
        refine Effect.uses_bind (put_asks (size ▸ small)) fun stored => ?_
        cases stored with
        | none => exact refuse_asks
        | some next => exact Effect.uses_bind (send_asks ..) fun _ => trivial
    · rw [if_pos size]
      exact refuse_asks

theorem serve_asks {uid : Pid → Option Uid} {request : Pid × List UInt8} (ordinary : Ordinary uid request)
    (small : Small request) (cache : Cache) :
    Asks (serve cache request.2 request.1) := by
  obtain ⟨_, req, data, decoded, kind⟩ := ordinary
  unfold serve
  rw [decoded]
  dsimp only
  unfold handle
  rcases kind with create | ⟨_, write | ⟨read, _⟩ | stat | chmod | chown⟩
  · rw [create]
    exact doCreate_asks
  · rw [write]
    exact doWrite_asks (small req data decoded write)
  · rw [read]
    exact doRead_asks
  · rw [stat]
    exact doStat_asks
  · rw [chmod]
    exact doChmod_asks
  · rw [chown]
    exact doChown_asks

end Handlers

theorem server_asks {uid : Pid → Option Uid} {requests : List (Pid × List UInt8)}
    (ordinary : ∀ request ∈ requests, Ordinary uid request)
    (small : ∀ request ∈ requests, Small request) :
    Asks (Blkfile.start >>= fun cache => Blkfile.serveAll cache requests) :=
  Effect.uses_bind start_asks fun cache => Effect.uses_foldlM
    (fun cache request member => serve_asks (ordinary request member) (small request member) cache) cache

theorem fileCalls_uses {uid : Pid → Option Uid} (c : Files.Call) (extends_ : Extends c)
    (sent : List (Pid × FileReply)) :
    (fileCalls uid c sent).Uses Lengthens fun _ => True := by
  cases c with
  | find pid => trivial
  | send dst reply => trivial
  | blockRead ino offset => exact ⟨trivial, fun _ => trivial⟩
  | blockWrite ino offset block => exact ⟨extends_, fun _ => trivial⟩
  | blockGetsize ino => exact ⟨trivial, fun _ => trivial⟩
  | blockSetsize ino size => exact extends_.elim
  | garbage count => exact extends_.elim

/-! The store that the files are kept in. -/

/-- The store has no limits, and it has the process table and the replies. -/
abbrev unlimited : Service Files.Call.Reply Stop InodeStore := fun c => (InodeStore.serve c).renameHalts .server

structure Holding (uid : Pid → Option Uid) (s : List (Pid × FileReply) × Inodes) (t : InodeStore) : Prop where
  uid : t.uid = uid
  sent : t.sent = s.1
  blocks : t.blocks = s.2

abbrev Over (t : InodeStore) : Prop := CAPACITY < Inodes.taken t.blocks

theorem fileCalls_simulates (uid : Pid → Option Uid) :
    SimulatesUntil Extends (Holding uid) diskFull Over ((fileCalls uid).over inodeArrays) unlimited where
  step := by
    rintro c extends_ ⟨sent, inodes⟩ ⟨blocks, table, replies⟩ ⟨uid, rfl, rfl⟩
    cases c with
    | find pid => exact .inl ⟨by rw [← uid], uid, rfl, rfl⟩
    | send dst reply => exact .inl ⟨rfl, uid, rfl, rfl⟩
    | blockRead ino offset => exact .inl ⟨rfl, uid, rfl, rfl⟩
    | blockGetsize ino => exact .inl ⟨rfl, uid, rfl, rfl⟩
    | blockSetsize ino size => exact extends_.elim
    | garbage count => exact extends_.elim
    | blockWrite ino offset block =>
      by_cases known : ino.toNat < Blkfile.MAX_INODES
      · have right : unlimited (.blockWrite ino offset block) ⟨blocks, table, replies⟩ =
            .done true ⟨Inodes.write blocks ino offset block, table, replies⟩ := by
          unfold unlimited InodeStore.serve Prog.renameHalts
          simp only [if_pos known]
          rfl
        rw [right]
        by_cases room : (Inodes.write blocks ino offset block).taken ≤ CAPACITY
        · rw [Layer.over_done (Prog.bind_done (inodeArrays_write known room))]
          exact .inl ⟨rfl, uid, rfl, rfl⟩
        · refine .inr ⟨⟨_, Layer.over_halted (Prog.bind_halted (inodeArrays_full known room))⟩,
            fun reply last ran => ?_⟩
          cases ran
          exact Nat.lt_of_not_le room
      · have right : unlimited (.blockWrite ino offset block) ⟨blocks, table, replies⟩ =
            .done false ⟨blocks, table, replies⟩ := by
          unfold unlimited InodeStore.serve Prog.renameHalts
          simp only [if_neg known]
        rw [Layer.over_done (Prog.bind_done (inodeArrays_unknown known)), right]
        exact .inl ⟨rfl, uid, rfl, rfl⟩
  stays := by
    rintro c extends_ ⟨blocks, table, replies⟩ reply last big ran
    cases c with
    | find pid | send dst reply | blockRead ino offset | blockGetsize ino =>
      cases ran
      exact big
    | blockSetsize ino size => exact extends_.elim
    | garbage count => exact extends_.elim
    | blockWrite ino offset block =>
      unfold unlimited InodeStore.serve Prog.renameHalts at ran
      by_cases known : ino.toNat < Blkfile.MAX_INODES
      · simp only [if_pos known] at ran
        cases ran
        have more := @Inodes.taken_write blocks _ known offset block
        change CAPACITY < (Inodes.write blocks ino offset block).taken
        change CAPACITY < Inodes.taken blocks at big
        omega
      · simp only [if_neg known] at ran
        cases ran
        exact big

/-! Files stay below 2 GiB. -/

abbrev Short (files : ByteFiles) : Prop := ∀ ino file, files ino = some file → file.bytes.length < 2 ^ 31

theorem Short.update {files : ByteFiles} (short : Short files) {file : Files.ByteFile}
    (few : file.bytes.length < 2 ^ 31) (ino : Fin Blkfile.MAX_INODES) :
    Short (Function.update files ino (some file)) := by
  intro other held used
  by_cases here : other = ino
  · subst here
    rw [Function.update_self] at used
    cases used
    exact few
  · rw [Function.update_of_ne here] at used
    exact short other held used

theorem Short.put {files : ByteFiles} (short : Short files) {file : Files.ByteFile}
    (few : file.bytes.length < 2 ^ 31) (ino : UInt32) :
    Short (files.put ino file) := by
  unfold ByteFiles.put
  split_ifs with inside
  · exact short.update few _
  · exact short

theorem Short.file {files : ByteFiles} (short : Short files) {ino : UInt32} {file : Files.ByteFile}
    (used : files.file ino = some file) :
    file.bytes.length < 2 ^ 31 := by
  unfold ByteFiles.file at used
  split_ifs at used with inside
  exact short _ file used

theorem Short.receive {files : ByteFiles} (short : Short files) {request : Pid × List UInt8} (small : Small request) :
    Short (files.receive request).2 := by
  unfold ByteFiles.receive
  cases decoded : FileRequest.decode request.2 with
  | none => exact short
  | some found =>
    obtain ⟨req, data⟩ := found
    dsimp only
    unfold ByteFiles.answer
    cases type : req.type with
    | create =>
      dsimp only
      cases files.unused with
      | none => exact short
      | some ino =>
        refine short.update ?_ ino
        exact Nat.two_pow_pos 31
    | write =>
      dsimp only
      cases used : files.file req.ino with
      | none => exact short
      | some file =>
        dsimp only
        split_ifs
        · exact short
        · refine short.put ?_ req.ino
          rw [Files.writeAt_length]
          exact max_lt (short.file used) (small req data decoded type)
    | chmod | chown =>
      dsimp only
      cases used : files.file req.ino with
      | none => exact short
      | some file =>
        have few := short.file used
        refine short.put ?_ req.ino
        exact few
    | read | stat =>
      dsimp only
      cases files.file req.ino with
      | none => exact short
      | some file => exact short
    | setsize | delete | setFlags | unknown => exact short

theorem Short.answers {requests : List (Pid × List UInt8)} {files : ByteFiles} (short : Short files)
    (small : ∀ request ∈ requests, Small request) :
    Short (files.answers requests).2 := by
  induction requests generalizing files with
  | nil => exact short
  | cons request rest ih =>
    exact ih (short.receive (small request List.mem_cons_self)) fun other member =>
      small other (List.mem_cons_of_mem _ member)

/-! The server. -/

section Disk
variable {β : Type} {uid : Pid → Option Uid} {requests : List (Pid × List UInt8)} {phys virt src : Pid}
  {memory : Fin NCACHE_BLOCKS.toNat → Disk.Block} {paging : Pid → Effect BlockCall.Reply Stop β}
    {file : List UInt8} {turns : List Client}
  {after : Stack (List (Pid × FileReply)) β}

/-- What is replied in a store without limits is replied here too, unless the store becomes too large. -/
theorem replies_kept {α : Type} {program : Effect Files.Call.Reply Stop α}
    (asks : program.Uses Extends fun _ => True) {value : α} {s : InodeStore}
    (alone : program.run unlimited (.empty uid) = .done value s) :
    (∃ last, (program.through (fileCalls uid) [] >>= fun served => pure served.2).run inodeArrays
      (fun _ => []) = .done s.sent last) ∨
      (∃ last, (program.through (fileCalls uid) [] >>= fun served => pure served.2).run inodeArrays
          (fun _ => []) = .halted diskFull last) ∧ Over s := by
  have alike := (fileCalls_simulates uid).run asks (s := ([], fun _ => [])) (t := .empty uid) ⟨rfl, rfl, rfl⟩
  rw [alone] at alike
  rw [Effect.run_bind]
  rcases alike with same | ⟨⟨_, full⟩, past⟩
  · obtain ⟨⟨replies, inodes⟩, finished, holding⟩ := same.done_of
    rw [Prog.bind_done (Effect.through_done finished), holding.sent]
    exact .inl ⟨inodes, rfl⟩
  · obtain ⟨last, halted⟩ := Effect.through_halted full
    exact .inr ⟨⟨last, Prog.bind_halted halted⟩, past _ _ rfl⟩

/-- The server replies what the byte strings give, or the disk is full, and then the files would not have fitted. -/
theorem fileServer_run (ordinary : ∀ request ∈ requests, Ordinary uid request)
    (small : ∀ request ∈ requests, Small request) :
    (∃ last, (fileServer uid requests).run inodeArrays
      (fun _ => []) = .done (ByteFiles.answers (fun _ => none) requests).1 last) ∨
      (∃ last, (fileServer uid requests).run inodeArrays (fun _ => []) = .halted diskFull last) ∧
        ∀ cache s, Blkfile.session uid requests = .done cache s → CAPACITY < Inodes.taken s.blocks := by
  let server := Blkfile.start >>= fun cache => Blkfile.serveAll cache requests
  obtain ⟨cache, s, ran, sent, _⟩ := Blkfile.session_answers ordinary fun taken le =>
    Short.answers (by rintro ino file ⟨⟩) fun request member => small request (le.subset member)
  have alone : (server.renameHalts Stop.server).run unlimited (.empty uid) = .done cache s := by
    rw [Effect.renameHalts_run]
    unfold Prog.renameHalts
    rw [show server.run InodeStore.serve (.empty uid) = .done cache s from ran]
  rw [← sent]
  refine (replies_kept (Effect.renameHalts_uses (server_asks ordinary small)) alone).imp_right
    fun ⟨full, past⟩ => ⟨full, fun other t finished => ?_⟩
  cases ran.symm.trans finished
  exact past

/-- The file server on a blank disk that is used for paging too. Its replies to requests of the
superuser are those of byte strings, unless the disk becomes full. -/
theorem files_on_disk (zeros : ∀ byte ∈ file, byte = 0) (ordinary : ∀ request ∈ requests, Ordinary uid request)
    (small : ∀ request ∈ requests, Small request) (pages : ∀ process, (paging process).Uses (Own .page) fun _ => True)
    (run : Run (Turn phys virt) (started src memory (fileServer uid requests) paging file) turns after) :
    (∀ replies, after.program .files = .pure replies → replies = (ByteFiles.answers (fun _ => none) requests).1) ∧
    (∀ reason, after.program .files = .halt reason → reason = diskFull ∧
      ∀ cache s, Blkfile.session uid requests = .done cache s → CAPACITY < Inodes.taken s.blocks) ∧
    ∃ more final, Run (Turn phys virt) after more final ∧ (final.program .files).Ended := by
  have lengthens : (fileServer uid requests).Uses Lengthens fun _ => True :=
    Effect.uses_bind (Effect.through_uses (Effect.renameHalts_uses (server_asks ordinary small)) fileCalls_uses)
      fun _ => trivial
  obtain ⟨behaves, parts, still, alike⟩ := files_left pages run
  obtain ⟨values, reasons, ends⟩ := ends_like phys virt behaves still
    (alike.trans (files_alike lengthens rfl (found_blank zeros)))
  refine ⟨fun replies left => ?_, fun reason left => ?_, ends⟩
  · obtain ⟨_, ran⟩ := values replies left
    rcases fileServer_run ordinary small with ⟨_, answers⟩ | ⟨⟨_, full⟩, _⟩
    · cases ran.symm.trans answers
      rfl
    · cases ran.symm.trans full
  · obtain ⟨_, ran⟩ := reasons reason left
    rcases fileServer_run ordinary small with ⟨_, answers⟩ | ⟨⟨_, full⟩, past⟩
    · cases ran.symm.trans answers
    · cases ran.symm.trans full
      exact ⟨rfl, past⟩

/-- Six bytes are read, the first one from the gap. -/
theorem files_on_disk_gap : ∃ turns final, Run (Turn 3 4)
    (started 5 (fun _ => Disk.nullBlock) (fileServer (fun _ => some 0) Blkfile.gapRequests)
      (fun _ => call (.read PAGE_PARTITION 0)) []) turns final ∧
      final.program .files = .pure [(7, { FileReply.cleared .ok with ino := 1 }), (7, .cleared .ok),
          (7, Blkfile.readReply 6 [0, 1, 2, 3, 4, 5])] := by
  have pages : ∀ process : Pid, (call (.read PAGE_PARTITION 0) : Effect BlockCall.Reply Stop _).Uses (Own .page)
      fun _ => True :=
    fun _ => ⟨rfl, fun _ => trivial⟩
  have ordinary : ∀ request ∈ Blkfile.gapRequests, Ordinary (fun _ => some 0) request := by
    intro request member
    simp only [Blkfile.gapRequests, List.mem_cons, List.not_mem_nil, or_false] at member
    rcases member with rfl | rfl | rfl
    · exact ⟨rfl, _, _, Blkfile.decode_message rfl [], .inl rfl⟩
    · exact ⟨rfl, _, _, Blkfile.decode_message rfl _, .inr ⟨by decide, .inl rfl⟩⟩
    · exact ⟨rfl, _, _, Blkfile.decode_message rfl [], .inr ⟨by decide, .inr (.inl ⟨rfl, by decide⟩)⟩⟩
  have small : ∀ request ∈ Blkfile.gapRequests, Small request := by
    intro request member req data decoded
    simp only [Blkfile.gapRequests, List.mem_cons, List.not_mem_nil, or_false] at member
    rcases member with rfl | rfl | rfl
    · cases (Blkfile.decode_message rfl []).symm.trans decoded
      intro write
      cases write
    · cases (Blkfile.decode_message rfl _).symm.trans decoded
      intro _
      decide
    · cases (Blkfile.decode_message rfl []).symm.trans decoded
      intro write
      cases write
  obtain ⟨_, _, turns, final, run, ended⟩ :=
    @files_on_disk _ _ _ 3 4 5 (fun _ => Disk.nullBlock) _ [] _ _ (by simp) ordinary small pages .nil
  obtain ⟨values, reasons, _⟩ := files_on_disk (by simp) ordinary small pages run
  have fits : (match Blkfile.session (fun _ => some 0) Blkfile.gapRequests with
      | .done _ s => decide (Inodes.taken s.blocks ≤ CAPACITY)
      | .halted .. => false) = true := by decide +kernel
  have never : ∀ reason, final.program .files ≠ .halt reason := by
    intro reason left
    have past := (reasons reason left).2
    cases ran : Blkfile.session (fun _ => some 0) Blkfile.gapRequests with
    | done cache s =>
      rw [ran] at fits
      exact absurd (of_decide_eq_true fits) (Nat.not_le.mpr (past cache s ran))
    | halted reason s =>
      rw [ran] at fits
      cases fits
  obtain ⟨replies, left⟩ := ended.returned never
  have same : (ByteFiles.answers (fun _ => none) Blkfile.gapRequests).1 =
      [(7, { FileReply.cleared .ok with ino := 1 }), (7, .cleared .ok),
        (7, Blkfile.readReply 6 [0, 1, 2, 3, 4, 5])] := by decide +kernel
  exact ⟨turns, final, run, left.trans (congrArg Effect.pure ((values replies left).trans same))⟩

end Disk
end Egos.BlockStack
