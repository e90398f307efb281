import Egos.Grass.Servers
import Egos.Library.RpcFair
import Egos.Proofs.BlkfileOffsets
import Egos.Proofs.BlkfileStrings

/-! The handlers of the two servers come to an end: no assertion fails, no process is looked
up that does not exist, and no buffer is too small. -/

namespace Egos.Servers
open Library Library.Rpc
open Grass (Pid Uid bytesOf)
open Files (wordAt)

section Files
open Egos.Files Blkfile
open Disk (BLOCK_SIZE)

def fileGives (src : Pid) : (c : Files.Call) → c.Reply → Prop
  | .find pid, found => pid = src → found ≠ none
  | _, _ => True

abbrev FileEnds {α : Type} (src : Pid) (program : Files.Server α) (wanted : α → Prop) : Prop :=
  program.Completes (fun _ => True) (fileGives src) wanted

variable {cache : Cache} {req : FileRequest} {data : List UInt8} {src : Pid} {α : Type}

theorem send_ends (dst : Pid) (reply : FileReply) : FileEnds src (call (.send dst reply)) fun _ => True :=
  ⟨trivial, fun _ _ => trivial⟩

theorem refuse_ends (cache : Cache) : FileEnds src (refuse cache src) fun _ => True := ⟨trivial, fun _ _ => trivial⟩

theorem findUid_ends (src : Pid) : FileEnds src (findUid src) fun _ => True := by
  refine ⟨trivial, fun found given => ?_⟩
  cases found with
  | none => exact given rfl rfl
  | some uid => trivial

theorem allowed_ends (owner other : UInt32) (stat : FileStat) :
    FileEnds src (allowed owner other (some stat) src) fun _ => True :=
  (findUid_ends src).bind fun _ _ => .ite (fun _ => trivial) fun _ => trivial

/-- There is room for the first of the blocks, and for the others after it. -/
theorem block_room {capacity rest i : Nat} (room : (i + (rest + 1)) * BLOCK_SIZE ≤ capacity) :
    (i + 1) * BLOCK_SIZE ≤ capacity ∧ (i + 1 + rest) * BLOCK_SIZE ≤ capacity := by
  rw [Nat.add_comm rest, ← Nat.add_assoc] at room
  exact ⟨Nat.le_trans (Nat.mul_le_mul_right _ (Nat.le_add_right ..)) room, room⟩

theorem readBlocks_ends (ino : UInt32) {rest i : Nat} (offset : UInt32) {addr : Buffer}
    (room : (i + rest) * BLOCK_SIZE ≤ addr.capacity) :
    FileEnds src (readBlocks ino rest i offset addr) fun result => result.2.capacity = addr.capacity := by
  induction rest generalizing i offset addr with
  | zero => rfl
  | succ rest ih =>
    refine ⟨trivial, fun found _ => ?_⟩
    cases found with
    | none => rfl
    | some block =>
      obtain ⟨first, others⟩ := block_room room
      have same : (addr.putBlock i block).capacity = addr.capacity := rfl
      refine .ite (fun small => absurd small (Nat.not_lt.mpr first)) fun _ => same ▸
        ih (offset + 1) (same.symm ▸ others)

theorem multiblockRead_ends (ino offset : UInt32) {addr : Buffer} {nblocks : UInt32}
    (room : nblocks.toNat * BLOCK_SIZE ≤ addr.capacity) :
    FileEnds src (multiblockRead ino offset addr nblocks) fun result => ∀ read, result = some read →
        read.2.capacity = addr.capacity := by
  refine (readBlocks_ends ino offset (by rwa [Nat.zero_add])).bind fun result capacity read same => ?_
  split_ifs at same
  cases same
  exact capacity

theorem writeBlocks_ends (ino : UInt32) {rest i : Nat} (offset : UInt32) {addr : Buffer}
    (room : (i + rest) * BLOCK_SIZE ≤ addr.capacity) :
    FileEnds src (writeBlocks ino rest i offset addr) fun _ => True := by
  induction rest generalizing i offset with
  | zero => trivial
  | succ rest ih =>
    obtain ⟨first, others⟩ := block_room room
    refine .ite (fun small => absurd small (Nat.not_lt.mpr first)) fun _ => ⟨trivial, fun success _ => ?_⟩
    cases success with
    | false => trivial
    | true => exact ih (offset + 1) others

theorem flushStatCache_ends (cache : Cache) : FileEnds src (flushStatCache cache) fun _ => True := by
  have room : (0 + cacheBlocks.toNat) * BLOCK_SIZE ≤ MAX_INODES * statSize := by decide
  exact (writeBlocks_ends 0 0 room).bind fun _ _ => trivial

/-- The table is written, and then the handler replies. -/
theorem finish_ends (cache : Cache) (reply : FileReply) : FileEnds src (do
    flushStatCache cache
    call (.send src reply)
    pure cache) fun _ => True :=
  (flushStatCache_ends cache).bind fun _ _ => (send_ends src reply).bind fun _ _ => trivial

theorem create_ends : FileEnds src (doCreate cache req src) fun _ => True := by
  unfold doCreate
  cases cache.unallocated with
  | none => exact refuse_ends cache
  | some ino => exact (findUid_ends src).bind fun uid _ => finish_ends _ _

theorem respondUnless_ends (success : Bool) : FileEnds src (respondUnless success src) fun _ => True :=
  .ite (fun _ => trivial) fun _ => send_ends ..

theorem delete_ends (entry : req.ino.toNat ≠ MAX_INODES) : FileEnds src (doDelete cache req src) fun _ => True := by
  refine .ite (fun _ => refuse_ends cache) fun below => ?_
  have inside : req.ino.toNat < MAX_INODES := Nat.lt_of_le_of_ne (Nat.not_lt.mp below) entry
  have found : cache.entry req.ino = some (cache ⟨req.ino.toNat, inside⟩) := dif_pos inside
  rw [found]
  refine (allowed_ends ..).bind fun granted _ => ?_
  cases granted with
  | false => exact refuse_ends cache
  | true =>
    refine .ite (fun _ => ?_) fun _ => (send_ends src _).bind fun _ _ => trivial
    refine (flushStatCache_ends _).bind fun _ _ => .call trivial fun success _ => ?_
    exact (respondUnless_ends success).bind fun _ _ => (send_ends src _).bind fun _ _ => trivial

/-- Handlers of an allocated file. -/
theorem file_ends {handler : FileStat → Files.Server Cache}
    (handles : ∀ stat, FileEnds src (handler stat) fun _ => True) :
    FileEnds src (match cache.allocated req.ino with
      | none => refuse cache src
      | some stat => handler stat) fun _ => True := by
  cases cache.allocated req.ino with
  | none => exact refuse_ends cache
  | some stat => exact handles stat

/-- Handlers that look whether the sender may use the file. -/
theorem permitted_ends {check : Files.Server Bool} {handler : Files.Server Cache}
    (checks : FileEnds src check fun _ => True)
    (handles : FileEnds src handler fun _ => True) :
    FileEnds src (do
      match ← check with
      | false => refuse cache src
      | true => handler) fun _ => True := by
  refine checks.bind fun granted _ => ?_
  cases granted with
  | false => exact refuse_ends cache
  | true => exact handles

theorem chown_ends : FileEnds src (doChown cache req src) fun _ => True :=
  file_ends fun _ => (findUid_ends src).bind fun _ _ => .ite (fun _ => refuse_ends cache) fun _ => finish_ends _ _

theorem chmod_ends : FileEnds src (doChmod cache req src) fun _ => True :=
  file_ends fun _ => (findUid_ends src).bind fun _ _ => .ite (fun _ => refuse_ends cache) fun _ => finish_ends _ _

theorem stat_ends : FileEnds src (doStat cache req src) fun _ => True :=
  file_ends fun stat => permitted_ends (allowed_ends _ _ stat) ((send_ends src _).bind fun _ _ => trivial)

theorem setsize_ends : FileEnds src (doSetsize cache req src) fun _ => True := by
  refine file_ends fun stat => .ite (fun _ => refuse_ends cache) fun _ => permitted_ends (allowed_ends _ _ stat) ?_
  refine .call trivial fun success _ => (respondUnless_ends success).bind fun _ _ => ?_
  exact finish_ends _ _

theorem freeReply_ends {ext : UInt32} (size : ext.toNat ≤ 2 ^ 32 - 2048) : FileEnds src (freeReply ext) fun _ => True :=
  .ite (fun _ => trivial) fun large => large (by unfold FileReply.size; omega)

/-- The buffer of a read is large enough. -/
theorem read_fits_buffer {fileSize offset : UInt64} {size : UInt32} (before : offset < fileSize)
    (small : size.toNat ≤ 2 ^ 32 - 2048) :
    (readRows fileSize offset size).toNat * BLOCK_SIZE ≤
      (readRows fileSize offset size * UInt32.ofNat BLOCK_SIZE).toNat ∧
      offset.toNat % BLOCK_SIZE + (readSize fileSize offset size).toNat ≤
          (readRows fileSize offset size * UInt32.ofNat BLOCK_SIZE).toNat := by
  have large := fileSize.toNat_lt
  rw [UInt64.lt_iff_toNat_lt] at before
  have left : (fileSize - offset).toUInt32.toNat ≤ fileSize.toNat - offset.toNat := by
    rw [UInt64.toNat_toUInt32, UInt64.toNat_sub_of_le _ _ (UInt64.le_iff_toNat_le.mpr before.le)]
    exact Nat.mod_le _ _
  have count : (readSize fileSize offset size).toNat ≤ size.toNat ∧
      (readSize fileSize offset size).toNat ≤ fileSize.toNat - offset.toNat := by
    unfold readSize
    split_ifs with less
    · rw [UInt32.lt_iff_toNat_lt] at less
      omega
    · rw [UInt32.lt_iff_toNat_lt] at less
      omega
  have first : (readFirst offset).toNat = offset.toNat / 1024 % 2 ^ 32 := by
    unfold readFirst
    rw [UInt64.toNat_toUInt32, row_toNat]
  have last : (readLast fileSize offset size).toNat =
      (offset.toNat + (readSize fileSize offset size).toNat) / 1024 % 2 ^ 32 := by
    unfold readLast
    rw [UInt64.toNat_toUInt32, row_toNat, UInt64.toNat_add, UInt32.toNat_toUInt64,
      Nat.mod_eq_of_lt (a := offset.toNat + _) (by omega)]
  have rows : (readRows fileSize offset size).toNat =
      (offset.toNat + (readSize fileSize offset size).toNat) / 1024 - offset.toNat / 1024 + 1 := by
    unfold readRows
    rw [UInt32.toNat_add, UInt32.toNat_sub, last, first, UInt32.toNat_one]
    omega
  rw [rows32_toNat, rows]
  change _ * 1024 ≤ _ ∧ _ % 1024 + _ ≤ _
  omega

theorem readContents_ends {stat : FileStat} (before : req.offset < stat.stSize)
    (small : req.size.toNat ≤ 2 ^ 32 - 2048) :
    FileEnds src (readContents cache req stat src) fun _ => True := by
  obtain ⟨rows, count⟩ := read_fits_buffer before small
  have freed : FileEnds src (do
      freeReply req.size
      refuse cache src) fun _ => True := (freeReply_ends small).bind fun _ _ => refuse_ends cache
  rw [readContents_eq]
  refine (multiblockRead_ends req.ino _ rows).bind fun result capacity => ?_
  cases result with
  | none => exact freed
  | some read =>
    refine .ite (fun _ => freed) fun _ => .ite (fun overflows => ?_) fun _ => ?_
    · rw [capacity read rfl] at overflows
      exact absurd overflows (Nat.not_lt.mpr count)
    · exact (send_ends src _).bind fun _ _ => (freeReply_ends small).bind fun _ _ => trivial

theorem read_ends (small : req.size.toNat ≤ 2 ^ 32 - 2048) : FileEnds src (doRead cache req src) fun _ => True := by
  refine file_ends fun stat => permitted_ends (allowed_ends _ _ stat) (.ite
    (fun some => readContents_ends some.2 small) fun _ => ?_)
  exact (send_ends src _).bind fun _ _ => (freeReply_ends small).bind fun _ _ => trivial

theorem put_ends (ino : UInt32) (stat : FileStat) (offset : UInt64) (size : UInt32) :
    FileEnds src (put cache ino stat offset data size) fun _ => True := by
  have old : FileEnds src (oldContents ino stat.stSize (extent stat.stSize offset size))
    fun result => ∀ contents, result = some contents →
      contents.capacity = ((extent stat.stSize offset size).rows * UInt64.ofNat BLOCK_SIZE).toNat := by
    refine .ite (fun _ contents same => ?_) fun reads => ?_
    · cases same
      rfl
    · refine (multiblockRead_ends ino _ (read_room reads)).bind fun result capacity contents same => ?_
      obtain ⟨read, rfl, rfl⟩ := Option.map_eq_some_iff.mp same
      exact capacity read rfl
  refine old.bind fun result capacity => ?_
  cases result with
  | none => trivial
  | some contents =>
    have same := capacity contents rfl
    refine .ite (fun small => absurd small (Nat.not_lt.mpr (same ▸ data_room))) fun _ => ?_
    refine (writeBlocks_ends ino _ (by rw [Nat.zero_add]; exact same ▸ write_room _)).bind fun success _ => ?_
    cases success with
    | false => trivial
    | true => exact (flushStatCache_ends _).bind fun _ _ => trivial

theorem write_ends : FileEnds src (doWrite cache req data src) fun _ => True := by
  refine file_ends fun stat => .ite (fun _ => refuse_ends cache)
    fun _ => permitted_ends (allowed_ends _ _ stat) ((put_ends ..).bind fun written _ => ?_)
  cases written with
  | none => exact refuse_ends cache
  | some cache => exact (send_ends src _).bind fun _ _ => trivial

theorem handle_ends (bounded : Bounded req) : FileEnds src (handle cache req data src) fun _ => True := by
  unfold handle
  cases type : req.type with
  | create => exact create_ends
  | delete => exact delete_ends (bounded.entry type)
  | chown => exact chown_ends
  | chmod => exact chmod_ends
  | read => exact read_ends (bounded.size type)
  | write => exact write_ends
  | stat => exact stat_ends
  | setsize => exact setsize_ends
  | setFlags => exact absurd type bounded.known.1
  | unknown => exact absurd type bounded.known.2

end Files

section Directories
open Dirsvr

/-- What the directory server asks for, when directories have at most so many entries. -/
abbrev DirEnds {α : Type} (pid : Name → Pid) (limit : Nat) (program : Dirsvr.Server α) : Prop :=
  program.Completes (fun c => ∀ i msg, dirCallee pid c = some (some (i, msg)) →
    Good pid i msg) (dirEntries limit) fun _ => True

variable {pid : Name → Pid} {limit : Nat} {dir fid : Fid} {name : List UInt8} {src : Pid}

/-- The requests of the directory server are good ones. -/
theorem rpc_good {server : Pid} {code ino : UInt32} {offset size : Nat} {data : List UInt8}
    (kind : Files.FileOp.ofCode code = .write ∨ Files.FileOp.ofCode code = .read ∧
    (UInt32.ofNat size).toNat ≤ 2 ^ 32 - 2048)
    (i : Name) (msg : List UInt8) (asked : rpc pid server (fileMessage code ino offset size data) =
    some (some (i, msg))) : Good pid i msg := by
  unfold rpc at asked
  split_ifs at asked with own file
  · cases asked
    let req : Files.FileRequest := { type := .ofCode code, ino, offset := .ofNat offset, size := .ofNat size, uid := 0, mode := 0 }
    have decoded : Files.FileRequest.decode (Blkfile.message code req data) = some (req, data.take Files.PAGESIZE) :=
      Blkfile.decode_message rfl data
    refine ⟨req, _, decoded, ?_⟩
    rcases kind with write | ⟨read, small⟩
    · exact ⟨by simp [req, write], by simp [req, write], by simp [req, write]⟩
    · exact ⟨by simp [req, read], by simp [req, read], fun _ => small⟩
  · cases asked

theorem fileRead_good (dir : Fid) (offset : Nat) (i : Name) (msg : List UInt8)
    (asked : dirCallee pid (.fileRead dir offset Files.PAGESIZE) = some (some (i, msg))) : Good pid i msg :=
  rpc_good (.inr ⟨rfl, by decide⟩) i msg asked

theorem dirRespond_ends (src : Pid) (status : DirStatus) (fid : Option Fid) :
    DirEnds pid limit (dirRespond src status fid) :=
  ⟨nofun, fun _ _ => trivial⟩

theorem addEntry_ends (offset : Nat) : DirEnds pid limit (addEntry dir src name fid offset) :=
  ⟨rpc_good (.inl rfl), fun _ _ => dirRespond_ends ..⟩

/-- After each page that is not empty, at least one page less can follow. -/
theorem pages_left {fuel offset : Nat} {buf : List UInt8}
    (left : limit * DIR_ENTRY_SIZE ≤ offset + fuel * DIR_ENTRY_SIZE)
    (whole : DIR_ENTRY_SIZE ∣ buf.length) (some : buf.length ≠ 0)
    (inside : limit * DIR_ENTRY_SIZE ≤ offset → buf = []) :
    ∃ rest, fuel = rest + 1 ∧ limit * DIR_ENTRY_SIZE ≤ offset + buf.length + rest * DIR_ENTRY_SIZE := by
  have entry : DIR_ENTRY_SIZE ≤ buf.length := Nat.le_of_dvd (Nat.pos_of_ne_zero some) whole
  cases fuel with
  | zero => exact absurd (congrArg List.length (inside (by rwa [Nat.zero_mul] at left))) some
  | succ rest =>
    refine ⟨rest, rfl, ?_⟩
    rw [Nat.succ_mul] at left
    omega

theorem lookupFrom_ends {fuel offset : Nat} (left : limit * DIR_ENTRY_SIZE ≤ offset + fuel * DIR_ENTRY_SIZE) :
    DirEnds pid limit (lookupFrom dir src name (fuel + 1) offset) := by
  induction fuel using Nat.strong_induction_on generalizing offset with
  | _ fuel ih =>
    refine ⟨fileRead_good dir offset, fun found given => ?_⟩
    cases found with
    | none => exact dirRespond_ends ..
    | some buf =>
      refine .ite (fun _ => dirRespond_ends ..) fun some => .ite
        (fun ragged => absurd (Nat.mod_eq_zero_of_dvd given.1) ragged) fun _ => ?_
      obtain ⟨rest, rfl, fewer⟩ := pages_left left given.1 some given.2
      cases (entries buf).find? fun de => nameCmp de name name.length with
      | none => exact ih rest (Nat.lt_succ_self rest) fewer
      | some de => exact dirRespond_ends ..

theorem insertFrom_ends {fuel offset : Nat} (free : Option Nat)
    (left : limit * DIR_ENTRY_SIZE ≤ offset + fuel * DIR_ENTRY_SIZE) :
    DirEnds pid limit (insertFrom dir src name fid (fuel + 1) offset free) := by
  induction fuel using Nat.strong_induction_on generalizing offset free with
  | _ fuel ih =>
    refine ⟨fileRead_good dir offset, fun found given => ?_⟩
    cases found with
    | none => exact dirRespond_ends ..
    | some buf =>
      refine .ite (fun _ => addEntry_ends _) fun some => .ite
        (fun ragged => absurd (Nat.mod_eq_zero_of_dvd given.1) ragged) fun _ => ?_
      obtain ⟨rest, rfl, fewer⟩ := pages_left left given.1 some given.2
      cases scanEntries name (entries buf) offset free with
      | none => exact dirRespond_ends ..
      | some free => exact ih rest (Nat.lt_succ_self rest) free fewer

theorem dirServe_ends {msg : List UInt8} (good : Good pid .directory msg) :
    DirEnds pid limit (Dirsvr.serve (limit + 1) msg src) := by
  obtain ⟨long, kind, -⟩ := good
  have start : limit * DIR_ENTRY_SIZE ≤ 0 + limit * DIR_ENTRY_SIZE := (Nat.zero_add _).ge
  refine .ite (fun short => absurd short (Nat.not_lt.mpr long)) fun _ => ?_
  unfold Dirsvr.handle
  dsimp only
  rcases kind with lookup | insert
  · rw [lookup]
    exact .ite (fun _ => dirRespond_ends ..) fun _ => lookupFrom_ends start
  · rw [insert]
    exact .ite (fun _ => dirRespond_ends ..) fun _ => insertFrom_ends none start

end Directories

end Egos.Servers
