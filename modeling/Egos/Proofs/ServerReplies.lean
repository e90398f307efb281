import Egos.Grass.Servers
import Egos.Proofs.BlkfileStrings
import Egos.Proofs.DirsvrMaps

/-! How often the handlers of the two servers reply. The block file server replies twice when
the block server refuses a size, and a DIR_REMOVE is not answered at all. -/

namespace Egos.Servers
open Library Library.Rpc
open Grass (Pid Uid bytesOf)

section Files
open Egos.Files Blkfile

abbrev FileReplies {α : Type} (src : Pid) (left : Nat) (program : Files.Server α) : Prop :=
  program.Replies fileTarget fileResizes src left

variable {cache : Cache} {req : FileRequest} {data : List UInt8} {src : Pid} {α : Type}

/-- A reply, and nothing after it. -/
theorem send_replies (reply : FileReply) (value : α) : FileReplies src 1 (do
    call (.send src reply)
    pure value) :=
  ⟨rfl, 0, rfl, fun _ => rfl⟩

theorem refuse_replies (cache : Cache) (src : Pid) : FileReplies src 1 (refuse cache src) := send_replies _ cache

theorem findUid_replies (src : Pid) : FileReplies src 0 (findUid src) := by
  intro found _
  cases found with
  | none => trivial
  | some uid => rfl

theorem allowed_replies (owner other : UInt32) (stat : Option FileStat) (src : Pid) :
    FileReplies src 0 (allowed owner other stat src) := by
  refine .behind (findUid_replies src) fun uid => .ite (.pure true) ?_
  cases stat with
  | none => trivial
  | some stat => rfl

theorem readAllowed_replies (stat : Option FileStat) (src : Pid) : FileReplies src 0 (readAllowed stat src) :=
  allowed_replies _ _ stat src

theorem writeAllowed_replies (stat : Option FileStat) (src : Pid) : FileReplies src 0 (writeAllowed stat src) :=
  allowed_replies _ _ stat src

theorem readBlocks_replies (ino : UInt32) (rest i : Nat) (offset : UInt32) (addr : Buffer) :
    FileReplies src 0 (readBlocks ino rest i offset addr) := by
  induction rest generalizing i offset addr with
  | zero => rfl
  | succ rest ih =>
    intro found _
    cases found with
    | none => rfl
    | some block => exact .ite trivial (ih ..)

theorem multiblockRead_replies (ino offset : UInt32) (addr : Buffer) (nblocks : UInt32) :
    FileReplies src 0 (multiblockRead ino offset addr nblocks) :=
  .behind (readBlocks_replies ..) fun _ => .pure _

theorem writeBlocks_replies (ino : UInt32) (rest i : Nat) (offset : UInt32) (addr : Buffer) :
    FileReplies src 0 (writeBlocks ino rest i offset addr) := by
  induction rest generalizing i offset with
  | zero => rfl
  | succ rest ih =>
    refine .ite trivial fun success _ => ?_
    cases success with
    | false => rfl
    | true => exact ih ..

theorem flushStatCache_replies (cache : Cache) (src : Pid) : FileReplies src 0 (flushStatCache cache) :=
  .behind (writeBlocks_replies ..) fun _ => .pure _

/-- The table is written, and then the handler replies. -/
theorem finish_replies (cache : Cache) (reply : FileReply) (value : α) : FileReplies src 1 (do
    flushStatCache cache
    call (.send src reply)
    pure value) :=
  .behind (flushStatCache_replies cache src) fun _ => send_replies reply value

theorem create_replies : FileReplies src 1 (doCreate cache req src) := by
  unfold doCreate
  cases cache.unallocated with
  | none => exact refuse_replies cache src
  | some ino => exact .behind (findUid_replies src) fun uid => finish_replies _ _ _

theorem delete_replies : FileReplies src 1 (doDelete cache req src) := by
  refine .ite (refuse_replies cache src) (.behind (writeAllowed_replies _ src) fun mayWrite => ?_)
  cases mayWrite with
  | false => exact refuse_replies cache src
  | true =>
    cases cache.entry req.ino with
    | none => trivial
    | some stat =>
      refine .ite (.behind (flushStatCache_replies _ src) fun _ => ?_) (send_replies _ cache)
      intro success resized
      obtain rfl : success = true := resized
      exact send_replies _ _

/-- Handlers of an allocated file. -/
theorem file_replies {handler : FileStat → Files.Server Cache} (handles : ∀ stat, FileReplies src 1 (handler stat)) :
    FileReplies src 1 (match cache.allocated req.ino with
      | none => refuse cache src
      | some stat => handler stat) := by
  cases cache.allocated req.ino with
  | none => exact refuse_replies cache src
  | some stat => exact handles stat

/-- Handlers that look whether the sender may use the file. -/
theorem permitted_replies {check : Files.Server Bool} {handler : Files.Server Cache} (checks : FileReplies src 0 check)
    (handles : FileReplies src 1 handler) :
    FileReplies src 1 (do
      match ← check with
      | false => refuse cache src
      | true => handler) := by
  refine .behind checks fun may => ?_
  cases may with
  | false => exact refuse_replies cache src
  | true => exact handles

theorem chown_replies : FileReplies src 1 (doChown cache req src) :=
  file_replies fun _ => .behind (findUid_replies src) fun _ => .ite (refuse_replies cache src) (finish_replies _ _ _)

theorem chmod_replies : FileReplies src 1 (doChmod cache req src) :=
  file_replies fun _ => .behind (findUid_replies src) fun _ => .ite (refuse_replies cache src) (finish_replies _ _ _)

theorem freeReply_replies (ext : UInt32) : FileReplies src 0 (freeReply ext) := .ite (.pure _) trivial

theorem freed_replies (ext : UInt32) : FileReplies src 1 (freeReply ext >>= fun _ => refuse cache src) :=
  .behind (freeReply_replies ext) fun _ => refuse_replies cache src

theorem replied_replies (ext : UInt32) (reply : FileReply) :
    FileReplies src 1 (call (.send src reply) >>= fun _ => freeReply ext >>= fun _ => pure cache) := by
  have rest : FileReplies src 0 (freeReply ext >>= fun _ => pure cache) := .behind (freeReply_replies ext) fun _ => rfl
  exact ⟨rfl, 0, rfl, fun _ => rest⟩

theorem readContents_replies (stat : FileStat) : FileReplies src 1 (readContents cache req stat src) := by
  refine .behind (multiblockRead_replies ..) fun found => ?_
  cases found with
  | none => exact freed_replies _
  | some contents => exact .ite (freed_replies _) (.ite trivial (replied_replies _ _))

theorem read_replies : FileReplies src 1 (doRead cache req src) :=
  file_replies fun stat => permitted_replies (readAllowed_replies _ src)
    (.ite (readContents_replies stat) (replied_replies _ _))

theorem put_replies (ino : UInt32) (stat : FileStat) (offset : UInt64) (data : List UInt8) (size : UInt32) :
    FileReplies src 0 (put cache ino stat offset data size) := by
  have old : FileReplies src 0 (oldContents ino stat.stSize (extent stat.stSize offset size)) :=
    .ite (.pure _) (.behind (multiblockRead_replies ..) fun _ => .pure _)
  refine .behind old fun contents => ?_
  cases contents with
  | none => rfl
  | some contents =>
    refine .ite trivial (.behind (writeBlocks_replies ..) fun success => ?_)
    cases success with
    | false => rfl
    | true => exact .behind (flushStatCache_replies _ src) fun _ => rfl

theorem write_replies : FileReplies src 1 (doWrite cache req data src) := by
  refine file_replies fun stat => .ite (refuse_replies cache src)
    (permitted_replies (writeAllowed_replies _ src) (.behind (put_replies ..) fun written => ?_))
  cases written with
  | none => exact refuse_replies cache src
  | some cache => exact send_replies _ cache

theorem stat_replies : FileReplies src 1 (doStat cache req src) :=
  file_replies fun _ => permitted_replies (readAllowed_replies _ src) (send_replies _ cache)

theorem setsize_replies : FileReplies src 1 (doSetsize cache req src) := by
  refine file_replies fun stat => .ite (refuse_replies cache src)
    (permitted_replies (writeAllowed_replies _ src) fun success resized => ?_)
  obtain rfl : success = true := resized
  exact finish_replies _ _ _

theorem handle_replies : FileReplies src 1 (handle cache req data src) := by
  unfold handle
  cases req.type with
  | create => exact create_replies
  | delete => exact delete_replies
  | chown => exact chown_replies
  | chmod => exact chmod_replies
  | read => exact read_replies
  | write => exact write_replies
  | stat => exact stat_replies
  | setsize => exact setsize_replies
  | setFlags => trivial
  | unknown => trivial

theorem serve_replies (cache : Cache) (msg : List UInt8) (src : Pid) : FileReplies src 1 (serve cache msg src) := by
  unfold serve
  cases FileRequest.decode msg with
  | none => trivial
  | some request => exact handle_replies

end Files

section Directories
open Dirsvr

abbrev DirReplies {α : Type} (src : Pid) (left : Nat) (program : Dirsvr.Server α) : Prop :=
  program.Replies dirTarget (fun _ _ => True) src left

variable {dir fid : Fid} {name : List UInt8} {src : Pid} {fuel : Nat}

theorem dirRespond_replies (src : Pid) (status : DirStatus) (fid : Option Fid) :
    DirReplies src 1 (dirRespond src status fid) :=
  ⟨rfl, 0, rfl, fun _ => rfl⟩

theorem lookupFrom_replies (fuel offset : Nat) : DirReplies src 1 (lookupFrom dir src name fuel offset) := by
  induction fuel generalizing offset with
  | zero => trivial
  | succ fuel ih =>
    intro found _
    cases found with
    | none => exact dirRespond_replies ..
    | some buf =>
      refine .ite (dirRespond_replies ..) (.ite trivial ?_)
      cases (entries buf).find? fun de => nameCmp de name name.length with
      | none => exact ih _
      | some de => exact dirRespond_replies ..

theorem addEntry_replies (offset : Nat) :
    DirReplies src 1 (addEntry dir src name fid offset) := fun _ _ => dirRespond_replies ..

theorem insertFrom_replies (fuel offset : Nat) (free : Option Nat) :
    DirReplies src 1 (insertFrom dir src name fid fuel offset free) := by
  induction fuel generalizing offset free with
  | zero => trivial
  | succ fuel ih =>
    intro found _
    cases found with
    | none => exact dirRespond_replies ..
    | some buf =>
      refine .ite (addEntry_replies _) (.ite trivial ?_)
      cases scanEntries name (entries buf) offset free with
      | none => exact dirRespond_replies ..
      | some free => exact ih _ _

theorem dirServe_replies {msg : List UInt8}
    (answerable : DirOp.ofCode (Files.wordAt (msg.take (8 + MAX_PATH_NAME)) 0) ≠ .remove) :
    DirReplies src 1 (serve fuel msg src) := by
  refine .ite trivial ?_
  unfold handle
  dsimp only
  cases kind : DirOp.ofCode (Files.wordAt (msg.take (8 + MAX_PATH_NAME)) 0) with
  | lookup => exact .ite (dirRespond_replies ..) (lookupFrom_replies ..)
  | insert => exact .ite (dirRespond_replies ..) (insertFrom_replies ..)
  | remove => exact absurd kind answerable
  | unknown => trivial

end Directories

variable {pid : Name → Pid} {fuel : Nat} {w after : World (server pid fuel)}

theorem answering : @Answering Name Pid (List UInt8) Uid (server pid fuel) Answerable Resizes := by
  intro i state r answerable
  cases i with
  | blkfile => exact serve_replies state r.msg r.src
  | directory => exact dirServe_replies answerable

/-- Whatever the requests are, where the handling of one has ended it has been answered once. -/
theorem replies_matched {events : List (Event (server pid fuel))} (initial : w.Initial pid)
    (run : Run (Guarded (Proper Answerable Resizes) (Step pid)) w events after) : after.Matched :=
  matched answering initial run

end Egos.Servers
