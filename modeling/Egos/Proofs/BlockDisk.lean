import Egos.Proofs.BlockVolume
import Egos.Proofs.DisksvrReplies

/-! The physical block server on the disk: each partition is an array of blocks of its own,
whoever else uses the other one. -/

namespace Egos.BlockStack
open Library Files Blocksvr BlockClient
open Disk (Block BlockNo Method BLOCK_SIZE nullBlock partdisk)
open Disksvr (splice)
open Partdisk (Part Partition DISK_SIZE PG_DEV_BLOCKS)
open Blkfile (MAX_INODES)
open Grass (Pid)

/-! The disk. -/

/-- No event is scheduled, and the blocks of the disk are these. -/
structure Idle (s : Disksvr.State) (blocks : Nat → DataBlock) : Prop where
  nblocks : s.dd.nblocks = DISK_SIZE
  fits : s.Fits
  events : s.events = []
  block : s.dd.block = blocks

variable {s : Disksvr.State} {blocks : Nat → DataBlock} {offset : UInt32}

private theorem splice_whole (front back : DataBlock) : splice BLOCK_SIZE front back = front := by
  funext i
  exact if_pos i.isLt

/-- The server has scheduled an event, which is run before the client goes on. -/
private theorem completes (src : Pid) {msg : List UInt8} (repsize : Nat) {mid : Disksvr.State}
    {event : Disksvr.Completion}
    (ran : Disksvr.receive msg src (some BLOCK_SIZE) s = .done () mid) (events : mid.events = [event])
    (sent : mid.sent = s.sent) :
    diskServer src { msg, repsize } s = .done (answer src repsize [event.send])
        { mid with events := [], sent := s.sent ++ [event.send] } := by
  have completed : Disksvr.complete mid = .done () { mid with events := [], sent := s.sent ++ [event.send] } := by
    unfold Disksvr.complete
    rw [Prog.modify_run]
    simp only [events, sent]
  unfold diskServer
  rw [Prog.bind_done ran]
  simp only [completed, List.drop_left']

private theorem seeks (idle : Idle s blocks) (inside : offset < DISK_SIZE) :
    Disksvr.diskSeek offset s = .done (offset.toNat * BLOCK_SIZE) s := by
  rw [Disksvr.diskSeek_run, idle.nblocks, if_pos inside]

theorem disk_read (src : Pid) (idle : Idle s blocks) (inside : offset < DISK_SIZE) :
    ∃ after, blockCalls.over (diskServer src) (.read 0 offset) ((), s) =
        .done (some (blocks offset.toNat)) ((), after) ∧ Idle after blocks := by
  have decoded := decode_request BLOCK_READ 0 offset [] (Nat.zero_le _)
  rw [List.append_nil] at decoded
  let event : Disksvr.Completion := .read src (some (blocks offset.toNat))
  have ran : Disksvr.receive (request BLOCK_READ 0 offset) src (some BLOCK_SIZE) s =
      .done () { s with events := [event] } := by
    unfold Disksvr.receive
    rw [decoded]
    change Disksvr.devDiskRead offset src (some BLOCK_SIZE) s = _
    unfold Disksvr.devDiskRead
    rw [Prog.bind_done (seeks idle inside), Prog.bind_done (Prog.get_run s), Option.map_some,
      Disksvr.DevDisk.block_read, splice_whole, idle.block]
    unfold Disksvr.schedule
    rw [Prog.modify_run, idle.events]
    rfl
  have served := completes src (replySize + BLOCK_SIZE) ran rfl rfl
  refine ⟨{ s with events := [], sent := s.sent ++ [event.send] },
    Layer.over_done (Prog.bind_done served |>.trans ?_), idle.nblocks, idle.fits, rfl, idle.block⟩
  exact congrArg (fun block => Outcome.done (block, ()) _)
    (readReply_answer src { status := .ok, sizeNblock := 1, data := some (blocks offset.toNat) })

theorem disk_write (src : Pid) (idle : Idle s blocks) (inside : offset < DISK_SIZE) (data : DataBlock) :
    ∃ after, blockCalls.over (diskServer src) (.write 0 offset data) ((), s) = .done true ((), after) ∧
      Idle after (Function.update blocks offset.toNat data) := by
  have size : (List.ofFn data).length = BLOCK_SIZE := List.length_ofFn
  have decoded := decode_request BLOCK_WRITE 0 offset _ (le_of_eq size)
  let event : Disksvr.Completion := .write src true
  let dd := s.dd.writeAt (offset.toNat * BLOCK_SIZE) ((List.ofFn data).take (min BLOCK_SIZE BLOCK_SIZE))
  have ran : Disksvr.receive (request BLOCK_WRITE 0 offset ++ List.ofFn data) src (some BLOCK_SIZE) s =
      .done () { s with dd, events := [event] } := by
    unfold Disksvr.receive
    rw [decoded]
    change Disksvr.diskDoWrite _ (List.ofFn data) src (some BLOCK_SIZE) s = _
    unfold Disksvr.diskDoWrite
    rw [if_neg (not_not_intro size), if_neg (not_not_intro rfl)]
    unfold Disksvr.devDiskWrite
    rw [Prog.bind_done (seeks idle inside)]
    dsimp only
    rw [Prog.bind_done (Prog.modify_run _ _)]
    unfold Disksvr.schedule
    rw [Prog.modify_run]
    dsimp only
    rw [idle.events, decide_eq_true (le_refl _)]
    rfl
  have written : dd.block = Function.update blocks offset.toNat data := by
    have same : (fun i : Fin BLOCK_SIZE => (List.ofFn data).getD i 0) = data := by
      funext i
      simp [List.getD_eq_getElem?_getD]
    rw [Disksvr.DevDisk.block_write _ _ size, splice_whole, idle.block, same]
  have served := completes src replySize ran rfl rfl
  refine ⟨{ s with dd, events := [], sent := s.sent ++ [event.send] },
    Layer.over_done (Prog.bind_done served |>.trans ?_), idle.nblocks, idle.fits, rfl, written⟩
  exact congrArg (fun success => Outcome.done (success, ()) _)
    (statusReply_answer src { status := .ok, sizeNblock := 1, data := none })

def OnDisk : BlockCall → Prop
  | .read ino offset => ino = 0 ∧ offset < DISK_SIZE
  | .write ino offset _ => ino = 0 ∧ offset < DISK_SIZE
  | _ => False

theorem disk_simulates (src : Pid) :
    Simulates OnDisk (fun s blocks => Idle s.2 blocks) (blockCalls.over (diskServer src)) (array DISK_SIZE) := by
  rintro call fine ⟨own, s⟩ blocks idle
  cases call with
  | read ino offset =>
    obtain ⟨rfl, inside⟩ := fine
    obtain ⟨after, ran, still⟩ := disk_read src idle inside
    rw [ran, array_read inside]
    exact ⟨rfl, still⟩
  | write ino offset data =>
    obtain ⟨rfl, inside⟩ := fine
    obtain ⟨after, ran, still⟩ := disk_write src idle inside data
    rw [ran, array_write inside]
    exact ⟨rfl, still⟩
  | getsize ino => exact fine.elim
  | setsize ino nblocks => exact fine.elim

def Method.Inside : Method → Prop
  | .read offset _ => offset < DISK_SIZE
  | .write offset _ => offset < DISK_SIZE
  | _ => False

theorem protdisk_uses (method : Method) (inside : Method.Inside method) (own : Unit) :
    (protdisk 0 method own).Uses OnDisk fun _ => True := by
  cases method with
  | nblocks => exact inside.elim
  | setsize nblocks => exact inside.elim
  | read offset buffer => exact ⟨⟨rfl, inside⟩, fun reply => by cases reply <;> trivial⟩
  | write offset block => exact ⟨⟨rfl, inside⟩, fun _ => trivial⟩

/-! The partitions. -/

/-- The inode of the partition, and its place on the disk. -/
def inodeOf : Partition → UInt32
  | .page => PAGE_PARTITION
  | .file => FILE_PARTITION

def partOf : Partition → Part
  | .page => { delta := 0, nblocks := PG_DEV_BLOCKS }
  | .file => { delta := PG_DEV_BLOCKS, nblocks := FILE_BLOCKS }

theorem part_inside {p : Partition} (inside : offset < (partOf p).nblocks) : (partOf p).delta + offset < DISK_SIZE ∧
    ((partOf p).delta + offset).toNat = (partOf p).delta.toNat + offset.toNat := by
  rw [UInt32.lt_iff_toNat_lt] at inside
  have sum : ((partOf p).delta + offset).toNat = (partOf p).delta.toNat + offset.toNat := by
    rw [UInt32.toNat_add]
    cases p with
    | page =>
      change offset.toNat < 4096 at inside
      change (0 + _) % 2 ^ 32 = 0 + _
      omega
    | file =>
      change offset.toNat < 12288 at inside
      change (4096 + _) % 2 ^ 32 = 4096 + _
      omega
  refine ⟨?_, sum⟩
  rw [UInt32.lt_iff_toNat_lt, sum]
  cases p with
  | page =>
    change offset.toNat < 4096 at inside
    change 0 + _ < 16384
    omega
  | file =>
    change offset.toNat < 12288 at inside
    change 4096 + _ < 16384
    omega

def indexOf : Partition → Fin Kind.phys.nInodes
  | .page => ⟨0, by decide⟩
  | .file => ⟨1, by decide⟩

private theorem physParts_index (p : Partition) : physParts (indexOf p) = partOf p := by cases p <;> rfl

def Own (p : Partition) : BlockCall → Prop
  | .read ino _ => ino = inodeOf p
  | .write ino _ _ => ino = inodeOf p
  | .getsize ino => ino = inodeOf p
  | .setsize .. => False

private theorem part_stays (p : Partition) : Function.update physParts (indexOf p) (partOf p) = physParts := by
  rw [← physParts_index p, Function.update_eq_self]

private theorem direct_read (p : Partition) (offset : UInt32) :
    physTable.direct .server (.read (inodeOf p) offset) physParts =
      if offset ≥ (partOf p).nblocks then pure (none, physParts)
      else Disk.call (.read ((partOf p).delta + offset) nullBlock) >>= fun answer =>
        pure (if answer.1 < 0 then none else some (toBytes answer.2), physParts) := by
  have found : physTable.direct .server (.read (inodeOf p) offset) physParts =
    physTable.read (indexOf p) offset physParts := by cases p <;> rfl
  rw [found]
  unfold physTable partdisk
  dsimp only
  rw [physParts_index]
  split_ifs with past
  · simp only [Effect.pure_bind, part_stays]
    rfl
  · simp only [Effect.bind_assoc, Effect.pure_bind, part_stays]

private theorem direct_write (p : Partition) (offset : UInt32) (data : DataBlock) :
    physTable.direct .server (.write (inodeOf p) offset data) physParts =
      if offset ≥ (partOf p).nblocks then pure (false, physParts)
      else Disk.call (.write ((partOf p).delta + offset) (ofBytes data)) >>=
          fun result => pure (decide (0 ≤ result), physParts) := by
  have found : physTable.direct .server (.write (inodeOf p) offset data) physParts =
      physTable.write (indexOf p) offset data physParts := by
    cases p <;> rfl
  rw [found]
  unfold physTable partdisk
  dsimp only
  rw [physParts_index]
  split_ifs with past
  · simp only [Effect.pure_bind, part_stays]
    rfl
  · simp only [Effect.bind_assoc, Effect.pure_bind, part_stays]

private theorem direct_getsize (p : Partition) :
    physTable.direct .server (.getsize (inodeOf p)) physParts = pure (some (partOf p).nblocks, physParts) := by
  have found : physTable.direct .server (.getsize (inodeOf p)) physParts =
      physTable.nblocks (indexOf p) physParts >>= fun (size, last) => pure (some size, last) := by cases p <;> rfl
  have reported : UInt32.ofInt (partOf p).nblocks.toInt32.toInt = (partOf p).nblocks := by cases p <;> decide
  rw [found]
  unfold physTable partdisk
  dsimp only
  rw [physParts_index]
  simp only [Effect.pure_bind, part_stays, reported]

theorem direct_uses {p : Partition} {call : BlockCall} (own : Own p call) :
    (physTable.direct .server call physParts).Uses Method.Inside fun _ => True := by
  cases call with
  | read ino offset =>
    obtain rfl : ino = inodeOf p := own
    rw [direct_read]
    split_ifs with past
    · trivial
    · exact ⟨(part_inside (UInt32.not_le.mp past)).1, fun _ => trivial⟩
  | write ino offset data =>
    obtain rfl : ino = inodeOf p := own
    rw [direct_write]
    split_ifs with past
    · trivial
    · exact ⟨(part_inside (UInt32.not_le.mp past)).1, fun _ => trivial⟩
  | getsize ino =>
    obtain rfl : ino = inodeOf p := own
    rw [direct_getsize]
    trivial
  | setsize ino nblocks => exact own.elim

/-! Windows on the disk. -/

/-- The blocks of the partition are those of its place on the disk. -/
def Shows (p : Partition) (blocks window : Nat → DataBlock) : Prop :=
  ∀ n < (partOf p).nblocks.toNat, window n = blocks ((partOf p).delta.toNat + n)

theorem Shows.update {p : Partition} {blocks window : Nat → DataBlock} (shown : Shows p blocks window) (n : Nat)
    (data : DataBlock) :
    Shows p (Function.update blocks ((partOf p).delta.toNat + n) data) (Function.update window n data) := by
  intro m inside
  by_cases here : m = n
  · subst here
    rw [Function.update_self, Function.update_self]
  · rw [Function.update_of_ne here, Function.update_of_ne (by omega)]
    exact shown m inside

/-- The other partition is elsewhere. -/
theorem Shows.other {p q : Partition} {blocks window : Nat → DataBlock} (shown : Shows q blocks window)
    (different : q ≠ p) {n : Nat}
    (inside : n < (partOf p).nblocks.toNat) (data : DataBlock) :
    Shows q (Function.update blocks ((partOf p).delta.toNat + n) data) window := by
  intro m within
  have elsewhere : (partOf q).delta.toNat + m ≠ (partOf p).delta.toNat + n := by
    cases p with
    | page =>
      cases q with
      | page => exact absurd rfl different
      | file =>
        change n < 4096 at inside
        change 4096 + m ≠ 0 + n
        omega
    | file =>
      cases q with
      | page =>
        change m < 4096 at within
        change 0 + m ≠ 4096 + n
        omega
      | file => exact absurd rfl different
  rw [Function.update_of_ne elsewhere]
  exact shown m within

/-- A call of a partition, on the whole disk. -/
theorem direct_array {p : Partition} {call : BlockCall} (own : Own p call) {blocks : Nat → DataBlock}
    (parts : Partition → Nat → DataBlock)
    (shown : ∀ q, Shows q blocks (parts q)) :
    ((physTable.direct .server).over ((protdisk 0).over (array DISK_SIZE)) call (physParts, (), blocks)).Alike
      (fun s after => s.1 = physParts ∧ ∀ q, Shows q s.2.2 (Function.update parts p after q))
          (array (partOf p).nblocks call (parts p)) := by
  have stays : ∀ q, Shows q blocks (Function.update parts p (parts p) q) := by
    rw [Function.update_eq_self]
    exact shown
  cases call with
  | read ino offset =>
    obtain rfl : ino = inodeOf p := own
    have direct := direct_read p offset
    by_cases past : offset ≥ (partOf p).nblocks
    · rw [if_pos past] at direct
      have ran : (physTable.direct .server (.read (inodeOf p) offset) physParts).run
        ((protdisk 0).over (array DISK_SIZE)) ((), blocks) =
          .done (none, physParts) ((), blocks) := by
        rw [direct]
        rfl
      rw [Layer.over_done ran, array_read_past (UInt32.not_lt.mpr past)]
      exact ⟨rfl, rfl, stays⟩
    · have inside := UInt32.not_le.mp past
      obtain ⟨within, sum⟩ := part_inside inside
      rw [if_neg past] at direct
      have below : (protdisk 0).over (array DISK_SIZE) (.read ((partOf p).delta + offset) nullBlock) ((), blocks) =
          .done (0, ofBytes (blocks ((partOf p).delta + offset).toNat)) ((), blocks) :=
            Layer.over_done (Prog.bind_done (array_read within))
      have ran : (physTable.direct .server (.read (inodeOf p) offset) physParts).run
        ((protdisk 0).over (array DISK_SIZE)) ((), blocks) =
          .done (some (blocks ((partOf p).delta + offset).toNat), physParts) ((), blocks) := by
        rw [direct]
        exact (Prog.bind_done below).trans (congrArg
          (fun block => Outcome.done (some block, physParts) ((), blocks)) (toBytes_ofBytes _))
      rw [Layer.over_done ran, array_read inside]
      refine ⟨?_, rfl, stays⟩
      rw [sum, shown p offset.toNat (UInt32.lt_iff_toNat_lt.mp inside)]
  | write ino offset data =>
    obtain rfl : ino = inodeOf p := own
    have direct := direct_write p offset data
    by_cases past : offset ≥ (partOf p).nblocks
    · rw [if_pos past] at direct
      have ran : (physTable.direct .server (.write (inodeOf p) offset data) physParts).run
        ((protdisk 0).over (array DISK_SIZE)) ((), blocks) =
          .done (false, physParts) ((), blocks) := by
        rw [direct]
        rfl
      rw [Layer.over_done ran, array_write_past (UInt32.not_lt.mpr past)]
      exact ⟨rfl, rfl, stays⟩
    · have inside := UInt32.not_le.mp past
      obtain ⟨within, sum⟩ := part_inside inside
      let written := Function.update blocks ((partOf p).delta + offset).toNat data
      rw [if_neg past] at direct
      have below : (protdisk 0).over (array DISK_SIZE) (.write ((partOf p).delta + offset) (ofBytes data))
        ((), blocks) =
          .done 0 ((), written) := by
        have wrote : array DISK_SIZE (.write 0 ((partOf p).delta + offset) (toBytes (ofBytes data))) blocks =
            .done true written :=
          (array_write within _).trans (congrArg (fun data => Outcome.done true (Function.update blocks _ data))
            (toBytes_ofBytes data))
        exact Layer.over_done (Prog.bind_done wrote)
      have ran : (physTable.direct .server (.write (inodeOf p) offset data) physParts).run
        ((protdisk 0).over (array DISK_SIZE)) ((), blocks) =
          .done (true, physParts) ((), written) := by
        rw [direct]
        exact Prog.bind_done below
      rw [Layer.over_done ran, array_write inside]
      refine ⟨rfl, rfl, fun q => ?_⟩
      change Shows q written _
      have place : written = Function.update blocks ((partOf p).delta.toNat + offset.toNat) data :=
        congrArg (Function.update blocks · data) sum
      have small := UInt32.lt_iff_toNat_lt.mp inside
      rw [place]
      by_cases mine : q = p
      · subst mine
        rw [Function.update_self]
        exact (shown q).update offset.toNat data
      · rw [Function.update_of_ne mine]
        exact (shown q).other mine small data
  | getsize ino =>
    obtain rfl : ino = inodeOf p := own
    have ran : (physTable.direct .server (.getsize (inodeOf p)) physParts).run
      ((protdisk 0).over (array DISK_SIZE)) ((), blocks) =
        .done (some (partOf p).nblocks, physParts) ((), blocks) := by
      rw [direct_getsize]
      rfl
    rw [Layer.over_done ran]
    exact ⟨rfl, rfl, stays⟩
  | setsize ino nblocks => exact own.elim

/-! The clients of the physical block server. -/

/-- The virtual block server, and the processes whose pages are read or written. -/
inductive Client where
  | files
  | paging (process : Pid)
  deriving DecidableEq

def Client.partition : Client → Partition
  | .files => .file
  | .paging _ => .page

/-- The pid that is the source of the requests; the virtual block server has the given one. -/
def Client.pid (virt : Pid) : Client → Pid
  | .files => virt
  | .paging process => process

/-- The disk server waits, and the partitions are where they were put. -/
structure Split (s : PhysState) (parts : Partition → Nat → DataBlock) : Prop where
  places : s.2.1 = physParts
  disk : ∃ blocks, Idle s.2.2.2.2 blocks ∧ ∀ p, Shows p blocks (parts p)

theorem physServer_separate (phys virt : Pid) :
    Separate Client.partition Own Split (fun client : Client => physServer phys (client.pid virt))
        fun p => array (partOf p).nblocks := by
  intro client call s parts own split
  obtain ⟨⟨⟩, _, ⟨⟩, ⟨⟩, disk⟩ := s
  obtain ⟨rfl, blocks, idle, shown⟩ := split
  have server := (server_direct physTable .server (client.pid virt)
    ((protdisk 0).over (blockCalls.over (diskServer phys)))) call trivial
    ((), physParts, (), (), disk) (physParts, (), (), disk) rfl
  have below := Layer.over_alike ((disk_simulates phys).lift protdisk_uses) (direct_uses own)
    (s := ((), (), disk)) (t := ((), blocks)) ⟨rfl, idle⟩
  refine ((server.trans below).trans (direct_array own parts shown)).mono ?_
  rintro s after ⟨_, ⟨_, rfl, same, _, still⟩, one, two⟩
  exact ⟨same.trans one, _, still, two⟩

end Egos.BlockStack
