import Egos.Proofs.BlkfileBlocks
import Egos.Proofs.BlockVolume
import Egos.Proofs.FatdiskFiles
import Mathlib.Algebra.Order.BigOperators.Group.Finset

/-! The FAT file system on a blank volume: every inode is an array of blocks of its own, until
all the blocks of the volume are taken. -/

namespace Egos.BlockStack
open Library Fatdisk
open Files (DataBlock InodeStore zeroBlock)
open BlockClient (BlockCall)
open Disk (Block BlockNo nullBlock)
open Blkfile (MAX_INODES)

abbrev Inodes := UInt32 → List DataBlock

namespace Inodes

def write (inodes : Inodes) (ino offset : UInt32) (data : DataBlock) : Inodes :=
  Function.update inodes ino (InodeStore.extended (inodes ino) offset.toNat data)

def taken (inodes : Inodes) : Nat := ∑ ino : Fin MAX_INODES, (inodes (.ofNat ino)).length

end Inodes

def CAPACITY : Nat := 12238

def diskFull : Stop := .fatdisk (.panic "fatdisk_find_free_entry: The disk is full\n")

/-- What the inodes are for. They are not cut off here. -/
def inodeArrays : Service BlockCall.Reply Stop Inodes := fun call inodes =>
  match call with
  | .read ino offset => .done (if ino.toNat < MAX_INODES then (inodes ino)[offset.toNat]? else none) inodes
  | .write ino offset data =>
    if ino.toNat < MAX_INODES then
      if (inodes.write ino offset data).taken ≤ CAPACITY then .done true (inodes.write ino offset data)
        else .halted diskFull inodes
    else .done false inodes
  | .getsize ino => .done (if ino.toNat < MAX_INODES then some (.ofNat (inodes ino).length) else none) inodes
  | .setsize .. => .done false inodes

section Arrays
variable {inodes : Inodes} {ino offset : UInt32} {data : DataBlock}

theorem inodeArrays_write (known : ino.toNat < MAX_INODES) (room : (inodes.write ino offset data).taken ≤ CAPACITY) :
    inodeArrays (.write ino offset data) inodes = .done true (inodes.write ino offset data) :=
      (if_pos known).trans (if_pos room)

theorem inodeArrays_full (known : ino.toNat < MAX_INODES) (full : ¬ (inodes.write ino offset data).taken ≤ CAPACITY) :
    inodeArrays (.write ino offset data) inodes = .halted diskFull inodes := (if_pos known).trans (if_neg full)

theorem inodeArrays_unknown (unknown : ¬ ino.toNat < MAX_INODES) :
    inodeArrays (.write ino offset data) inodes = .done false inodes := if_neg unknown

end Arrays

/-- Writes for which the number of blocks is an `unsigned int`, and no new sizes. -/
def Lengthens : BlockCall → Prop
  | .write _ offset _ => offset.toNat + 1 < 2 ^ 32
  | .setsize .. => False
  | _ => True

theorem ino_inside {ino : UInt32} (known : ino.toNat < MAX_INODES) :
    UInt32.ofNat (⟨ino.toNat, known⟩ : Fin MAX_INODES) = ino := UInt32.ofNat_toNat

theorem Inodes.length_le {inodes : Inodes} {ino : UInt32} (known : ino.toNat < MAX_INODES) :
    (inodes ino).length ≤ inodes.taken := by
  have one := Finset.single_le_sum (f := fun ino : Fin MAX_INODES => (inodes (.ofNat ino)).length)
    (fun _ _ => Nat.zero_le _)
    (Finset.mem_univ ⟨ino.toNat, known⟩)
  dsimp only at one
  rwa [ino_inside known] at one

theorem Inodes.taken_write {inodes : Inodes} {ino : UInt32} (known : ino.toNat < MAX_INODES) (offset : UInt32)
    (data : DataBlock) :
    (inodes.write ino offset data).taken = inodes.taken + (offset.toNat + 1 - (inodes ino).length) := by
  let i : Fin MAX_INODES := ⟨ino.toNat, known⟩
  have number : ∀ j : Fin MAX_INODES, (UInt32.ofNat j).toNat = j := fun j =>
    UInt32.toNat_ofNat_of_lt' (Nat.lt_trans j.isLt (by decide))
  have sizes : ∀ j : Fin MAX_INODES, (inodes.write ino offset data (.ofNat j)).length =
      Function.update (fun j : Fin MAX_INODES => (inodes (.ofNat j)).length) i
          (max (inodes ino).length (offset.toNat + 1)) j := by
    intro j
    unfold write
    by_cases here : j = i
    · subst here
      rw [Function.update_self, ino_inside known, Function.update_self, InodeStore.extended_length]
    · have apart : UInt32.ofNat j ≠ ino := fun same =>
        here (Fin.ext ((number j).symm.trans (congrArg UInt32.toNat same)))
      rw [Function.update_of_ne here, Function.update_of_ne apart]
  have whole := Finset.sum_update_of_mem (Finset.mem_univ i) (fun j : Fin MAX_INODES => (inodes (.ofNat j)).length)
    (max (inodes ino).length (offset.toNat + 1))
  have before := Finset.sum_update_of_mem (Finset.mem_univ i)
    (fun j : Fin MAX_INODES => (inodes (.ofNat j)).length) (inodes ino).length
  have same : Function.update (fun j : Fin MAX_INODES => (inodes (.ofNat j)).length) i (inodes ino).length =
      fun j : Fin MAX_INODES => (inodes (.ofNat j)).length := by
    rw [Function.update_eq_self_iff]
    exact congrArg (fun ino => (inodes ino).length) (ino_inside known).symm
  rw [same] at before
  unfold taken
  rw [Finset.sum_congr rfl fun j _ => sizes j, whole, before]
  omega

structure Stored (g : Geometry) (calls : List Fatdisk.Call) (v : Volume) (state : State) (inodes : Inodes) : Prop where
  files : Fatdisk.Files g calls v state
  known : g.inodes = MAX_INODES
  usable : g.usable = CAPACITY + 1
  taken : v.free = inodes.taken
  length : ∀ ino : UInt32, ino.toNat < MAX_INODES → (inodes ino).length = extent (ownCalls ino calls)
  block : ∀ ino offset : UInt32, ino.toNat < MAX_INODES → offset.toNat < (inodes ino).length →
    (inodes ino).getD offset.toNat zeroBlock = toBytes (contents offset (ownCalls ino calls))

theorem toBytes_nullBlock : toBytes nullBlock = zeroBlock := by
  have zero : ∀ k < 4, (Grass.bytesOf 0).getD k 0 = 0 := by decide
  funext i
  exact zero _ (Nat.mod_lt _ (by decide))

namespace Stored
variable {g : Geometry} {calls : List Fatdisk.Call} {v : Volume} {state : State} {inodes : Inodes} {ino : UInt32}

theorem read (stored : Stored g calls v state inodes) (known : ino.toNat < MAX_INODES) (offset : UInt32) :
    ∃ found, fatdiskRead ino offset state = .done found state ∧ found.map toBytes = (inodes ino)[offset.toNat]? := by
  refine ⟨_, stored.files.read (stored.known ▸ known) offset, ?_⟩
  rw [← stored.length ino known]
  by_cases inside : offset.toNat < (inodes ino).length
  · have held := stored.block ino offset known inside
    rw [List.getD_eq_getElem?_getD, List.getElem?_eq_getElem inside] at held
    rw [if_pos inside, List.getElem?_eq_getElem inside]
    exact congrArg some held.symm
  · rw [if_neg inside, List.getElem?_eq_none (Nat.not_lt.mp inside)]
    rfl

/-- A write for which there is room. -/
theorem write (stored : Stored g calls v state inodes) (known : ino.toNat < MAX_INODES) {offset : UInt32}
    (data : DataBlock)
    (room : (inodes.write ino offset data).taken ≤ CAPACITY) :
    ∃ w after, fatdiskWrite ino offset (ofBytes data) state = .done 0 after ∧
      Stored g (calls ++ [.write ino offset (ofBytes data)]) w after (inodes.write ino offset data) := by
  have inside : ino.toNat < g.inodes := stored.known ▸ known
  have size : v.nblocks ino.toNat = (inodes ino).length :=
    (stored.files.size ino inside).trans (stored.length ino known).symm
  rw [Inodes.taken_write known] at room
  have few := @Inodes.length_le inodes _ known
  have fits : offset.toNat < 2 ^ 31 - 1 := by
    unfold CAPACITY at room
    omega
  have enough : v.free + (offset.toNat + 1 - v.nblocks ino.toNat) < g.usable := by
    rw [stored.taken, stored.usable, size]
    omega
  obtain ⟨first, after, ran, tidy, _, _, free, _⟩ :=
    stored.files.tidy.write_fresh stored.files.fresh inside fits (ofBytes data) enough
  obtain ⟨_, w, files⟩ := stored.files.write inside fits ran
  -- the free pointer is in the super block
  have pointer : w.free = first.free := files.tidy.held.free.symm.trans tidy.held.free
  have own : ownCalls ino (calls ++ [.write ino offset (ofBytes data)]) =
      ownCalls ino calls ++ [.write ino offset (ofBytes data)] := by
    rw [ownCalls_snoc]
    exact if_pos rfl
  have others : ∀ other, other ≠ ino → ownCalls other (calls ++ [.write ino offset (ofBytes data)]) =
      ownCalls other calls := by
    intro other different
    rw [ownCalls_snoc]
    exact if_neg different.symm
  refine ⟨w, after, ran, files, stored.known, stored.usable, ?_, fun other here => ?_,
    fun other position here below => ?_⟩
  · rw [pointer, free, Inodes.taken_write known, stored.taken, size]
  · unfold Inodes.write
    by_cases same : other = ino
    · subst same
      rw [own, extent_write, Function.update_self, InodeStore.extended_length, stored.length other known]
    · rw [others other same, Function.update_of_ne same, stored.length other here]
  · unfold Inodes.write at below ⊢
    by_cases same : other = ino
    · subst same
      rw [Function.update_self, InodeStore.extended_length] at below
      rw [own, Function.update_self, InodeStore.extended_getD, contents, lastWritten_write]
      by_cases written : offset = position
      · rw [if_pos written, if_pos (congrArg UInt32.toNat written.symm), Option.getD_some, toBytes_ofBytes]
      · rw [if_neg written, if_neg fun equal => written (UInt32.toNat_inj.mp equal).symm]
        by_cases old : position.toNat < (inodes other).length
        · exact stored.block other position known old
        · rw [lastWritten_past _ _ (by rw [← stored.length other known]; omega), List.getD_eq_getElem?_getD,
            List.getElem?_eq_none (Nat.not_lt.mp old), Option.getD_none, Option.getD_none, toBytes_nullBlock]
    · rw [Function.update_of_ne same] at below ⊢
      rw [others other same]
      exact stored.block other position here below

theorem write_full (stored : Stored g calls v state inodes) (known : ino.toNat < MAX_INODES) {offset : UInt32}
    (small : offset.toNat + 1 < 2 ^ 32)
    (data : DataBlock) (full : ¬ (inodes.write ino offset data).taken ≤ CAPACITY) :
    ∃ stopped, fatdiskWrite ino offset (ofBytes data) state =
      .halted (.panic "fatdisk_find_free_entry: The disk is full\n") stopped := by
  have inside : ino.toNat < g.inodes := stored.known ▸ known
  have size : v.nblocks ino.toNat = (inodes ino).length :=
    (stored.files.size ino inside).trans (stored.length ino known).symm
  rw [Inodes.taken_write known] at full
  have none : g.usable ≤ v.free + (offset.toNat + 1 - v.nblocks ino.toNat) := by
    rw [stored.taken, stored.usable, size]
    omega
  have ran := stored.files.tidy.write inside small (ofBytes data)
    (stored.files.tidy.kept.clean_fresh stored.files.fresh _ _)
  rw [Volume.writeBlock, stored.files.tidy.kept.grow_full stored.files.fresh none] at ran
  exact ran

end Stored

theorem volume_inodes : Simulates Lengthens (fun s t => ∃ g calls v, Stored g calls v s t) volume inodeArrays := by
  rintro call lengthens state inodes ⟨g, calls, v, stored⟩
  cases call with
  | read ino offset =>
    unfold volume inodeArrays inInode
    dsimp only
    by_cases big : MAX_INODES ≤ ino.toNat
    · rw [if_pos big, if_neg (Nat.not_lt.mpr big)]
      exact ⟨rfl, g, calls, v, stored⟩
    · obtain ⟨found, ran, same⟩ := stored.read (Nat.lt_of_not_le big) offset
      have renamed : (fatdiskRead ino offset).renameHalts Stop.fatdisk state = .done found state := by
        unfold Prog.renameHalts
        rw [ran]
      rw [if_neg big, if_pos (Nat.lt_of_not_le big), Prog.bind_done renamed]
      exact ⟨same, g, calls, v, stored⟩
  | write ino offset data =>
    unfold volume inInode
    dsimp only
    by_cases big : MAX_INODES ≤ ino.toNat
    · rw [if_pos big, inodeArrays_unknown (Nat.not_lt.mpr big)]
      exact ⟨rfl, g, calls, v, stored⟩
    · rw [if_neg big]
      by_cases room : (inodes.write ino offset data).taken ≤ CAPACITY
      · obtain ⟨w, after, ran, still⟩ := stored.write (Nat.lt_of_not_le big) data room
        have renamed : (fatdiskWrite ino offset (ofBytes data)).renameHalts Stop.fatdisk state = .done 0 after := by
          unfold Prog.renameHalts
          rw [ran]
        rw [inodeArrays_write (Nat.lt_of_not_le big) room, Prog.bind_done renamed]
        exact ⟨rfl, g, _, w, still⟩
      · obtain ⟨stopped, ran⟩ := stored.write_full (Nat.lt_of_not_le big) lengthens data room
        have renamed : (fatdiskWrite ino offset (ofBytes data)).renameHalts Stop.fatdisk state =
            .halted diskFull stopped := by
          unfold Prog.renameHalts
          rw [ran]
          rfl
        rw [inodeArrays_full (Nat.lt_of_not_le big) room, Prog.bind_halted renamed]
        rfl
  | getsize ino =>
    unfold volume inodeArrays inInode
    dsimp only
    by_cases big : MAX_INODES ≤ ino.toNat
    · rw [if_pos big, if_neg (Nat.not_lt.mpr big)]
      exact ⟨rfl, g, calls, v, stored⟩
    · have known := Nat.lt_of_not_le big
      have ran := stored.files.nblocks (show ino.toNat < g.inodes from stored.known ▸ known)
      have renamed : (fatdiskNblocks ino).renameHalts Stop.fatdisk state =
          .done (extent (ownCalls ino calls)) state := by
        unfold Prog.renameHalts
        rw [ran]
      rw [if_neg big, if_pos known, Prog.bind_done renamed, stored.length ino known]
      refine ⟨congrArg some ?_, g, calls, v, stored⟩
      exact ofInt_natCast _
  | setsize ino nblocks => exact lengthens.elim

/-- A volume that is blank when the server starts. -/
theorem files_alike {α : Type} {client : Effect BlockCall.Reply Stop α}
    (lengthens : client.Uses Lengthens fun _ => True) {state : State}
    (size : state.below.size = FILE_BLOCKS) (blank : ∀ position, state.below.block position = nullBlock) :
    (files client state).Alike (fun s t => ∃ g calls v, Stored g calls v s t) (client.run inodeArrays fun _ => []) := by
  have room : (inodeblocksFor (.ofNat MAX_INODES)).toNat + 2 ≤ state.below.size.toNat := by
    rw [size]
    decide
  obtain ⟨_, after, ran, _⟩ := fatdiskCreate_run (by rw [blank]; rfl) room
  obtain ⟨g, formats, files⟩ := files_created blank ran
  have inodeblocks : g.inodeblocks = 1 := formats.inodeblocks.trans (by decide)
  have sized : g.size = 12288 := by
    rw [formats.size, size]
    rfl
  have usable : g.usable = CAPACITY + 1 := by
    have tight := formats.tight
    have filled := formats.filled
    have even := formats.even
    have covered := g.covered
    have within := g.within
    change _ = 12239
    omega
  have start : Stored g [] (formatted g state.below.block) after fun _ => [] := by
    refine ⟨files, ?_, usable, ?_, fun _ _ => rfl, fun _ _ _ below => absurd below (Nat.not_lt_zero _)⟩
    · rw [Geometry.inodes, inodeblocks]
      rfl
    · unfold Inodes.taken
      exact (Finset.sum_eq_zero fun _ _ => rfl).symm
  have renamed : (fatdiskCreate (.ofNat MAX_INODES)).renameHalts Stop.fatdisk state = .done 0 after := by
    unfold Prog.renameHalts
    rw [ran]
  have created : create state = .done () after := Prog.bind_done renamed
  unfold BlockStack.files
  rw [Prog.bind_done created]
  exact volume_inodes.run lengthens _ _ ⟨g, [], _, start⟩

/-- A client that writes a block at offset 1 of an inode and reads the gap before it. -/
def gapClient : Effect BlockCall.Reply Stop (Option DataBlock) :=
  call (.write 7 1 fun _ => 9) >>= fun _ => call (.read 7 0)

theorem gapClient_lengthens : gapClient.Uses Lengthens fun _ => True :=
  ⟨show (1 : UInt32).toNat + 1 < 2 ^ 32 by decide, fun _ => ⟨trivial, fun _ => trivial⟩⟩

theorem gapClient_run : gapClient.run inodeArrays
    (fun _ => []) = .done (some zeroBlock) (Inodes.write (fun _ => []) 7 1 fun _ => 9) := by
  have known : (7 : UInt32).toNat < MAX_INODES := by decide
  have room : (Inodes.write (fun _ => []) 7 1 fun _ => 9).taken ≤ CAPACITY := by
    rw [Inodes.taken_write known, show Inodes.taken (fun _ => []) = 0 from Finset.sum_eq_zero fun _ _ => rfl]
    decide
  have gap : Inodes.write (fun _ => []) 7 1 (fun _ => 9) 7 = [zeroBlock, fun _ => 9] := Function.update_self ..
  have wrote : (call (.write 7 1 fun _ => 9) : Effect BlockCall.Reply Stop _).run inodeArrays (fun _ => []) =
      .done true (Inodes.write (fun _ => []) 7 1 fun _ => 9) := by
    rw [call, Effect.run_perform, inodeArrays_write known room]
  have found : (call (.read 7 0) : Effect BlockCall.Reply Stop _).run inodeArrays (Inodes.write
    (fun _ => []) 7 1 fun _ => 9) =
      .done (some zeroBlock) (Inodes.write (fun _ => []) 7 1 fun _ => 9) := by
    rw [call, Effect.run_perform, inodeArrays]
    rw [if_pos known, gap]
    rfl
  unfold gapClient
  rw [Effect.run_bind, Prog.bind_done wrote, found]

theorem gapClient_files {state : State} (size : state.below.size = FILE_BLOCKS)
    (blank : ∀ position, state.below.block position = nullBlock) :
    ∃ last, files gapClient state = .done (some zeroBlock) last := by
  have alike := files_alike gapClient_lengthens size blank
  rw [gapClient_run] at alike
  obtain ⟨last, ran, _⟩ := alike.done_of
  exact ⟨last, ran⟩

end Egos.BlockStack
