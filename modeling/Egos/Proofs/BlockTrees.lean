import Egos.Proofs.BlockInodes
import Egos.Proofs.TreediskFiles

/-! The two file systems that the virtual block server can be built with. Their clients cannot
tell them apart until one of them is full. -/

namespace Egos.BlockStack
open Library
open Files (DataBlock InodeStore zeroBlock)
open BlockClient (BlockCall)
open Disk (Block nullBlock)
open Blkfile (MAX_INODES)
open Treedisk (treediskCreate treediskInit treediskRead treediskWrite treediskNblocks treediskSetsize)

/-! The tree file system below the server, where HW_FS is not set. -/

abbrev TreeState := Treedisk.State .large

abbrev Tree (α : Type) := Prog TreeState Stop α

def treedisk {α : Type} (method : Treedisk.Tree .large α) : Tree α := method.renameHalts .treedisk

def inTree {α : Type} (opened : Opened) (ino : UInt32) (refused : α) (method : Tree α) : Tree α :=
  inInode ino refused (if opened (.ofNat MAX_INODES ino.toNat) then method else .halt .nullPointer)

/-- A result that the code has as an `int`, -1 for `none`. -/
def resultOf : Option UInt32 → Int
  | some n => n.toInt32.toInt
  | none => -1

def treeVolume (opened : Opened) : Service BlockCall.Reply Stop TreeState := fun call =>
  match call with
  | .read ino offset => inTree opened ino none do
    let answer ← treedisk (treediskRead ino offset nullBlock)
    return if answer.1 < 0 then none else some (toBytes answer.2)
  | .write ino offset data => inTree opened ino false do
      return decide (0 ≤ (← treedisk (treediskWrite ino offset (ofBytes data))))
  | .getsize ino => inTree opened ino none do return some (.ofInt (resultOf (← treedisk (treediskNblocks ino))))
  | .setsize ino nblocks => inTree opened ino false do
      return decide (0 ≤ resultOf (← treedisk (treediskSetsize ino nblocks)))

/-- block_init("virt", below), and a client of the server. -/
def treeFiles {α : Type} (client : Effect BlockCall.Reply Stop α) : Tree α := do
  let result ← treedisk (treediskCreate (.ofNat MAX_INODES))
  if result < 0 then .halt (.panic "block_init: can't create treedisk file system")
  else
    let opened ← (List.finRange MAX_INODES).foldlM (fun (opened : Opened) (inode : Fin MAX_INODES) => do
      let success ← treedisk (treediskInit (.ofNat inode))
      pure (Function.update opened inode success)) fun _ => false
    client.run (treeVolume opened)

/-! Arrays of blocks that are never full. -/

def plainArrays : Service BlockCall.Reply Stop Inodes := fun call inodes =>
  match call with
  | .read ino offset => .done (if ino.toNat < MAX_INODES then (inodes ino)[offset.toNat]? else none) inodes
  | .write ino offset data => if ino.toNat < MAX_INODES then .done true (inodes.write ino offset data)
      else .done false inodes
  | .getsize ino => .done (if ino.toNat < MAX_INODES then some (.ofNat (inodes ino).length) else none) inodes
  | .setsize .. => .done false inodes

section Arrays
variable {inodes : Inodes} {ino offset : UInt32} {data : DataBlock}

theorem plainArrays_write (known : ino.toNat < MAX_INODES) :
    plainArrays (.write ino offset data) inodes = .done true (inodes.write ino offset data) :=
  if_pos known

theorem plainArrays_unknown (unknown : ¬ ino.toNat < MAX_INODES) :
    plainArrays (.write ino offset data) inodes = .done false inodes := if_neg unknown

end Arrays

theorem arrays_until :
    SimulatesUntil (fun _ => True) Eq diskFull (fun inodes => CAPACITY < inodes.taken) inodeArrays plainArrays where
  step := by
    rintro call - inodes _ rfl
    cases call with
    | read ino offset => exact .inl ⟨rfl, rfl⟩
    | getsize ino => exact .inl ⟨rfl, rfl⟩
    | setsize ino nblocks => exact .inl ⟨rfl, rfl⟩
    | write ino offset data =>
      by_cases known : ino.toNat < MAX_INODES
      · rw [plainArrays_write known]
        by_cases room : (inodes.write ino offset data).taken ≤ CAPACITY
        · rw [inodeArrays_write known room]
          exact .inl ⟨rfl, rfl⟩
        · refine .inr ⟨⟨_, inodeArrays_full known room⟩, fun reply last ran => ?_⟩
          cases ran
          exact Nat.lt_of_not_le room
      · rw [plainArrays_unknown known, inodeArrays_unknown known]
        exact .inl ⟨rfl, rfl⟩
  stays := by
    rintro call - inodes reply last big ran
    cases call with
    | read ino offset | getsize ino | setsize ino nblocks =>
      cases ran
      exact big
    | write ino offset data =>
      by_cases known : ino.toNat < MAX_INODES
      · rw [plainArrays_write known] at ran
        cases ran
        rw [Inodes.taken_write known]
        omega
      · rw [plainArrays_unknown known] at ran
        cases ran
        exact big

/-! Trees of blocks. -/

/-- Blocks that both file systems can have, and no new sizes. -/
def Low : BlockCall → Prop
  | .write _ offset _ => offset.toNat < 2 ^ 27
  | .setsize .. => False
  | _ => True

theorem Low.lengthens {call : BlockCall} (low : Low call) : Lengthens call := by
  cases call with
  | write ino offset data =>
    change offset.toNat < 2 ^ 27 at low
    change offset.toNat + 1 < 2 ^ 32
    omega
  | read ino offset => trivial
  | getsize ino => trivial
  | setsize ino nblocks => exact low.elim

def treeFull : Stop := .treedisk Treedisk.full

structure Grown (files : UInt32 → Treedisk.File .large) (s : TreeState) (inodes : Inodes) : Prop where
  held : Treedisk.Files 1 files s
  length : ∀ ino : UInt32, ino.toNat < MAX_INODES → (inodes ino).length = (files ino).extent
  block : ∀ ino offset : UInt32, ino.toNat < MAX_INODES →
    (inodes ino).getD offset.toNat zeroBlock = toBytes ((files ino).block offset)

private abbrev allInodes : Opened := fun _ => true

private theorem inTree_inside {α : Type} {ino : UInt32} (known : ino.toNat < MAX_INODES) (refused : α)
    (method : Tree α) :
    inTree allInodes ino refused method = method := by
  unfold inTree inInode
  rw [if_neg (Nat.not_le.mpr known), if_pos rfl]

private theorem inTree_past {α : Type} {ino : UInt32} (unknown : ¬ ino.toNat < MAX_INODES) (refused : α)
    (method : Tree α) :
    inTree allInodes ino refused method = pure refused := if_pos (Nat.not_lt.mp unknown)

private theorem treedisk_done {α : Type} {method : Treedisk.Tree .large α} {s after : TreeState} {value : α}
    (ran : method s = .done value after) :
    treedisk method s = .done value after := by
  unfold treedisk Prog.renameHalts
  rw [ran]

private theorem treedisk_halted {α : Type} {method : Treedisk.Tree .large α} {s after : TreeState}
    {reason : Treedisk.Halt}
    (ran : method s = .halted reason after) : treedisk method s = .halted (.treedisk reason) after := by
  unfold treedisk Prog.renameHalts
  rw [ran]

theorem ofInt_toInt (n : UInt32) : UInt32.ofInt n.toInt32.toInt = n := by
  have value : n.toInt32.toInt = if 2 * n.toNat < 2 ^ 32 then (n.toNat : Int) else n.toNat - 2 ^ 32 :=
    n.toBitVec.toInt_eq_toNat_cond
  have small := n.toNat_lt
  have wraps : (n.toInt32.toInt % 2 ^ 32).toNat = n.toNat := by
    rw [value]
    split_ifs <;> omega
  unfold UInt32.ofInt
  rw [wraps, UInt32.ofNat_toNat]

private theorem written_block (file : Treedisk.File .large) (offset position : UInt32) (data : DataBlock) :
    toBytes ((file.write offset (ofBytes data)).block position) = if position = offset then data
        else toBytes (file.block position) := by
  let block : Treedisk.Block .large := ofBytes data
  by_cases here : position = offset
  · rw [if_pos here, here]
    have written : Function.update file.block offset block offset = block := Function.update_self ..
    exact (congrArg toBytes written).trans (toBytes_ofBytes data)
  · rw [if_neg here]
    have kept : Function.update file.block offset block position = file.block position := Function.update_of_ne here ..
    exact congrArg toBytes kept

theorem treeVolume_until :
    SimulatesUntil Low (fun s inodes => ∃ files, Grown files s inodes) treeFull
        (fun _ => True) (treeVolume allInodes) plainArrays where
  step := by
    rintro call low s inodes ⟨files, grown⟩
    cases call with
    | read ino offset =>
      left
      unfold treeVolume plainArrays
      dsimp only
      by_cases known : ino.toNat < MAX_INODES
      · have read := treedisk_done (grown.held.read known offset nullBlock)
        rw [inTree_inside known, if_pos known, Prog.bind_done read]
        refine ⟨?_, files, grown⟩
        rw [← grown.length ino known]
        by_cases inside : offset.toNat < (inodes ino).length
        · have here := grown.block ino offset known
          rw [List.getD_eq_getElem?_getD, List.getElem?_eq_getElem inside] at here
          rw [if_pos inside, List.getElem?_eq_getElem inside]
          exact congrArg some here.symm
        · rw [if_neg inside, List.getElem?_eq_none (Nat.not_lt.mp inside)]
          rfl
      · rw [inTree_past known, if_neg known]
        exact ⟨rfl, files, grown⟩
    | getsize ino =>
      left
      unfold treeVolume plainArrays
      dsimp only
      by_cases known : ino.toNat < MAX_INODES
      · obtain ⟨size, extent, ran⟩ := grown.held.nblocks known
        rw [inTree_inside known, if_pos known, Prog.bind_done (treedisk_done ran)]
        refine ⟨congrArg some ?_, files, grown⟩
        rw [grown.length ino known, ← extent, UInt32.ofNat_toNat]
        exact ofInt_toInt size
      · rw [inTree_past known, if_neg known]
        exact ⟨rfl, files, grown⟩
    | setsize ino nblocks => exact low.elim
    | write ino offset data =>
      by_cases known : ino.toNat < MAX_INODES
      · have wrote := grown.held.write known low (ofBytes data)
        unfold treeVolume
        dsimp only
        rw [plainArrays_write known, inTree_inside known]
        cases ran : @treediskWrite .large ino offset (ofBytes data) s with
        | halted reason after =>
          obtain rfl := wrote.halted ran
          exact .inr ⟨⟨after, Prog.bind_halted (treedisk_halted ran)⟩, fun _ _ _ => trivial⟩
        | done code after =>
          obtain ⟨rfl, held⟩ := wrote.done ran
          rw [Prog.bind_done (treedisk_done ran)]
          refine .inl ⟨rfl, _, held, fun other inside => ?_, fun other position inside => ?_⟩
          · unfold Inodes.write
            by_cases same : other = ino
            · subst same
              rw [Function.update_self, Function.update_self, InodeStore.extended_length, grown.length other known]
              rfl
            · rw [Function.update_of_ne same, Function.update_of_ne same, grown.length other inside]
          · unfold Inodes.write
            by_cases same : other = ino
            · subst same
              rw [Function.update_self, Function.update_self, InodeStore.extended_getD, written_block,
                grown.block other position known]
              simp only [UInt32.toNat_inj]
            · rw [Function.update_of_ne same, Function.update_of_ne same, grown.block other position inside]
      · unfold treeVolume
        dsimp only
        rw [plainArrays_unknown known, inTree_past known]
        exact .inl ⟨rfl, files, grown⟩
  stays := fun _ _ _ _ _ _ _ => trivial

/-! Blank volumes. -/

def blankFat : Fatdisk.State := { below := volumeOf fun _ => zeroBlock, fatblocks := 0, failed := false }

theorem FILE_BLOCKS_reported : FILE_BLOCKS.toNat < 2 ^ 31 := by decide

def blankTree : TreeState :=
  { below := { size := FILE_BLOCKS, block := fun _ => Treedisk.nullBlock, reported := FILE_BLOCKS_reported },
    freed := [] }

private theorem opens_trees {nodes : List UInt32} {s : TreeState} (volume : Treedisk.Volume 1 nodes 0 s)
    (inodes : List (Fin MAX_INODES)) (opened : Opened) :
    (inodes.foldlM (fun (opened : Opened) (inode : Fin MAX_INODES) => do
      let success ← treedisk (treediskInit (.ofNat inode))
      pure (Function.update opened inode success)) opened : Tree Opened) s =
        .done (fun inode => if inode ∈ inodes then true else opened inode) s := by
  induction inodes generalizing opened with
  | nil =>
    have same : (fun inode => if inode ∈ ([] : List (Fin MAX_INODES)) then true else opened inode) = opened := by simp
    rw [same]
    rfl
  | cons inode rest ih =>
    have known : (UInt32.ofNat inode).toNat < (1 : UInt32).toNat * Treedisk.BlockSize.large.inodes := by
      rw [UInt32.toNat_ofNat']
      exact lt_of_le_of_lt (Nat.mod_le _ _) inode.isLt
    have opens : treediskInit (.ofNat inode) s = .done true s := by
      unfold treediskInit
      rw [Prog.bind_done (volume.getSnapshot_returns known)]
      rfl
    rw [List.foldlM_cons, Prog.bind_assoc, Prog.bind_done (treedisk_done opens)]
    refine (ih (Function.update opened inode true)).trans ?_
    congr 1
    funext other
    by_cases same : other = inode
    · subst same
      simp
    · simp [same]

section Blank
variable {α : Type} {client : Effect BlockCall.Reply Stop α} {state : Fatdisk.State} {s : TreeState}

private theorem treeFiles_created (size : s.below.size = FILE_BLOCKS)
    (blank : ∀ b, s.below.block b = Treedisk.nullBlock) :
    ∃ created : TreeState, Grown (fun _ => .empty) created (fun _ => []) ∧
        treeFiles client s = client.run (treeVolume allInodes) created := by
  have one : Treedisk.inodeBlocks .large (.ofNat MAX_INODES) = 1 := by decide
  have room : (Treedisk.inodeBlocks .large (.ofNat MAX_INODES)).toNat + 2 ≤ s.below.size.toNat := by
    rw [size, one]
    decide
  have clear : Treedisk.nInodeblocks (s.mem 0) = 0 := congrFun (blank 0) _
  obtain ⟨code, created, ran, rfl, nodes, formatted⟩ := (Treedisk.create_ensures room clear).total
  rw [one] at formatted
  refine ⟨created, ⟨formatted.files, fun _ _ => rfl, fun _ _ _ => toBytes_nullBlock.symm⟩, ?_⟩
  unfold treeFiles
  rw [Prog.bind_done (treedisk_done ran), if_neg (by decide), Prog.bind_done (opens_trees formatted.volume _ _)]
  exact congrArg (fun opened => client.run (treeVolume opened) created) (funext
    fun inode => if_pos (List.mem_finRange inode))

/-- On blank volumes of the same size the two file systems do the same for a client, unless one of them is full. -/
theorem file_systems_agree (low : client.Uses Low fun _ => True)
    (fatBlank : state.below.size = FILE_BLOCKS ∧ ∀ position, state.below.block position = nullBlock)
    (treeBlank : s.below.size = FILE_BLOCKS ∧ ∀ b, s.below.block b = Treedisk.nullBlock) :
    (∃ last, files client state = .halted diskFull last) ∨ (∃ last, treeFiles client s = .halted treeFull last) ∨
      (files client state).Alike (fun _ _ => True) (treeFiles client s) := by
  have lengthens : client.Uses Lengthens fun _ => True := low.mono (fun _ => Low.lengthens) fun _ => id
  have fat := files_alike lengthens fatBlank.1 fatBlank.2
  obtain ⟨created, grown, runs⟩ := @treeFiles_created _ client s treeBlank.1 treeBlank.2
  rcases arrays_until.run client.uses_all (s := fun _ => []) (t := fun _ => []) rfl with one | ⟨⟨_, full⟩, _⟩
  · rcases treeVolume_until.run low ⟨_, grown⟩ with other | ⟨⟨last, full⟩, _⟩
    · rw [runs]
      exact .inr (.inr (((fat.trans one).trans other.symm).mono fun _ _ _ => trivial))
    · exact .inr (.inl ⟨last, runs.trans full⟩)
  · rw [full] at fat
    obtain ⟨last, halted⟩ := fat.symm.of_halted
    exact .inl ⟨last, halted⟩

end Blank

/-- Where one file system returns, so does the other, unless it is full. -/
theorem other_returns {α : Type} {client : Effect BlockCall.Reply Stop α} {state last : Fatdisk.State}
    {s : TreeState} {value : α}
    (ran : files client state = .done value last) (agree : (∃ last, files client state = .halted diskFull last) ∨
      (∃ last, treeFiles client s = .halted treeFull last) ∨
        (files client state).Alike (fun _ _ => True) (treeFiles client s)) :
    (∃ last, treeFiles client s = .halted treeFull last) ∨ ∃ last, treeFiles client s = .done value last := by
  rcases agree with ⟨other, stopped⟩ | stopped | same
  · cases ran.symm.trans stopped
  · exact .inl stopped
  · rw [ran] at same
    obtain ⟨other, ended, _⟩ := same.of_done
    exact .inr ⟨other, ended⟩

/-- The FAT file system is not full. -/
theorem file_systems_agree_gap : (∃ last, files gapClient blankFat = .done (some zeroBlock) last) ∧
    ((∃ last, treeFiles gapClient blankTree = .halted treeFull last) ∨
        ∃ last, treeFiles gapClient blankTree = .done (some zeroBlock) last) := by
  have size : blankFat.below.size = FILE_BLOCKS := rfl
  have blank : ∀ position, blankFat.below.block position = nullBlock := by
    intro position
    change ofBytes zeroBlock = _
    rw [← toBytes_nullBlock, ofBytes_toBytes]
  obtain ⟨last, ran⟩ := gapClient_files size blank
  have low : gapClient.Uses Low fun _ => True :=
    ⟨show (1 : UInt32).toNat < 2 ^ 27 by decide, fun _ => ⟨trivial, fun _ => trivial⟩⟩
  exact ⟨⟨last, ran⟩, other_returns ran (file_systems_agree low ⟨size, blank⟩ ⟨rfl, fun _ => rfl⟩)⟩

end Egos.BlockStack
