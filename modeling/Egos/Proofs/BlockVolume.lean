import Egos.Proofs.BlockBytes
import Egos.Proofs.BlockLayers
import Egos.Proofs.BlockServed
import Egos.Proofs.FatdiskRestart
import Egos.Proofs.FatdiskSteps

/-! The virtual block server on an array of blocks is the FAT file system on that array. -/

namespace Egos.BlockStack
open Library Files Blocksvr BlockClient Fatdisk
open Disk (Block BlockNo Method Store nullBlock clockdisk fatAccess store)
open Clockdisk (arrayStore arrayStore_isArray Cached)
open Partdisk (DISK_SIZE PG_DEV_BLOCKS)
open Blkfile (MAX_INODES)
open Grass (Pid)

/-- What a partition is for: an array of blocks that cannot be resized. -/
def array (size : UInt32) : Service BlockCall.Reply Stop (Nat → DataBlock) := fun call blocks =>
  match call with
  | .read _ offset => .done (if offset < size then some (blocks offset.toNat) else none) blocks
  | .write _ offset data => if offset < size then .done true (Function.update blocks offset.toNat data)
      else .done false blocks
  | .getsize _ => .done (some size) blocks
  | .setsize .. => .done false blocks

def FILE_BLOCKS : UInt32 := DISK_SIZE - PG_DEV_BLOCKS

def volumeOf (blocks : Nat → DataBlock) : Store :=
  { size := FILE_BLOCKS, block := fun n => ofBytes (blocks n), reported := by decide }

theorem volumeOf_update (blocks : Nat → DataBlock) (n : Nat) (block : Block) :
    volumeOf (Function.update blocks n (toBytes block)) =
        { volumeOf blocks with block := Function.update (volumeOf blocks).block n block } := by
  unfold volumeOf
  congr 1
  funext m
  by_cases here : m = n
  · subst here
    rw [Function.update_self, Function.update_self, ofBytes_toBytes]
  · rw [Function.update_of_ne here, Function.update_of_ne here]

def Method.Fixed (method : Method) : Prop := ∀ nblocks, method ≠ .setsize nblocks

section Array
variable {size ino offset : UInt32} {blocks : Nat → DataBlock}

theorem array_read (inside : offset < size) :
    array size (.read ino offset) blocks = .done (some (blocks offset.toNat)) blocks := by
  change Outcome.done (if offset < size then some (blocks offset.toNat) else none) blocks = _
  rw [if_pos inside]

theorem array_read_past (past : ¬ offset < size) : array size (.read ino offset) blocks = .done none blocks := by
  change Outcome.done (if offset < size then some (blocks offset.toNat) else none) blocks = _
  rw [if_neg past]

theorem array_write (inside : offset < size) (data : DataBlock) :
    array size (.write ino offset data) blocks = .done true (Function.update blocks offset.toNat data) := if_pos inside

theorem array_write_past (past : ¬ offset < size) (data : DataBlock) :
    array size (.write ino offset data) blocks = .done false blocks := if_neg past

end Array

/-! The same of a store that is an array. -/

section ArrayStore
variable {ε : Type} {s : Store} {offset : BlockNo}

theorem store_read (inside : offset < s.size) (buffer : Block) :
    (store arrayStore (.read offset buffer) s : Outcome _ ε _) = .done (0, s.block offset.toNat) s := by
  simp only [store, arrayStore, if_pos inside]

theorem store_read_past (past : ¬ offset < s.size) (buffer : Block) :
    (store arrayStore (.read offset buffer) s : Outcome _ ε _) = .done (-1, buffer) s := by
  simp only [store, arrayStore, if_neg past]

theorem store_write (inside : offset < s.size) (block : Block) :
    (store arrayStore (.write offset block) s : Outcome _ ε _) =
        .done 0 { s with block := Function.update s.block offset.toNat block } := by
  simp only [store, arrayStore, Store.write, if_pos inside]

theorem store_write_past (past : ¬ offset < s.size) (block : Block) :
    (store arrayStore (.write offset block) s : Outcome _ ε _) = .done (-1) s := by
  simp only [store, arrayStore, Store.write, if_neg past]

end ArrayStore

theorem protdisk_simulates (ino : UInt32) :
    Simulates Method.Fixed (fun s t => t = volumeOf s.2) ((protdisk ino).over (array FILE_BLOCKS))
        (store arrayStore) := by
  rintro method fixed ⟨own, blocks⟩ _ rfl
  cases method with
  | nblocks => exact ⟨rfl, rfl⟩
  | setsize nblocks => exact absurd rfl (fixed nblocks)
  | read offset buffer =>
    by_cases inside : offset < FILE_BLOCKS
    · have left : (protdisk ino (.read offset buffer) own).run (array FILE_BLOCKS) blocks =
          .done ((0, ofBytes (blocks offset.toNat)), own) blocks :=
        Prog.bind_done (array_read inside)
      rw [Layer.over_done left, store_read inside]
      exact ⟨rfl, rfl⟩
    · have left : (protdisk ino (.read offset buffer) own).run (array FILE_BLOCKS) blocks =
          .done ((-1, buffer), own) blocks :=
        Prog.bind_done (array_read_past inside)
      rw [Layer.over_done left, store_read_past inside]
      exact ⟨rfl, rfl⟩
  | write offset block =>
    by_cases inside : offset < FILE_BLOCKS
    · have left : (protdisk ino (.write offset block) own).run (array FILE_BLOCKS) blocks =
          .done (0, own) (Function.update blocks offset.toNat (toBytes block)) := Prog.bind_done (array_write inside _)
      rw [Layer.over_done left, store_write inside]
      exact ⟨rfl, (volumeOf_update blocks offset.toNat block).symm⟩
    · have left : (protdisk ino (.write offset block) own).run (array FILE_BLOCKS) blocks = .done (-1, own) blocks :=
        Prog.bind_done (array_write_past inside _)
      rw [Layer.over_done left, store_write_past inside]
      exact ⟨rfl, rfl⟩

theorem read_fixed (offset : BlockNo) (buffer : Block) : Method.Fixed (.read offset buffer) := fun _ same => by
  cases same

theorem write_fixed (offset : BlockNo) (block : Block) : Method.Fixed (.write offset block) := fun _ same => by
  cases same

theorem nblocks_fixed : Method.Fixed .nblocks := fun _ same => by cases same

private theorem cacheUpdate_uses {nblocks : BlockNo} [NeZero nblocks.toNat] (stop : Clockdisk.Halt → Stop)
    (offset : BlockNo) (block : Block)
    (own : Clockdisk.State Unit nblocks) :
    (Disk.cacheUpdate stop offset block own).Uses Method.Fixed fun _ => True := by
  unfold Disk.cacheUpdate
  cases Clockdisk.cacheUpdate offset block own <;> trivial

/-- The cache makes no other calls than those that are made of it. -/
theorem clockdisk_uses {nblocks : BlockNo} [NeZero nblocks.toNat] {stop : Clockdisk.Halt → Stop}
    (method : Method) (fixed : Method.Fixed method)
    (own : Clockdisk.State Unit nblocks) : (clockdisk stop method own).Uses Method.Fixed fun _ => True := by
  unfold clockdisk
  cases method with
  | nblocks => exact ⟨fixed, fun _ => trivial⟩
  | setsize size => exact ⟨fixed, fun _ => trivial⟩
  | read offset buffer =>
    dsimp only
    cases own.lookup offset with
    | some i => trivial
    | none =>
      refine ⟨fixed, fun answer => Effect.uses_ite trivial ?_⟩
      exact Effect.uses_bind (cacheUpdate_uses ..) fun _ => trivial
  | write offset block =>
    dsimp only
    cases own.lookup offset with
    | some i => exact ⟨fixed, fun result => Effect.uses_ite trivial trivial⟩
    | none =>
      refine ⟨fixed, fun result => Effect.uses_ite trivial ?_⟩
      exact Effect.uses_bind (cacheUpdate_uses ..) fun _ => trivial

theorem fatAccess_uses (access : Access) (own : BlockNo) :
    (fatAccess access own : Effect _ Stop _).Uses Method.Fixed fun _ => True := by
  cases access with
  | size => exact ⟨nblocks_fixed, fun _ => trivial⟩
  | read offset => exact ⟨read_fixed _ _, fun _ => trivial⟩
  | write offset block => exact ⟨write_fixed _ _, fun _ => trivial⟩
  | fatblocks => trivial
  | setFatblocks nFatblocks => trivial

/-- An access of the file system, with the reasons of the stack. -/
abbrev access : Service Access.Reply Stop Fatdisk.State := fun access => (Access.serve access).renameHalts .fatdisk

theorem ofInt_natCast (n : Nat) : UInt32.ofInt (n : Int) = .ofNat n := by
  have small : ((n : Int) % 2 ^ 32).toNat = n % 2 ^ 32 := by omega
  unfold UInt32.ofInt
  rw [small, UInt32.ofNat_mod_size]

theorem fatAccess_simulates :
    Simulates (fun _ => True) (fun (s : BlockNo × Store) t => t.below = s.2 ∧
        t.fatblocks = s.1) (fatAccess.over (store arrayStore)) access := by
  rintro access - ⟨fatblocks, below⟩ state ⟨rfl, rfl⟩
  cases access with
  | size =>
    refine ⟨?_, rfl, rfl⟩
    change UInt32.ofInt (state.below.size.toNat : Int) = state.below.size
    rw [ofInt_natCast, UInt32.ofNat_toNat]
  | fatblocks => exact ⟨rfl, rfl, rfl⟩
  | setFatblocks nFatblocks => exact ⟨rfl, rfl, rfl⟩
  | read offset =>
    have left : ∀ answer : Int × Block, arrayStore.read state.below offset nullBlock = answer →
        (fatAccess (.read offset) state.fatblocks).run (store arrayStore) state.below =
          (.done (if answer.1 < 0 then none else some answer.2, state.fatblocks) state.below : Outcome _ Stop _) := by
      rintro _ rfl
      rfl
    by_cases inside : offset < state.below.size
    · rw [Layer.over_done (left (0, state.below.block offset.toNat) (if_pos inside))]
      have right : Fatdisk.belowRead offset state = .done (some (state.below.block offset.toNat)) state := by
        simp only [Fatdisk.belowRead, Store.read, inside, if_true]
      unfold access Prog.renameHalts Access.serve
      simp only [right]
      exact ⟨rfl, rfl, rfl⟩
    · rw [Layer.over_done (left (-1, nullBlock) (if_neg inside))]
      have right : Fatdisk.belowRead offset state = .done none { state with failed := true } := by
        simp only [Fatdisk.belowRead, Store.read, inside, if_false]
      unfold access Prog.renameHalts Access.serve
      simp only [right]
      exact ⟨rfl, rfl, rfl⟩
  | write offset block =>
    have left : ∀ answer : Int × Store, arrayStore.write state.below offset block = answer →
        (fatAccess (.write offset block) state.fatblocks).run (store arrayStore) state.below =
          (.done (decide (0 ≤ answer.1), state.fatblocks) answer.2 : Outcome _ Stop _) := by
      rintro _ rfl
      rfl
    cases wrote : state.below.write offset block with
    | some below =>
      have served : arrayStore.write state.below offset block = (0, below) := by simp only [arrayStore, wrote]
      have right : Fatdisk.belowWrite offset block state = .done true { state with below } := by
        simp only [Fatdisk.belowWrite, wrote]
      rw [Layer.over_done (left (0, below) served)]
      unfold access Prog.renameHalts Access.serve
      simp only [right]
      exact ⟨rfl, rfl, rfl⟩
    | none =>
      have served : arrayStore.write state.below offset block = (-1, state.below) := by simp only [arrayStore, wrote]
      have right : Fatdisk.belowWrite offset block state = .done false { state with failed := true } := by
        simp only [Fatdisk.belowWrite, wrote]
      rw [Layer.over_done (left (-1, state.below) served)]
      unfold access Prog.renameHalts Access.serve
      simp only [right]
      exact ⟨rfl, rfl, rfl⟩

/-- What the file system stands on: its static variable, the cache and the array. -/
abbrev Below := BlockNo × Clockdisk.State Unit NCACHE_BLOCKS × Unit × (Nat → DataBlock)

def below : Service Access.Reply Stop Below :=
  fatAccess.over ((clockdisk .clockdisk).over ((protdisk FILE_PARTITION).over (array FILE_BLOCKS)))

/-- The cache holds blocks of the array, and the file system would find the array in the store. -/
structure Backs (s : Below) (t : Fatdisk.State) : Prop where
  below : t.below = volumeOf s.2.2.2
  fatblocks : t.fatblocks = s.1
  cached : Cached (·.size.toNat) (fun s offset => s.block offset.toNat) (s.2.1.on (volumeOf s.2.2.2))

theorem below_simulates : Simulates (fun _ => True) Backs below access := by
  have cached := (protdisk_simulates FILE_PARTITION).lift (@clockdisk_uses NCACHE_BLOCKS _ .clockdisk)
  have stored := cached.trans ((Disk.clockdisk_simulates arrayStore_isArray).restrict fun _ _ => trivial)
  have served := (stored.lift fun op _ own => fatAccess_uses op own).trans fatAccess_simulates
  refine served.congr fun s t => ?_
  constructor
  · rintro ⟨⟨fatblocks, _⟩, ⟨same, ⟨_, _⟩, ⟨rfl, rfl⟩, rfl, cached⟩, one, two⟩
    exact ⟨one, two.trans same.symm, cached⟩
  · rintro ⟨one, two, cached⟩
    exact ⟨(s.1, volumeOf s.2.2.2), ⟨rfl, (s.2.1, volumeOf s.2.2.2), ⟨rfl, rfl⟩, rfl, cached⟩, one, two⟩

/-! Opening the stores. -/

/-- A formatted volume has a store for each inode. -/
theorem fatdiskInit_opens {nInodes inode : UInt32} {state : State} (intact : Intact nInodes state)
    (known : inode.toNat < nInodes.toNat) :
    fatdiskInit inode state = .done true state := by
  have room := intact.room
  have blocks : (inodeblocksFor nInodes).toNat = (nInodes.toNat + 127) / 128 := by
    unfold inodeblocksFor
    rw [UInt32.toNat_ofNat']
    have := nInodes.toNat_lt
    exact Nat.mod_eq_of_lt (by change (_ + 128 - 1) / 128 < _; omega)
  have few : ¬ inode.toNat ≥ (nInodeblocks (state.below.block 0)).toNat * INODES_PER_BLOCK.toNat := by
    rw [intact.inodeblocks, blocks]
    change ¬ _ ≥ _ * 128
    omega
  have place : (1 + inode / INODES_PER_BLOCK).toNat = 1 + inode.toNat / 128 := by
    rw [UInt32.toNat_add, UInt32.toNat_div, UInt32.toNat_one]
    change (1 + inode.toNat / 128) % 2 ^ 32 = _
    have := inode.toNat_lt
    exact Nat.mod_eq_of_lt (by omega)
  have superblock : (0 : BlockNo).toNat < state.below.size.toNat := by
    rw [UInt32.toNat_zero]
    omega
  have inodeblock : (1 + inode / INODES_PER_BLOCK).toNat < state.below.size.toNat := by
    rw [place]
    omega
  let snapshot : Snapshot := ⟨state.below.block 0, state.below.block (1 + inode / INODES_PER_BLOCK).toNat,
    1 + inode / INODES_PER_BLOCK, inode⟩
  have taken : fatdiskGetSnapshot inode state = .done (some snapshot) state := by
    unfold fatdiskGetSnapshot
    rw [Prog.bind_done (belowRead_inside superblock)]
    simp only [UInt32.toNat_zero, few, if_false]
    rw [Prog.bind_done (belowRead_inside inodeblock)]
    rfl
  exact Prog.bind_done taken

private theorem opens_all {state : State} (intact : Intact (.ofNat MAX_INODES) state)
    (inodes : List (Fin MAX_INODES)) (opened : Opened) :
    (inodes.foldlM (fun (opened : Opened) (inode : Fin MAX_INODES) => do
      let success ← (Stepwise.fatdiskInit (.ofNat inode)).renameHalts Stop.fatdisk
      pure (Function.update opened inode success)) opened).run access state =
      (.done (fun inode => if inode ∈ inodes then true else opened inode) state : Outcome State Stop Opened) := by
  induction inodes generalizing opened with
  | nil => simp; rfl
  | cons inode rest ih =>
    have known : (UInt32.ofNat inode).toNat < (UInt32.ofNat MAX_INODES).toNat := by
      rw [UInt32.toNat_ofNat']
      exact lt_of_le_of_lt (Nat.mod_le _ _) inode.isLt
    have opens : ((Stepwise.fatdiskInit (.ofNat inode)).renameHalts Stop.fatdisk).run access state =
        .done true state := by
      rw [Effect.renameHalts_run, Stepwise.fatdiskInit_run]
      unfold Prog.renameHalts
      rw [fatdiskInit_opens intact known]
    rw [List.foldlM_cons, Effect.run_bind, Effect.run_bind, Prog.bind_assoc, Prog.bind_done opens]
    refine (ih (Function.update opened inode true)).trans ?_
    congr 1
    funext other
    by_cases same : other = inode
    · subst same
      simp
    · simp [same]

/-- What becomes of the volume when the server starts: it is formatted, or it is left as it is. -/
def create : Prog Fatdisk.State Stop Unit := do
  let _ ← (fatdiskCreate (.ofNat MAX_INODES)).renameHalts .fatdisk
  pure ()

private theorem created_done {state after : State} (ran : fatdiskCreate (.ofNat MAX_INODES) state = .done 0 after) :
    create state = .done () after := by
  have renamed : (fatdiskCreate (.ofNat MAX_INODES)).renameHalts Stop.fatdisk state = .done 0 after := by
    unfold Prog.renameHalts
    rw [ran]
  exact Prog.bind_done renamed

private theorem virtInit_done {state after : State} (ran : fatdiskCreate (.ofNat MAX_INODES) state = .done 0 after)
    (intact : Intact (.ofNat MAX_INODES) after) : virtInit.run access state = .done (fun _ => true) after := by
  have renamed : ((Stepwise.fatdiskCreate (.ofNat MAX_INODES)).renameHalts Stop.fatdisk).run access state =
      .done 0 after := by
    rw [Effect.renameHalts_run, Stepwise.fatdiskCreate_run]
    unfold Prog.renameHalts
    rw [ran]
  unfold virtInit
  rw [Effect.run_bind, Prog.bind_done renamed, if_neg (by decide)]
  exact (opens_all intact _ _).trans (congrArg (Outcome.done · after) (funext
    fun inode => if_pos (List.mem_finRange inode)))

private theorem virtInit_halted {state after : State} {reason : Fatdisk.Halt}
    (ran : fatdiskCreate (.ofNat MAX_INODES) state = .halted reason after) :
    virtInit.run access state = .halted (.fatdisk reason) after ∧ create state = .halted (.fatdisk reason) after := by
  have renamed : (fatdiskCreate (.ofNat MAX_INODES)).renameHalts Stop.fatdisk state =
      .halted (.fatdisk reason) after := by
    unfold Prog.renameHalts
    rw [ran]
  have steps : ((Stepwise.fatdiskCreate (.ofNat MAX_INODES)).renameHalts Stop.fatdisk).run access state =
      .halted (.fatdisk reason) after := by
    rw [Effect.renameHalts_run, Stepwise.fatdiskCreate_run]
    exact renamed
  unfold virtInit
  rw [Effect.run_bind]
  exact ⟨Prog.bind_halted steps, Prog.bind_halted renamed⟩

/-- The server opens all the inodes, unless the volume was made for another number of them. -/
theorem virtInit_run {state : State} (size : state.below.size = FILE_BLOCKS) :
    virtInit.run access state = (create >>= fun () => pure fun _ => true) state := by
  have one : inodeblocksFor (.ofNat MAX_INODES) = 1 := by decide
  have room : (inodeblocksFor (.ofNat MAX_INODES)).toNat + 2 ≤ state.below.size.toNat := by
    rw [size]
    decide
  by_cases clear : nInodeblocks (state.below.block 0) = 0
  · obtain ⟨g, after, ran, formats, represents, _⟩ := fatdiskCreate_run clear room
    have intact : Intact (.ofNat MAX_INODES) after := by
      refine ⟨?_, by decide, ?_⟩
      · exact UInt32.toNat_inj.mp (represents.inodeblocks.trans formats.inodeblocks)
      · rw [represents.size, formats.size]
        exact room
    rw [virtInit_done ran intact, Prog.bind_done (created_done ran)]
    rfl
  · by_cases same : nInodeblocks (state.below.block 0) = inodeblocksFor (.ofNat MAX_INODES)
    · have intact : Intact (.ofNat MAX_INODES) state := ⟨same, by decide, room⟩
      have ran := fatdiskCreate_intact intact
      rw [virtInit_done ran intact, Prog.bind_done (created_done ran)]
      rfl
    · have readable : (0 : BlockNo).toNat < state.below.size.toNat := by
        rw [size]
        decide
      have enough : ¬ state.below.size < inodeblocksFor (.ofNat MAX_INODES) + 2 := by
        rw [size]
        decide
      have ran : fatdiskCreate (.ofNat MAX_INODES) state =
          .halted (.assertion "superblock.superblock.n_inodeblocks == n_inodeblocks") state := by
        rw [fatdiskCreate, Prog.bind_done (Prog.get_run state)]
        simp only [enough, if_false]
        rw [Prog.bind_done (belowRead_inside readable)]
        simp only [UInt32.toNat_zero, clear, same, if_false]
        rfl
      obtain ⟨left, right⟩ := virtInit_halted ran
      rw [left, Prog.bind_halted right]

/-! The file system without the servers. -/

def inInode {σ α : Type} (ino : UInt32) (refused : α) (method : Prog σ Stop α) : Prog σ Stop α :=
  if MAX_INODES ≤ ino.toNat then pure refused else method

/-- What the virtual block server is for: each inode of the volume is a store of its own. -/
def volume : Service BlockCall.Reply Stop Fatdisk.State := fun call =>
  match call with
  | .read ino offset => inInode ino none do return (← (fatdiskRead ino offset).renameHalts .fatdisk).map toBytes
  | .write ino offset data => inInode ino false do
      return decide (0 ≤ (← (fatdiskWrite ino offset (ofBytes data)).renameHalts .fatdisk))
  | .getsize ino => inInode ino none do return some (.ofInt (← (fatdiskNblocks ino).renameHalts .fatdisk))
  | .setsize ino nblocks => inInode ino false do
      return decide (0 ≤ (← (fatdiskSetsize ino nblocks).renameHalts .fatdisk))

private abbrev everyInode : Opened := fun _ => true

private theorem method_alike {α : Type} {call : BlockCall} {program : Fatdisk.Steps α} {method : Fat α}
    {f : α → call.Reply} {ino : UInt32}
    {refused : call.Reply} {state : Fatdisk.State} (same : program.run Access.serve = method)
    (direct : virtTable.direct .server call everyInode = if MAX_INODES ≤ ino.toNat then pure (refused, everyInode)
      else program.renameHalts .fatdisk >>= fun value => pure (f value, everyInode))
    (served : volume call = inInode ino refused (method.renameHalts .fatdisk >>= fun value => pure (f value))) :
    ((virtTable.direct .server).over access call (everyInode, state)).Alike
        (fun s t => s = (everyInode, t)) (volume call state) := by
  rw [served]
  unfold inInode
  by_cases big : MAX_INODES ≤ ino.toNat
  · rw [if_pos big] at direct ⊢
    have ran : (virtTable.direct .server call everyInode).run access state = .done (refused, everyInode) state := by
      rw [direct]
      rfl
    rw [Layer.over_done ran]
    exact ⟨rfl, rfl⟩
  · rw [if_neg big] at direct ⊢
    have renamed : (program.renameHalts Stop.fatdisk).run access = method.renameHalts .fatdisk := by
      rw [Effect.renameHalts_run, same]
    cases ended : method.renameHalts Stop.fatdisk state with
    | done value after =>
      have ran : (virtTable.direct .server call everyInode).run access state = .done (f value, everyInode) after := by
        rw [direct, Effect.run_bind, renamed, Prog.bind_done ended]
        rfl
      rw [Layer.over_done ran, Prog.bind_done ended]
      exact ⟨rfl, rfl⟩
    | halted reason after =>
      have ran : (virtTable.direct .server call everyInode).run access state = .halted reason after := by
        rw [direct, Effect.run_bind, renamed, Prog.bind_halted ended]
      rw [Layer.over_halted ran, Prog.bind_halted ended]
      rfl

/-- The methods of the table are those of the file system. -/
private theorem used_inode {α : Type} {ino : UInt32} (inside : ino.toNat < MAX_INODES)
    (program : UInt32 → Fatdisk.Steps α) :
    used everyInode ⟨ino.toNat, inside⟩ (program (.ofNat ino.toNat)) = (program ino).renameHalts .fatdisk := by
  unfold used
  rw [if_pos rfl, UInt32.ofNat_toNat]

theorem volume_simulated :
    Simulates (fun _ => True) (fun s t => s = (everyInode, t)) ((virtTable.direct .server).over access) volume := by
  rintro call - _ state rfl
  cases call with
  | read ino offset =>
    refine @method_alike _ _ _ _ (·.map toBytes) ino none state (Stepwise.fatdiskRead_run ino offset) ?_ rfl
    unfold Table.direct virtTable
    dsimp only
    split_ifs with big inside
    · rfl
    · exact congrArg (· >>= fun block => pure (block.map toBytes, everyInode)) (used_inode inside
        fun ino => Stepwise.fatdiskRead ino offset)
    · exact absurd (Nat.lt_of_not_le big) inside
  | write ino offset data =>
    refine @method_alike _ _ _ _ (fun result => decide (0 ≤ result)) ino false state
      (Stepwise.fatdiskWrite_run ino offset (ofBytes data)) ?_ rfl
    unfold Table.direct virtTable
    dsimp only
    split_ifs with big inside
    · rfl
    · exact congrArg (· >>= fun result => pure (decide (0 ≤ result), everyInode))
        (used_inode inside fun ino => Stepwise.fatdiskWrite ino offset (ofBytes data))
    · exact absurd (Nat.lt_of_not_le big) inside
  | getsize ino =>
    refine @method_alike _ _ _ _ (fun size => some (.ofInt size)) ino none state
      (Stepwise.fatdiskNblocks_run ino) ?_ rfl
    unfold Table.direct virtTable
    dsimp only
    split_ifs with big inside
    · rfl
    · rw [Effect.bind_assoc]
      exact congrArg (· >>= fun size => pure (some (UInt32.ofInt size), everyInode))
        (used_inode inside Stepwise.fatdiskNblocks)
    · exact absurd (Nat.lt_of_not_le big) inside
  | setsize ino nblocks =>
    refine @method_alike _ _ _ _ (fun result => decide (0 ≤ result)) ino false state
      (Stepwise.fatdiskSetsize_run ino nblocks) ?_ rfl
    unfold Table.direct virtTable
    dsimp only
    split_ifs with big inside
    · rfl
    · exact congrArg (· >>= fun result => pure (decide (0 ≤ result), everyInode))
        (used_inode inside fun ino => Stepwise.fatdiskSetsize ino nblocks)
    · exact absurd (Nat.lt_of_not_le big) inside

/-- A client of the virtual block server, as a client of the file system on a volume of its own. -/
def files {α : Type} (client : Effect BlockCall.Reply Stop α) : Prog Fatdisk.State Stop α := do
  create
  client.run volume

/-- The server works on an array of blocks as the file system works on the volume. -/
theorem virtServer_alike {α : Type} (src : Pid) (client : Effect BlockCall.Reply Stop α) {state : Fatdisk.State}
    (size : state.below.size = FILE_BLOCKS) :
    ((virtServer src client).run access state).Alike Eq (files client state) := by
  have started := virtInit_run size
  unfold virtServer files
  rw [Effect.run_bind]
  cases ran : create state with
  | halted reason after =>
    rw [Prog.bind_halted ran] at started
    rw [Prog.bind_halted started, Prog.bind_halted ran]
    rfl
  | done value after =>
    rw [Prog.bind_done ran] at started
    have opened : virtInit.run access state = .done everyInode after := started
    rw [Prog.bind_done opened, Prog.bind_done ran]
    have outer := (client.through blockCalls ()).through_alike
      (virtTable.server .server src) access everyInode after (·.1)
    have inner := client.through_alike blockCalls ((virtTable.server .server src).over access) () (everyInode, after) id
    have whole : (client >>= fun value => pure (id value)) = client := Effect.bind_pure
    rw [whole] at inner
    have direct := (server_direct virtTable .server src access).run client.uses_all ((), everyInode,
      after) (everyInode, after) rfl
    have served := volume_simulated.run client.uses_all (everyInode, after) after rfl
    refine (((outer.trans inner).trans direct).trans served).mono ?_
    rintro s t ⟨_, ⟨_, ⟨_, one, two⟩, rfl⟩, rfl⟩
    rw [← one, ← two]

/-- The virtual block server, its cache and its connection to the other server on an array of blocks. -/
theorem virtCalls_alike {α : Type} (src : Pid) (memory : Fin NCACHE_BLOCKS.toNat → Block)
    (client : Effect BlockCall.Reply Stop α)
    (blocks : Nat → DataBlock) :
    ((virtCalls src memory client).run (array FILE_BLOCKS) blocks).Alike (fun after t => t.below = volumeOf after)
      (files client { below := volumeOf blocks, fatblocks := 0, failed := false }) := by
  let cache : Clockdisk.State Unit NCACHE_BLOCKS := Clockdisk.clockdiskInit () memory
  let program := virtServer src client
  let start : Fatdisk.State := { below := volumeOf blocks, fatblocks := 0, failed := false }
  have connection := ((program.through fatAccess 0).through (clockdisk .clockdisk) cache).through_alike
    (protdisk FILE_PARTITION) (array FILE_BLOCKS) ()
    blocks (·.1.1)
  have caching := (program.through fatAccess 0).through_alike (clockdisk .clockdisk)
    ((protdisk FILE_PARTITION).over (array FILE_BLOCKS)) cache
    ((), blocks) (·.1)
  have accessing := program.through_alike fatAccess
    ((clockdisk .clockdisk).over ((protdisk FILE_PARTITION).over (array FILE_BLOCKS))) 0
    (cache, (), blocks) id
  have whole : (program >>= fun value => pure (id value)) = program := Effect.bind_pure
  rw [whole] at accessing
  have backs : Backs (0, cache, (), blocks) start := by
    refine ⟨rfl, rfl, fun i _ live => absurd rfl live, fun i live => absurd rfl live, fun i live => absurd rfl live⟩
  have stands := below_simulates.run program.uses_all _ _ backs
  have serves := virtServer_alike src client (show start.below.size = FILE_BLOCKS from rfl)
  refine ((((connection.trans caching).trans accessing).trans stands).trans serves).mono ?_
  rintro s t ⟨_, ⟨_, ⟨_, ⟨_, one, two⟩, three⟩, four⟩, rfl⟩
  rw [four.below, three, two, one]

end Egos.BlockStack
