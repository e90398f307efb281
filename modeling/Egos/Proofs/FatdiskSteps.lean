import Egos.Block.FatdiskSteps

/-! The programs that leave their accesses open are those of the FAT file system: run on
the store itself, each does what its namesake does. -/

namespace Egos.Fatdisk.Stepwise
open Library Disk Effect

/-- A sequence of two programs, each of which does what another does. -/
private theorem run_seq {α β : Type} {first : Steps α} {next : α → Steps β} {begun : Fat α} {last : α → Fat β}
    (left : first.run Access.serve = begun) (right : ∀ value, (next value).run Access.serve = last value) :
    (first >>= next).run Access.serve = begun >>= last := by
  rw [run_bind, left]
  exact congrArg _ (funext right)

private theorem read_run (offset : BlockNo) : (belowRead offset).run Access.serve = Fatdisk.belowRead offset :=
  run_perform _

private theorem write_run (offset : BlockNo) (block : Block) :
    (belowWrite offset block).run Access.serve = Fatdisk.belowWrite offset block := run_perform _

private theorem static_run :
    getFatblocks.run Access.serve = (fun state => .done state.fatblocks state : Fat BlockNo) := run_perform _

theorem fatentryToDatablock_run (n : FatEntryNo) :
    (fatentryToDatablock n).run Access.serve = Fatdisk.fatentryToDatablock n :=
  run_seq (read_run _) fun block => by cases block <;> rfl

theorem findFatBlockno_run (entry : FatEntryNo) :
    (findFatBlockno entry).run Access.serve = Fatdisk.findFatBlockno entry :=
  run_seq (read_run _) fun block => by cases block <;> rfl

theorem scanBlocks_run (superblock : Block) (count : Nat) (bno : BlockNo) (i : UInt32) :
    (scanBlocks superblock count bno i).run Access.serve = Fatdisk.scanBlocks superblock count bno i := by
  induction count generalizing bno i with
  | zero => rfl
  | succ count ih =>
    refine run_seq (read_run _) fun block => ?_
    cases block with
    | none => rfl
    | some fatblock =>
      cases found : scanEntries fatblock (FAT_PER_BLOCK - i).toNat i with
      | some index => simp only [found]; rfl
      | none =>
        simp only [found]
        exact run_seq static_run fun fatblocks => ih ..

theorem findFreeEntry_run (bno : BlockNo) : (findFreeEntry bno).run Access.serve = Fatdisk.findFreeEntry bno := by
  refine run_seq (read_run _) fun block => ?_
  cases block with
  | none => rfl
  | some superblock => 
    funext state
    exact congrFun (scanBlocks_run ..) state

theorem fatdiskAlloc_run (snapshot : Snapshot) :
    (fatdiskAlloc snapshot).run Access.serve = Fatdisk.fatdiskAlloc snapshot := by
  refine run_seq (findFatBlockno_run _) fun fidxBno => run_seq (read_run _) fun block => ?_
  cases block with
  | none => rfl
  | some fatblock =>
    refine run_seq (write_run ..) fun wrote => ?_
    cases wrote with
    | false => rfl
    | true =>
      refine run_seq (findFreeEntry_run _) fun free => run_seq (write_run ..) fun wrote => ?_
      cases wrote <;> rfl

theorem fatdiskGetSnapshot_run (inodeNo : UInt32) :
    (fatdiskGetSnapshot inodeNo).run Access.serve = Fatdisk.fatdiskGetSnapshot inodeNo := by
  refine run_seq (read_run _) fun block => ?_
  cases block with
  | none => rfl
  | some superblock =>
    by_cases outside : inodeNo.toNat ≥ (nInodeblocks superblock).toNat * INODES_PER_BLOCK.toNat
    · simp only [outside, if_true]
      rfl
    · simp only [outside, if_false]
      exact run_seq (read_run _) fun block => by cases block <;> rfl

theorem setupLoop_run (nblocks : BlockNo) (fuel : Nat) (nextFree fatlistBlock count : BlockNo) (data : Block) :
    (setupLoop nblocks fuel nextFree fatlistBlock count data).run Access.serve =
      Fatdisk.setupLoop nblocks fuel nextFree fatlistBlock count data := by
  induction fuel generalizing nextFree fatlistBlock count data with
  | zero => rfl
  | succ fuel ih =>
    unfold setupLoop Fatdisk.setupLoop
    by_cases more : nextFree < nblocks
    · simp only [more, if_true]
      refine run_seq (write_run ..) fun wrote => ?_
      cases wrote with
      | false => rfl
      | true => exact ih ..
    · simp only [more, if_false]
      rfl

theorem setupFatfreelist_run (nextFree nblocks : BlockNo) :
    (setupFatfreelist nextFree nblocks).run Access.serve = Fatdisk.setupFatfreelist nextFree nblocks := by
  refine run_seq (read_run _) fun block => ?_
  cases block with
  | none => rfl
  | some superblock => exact run_seq (setupLoop_run ..) fun count => rfl

theorem clearInodes_run (left : Nat) (i : BlockNo) :
    (clearInodes left i).run Access.serve = Fatdisk.clearInodes left i := by
  induction left generalizing i with
  | zero => rfl
  | succ left ih =>
    refine run_seq (write_run ..) fun wrote => ?_
    cases wrote with
    | false => rfl
    | true => exact ih _

theorem fatdiskCreate_run (nInodes : UInt32) :
    (fatdiskCreate nInodes).run Access.serve = Fatdisk.fatdiskCreate nInodes := by
  funext state
  have sized : getSize.run Access.serve state = .done state.below.size state := congrFun (run_perform _) state
  unfold fatdiskCreate Fatdisk.fatdiskCreate
  rw [run_bind, Prog.bind_done sized, Prog.bind_done (Prog.get_run state)]
  by_cases small : state.below.size < inodeblocksFor nInodes + 2
  · simp only [small, if_true]
    rfl
  · simp only [small, if_false]
    refine congrFun (run_seq (read_run _) fun block => ?_) state
    cases block with
    | none => rfl
    | some superblock =>
      by_cases fresh : nInodeblocks superblock = 0
      · simp only [fresh, if_true]
        refine run_seq (setupFatfreelist_run ..) fun free => ?_
        rw [run_bind, static_run]
        funext linked
        refine congrFun (run_seq (write_run ..) fun wrote => ?_) linked
        cases wrote with
        | false => rfl
        | true => exact run_seq (clearInodes_run ..) fun cleared => by cases cleared <;> rfl
      · simp only [fresh, if_false]
        split <;> rfl

theorem traverseLoop_run (offset : Nat) (start : FatEntryNo) :
    (traverseLoop offset start).run Access.serve = Fatdisk.traverseLoop offset start := by
  induction offset generalizing start with
  | zero => rfl
  | succ offset ih =>
    refine run_seq (findFatBlockno_run _) fun fatBno => run_seq (read_run _) fun block => ?_
    cases block with
    | none => rfl
    | some fatblock => exact ih _

theorem fatdiskTraverse_run (inodeNo : UInt32) (offset : BlockNo) :
    (fatdiskTraverse inodeNo offset).run Access.serve = Fatdisk.fatdiskTraverse inodeNo offset := by
  refine run_seq (fatdiskGetSnapshot_run _) fun snapshot => ?_
  cases snapshot with
  | none => rfl
  | some snapshot =>
    by_cases past : offset ≥ snapshot.nblocks
    · simp only [past, if_true]
      rfl
    · simp only [past, if_false]
      exact traverseLoop_run ..

theorem linkEntry_run (snapshot : Snapshot) (lastEntry freeBno : FatEntryNo) (dirty : Bool) :
    (linkEntry snapshot lastEntry freeBno dirty).run Access.serve =
        Fatdisk.linkEntry snapshot lastEntry freeBno dirty := by
  unfold linkEntry Fatdisk.linkEntry
  by_cases empty : snapshot.nblocks = 0
  · simp only [empty, if_true]
    rfl
  · simp only [empty, if_false]
    refine run_seq (findFatBlockno_run _) fun lastEntryBno => run_seq (read_run _) fun block => ?_
    cases block with
    | none => rfl
    | some fatblock => exact run_seq (write_run ..) fun wrote => by cases wrote <;> rfl

theorem storeInode_run (snapshot : Snapshot) (offset : BlockNo) (dirty : Bool) :
    (storeInode snapshot offset dirty).run Access.serve = Fatdisk.storeInode snapshot offset dirty := by
  unfold storeInode Fatdisk.storeInode
  cases changed : dirty || decide (offset ≥ snapshot.nblocks) with
  | false => simp only [changed]; rfl
  | true =>
    simp only [changed]
    exact run_seq (write_run ..) fun wrote => by cases wrote <;> rfl

theorem addLoop_run (offset : BlockNo) (count : Nat) (snapshot : Snapshot) (lastEntry : FatEntryNo) (dirty : Bool) :
    (addLoop offset count snapshot lastEntry dirty).run Access.serve =
        Fatdisk.addLoop offset count snapshot lastEntry dirty := by
  induction count generalizing snapshot lastEntry dirty with
  | zero => rfl
  | succ count ih =>
    exact run_seq (fatdiskAlloc_run _) fun _ => run_seq (linkEntry_run ..) fun _ => run_seq (storeInode_run ..)
      fun _ => ih ..

theorem findLastEntry_run (inodeNo : UInt32) (snapshot : Snapshot) :
    (findLastEntry inodeNo snapshot).run Access.serve = Fatdisk.findLastEntry inodeNo snapshot := by
  unfold findLastEntry Fatdisk.findLastEntry
  split
  · exact fatdiskTraverse_run ..
  · rfl

theorem fatdiskWrite_run (inodeNo : UInt32) (offset : BlockNo) (block : Block) :
    (fatdiskWrite inodeNo offset block).run Access.serve = Fatdisk.fatdiskWrite inodeNo offset block := by
  refine run_seq (fatdiskGetSnapshot_run _) fun snapshot => ?_
  cases snapshot with
  | none => rfl
  | some snapshot =>
    refine run_seq (findLastEntry_run ..) fun lastEntry => run_seq (addLoop_run ..) fun _ => ?_
    exact run_seq (fatdiskTraverse_run ..) fun entry => run_seq (fatentryToDatablock_run _) fun dataBlock => rfl

theorem freeLoop_run (count : Nat) (entry : FatEntryNo) :
    (freeLoop count entry).run Access.serve = Fatdisk.freeLoop count entry := by
  induction count generalizing entry with
  | zero => rfl
  | succ count ih =>
    refine run_seq (findFatBlockno_run _) fun fatbno => run_seq (read_run _) fun block => ?_
    cases block with
    | none => rfl
    | some fatblock =>
      refine run_seq (fatentryToDatablock_run _) fun target => run_seq (write_run ..) fun wrote => ?_
      cases wrote with
      | false => rfl
      | true =>
        refine run_seq (write_run ..) fun wrote => ?_
        cases wrote with
        | false => rfl
        | true => exact ih _

theorem fatdiskFreeFile_run (snapshot : Snapshot) :
    (fatdiskFreeFile snapshot).run Access.serve = Fatdisk.fatdiskFreeFile snapshot := by
  unfold fatdiskFreeFile Fatdisk.fatdiskFreeFile
  by_cases empty : snapshot.nblocks = 0
  · simp only [empty, if_true]
    rfl
  · simp only [empty, if_false]
    exact run_seq (freeLoop_run ..) fun _ => run_seq (write_run ..) fun wrote => by cases wrote <;> rfl

theorem readLoop_run (offset : Nat) (start : FatEntryNo) :
    (readLoop offset start).run Access.serve = Fatdisk.readLoop offset start := by
  induction offset generalizing start with
  | zero => exact run_seq (fatentryToDatablock_run _) fun readfrom => read_run _
  | succ offset ih =>
    refine run_seq (findFatBlockno_run _) fun fatBno => run_seq (read_run _) fun block => ?_
    cases block with
    | none => rfl
    | some fatblock => exact ih _

theorem fatdiskRead_run (inodeNo : UInt32) (offset : BlockNo) :
    (fatdiskRead inodeNo offset).run Access.serve = Fatdisk.fatdiskRead inodeNo offset := by
  refine run_seq (fatdiskGetSnapshot_run _) fun snapshot => ?_
  cases snapshot with
  | none => rfl
  | some snapshot =>
    by_cases past : offset ≥ snapshot.nblocks
    · simp only [past, if_true]
      rfl
    · simp only [past, if_false]
      exact readLoop_run ..

theorem fatdiskNblocks_run (inodeNo : UInt32) :
    (fatdiskNblocks inodeNo).run Access.serve = Fatdisk.fatdiskNblocks inodeNo :=
  run_seq (fatdiskGetSnapshot_run _) fun snapshot => by cases snapshot <;> rfl

theorem fatdiskSetsize_run (inodeNo : UInt32) (nblocks : BlockNo) :
    (fatdiskSetsize inodeNo nblocks).run Access.serve = Fatdisk.fatdiskSetsize inodeNo nblocks := by
  refine run_seq (fatdiskGetSnapshot_run _) fun snapshot => ?_
  cases snapshot with
  | none => rfl
  | some snapshot =>
    by_cases same : nblocks = snapshot.nblocks
    · simp only [same, if_true]
      rfl
    · by_cases grows : nblocks > 0
      · simp only [same, grows, if_true, if_false]
        rfl
      · simp only [same, grows, if_false]
        exact run_seq (fatdiskFreeFile_run _) fun _ => rfl

theorem fatdiskInit_run (inodeNo : UInt32) : (fatdiskInit inodeNo).run Access.serve = Fatdisk.fatdiskInit inodeNo :=
  run_seq (fatdiskGetSnapshot_run _) fun snapshot => by cases snapshot <;> rfl

end Egos.Fatdisk.Stepwise
