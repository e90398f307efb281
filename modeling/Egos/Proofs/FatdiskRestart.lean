import Egos.Proofs.FatdiskFiles

/-! Restarting the process. Only the search for a free entry uses the static variable
`fatblocks`, which formatting sets and mounting a formatted store does not: after a
restart everything works as before except lengthening a file, which panics. -/

namespace Egos.Fatdisk
open Library Disk

/-- What is left of a state when a new process starts. -/
def restart (state : State) : State := { state with fatblocks := 0 }

/-- The results of calls made in order, and why the process ended if it did. -/
def answers : List Call → State → List Result × Option Halt
  | [], _ => ([], none)
  | call :: calls, state => match call.perform state with
    | .done result after => ((result :: (answers calls after).1), (answers calls after).2)
    | .halted reason _ => ([], some reason)

/-- The call is a write at or past the end of its inode. -/
def Grows (state : State) : Call → Prop
  | .write inode offset _ =>
    ∃ snapshot after, fatdiskGetSnapshot inode state = .done (some snapshot) after ∧ snapshot.nblocks < offset + 1
  | _ => False

def NoGrowth : List Call → State → Prop
  | [], _ => True
  | call :: calls, state => ¬ Grows state call ∧ ∀ result after, call.perform state = .done result after →
      NoGrowth calls after

/-- The super block still says how many inode blocks there are. -/
structure Intact (nInodes : UInt32) (state : State) : Prop where
  inodeblocks : nInodeblocks (state.below.block 0) = inodeblocksFor nInodes
  some : inodeblocksFor nInodes ≠ 0
  room : (inodeblocksFor nInodes).toNat + 2 ≤ state.below.size.toNat

/-! Everything but the allocator ignores `fatblocks`. -/

theorem belowRead_commutes (offset : BlockNo) : Prog.Commutes restart (belowRead offset) := by
  intro state
  have same : (restart state).below = state.below := rfl
  rw [belowRead, belowRead, same]
  cases state.below.read offset <;> rfl

theorem belowWrite_commutes (offset : BlockNo) (block : Block) : Prog.Commutes restart (belowWrite offset block) := by
  intro state
  have same : (restart state).below = state.below := rfl
  rw [belowWrite, belowWrite, same]
  cases state.below.write offset block <;> rfl

theorem findFatBlockno_commutes (entry : FatEntryNo) : Prog.Commutes restart (findFatBlockno entry) :=
  (belowRead_commutes 0).bind fun read => by cases read <;> exact .pure _

theorem fatentryToDatablock_commutes (entry : FatEntryNo) : Prog.Commutes restart (fatentryToDatablock entry) :=
  (belowRead_commutes 0).bind fun read => by cases read <;> exact .pure _

theorem fatdiskGetSnapshot_commutes (inode : UInt32) : Prog.Commutes restart (fatdiskGetSnapshot inode) := by
  refine (belowRead_commutes 0).bind fun read => ?_
  cases read with
  | none => exact .pure _
  | some superblock =>
    change Prog.Commutes restart (if inode.toNat ≥
      (nInodeblocks superblock).toNat * INODES_PER_BLOCK.toNat then _ else _)
    split
    · exact .pure _
    · refine (belowRead_commutes _).bind fun read => ?_
      cases read <;> exact .pure _

theorem traverseLoop_commutes (steps : Nat) : ∀ start, Prog.Commutes restart (traverseLoop steps start) := by
  induction steps with
  | zero => intro start; exact .pure _
  | succ steps ih =>
    intro start
    refine (findFatBlockno_commutes start).bind fun bno => (belowRead_commutes bno).bind fun read => ?_
    cases read with
    | none => exact .pure _
    | some fatblock => exact ih _

theorem readLoop_commutes (steps : Nat) : ∀ start, Prog.Commutes restart (readLoop steps start) := by
  induction steps with
  | zero => intro start; exact (fatentryToDatablock_commutes start).bind fun bno => belowRead_commutes bno
  | succ steps ih =>
    intro start
    refine (findFatBlockno_commutes start).bind fun bno => (belowRead_commutes bno).bind fun read => ?_
    cases read with
    | none => exact .pure _
    | some fatblock => exact ih _

theorem fatdiskTraverse_commutes (inode : UInt32) (offset : BlockNo) :
    Prog.Commutes restart (fatdiskTraverse inode offset) := by
  refine (fatdiskGetSnapshot_commutes inode).bind fun taken => ?_
  cases taken with
  | none => exact .pure _
  | some snapshot =>
    change Prog.Commutes restart (if offset ≥ snapshot.nblocks then _ else _)
    split
    · exact .pure _
    · exact traverseLoop_commutes _ _

theorem findLastEntry_commutes (inode : UInt32) (snapshot : Snapshot) :
    Prog.Commutes restart (findLastEntry inode snapshot) := by
  rw [findLastEntry]
  split
  · exact fatdiskTraverse_commutes _ _
  · exact .pure _

theorem fatdiskRead_commutes (inode : UInt32) (offset : BlockNo) :
    Prog.Commutes restart (fatdiskRead inode offset) := by
  refine (fatdiskGetSnapshot_commutes inode).bind fun taken => ?_
  cases taken with
  | none => exact .pure _
  | some snapshot =>
    change Prog.Commutes restart (if offset ≥ snapshot.nblocks then _ else _)
    split
    · exact .pure _
    · exact readLoop_commutes _ _

theorem fatdiskNblocks_commutes (inode : UInt32) : Prog.Commutes restart (fatdiskNblocks inode) := by
  refine (fatdiskGetSnapshot_commutes inode).bind fun taken => ?_
  cases taken <;> exact .pure _

theorem fatdiskInit_commutes (inode : UInt32) : Prog.Commutes restart (fatdiskInit inode) := by
  refine (fatdiskGetSnapshot_commutes inode).bind fun taken => ?_
  cases taken <;> exact .pure _

theorem freeLoop_commutes (nblks : Nat) : ∀ entry, Prog.Commutes restart (freeLoop nblks entry) := by
  induction nblks with
  | zero => intro entry; exact .pure _
  | succ nblks ih =>
    intro entry
    refine (findFatBlockno_commutes entry).bind fun fatbno => (belowRead_commutes fatbno).bind fun read => ?_
    cases read with
    | none => exact .halt _
    | some fatblock =>
      refine (fatentryToDatablock_commutes entry).bind fun target => (belowWrite_commutes target _).bind fun wrote => ?_
      cases wrote with
      | false => exact .halt _
      | true =>
        refine (belowWrite_commutes fatbno _).bind fun wrote => ?_
        cases wrote with
        | false => exact .halt _
        | true => exact ih _

theorem fatdiskFreeFile_commutes (snapshot : Snapshot) : Prog.Commutes restart (fatdiskFreeFile snapshot) := by
  change Prog.Commutes restart (if snapshot.nblocks = 0 then _ else _)
  split
  · exact .pure _
  · refine (freeLoop_commutes _ _).bind fun _ => (belowWrite_commutes _ _).bind fun wrote => ?_
    cases wrote with
    | false => exact .halt _
    | true => exact .pure _

theorem fatdiskSetsize_commutes (inode : UInt32) (nblocks : BlockNo) :
    Prog.Commutes restart (fatdiskSetsize inode nblocks) := by
  refine (fatdiskGetSnapshot_commutes inode).bind fun taken => ?_
  cases taken with
  | none => exact .halt _
  | some snapshot =>
    change Prog.Commutes restart (if nblocks = snapshot.nblocks then _ else if nblocks > 0 then _ else _)
    split
    · exact .pure _
    · split
      · exact .pure _
      · exact (fatdiskFreeFile_commutes snapshot).bind fun _ => .pure _

/-- A write that does not lengthen its file ignores `fatblocks` too. -/
theorem fatdiskPlace_stays {state : State} {inode : UInt32} {offset : BlockNo} {block : Block}
    (inside : ¬ Grows state (.write inode offset block)) :
    fatdiskPlace inode offset (restart state) = (fatdiskPlace inode offset state).mapState restart := by
  have same := fatdiskGetSnapshot_commutes inode state
  cases taken : fatdiskGetSnapshot inode state with
  | halted reason after =>
    rw [taken] at same
    rw [fatdiskPlace, Prog.bind_halted same, Prog.bind_halted taken]
    rfl
  | done snapshot after =>
    rw [taken] at same
    rw [fatdiskPlace, Prog.bind_done same, Prog.bind_done taken]
    cases snapshot with
    | none => rfl
    | some snapshot =>
      have short : ¬ offset + 1 > snapshot.nblocks := fun longer => inside ⟨snapshot, after, taken, longer⟩
      simp only [short, if_false]
      have stays : Prog.Commutes restart (do
          let lastEntry ← findLastEntry inode snapshot
          addLoop offset 0 snapshot lastEntry false
          let entryForData ← fatdiskTraverse inode offset
          let dataBlock ← fatentryToDatablock entryForData
          return some dataBlock : Fat (Option BlockNo)) :=
        (findLastEntry_commutes inode snapshot).bind fun _ => (Prog.Commutes.pure ()).bind fun _ =>
          (fatdiskTraverse_commutes inode offset).bind fun entry => (fatentryToDatablock_commutes entry).bind
            fun _ => .pure _
      exact stays after

theorem fatdiskStore_commutes (block : Block) (place : Option BlockNo) :
    Prog.Commutes restart (fatdiskStore block place) := by
  cases place with
  | none => exact .pure _
  | some target => exact (belowWrite_commutes target block).bind fun _ => .pure _

theorem fatdiskWrite_stays {state : State} {inode : UInt32} {offset : BlockNo} {block : Block}
    (inside : ¬ Grows state (.write inode offset block)) :
    fatdiskWrite inode offset block (restart state) = (fatdiskWrite inode offset block state).mapState restart := by
  have same := fatdiskPlace_stays inside
  rw [fatdiskWrite_eq]
  cases placed : fatdiskPlace inode offset state with
  | done place after =>
    rw [placed] at same
    rw [Prog.bind_done same, Prog.bind_done placed]
    exact fatdiskStore_commutes block place after
  | halted reason after =>
    rw [placed] at same
    rw [Prog.bind_halted same, Prog.bind_halted placed]
    rfl

/-- Without `fatblocks` the allocator finds no free entry. -/
theorem fatdiskAlloc_stops {state : State} (static : state.fatblocks = 0) (size : 0 < state.below.size.toNat)
    (snapshot : Snapshot) : ∃ reason stopped, fatdiskAlloc snapshot state = .halted reason stopped := by
  have super : belowRead 0 state = .done (some (state.below.block 0)) state :=
    belowRead_inside (by rwa [UInt32.toNat_zero])
  have located : ∃ bno, findFatBlockno (fatFreeList snapshot.superblock) state = .done bno state := by
    rw [findFatBlockno, Prog.bind_done super]
    exact ⟨_, rfl⟩
  obtain ⟨bno, located⟩ := located
  rw [fatdiskAlloc, Prog.bind_done located]
  by_cases inside : bno.toNat < state.below.size.toNat
  · rw [Prog.bind_done (belowRead_inside inside)]
    simp only
    rw [Prog.bind_done (belowWrite_inside _ inside)]
    have search : ∀ marked : State, marked.below.size = state.below.size → marked.fatblocks = state.fatblocks →
        ∃ reason stopped, findFreeEntry bno marked = .halted reason stopped := by
      intro marked same sameStatic
      refine ⟨.panic "fatdisk_find_free_entry: The disk is full\n", marked, ?_⟩
      rw [findFreeEntry, Prog.bind_done (belowRead_inside (by rwa [same, UInt32.toNat_zero]))]
      simp only [Prog.bind_done (Prog.get_run marked), sameStatic, static]
      rfl
    obtain ⟨reason, stopped, halted⟩ := search (state.put bno.toNat (setWord (state.below.block bno.toNat)
      (fatFreeList snapshot.superblock % FAT_PER_BLOCK) (-1))) rfl rfl
    refine ⟨reason, stopped, ?_⟩
    simp only [Bool.not_true, Bool.false_eq_true, if_false, Prog.bind_halted halted]
  · rw [Prog.bind_done (belowRead_outside (Nat.not_lt.mp inside))]
    exact ⟨_, _, rfl⟩

def ReadsOnly {α : Type} (program : Fat α) : Prop :=
  ∀ state, ∃ value after, program state = .done value after ∧ after.below = state.below ∧
    after.fatblocks = state.fatblocks

namespace ReadsOnly
variable {α β : Type}

theorem pure (value : α) : ReadsOnly (Pure.pure value : Fat α) := fun state => ⟨value, state, rfl, rfl, rfl⟩

theorem bind {first : Fat α} {next : α → Fat β} (left : ReadsOnly first) (right : ∀ value, ReadsOnly (next value)) :
    ReadsOnly (first >>= next) := by
  intro state
  obtain ⟨value, middle, ran, below, static⟩ := left state
  obtain ⟨result, after, ran', below', static'⟩ := right value middle
  exact ⟨result, after, (Prog.bind_done ran).trans ran', below'.trans below, static'.trans static⟩

theorem belowRead (offset : BlockNo) : ReadsOnly (Fatdisk.belowRead offset) := by
  intro state
  rw [Fatdisk.belowRead]
  cases state.below.read offset <;> exact ⟨_, _, rfl, rfl, rfl⟩

theorem findFatBlockno (entry : FatEntryNo) : ReadsOnly (Fatdisk.findFatBlockno entry) :=
  (belowRead 0).bind fun read => by cases read <;> exact pure _

theorem getSnapshot (inode : UInt32) : ReadsOnly (fatdiskGetSnapshot inode) := by
  refine (belowRead 0).bind fun read => ?_
  cases read with
  | none => exact pure _
  | some superblock =>
    change ReadsOnly (if inode.toNat ≥ (nInodeblocks superblock).toNat * INODES_PER_BLOCK.toNat then _ else _)
    split
    · exact pure _
    · refine (belowRead _).bind fun read => ?_
      cases read <;> exact pure _

theorem traverseLoop (steps : Nat) : ∀ start, ReadsOnly (Fatdisk.traverseLoop steps start) := by
  induction steps with
  | zero => intro start; exact pure _
  | succ steps ih =>
    intro start
    refine (findFatBlockno start).bind fun bno => (belowRead bno).bind fun read => ?_
    cases read with
    | none => exact pure _
    | some fatblock => exact ih _

theorem findLastEntry (inode : UInt32) (snapshot : Snapshot) : ReadsOnly (Fatdisk.findLastEntry inode snapshot) := by
  rw [Fatdisk.findLastEntry]
  split
  · refine (getSnapshot inode).bind fun taken => ?_
    cases taken with
    | none => exact pure _
    | some snapshot' =>
      change ReadsOnly (if snapshot.nblocks - 1 ≥ snapshot'.nblocks then _ else _)
      split
      · exact pure _
      · exact traverseLoop _ _
  · exact pure _

end ReadsOnly

/-- After a restart every write that lengthens a file ends the process. -/
theorem fatdiskPlace_stops {state : State} (static : state.fatblocks = 0) {inode : UInt32} {offset : BlockNo}
    {block : Block}
    (grows : Grows state (.write inode offset block)) :
    ∃ reason stopped, fatdiskPlace inode offset state = .halted reason stopped := by
  obtain ⟨snapshot, after, taken, longer⟩ := grows
  obtain ⟨_, _, taken', below, sameStatic⟩ := ReadsOnly.getSnapshot inode state
  rw [taken] at taken'
  cases taken'
  have size : 0 < state.below.size.toNat := by
    by_contra empty
    rw [fatdiskGetSnapshot, Prog.bind_done (belowRead_outside (by rw [UInt32.toNat_zero]; omega))] at taken
    cases taken
  obtain ⟨last, middle, found, below', static'⟩ := ReadsOnly.findLastEntry inode snapshot after
  obtain ⟨reason, stopped, halted⟩ := fatdiskAlloc_stops (static'.trans (sameStatic.trans static))
    (by rw [below', below]; exact size) snapshot
  have count : ∃ rounds, (offset + 1 - snapshot.nblocks).toNat = rounds + 1 := by
    have := UInt32.lt_iff_toNat_lt.mp longer
    refine ⟨(offset + 1 - snapshot.nblocks).toNat - 1, ?_⟩
    rw [UInt32.toNat_sub_of_le _ _ (UInt32.le_of_lt longer)]
    omega
  obtain ⟨rounds, count⟩ := count
  refine ⟨reason, stopped, ?_⟩
  rw [fatdiskPlace, Prog.bind_done taken]
  simp only [show offset + 1 > snapshot.nblocks from longer, if_true, count]
  rw [Prog.bind_done found]
  exact Prog.bind_halted (Prog.bind_halted halted)

theorem Grows.restarted {state : State} {call : Call} (grows : Grows state call) : Grows (restart state) call := by
  cases call with
  | write inode offset block =>
    obtain ⟨snapshot, after, taken, longer⟩ := grows
    have same := fatdiskGetSnapshot_commutes inode state
    rw [taken] at same
    exact ⟨snapshot, restart after, same, longer⟩
  | read | nblocks | setsize => exact grows.elim

/-- A call that lengthens a file does not return after a restart. -/
theorem perform_stops {state : State} {call : Call} (grows : Grows state call) :
    ∃ reason stopped, call.perform (restart state) = .halted reason stopped := by
  cases call with
  | write inode offset block =>
    obtain ⟨reason, stopped, halted⟩ := @fatdiskPlace_stops (restart state) rfl inode offset block grows.restarted
    refine ⟨reason, stopped, Prog.bind_halted ?_⟩
    rw [fatdiskWrite_eq]
    exact Prog.bind_halted halted
  | read | nblocks | setsize => exact grows.elim

/-- Restarting a process on a used store: formatting finds the super block and does nothing. -/
theorem fatdiskCreate_intact {nInodes : UInt32} {state : State} (intact : Intact nInodes state) :
    fatdiskCreate nInodes state = .done 0 state := by
  have small := inodeblocksFor_lt nInodes
  have two : (inodeblocksFor nInodes + 2).toNat = (inodeblocksFor nInodes).toNat + 2 := by
    rw [UInt32.toNat_add]
    change (_ + 2) % 2 ^ 32 = _
    omega
  have enough : ¬ state.below.size < inodeblocksFor nInodes + 2 := by
    rw [UInt32.lt_iff_toNat_lt, two]
    have := intact.room
    omega
  have readable : (0 : BlockNo).toNat < state.below.size.toNat := by
    have := intact.room
    rw [UInt32.toNat_zero]; omega
  rw [fatdiskCreate, Prog.bind_done (Prog.get_run state)]
  simp only [enough, if_false]
  rw [Prog.bind_done (belowRead_inside readable)]
  simp only [UInt32.toNat_zero, intact.inodeblocks, intact.some, if_false, if_true]
  rfl

theorem Intact.restarted {nInodes : UInt32} {state : State} (intact : Intact nInodes state) :
    Intact nInodes (restart state) :=
  ⟨intact.inodeblocks, intact.some, intact.room⟩

theorem perform_stays {state : State} {call : Call} (inside : ¬ Grows state call) :
    call.perform (restart state) = (call.perform state).mapState restart := by
  cases call with
  | write inode offset block =>
    have same := fatdiskWrite_stays inside
    change (fatdiskWrite inode offset block >>= fun r => pure (Result.status r)) (restart state) =
      Outcome.mapState restart ((fatdiskWrite inode offset block >>= fun r => pure (Result.status r)) state)
    cases ran : fatdiskWrite inode offset block state with
    | done value after =>
      rw [ran] at same
      rw [Prog.bind_done same, Prog.bind_done ran]; rfl
    | halted reason after =>
      rw [ran] at same
      rw [Prog.bind_halted same, Prog.bind_halted ran]; rfl
  | read inode offset => exact ((fatdiskRead_commutes inode offset).bind fun _ => .pure _) state
  | nblocks inode => exact ((fatdiskNblocks_commutes inode).bind fun _ => .pure _) state
  | setsize inode size => exact ((fatdiskSetsize_commutes inode size).bind fun _ => .pure _) state

theorem answers_restart (calls : List Call) : ∀ {state : State}, NoGrowth calls state →
    answers calls (restart state) = answers calls state := by
  induction calls with
  | nil => intro state _; rfl
  | cons call calls ih =>
    intro state stays
    have same := perform_stays stays.1
    rw [answers, answers]
    cases ran : call.perform state with
    | done result after =>
      rw [ran] at same
      simp only [same, Outcome.mapState, ih (stays.2 result after ran)]
    | halted reason after =>
      rw [ran] at same
      simp only [same, Outcome.mapState]

theorem noGrowth_of_answers (calls : List Call) : ∀ {state : State}, (answers calls state).2 = none →
    (answers calls (restart state)).2 = none → NoGrowth calls state := by
  induction calls with
  | nil => intro state _ _; trivial
  | cons call calls ih =>
    intro state completes restarted
    have stays : ¬ Grows state call := by
      intro grows
      obtain ⟨reason, stopped, ended⟩ := perform_stops grows
      rw [answers, ended] at restarted
      cases restarted
    have same := perform_stays stays
    refine ⟨stays, fun result after ran => ?_⟩
    rw [ran] at same
    rw [answers, ran] at completes
    rw [answers, same] at restarted
    exact ih completes restarted

/-- Mounting a used store again: a sequence of calls gets the same answers as without
the restart if no write in it lengthens a file, and only then if it would have completed. -/
theorem restart_transparent {nInodes : UInt32} {used : State} (intact : Intact nInodes used) (calls : List Call) :
    fatdiskCreate nInodes (restart used) = .done 0 (restart used) ∧
    (∀ inode, fatdiskInit inode (restart used) = (fatdiskInit inode used).mapState restart) ∧
    (NoGrowth calls used → answers calls (restart used) = answers calls used) ∧
    ((answers calls used).2 = none → answers calls (restart used) = answers calls used → NoGrowth calls used) := by
  refine ⟨fatdiskCreate_intact intact.restarted, fun inode => fatdiskInit_commutes inode used,
    answers_restart calls, fun completes same => ?_⟩
  exact noGrowth_of_answers calls completes (by rw [same]; exact completes)

/-- Formatting and any calls that keep the chains sound leave the super block intact. -/
theorem intact_of_run {nInodes : UInt32} {initial created after : State} {calls : List Call}
    (some : inodeblocksFor nInodes ≠ 0) (clear : nInodeblocks (initial.below.block 0) = 0)
    (format : fatdiskCreate nInodes initial = .done 0 created)
    (run : Run (Guarded (fun state call => call.Admissible ∧ ¬ LinksZero state call) Step) created calls after) :
    Intact nInodes after := by
  obtain ⟨g, formats, v, tidy⟩ := tidy_of_run clear format run
  have nib := tidy.held.nInodeblocks_eq
  have size := tidy.held.size
  have inodeblocks := formats.inodeblocks
  have fits := g.fits
  have covered := g.covered
  have nonempty := g.nonempty
  refine ⟨UInt32.toNat_inj.mp (nib.trans inodeblocks), some, ?_⟩
  rw [size, ← inodeblocks]
  omega


private theorem small_intact :
    ∃ g created, fatdiskCreate 1 smallStore = .done 0 created ∧ Formats g 1 smallStore.below ∧
    Represents g (formatted g smallStore.below.block) created ∧ Intact 1 created := by
  obtain ⟨g, created, format, formats, held, _⟩ := @fatdiskCreate_run smallStore 1 rfl (by decide)
  exact ⟨g, created, format, formats, held, intact_of_run (by decide) rfl format .nil⟩

/-- The first block written to a file after the restart ends the process. -/
theorem restart_stops : ¬ ∀ (nInodes : UInt32) (initial created used : State) (earlier calls : List Call),
    nInodeblocks (initial.below.block 0) = 0 → fatdiskCreate nInodes initial = .done 0 created →
    Run Returns created earlier used →
    ∃ reopened, fatdiskCreate nInodes (restart used) = .done 0 reopened ∧
        answers calls reopened = answers calls used := by
  intro always
  obtain ⟨g, created, format, formats, held, intact⟩ := small_intact
  have small := small_formats formats
  have known : (0 : UInt32).toNat < g.inodes := by rw [Geometry.inodes, small.inodeblocks]; decide
  obtain ⟨reopened, mounted, same⟩ := always 1 smallStore created created [] [.write 0 0 nullBlock] rfl format .nil
  cases (fatdiskCreate_intact intact.restarted).symm.trans mounted
  obtain ⟨_, after, wrote, _⟩ := (tidy_formatted held).write_fresh (formatted_fresh g _) known
    (show (0 : BlockNo).toNat < 2 ^ 31 - 1 by decide) nullBlock
      (by change 0 + (0 + 1 - 0) < g.usable; rw [small.usable]; decide)
  have ran : (Call.write 0 0 nullBlock).perform created = .done (.status 0) after := Prog.bind_done wrote
  have completes : (answers [.write 0 0 nullBlock] created).2 = none := by rw [answers, ran]; rfl
  have stays := noGrowth_of_answers _ completes (by rw [same]; exact completes)
  obtain ⟨snapshot, taken, number, matched⟩ := fatdiskGetSnapshot_run held known
  refine stays.1 ⟨snapshot, created, taken, ?_⟩
  rw [UInt32.lt_iff_toNat_lt, matched.nblocks_eq held (number ▸ known)]
  exact Nat.zero_lt_one

/-- A file of one block. -/
private theorem small_used :
    ∃ created used, fatdiskCreate 1 smallStore = .done 0 created ∧ Step created (.write 0 0 nullBlock) used ∧
      Intact 1 used ∧
    ∀ block, ¬ Grows used (.write 0 0 block) := by
  obtain ⟨g, created, format, formats, held, unfailed⟩ := @fatdiskCreate_run smallStore 1 rfl (by decide)
  have small := small_formats formats
  have known : (0 : UInt32).toNat < g.inodes := by rw [Geometry.inodes, small.inodeblocks]; decide
  have tidy := tidy_formatted held
  have fresh := formatted_fresh g smallStore.below.block
  obtain ⟨v, used, returned, tidy', _, unfailed', _, nblocks, _⟩ := tidy.write_fresh fresh known
    (show (0 : BlockNo).toNat < 2 ^ 31 - 1 by decide) nullBlock
      (by change 0 + (0 + 1 - 0) < g.usable; rw [small.usable]; decide)
  have wrote : Step created (.write 0 0 nullBlock) used := ⟨_, Prog.bind_done returned, unfailed'.trans unfailed⟩
  have separate : ¬ LinksZero created (.write 0 0 nullBlock) := fun bad =>
    (tidy.linksZero_iff known _ _).mp bad (tidy.kept.clean_fresh fresh _ _)
  have run : Run (Guarded (fun state call => call.Admissible ∧ ¬ LinksZero state call) Step) created
      [.write 0 0 nullBlock] used :=
    Run.cons ⟨⟨show (0 : BlockNo).toNat < 2 ^ 31 - 1 by decide, separate⟩, wrote⟩ .nil
  refine ⟨created, used, format, wrote, intact_of_run (by decide) rfl format run, ?_⟩
  rintro block ⟨snapshot, after, taken, larger⟩
  obtain ⟨_, found, number, matched⟩ := fatdiskGetSnapshot_run tidy'.held known
  cases found.symm.trans taken
  rw [UInt32.lt_iff_toNat_lt, matched.nblocks_eq tidy'.held (number ▸ known), number, nblocks,
    Function.update_self] at larger
  exact absurd larger (Nat.not_lt.mpr (Nat.le_max_right ..))

/-- The block is written again and read. -/
theorem restart_transparent_small :
    ∃ created used, fatdiskCreate 1 smallStore = .done 0 created ∧ Step created (.write 0 0 nullBlock) used ∧
    fatdiskCreate 1 (restart used) = .done 0 (restart used) ∧
    answers [.write 0 0 fun _ => 1, .read 0 0] (restart used) = answers [.write 0 0 fun _ => 1, .read 0 0] used := by
  obtain ⟨created, used, format, wrote, intact, stays⟩ := small_used
  obtain ⟨mounted, _, same, _⟩ := restart_transparent intact [.write 0 0 fun _ => 1, .read 0 0]
  exact ⟨created, used, format, wrote, mounted, same ⟨stays _, fun _ _ _ => ⟨id, fun _ _ _ => trivial⟩⟩⟩

end Egos.Fatdisk
