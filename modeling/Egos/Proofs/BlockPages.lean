import Egos.Proofs.BlockFiles

/-! Pages on the paging device, while files are used and other processes are paged. -/

namespace Egos.BlockStack
open Library BlockClient
open Disk (Block)
open Files (DataBlock)
open Partdisk (Partition PG_DEV_BLOCKS)
open Grass (Pid)

/-! Each process has blocks of its own. -/

def Slots (owner : UInt32 → Pid) : Client → BlockCall → Prop
  | .paging process, .read ino offset => ino = PAGE_PARTITION ∧ owner offset = process
  | .paging process, .write ino offset _ => ino = PAGE_PARTITION ∧ owner offset = process
  | _, _ => False

theorem Slots.own {owner : UInt32 → Pid} {process : Pid} {call : BlockCall}
    (slots : Slots owner (.paging process) call) : Own .page call := by
  cases call with
  | read ino offset => exact slots.1
  | write ino offset data => exact slots.1
  | getsize ino => exact slots.elim
  | setsize ino nblocks => exact slots.elim

/-- Every process finds its own blocks as it has left them. -/
def Finds (owner : UInt32 → Pid) (blocks : Nat → DataBlock) (parts : Client → Nat → DataBlock) : Prop :=
  ∀ offset, blocks offset.toNat = parts (.paging (owner offset)) offset.toNat

theorem slots_separate (size : UInt32) (owner : UInt32 → Pid) :
    Separate id (Slots owner) (Finds owner) (fun _ : Client => array size) fun _ => array size := by
  intro c call blocks parts slots finds
  have stays : Finds owner blocks (Function.update parts c (parts c)) := by
    rw [Function.update_eq_self]
    exact finds
  cases c with
  | files => exact slots.elim
  | paging process =>
    change Outcome.Alike (fun after own => Finds owner after (Function.update parts (.paging process) own))
      (array size call blocks)
      (array size call (parts (.paging process)))
    cases call with
    | read ino offset =>
      obtain ⟨rfl, rfl⟩ := slots
      by_cases inside : offset < size
      · rw [array_read inside, array_read inside]
        exact ⟨congrArg some (finds offset), stays⟩
      · rw [array_read_past inside, array_read_past inside]
        exact ⟨rfl, stays⟩
    | write ino offset data =>
      obtain ⟨rfl, rfl⟩ := slots
      by_cases inside : offset < size
      · rw [array_write inside, array_write inside]
        refine ⟨rfl, fun other => ?_⟩
        change Function.update blocks offset.toNat data other.toNat =
          Function.update parts (.paging (owner offset)) _ (.paging (owner other)) other.toNat
        by_cases mine : owner other = owner offset
        · rw [mine, Function.update_self]
          by_cases same : other = offset
          · subst same
            rw [Function.update_self, Function.update_self]
          · have elsewhere : other.toNat ≠ offset.toNat := fun equal => same (UInt32.toNat_inj.mp equal)
            rw [Function.update_of_ne elsewhere, Function.update_of_ne elsewhere, ← mine]
            exact finds other
        · have elsewhere : other.toNat ≠ offset.toNat := fun equal => mine (congrArg owner (UInt32.toNat_inj.mp equal))
          have another : Client.paging (owner other) ≠ .paging (owner offset) := fun equal =>
            mine (Client.paging.inj equal)
          rw [Function.update_of_ne elsewhere, Function.update_of_ne another]
          exact finds other
      · rw [array_write_past inside, array_write_past inside]
        exact ⟨rfl, stays⟩
    | getsize ino => exact slots.elim
    | setsize ino nblocks => exact slots.elim

/-! Pages. -/

def PG_DEV_SIZE : Nat := 1024

instance : NeZero BLOCKS_PER_PAGE := ⟨by decide⟩

def slotOf (blocks : Nat → DataBlock) (block : UInt32) : Frame := fun i => blocks (block.toNat * BLOCKS_PER_PAGE + i)

private def written (blocks : Nat → DataBlock) (frame : Frame) (block : UInt32) (places : List (Fin BLOCKS_PER_PAGE)) :
    Nat → DataBlock := fun n =>
  if n / BLOCKS_PER_PAGE = block.toNat ∧
    Fin.ofNat BLOCKS_PER_PAGE n ∈ places then frame (.ofNat BLOCKS_PER_PAGE n) else blocks n

section Frames
variable {block : UInt32} (small : block.toNat < PG_DEV_SIZE)
include small

private theorem place_inside (i : Fin BLOCKS_PER_PAGE) : block * .ofNat BLOCKS_PER_PAGE + .ofNat i < PG_DEV_BLOCKS ∧
    (block * .ofNat BLOCKS_PER_PAGE + .ofNat i).toNat = block.toNat * BLOCKS_PER_PAGE + i := by
  have few : i.val < 4 := i.isLt
  change block.toNat < 1024 at small
  have place : (block * .ofNat BLOCKS_PER_PAGE + .ofNat i).toNat = block.toNat * BLOCKS_PER_PAGE + i := by
    rw [UInt32.toNat_add, UInt32.toNat_mul, UInt32.toNat_ofNat', UInt32.toNat_ofNat']
    change (block.toNat * 4 % 2 ^ 32 + i.val % 2 ^ 32) % 2 ^ 32 = block.toNat * 4 + i.val
    omega
  refine ⟨?_, place⟩
  rw [UInt32.lt_iff_toNat_lt, place]
  change block.toNat * 4 + i.val < 4096
  omega

private theorem write_places (frame : Frame) (places : List (Fin BLOCKS_PER_PAGE)) (blocks : Nat → DataBlock) :
    (places.forM fun i => do
      let success ← call (.write PAGE_PARTITION (block * .ofNat BLOCKS_PER_PAGE + .ofNat i) (frame i))
      checked (if success then some () else none) : Effect BlockCall.Reply Stop Unit).run (array PG_DEV_BLOCKS) blocks =
          .done () (written blocks frame block places) := by
  induction places generalizing blocks with
  | nil =>
    have same : written blocks frame block [] = blocks := by
      funext n
      simp [written]
    rw [same]
    rfl
  | cons i rest ih =>
    obtain ⟨inside, place⟩ := place_inside small i
    have wrote := @array_write PG_DEV_BLOCKS PAGE_PARTITION _ blocks inside (frame i)
    refine (Prog.bind_done wrote).trans ((ih _).trans (congrArg (Outcome.done ()) ?_))
    funext n
    unfold written
    have few : i.val < 4 := i.isLt
    rw [place]
    by_cases here : n = block.toNat * BLOCKS_PER_PAGE + i
    · have page : n / BLOCKS_PER_PAGE = block.toNat := by
        change n / 4 = _
        change n = _ * 4 + _ at here
        omega
      have index : Fin.ofNat BLOCKS_PER_PAGE n = i := by
        apply Fin.ext
        change n % 4 = _
        change n = _ * 4 + _ at here
        omega
      rw [index, here, Function.update_self, ← here, page]
      simp
    · rw [Function.update_of_ne here]
      have elsewhere : n / BLOCKS_PER_PAGE = block.toNat → Fin.ofNat BLOCKS_PER_PAGE n ≠ i := by
        rintro page index
        apply here
        have := congrArg Fin.val index
        change n % 4 = _ at this
        change n / 4 = _ at page
        change n = _ * 4 + _
        omega
      by_cases page : n / BLOCKS_PER_PAGE = block.toNat
      · have later : Fin.ofNat BLOCKS_PER_PAGE n ∈ i :: rest ↔ Fin.ofNat BLOCKS_PER_PAGE n ∈ rest := by
          rw [List.mem_cons]
          exact or_iff_right (elsewhere page)
        simp only [page, true_and, later]
      · simp only [page, false_and]

theorem frameWrite_run (frame : Frame) (blocks : Nat → DataBlock) :
    ∃ after, (frameWrite frame block).run (array PG_DEV_BLOCKS) blocks = .done () after ∧
      ∀ other, slotOf after other = Function.update (slotOf blocks) block frame other := by
  refine ⟨written blocks frame block (List.finRange BLOCKS_PER_PAGE),
    write_places small frame (List.finRange BLOCKS_PER_PAGE) blocks,
    fun other => ?_⟩
  funext i
  have few : i.val < 4 := i.isLt
  have page : (other.toNat * BLOCKS_PER_PAGE + i) / BLOCKS_PER_PAGE = other.toNat := by
    change (_ * 4 + _) / 4 = _
    omega
  have index : Fin.ofNat BLOCKS_PER_PAGE (other.toNat * BLOCKS_PER_PAGE + i) = i := by
    apply Fin.ext
    change (_ * 4 + _) % 4 = _
    omega
  unfold slotOf written
  rw [page, index]
  by_cases same : other = block
  · subst same
    rw [Function.update_self]
    simp
  · have different : other.toNat ≠ block.toNat := fun equal => same (UInt32.toNat_inj.mp equal)
    rw [Function.update_of_ne same]
    simp [different]

private theorem read_places (frame : Frame) (places : List (Fin BLOCKS_PER_PAGE)) (blocks : Nat → DataBlock) :
    (places.foldlM (fun (frame : Frame) i => do
      let data ← checked (← call (.read PAGE_PARTITION (block * .ofNat BLOCKS_PER_PAGE + .ofNat i)))
      pure (Function.update frame i data)) frame : Effect BlockCall.Reply Stop Frame).run (array PG_DEV_BLOCKS) blocks =
      .done (fun i => if i ∈ places then slotOf blocks block i else frame i) blocks := by
  induction places generalizing frame with
  | nil =>
    have same : (fun i => if i ∈ ([] : List (Fin BLOCKS_PER_PAGE)) then slotOf blocks block i else frame i) =
      frame := by simp
    rw [same]
    rfl
  | cons i rest ih =>
    obtain ⟨inside, place⟩ := place_inside small i
    have found := @array_read PG_DEV_BLOCKS PAGE_PARTITION _ blocks inside
    rw [place] at found
    refine (Prog.bind_done found).trans ((ih _).trans (congrArg (Outcome.done · blocks) ?_))
    funext j
    by_cases same : j = i
    · subst same
      simp [slotOf]
    · simp [same]

theorem frameRead_run (frame : Frame) (blocks : Nat → DataBlock) :
    (frameRead frame block).run (array PG_DEV_BLOCKS) blocks = .done (slotOf blocks block) blocks := by
  refine (read_places small frame (List.finRange BLOCKS_PER_PAGE) blocks).trans (congrArg (Outcome.done · blocks) ?_)
  funext i
  exact if_pos (List.mem_finRange i)

end Frames

/-! Sessions. -/

def PageOp.block : PageOp → UInt32
  | .out _ block => block
  | .back block => block

/-- The frames that a process gets back from a device that nobody else uses. -/
def swap (slots : UInt32 → Frame) : List PageOp → List Frame
  | [] => []
  | .out frame block :: rest => swap (Function.update slots block frame) rest
  | .back block :: rest => slots block :: swap slots rest

def ofPage (owner : UInt32 → Pid) (offset : UInt32) : Pid := owner (offset / .ofNat BLOCKS_PER_PAGE)

private theorem place_page {block : UInt32} (small : block.toNat < PG_DEV_SIZE) (i : Fin BLOCKS_PER_PAGE) :
    (block * .ofNat BLOCKS_PER_PAGE + .ofNat i) / .ofNat BLOCKS_PER_PAGE = block := by
  have few : i.val < 4 := i.isLt
  apply UInt32.toNat_inj.mp
  rw [UInt32.toNat_div, (place_inside small i).2, UInt32.toNat_ofNat']
  change (block.toNat * 4 + i.val) / 4 = _
  omega

theorem session_uses {owner : UInt32 → Pid} {process : Pid} {ops : List PageOp}
    (own : ∀ op ∈ ops, op.block.toNat < PG_DEV_SIZE ∧ owner op.block = process) :
    (session ops).Uses (Slots (ofPage owner) (.paging process)) fun _ => True := by
  induction ops with
  | nil => trivial
  | cons op rest ih =>
    have later := ih fun other member => own other (List.mem_cons_of_mem _ member)
    obtain ⟨small, mine⟩ := own op List.mem_cons_self
    have place : ∀ i : Fin BLOCKS_PER_PAGE, ofPage owner (op.block * .ofNat BLOCKS_PER_PAGE + .ofNat i) = process := by
      intro i
      unfold ofPage
      rw [place_page small i]
      exact mine
    cases op with
    | out frame block =>
      refine Effect.uses_bind (Effect.uses_forM fun i _ => ?_) fun _ => later
      exact ⟨⟨rfl, place i⟩, fun success => by cases success <;> trivial⟩
    | back block =>
      refine Effect.uses_bind (Effect.uses_foldlM (fun frame i _ => ?_) _) fun frame => Effect.uses_bind later
        fun _ => trivial
      exact ⟨⟨rfl, place i⟩, fun data => by cases data <;> trivial⟩

theorem session_run {ops : List PageOp} (small : ∀ op ∈ ops, op.block.toNat < PG_DEV_SIZE) (blocks : Nat → DataBlock) :
    ∃ last, (session ops).run (array PG_DEV_BLOCKS) blocks = .done (swap (slotOf blocks) ops) last := by
  induction ops generalizing blocks with
  | nil => exact ⟨blocks, rfl⟩
  | cons op rest ih =>
    have later := ih fun other member => small other (List.mem_cons_of_mem _ member)
    cases op with
    | out frame block =>
      have inside : block.toNat < PG_DEV_SIZE := small _ List.mem_cons_self
      obtain ⟨after, wrote, slots⟩ := frameWrite_run inside frame blocks
      obtain ⟨last, ran⟩ := later after
      refine ⟨last, ?_⟩
      unfold session
      rw [Effect.run_bind, Prog.bind_done wrote, ran, show slotOf after = _ from funext slots]
      rfl
    | back block =>
      have inside : block.toNat < PG_DEV_SIZE := small _ List.mem_cons_self
      have read := frameRead_run inside (fun _ _ => 0) blocks
      obtain ⟨last, ran⟩ := later blocks
      refine ⟨last, ?_⟩
      unfold session
      rw [Effect.run_bind, Prog.bind_done read, Effect.run_bind, Prog.bind_done ran]
      rfl

section Pages
variable {α : Type} {phys virt src : Pid} {memory : Fin NCACHE_BLOCKS.toNat → Block}
    {client : Effect BlockCall.Reply Stop α}
  {file : List UInt8} {turns : List Client} {after : Stack α (List Frame)} {owner : UInt32 → Pid}
    {ops : Pid → List PageOp}
  (own : ∀ process, ∀ op ∈ ops process, op.block.toNat < PG_DEV_SIZE ∧ owner op.block = process)
include own

/-- Processes that have a paging device to themselves. Each can come to its end wherever the others are. -/
theorem device_served {w last : Clients BlockCall.Reply Stop (Result α (List Frame)) (Nat → DataBlock)}
    (sessions : ∀ process, w.program (.paging process) = session (ops process))
    (idle : w.program .files = .halt .nullPointer)
    (run : Run (Clients.Step fun _ => array PG_DEV_BLOCKS) w turns last) (process : Pid) :
    ∃ blocks, (last.program (.paging process)).run (array PG_DEV_BLOCKS) last.state =
        .done (swap (slotOf w.state) (ops process)) blocks := by
  have slots : w.Behave id (Slots (ofPage owner)) := by
    intro c
    cases c with
    | files =>
      rw [idle]
      trivial
    | paging process =>
      rw [sessions]
      exact session_uses (own process)
  have start : Finds (ofPage owner) w.state fun _ => w.state := fun _ => rfl
  have separate := slots_separate PG_DEV_BLOCKS (ofPage owner)
  obtain ⟨uses, parts, finds, same⟩ := separate.ends slots start run (i := .paging process) fun _ => id
  obtain ⟨blocks, ran⟩ := session_run (fun op member => (own process op member).1) w.state
  rw [sessions] at same
  have alone := separate.alike (i := .paging process) (uses (.paging process)) finds
  rw [same.trans ran] at alone
  obtain ⟨blocks, ended, _⟩ := alone.done_of
  exact ⟨blocks, ended⟩

/-- What is left of a session gets the frames that the session gets on a device that nobody else uses. -/
theorem session_left (run : Run (Turn phys virt) (started src memory client
    (fun process => session (ops process)) file) turns after) (process : Pid) :
    after.Behave Client.partition Own ∧ ∃ parts, Split after.state parts ∧
      ∃ blocks, (after.program (.paging process)).run (array PG_DEV_BLOCKS) (parts .page) =
      .done (swap (slotOf (initial file .page)) (ops process)) blocks := by
  have pages : ∀ process, (session (ops process)).Uses (Own .page) fun _ => True := fun process =>
    (session_uses (own process)).mono (fun _ => Slots.own) fun _ => id
  have behave := @started_behave _ _ src memory client (fun process => session (ops process)) file pages
  obtain ⟨behaves, parts, still, runs⟩ := (physServer_separate phys virt).run behave (boot_split file) run
  -- the processes on a device of their own, where the files are not used
  let others : (c : Client) → Effect BlockCall.Reply Stop (Result α (List Frame) c) := fun _ => .halt .nullPointer
  obtain ⟨blocks, ran⟩ := device_served own (fun _ => rfl) rfl (runs others .page) process
  exact ⟨behaves, parts, still, blocks, ran⟩

/-- Processes that use different pages of the device, while files are used. None of them stops, and
each can come to its end, where it has got back the frames that it has written, or what was on the
disk. -/
theorem pages_served (run : Run (Turn phys virt) (started src memory client
    (fun process => session (ops process)) file) turns after) (process : Pid) :
    let frames := swap (slotOf (initial file .page)) (ops process)
    (∀ reason, after.program (.paging process) ≠ .halt reason) ∧
      (∀ result, after.program (.paging process) = .pure result → result = frames) ∧
      ∃ more final, Run (Turn phys virt) after more final ∧ final.program (.paging process) = .pure frames := by
  intro frames
  have stops : ∀ {turns : List Client} {after : Stack α (List Frame)},
      Run (Turn phys virt) (started src memory client (fun process => session (ops process)) file) turns after →
      (∀ reason, after.program (.paging process) ≠ .halt reason) ∧
          ∀ result, after.program (.paging process) = .pure result → result = frames := by
    intro turns after run
    obtain ⟨_, parts, _, blocks, rest⟩ := session_left own run process
    refine ⟨fun reason stopped => ?_, fun result finished => ?_⟩
    · rw [stopped] at rest
      cases rest
    · rw [finished] at rest
      exact (Outcome.done.inj rest).1
  obtain ⟨behaves, parts, still, _⟩ := session_left own run process
  obtain ⟨more, final, goes, ended⟩ := (physServer_separate phys virt).endsLater (i := .paging process)
    (fun call blocks _ => array_answers _ call blocks) behaves still
  obtain ⟨never, value⟩ := stops (run.append goes)
  obtain ⟨result, finished⟩ := ended.returned never
  obtain rfl := value result finished
  exact ⟨(stops run).1, (stops run).2, more, final, goes, finished⟩

end Pages

/-- The process 7 gets its frame back, although the process 8 writes to the device too. -/
theorem pages_served_two :
    ∃ turns final, Run (Turn 3 4) (started 5 (fun _ => Disk.nullBlock) (pure () : Effect BlockCall.Reply Stop Unit)
    (fun process => session (if process = 7 then [.out (fun _ _ => 70) 0, .back 0] else if process =
      8 then [.out (fun _ _ => 80) 1] else [])) [])
    turns final ∧ final.program (.paging 7) = .pure [fun _ _ => 70] := by
  let owner : UInt32 → Pid := fun block => if block = 0 then 7 else 8
  let ops : Pid → List PageOp := fun process =>
    if process = 7 then [.out (fun _ _ => 70) 0, .back 0] else if process = 8 then [.out (fun _ _ => 80) 1] else []
  have own : ∀ process, ∀ op ∈ ops process, op.block.toNat < PG_DEV_SIZE ∧ owner op.block = process := by
    intro process op member
    dsimp only [ops] at member
    split_ifs at member with seven eight
    · rw [seven]
      simp only [List.mem_cons, List.not_mem_nil, or_false] at member
      rcases member with rfl | rfl <;> decide
    · rw [eight, List.mem_singleton.mp member]
      decide
    · cases member
  have frames : swap (slotOf (initial [] .page)) (ops 7) = [fun _ _ => 70] := by simp [ops, swap]
  obtain ⟨_, _, turns, final, run, finished⟩ :=
    @pages_served Unit 3 4 5 (fun _ => Disk.nullBlock) (pure ()) [] _ _ owner ops own .nil 7
  rw [frames] at finished
  exact ⟨turns, final, run, finished⟩

end Egos.BlockStack
