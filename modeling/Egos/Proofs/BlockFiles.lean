import Egos.Proofs.BlockDisk
import Egos.Proofs.BlockInodes

/-! The servers between the disk and the files, while processes are paged: files are those of a
file system that has the volume to itself, and pages are those of a paging device. -/

namespace Egos.BlockStack
open Library BlockClient
open Disk (Block)
open Partdisk (Partition PG_DEV_BLOCKS)
open Grass (Pid)

/-- The blocks that the disk holds when it is started on a file of the host. -/
def initial (file : List UInt8) (p : Partition) : Nat → Files.DataBlock := fun n =>
  (Disksvr.State.init (16 * 1024) file).dd.block ((partOf p).delta.toNat + n)

theorem boot_split (file : List UInt8) : Split (boot file) (initial file) :=
  ⟨rfl, (Disksvr.State.init (16 * 1024) file).dd.block, ⟨rfl, rfl, rfl, rfl⟩, fun _ _ _ => rfl⟩

def found (file : List UInt8) : Fatdisk.State :=
  { below := volumeOf (initial file .file), fatblocks := 0, failed := false }

section Stack
variable {α β : Type}

abbrev Result (α β : Type) : Client → Type
  | .files => α
  | .paging _ => β

abbrev Stack (α β : Type) := Clients BlockCall.Reply Stop (Result α β) PhysState

/-- A client of the virtual block server, and a program for each process that reads and writes pages. -/
def started (src : Pid) (memory : Fin NCACHE_BLOCKS.toNat → Block) (client : Effect BlockCall.Reply Stop α)
    (paging : Pid → Effect BlockCall.Reply Stop β) (file : List UInt8) : Stack α β where
  program
    | .files => virtCalls src memory client
    | .paging process => paging process
  state := boot file

/-- A call of the physical block server from one of its clients. -/
abbrev Turn (phys virt : Pid) : Stack α β → Client → Stack α β → Prop :=
  Clients.Step fun client => physServer phys (client.pid virt)

variable {phys virt src : Pid} {memory : Fin NCACHE_BLOCKS.toNat → Block} {client : Effect BlockCall.Reply Stop α}
  {paging : Pid → Effect BlockCall.Reply Stop β} {file : List UInt8} {turns : List Client} {after : Stack α β}

private theorem protdisk_own (method : Disk.Method) (own : Unit) :
    (protdisk FILE_PARTITION method own).Uses (Own .file) fun _ => True := by
  cases method with
  | nblocks => exact ⟨rfl, fun size => by cases size <;> trivial⟩
  | setsize nblocks => trivial
  | read offset buffer => exact ⟨rfl, fun data => by cases data <;> trivial⟩
  | write offset block => exact ⟨rfl, fun _ => trivial⟩

theorem started_behave (pages : ∀ process, (paging process).Uses (Own .page) fun _ => True) :
    (started src memory client paging file).Behave Client.partition Own := by
  intro c
  cases c with
  | files => exact Effect.uses_bind (Effect.through_uses (Effect.uses_all _)
      fun method _ own => protdisk_own method own) fun _ => trivial
  | paging process => exact pages process

/-- What is left of the client does on its partition what the client does on the volume as it was found. -/
theorem files_left (pages : ∀ process, (paging process).Uses (Own .page) fun _ => True)
    (run : Run (Turn phys virt) (started src memory client paging file) turns after) :
    after.Behave Client.partition Own ∧ ∃ parts, Split after.state parts ∧
      ((after.program .files).run (array FILE_BLOCKS) (parts .file)).Alike
          (fun s t => t.below = volumeOf s) (files client (found file)) := by
  have behave := @started_behave _ _ src memory client paging file pages
  obtain ⟨behaves, parts, still, same⟩ :=
    (physServer_separate phys virt).ends behave (boot_split file) run (i := .files)
    fun j grouped => by
      cases j with
      | files => rfl
      | paging process => cases grouped
  change (after.program .files).run (array FILE_BLOCKS) (parts .file) =
    (virtCalls src memory client).run (array FILE_BLOCKS) (initial file .file) at same
  have alike := virtCalls_alike src memory client (initial file .file)
  rw [← same] at alike
  exact ⟨behaves, parts, still, alike⟩

/-- A partition answers every call. -/
theorem array_answers (size : UInt32) (call : BlockCall) (blocks : Nat → Files.DataBlock) :
    ∃ reply last, array size call blocks = .done reply last := by
  cases call with
  | read ino offset => exact ⟨_, _, rfl⟩
  | write ino offset data =>
    by_cases inside : offset < size
    · exact ⟨_, _, array_write inside data⟩
    · exact ⟨_, _, array_write_past inside data⟩
  | getsize ino => exact ⟨_, _, rfl⟩
  | setsize ino nblocks => exact ⟨_, _, rfl⟩

variable (phys virt) in
/-- A client of the virtual block server can come to its end, and it ends as it does alone. -/
theorem ends_like {τ : Type} {related : (Nat → Files.DataBlock) → τ → Prop} {outcome : Outcome τ Stop α}
    {parts : Partition → Nat → Files.DataBlock}
    (behaves : after.Behave Client.partition Own) (still : Split after.state parts)
    (alike : ((after.program .files).run (array FILE_BLOCKS) (parts .file)).Alike related outcome) :
    (∀ value, after.program .files = .pure value → ∃ last, outcome = .done value last) ∧
    (∀ reason, after.program .files = .halt reason → ∃ last, outcome = .halted reason last) ∧
    ∃ more final, Run (Turn phys virt) after more final ∧ (final.program .files).Ended := by
  refine ⟨fun value finished => ?_, fun reason halted => ?_, ?_⟩
  · rw [finished] at alike
    obtain ⟨last, ran, _⟩ := alike.of_done
    exact ⟨last, ran⟩
  · rw [halted] at alike
    exact alike.of_halted
  · exact (physServer_separate phys virt).endsLater (fun call own _ => array_answers _ call own) behaves still

/-- The client of the virtual block server among processes that are paged. It ends as it does on a
FAT file system that has the volume to itself, and it can always come to that end. -/
theorem files_served (pages : ∀ process, (paging process).Uses (Own .page) fun _ => True)
    (run : Run (Turn phys virt) (started src memory client paging file) turns after) :
    (∀ value, after.program .files = .pure value → ∃ last, files client (found file) = .done value last) ∧
    (∀ reason, after.program .files = .halt reason → ∃ last, files client (found file) = .halted reason last) ∧
    ∃ more final, Run (Turn phys virt) after more final ∧ (final.program .files).Ended := by
  obtain ⟨behaves, parts, still, alike⟩ := files_left pages run
  exact ends_like phys virt behaves still alike

theorem found_blank (zeros : ∀ byte ∈ file, byte = 0) (position : Nat) :
    (found file).below.block position = Disk.nullBlock := by
  have zero : ∀ i, file.getD i 0 = 0 := by
    intro i
    rw [List.getD_eq_getElem?_getD]
    by_cases inside : i < file.length
    · rw [List.getElem?_eq_getElem inside]
      exact zeros _ (List.getElem_mem inside)
    · rw [List.getElem?_eq_none (Nat.not_lt.mp inside)]
      rfl
  have block : initial file .file position = Files.zeroBlock := funext fun _ => zero _
  change ofBytes (initial file .file position) = _
  rw [block, ← toBytes_nullBlock, ofBytes_toBytes]

/-- A client that can only come to one end comes to it. -/
theorem comes_to {value : α} (ended : (after.program .files).Ended) {τ : Type} {outcome : Outcome τ Stop α}
    {last : τ} (alone : outcome = .done value last)
    (values : ∀ value, after.program .files = .pure value → ∃ last, outcome = .done value last)
    (reasons : ∀ reason, after.program .files = .halt reason → ∃ last, outcome = .halted reason last) :
    after.program .files = .pure value := by
  have never : ∀ reason, after.program .files ≠ .halt reason := by
    intro reason left
    obtain ⟨last, ran⟩ := reasons reason left
    cases ran.symm.trans alone
  obtain ⟨other, left⟩ := ended.returned never
  obtain ⟨last, ran⟩ := values other left
  cases ran.symm.trans alone
  exact left

/-- Process 7 and the others read a block of the paging device again and again. -/
def pagingReads (_ : Pid) : Effect BlockCall.Reply Stop (Option Files.DataBlock) :=
  call (.read PAGE_PARTITION 0) >>= fun _ => call (.read PAGE_PARTITION 0)

theorem pagingReads_own (process : Pid) : (pagingReads process).Uses (Own .page) fun _ => True :=
  ⟨rfl, fun _ => ⟨rfl, fun _ => trivial⟩⟩

/-- Whatever the other processes do meanwhile. -/
theorem files_served_gap :
    ∃ turns final, Run (Turn 3 4) (started 5 (fun _ => Disk.nullBlock) gapClient pagingReads []) turns final ∧
    final.program .files = .pure (some Files.zeroBlock) := by
  obtain ⟨_, _, turns, final, run, ended⟩ :=
    @files_served _ _ 3 4 5 (fun _ => Disk.nullBlock) gapClient _ [] _ _ pagingReads_own .nil
  obtain ⟨values, reasons, _⟩ := files_served pagingReads_own run
  obtain ⟨_, alone⟩ := @gapClient_files (found []) rfl (found_blank (by simp))
  exact ⟨turns, final, run, comes_to ended alone values reasons⟩

/-- On a blank disk the client finds arrays of blocks, until the disk is full. -/
theorem inodes_served (zeros : ∀ byte ∈ file, byte = 0) (lengthens : client.Uses Lengthens fun _ => True)
    (pages : ∀ process, (paging process).Uses (Own .page) fun _ => True)
    (run : Run (Turn phys virt) (started src memory client paging file) turns after) :
    (∀ value, after.program .files = .pure value → ∃ last, client.run inodeArrays (fun _ => []) = .done value last) ∧
    (∀ reason, after.program .files = .halt reason →
      ∃ last, client.run inodeArrays (fun _ => []) = .halted reason last) ∧
    ∃ more final, Run (Turn phys virt) after more final ∧ (final.program .files).Ended := by
  obtain ⟨behaves, parts, still, alike⟩ := files_left pages run
  exact ends_like phys virt behaves still (alike.trans (files_alike lengthens rfl (found_blank zeros)))

theorem inodes_served_gap :
    ∃ turns final, Run (Turn 3 4) (started 5 (fun _ => Disk.nullBlock) gapClient pagingReads []) turns final ∧
    final.program .files = .pure (some Files.zeroBlock) := by
  obtain ⟨_, _, turns, final, run, ended⟩ :=
    @inodes_served _ _ 3 4 5 (fun _ => Disk.nullBlock) gapClient _ [] _ _
      (by simp) gapClient_lengthens pagingReads_own .nil
  obtain ⟨values, reasons, _⟩ := inodes_served (by simp) gapClient_lengthens pagingReads_own run
  exact ⟨turns, final, run, comes_to ended gapClient_run values reasons⟩

/-- No call of any client is left without an answer. -/
theorem clients_go_on (pages : ∀ process, (paging process).Uses (Own .page) fun _ => True)
    (run : Run (Turn phys virt) (started src memory client paging file) turns after) {c : Client} {call : BlockCall}
    {next : call.Reply → Effect BlockCall.Reply Stop (Result α β c)} (calls : after.program c = .call call next) :
    ∃ w, Turn phys virt after c w := by
  have behave := @started_behave _ _ src memory client paging file pages
  exact (physServer_separate phys virt).goesOn behave (boot_split file) run calls fun own _ => array_answers _ call own

/-- One call of process 7, one of process 8 and again one of process 7. -/
theorem clients_go_on_page : ∃ final, Run (Turn 3 4) (started 5 (fun _ => Disk.nullBlock) gapClient pagingReads [])
    [.paging 7, .paging 8, .paging 7] final := by
  have goes {turns : List Client} {w : Stack (Option Files.DataBlock) (Option Files.DataBlock)}
      (run : Run (Turn 3 4) (started 5 (fun _ => Disk.nullBlock) gapClient pagingReads []) turns w)
      {process : Pid} {op : BlockCall}
      {next : op.Reply → Effect BlockCall.Reply Stop (Option Files.DataBlock)}
      (calls : w.program (.paging process) = .call op next) :
      ∃ after reply, Run (Turn 3 4) (started 5 (fun _ => Disk.nullBlock) gapClient pagingReads [])
        (turns ++ [.paging process]) after ∧
        after.program = Function.update w.program (.paging process) (next reply) := by
    obtain ⟨after, step⟩ := clients_go_on pagingReads_own run calls
    have whole := run.snoc step
    cases step with
    | call same served =>
      cases calls.symm.trans same
      exact ⟨_, _, whole, rfl⟩
  obtain ⟨first, _, run, begun⟩ := goes .nil (show _ = pagingReads 7 from rfl)
  have apart : Client.paging 8 ≠ Client.paging 7 := by decide
  have waits : first.program (.paging 8) = pagingReads 8 := by rw [begun, Function.update_of_ne apart]; rfl
  obtain ⟨second, _, run, other⟩ := goes run waits
  have again : second.program (.paging 7) = call (.read PAGE_PARTITION 0) := by
    rw [other, Function.update_of_ne apart.symm, begun, Function.update_self]; rfl
  obtain ⟨final, _, run, _⟩ := goes run again
  exact ⟨final, run⟩

end Stack
end Egos.BlockStack
