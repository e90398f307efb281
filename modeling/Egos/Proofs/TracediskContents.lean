import Egos.Block.Tracedisk
import Egos.Proofs.TreediskFiles

/-! The trace layer never finds a block with other contents than it has written: each block
carries the numbers of its inode and its offset, or it is zero. -/

namespace Egos.Treedisk
open Library Library.Prog

def Report.Expected : Report → Prop
  | .unexpectedContent .. => False
  | _ => True

/-- The block carries the numbers, or zeros. -/
def Stamped (inode bno : UInt32) (block : Block .small) : Prop :=
  (ref block 0 = inode ∨ ref block 0 = 0) ∧ (ref block 1 = bno ∨ ref block 1 = 0)

theorem stamped_null (inode bno : UInt32) : Stamped inode bno nullBlock := ⟨.inr rfl, .inr rfl⟩

theorem stamped_set (inode bno : UInt32) (block : Block .small) :
    Stamped inode bno (setRef (setRef block 0 inode) 1 bno) := by
  have apart : Fin.ofNat BlockSize.small.refs 0 ≠ Fin.ofNat BlockSize.small.refs 1 := by decide
  constructor
  · left
    unfold ref setRef
    rw [Function.update_of_ne apart, Function.update_self]
  · left
    unfold ref setRef
    rw [Function.update_self]

private theorem onDisk_leaves {α : Type} {program : Tree .small α} {t : Tracer .small} {post : α → State .small → Prop}
    {stop : Halt → State .small → Prop} {disk : State .small} (same : t.disk = disk)
    (left : Leaves program disk post stop) :
    Leaves (onDisk program) t (fun value after => ∃ disk, after = { t with disk } ∧ post value disk)
      (fun reason after => ∃ disk, after = { t with disk } ∧ stop reason disk) :=
  Leaves.focus (same ▸ left.weaken (fun _ disk holds => ⟨disk, rfl, holds⟩) fun _ disk holds => ⟨disk, rfl, holds⟩)

structure Traced (n : BlockNo) (files : UInt32 → File .small) (t : Tracer .small) : Prop where
  held : Files n files t.disk
  stamped : ∀ i offset, Stamped i offset ((files i).block offset)
  entries : ∀ i, ∀ entry ∈ (t.inodes i).bl, entry.2 = (files i).block entry.1
  distinct : ∀ i, ((t.inodes i).bl.map Prod.fst).Nodup
  expected : ∀ report ∈ t.reports, report.Expected

def Ended (reason : Halt) (t : Tracer .small) : Prop := reason = full ∧ ∀ report ∈ t.reports, report.Expected

namespace Traced
variable {n : BlockNo} {files : UInt32 → File .small} {t : Tracer .small} {i : UInt32}

theorem reported {message : Report} (traced : Traced n files t) (expected : message.Expected) :
    Traced n files { t with reports := t.reports ++ [message] } := by
  refine ⟨traced.held, traced.stamped, traced.entries, traced.distinct, fun report member => ?_⟩
  rcases List.mem_append.mp member with old | new
  · exact traced.expected report old
  · rw [List.mem_singleton.mp new]
    exact expected

/-- The block list of one inode changes, and so may its file. -/
private theorem relist {bl : List (BlockNo × Block .small)} {virt : Virtdisk .small} {file : File .small}
    {disk : State .small}
    (traced : Traced n files t) (listed : virt.bl = bl) (held : Files n (Function.update files i file) disk)
    (stamped : ∀ offset, Stamped i offset (file.block offset)) (entries : ∀ entry ∈ bl, entry.2 = file.block entry.1)
    (distinct : (bl.map Prod.fst).Nodup) :
    Traced n (Function.update files i file) { t with disk, inodes := Function.update t.inodes i virt } := by
  subst listed
  refine ⟨held, fun j => ?_, fun j => ?_, fun j => ?_, traced.expected⟩
  all_goals by_cases same : j = i
  · subst same
    rw [Function.update_self]
    exact stamped
  · rw [Function.update_of_ne same]
    exact traced.stamped j
  · subst same
    dsimp only
    rw [Function.update_self, Function.update_self]
    exact entries
  · dsimp only
    rw [Function.update_of_ne same, Function.update_of_ne same]
    exact traced.entries j
  · subst same
    dsimp only
    rw [Function.update_self]
    exact distinct
  · dsimp only
    rw [Function.update_of_ne same]
    exact traced.distinct j

/-- Only the block list of one inode changes. -/
private theorem setVirt {virt : Virtdisk .small} (traced : Traced n files t)
    (entries : ∀ entry ∈ virt.bl, entry.2 = (files i).block entry.1)
    (distinct : (virt.bl.map Prod.fst).Nodup) :
    Traced n files { t with inodes := Function.update t.inodes i virt } := by
  have idle : Function.update files i (files i) = files := Function.update_eq_self _ _
  have same : Files n (Function.update files i (files i)) t.disk := idle.symm ▸ traced.held
  have changed := traced.relist rfl same (traced.stamped i) entries distinct
  rw [idle] at changed
  exact changed

private theorem setBuffer (traced : Traced n files t) (block : Block .small) : Traced n files { t with block } :=
  ⟨traced.held, traced.stamped, traced.entries, traced.distinct, traced.expected⟩

private theorem setCnt (traced : Traced n files t) (cnt : UInt32) : Traced n files { t with cnt } :=
  ⟨traced.held, traced.stamped, traced.entries, traced.distinct, traced.expected⟩

variable (traced : Traced n files t) (inside : i.toNat < n.toNat * BlockSize.small.inodes)
include traced inside

theorem openVirt_leaves :
    Leaves (openVirt i) t (fun _ after => Traced n files after ∧ (after.inodes i).treedisk = true) Ended := by
  obtain ⟨nodes, volume⟩ := traced.held.volume
  unfold openVirt
  apply Leaves.get
  cases isOpen : (t.inodes i).treedisk with
  | true => exact ⟨traced, isOpen⟩
  | false =>
    have opens : treediskInit i t.disk = .done true t.disk := by
      unfold treediskInit
      rw [bind_done (volume.getSnapshot_returns inside)]
      rfl
    have opened : onDisk (treediskInit i) t = .done true t := by
      unfold onDisk Prog.focus
      rw [opens]
    apply Leaves.bind_returns opened
    refine ⟨traced.setVirt (fun _ none => absurd none List.not_mem_nil) List.nodup_nil, ?_⟩
    dsimp only
    rw [Function.update_self]

theorem read_leaves (bno : UInt32) : Leaves (checkdiskRead i bno) t
    (fun result after => Traced n files after ∧ (¬ result < 0 → after.block = (files i).block bno)) Ended := by
  have reads := traced.held.read inside bno t.block
  unfold checkdiskRead
  apply Leaves.get
  by_cases below : bno.toNat < (files i).extent
  · rw [if_pos below] at reads
    have returned : onDisk (treediskRead i bno t.block) t = .done (0, (files i).block bno) t := by
      unfold onDisk Prog.focus
      rw [reads]
    have buffered := traced.setBuffer ((files i).block bno)
    apply Leaves.bind_returns returned
    apply Leaves.modify
    simp only [show decide ((0 : Int) < 0) = false from rfl]
    cases found : (t.inodes i).bl.find? fun entry => entry.1 = bno with
    | some entry =>
      obtain ⟨offset, known⟩ := entry
      have listed := List.mem_of_find?_eq_some found
      have here : offset = bno := by
        have holds := List.find?_some found
        exact of_decide_eq_true holds
      have same : known = (files i).block bno := here ▸ traced.entries i _ listed
      simp only [decide_eq_true same]
      exact ⟨buffered, fun _ => rfl⟩
    | none =>
      have fresh : bno ∉ (t.inodes i).bl.map Prod.fst := by
        intro member
        obtain ⟨entry, listed, same⟩ := List.mem_map.mp member
        exact of_decide_eq_false (Bool.eq_false_iff.mpr (List.find?_eq_none.mp found entry listed)) same
      apply Leaves.modify
      refine ⟨buffered.setVirt (fun entry member => ?_) ?_, fun _ => rfl⟩
      · rcases List.mem_cons.mp member with rfl | old
        · rfl
        · exact traced.entries i entry old
      · exact List.nodup_cons.mpr ⟨fresh, traced.distinct i⟩
  · rw [if_neg below] at reads
    have returned : onDisk (treediskRead i bno t.block) t = .done (-1, t.block) t := by
      unfold onDisk Prog.focus
      rw [reads]
    apply Leaves.bind_returns returned
    exact ⟨traced.setBuffer t.block, fun positive => absurd (by decide) positive⟩

end Traced

/-! The block list after a write. -/

section Enter
variable {offset : BlockNo} {block : Block .small} {bl : List (BlockNo × Block .small)}

private theorem replace_fst : (replace offset block bl).map Prod.fst = bl.map Prod.fst := by
  induction bl with
  | nil => rfl
  | cons entry rest ih =>
    unfold replace
    split
    · rename_i same
      rw [List.map_cons, List.map_cons, same]
    · rw [List.map_cons, List.map_cons, ih]

private theorem mem_replace {entry : BlockNo × Block .small} (distinct : (bl.map Prod.fst).Nodup)
    (member : entry ∈ replace offset block bl) :
    entry = (offset, block) ∨ entry ∈ bl ∧ entry.1 ≠ offset := by
  induction bl with
  | nil => cases member
  | cons first rest ih =>
    rw [List.map_cons, List.nodup_cons] at distinct
    unfold replace at member
    split at member
    · rename_i same
      rcases List.mem_cons.mp member with rfl | later
      · exact .inl rfl
      · refine .inr ⟨List.mem_cons_of_mem _ later, fun equal => distinct.1 ?_⟩
        rw [same, ← equal]
        exact List.mem_map_of_mem later
    · rename_i other
      rcases List.mem_cons.mp member with rfl | later
      · exact .inr ⟨List.mem_cons_self, other⟩
      · exact (ih distinct.2 later).imp_right fun ⟨listed, apart⟩ => ⟨List.mem_cons_of_mem _ listed, apart⟩

private theorem enter_distinct (distinct : (bl.map Prod.fst).Nodup) : ((enter offset block bl).map Prod.fst).Nodup := by
  unfold enter
  split
  · rw [replace_fst]
    exact distinct
  · rename_i fresh
    exact List.nodup_cons.mpr ⟨fresh, distinct⟩

private theorem mem_enter {entry : BlockNo × Block .small} (distinct : (bl.map Prod.fst).Nodup)
    (member : entry ∈ enter offset block bl) :
    entry = (offset, block) ∨ entry ∈ bl ∧ entry.1 ≠ offset := by
  unfold enter at member
  split at member
  · exact mem_replace distinct member
  · rename_i fresh
    rcases List.mem_cons.mp member with rfl | later
    · exact .inl rfl
    · exact .inr ⟨later, fun same => fresh (same ▸ List.mem_map_of_mem later)⟩

end Enter

namespace Traced
variable {n : BlockNo} {files : UInt32 → File .small} {t : Tracer .small} {i bno : UInt32}

section Commands
variable (traced : Traced n files t) (inside : i.toNat < n.toNat * BlockSize.small.inodes)
include traced inside

theorem write_leaves (low : bno.toNat < 2 ^ 27) {data : Block .small} (stamped : Stamped i bno data) :
    Leaves (checkdiskWrite i bno data) t (fun _ after => ∃ files, Traced n files after) Ended := by
  unfold checkdiskWrite
  apply Leaves.bind (onDisk_leaves rfl (traced.held.write inside low data))
  · rintro result _ ⟨disk, rfl, rfl, held⟩
    simp only [show decide ((0 : Int) < 0) = false from rfl]
    apply Leaves.modify
    refine ⟨_, traced.relist rfl held (fun offset => ?_) (fun entry member => ?_) (enter_distinct (traced.distinct i))⟩
    · change Stamped i offset (Function.update (files i).block bno data offset)
      by_cases same : offset = bno
      · rw [same, Function.update_self]
        exact stamped
      · rw [Function.update_of_ne same]
        exact traced.stamped i offset
    · change entry.2 = Function.update (files i).block bno data entry.1
      rcases mem_enter (traced.distinct i) member with rfl | ⟨listed, apart⟩
      · exact (Function.update_self bno data (files i).block).symm
      · rw [Function.update_of_ne apart]
        exact traced.entries i entry listed
  · rintro reason _ ⟨disk, rfl, stopped⟩
    exact ⟨stopped, traced.expected⟩

theorem setsize_leaves : Leaves (checkdiskSetsize i bno) t (fun _ after => ∃ files, Traced n files after) Ended := by
  have kept : (((t.inodes i).bl.filter fun entry => entry.1 < bno).map Prod.fst).Nodup :=
    (traced.distinct i).sublist (List.filter_sublist.map Prod.fst)
  unfold checkdiskSetsize
  apply Leaves.modify
  refine Leaves.weaken (onDisk_leaves ?_ (Leaves.of_ensures (traced.held.setsize_total inside bno))) ?_ ?_
  · rfl
  · rintro answer _ ⟨disk, rfl, _, held⟩
    refine ⟨_, traced.relist rfl held (fun offset => ?_) (fun entry member => ?_) kept⟩
    · unfold File.setsize
      split
      · exact stamped_null i offset
      · exact traced.stamped i offset
    · obtain ⟨listed, below⟩ := List.mem_filter.mp member
      unfold File.setsize
      split
      · rename_i zero
        rw [zero] at below
        exact absurd (of_decide_eq_true below) UInt32.not_lt_zero
      · exact traced.entries i entry listed
  · rintro reason _ ⟨disk, rfl, impossible⟩
    exact impossible.elim

omit inside in
/-- A report that is not about contents. -/
private theorem reports {message : Report} (expected : message.Expected) :
    Leaves (report message) t (fun _ after => ∃ files, Traced n files after) Ended := ⟨files, traced.reported expected⟩

theorem command_leaves (cmd : Char) (low : bno.toNat < 2 ^ 27) (isOpen : (t.inodes i).treedisk = true) :
    Leaves (tracediskCommand cmd i bno) t (fun _ after => ∃ files, Traced n files after) Ended := by
  have through : ∀ {α : Type} {call : Trace .small α} {t : Tracer .small} {post : α → Tracer .small → Prop},
      (t.inodes i).treedisk = true → Leaves call t post Ended → Leaves (throughTree i call) t post Ended := by
    intro α call t post isOpen left
    unfold throughTree
    apply Leaves.get
    simp only [isOpen]
    exact left
  unfold tracediskCommand
  split
  · apply Leaves.bind (through isOpen (traced.read_leaves inside bno))
    · rintro result after ⟨traced, content⟩
      cases failed : decide (result < 0) with
      | true => exact traced.reports trivial
      | false =>
        have block := content (of_decide_eq_false failed)
        have stamped := traced.stamped i bno
        rw [← block] at stamped
        apply Leaves.get
        cases unexpected : decide ((ref after.block 0 ≠ i ∧ ref after.block 0 ≠ 0) ∨
          (ref after.block 1 ≠ bno ∧ ref after.block 1 ≠ 0)) with
        | true =>
          rcases of_decide_eq_true unexpected with ⟨inode, zero⟩ | ⟨offset, zero⟩
          · exact (stamped.1.elim inode zero).elim
          · exact (stamped.2.elim offset zero).elim
        | false => exact ⟨files, traced⟩
    · exact fun _ _ ended => ended
  · apply Leaves.modify
    apply Leaves.get
    have written := (traced.setBuffer (setRef (setRef t.block 0 i) 1 bno)).write_leaves inside low
      (stamped_set i bno t.block)
    refine Leaves.bind (through ?_ written) ?_ ?_
    · exact isOpen
    · rintro result after ⟨files, traced⟩
      cases failed : decide (result < 0) with
      | true => exact traced.reports trivial
      | false => exact ⟨files, traced⟩
    · exact fun _ _ ended => ended
  · apply Leaves.bind (through isOpen (traced.setsize_leaves inside))
    · rintro result after ⟨files, traced⟩
      cases result with
      | none => exact traced.reports trivial
      | some result =>
        dsimp only
        cases failed : decide (result ≥ 2 ^ 31) with
        | true => exact traced.reports trivial
        | false => exact ⟨files, traced⟩
    · exact fun _ _ ended => ended
  · obtain ⟨size, _, counts⟩ := traced.held.nblocks inside
    have returned : throughTree i (checkdiskNblocks i) t = .done (some size) t := by
      unfold throughTree checkdiskNblocks onDisk Prog.focus
      rw [bind_done (get_run t)]
      simp only [isOpen, counts]
    apply Leaves.bind_returns returned
    apply Leaves.get
    cases differs : decide ((some size).getD (-1) ≠ bno) with
    | true => exact traced.reports trivial
    | false => exact ⟨files, traced⟩
  · exact traced.reports trivial

end Commands

theorem run_leaves {nInodes : UInt32} (known : nInodes.toNat ≤ n.toNat * BlockSize.small.inodes)
    (trace : List (Char × UInt32 × UInt32))
    (traced : Traced n files t) :
    Leaves (tracediskRun nInodes trace) t (fun _ after => ∃ files, Traced n files after) Ended := by
  induction trace generalizing t files with
  | nil => exact ⟨files, traced⟩
  | cons line trace ih =>
    obtain ⟨cmd, inode, bno⟩ := line
    unfold tracediskRun
    split
    · exact traced.reports trivial
    · rename_i small
      split
      · exact traced.reports trivial
      · rename_i low
        have inside : inode.toNat < n.toNat * BlockSize.small.inodes :=
          Nat.lt_of_lt_of_le (UInt32.lt_iff_toNat_lt.mp (UInt32.not_le.mp small)) known
        apply Leaves.bind (traced.openVirt_leaves inside)
        · rintro _ opened ⟨traced, isOpen⟩
          apply Leaves.bind (traced.command_leaves inside cmd (UInt32.lt_iff_toNat_lt.mp (UInt32.not_le.mp low)) isOpen)
          · rintro _ after ⟨files, traced⟩
            apply Leaves.modify
            exact ih (traced.setCnt _)
          · exact fun _ _ ended => ended
        · exact fun _ _ ended => ended

end Traced

/-- On a store that is formatted every inode is a sparse array of blocks, which the calls on this inode
alone determine. A trace layer on top finds the contents it expects. -/
theorem sparse_files {nInodes : UInt32} {store : Store .small} {created : State .small}
    (clear : nInodeblocks (store.block 0) = 0)
    (format : treediskCreate nInodes ⟨store, []⟩ = .done 0 created) :
    (∀ events session, Run (Guarded Within Step) ⟨created, []⟩ events session →
      ∀ i : UInt32, i.toNat < (inodeBlocks .small nInodes).toNat * BlockSize.small.inodes →
        (∃ size : BlockNo, size.toNat = (fileOf i events).extent ∧
          treediskNblocks i session.disk = .done (some size) session.disk) ∧
        (∀ offset buffer, treediskRead i offset buffer session.disk = .done
          (if offset.toNat < (fileOf i events).extent then (0, (fileOf i events).block offset) else (-1, buffer))
            session.disk) ∧
        (∀ offset block, offset.toNat < 2 ^ 27 →
          Leaves (treediskWrite i offset block) session.disk (fun code _ => code = 0) (fun reason _ => reason = full)) ∧
        ∃ after, treediskSetsize i 0 session.disk = .done (some 0) after) ∧
    ∀ trace : List (Char × UInt32 × UInt32), Leaves (tracediskRun nInodes trace) (Tracer.start created)
      (fun _ t => ∀ report ∈ t.reports, report.Expected)
          (fun reason t => reason = full ∧ ∀ report ∈ t.reports, report.Expected) := by
  obtain ⟨nodes, formatted⟩ := @formatted_of_create .small nInodes ⟨store, []⟩ created clear format
  constructor
  · intro events session run i inside
    have held := (files_of_run formatted run).1
    refine ⟨held.nblocks inside, held.read inside, fun offset block low => ?_, ?_⟩
    · exact (held.write inside low block).weaken (fun _ _ written => written.1) fun _ _ stopped => stopped
    · obtain ⟨answer, after, ran, same, _⟩ := (held.setsize_total inside 0).total
      rw [ran]
      refine ⟨after, ?_⟩
      congr 1
      rw [same]
      split <;> rfl
  · intro trace
    have start : Traced (inodeBlocks .small nInodes) (fun _ => File.empty) (Tracer.start created) :=
      ⟨formatted.files, fun i offset => stamped_null i offset, fun _ _ none => absurd none List.not_mem_nil,
        fun _ => List.nodup_nil,
        fun _ none => absurd none List.not_mem_nil⟩
    exact (start.run_leaves (inodeBlocks_enough nInodes) trace).weaken (fun _ _ ⟨_, traced⟩ => traced.expected)
      fun _ _ ended => ended

def sampleEvents : List (Event .small) :=
  [.opens 0, .opens 1, .call (.write 1 0 fun _ => 8), .call (.write 0 3 fun _ => 7)]

/-- One write at offset 3 makes a file of four blocks, three of which are holes. -/
theorem sparse_files_sample : ∃ created session, treediskCreate 1 ⟨sampleStore, []⟩ = .done 0 created ∧
    Run (Guarded Within Step) ⟨created, []⟩ sampleEvents session ∧
      treediskNblocks 0 session.disk = .done (some 4) session.disk ∧
    (∀ buffer, treediskRead 0 1 buffer session.disk = .done (0, nullBlock) session.disk) ∧
    ∀ buffer, treediskRead 0 3 buffer session.disk = .done (0, fun _ => 7) session.disk := by
  obtain ⟨created, format, same⟩ := @Session.on_formats .small 1 sampleStore (by decide +kernel) rfl
  have ran : ((Session.on 1 sampleStore).bind fun start =>
      sampleEvents.foldlM (fun s event => if Within s event then s.next event else none) start).isSome =
        true := by decide +kernel
  rw [same, Option.bind_some] at ran
  obtain ⟨session, reached⟩ := Option.isSome_iff_exists.mp ran
  have run : Run (Guarded Within Step) ⟨created, []⟩ sampleEvents session := by
    refine Run.of_foldlM ?_ reached
    intro before event after moved
    exact Option.ite_none_right_eq_some.mp moved
  obtain ⟨⟨size, extent, counts⟩, reads, _⟩ :=
    (sparse_files rfl format).1 sampleEvents session run 0 (by decide +kernel)
  have four : size = 4 := UInt32.toNat_inj.mp extent
  exact ⟨created, session, format, run, four ▸ counts, fun buffer => reads 1 buffer, fun buffer => reads 3 buffer⟩

/-- treedisk_create leaves a formatted store as it is. -/
theorem preset_files : ∃ created : State .small, treediskCreate 1 ⟨presetStore, []⟩ = .done 0 created ∧
    treediskNblocks 0 created = .done (some 5) created ∧ (fileOf 0 ([] : List (Event .small))).extent = 0 :=
  ⟨⟨presetStore, []⟩, rfl, rfl, rfl⟩

end Egos.Treedisk
