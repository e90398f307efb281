import Egos.Grass.Blocksvr
import Egos.Proofs.FileSenders

/-! The inode numbers of requests and the tables of the servers: which handlers look at a table
before they have checked the number, or check it against something else than the table's size. -/

namespace Egos.Files
open Library
open Grass (Pid)

variable {Op α β : Type} {Reply : Op → Type}

/-- The program accesses no table past its end, whatever its calls return. -/
def Within (program : Effect Reply Halt α) : Prop :=
  program.Uses (fun _ => True) fun reason => ∀ table, reason ≠ .outOfBounds table

/-- A request with an inode number is handled within a table of the given size, and refused if the
number is past its end. -/
structure Checked (size : Nat) (ino : Option UInt32) (refusal program : Effect Reply Halt α) : Prop where
  within : Within program
  refused : ∀ number, ino = some number → size ≤ number.toNat → program = refusal

section Within
variable {program : Effect Reply Halt α} {next : α → Effect Reply Halt β}

theorem within_bind (first : Within program) (rest : ∀ value, Within (next value)) : Within (program >>= next) :=
  Effect.uses_bind first rest

theorem within_call {op : Op} {next : Reply op → Effect Reply Halt β} (rest : ∀ reply, Within (next reply)) :
    Within (Effect.perform op >>= next) := ⟨trivial, rest⟩

theorem within_ite {condition : Prop} [Decidable condition] {other : Effect Reply Halt α} (yes : Within program)
    (no : Within other) :
    Within (if condition then program else other) := Effect.uses_ite yes no

end Within

section Servers
variable {src : Pid}

theorem Plain.within {program : Server α} (plain : Plain program) : Within program :=
  plain.mono (fun _ _ => trivial) (by rintro _ rfl; nofun)

theorem within_findUid : Within (findUid src) := by
  refine within_call fun uid => ?_
  cases uid with
  | none => exact nofun
  | some uid => trivial

theorem within_allowed {owner other : UInt32} {stat : FileStat} : Within (allowed owner other (some stat) src) :=
  within_bind within_findUid fun _ => within_ite trivial trivial

/-- A handler that checks a permission first. -/
theorem within_checked {owner other : UInt32} {stat : FileStat} {refusal granted : Server α}
    (refuses : Within refusal) (goes : Within granted) :
    Within (do
      match ← allowed owner other (some stat) src with
      | false => refusal
      | true => granted) := by
  refine within_bind within_allowed fun value => ?_
  cases value with
  | false => exact refuses
  | true => exact goes

end Servers

/-- The inode number that a request is about. A request to create a file has none. -/
def FileRequest.inode (req : FileRequest) : Option UInt32 := if req.type = .create then none else some req.ino

theorem FileRequest.inode_some {req : FileRequest} {number : UInt32} (here : req.inode = some number) :
    req.type ≠ .create ∧ number = req.ino := by
  unfold FileRequest.inode at here
  split_ifs at here with create
  exact ⟨create, (Option.some.inj here).symm⟩

end Egos.Files

namespace Egos.Blkfile
open Library Files
open Grass (Pid)

variable {cache : Cache} {req : FileRequest} {data : List UInt8} {src : Pid} {ino : UInt32}

theorem allocated_past (past : MAX_INODES ≤ ino.toNat) : cache.allocated ino = none := by
  unfold Cache.allocated Cache.entry
  rw [dif_neg (Nat.not_lt.mpr past)]
  rfl

theorem create_within : Within (doCreate cache req src) := by
  unfold doCreate
  cases cache.unallocated with
  | none => exact plain_refuse.within
  | some ino => exact within_bind within_findUid fun _ => plain_flushed.within

theorem chown_within : Within (doChown cache req src) := by
  unfold doChown
  cases cache.allocated req.ino with
  | none => exact plain_refuse.within
  | some stat => exact within_bind within_findUid fun _ => within_ite plain_refuse.within plain_flushed.within

theorem chmod_within : Within (doChmod cache req src) := by
  unfold doChmod
  cases cache.allocated req.ino with
  | none => exact plain_refuse.within
  | some stat => exact within_bind within_findUid fun _ => within_ite plain_refuse.within plain_flushed.within

theorem read_within : Within (doRead cache req src) := by
  unfold doRead
  cases cache.allocated req.ino with
  | none => exact plain_refuse.within
  | some stat => exact within_checked plain_refuse.within (within_ite plain_readContents.within plain_replied.within)

theorem write_within : Within (doWrite cache req data src) := by
  unfold doWrite
  cases cache.allocated req.ino with
  | none => exact plain_refuse.within
  | some stat =>
    refine within_ite plain_refuse.within
      (within_checked plain_refuse.within (within_bind plain_put.within fun written => ?_))
    cases written with
    | none => exact plain_refuse.within
    | some cache => exact within_bind plain_respond.within fun _ => trivial

theorem stat_within : Within (doStat cache req src) := by
  unfold doStat
  cases cache.allocated req.ino with
  | none => exact plain_refuse.within
  | some stat => exact within_checked plain_refuse.within (within_call fun _ => trivial)

theorem setsize_within : Within (doSetsize cache req src) := by
  unfold doSetsize
  cases cache.allocated req.ino with
  | none => exact plain_refuse.within
  | some stat =>
    refine within_ite plain_refuse.within (within_checked plain_refuse.within (within_call fun success => ?_))
    exact within_bind plain_respondUnless.within fun _ => within_bind plain_flush.within
      fun _ => within_bind plain_respond.within fun _ => trivial

/-- The number is compared with the size of the table, but one too large is let through. -/
theorem delete_within : Within (doDelete cache req src) ↔ req.ino.toNat ≠ MAX_INODES := by
  unfold doDelete
  rcases Nat.lt_trichotomy req.ino.toNat MAX_INODES with inside | last | past
  · have entry : cache.entry req.ino = some (cache ⟨req.ino.toNat, inside⟩) := dif_pos inside
    rw [if_neg (Nat.not_lt.mpr inside.le), entry]
    refine ⟨fun _ => inside.ne, fun _ => within_checked plain_refuse.within ?_⟩
    refine within_ite (within_bind plain_flush.within fun _ => within_call fun success => ?_) (within_call
      fun _ => trivial)
    exact within_bind plain_respondUnless.within fun _ => within_call fun _ => trivial
  · have entry : cache.entry req.ino = none := dif_neg last.ge.not_gt
    rw [if_neg last.le.not_gt, entry]
    refine ⟨fun within => ?_, fun other => absurd last other⟩
    -- the entry is not there, for the superuser either
    exact absurd rfl ((within.2 (some 0)) "stat_cache")
  · rw [if_pos past]
    exact ⟨fun _ => past.ne', fun _ => plain_refuse.within⟩

/-- The requests that the handlers refuse for an inode number past the table. -/
theorem handle_refused (named : req.type ≠ .create) (handled : req.type ≠ .setFlags ∧ req.type ≠ .unknown)
    (past : MAX_INODES ≤ req.ino.toNat)
    (other : req.type = .delete → req.ino.toNat ≠ MAX_INODES) : handle cache req data src = refuse cache src := by
  unfold handle
  cases kind : req.type with
  | create => exact absurd kind named
  | setFlags => exact absurd kind handled.1
  | unknown => exact absurd kind handled.2
  | delete =>
    unfold doDelete
    rw [if_pos (lt_of_le_of_ne past (other kind).symm)]
  | chown => unfold doChown; rw [allocated_past past]
  | chmod => unfold doChmod; rw [allocated_past past]
  | read => unfold doRead; rw [allocated_past past]
  | write => unfold doWrite; rw [allocated_past past]
  | stat => unfold doStat; rw [allocated_past past]
  | setsize => unfold doSetsize; rw [allocated_past past]

theorem handle_checked_iff (cache : Cache) (req : FileRequest) (data : List UInt8) (src : Pid) :
    Checked MAX_INODES req.inode (refuse cache src) (handle cache req data src) ↔
      (req.type = .delete → req.ino.toNat ≠ MAX_INODES) ∧
          (req.type = .setFlags ∨ req.type = .unknown → req.ino.toNat < MAX_INODES) := by
  constructor
  · rintro ⟨within, refused⟩
    refine ⟨fun kind => ?_, fun kind => ?_⟩
    · unfold handle at within
      rw [kind] at within
      exact delete_within.mp within
    · by_contra outside
      have named : req.inode = some req.ino := if_neg (by rcases kind with kind | kind <;> rw [kind] <;> nofun)
      have refusal := refused req.ino named (Nat.not_lt.mp outside)
      unfold handle at refusal
      rcases kind with kind | kind
      · rw [kind] at refusal
        cases refusal
      · rw [kind] at refusal
        cases refusal
  · rintro ⟨delete, unhandled⟩
    refine ⟨?_, fun number here past => ?_⟩
    · unfold handle
      cases kind : req.type with
      | create => exact create_within
      | delete => exact delete_within.mpr (delete kind)
      | chown => exact chown_within
      | chmod => exact chmod_within
      | read => exact read_within
      | write => exact write_within
      | stat => exact stat_within
      | setsize => exact setsize_within
      | setFlags | unknown => exact nofun
    · obtain ⟨named, rfl⟩ := req.inode_some here
      have handled : req.type ≠ .setFlags ∧ req.type ≠ .unknown :=
        ⟨fun kind => past.not_gt (unhandled (Or.inl kind)), fun kind => past.not_gt (unhandled (Or.inr kind))⟩
      exact handle_refused named handled past delete

end Egos.Blkfile

namespace Egos.Ramfile
open Library Egos.Files
open Grass (Pid)

variable {files : Files} {req : FileRequest} {data : List UInt8} {src : Pid} {ino : UInt32}

theorem allocated_past (past : MAX_FILES ≤ ino.toNat) : files.allocated ino = none := by
  unfold Files.allocated Files.file
  rw [dif_neg (Nat.not_lt.mpr past)]
  rfl

/-- The handlers that look at the table before they check the number. -/
theorem allocatedFirst_within {rest : File → Server Files} (goes : ∀ file, Within (rest file)) :
    Within (files.allocatedFirst ino >>=
      fun found => match found with | none => refuse files src | some file => rest file) ↔
      ino.toNat < MAX_FILES := by
  unfold Files.allocatedFirst Files.file
  by_cases inside : ino.toNat < MAX_FILES
  · rw [dif_pos inside]
    refine ⟨fun _ => inside, fun _ => within_bind trivial fun found => ?_⟩
    cases found with
    | none => exact plain_refuse.within
    | some file => exact goes file
  · rw [dif_neg inside]
    exact ⟨fun within => absurd rfl (within "files"), fun here => absurd here inside⟩

theorem create_within : Within (doCreate files req src) := by
  unfold doCreate
  cases files.unallocated with
  | none => exact plain_refuse.within
  | some ino => exact within_bind within_findUid fun _ => within_call fun _ => trivial

theorem chown_within : Within (doChown files req src) := by
  unfold doChown
  cases files.allocated req.ino with
  | none => exact plain_refuse.within
  | some file => exact within_bind within_findUid fun _ => within_ite plain_refuse.within (within_call fun _ => trivial)

theorem chmod_within : Within (doChmod files req src) := by
  unfold doChmod
  cases files.allocated req.ino with
  | none => exact plain_refuse.within
  | some file => exact within_bind within_findUid fun _ => within_ite plain_refuse.within (within_call fun _ => trivial)

theorem write_within : Within (doWrite files req data src) := by
  unfold doWrite
  cases files.allocated req.ino with
  | none => exact plain_refuse.within
  | some file =>
    refine within_ite plain_refuse.within
      (within_checked plain_refuse.within (within_bind plain_ramfilePut.within fun _ => ?_))
    exact within_bind plain_respond.within fun _ => trivial

theorem setsize_within : Within (doSetsize files req src) := by
  unfold doSetsize
  cases files.allocated req.ino with
  | none => exact plain_refuse.within
  | some file =>
    refine within_ite plain_refuse.within
      (within_checked plain_refuse.within (within_bind plain_realloc.within fun _ => ?_))
    exact within_bind plain_respond.within fun _ => trivial

theorem read_within : Within (doRead files req src) ↔ req.ino.toNat < MAX_FILES :=
  allocatedFirst_within fun _ => within_checked plain_refuse.within
    (within_ite (within_ite nofun plain_replied.within) plain_replied.within)

theorem stat_within : Within (doStat files req src) ↔ req.ino.toNat < MAX_FILES :=
  allocatedFirst_within fun _ => within_checked plain_refuse.within (within_call fun _ => trivial)

/-- Requests that check the number of the file before they look at the table. -/
def ChecksFirst (type : FileOp) : Prop :=
  type = .create ∨ type = .chown ∨ type = .chmod ∨ type = .write ∨ type = .setsize

theorem handle_checked_iff (files : Files) (req : FileRequest) (data : List UInt8) (src : Pid) :
    Checked MAX_FILES req.inode (refuse files src) (handle files req data src) ↔
        (req.ino.toNat < MAX_FILES ∨ ChecksFirst req.type) := by
  constructor
  · rintro ⟨within, refused⟩
    by_contra neither
    obtain ⟨outside, other⟩ := not_or.mp neither
    have named : req.inode = some req.ino := if_neg fun create => other (Or.inl create)
    have refusal := refused req.ino named (Nat.not_lt.mp outside)
    unfold handle at within refusal
    cases kind : req.type with
    | read =>
      rw [kind] at within
      exact outside (read_within.mp within)
    | stat =>
      rw [kind] at within
      exact outside (stat_within.mp within)
    | delete | setFlags | unknown =>
      rw [kind] at refusal
      cases refusal
    | create | chown | chmod | write | setsize => simp [ChecksFirst, kind] at other
  · intro condition
    refine ⟨?_, fun number here past => ?_⟩
    · have inside (looks : ¬ ChecksFirst req.type) : req.ino.toNat < MAX_FILES := condition.resolve_right looks
      unfold handle
      cases kind : req.type with
      | create => exact create_within
      | chown => exact chown_within
      | chmod => exact chmod_within
      | write => exact write_within
      | setsize => exact setsize_within
      | read => exact read_within.mpr (inside (by simp [ChecksFirst, kind]))
      | stat => exact stat_within.mpr (inside (by simp [ChecksFirst, kind]))
      | delete | setFlags | unknown => exact nofun
    · obtain ⟨named, rfl⟩ := req.inode_some here
      unfold handle
      rcases condition.resolve_left past.not_gt with kind | kind | kind | kind | kind
      · exact absurd kind named
      · rw [kind]; unfold doChown; rw [allocated_past past]
      · rw [kind]; unfold doChmod; rw [allocated_past past]
      · rw [kind]; unfold doWrite; rw [allocated_past past]
      · rw [kind]; unfold doSetsize; rw [allocated_past past]

end Egos.Ramfile

namespace Egos.Blocksvr
open Library Files
open Grass (Pid)
open Blkfile (MAX_INODES)

variable {nInodes : Nat} {req : BlockRequest} {data : List UInt8} {src : Pid}

def Refused (req : BlockRequest) (data : List UInt8) : Prop :=
  MAX_INODES ≤ req.ino.toNat ∨ req.type = .write ∧ dataBlocks data ≠ 1

theorem within_respond {status : Status} : Within (blockRespond status src : BlockServer nInodes Unit) :=
  within_call fun _ => trivial

theorem inode_within (ino : UInt32) {rest : Fin nInodes → BlockServer nInodes Unit}
    (goes : ∀ virt, Within (rest virt)) :
    Within (inode ino >>= rest) ↔ ino.toNat < nInodes := by
  unfold inode
  by_cases inside : ino.toNat < nInodes
  · rw [dif_pos inside]
    exact ⟨fun _ => inside, fun _ => goes _⟩
  · rw [dif_neg inside]
    exact ⟨fun within => absurd rfl (within "inodes"), fun here => absurd here inside⟩

/-- The check of the number that all handlers begin with. -/
theorem checked_within (ino : UInt32) {program : BlockServer nInodes Unit}
    (looks : Within program ↔ ino.toNat < nInodes) :
    Within (if MAX_INODES ≤ ino.toNat then blockRespond .error src else program) ↔
        ino.toNat < nInodes ∨ MAX_INODES ≤ ino.toNat := by
  by_cases past : MAX_INODES ≤ ino.toNat
  · rw [if_pos past]
    exact ⟨fun _ => Or.inr past, fun _ => within_respond⟩
  · rw [if_neg past, looks]
    exact ⟨Or.inl, fun inside => inside.resolve_right past⟩

theorem read_within : Within (blockDoRead req src : BlockServer nInodes Unit) ↔
    req.ino.toNat < nInodes ∨ MAX_INODES ≤ req.ino.toNat := by
  refine checked_within req.ino (inode_within _ fun virt => within_call fun block => ?_)
  cases block with
  | none => exact within_respond
  | some block => exact within_call fun _ => trivial

theorem getsize_within : Within (blockDoGetsize req src : BlockServer nInodes Unit) ↔
    req.ino.toNat < nInodes ∨ MAX_INODES ≤ req.ino.toNat :=
  checked_within req.ino (inode_within _ fun _ => within_call fun _ => within_call fun _ => trivial)

theorem setsize_within : Within (blockDoSetsize req src : BlockServer nInodes Unit) ↔
    req.ino.toNat < nInodes ∨ MAX_INODES ≤ req.ino.toNat := by
  refine checked_within req.ino (inode_within _ fun virt => within_call fun success => ?_)
  cases success with
  | false => exact within_respond
  | true => exact within_respond

theorem write_within : Within (blockDoWrite req data src : BlockServer nInodes Unit) ↔
    req.ino.toNat < nInodes ∨ MAX_INODES ≤ req.ino.toNat ∨ dataBlocks data ≠ 1 := by
  unfold blockDoWrite
  by_cases whole : dataBlocks data ≠ 1
  · simp only [whole, ne_eq, not_false_eq_true, if_true, ite_self, or_true, iff_true]
    exact within_respond
  · rw [if_neg whole]
    refine (checked_within req.ino (inode_within _ fun virt => within_call fun success => ?_)).trans (by simp [whole])
    cases success with
    | false => exact within_respond
    | true => exact within_respond

theorem handle_checked_iff (kind : Kind) (req : BlockRequest) (data : List UInt8) (src : Pid) :
    Checked kind.nInodes (some req.ino) (blockRespond .error src)
      (handle req data src : BlockServer kind.nInodes Unit) ↔
      req.ino.toNat < kind.nInodes ∨ req.type ≠ .unknown ∧ Refused req data := by
  constructor
  · rintro ⟨within, refused⟩
    rw [or_iff_not_imp_left]
    intro outside
    have refusal := refused req.ino rfl (Nat.not_lt.mp outside)
    unfold handle at within refusal
    cases type : req.type with
    | unknown =>
      rw [type] at refusal
      cases refusal
    | read =>
      rw [type] at within
      exact ⟨nofun, Or.inl ((read_within.mp within).resolve_left outside)⟩
    | getsize =>
      rw [type] at within
      exact ⟨nofun, Or.inl ((getsize_within.mp within).resolve_left outside)⟩
    | setsize =>
      rw [type] at within
      exact ⟨nofun, Or.inl ((setsize_within.mp within).resolve_left outside)⟩
    | write =>
      rw [type] at within
      exact ⟨nofun, ((write_within.mp within).resolve_left outside).imp_right fun part => ⟨type, part⟩⟩
  · intro condition
    have early : req.ino.toNat < kind.nInodes ∨ Refused req data := condition.imp_right And.right
    have other (type : req.type ≠ .write) : req.ino.toNat < kind.nInodes ∨ MAX_INODES ≤ req.ino.toNat :=
      early.imp_right fun refused => refused.resolve_right fun write => type write.1
    refine ⟨?_, fun number here past => ?_⟩
    · unfold handle
      cases type : req.type with
      | read => exact read_within.mpr (other (by rw [type]; nofun))
      | getsize => exact getsize_within.mpr (other (by rw [type]; nofun))
      | setsize => exact setsize_within.mpr (other (by rw [type]; nofun))
      | write => exact write_within.mpr (early.imp_right fun refused => refused.imp_right And.right)
      | unknown => exact nofun
    · cases here
      obtain ⟨known, refused⟩ := condition.resolve_left past.not_gt
      unfold handle
      rcases refused with outside | ⟨write, part⟩
      · cases type : req.type with
        | read => exact if_pos outside
        | write => exact if_pos outside
        | getsize => exact if_pos outside
        | setsize => exact if_pos outside
        | unknown => exact absurd type known
      · rw [write]
        unfold blockDoWrite
        rw [if_pos part, ite_self]

end Egos.Blocksvr

namespace Egos.Files
open Library
open Grass (Pid)

theorem tables_checked_iff (data : List UInt8) (src : Pid) :
    (∀ (cache : Blkfile.Cache) (req : FileRequest),
      Checked Blkfile.MAX_INODES req.inode (Blkfile.refuse cache src) (Blkfile.handle cache req data src) ↔
        (req.type = .delete → req.ino.toNat ≠ Blkfile.MAX_INODES) ∧
          (req.type = .setFlags ∨ req.type = .unknown → req.ino.toNat < Blkfile.MAX_INODES)) ∧
    (∀ (files : Ramfile.Files) (req : FileRequest),
      Checked Ramfile.MAX_FILES req.inode (Ramfile.refuse files src) (Ramfile.handle files req data src) ↔
        req.ino.toNat < Ramfile.MAX_FILES ∨ Ramfile.ChecksFirst req.type) ∧
    ∀ (kind : Blocksvr.Kind) (req : Blocksvr.BlockRequest),
      Checked kind.nInodes (some req.ino) (Blocksvr.blockRespond .error src)
          (Blocksvr.handle req data src : Blocksvr.BlockServer kind.nInodes Unit) ↔
        req.ino.toNat < kind.nInodes ∨ req.type ≠ .unknown ∧ Blocksvr.Refused req data :=
  ⟨fun cache req => Blkfile.handle_checked_iff cache req data src,
    fun files req => Ramfile.handle_checked_iff files req data src,
    fun kind req => Blocksvr.handle_checked_iff kind req data src⟩

/-- The superuser deletes the first inode past the table. -/
theorem deletes_past_table : ¬ ((∀ (cache : Blkfile.Cache) (req : FileRequest) (data : List UInt8) (src : Pid),
      Checked Blkfile.MAX_INODES req.inode (Blkfile.refuse cache src) (Blkfile.handle cache req data src)) ∧
    (∀ (files : Ramfile.Files) (req : FileRequest) (data : List UInt8) (src : Pid),
      Checked Ramfile.MAX_FILES req.inode (Ramfile.refuse files src) (Ramfile.handle files req data src)) ∧
    ∀ (kind : Blocksvr.Kind) (req : Blocksvr.BlockRequest) (data : List UInt8) (src : Pid),
      Checked kind.nInodes (some req.ino) (Blocksvr.blockRespond .error src)
          (Blocksvr.handle req data src : Blocksvr.BlockServer kind.nInodes Unit)) := by
  rintro ⟨checked, -, -⟩
  have within := (checked .new { type := .delete, ino := 128, offset := 0, size := 0, uid := 0, mode := 0 } [] 1).within
  exact Blkfile.delete_within.mp within rfl

end Egos.Files
