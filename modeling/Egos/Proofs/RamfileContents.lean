import Egos.Grass.RamfileSession
import Egos.Library.Ensures
import Egos.Proofs.BlkfileAccess

/-! What the files in memory contain. A write that starts behind the end of a file leaves a gap
that nobody fills; without such writes every byte of a file has been written. -/

namespace Egos.Ramfile
open Library Egos.Files
open Grass (Pid Uid)
open Blkfile (Permitted mayUse_of_granted message)

section Table
variable {files : Files} {ino other : UInt32} {file changed : File}

theorem Files.file_put (inside : ino.toNat < MAX_FILES) :
    (files.put ino changed).file other = if other = ino then some changed else files.file other := by
  unfold Files.put Files.file
  rw [dif_pos inside]
  by_cases same : other = ino
  · subst same
    rw [dif_pos inside, if_pos rfl, Function.update_self]
  · rw [if_neg same]
    by_cases below : other.toNat < MAX_FILES
    · rw [dif_pos below, dif_pos below, Function.update_of_ne]
      exact fun equal => same (UInt32.toNat_inj.mp (Fin.mk.inj equal))
    · rw [dif_neg below, dif_neg below]

theorem Files.file_inside (found : files.file ino = some file) : ino.toNat < MAX_FILES := by
  unfold Files.file at found
  by_contra outside
  rw [dif_neg outside] at found
  cases found

theorem Files.allocated_file (found : files.allocated ino = some file) : files.file ino = some file :=
  (Option.filter_eq_some_iff.mp found).1

theorem Files.update_put (i : Fin MAX_FILES) : Function.update files i file = files.put (UInt32.ofNat i) file := by
  have value : (UInt32.ofNat i).toNat = i := UInt32.toNat_ofNat_of_lt' (Nat.lt_trans i.isLt (by decide))
  unfold Files.put
  have inside : (UInt32.ofNat i).toNat < MAX_FILES := by
    rw [value]
    exact i.isLt
  rw [dif_pos inside]
  congr 1
  exact Fin.ext value.symm

theorem Files.file_of (i : Fin MAX_FILES) : files.file (UInt32.ofNat i) = some (files i) := by
  have value : (UInt32.ofNat i).toNat = i := UInt32.toNat_ofNat_of_lt' (Nat.lt_trans i.isLt (by decide))
  have inside : (UInt32.ofNat i).toNat < MAX_FILES := by
    rw [value]
    exact i.isLt
  unfold Files.file
  rw [dif_pos inside]
  congr 2
  exact Fin.ext value

end Table

/-- Every byte of a file has been written, and there is memory for no others. -/
structure FileFilled (written : Nat → Option UInt8) (file : File) : Prop where
  length : file.length = file.stat.stSize.toNat
  bytes : ∀ i < file.length, written i = some (file.contents i)

def Filled (written : Written) (files : Files) : Prop :=
  ∀ ino file, files.file ino = some file → FileFilled (written ino) file

section Filled
variable {written : Written} {files : Files} {ino : UInt32} {file : File} {bytes : Nat → Option UInt8}

theorem Filled.put (filled : Filled written files) (changed : FileFilled bytes file) :
    Filled (Function.update written ino bytes) (files.put ino file) := by
  by_cases inside : ino.toNat < MAX_FILES
  · intro other found here
    rw [Files.file_put inside] at here
    by_cases same : other = ino
    · subst same
      rw [if_pos rfl] at here
      cases here
      rw [Function.update_self]
      exact changed
    · rw [if_neg same] at here
      rw [Function.update_of_ne same]
      exact filled other found here
  · intro other found here
    unfold Files.put at here
    rw [dif_neg inside] at here
    have apart : other ≠ ino := by
      rintro rfl
      exact inside (Files.file_inside here)
    rw [Function.update_of_ne apart]
    exact filled other found here

/-- Owners and permissions may change. -/
theorem Filled.restat (filled : Filled written files) (found : files.file ino = some file) {stat : FileStat}
    (same : stat.stSize = file.stat.stSize) : Filled written (files.put ino { file with stat }) := by
  have held := filled ino file found
  have changed : FileFilled (written ino) { file with stat } :=
    ⟨held.length.trans (congrArg UInt64.toNat same.symm), held.bytes⟩
  have kept := @Filled.put written files ino { file with stat } (written ino) filled changed
  rwa [Function.update_eq_self] at kept

end Filled

/-! What the handlers ensure. -/

/-- One reply is sent; the files that are left and the data in the reply have been written. -/
def Answered (written : Written) (req : FileRequest) (data : List UInt8) (src : Pid) (s : Outside)
    (files : Files) (after : Outside) : Prop :=
  ∃ reply, after.uid = s.uid ∧ after.sent = s.sent ++ [(src, reply)] ∧
    Filled (written.record req data reply.status) files ∧
    (req.type = .read → ∀ i byte, reply.data[i]? = some byte → written req.ino (req.offset.toNat + i) = some byte)

abbrev Ensured (program : Server α) (s : Outside) (post : α → Outside → Prop) : Prop :=
  Prog.Ensures (fun _ => True) (program.run Outside.serve) s post

section Handlers
variable {written : Written} {files : Files} {req : FileRequest} {data : List UInt8} {src : Pid}
    {s : Outside} {file : File}

theorem ensured_bind {α β : Type} {program : Server α} {next : α → Server β} {middle : α → Outside → Prop}
    {post : β → Outside → Prop}
    (first : Ensured program s middle) (rest : ∀ value after, middle value after → Ensured (next value) after post) :
    Ensured (program >>= next) s post := by
  unfold Ensured
  rw [Effect.run_bind]
  exact first.bind rest

theorem call_ensures {c : Call} {reply : c.Reply} {after : Outside} {post : c.Reply → Outside → Prop}
    (served : Outside.serve c s = .done reply after)
    (holds : post reply after) : Ensured (call c) s post := by
  unfold Ensured call
  rw [Effect.run_perform]
  exact .returns served holds

theorem findUid_ensures : Ensured (findUid src) s fun uid after => after = s ∧ s.uid src = some uid := by
  have finds : Ensured (call (.find src)) s fun uid after => after = s ∧ uid = s.uid src := call_ensures rfl ⟨rfl, rfl⟩
  refine ensured_bind finds ?_
  rintro uid after ⟨rfl, rfl⟩
  cases known : after.uid src with
  | none => trivial
  | some uid => exact ⟨rfl, rfl⟩

theorem allowed_ensures {owner other : UInt32} {stat : FileStat} :
    Ensured (allowed owner other (some stat) src) s fun granted after =>
    after = s ∧ (granted = true → ∃ u, s.uid src = some u ∧ Permitted owner other u stat) := by
  unfold allowed
  refine ensured_bind findUid_ensures ?_
  rintro u after ⟨rfl, known⟩
  by_cases super : u = 0
  · rw [if_pos super]
    exact ⟨rfl, fun _ => ⟨u, known, Or.inl super⟩⟩
  · rw [if_neg super]
    exact ⟨rfl, fun granted => ⟨u, known, Or.inr (mayUse_of_granted granted)⟩⟩

theorem reply_ensures {reply : FileReply} (filled : Filled (written.record req data reply.status) files)
    (reads : req.type = .read → ∀ i byte, reply.data[i]? = some byte →
    written req.ino (req.offset.toNat + i) = some byte) :
    Ensured (do
      call (.send src reply)
      pure files) s (Answered written req data src s) := by
  have sends : Ensured (call (.send src reply)) s fun _ after => after = { s with sent := s.sent ++ [(src, reply)] } :=
    call_ensures rfl rfl
  refine ensured_bind sends ?_
  rintro _ after rfl
  exact ⟨reply, rfl, rfl, filled, reads⟩

/-- A reply to a read, which is freed. -/
theorem replied_ensures {ext : UInt32} {reply : FileReply} (filled : Filled (written.record req data reply.status) files)
    (reads : req.type = .read → ∀ i byte, reply.data[i]? = some byte →
    written req.ino (req.offset.toNat + i) = some byte) :
    Ensured (do
      call (.send src reply)
      freeReply ext
      pure files) s (Answered written req data src s) := by
  have sends : Ensured (call (.send src reply)) s fun _ after => after = { s with sent := s.sent ++ [(src, reply)] } :=
    call_ensures rfl rfl
  refine ensured_bind sends ?_
  rintro _ after rfl
  unfold freeReply
  split
  · exact ⟨reply, rfl, rfl, filled, reads⟩
  · trivial

theorem record_error : written.record req data .error = written := by
  unfold Written.record
  cases req.type <;> rfl

theorem refuse_ensures (filled : Filled written files) :
    Ensured (refuse files src) s (Answered written req data src s) := by
  refine reply_ensures ?_ fun _ i byte here => ?_
  · change Filled (written.record req data .error) files
    rwa [record_error]
  · cases here

/-- Only writes and changes of the size change what has been written. -/
theorem record_other {status : Status} (write : req.type ≠ .write) (setsize : req.type ≠ .setsize) :
    written.record req data status = written := by
  unfold Written.record
  cases kind : req.type with
  | write => exact absurd kind write
  | setsize => exact absurd kind setsize
  | _ => rfl

/-- A reply without data, of a request that writes nothing. -/
theorem plain_ensures {reply : FileReply} (filled : Filled written files) (write : req.type ≠ .write)
    (setsize : req.type ≠ .setsize)
    (empty : reply.data = []) : Ensured (do
      call (.send src reply)
      pure files) s (Answered written req data src s) := by
  refine reply_ensures (by rwa [record_other write setsize]) fun _ i byte here => ?_
  rw [empty] at here
  cases here

theorem create_ensures (filled : Filled written files) (create : req.type = .create) :
    Ensured (doCreate files req src) s (Answered written req data src s) := by
  unfold doCreate
  cases found : files.unallocated with
  | none => exact refuse_ensures filled
  | some ino =>
    refine ensured_bind findUid_ensures ?_
    rintro uid after ⟨rfl, _⟩
    dsimp only
    rw [Files.update_put]
    exact plain_ensures (filled.restat (Files.file_of ino) rfl) (by rw [create]; nofun) (by rw [create]; nofun) rfl

theorem chown_ensures (filled : Filled written files) (chown : req.type = .chown) :
    Ensured (doChown files req src) s (Answered written req data src s) := by
  unfold doChown
  cases found : files.allocated req.ino with
  | none => exact refuse_ensures filled
  | some file =>
    refine ensured_bind findUid_ensures ?_
    rintro uid after ⟨rfl, _⟩
    dsimp only
    split_ifs
    · exact refuse_ensures filled
    · exact plain_ensures (filled.restat (Files.allocated_file found) rfl) (by rw [chown]; nofun)
        (by rw [chown]; nofun) rfl

theorem chmod_ensures (filled : Filled written files) (chmod : req.type = .chmod) :
    Ensured (doChmod files req src) s (Answered written req data src s) := by
  unfold doChmod
  cases found : files.allocated req.ino with
  | none => exact refuse_ensures filled
  | some file =>
    refine ensured_bind findUid_ensures ?_
    rintro uid after ⟨rfl, _⟩
    dsimp only
    split_ifs
    · exact refuse_ensures filled
    · exact plain_ensures (filled.restat (Files.allocated_file found) rfl) (by rw [chmod]; nofun)
        (by rw [chmod]; nofun) rfl

theorem allocatedFirst_ensures (ino : UInt32) :
    Ensured (files.allocatedFirst ino) s fun file after => after = s ∧ file = files.allocated ino := by
  unfold Files.allocatedFirst Files.allocated
  cases files.file ino with
  | none => trivial
  | some file =>
    refine ⟨rfl, ?_⟩
    rw [Option.filter_some]

theorem stat_ensures (filled : Filled written files) (stat : req.type = .stat) :
    Ensured (doStat files req src) s (Answered written req data src s) := by
  unfold doStat
  refine ensured_bind (allocatedFirst_ensures req.ino) ?_
  rintro _ after ⟨rfl, rfl⟩
  cases found : files.allocated req.ino with
  | none => exact refuse_ensures filled
  | some file =>
    refine ensured_bind allowed_ensures ?_
    rintro granted after ⟨rfl, _⟩
    cases granted with
    | false => exact refuse_ensures filled
    | true => exact plain_ensures filled (by rw [stat]; nofun) (by rw [stat]; nofun) rfl

theorem read_ensures (filled : Filled written files) (read : req.type = .read) :
    Ensured (doRead files req src) s (Answered written req data src s) := by
  have same {status : Status} : written.record req data status = written :=
    record_other (by rw [read]; nofun) (by rw [read]; nofun)
  unfold doRead
  refine ensured_bind (allocatedFirst_ensures req.ino) ?_
  rintro _ after ⟨rfl, rfl⟩
  cases found : files.allocated req.ino with
  | none => exact refuse_ensures filled
  | some file =>
    refine ensured_bind allowed_ensures ?_
    rintro granted after ⟨rfl, _⟩
    cases granted with
    | false => exact refuse_ensures filled
    | true =>
      dsimp only
      by_cases before : req.offset < file.stat.stSize
      · rw [if_pos before]
        generalize (if req.size < (file.stat.stSize - req.offset).toUInt32 then req.size else
          (file.stat.stSize - req.offset).toUInt32) = n
        by_cases past : file.length < req.offset.toNat + n.toNat
        · rw [if_pos past]
          trivial
        · rw [if_neg past]
          refine replied_ensures (by rwa [same]) fun _ i byte here => ?_
          obtain ⟨below, value⟩ := List.getElem?_eq_some_iff.mp here
          have inside : i < n.toNat := by simpa [readReply] using below
          rw [← value]
          simp only [readReply, List.getElem_map, List.getElem_range]
          exact (filled _ _ (Files.allocated_file found)).bytes _ (by omega)
      · rw [if_neg before]
        exact replied_ensures (by rwa [same]) fun _ i byte here => by cases here

theorem realloc_ensures (file : File) (length : Nat) :
    Ensured (file.realloc length) s fun larger after => after.uid = s.uid ∧ after.sent = s.sent ∧
    larger.stat = file.stat ∧ larger.length = length ∧ ∀ i < file.length, larger.contents i = file.contents i := by
  have gets : Ensured (call (.garbage length)) s fun _ after => after.uid = s.uid ∧ after.sent = s.sent :=
    call_ensures rfl ⟨rfl, rfl⟩
  refine ensured_bind gets ?_
  rintro garbage after ⟨uid, sent⟩
  exact ⟨uid, sent, rfl, rfl, fun i below => if_pos below⟩

/-- A write that does not start behind the end of the file fills what it adds. -/
theorem ramfilePut_ensures {bytes : Nat → Option UInt8} (filled : FileFilled bytes file) {offset : UInt64}
    {size : UInt32}
    (adjoins : offset ≤ file.stat.stSize) (count : size.toNat = data.length) :
    Ensured (ramfilePut file offset data size) s fun changed after => after.uid = s.uid ∧ after.sent = s.sent ∧
      FileFilled (fun i => if offset.toNat ≤ i ∧
          i < offset.toNat + data.length then data[i - offset.toNat]? else bytes i) changed := by
  have start : offset.toNat ≤ file.length := by
    rw [filled.length]
    exact UInt64.le_iff_toNat_le.mp adjoins
  have grown : Ensured (file.grow (offset + size.toUInt64)) s fun larger after => after.uid = s.uid ∧
    after.sent = s.sent ∧
      larger.length = larger.stat.stSize.toNat ∧
        (larger.length = file.length ∨ larger.length = (offset + size.toUInt64).toNat) ∧
      ∀ i < file.length, larger.contents i = file.contents i := by
    unfold File.grow
    split_ifs
    · refine ensured_bind (realloc_ensures file _) ?_
      rintro larger after ⟨uid, sent, _, length, kept⟩
      exact ⟨uid, sent, length, Or.inr length, kept⟩
    · exact ⟨rfl, rfl, filled.length, Or.inl rfl, fun _ _ => rfl⟩
  unfold ramfilePut
  refine ensured_bind grown ?_
  rintro larger after ⟨uid, sent, length, bound, kept⟩
  by_cases past : larger.length < offset.toNat + size.toNat
  · rw [if_pos past]
    trivial
  · rw [if_neg past]
    refine ⟨uid, sent, length, fun i below => ?_⟩
    rw [← count]
    by_cases new : offset.toNat ≤ i ∧ i < offset.toNat + size.toNat
    · dsimp only
      have here : i - offset.toNat < data.length := by omega
      rw [if_pos new, if_pos new, List.getD_eq_getElem?_getD, List.getElem?_eq_getElem here]
      rfl
    · have old : i < file.length := by
        have sum := Nat.mod_le (offset.toNat + size.toNat) (2 ^ 64)
        rw [UInt64.toNat_add, UInt32.toNat_toUInt64] at bound
        have below : i < larger.length := below
        omega
      dsimp only
      rw [if_neg new, if_neg new, kept i old]
      exact filled.bytes i old

/-- The end of the handlers that change the contents of a file. -/
theorem done_ensures {middle : Outside} (uid : middle.uid = s.uid) (sent : middle.sent = s.sent)
    (filled : Filled (written.record req data .ok) files) (other : req.type ≠ .read) : Ensured (do
      respond .ok src
      pure files) middle (Answered written req data src s) := by
  have answers := @reply_ensures written files req data src middle (.cleared .ok) filled fun read => absurd read other
  refine answers.weaken ?_
  rintro files after ⟨reply, same, replied, rest⟩
  exact ⟨reply, same.trans uid, by rw [replied, sent], rest⟩

/-- A write that is carried out starts in the file or at its end. -/
def Adjoins (files : Files) (uid : Option Uid) (req : FileRequest) (data : List UInt8) : Prop :=
  ∀ file u, files.allocated req.ino = some file → req.size.toNat = data.length → uid = some u →
    Permitted P_FILE_OWNER_WRITE P_FILE_OTHER_WRITE u file.stat → req.offset ≤ file.stat.stSize

theorem write_ensures (filled : Filled written files) (write : req.type = .write)
    (adjoins : Adjoins files (s.uid src) req data) :
    Ensured (doWrite files req data src) s (Answered written req data src s) := by
  unfold doWrite
  cases found : files.allocated req.ino with
  | none => exact refuse_ensures filled
  | some file =>
    dsimp only
    by_cases mismatch : req.size.toNat ≠ data.length
    · rw [if_pos mismatch]
      exact refuse_ensures filled
    · rw [if_neg mismatch]
      refine ensured_bind allowed_ensures ?_
      rintro granted after ⟨rfl, permitted⟩
      cases granted with
      | false => exact refuse_ensures filled
      | true =>
        obtain ⟨u, known, permitted⟩ := permitted rfl
        have here := adjoins file u found (not_not.mp mismatch) known permitted
        refine ensured_bind (ramfilePut_ensures (filled _ _ (Files.allocated_file found)) here (not_not.mp mismatch)) ?_
        rintro changed middle ⟨uid, sent, fills⟩
        have recorded : written.record req data .ok = Function.update written req.ino fun i =>
            if req.offset.toNat ≤ i ∧ i < req.offset.toNat + data.length then data[i - req.offset.toNat]?
                else written req.ino i := by
          unfold Written.record
          rw [write]
        have left : Filled (written.record req data .ok) (files.put req.ino changed) := by
          rw [recorded]
          exact filled.put fills
        exact done_ensures uid sent left (by rw [write]; nofun)

theorem setsize_ensures (filled : Filled written files) (setsize : req.type = .setsize) :
    Ensured (doSetsize files req src) s (Answered written req data src s) := by
  unfold doSetsize
  cases found : files.allocated req.ino with
  | none => exact refuse_ensures filled
  | some file =>
    dsimp only
    by_cases larger : file.stat.stSize < req.offset
    · rw [if_pos larger]
      exact refuse_ensures filled
    · rw [if_neg larger]
      refine ensured_bind allowed_ensures ?_
      rintro granted after ⟨rfl, -⟩
      cases granted with
      | false => exact refuse_ensures filled
      | true =>
        refine ensured_bind (realloc_ensures _ req.offset.toNat) ?_
        rintro changed middle ⟨uid, sent, stat, length, kept⟩
        have held := filled _ _ (Files.allocated_file found)
        have shorter : req.offset.toNat ≤ file.length := by
          rw [held.length]
          exact UInt64.le_iff_toNat_le.mp (UInt64.not_lt.mp larger)
        have recorded : written.record req data .ok = Function.update written req.ino fun i =>
            if i < req.offset.toNat then written req.ino i else none := by
          unfold Written.record
          rw [setsize]
        have left : Filled (written.record req data .ok) (files.put req.ino changed) := by
          rw [recorded]
          refine filled.put ⟨length.trans (by rw [stat]), fun i below => ?_⟩
          have inside : i < req.offset.toNat := by rwa [length] at below
          have old : i < file.length := Nat.lt_of_lt_of_le inside shorter
          rw [if_pos inside, kept i old]
          exact held.bytes i old
        exact done_ensures uid sent left (by rw [setsize]; nofun)

theorem handle_ensures (filled : Filled written files)
    (adjoins : req.type = .write → Adjoins files (s.uid src) req data) :
    Ensured (handle files req data src) s (Answered written req data src s) := by
  unfold handle
  cases kind : req.type with
  | create => exact create_ensures filled kind
  | chown => exact chown_ensures filled kind
  | chmod => exact chmod_ensures filled kind
  | read => exact read_ensures filled kind
  | write => exact write_ensures filled kind (adjoins kind)
  | stat => exact stat_ensures filled kind
  | setsize => exact setsize_ensures filled kind
  | delete | setFlags | unknown => trivial

end Handlers

/-! Two servers that were given different memory. -/

structure FileAlike (first second : File) : Prop where
  stat : second.stat = first.stat
  length : first.length = first.stat.stSize.toNat
  same : second.length = first.length
  contents : ∀ i < first.length, second.contents i = first.contents i

def Alike (files others : Files) : Prop := ∀ f, FileAlike (files f) (others f)

structure SameOutside (uid : Pid → Option Uid) (s t : Outside) : Prop where
  left : s.uid = uid
  right : t.uid = uid
  sent : t.sent = s.sent

abbrev Twin (uid : Pid → Option Uid) (first second : Server Files) : Prop :=
  Effect.Twins Outside.serve (SameOutside uid) first second Alike

section Twins
variable {uid : Pid → Option Uid} {files others : Files} {ino : UInt32} {src : Pid} {first second : File}
    {granted allows : Server Files}

theorem Alike.put (alike : Alike files others) (same : FileAlike first second) :
    Alike (files.put ino first) (others.put ino second) := by
  unfold Files.put
  by_cases inside : ino.toNat < MAX_FILES
  · rw [dif_pos inside, dif_pos inside]
    intro f
    by_cases here : f = ⟨ino.toNat, inside⟩
    · rw [here, Function.update_self, Function.update_self]
      exact same
    · rw [Function.update_of_ne here, Function.update_of_ne here]
      exact alike f
  · rw [dif_neg inside, dif_neg inside]
    exact alike

theorem FileAlike.restat (same : FileAlike first second) {stat : FileStat} (size : stat.stSize = first.stat.stSize) :
    FileAlike { first with stat } { second with stat } :=
  ⟨rfl, same.length.trans (congrArg UInt64.toNat size.symm), same.same, same.contents⟩

theorem Alike.allocated (alike : Alike files others) (ino : UInt32) :
    (files.allocated ino = none ∧ others.allocated ino = none) ∨
    ∃ first second, files.allocated ino = some first ∧ others.allocated ino = some second ∧ FileAlike first second := by
  unfold Files.allocated Files.file
  by_cases inside : ino.toNat < MAX_FILES
  · have same := alike ⟨ino.toNat, inside⟩
    rw [dif_pos inside, dif_pos inside, Option.filter_some, Option.filter_some, same.stat]
    cases (files ⟨ino.toNat, inside⟩).stat.stAlloc with
    | true => exact Or.inr ⟨_, _, rfl, rfl, same⟩
    | false => exact Or.inl ⟨rfl, rfl⟩
  · rw [dif_neg inside, dif_neg inside]
    exact Or.inl ⟨rfl, rfl⟩

/-- A call whose reply does not depend on the memory. -/
theorem call_twins (c : Call) (other : ∀ count, c ≠ .garbage count) :
    Effect.Twins Outside.serve (SameOutside uid) (call c) (call c) fun a b =>
    a = b := by
  intro s t same
  unfold call
  rw [Effect.run_perform]
  cases c with
  | find pid => exact ⟨same, by rw [same.left, same.right]⟩
  | send dst reply => exact ⟨⟨same.left, same.right, congrArg (· ++ _) same.sent⟩, rfl⟩
  | garbage count => exact absurd rfl (other count)
  | blockRead | blockWrite | blockGetsize | blockSetsize => exact ⟨same, rfl⟩

theorem reply_twins (alike : Alike files others) (reply : FileReply) : Twin uid (do
      call (.send src reply)
      pure files) (do
      call (.send src reply)
      pure others) :=
  (call_twins (.send src reply) nofun).bind fun _ _ _ => .returns alike

theorem replied_twins (alike : Alike files others) {ext : UInt32} (reply : FileReply) : Twin uid (do
      call (.send src reply)
      freeReply ext
      pure files) (do
      call (.send src reply)
      freeReply ext
      pure others) := by
  refine (call_twins (.send src reply) nofun).bind fun _ _ _ => ?_
  unfold freeReply
  split
  · exact .returns alike
  · exact .halts _

theorem refuse_twins (alike : Alike files others) : Twin uid (refuse files src) (refuse others src) :=
  reply_twins alike _

theorem findUid_twins : Effect.Twins Outside.serve (SameOutside uid) (findUid src) (findUid src) fun a b => a = b ∧
    uid src = some a := by
  intro s t same
  unfold findUid call
  rw [Effect.run_bind, Effect.run_perform]
  have left : Outside.serve (.find src) s = .done (uid src) s := by rw [← same.left]; rfl
  have right : Outside.serve (.find src) t = .done (uid src) t := by rw [← same.right]; rfl
  rw [Prog.bind_done left, Prog.bind_done right]
  cases uid src with
  | none => exact ⟨rfl, same⟩
  | some u => exact ⟨same, rfl, rfl⟩

/-- A handler that checks a permission first. -/
theorem allowed_twins (alike : Alike files others) {owner other : UInt32} {stat : FileStat}
    (goes : ∀ u, uid src = some u → Permitted owner other u stat → Twin uid granted allows) : Twin uid (do
      match ← allowed owner other (some stat) src with
      | false => refuse files src
      | true => granted) (do
      match ← allowed owner other (some stat) src with
      | false => refuse others src
      | true => allows) := by
  have checks : Effect.Twins Outside.serve (SameOutside uid) (allowed owner other (some stat) src)
    (allowed owner other (some stat) src)
      fun a b => a = b ∧ (a = true → ∃ u, uid src = some u ∧ Permitted owner other u stat) := by
    unfold allowed
    refine findUid_twins.bind ?_
    rintro u _ ⟨rfl, known⟩
    by_cases super : u = 0
    · rw [if_pos super]
      exact .returns ⟨rfl, fun _ => ⟨u, known, Or.inl super⟩⟩
    · rw [if_neg super]
      exact .returns ⟨rfl, fun granted => ⟨u, known, Or.inr (mayUse_of_granted granted)⟩⟩
  refine checks.bind ?_
  rintro value _ ⟨rfl, permitted⟩
  cases value with
  | false => exact refuse_twins alike
  | true =>
    obtain ⟨u, known, permitted⟩ := permitted rfl
    exact goes u known permitted

/-- A handler that looks for a file first. -/
theorem file_twins (alike : Alike files others) (ino : UInt32) {found finds : File → Server Files}
    (goes : ∀ first second, files.allocated ino = some first → FileAlike first second →
    Twin uid (found first) (finds second)) :
    Twin uid (match files.allocated ino with | none => refuse files src | some file => found file)
      (match others.allocated ino with | none => refuse others src | some file => finds file) := by
  rcases alike.allocated ino with ⟨none, nothing⟩ | ⟨first, second, here, there, same⟩
  · rw [none, nothing]
    exact refuse_twins alike
  · rw [here, there]
    exact goes first second here same

theorem allocatedFirst_twins (ino : UInt32) : Effect.Twins Outside.serve (SameOutside uid) (files.allocatedFirst ino)
    (others.allocatedFirst ino) fun a b => a = files.allocated ino ∧ b = others.allocated ino := by
  unfold Files.allocatedFirst Files.allocated Files.file
  by_cases inside : ino.toNat < MAX_FILES
  · rw [dif_pos inside, dif_pos inside, Option.filter_some, Option.filter_some]
    exact .returns ⟨rfl, rfl⟩
  · rw [dif_neg inside, dif_neg inside]
    exact .halts _

section Handlers
variable {req : FileRequest} {data : List UInt8}

theorem create_twins (alike : Alike files others) : Twin uid (doCreate files req src) (doCreate others req src) := by
  have same : others.unallocated = files.unallocated := by
    unfold Files.unallocated
    congr 1
    funext f
    rw [(alike f).stat]
  unfold doCreate
  rw [same]
  cases files.unallocated with
  | none => exact refuse_twins alike
  | some ino =>
    refine findUid_twins.bind ?_
    rintro u _ ⟨rfl, _⟩
    dsimp only
    rw [Files.update_put, Files.update_put, (alike ino).stat]
    refine reply_twins (alike.put ((alike ino).restat ?_)) _
    rfl

theorem chown_twins (alike : Alike files others) : Twin uid (doChown files req src) (doChown others req src) := by
  refine file_twins alike req.ino fun first second here same => ?_
  refine findUid_twins.bind ?_
  rintro u _ ⟨rfl, _⟩
  refine .ite (refuse_twins alike) ?_
  rw [same.stat]
  refine reply_twins (alike.put (same.restat ?_)) _
  rfl

theorem chmod_twins (alike : Alike files others) : Twin uid (doChmod files req src) (doChmod others req src) := by
  refine file_twins alike req.ino fun first second here same => ?_
  refine findUid_twins.bind ?_
  rintro u _ ⟨rfl, _⟩
  rw [same.stat]
  refine .ite (refuse_twins alike) ?_
  refine reply_twins (alike.put (same.restat ?_)) _
  rfl

theorem stat_twins (alike : Alike files others) : Twin uid (doStat files req src) (doStat others req src) := by
  refine (allocatedFirst_twins req.ino).bind ?_
  rintro _ _ ⟨rfl, rfl⟩
  refine file_twins alike req.ino fun first second here same => ?_
  rw [same.stat]
  exact allowed_twins alike fun _ _ _ => reply_twins alike _

theorem read_twins (alike : Alike files others) : Twin uid (doRead files req src) (doRead others req src) := by
  refine (allocatedFirst_twins req.ino).bind ?_
  rintro _ _ ⟨rfl, rfl⟩
  refine file_twins alike req.ino fun first second here same => ?_
  rw [same.stat, same.same]
  refine allowed_twins alike fun _ _ _ => ?_
  refine .ite ?_ (replied_twins alike _)
  dsimp only
  generalize (if req.size < (first.stat.stSize - req.offset).toUInt32 then req.size else
    (first.stat.stSize - req.offset).toUInt32) = n
  by_cases past : first.length < req.offset.toNat + n.toNat
  · rw [if_pos past, if_pos past]
    exact .halts _
  · rw [if_neg past, if_neg past]
    have bytes : ((List.range n.toNat).map fun i => second.contents (req.offset.toNat + i)) =
        (List.range n.toNat).map fun i => first.contents (req.offset.toNat + i) := by
      apply List.map_congr_left
      intro i below
      exact same.contents _ (by have := List.mem_range.mp below; omega)
    rw [bytes]
    exact replied_twins alike _

theorem realloc_twins (length : Nat) :
    Effect.Twins Outside.serve (SameOutside uid) (first.realloc length) (second.realloc length) fun a b =>
    (a.stat = first.stat ∧ a.length = length ∧ ∀ i < first.length, a.contents i = first.contents i) ∧
      b.stat = second.stat ∧ b.length = length ∧ ∀ i < second.length, b.contents i = second.contents i := by
  have garbage : Effect.Twins Outside.serve (SameOutside uid) (call (.garbage length)) (call (.garbage length))
      fun _ _ => True := by
    intro s t same
    unfold call
    rw [Effect.run_perform]
    exact ⟨⟨same.left, same.right, same.sent⟩, trivial⟩
  exact garbage.bind fun _ _ _ => .returns ⟨⟨rfl, rfl, fun i below => if_pos below⟩, rfl,
    rfl, fun i below => if_pos below⟩

theorem ramfilePut_twins (same : FileAlike first second) {offset : UInt64} {size : UInt32}
    (adjoins : offset ≤ first.stat.stSize) :
    Effect.Twins Outside.serve (SameOutside uid) (ramfilePut first offset data size)
        (ramfilePut second offset data size) FileAlike := by
  have start : offset.toNat ≤ first.length := by
    rw [same.length]
    exact UInt64.le_iff_toNat_le.mp adjoins
  have grown : Effect.Twins Outside.serve (SameOutside uid) (first.grow (offset + size.toUInt64))
      (second.grow (offset + size.toUInt64)) fun a b =>
      b.stat = a.stat ∧ a.length = a.stat.stSize.toNat ∧ b.length = a.length ∧
        (a.length = first.length ∨ a.length = (offset + size.toUInt64).toNat) ∧
            ∀ i < first.length, b.contents i = a.contents i := by
    unfold File.grow
    rw [same.stat]
    refine .ite ((realloc_twins _).bind ?_) (.returns ⟨same.stat, same.length, same.same, Or.inl rfl, same.contents⟩)
    rintro a b ⟨⟨stat, length, kept⟩, stat', length', kept'⟩
    refine .returns ⟨?_, length, length'.trans length.symm, Or.inr length, fun i below => ?_⟩
    · rw [stat, stat', same.stat]
    · dsimp only
      rw [kept i below, kept' i (same.same ▸ below), same.contents i below]
  refine grown.bind ?_
  rintro a b ⟨stat, length, equal, bound, kept⟩
  rw [equal]
  by_cases past : a.length < offset.toNat + size.toNat
  · rw [if_pos past, if_pos past]
    exact .halts _
  · rw [if_neg past, if_neg past]
    refine .returns ⟨stat, length, rfl, fun i below => ?_⟩
    dsimp only
    split_ifs with new
    · rfl
    · have sum := Nat.mod_le (offset.toNat + size.toNat) (2 ^ 64)
      rw [UInt64.toNat_add, UInt32.toNat_toUInt64] at bound
      have below : i < a.length := below
      exact kept i (by omega)

theorem write_twins (alike : Alike files others) (adjoins : Adjoins files (uid src) req data) :
    Twin uid (doWrite files req data src) (doWrite others req data src) := by
  refine file_twins alike req.ino fun first second here same => ?_
  by_cases mismatch : req.size.toNat ≠ data.length
  · rw [if_pos mismatch, if_pos mismatch]
    exact refuse_twins alike
  · rw [if_neg mismatch, if_neg mismatch, same.stat]
    refine allowed_twins alike fun u known permitted => ?_
    refine (ramfilePut_twins same (adjoins first u here (not_not.mp mismatch) known permitted)).bind
      fun a b changed => ?_
    exact reply_twins (alike.put changed) _

theorem setsize_twins (alike : Alike files others) : Twin uid (doSetsize files req src) (doSetsize others req src) := by
  refine file_twins alike req.ino fun first second here same => ?_
  rw [same.stat]
  by_cases larger : first.stat.stSize < req.offset
  · rw [if_pos larger, if_pos larger]
    exact refuse_twins alike
  · rw [if_neg larger, if_neg larger]
    refine allowed_twins alike fun _ _ _ => (realloc_twins _).bind ?_
    rintro a b ⟨⟨stat, length, kept⟩, stat', length', kept'⟩
    have shorter : req.offset.toNat ≤ first.length := by
      rw [same.length]
      exact UInt64.le_iff_toNat_le.mp (UInt64.not_lt.mp larger)
    refine reply_twins (alike.put ⟨stat'.trans
      stat.symm, by rw [stat, length], length'.trans length.symm, fun i below => ?_⟩) _
    have below : i < first.length := Nat.lt_of_lt_of_le (length ▸ below) shorter
    rw [kept i below, kept' i (same.same ▸ below)]
    exact same.contents i below

theorem handle_twins (alike : Alike files others) (adjoins : req.type = .write → Adjoins files (uid src) req data) :
    Twin uid (handle files req data src) (handle others req data src) := by
  unfold handle
  cases kind : req.type with
  | create => exact create_twins alike
  | chown => exact chown_twins alike
  | chmod => exact chmod_twins alike
  | read => exact read_twins alike
  | write => exact write_twins alike (adjoins kind)
  | stat => exact stat_twins alike
  | setsize => exact setsize_twins alike
  | delete | setFlags | unknown => exact .halts _

end Handlers

end Twins

/-! Sessions. -/

/-- Each byte of a reply to a read has been written there, and not cut off since, or is zero. -/
def Faithful (written : Written) (x : Exchange) : Prop :=
  ∀ req data, FileRequest.decode x.request.msg = some (req, data) → req.type = .read →
    ∀ i byte, x.reply.data[i]? = some byte → byte = 0 ∨ written req.ino (req.offset.toNat + i) = some byte

/-- No write leaves a gap. -/
def Placed (before : Session) (x : Exchange) : Prop :=
  ∀ req data, FileRequest.decode x.request.msg = some (req, data) → req.type = .write →
    Adjoins before.files (x.request.uid x.request.src) req data

namespace Session
variable {before after last : Session} {x other : Exchange} {written : Written}

theorem Step.filled (filled : Filled written before.files) (placed : Placed before x) (step : Step before x after) :
    Filled (written.exchanged x) after.files ∧ Faithful written x := by
  unfold Step handle serve at step
  unfold Written.exchanged Faithful
  unfold Placed at placed
  cases decoded : FileRequest.decode x.request.msg with
  | none =>
    rw [decoded] at step
    cases step
  | some found =>
    obtain ⟨req, data⟩ := found
    rw [decoded] at step
    have ensured := @handle_ensures written before.files req data x.request.src
      { uid := x.request.uid, memory := before.memory, sent := [] } filled
      (placed req data decoded)
    obtain ⟨reply, _, sent, fills, reads⟩ := ensured.done step
    have same : x.reply = reply := congrArg Prod.snd (List.singleton_inj.mp sent)
    rw [← same] at fills reads
    refine ⟨fills, ?_⟩
    rintro _ _ ⟨⟩ read i byte here
    exact Or.inr (reads read i byte here)

theorem Step.follows (alike : Alike before.files last.files) (placed : Placed before x) (step : Step before x after) :
    ∃ final, Step last x final ∧ Alike after.files final.files := by
  unfold Step handle serve at *
  unfold Placed at placed
  cases decoded : FileRequest.decode x.request.msg with
  | none =>
    rw [decoded] at step
    cases step
  | some found =>
    obtain ⟨req, data⟩ := found
    rw [decoded] at step
    have twins := handle_twins alike (placed req data decoded)
      { uid := x.request.uid, memory := before.memory, sent := [] }
      { uid := x.request.uid, memory := last.memory, sent := [] } ⟨rfl, rfl, rfl⟩
    have step : (Ramfile.handle before.files req data x.request.src).run Outside.serve
      { uid := x.request.uid, memory := before.memory, sent := [] } =
      .done after.files { uid := x.request.uid, memory := after.memory, sent := [(x.request.src, x.reply)] } := step
    rw [step] at twins
    dsimp only
    cases ran : (Ramfile.handle last.files req data x.request.src).run Outside.serve
      { uid := x.request.uid, memory := last.memory, sent := [] } with
    | done files outside =>
      rw [ran] at twins
      obtain ⟨⟨_, uid, sent⟩, same⟩ := twins
      obtain ⟨uid', memory, sent'⟩ := outside
      cases uid
      cases sent
      exact ⟨{ files, memory }, rfl, same⟩
    | halted reason outside =>
      rw [ran] at twins
      exact twins.elim

theorem Step.functional {final : Session} (step : Step before x after) (again : Step before other final)
    (same : other.request = x.request) :
    other = x ∧ final = after := by
  unfold Step at step again
  rw [same, step] at again
  injection again with files outside
  injection outside with _ memory sent
  obtain ⟨request, reply⟩ := x
  obtain ⟨request', reply'⟩ := other
  obtain ⟨files', memory'⟩ := after
  obtain ⟨files'', memory''⟩ := final
  cases same
  cases files
  cases memory
  cases sent
  exact ⟨rfl, rfl⟩

theorem new_length (f : Fin MAX_FILES) : (Files.new f).length = 0 ∧ (Files.new f).stat.stSize = 0 := by
  unfold Files.new
  by_cases first : f = 0
  · rw [first, Function.update_self]
    exact ⟨rfl, rfl⟩
  · rw [Function.update_of_ne first]
    exact ⟨rfl, rfl⟩

theorem boot_filled (memory : Nat → Nat → UInt8) : Filled (Written.after []) (boot memory).files := by
  intro ino file here
  have inside := Files.file_inside here
  unfold Files.file at here
  rw [dif_pos inside] at here
  cases here
  obtain ⟨length, size⟩ := new_length ⟨ino.toNat, inside⟩
  refine ⟨?_, fun i below => ?_⟩
  · change (Files.new _).length = (Files.new _).stat.stSize.toNat
    rw [length, size]
    rfl
  · change i < (Files.new _).length at below
    rw [length] at below
    cases below

theorem boot_alike (memory other : Nat → Nat → UInt8) : Alike (boot memory).files (boot other).files := by
  intro f
  refine ⟨rfl, ?_, rfl, fun _ _ => rfl⟩
  obtain ⟨length, size⟩ := new_length f
  change (Files.new f).length = (Files.new f).stat.stSize.toNat
  rw [length, size]
  rfl

end Session

theorem reads_written {memory : Nat → Nat → UInt8} {xs : List Exchange} {s : Session}
    (run : Run (Guarded Placed Session.Step) (.boot memory) xs s) :
    (∀ earlier x rest, xs = earlier ++ x :: rest → Faithful (Written.after earlier) x) ∧
      ∀ other, (∃ t, Run Session.Step (.boot other) xs t) ∧
        ∀ ys t, Run Session.Step (.boot other) ys t → ys.map (·.request) = xs.map (·.request) → ys = xs := by
  constructor
  · have kept : ∀ labels before x after, (Filled (Written.after labels) before.files ∧
          ∀ earlier x rest, labels = earlier ++ x :: rest → Faithful (Written.after earlier) x) →
            Guarded Placed Session.Step before x after →
        Filled (Written.after (labels ++ [x])) after.files ∧
          ∀ earlier y rest, labels ++ [x] = earlier ++ y :: rest → Faithful (Written.after earlier) y := by
      rintro labels before x after ⟨filled, faithful⟩ ⟨placed, step⟩
      obtain ⟨fills, reads⟩ := step.filled filled placed
      refine ⟨?_, fun earlier y rest split => ?_⟩
      · unfold Written.after at fills ⊢
        rwa [List.foldl_append]
      · rcases List.eq_nil_or_concat rest with rfl | ⟨rest, z, rfl⟩
        · obtain ⟨rfl, final⟩ := List.append_inj' split rfl
          rwa [← List.singleton_inj.mp final]
        · rw [List.concat_eq_append, ← List.cons_append, ← List.append_assoc] at split
          exact faithful earlier y rest (List.append_inj' split rfl).1
    exact (run.history kept ⟨Session.boot_filled memory, fun earlier x rest none => absurd none (by simp)⟩).2
  · intro other
    have follow : ∀ before x after last, Alike before.files last.files → Guarded Placed Session.Step before x after →
        ∃ final, Session.Step last x final ∧ Alike after.files final.files := fun _ _ _ _ alike step =>
          step.2.follows alike step.1
    obtain ⟨t, follows, _⟩ := run.simulate follow (Session.boot_alike memory other)
    exact ⟨⟨t, follows⟩, fun ys last again same => (follows.agree Session.Step.functional again same).1⟩

/-! Computed sessions. -/

theorem Outside.serve_uid {α : Type} (program : Server α) (s : Outside) :
    (program.run Outside.serve s).state.uid = s.uid := by
  induction program generalizing s with
  | pure value => rfl
  | halt reason => rfl
  | call c next ih =>
    cases c with
    | find | send | garbage | blockRead | blockWrite | blockGetsize | blockSetsize => exact ih _ _

def Session.play (s : Session) : List Request → Option (List Exchange × Session)
  | [] => some ([], s)
  | request :: rest =>
    match s.handle request with
    | .halted .. => none
    | .done files outside =>
      match outside.sent with
      | [(dst, reply)] =>
        if dst = request.src then
          (Session.play { files, memory := outside.memory } rest).map fun last => ({ request, reply } :: last.1, last.2)
        else none
      | _ => none

theorem Session.play_run {s last : Session} {requests : List Request} {xs : List Exchange}
    (played : s.play requests = some (xs, last)) :
    xs.map (·.request) = requests ∧ Run Session.Step s xs last := by
  induction requests generalizing s xs with
  | nil =>
    cases played
    exact ⟨rfl, .nil⟩
  | cons request rest ih =>
    unfold Session.play at played
    have uid := Outside.serve_uid (serve s.files request.msg request.src)
      { uid := request.uid, memory := s.memory, sent := [] }
    cases ran : s.handle request with
    | halted reason outside =>
      rw [ran] at played
      cases played
    | done files outside =>
      have same : (serve s.files request.msg request.src).run Outside.serve
        { uid := request.uid, memory := s.memory, sent := [] } = _ := ran
      rw [same] at uid
      obtain ⟨_, memory, sent⟩ := outside
      cases uid
      rw [ran] at played
      dsimp only at played
      split at played
      · split_ifs at played with here
        obtain ⟨⟨ys, final⟩, rest, split⟩ := Option.map_eq_some_iff.mp played
        cases split
        obtain ⟨requests, run⟩ := ih rest
        refine ⟨congrArg (request :: ·) requests, .cons ?_ run⟩
        subst here
        exact ran
      · cases played

private def writing (offset : UInt64) : List Request :=
  let root (msg : List UInt8) : Request := { uid := fun _ => some 0, src := 1, msg }
  let req : FileRequest := { type := .create, ino := 1, offset := 0, size := 0, uid := 0, mode := 0 }
  [root (message 1 req []), root (message 5 { req with offset, size := 1 } [5]),
    root (message 4 { req with size := 2 } [])]

private def sevens : Nat → Nat → UInt8 := fun _ _ => 7

private def readsAt (offset : UInt64) (bytes : List UInt8) : Bool :=
  ((Session.boot sevens).play (writing offset)).any fun last => match last.1 with
    | [one, two, three] => decide (three.reply.data = bytes ∧
        Written.after [one, two] 1 0 = if offset = 0 then some 5 else none)
    | _ => false

private theorem readsAt_run {offset : UInt64} {bytes : List UInt8} (reads : readsAt offset bytes = true) :
    ∃ one two three s, Run Session.Step (.boot sevens) [one, two, three] s ∧
      [one, two, three].map (·.request) = writing offset ∧
      three.reply.data = bytes ∧ Written.after [one, two] 1 0 = if offset = 0 then some 5 else none := by
  obtain ⟨⟨xs, s⟩, played, test⟩ := (Option.any_eq_true _ _).mp reads
  obtain ⟨requests, run⟩ := Session.play_run played
  dsimp only at test
  split at test
  · exact ⟨_, _, _, s, run, requests, of_decide_eq_true test⟩
  · cases test

/-- The first byte that is read is not zero and has not been written. -/
theorem reads_gap : ¬ ∀ memory xs s, Run Session.Step (.boot memory) xs s →
    (∀ earlier x rest, xs = earlier ++ x :: rest → Faithful (Written.after earlier) x) ∧
      ∀ other, (∃ t, Run Session.Step (.boot other) xs t) ∧
        ∀ ys t, Run Session.Step (.boot other) ys t → ys.map (·.request) = xs.map (·.request) → ys = xs := by
  intro faithful
  have gap : readsAt 1 [7, 5] = true := by decide +kernel
  obtain ⟨one, two, three, s, run, requests, data, written⟩ := readsAt_run gap
  have last : some three.request = (writing 1)[2]? := congrArg (·[2]?) requests
  have read : (FileRequest.decode three.request.msg).map
      (fun found => (found.1.type, found.1.ino, found.1.offset)) = some (.read, 1, 0) := by
    have decoded : ((writing 1)[2]?.bind fun request => FileRequest.decode request.msg).map
      (fun found => (found.1.type, found.1.ino, found.1.offset)) =
        some (.read, 1, 0) := by decide +kernel
    rwa [← last] at decoded
  obtain ⟨⟨req, rest⟩, decoded, fields⟩ := Option.map_eq_some_iff.mp read
  obtain ⟨type, ino, offset⟩ : req.type = .read ∧ req.ino = 1 ∧ req.offset = 0 := by simpa using fields
  have byte := (faithful sevens _ s run).1 [one, two] three [] rfl req rest decoded type 0 7 (by rw [data]; rfl)
  rw [ino, offset] at byte
  rcases byte with zero | some
  · cases zero
  · rw [show (0 : UInt64).toNat + 0 = 0 from rfl, written] at some
    cases some

theorem reads_written_sample :
    ∃ xs s, Run (Guarded Placed Session.Step) (.boot sevens) xs s ∧ (xs.map fun x => x.reply.data) = [[], [], [5]] ∧
    (∀ earlier x rest, xs = earlier ++ x :: rest → Faithful (Written.after earlier) x) ∧
      ∀ other, (∃ t, Run Session.Step (.boot other) xs t) ∧
        ∀ ys t, Run Session.Step (.boot other) ys t → ys.map (·.request) = xs.map (·.request) → ys = xs := by
  have whole : (((Session.boot sevens).play (writing 0)).any
      fun last => decide ((last.1.map fun x => x.reply.data) = [[], [], [5]])) = true := by
    decide +kernel
  obtain ⟨⟨xs, s⟩, played, test⟩ := (Option.any_eq_true _ _).mp whole
  obtain ⟨requests, run⟩ := Session.play_run played
  have start : ∀ request ∈ writing 0, (FileRequest.decode request.msg).all
    (fun found => found.1.offset = 0) = true := by decide +kernel
  have guarded : Run (Guarded Placed Session.Step) (.boot sevens) xs s :=
    run.guarded fun x member before req data decoded _ => by
    have zero := start x.request (requests ▸ List.mem_map_of_mem member)
    rw [decoded] at zero
    have zero : req.offset = 0 := of_decide_eq_true zero
    rintro file u - - - -
    rw [zero]
    exact UInt64.zero_le
  exact ⟨xs, s, guarded, of_decide_eq_true test, reads_written guarded⟩

end Egos.Ramfile
