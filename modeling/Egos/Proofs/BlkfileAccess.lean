import Egos.Library.Twins
import Egos.Proofs.BlkfileStrings

/-! Which files the requests of an ordinary user can change. Inode 0 is no file: it holds the
table of all entries, which the server writes back when an entry changes. -/

namespace Egos.Blkfile
open Library Files
open Grass (Pid Uid)

/-- The user owns the file and has the owner's bit, or does not own it and has the others' bit. -/
def MayUse (owner other : UInt32) (u : Uid) (stat : FileStat) : Prop :=
  u = stat.stUid ∧ stat.stMode &&& owner ≠ 0 ∨ u ≠ stat.stUid ∧ stat.stMode &&& other ≠ 0

instance (owner other : UInt32) (u : Uid) (stat : FileStat) : Decidable (MayUse owner other u stat) :=
  inferInstanceAs (Decidable (_ ∨ _))

def Permitted (owner other : UInt32) (u : Uid) (stat : FileStat) : Prop := u = 0 ∨ MayUse owner other u stat

instance (owner other : UInt32) (u : Uid) (stat : FileStat) : Decidable (Permitted owner other u stat) :=
  inferInstanceAs (Decidable (_ ∨ _))

theorem mayUse_of_granted {owner other : UInt32} {u : Uid} {stat : FileStat}
    (granted : (if u = stat.stUid then decide (stat.stMode &&& owner ≠ 0) else decide (stat.stMode &&& other ≠ 0)) =
    true) :
    MayUse owner other u stat := by
  by_cases own : u = stat.stUid
  · rw [if_pos own] at granted
    exact Or.inl ⟨own, of_decide_eq_true granted⟩
  · rw [if_neg own] at granted
    exact Or.inr ⟨own, of_decide_eq_true granted⟩

def MayRead : Uid → FileStat → Prop := MayUse P_FILE_OWNER_READ P_FILE_OTHER_READ

def MayWrite : Uid → FileStat → Prop := MayUse P_FILE_OWNER_WRITE P_FILE_OTHER_WRITE

section Users
variable {s : InodeStore} {src : Pid} {u : Uid}

theorem findUid_user (live : s.uid src = some u) : (findUid src).run InodeStore.serve s = .done u s := by
  unfold findUid call
  rw [Effect.run_bind, Effect.run_perform]
  unfold InodeStore.serve
  dsimp only [bind]
  rw [live]
  rfl

theorem allowed_user (live : s.uid src = some u) (user : u ≠ 0) (owner other : UInt32) (stat : FileStat) :
    (allowed owner other (some stat) src).run InodeStore.serve s = .done (decide (MayUse owner other u stat)) s := by
  unfold allowed
  rw [Effect.run_bind, Prog.bind_done (findUid_user live), if_neg user]
  dsimp only
  have granted : (if u = stat.stUid then decide (stat.stMode &&& owner ≠ 0) else decide (stat.stMode &&& other ≠ 0)) =
      decide (MayUse owner other u stat) := by
    by_cases own : u = stat.stUid
    · simp only [MayUse, own, if_true, true_and, ne_eq, not_true_eq_false, false_and, or_false]
    · simp only [MayUse, own, if_false, false_and, ne_eq, not_false_eq_true, true_and, false_or]
  rw [← granted]
  rfl

end Users

/-! What the handlers can do, whoever the sender is. -/

def Touches (ino : UInt32) : Call → Prop
  | .blockWrite i _ _ => i = 0 ∨ i = ino
  | .blockSetsize i _ => i = 0 ∨ i = ino
  | _ => True

/-- Entries keep their owners and modes, and those of other inodes are the same. -/
def Resized (cache : Cache) (ino : UInt32) (after : Cache) : Prop :=
  ∀ f : Fin MAX_INODES, (after f).stUid = (cache f).stUid ∧ (after f).stMode = (cache f).stMode ∧
    (UInt32.ofNat f ≠ ino → after f = cache f)

theorem resized_refl {cache : Cache} {ino : UInt32} : Resized cache ino cache := fun _ => ⟨rfl, rfl, fun _ => rfl⟩

section Gives
variable {cache : Cache} {req : FileRequest} {src : Pid} {ino : UInt32}

theorem put_other {stat : FileStat} {f : Fin MAX_INODES} (apart : UInt32.ofNat f ≠ ino) :
    cache.put ino stat f = cache f := by
  unfold Cache.put
  by_cases inside : ino.toNat < MAX_INODES
  · rw [dif_pos inside]
    apply Function.update_of_ne
    rintro rfl
    exact apart UInt32.ofNat_toNat
  · rw [dif_neg inside]

theorem place_iff {f : Fin MAX_INODES} (inside : ino.toNat < MAX_INODES) :
    f = ⟨ino.toNat, inside⟩ ↔ UInt32.ofNat f = ino := by
  constructor
  · rintro rfl
    exact UInt32.ofNat_toNat
  · rintro rfl
    exact Fin.ext (UInt32.toNat_ofNat_of_lt' (Nat.lt_trans f.isLt (by decide))).symm

theorem put_here {stat : FileStat} (inside : ino.toNat < MAX_INODES) :
    cache.put ino stat ⟨ino.toNat, inside⟩ = stat := by
  unfold Cache.put
  rw [dif_pos inside]
  exact Function.update_self ..

theorem allocated_eq {stat : FileStat} (found : cache.allocated ino = some stat) :
    ∃ inside : ino.toNat < MAX_INODES, cache ⟨ino.toNat, inside⟩ = stat ∧ stat.stAlloc = true := by
  unfold Cache.allocated Cache.entry at found
  by_cases inside : ino.toNat < MAX_INODES
  · rw [dif_pos inside, Option.filter_eq_some_iff] at found
    exact ⟨inside, Option.some.inj found.1, found.2⟩
  · rw [dif_neg inside] at found
    cases found

theorem entry_eq {stat : FileStat} (found : cache.entry ino = some stat) :
    ∃ inside : ino.toNat < MAX_INODES, cache ⟨ino.toNat, inside⟩ = stat := by
  unfold Cache.entry at found
  by_cases inside : ino.toNat < MAX_INODES
  · rw [dif_pos inside] at found
    exact ⟨inside, Option.some.inj found⟩
  · rw [dif_neg inside] at found
    cases found

theorem put_resized {stat changed : FileStat} (inside : ino.toNat < MAX_INODES)
    (entry : cache ⟨ino.toNat, inside⟩ = stat)
    (uid : changed.stUid = stat.stUid) (mode : changed.stMode = stat.stMode) :
    Resized cache ino (cache.put ino changed) := by
  intro f
  by_cases same : f = ⟨ino.toNat, inside⟩
  · rw [same, put_here, entry]
    exact ⟨uid, mode, fun apart => absurd UInt32.ofNat_toNat apart⟩
  · rw [put_other (mt (place_iff inside).mpr same)]
    exact ⟨rfl, rfl, fun _ => rfl⟩

section Calls
variable {allowed : Call → Prop}

theorem writeBlocks_gives {left i : Nat} {offset : UInt32} {addr : Buffer}
    (writes : ∀ offset block, allowed (.blockWrite ino offset block)) :
    (writeBlocks ino left i offset addr).Gives allowed fun _ => True := by
  induction left generalizing i offset with
  | zero => trivial
  | succ left ih =>
    refine .ite trivial (.call (writes ..) fun written => ?_)
    cases written with
    | false => trivial
    | true => exact ih

theorem readBlocks_gives {left i : Nat} {offset : UInt32} {addr : Buffer}
    (reads : ∀ offset, allowed (.blockRead ino offset)) :
    (readBlocks ino left i offset addr).Gives allowed fun _ => True := by
  induction left generalizing i offset addr with
  | zero => trivial
  | succ left ih =>
    refine .call (reads _) fun block => ?_
    cases block with
    | none => trivial
    | some block => exact .ite trivial ih

theorem multiblockRead_gives {offset nblocks : UInt32} {addr : Buffer}
    (reads : ∀ offset, allowed (.blockRead ino offset)) :
    (multiblockRead ino offset addr nblocks).Gives allowed fun _ => True := by
  unfold multiblockRead
  exact (readBlocks_gives reads).bind fun _ _ => trivial

theorem oldContents_gives {fileSize : UInt64} {e : Extent} (reads : ∀ offset, allowed (.blockRead ino offset)) :
    (oldContents ino fileSize e).Gives allowed fun _ => True := by
  unfold oldContents
  exact .ite trivial ((multiblockRead_gives reads).bind fun _ _ => trivial)

theorem findUid_gives (finds : allowed (.find src)) : (findUid src).Gives allowed fun _ => True := by
  refine .call finds fun uid => ?_
  cases uid with
  | none => trivial
  | some uid => trivial

theorem allowed_gives {owner other : UInt32} {stat : Option FileStat} (finds : allowed (.find src)) :
    (Files.allowed owner other stat src).Gives allowed fun _ => True := by
  unfold Files.allowed
  refine (findUid_gives finds).bind fun uid _ => .ite trivial ?_
  cases stat with
  | none => trivial
  | some stat => trivial

theorem respondUnless_gives {success : Bool} (sends : ∀ reply, allowed (.send src reply)) :
    (respondUnless success src).Gives allowed fun _ => True := by
  cases success with
  | false => exact .call (sends _) fun _ => trivial
  | true => trivial

end Calls

theorem flush_gives {target : UInt32} : (flushStatCache cache).Gives (Touches target) fun _ => True := by
  unfold flushStatCache multiblockWrite
  exact (writeBlocks_gives fun _ _ => .inl rfl).bind fun _ _ => trivial

theorem refuse_gives {target : UInt32} {wanted : Cache → Prop} (holds : wanted cache) :
    (refuse cache src).Gives (Touches target) wanted :=
  .call trivial fun _ => holds

/-- The last steps of the handlers that change an entry. -/
theorem finish_gives {target : UInt32} {wanted : Cache → Prop} {reply : FileReply} (holds : wanted cache) :
    (do
      flushStatCache cache
      call (.send src reply)
      pure cache : Server Cache).Gives (Touches target) wanted :=
  flush_gives.bind fun _ _ => .call trivial fun _ => holds

theorem create_gives : (doCreate cache req src).Gives (Touches 0) fun after => ∀ f, (cache f).stAlloc = true →
    after f = cache f := by
  unfold doCreate
  cases found : cache.unallocated with
  | none => exact refuse_gives fun _ _ => rfl
  | some ino =>
    have picked := List.find?_some found
    rw [Bool.and_eq_true, Bool.not_eq_true'] at picked
    refine (findUid_gives trivial).bind fun uid _ => finish_gives fun f used => ?_
    apply Function.update_of_ne
    rintro rfl
    rw [picked.2] at used
    cases used

theorem chmod_gives : (doChmod cache req src).Gives (Touches 0) fun after => ∀ f,
    (after f).stAlloc = (cache f).stAlloc ∧
    (after f).stSize = (cache f).stSize ∧ (after f).stUid = (cache f).stUid ∧
        (UInt32.ofNat f ≠ req.ino → after f = cache f) := by
  unfold doChmod
  cases found : cache.allocated req.ino with
  | none => exact refuse_gives fun _ => ⟨rfl, rfl, rfl, fun _ => rfl⟩
  | some stat =>
    obtain ⟨inside, entry, _⟩ := allocated_eq found
    refine (findUid_gives trivial).bind fun uid _ => ?_
    split_ifs
    · exact refuse_gives fun _ => ⟨rfl, rfl, rfl, fun _ => rfl⟩
    · refine finish_gives fun f => ?_
      by_cases same : f = ⟨req.ino.toNat, inside⟩
      · rw [same, put_here, entry]
        exact ⟨rfl, rfl, rfl, fun apart => absurd UInt32.ofNat_toNat apart⟩
      · rw [put_other (mt (place_iff inside).mpr same)]
        exact ⟨rfl, rfl, rfl, fun _ => rfl⟩

theorem freeReply_gives {ext : UInt32} {about : Call → Prop} : (freeReply ext).Gives about fun _ => True :=
  .ite trivial trivial

/-- The reply is freed before the request is refused, or after it has been sent. -/
theorem freed_gives {ext : UInt32} : (freeReply ext >>= fun _ => refuse cache src).Gives (Touches 0) (· = cache) :=
  freeReply_gives.bind fun _ _ => refuse_gives rfl

theorem replied_gives {ext : UInt32} {reply : FileReply} :
    (call (.send src reply) >>= fun _ => freeReply ext >>= fun _ => pure cache).Gives (Touches 0) (· = cache) :=
  .call trivial fun _ => freeReply_gives.bind fun _ _ => rfl

theorem readContents_gives {stat : FileStat} : (readContents cache req stat src).Gives (Touches 0) (· = cache) := by
  unfold readContents
  refine (multiblockRead_gives fun _ => trivial).bind fun result _ => ?_
  cases result with
  | none => exact freed_gives
  | some result => exact .ite freed_gives (.ite trivial replied_gives)

theorem read_gives : (doRead cache req src).Gives (Touches 0) (· = cache) := by
  unfold doRead
  cases cache.allocated req.ino with
  | none => exact refuse_gives rfl
  | some stat =>
    refine (allowed_gives trivial).bind fun granted _ => ?_
    cases granted with
    | false => exact refuse_gives rfl
    | true =>
      dsimp only
      split_ifs
      · exact readContents_gives
      · exact replied_gives

theorem stat_gives : (doStat cache req src).Gives (Touches 0) (· = cache) := by
  unfold doStat
  cases cache.allocated req.ino with
  | none => exact refuse_gives rfl
  | some stat =>
    refine (allowed_gives trivial).bind fun granted _ => ?_
    cases granted with
    | false => exact refuse_gives rfl
    | true => exact .call trivial fun _ => rfl

theorem put_gives {stat : FileStat} (inside : ino.toNat < MAX_INODES) (entry : cache ⟨ino.toNat, inside⟩ = stat)
    {offset : UInt64} {data : List UInt8}
    {size : UInt32} : (put cache ino stat offset data size).Gives (Touches ino) fun after => ∀ changed,
    after = some changed → Resized cache ino changed := by
  unfold put
  dsimp only
  refine (oldContents_gives fun _ => trivial).bind fun contents _ => ?_
  cases contents with
  | none => exact nofun
  | some contents =>
    dsimp only
    split_ifs
    · trivial
    unfold multiblockWrite
    refine (writeBlocks_gives fun _ _ => .inr rfl).bind fun written _ => ?_
    cases written with
    | false => exact nofun
    | true =>
      refine flush_gives.bind fun _ _ changed same => ?_
      cases same
      exact put_resized inside entry rfl rfl

theorem write_gives {data : List UInt8} :
    (doWrite cache req data src).Gives (Touches req.ino) (Resized cache req.ino) := by
  unfold doWrite
  cases found : cache.allocated req.ino with
  | none => exact refuse_gives resized_refl
  | some stat =>
    obtain ⟨inside, entry, _⟩ := allocated_eq found
    dsimp only
    split_ifs
    · exact refuse_gives resized_refl
    refine (allowed_gives trivial).bind fun granted _ => ?_
    cases granted with
    | false => exact refuse_gives resized_refl
    | true =>
      refine (put_gives inside entry).bind fun after resized => ?_
      cases after with
      | none => exact refuse_gives resized_refl
      | some after => exact .call trivial fun _ => resized after rfl

theorem setsize_gives : (doSetsize cache req src).Gives (Touches req.ino) (Resized cache req.ino) := by
  unfold doSetsize
  cases found : cache.allocated req.ino with
  | none => exact refuse_gives resized_refl
  | some stat =>
    obtain ⟨inside, entry, _⟩ := allocated_eq found
    refine .ite (refuse_gives resized_refl) ((allowed_gives trivial).bind fun granted _ => ?_)
    cases granted with
    | false => exact refuse_gives resized_refl
    | true =>
      refine .call (.inr rfl) fun success => (respondUnless_gives fun _ => trivial).bind fun _ _ => ?_
      refine flush_gives.bind fun _ _ => .call trivial fun _ => ?_
      exact put_resized inside entry rfl rfl

theorem delete_gives : (doDelete cache req src).Gives (Touches req.ino) (Resized cache req.ino) := by
  unfold doDelete
  split_ifs
  · exact refuse_gives resized_refl
  refine (allowed_gives trivial).bind fun granted _ => ?_
  cases granted with
  | false => exact refuse_gives resized_refl
  | true =>
    cases found : cache.entry req.ino with
    | none => trivial
    | some stat =>
      obtain ⟨inside, entry⟩ := entry_eq found
      dsimp only
      split_ifs
      · refine flush_gives.bind fun _ _ => .call (.inr rfl)
          fun success => (respondUnless_gives fun _ => trivial).bind fun _ _ => .call trivial fun _ => ?_
        exact put_resized inside entry rfl rfl
      · exact .call trivial fun _ => resized_refl

/-- An inode that the call does not touch is the same after it. -/
theorem touches_kept {i : UInt32} {blocks : List DataBlock} (some : i ≠ 0) (apart : i ≠ ino) (op : Call)
    (fine : Touches ino op) (state : InodeStore)
    (same : state.blocks i = blocks) : (InodeStore.serve op state).state.blocks i = blocks := by
  rw [← same]
  cases op with
  | find pid => rfl
  | send dst reply => rfl
  | blockRead other offset => rfl
  | blockGetsize other => rfl
  | garbage count => rfl
  | blockWrite other offset block =>
    have different : i ≠ other := by
      rintro rfl
      exact fine.elim some apart
    unfold InodeStore.serve
    dsimp only
    split_ifs
    · exact Function.update_of_ne different _ _
    · rfl
  | blockSetsize other size =>
    have different : i ≠ other := by
      rintro rfl
      exact fine.elim some apart
    unfold InodeStore.serve
    dsimp only
    split_ifs
    · rfl
    · exact Function.update_of_ne different _ _
    · rfl
    · rfl

/-- Inodes that a program does not touch are the same, also when it halts. -/
theorem touches_run {program : Server Cache} {wanted : Cache → Prop}
    (gives : program.Gives (Touches ino) wanted) (s : InodeStore) :
    (∀ i, i ≠ 0 → i ≠ ino → (program.run InodeStore.serve s).state.blocks i = s.blocks i) ∧
      ∀ after last, program.run InodeStore.serve s = .done after last → wanted after := by
  have nothing : ∀ op, Touches ino op → ∀ state : InodeStore, True → True := fun _ _ _ _ => trivial
  exact ⟨fun i some apart => (gives.run (touches_kept some apart) rfl).1, (gives.run nothing trivial).2⟩

end Gives

/-! What is refused. -/

section Denied
variable {cache : Cache} {s : InodeStore} {src : Pid} {u : Uid} {req : FileRequest}

def refused (cache : Cache) (src : Pid) (s : InodeStore) : Outcome InodeStore Halt Cache :=
  .done cache (InodeStore.reply s src (.cleared .error))

variable (live : s.uid src = some u) (user : u ≠ 0)
include live user

/-- A handler that checks a permission first. -/
private theorem denied_run {owner other : UInt32} {stat : FileStat} (denied : ¬ MayUse owner other u stat)
    {granted : Server Cache} :
    (do
      match ← allowed owner other (some stat) src with
      | false => refuse cache src
      | true => granted : Server Cache).run InodeStore.serve s = refused cache src s := by
  rw [Effect.run_bind, Prog.bind_done (allowed_user live user ..), decide_eq_false denied]
  exact refuse_run cache src s

theorem read_denied (denied : ∀ stat, cache.allocated req.ino = some stat → ¬ MayRead u stat) :
    (doRead cache req src).run InodeStore.serve s = refused cache src s := by
  unfold doRead
  cases found : cache.allocated req.ino with
  | none => exact refuse_run cache src s
  | some stat => exact denied_run live user (denied stat found)

theorem stat_denied (denied : ∀ stat, cache.allocated req.ino = some stat → ¬ MayRead u stat) :
    (doStat cache req src).run InodeStore.serve s = refused cache src s := by
  unfold doStat
  cases found : cache.allocated req.ino with
  | none => exact refuse_run cache src s
  | some stat => exact denied_run live user (denied stat found)

theorem write_denied {data : List UInt8} (inside : req.ino.toNat < MAX_INODES)
    (denied : ¬ MayWrite u (cache ⟨req.ino.toNat, inside⟩)) :
    (doWrite cache req data src).run InodeStore.serve s = refused cache src s := by
  unfold doWrite
  cases found : cache.allocated req.ino with
  | none => exact refuse_run cache src s
  | some stat =>
    obtain ⟨_, entry, _⟩ := allocated_eq found
    rw [entry] at denied
    dsimp only
    split_ifs
    · exact refuse_run cache src s
    · exact denied_run live user denied

theorem setsize_denied (inside : req.ino.toNat < MAX_INODES) (denied : ¬ MayWrite u (cache ⟨req.ino.toNat, inside⟩)) :
    (doSetsize cache req src).run InodeStore.serve s = refused cache src s := by
  unfold doSetsize
  cases found : cache.allocated req.ino with
  | none => exact refuse_run cache src s
  | some stat =>
    obtain ⟨_, entry, _⟩ := allocated_eq found
    rw [entry] at denied
    dsimp only
    by_cases large : stat.stSize < req.offset
    · rw [if_pos large]
      exact refuse_run cache src s
    · rw [if_neg large]
      exact denied_run live user denied

theorem delete_denied (inside : req.ino.toNat < MAX_INODES) (denied : ¬ MayWrite u (cache ⟨req.ino.toNat, inside⟩)) :
    (doDelete cache req src).run InodeStore.serve s = refused cache src s := by
  have entry : cache.entry req.ino = some (cache ⟨req.ino.toNat, inside⟩) := dif_pos inside
  unfold doDelete
  rw [if_neg (Nat.not_lt.mpr (Nat.le_of_lt inside)), entry]
  exact denied_run live user denied

theorem chown_denied : (doChown cache req src).run InodeStore.serve s = refused cache src s := by
  unfold doChown
  cases found : cache.allocated req.ino with
  | none => exact refuse_run cache src s
  | some stat =>
    dsimp only
    rw [Effect.run_bind, Prog.bind_done (findUid_user live), if_pos user]
    exact refuse_run cache src s

theorem chmod_denied (denied : ∀ stat, cache.allocated req.ino = some stat → u ≠ stat.stUid) :
    (doChmod cache req src).run InodeStore.serve s = refused cache src s := by
  unfold doChmod
  cases found : cache.allocated req.ino with
  | none => exact refuse_run cache src s
  | some stat =>
    dsimp only
    rw [Effect.run_bind, Prog.bind_done (findUid_user live), if_pos ⟨user, denied stat found⟩]
    exact refuse_run cache src s

end Denied

/-! One request. -/

/-- The request is one that writes to the file, and the sender may write to it. -/
def Modifies (u : Uid) (req : FileRequest) (f : Fin MAX_INODES) (stat : FileStat) : Prop :=
  req.ino = UInt32.ofNat f ∧ (req.type = .write ∨ req.type = .setsize ∨ req.type = .delete) ∧ MayWrite u stat

/-- What a request of the user can do to the entry of a file. -/
structure Kept (u : Uid) (req : FileRequest) (f : Fin MAX_INODES) (before after : FileStat) : Prop where
  size : after.stAlloc = before.stAlloc ∧ after.stSize = before.stSize ∨ Modifies u req f before
  mode : after.stMode = before.stMode ∨ req.ino = UInt32.ofNat f ∧ req.type = .chmod ∧ u = before.stUid
  owner : after.stUid = before.stUid

/-- What a request of the user can do to the allocated files, and what it can get to know about them. -/
structure Respected (u : Uid) (req : FileRequest) (src : Pid) (cache : Cache) (s : InodeStore)
    (outcome : Outcome InodeStore Halt Cache) : Prop where
  reads : req.type = .read ∨ req.type = .stat →
    (∃ stat, cache.allocated req.ino = some stat ∧ MayRead u stat) ∨ outcome = refused cache src s
  bytes : ∀ f : Fin MAX_INODES, f ≠ 0 → (cache f).stAlloc = true →
    outcome.state.blocks (UInt32.ofNat f) = s.blocks (UInt32.ofNat f) ∨ Modifies u req f (cache f)
  entries : ∀ after last, outcome = .done after last → ∀ f, (cache f).stAlloc = true → Kept u req f (cache f) (after f)

section Respected
variable {cache : Cache} {s : InodeStore} {src : Pid} {u : Uid} {req : FileRequest} {data : List UInt8}

theorem kept_refl {f : Fin MAX_INODES} {stat : FileStat} : Kept u req f stat stat := ⟨.inl ⟨rfl, rfl⟩, .inl rfl, rfl⟩

theorem respected_refused : Respected u req src cache s (refused cache src s) where
  reads _ := .inr rfl
  bytes _ _ _ := .inl rfl
  entries after last ended f _ := by
    cases ended
    exact kept_refl

theorem inode_positive {f : Fin MAX_INODES} (some : f ≠ 0) : UInt32.ofNat f ≠ 0 := Holds.inode_ne some

/-- A handler that writes to no file. -/
theorem respected_entries {program : Server Cache} {wanted : Cache → Prop} (gives : program.Gives (Touches 0) wanted)
    (kept : ∀ after, wanted after → ∀ f, (cache f).stAlloc = true → Kept u req f (cache f) (after f))
    (reads : req.type = .read ∨ req.type = .stat →
      (∃ stat, cache.allocated req.ino = some stat ∧ MayRead u stat) ∨
        program.run InodeStore.serve s = refused cache src s) :
    Respected u req src cache s (program.run InodeStore.serve s) where
  reads := reads
  bytes _ some _ := .inl ((touches_run gives s).1 _ (inode_positive some) (inode_positive some))
  entries after last ended := kept after ((touches_run gives s).2 after last ended)

/-- A handler that writes to the file that the request is for. -/
theorem respected_resized {program : Server Cache} (gives : program.Gives (Touches req.ino) (Resized cache req.ino))
    (kind : req.type = .write ∨ req.type = .setsize ∨ req.type = .delete) (inside : req.ino.toNat < MAX_INODES)
    (denied : ¬ MayWrite u (cache ⟨req.ino.toNat, inside⟩) → program.run InodeStore.serve s = refused cache src s) :
    Respected u req src cache s (program.run InodeStore.serve s) := by
  by_cases may : MayWrite u (cache ⟨req.ino.toNat, inside⟩)
  · have other : ¬ (req.type = .read ∨ req.type = .stat) := by
      rcases kind with kind | kind | kind <;> rw [kind] <;> decide
    have modifies : ∀ f, UInt32.ofNat f.val = req.ino → Modifies u req f (cache f) := by
      intro f same
      have place := (place_iff inside).mpr same
      rw [← place] at may
      exact ⟨same.symm, kind, may⟩
    refine ⟨fun reads => absurd reads other, fun f some _ => ?_, fun after last ended f _ => ?_⟩
    · by_cases same : UInt32.ofNat f.val = req.ino
      · exact .inr (modifies f same)
      · exact .inl ((touches_run gives s).1 _ (inode_positive some) same)
    · obtain ⟨uid, mode, others⟩ := (touches_run gives s).2 after last ended f
      refine ⟨?_, .inl mode, uid⟩
      by_cases same : UInt32.ofNat f.val = req.ino
      · exact .inr (modifies f same)
      · rw [others same]
        exact .inl ⟨rfl, rfl⟩
  · rw [denied may]
    exact respected_refused

theorem handle_respected (live : s.uid src = some u) (user : u ≠ 0) (inside : req.ino.toNat < MAX_INODES) :
    Respected u req src cache s ((handle cache req data src).run InodeStore.serve s) := by
  -- a sender that may not read gets nothing but an error
  have checked : ∀ {program : Server Cache}, ((∀ stat, cache.allocated req.ino = some stat → ¬ MayRead u stat) →
      program.run InodeStore.serve s = refused cache src s) →
      (∃ stat, cache.allocated req.ino = some stat ∧ MayRead u stat) ∨
          program.run InodeStore.serve s = refused cache src s := by
    intro program denied
    by_cases may : ∃ stat, cache.allocated req.ino = some stat ∧ MayRead u stat
    · exact .inl may
    · exact .inr (denied fun stat found reads => may ⟨stat, found, reads⟩)
  have same : ∀ after, after = cache → ∀ f, (cache f).stAlloc = true → Kept u req f (cache f) (after f) := by
    rintro after rfl f _
    exact kept_refl
  unfold handle
  cases kind : req.type with
  | create =>
    refine respected_entries create_gives (fun after others f used => ?_)
      fun reads => absurd reads (by rw [kind]; decide)
    rw [others f used]
    exact kept_refl
  | delete => exact respected_resized delete_gives (.inr (.inr kind)) inside (delete_denied live user inside)
  | chown =>
    rw [chown_denied live user]
    exact respected_refused
  | chmod =>
    by_cases denied : ∀ stat, cache.allocated req.ino = some stat → u ≠ stat.stUid
    · rw [chmod_denied live user denied]
      exact respected_refused
    · push Not at denied
      obtain ⟨stat, found, own⟩ := denied
      obtain ⟨inside, entry, _⟩ := allocated_eq found
      refine respected_entries chmod_gives (fun after changed f _ => ?_)
        fun reads => absurd reads (by rw [kind]; decide)
      obtain ⟨alloc, size, uid, others⟩ := changed f
      refine ⟨.inl ⟨alloc, size⟩, ?_, uid⟩
      by_cases here : UInt32.ofNat f.val = req.ino
      · have place := (place_iff inside).mpr here
        rw [← place] at entry
        exact .inr ⟨here.symm, kind, by rw [entry, own]⟩
      · rw [others here]
        exact .inl rfl
  | read => exact respected_entries read_gives same fun _ => checked (read_denied live user)
  | write => exact respected_resized write_gives (.inl kind) inside (write_denied live user inside)
  | stat => exact respected_entries stat_gives same fun _ => checked (stat_denied live user)
  | setsize => exact respected_resized setsize_gives (.inr (.inl kind)) inside (setsize_denied live user inside)
  | setFlags => exact ⟨fun reads => absurd reads (by rw [kind]; decide), fun _ _ _ => .inl rfl, nofun⟩
  | unknown => exact ⟨fun reads => absurd reads (by rw [kind]; decide), fun _ _ _ => .inl rfl, nofun⟩

end Respected

end Egos.Blkfile
