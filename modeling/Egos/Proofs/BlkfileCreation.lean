import Egos.Proofs.BlkfileTruncation

/-! New files in inodes that have been used before. Deletion keeps the size in the entry, so a
file is empty only if the last one in its inode was. -/

namespace Egos.Blkfile
open Library Files
open Grass (Pid Uid)
open Disk (BLOCK_SIZE)

section Creation
variable {cache : Cache} {s : InodeStore} {req : FileRequest} {data : List UInt8} {src : Pid}

def created (cache : Cache) (ino : Fin MAX_INODES) (req : FileRequest) (u : Uid) : FileStat :=
  { cache ino with stAlloc := true, stMode := req.mode, stUid := u }

/-- A file has been made in the first inode that is not allocated. -/
def Creates (cache : Cache) (s : InodeStore) (req : FileRequest) (src : Pid) (reply : FileReply)
    (after : Cache) : Prop :=
  ∃ ino u, cache.unallocated = some ino ∧ s.uid src = some u ∧ reply.ino = UInt32.ofNat ino ∧
    after = Function.update cache ino (created cache ino req u)

theorem create_creates (create : req.type = .create) :
    Ends InodeStore.serve s (Answered s src fun reply after _ => Creates cache s req src reply after)
        (handle cache req data src) := by
  unfold handle
  rw [create]
  unfold doCreate
  dsimp only
  cases found : cache.unallocated with
  | none => exact (answered_refused _).refuse
  | some ino =>
    refine (@answered_refused cache s src _).sender.mpr fun u live => ?_
    obtain ⟨t, ran, kept⟩ := @finish_serves _ s src InodeStore.delivers _ _ (InodeStore.serves (by decide))
      (Function.update cache ino (created cache ino req u))
      { FileReply.cleared .ok with ino := UInt32.ofNat ino }
    have new : (InodeStore.reply t src { FileReply.cleared .ok with ino := UInt32.ofNat ino }).sent =
        s.sent ++ [(src, { FileReply.cleared .ok with ino := UInt32.ofNat ino })] := by
      change t.sent ++ _ = _
      rw [kept.sent]
    exact (ends_done ran).mpr ((answered_iff new).mpr (.inr ⟨ino, u, found, live, rfl, rfl⟩))

theorem created_allocated (ino : Fin MAX_INODES) (u : Uid) :
    Cache.allocated (Function.update cache ino (created cache ino req u)) (UInt32.ofNat ino) =
        some (created cache ino req u) := by
  have value : (UInt32.ofNat ino).toNat = ino := UInt32.toNat_ofNat_of_lt' (Nat.lt_trans ino.isLt (by decide))
  have inside : (UInt32.ofNat ino).toNat < MAX_INODES := by
    rw [value]
    exact ino.isLt
  have same : (⟨(UInt32.ofNat ino).toNat, inside⟩ : Fin MAX_INODES) = ino := Fin.ext value
  unfold Cache.allocated Cache.entry
  rw [dif_pos inside, same, Function.update_self]
  rfl

/-- Inode 0 is never handed out. -/
theorem unallocated_ne {ino : Fin MAX_INODES} (found : cache.unallocated = some ino) :
    ino ≠ 0 ∧ (cache ino).stAlloc = false := by
  have picked := List.find?_some found
  rw [Bool.and_eq_true, Bool.not_eq_true', decide_eq_true_iff] at picked
  exact ⟨fun zero => picked.1 (congrArg Fin.val zero), picked.2⟩

end Creation

/-- An empty file: a read returns nothing (the server goes on if it can free the reply), and data
that its owner writes at its beginning can be read back. -/
structure EmptyFile (s : Session) (ino : UInt32) (uid : Pid → Option Uid) (src : Pid) : Prop where
  size : ∃ stat, s.cache.allocated ino = some stat ∧ stat.stSize = 0
  reads : ∀ req data, req.type = .read → req.ino = ino →
    (s.handle { uid, src, req, data }).state.sent = [(src, readReply 0 [])] ∧
    (req.size.toNat < 2 ^ 32 - 56 → ∃ last,
      s.Step { request := { uid, src, req, data }, replies := [readReply 0 []] } last)
  writes : ∀ req data, req.type = .write → req.ino = ino → req.offset = 0 → req.size.toNat = data.length →
    data.length ≤ PAGESIZE →
    ∃ written, s.Step { request := { uid, src, req, data }, replies := [.cleared .ok] } written ∧
      ∀ back none, back.type = .read → back.ino = ino → back.offset = 0 → back.size = req.size →
        ∃ last, written.Step { request := { uid, src, req := back, data := none }, replies := [readReply req.size.toUInt64 data] } last

section Empty
variable {s : Session} {uid : Pid → Option Uid} {src : Pid} {u : Uid} {req : FileRequest} {data : List UInt8}
    {stat : FileStat}

theorem step_done {cache : Cache} {t : InodeStore} {reply : FileReply}
    (ran : s.handle { uid, src, req, data } = .done cache t)
    (table : t.uid = uid) (sent : t.sent = [(src, reply)]) :
    s.Step { request := { uid, src, req, data }, replies := [reply] } { cache, blocks := t.blocks } := by
  unfold Session.Step
  rw [ran]
  obtain ⟨blocks, uid, replies⟩ := t
  cases table
  cases sent
  rfl

/-- A read by a sender who may read. -/
theorem read_run (found : s.cache.allocated req.ino = some stat) (live : uid src = some u)
    (permitted : Permitted P_FILE_OWNER_READ P_FILE_OTHER_READ u stat)
    (read : req.type = .read) (fits : req.size ≠ 0 ∧ req.offset < stat.stSize →
    ReadFits stat.stSize req.offset req.size)
    (stored : req.size ≠ 0 ∧ req.offset < stat.stSize →
    (req.offset.toNat + readCount stat.stSize req.offset req.size) / BLOCK_SIZE < (s.blocks req.ino).length) :
    s.handle { uid, src, req, data } = (freeReply req.size >>= fun _ => pure s.cache).run InodeStore.serve
      (InodeStore.reply (s.store uid) src (bytesRead (s.store uid) req stat)) := by
  have goes : s.handle { uid, src, req, data } = (if req.size ≠ 0 ∧
      req.offset < stat.stSize then readContents s.cache req stat src else do
      call (.send src (readReply 0 []))
      freeReply req.size
      pure s.cache : Server Cache).run InodeStore.serve (s.store uid) := by
    unfold Session.handle handle
    rw [read]
    unfold doRead readAllowed
    dsimp only
    rw [found]
    dsimp only
    rw [Effect.run_bind, Prog.bind_done (@allowed_delivers _ (s.store uid) src u InodeStore.delivers live _ _ stat),
      decide_eq_true permitted]
  rw [goes]
  by_cases reads : req.size ≠ 0 ∧ req.offset < stat.stSize
  · obtain ⟨inside, -, -⟩ := allocated_eq found
    have values := (readValues_iff reads.2).mpr (fits reads)
    rw [if_pos reads, readContents_serves inside values]
    have all : served (absent (s.store uid) req.ino) (readFirst req.offset) (readSpan stat.stSize req.offset req.size) =
        readSpan stat.stSize req.offset req.size := by
      by_contra less
      have le := served_le (absent (s.store uid) req.ino) (readFirst req.offset)
        (readSpan stat.stSize req.offset req.size)
      have early := Nat.lt_of_le_of_ne le less
      have gone := absent_iff.mp ((served_spec _ _ _).2 early)
      rw [values.number _ early] at gone
      have there : _ < ((s.store uid).blocks req.ino).length := stored reads
      have span : readSpan stat.stSize req.offset req.size =
        (req.offset.toNat + readCount stat.stSize req.offset req.size) / BLOCK_SIZE - req.offset.toNat /
          BLOCK_SIZE + 1 := rfl
      have ordered : req.offset.toNat / BLOCK_SIZE ≤
          (req.offset.toNat + readCount stat.stSize req.offset req.size) / BLOCK_SIZE :=
        Nat.div_le_div_right (Nat.le_add_right _ _)
      omega
    rw [if_pos all]
  · rw [if_neg reads, bytesRead_nothing reads, Effect.run_bind, Prog.bind_done (send_delivers InodeStore.delivers _)]

theorem read_sent {reply : FileReply} (ran : s.handle { uid, src, req, data } =
    (freeReply req.size >>= fun _ => pure s.cache).run InodeStore.serve
    (InodeStore.reply (s.store uid) src reply)) : (s.handle { uid, src, req, data }).state.sent = [(src, reply)] := by
  rw [ran, Effect.run_bind]
  rcases freeReply_cases req.size (InodeStore.reply (s.store uid) src reply) with freed | overruns
  · rw [Prog.bind_done freed]
    rfl
  · rw [Prog.bind_halted overruns]
    rfl

theorem read_step {reply : FileReply} (ran : s.handle { uid, src, req, data } =
    (freeReply req.size >>= fun _ => pure s.cache).run InodeStore.serve
    (InodeStore.reply (s.store uid) src reply)) (small : req.size.toNat < 2 ^ 32 - 56) :
    s.Step { request := { uid, src, req, data }, replies := [reply] } s := by
  rw [Effect.run_bind, Prog.bind_done (freeReply_run small _)] at ran
  exact step_done ran rfl rfl

/-- A write at the beginning of an empty file, by a sender who may write. -/
theorem write_step (found : s.cache.allocated req.ino = some stat) (empty : stat.stSize = 0)
    (file : req.ino ≠ 0) (live : uid src = some u)
    (permitted : Permitted P_FILE_OWNER_WRITE P_FILE_OTHER_WRITE u stat) (write : req.type = .write)
    (start : req.offset = 0)
    (sized : req.size.toNat = data.length) :
    ∃ written, s.Step { request := { uid, src, req, data }, replies := [.cleared .ok] } written ∧
      written.cache = s.cache.put req.ino { stat with stSize := UInt64.ofNat data.length } ∧
      data.length / BLOCK_SIZE < (written.blocks req.ino).length ∧
          ∀ i < data.length, (written.store uid).byte req.ino i = data.getD i 0 := by
  obtain ⟨inside, -, -⟩ := allocated_eq found
  have small := req.size.toNat_lt
  have none : stat.stSize.toNat = 0 := congrArg UInt64.toNat empty
  have zero : req.offset.toNat = 0 := congrArg UInt64.toNat start
  have fits : req.offset.toNat + req.size.toNat < 2 ^ 42 := by omega
  have readable : ¬ Unreadable (s.store uid) req.ino
      (fun _ => false) stat.stSize (extent stat.stSize req.offset req.size) :=
    fun unreadable => (readsOld_iff.mp unreadable.1).2 empty
  obtain ⟨middle, last, puts, kept, ran⟩ := @write_returns (s.store uid) req data stat inside s.cache src readable
  have values := (@putValues_iff stat.stSize req.offset req.size).mpr fits
  have gap : GapZero (s.store uid) req.ino stat.stSize req.offset := fun i below => absurd below (by omega)
  have bytes := (puts.exact_iff fits sized readable).mpr gap
  have goes : s.handle { uid, src, req, data } =
      .done (s.cache.put req.ino { stat with stSize := (extent stat.stSize req.offset req.size).finalSize })
          (InodeStore.reply last src (.cleared .ok)) := by
    unfold Session.handle handle
    rw [write]
    unfold doWrite writeAllowed
    dsimp only
    rw [found]
    dsimp only
    rw [if_neg (not_not.mpr sized), Effect.run_bind,
      Prog.bind_done (@allowed_delivers _ (s.store uid) src u InodeStore.delivers live _ _ stat),
        decide_eq_true permitted]
    exact ran
  have same : last.blocks req.ino = middle.blocks req.ino := kept.blocks _ file
  refine ⟨_, step_done goes (kept.uid.trans puts.wrote.uid) ?_, ?_, ?_, fun i below => ?_⟩
  · change last.sent ++ _ = _
    rw [kept.sent, puts.wrote.sent]
    rfl
  · rw [finalSize_eq fits, none, zero, sized, Nat.zero_add, Nat.zero_max]
  · have stored := puts.wrote.stored (data.length / BLOCK_SIZE) (by
      rw [served_all, values.count, zero, sized, Nat.zero_add, Nat.zero_div, Nat.sub_zero]
      exact Nat.lt_succ_self _)
    rw [values.number _ (by rw [zero, sized, Nat.zero_add, Nat.zero_div, Nat.sub_zero]), zero, Nat.zero_div,
      Nat.zero_add] at stored
    change _ < (last.blocks req.ino).length
    rwa [same]
  · have byte := bytes i (by omega)
    unfold writtenByte at byte
    rw [if_pos (by omega), zero, Nat.sub_zero] at byte
    rw [← byte]
    unfold InodeStore.byte
    change (last.blocks req.ino).getD _ _ _ = _
    rw [same]

/-- What a denied request is answered with. -/
theorem denied_step {owner other : UInt32} (live : uid src = some u) (denied : ¬ Permitted owner other u stat)
    {granted : Server Cache}
    {replies : List FileReply} {last : Session}
    (goes : s.handle { uid, src, req, data } = (do
      match ← allowed owner other (some stat) src with
      | false => refuse s.cache src
      | true => granted : Server Cache).run InodeStore.serve (s.store uid))
    (step : s.Step { request := { uid, src, req, data }, replies } last) : replies = [.cleared .error] := by
  unfold Session.Step at step
  dsimp only at step
  rw [goes, Effect.run_bind, Prog.bind_done (@allowed_delivers _ (s.store uid) src u InodeStore.delivers live _ _ stat),
    decide_eq_false denied] at step
  dsimp only at step
  rw [refuse_delivers InodeStore.delivers] at step
  injection step with _ store
  injection store with _ _ sent
  cases replies with
  | nil => cases sent
  | cons reply rest =>
    obtain ⟨first, none⟩ := List.cons.inj sent
    rw [List.map_eq_nil_iff.mp none.symm, (Prod.mk.inj first).2]

/-- A file is empty for its owner if it has no bytes and the owner may read and write it. -/
theorem emptyFile_iff {ino : UInt32} (file : ino ≠ 0) (found : s.cache.allocated ino = some stat)
    (live : uid src = some u) :
    EmptyFile s ino uid src ↔ stat.stSize = 0 ∧ Permitted P_FILE_OWNER_READ P_FILE_OTHER_READ u stat ∧
      Permitted P_FILE_OWNER_WRITE P_FILE_OTHER_WRITE u stat := by
  constructor
  · rintro ⟨⟨other, found', empty⟩, reads, writes⟩
    rw [found] at found'
    cases found'
    refine ⟨empty, ?_, ?_⟩
    · by_contra denied
      obtain ⟨last, step⟩ := (reads { type := .read, ino, offset := 0, size := 0, uid := 0, mode := 0 } [] rfl rfl).2
        (show (0 : UInt32).toNat < 2 ^ 32 - 56 by decide)
      refine absurd (@denied_step s uid src u _ _ stat _ _ live denied ?reading _ _ ?read step) (by decide)
      case read =>
        unfold Session.handle handle doRead
        dsimp only
        rw [found]
        rfl
    · by_contra denied
      obtain ⟨written, step, -⟩ := writes { type := .write, ino, offset := 0, size := 0, uid := 0, mode := 0 }
        [] rfl rfl rfl rfl (Nat.zero_le _)
      refine absurd (@denied_step s uid src u _ _ stat _ _ live denied ?writing _ _ ?write step) (by decide)
      case write =>
        unfold Session.handle handle doWrite
        dsimp only
        rw [found]
        dsimp only
        rw [if_neg (not_not_intro (show UInt32.toNat 0 = ([] : List UInt8).length from rfl))]
        rfl
  · rintro ⟨empty, readable, writable⟩
    refine ⟨⟨stat, found, empty⟩, fun req data read here => ?_, fun req data write here start sized small => ?_⟩
    · subst here
      have nothing : ¬ (req.size ≠ 0 ∧ req.offset < stat.stSize) := fun reads => UInt64.not_lt_zero (empty ▸ reads.2)
      have ran := @read_run s uid src u req data stat found live readable read
        (fun reads => absurd reads nothing) fun reads => absurd reads nothing
      rw [bytesRead_nothing nothing] at ran
      exact ⟨read_sent ran, fun small => ⟨s, read_step ran small⟩⟩
    · subst here
      obtain ⟨written, step, entries, stored, bytes⟩ := write_step found empty file live writable write start sized
      refine ⟨written, step, fun back none read there zero count => ?_⟩
      have length : (UInt64.ofNat data.length).toNat = data.length := by
        rw [UInt64.toNat_ofNat']
        have page : PAGESIZE = 4096 := rfl
        omega
      have reread : written.cache.allocated back.ino = some { stat with stSize := UInt64.ofNat data.length } := by
        rw [entries, there, allocated_resized found]
      have all : readCount (UInt64.ofNat data.length) back.offset back.size = data.length := by
        unfold readCount
        rw [zero, count, sized, length]
        exact Nat.min_self _
      have same : bytesRead (written.store uid) back { stat with stSize := UInt64.ofNat data.length } =
          readReply req.size.toUInt64 data := by
        unfold bytesRead
        dsimp only
        rw [all, zero, there, ← sized, UInt64.ofNat_uInt32ToNat, sized]
        congr 1
        refine List.ext_getElem (by simp) fun i _ inside => ?_
        rw [List.getElem_map, List.getElem_range]
        change (written.store uid).byte req.ino (0 + i) = _
        rw [Nat.zero_add, bytes i inside, List.getD_eq_getElem?_getD, List.getElem?_eq_getElem inside]
        rfl
      have page : PAGESIZE = 4096 := rfl
      have again := @read_run written uid src u back none
        { stat with stSize := UInt64.ofNat data.length } reread live readable read
      rw [same] at again
      refine ⟨written, read_step (again (fun _ => ?_) fun _ => ?_) (by rw [count, sized]; omega)⟩
      · have offset : back.offset.toNat = 0 := congrArg UInt64.toNat zero
        refine ⟨by rw [length, offset]; omega, by rw [all, offset]; omega, ?_⟩
        unfold readSpan
        rw [all, offset]
        change ((0 + _) / 1024 - 0 / 1024 + 1) * 1024 < _
        omega
      · dsimp only
        rw [all, zero, there, UInt64.toNat_zero, Nat.zero_add]
        exact stored

end Empty

/-- The inode that the request gets has size 0, and its owner may read and write it. -/
def Renewable (before : Session) (request : Request) : Prop :=
  ∃ ino u, before.cache.unallocated = some ino ∧ request.uid request.src = some u ∧ (before.cache ino).stSize = 0 ∧
    (u = 0 ∨ request.req.mode &&& P_FILE_OWNER_READ ≠ 0 ∧ request.req.mode &&& P_FILE_OWNER_WRITE ≠ 0)

theorem created_permitted {cache : Cache} {ino : Fin MAX_INODES} {req : FileRequest} {u : Uid} (owner other : UInt32) :
    Permitted owner other u (created cache ino req u) ↔ u = 0 ∨ req.mode &&& owner ≠ 0 := by
  unfold Permitted MayUse created
  simp

/-! Entries that are not in use. -/

/-- The files that are gone have left no sizes. -/
def Clean (cache : Cache) : Prop := ∀ f, f ≠ 0 → (cache f).stAlloc = false → (cache f).stSize = 0

section Clean
variable {cache : Cache} {s : InodeStore} {req : FileRequest} {data : List UInt8} {src : Pid}

theorem Clean.refusable (clean : Clean cache) : Refusable InodeStore.serve cache s src fun after _ => Clean after :=
  ⟨InodeStore.delivers, clean⟩

theorem Clean.update (clean : Clean cache) {ino : Fin MAX_INODES} {stat : FileStat}
    (fine : stat.stAlloc = false → stat.stSize = 0) :
    Clean (Function.update cache ino stat) := by
  intro f some unused
  by_cases same : f = ino
  · rw [same, Function.update_self] at unused ⊢
    exact fine unused
  · rw [Function.update_of_ne same] at unused ⊢
    exact clean f some unused

theorem Clean.put (clean : Clean cache) {ino : UInt32} {stat : FileStat}
    (fine : stat.stAlloc = false → stat.stSize = 0) :
    Clean (cache.put ino stat) := by
  unfold Cache.put
  by_cases inside : ino.toNat < MAX_INODES
  · rw [dif_pos inside]
    exact clean.update fine
  · rw [dif_neg inside]
    exact clean

theorem used_fine {stat : FileStat} (used : stat.stAlloc = true) :
    stat.stAlloc = false → stat.stSize = 0 := fun unused => by
  rw [used] at unused
  cases unused

/-- The end of the handlers that change an entry. -/
theorem Clean.finish {changed : Cache} (clean : Clean changed) {reply : FileReply} :
    Ends InodeStore.serve s (fun after _ => Clean after) (do
      flushStatCache changed
      call (.send src reply)
      pure changed) := by
  obtain ⟨t, ran, -⟩ := @finish_serves _ s src InodeStore.delivers _ _ (InodeStore.serves (by decide)) changed reply
  exact (ends_done ran).mpr clean

theorem Clean.of_gives (clean : Clean cache) {program : Server Cache} (gives : program.Gives (Touches 0) (· = cache)) :
    Ends InodeStore.serve s (fun after _ => Clean after) program := by
  intro after t ran
  rw [(touches_run gives s).2 after t ran]
  exact clean

theorem Clean.write (clean : Clean cache) :
    Ends InodeStore.serve s (fun after _ => Clean after) (doWrite cache req data src) := by
  refine clean.refusable.file.mpr fun stat found => clean.refusable.cond.mpr
    fun sized => clean.refusable.granted.mpr fun u live permitted => ?_
  obtain ⟨inside, -, used⟩ := allocated_eq found
  by_cases unreadable : Unreadable s req.ino (fun _ => false) stat.stSize (extent stat.stSize req.offset req.size)
  · rw [ends_bind (put_unreadable (InodeStore.serves inside) cache unreadable)]
    exact clean.refusable.refuse
  · obtain ⟨-, last, -, -, ran⟩ := @write_returns s req data stat inside cache src unreadable
    exact (ends_done ran).mpr (clean.put (used_fine used))

theorem Clean.setsize (clean : Clean cache) :
    Ends InodeStore.serve s (fun after _ => Clean after) (doSetsize cache req src) := by
  refine clean.refusable.file.mpr fun stat found => clean.refusable.cond.mpr
    fun le => clean.refusable.granted.mpr fun u live permitted => ?_
  obtain ⟨inside, -, used⟩ := allocated_eq found
  have table : Serves InodeStore.serve 0 (fun _ => false) fun _ => false := InodeStore.serves (by decide)
  rcases @resize_call s req.ino (if req.offset =
    0 then 0 else (1 + req.offset / UInt64.ofNat BLOCK_SIZE).toUInt32) inside with
    ⟨middle, called, -⟩ | called
  · obtain ⟨t, ran, -⟩ := @setsize_serves _ _ src InodeStore.delivers _ _ table _ _ _ _ called cache stat req.offset
    exact (ends_done ran).mpr (clean.put (used_fine used))
  · obtain ⟨t, ran, -⟩ := @setsize_serves _ _ src InodeStore.delivers _ _ table _ _ _ _ called cache stat req.offset
    exact (ends_done ran).mpr (clean.put (used_fine used))

theorem Clean.create (clean : Clean cache) :
    Ends InodeStore.serve s (fun after _ => Clean after) (doCreate cache req src) := by
  unfold doCreate
  cases cache.unallocated with
  | none => exact clean.refusable.refuse
  | some ino => exact clean.refusable.sender.mpr fun u _ => (clean.update (used_fine rfl)).finish

theorem Clean.chown (clean : Clean cache) :
    Ends InodeStore.serve s (fun after _ => Clean after) (doChown cache req src) := by
  refine clean.refusable.file.mpr fun stat found => clean.refusable.sender.mpr
    fun u _ => clean.refusable.cond.mpr fun _ => ?_
  obtain ⟨-, -, used⟩ := allocated_eq found
  have changed : Clean (cache.put req.ino { stat with stUid := req.uid }) := clean.put (used_fine used)
  exact changed.finish

theorem Clean.chmod (clean : Clean cache) :
    Ends InodeStore.serve s (fun after _ => Clean after) (doChmod cache req src) := by
  refine clean.refusable.file.mpr fun stat found => clean.refusable.sender.mpr
    fun u _ => clean.refusable.cond.mpr fun _ => ?_
  obtain ⟨-, -, used⟩ := allocated_eq found
  have changed : Clean (cache.put req.ino { stat with stMode := req.mode }) := clean.put (used_fine used)
  exact changed.finish

/-- Only deletion makes an entry free. -/
theorem Clean.delete (clean : Clean cache) (empty : ∀ stat u, cache.allocated req.ino = some stat → s.uid src = some u →
      Permitted P_FILE_OWNER_WRITE P_FILE_OTHER_WRITE u stat → stat.stSize = 0) :
    Ends InodeStore.serve s (fun after _ => Clean after) (doDelete cache req src) := by
  refine clean.refusable.deletion.mpr fun stat u entry live permitted => ?_
  split_ifs with used
  · have none := empty stat u (Option.filter_eq_some_iff.mpr ⟨entry, used⟩) live permitted
    have gives : (do
        let cache := cache.put req.ino { stat with stAlloc := false }
        flushStatCache cache
        let success ← call (.blockSetsize req.ino 0)
        respondUnless success src
        call (.send src (.cleared .ok))
        pure cache : Server Cache).Gives (Touches req.ino) Clean :=
      flush_gives.bind fun _ _ => .call (.inr rfl) fun success => (respondUnless_gives fun _ => trivial).bind
        fun _ _ => .call trivial
        fun _ => clean.put fun _ => none
    exact (touches_run gives s).2
  · exact clean.of_gives (Effect.Gives.call trivial fun _ => rfl)

theorem Clean.handle (clean : Clean cache)
    (empty : req.type = .delete → ∀ stat u, cache.allocated req.ino = some stat → s.uid src = some u →
      Permitted P_FILE_OWNER_WRITE P_FILE_OTHER_WRITE u stat → stat.stSize = 0) :
    Ends InodeStore.serve s (fun after _ => Clean after) (Blkfile.handle cache req data src) := by
  unfold Blkfile.handle
  cases kind : req.type with
  | create => exact clean.create
  | chown => exact clean.chown
  | chmod => exact clean.chmod
  | read => exact clean.of_gives read_gives
  | write => exact clean.write
  | stat => exact clean.of_gives stat_gives
  | setsize => exact clean.setsize
  | delete => exact clean.delete (empty kind)
  | setFlags => exact ends_halted rfl
  | unknown => exact ends_halted rfl

end Clean

/-- A deletion that is carried out is that of a file without bytes. -/
def DeletesEmpty (before : Session) (x : Exchange) : Prop :=
  x.request.req.type = .delete → ∀ stat u, before.cache.allocated x.request.req.ino = some stat →
    x.request.uid x.request.src = some u →
    Permitted P_FILE_OWNER_WRITE P_FILE_OTHER_WRITE u stat → stat.stSize = 0

theorem clean_run {first last : Session} {history : List Exchange} (boots : first.Boots)
    (run : Run (Guarded DeletesEmpty Session.Step) first history last) :
    Clean last.cache := by
  have kept : ∀ before x after, Clean before.cache → Guarded DeletesEmpty Session.Step before x after →
      Clean after.cache := by
    rintro before x after clean ⟨empty, step⟩
    exact @Clean.handle before.cache (before.store x.request.uid) x.request.req x.request.data x.request.src
      clean empty _ _ step
  refine run.invariant kept ?_
  obtain ⟨uid, t, ran, -⟩ := boots
  obtain ⟨after, again, -⟩ := start_run uid
  rw [ran] at again
  injection again with same
  intro f some _
  rw [same]
  unfold Cache.new
  rw [Function.update_of_ne some]
  rfl

/-- A file that has been made is empty exactly if its inode is free of an old size, as it is in
every run in which only empty files are deleted. -/
theorem created_empty_iff {before after : Session} {x : Exchange} {reply : FileReply}
    (step : before.Step x after) (create : x.request.req.type = .create)
    (single : x.replies = [reply]) (ok : reply.status = .ok) :
    (EmptyFile after reply.ino x.request.uid x.request.src ↔ Renewable before x.request) ∧
      ∀ first history, first.Boots → Run (Guarded DeletesEmpty Session.Step) first history before →
        ∀ ino, before.cache.unallocated = some ino → (before.cache ino).stSize = 0 := by
  constructor
  · rcases create_creates create _ _ step reply (by rw [single]; rfl) with error | ⟨ino, u, found, live, here, entries⟩
    · rw [ok] at error
      cases error
    have live : x.request.uid x.request.src = some u := live
    have allocated := @created_allocated before.cache x.request.req ino u
    rw [← entries, ← here] at allocated
    have some : reply.ino ≠ 0 := by
      rw [here]
      exact Holds.inode_ne (unallocated_ne found).1
    rw [emptyFile_iff some allocated live, created_permitted, created_permitted]
    unfold Renewable
    constructor
    · rintro ⟨empty, readable, writable⟩
      refine ⟨ino, u, found, live, empty, ?_⟩
      tauto
    · rintro ⟨other, v, found', live', empty, bits⟩
      rw [found] at found'
      rw [live] at live'
      cases found'
      cases live'
      exact ⟨empty, by tauto, by tauto⟩
  · intro first history boots run ino found
    obtain ⟨some, unused⟩ := unallocated_ne found
    exact clean_run boots run ino some unused

/-! A new disk. -/

def newDisk : Session := { cache := .new, blocks := (start.run InodeStore.serve (.empty fun _ => some 9)).state.blocks }

theorem newDisk_boots : newDisk.Boots := by
  obtain ⟨t, ran, -⟩ := start_run fun _ => some 9
  refine ⟨_, t, ran, ?_⟩
  unfold newDisk
  rw [ran]
  rfl

def making : Exchange :=
  { request := { uid := fun _ => some 9, src := 4, req := { type := .create, ino := 0, offset := 0, size := 0, uid := 0, mode := 12 }, data := [] }
    replies := [{ FileReply.cleared .ok with ino := 1 }] }

theorem created_empty_iff_making : ∃ after, newDisk.Step making after ∧ EmptyFile after 1 (fun _ => some 9) 4 := by
  have made : (newDisk.next making).isSome := by decide +kernel
  have step := Session.next_step (Option.some_get made).symm
  exact ⟨_, step, (created_empty_iff step rfl rfl rfl).1.mpr ⟨1,
    9, by decide +kernel, rfl, by decide +kernel, by decide⟩⟩

/-- A file of three bytes is made and deleted, and another one takes its inode. -/
def remaking : List Exchange :=
  [making, { request := owned .write 0 [5, 5, 5] 3, replies := [.cleared .ok] },
    { request := owned .delete 0 [] 0, replies := [.cleared .ok] }]

def deleted : Session := (remaking.foldlM Session.next newDisk).getD newDisk

def remade : Session := (deleted.next making).getD deleted

theorem computed {α : Type} {found : Option α} {other : α} (made : found.isSome) : found = some (found.getD other) := by
  obtain ⟨value, rfl⟩ := Option.isSome_iff_exists.mp made
  rfl

/-- The second file has three bytes. -/
theorem remade_not_empty :
    ¬ ∀ first history before after x reply, first.Boots → Run Session.Step first history before → before.Step x after →
    x.request.req.type = .create → x.replies = [reply] → reply.status = .ok →
      x.request.req.mode &&& P_FILE_OWNER_READ ≠ 0 →
      x.request.req.mode &&& P_FILE_OWNER_WRITE ≠ 0 → EmptyFile after reply.ino x.request.uid x.request.src := by
  intro claim
  have run : Run Session.Step newDisk remaking deleted := Run.of_foldlM Session.next_step (computed (by decide +kernel))
  have step : deleted.Step making remade := Session.next_step (computed (by decide +kernel))
  obtain ⟨⟨stat, found, empty⟩, -⟩ := claim newDisk remaking deleted remade making _ newDisk_boots run step rfl rfl rfl
    (by decide) (by decide)
  have size : (remade.cache.allocated 1).map (·.stSize) = some 3 := by decide +kernel
  have found : remade.cache.allocated 1 = some stat := found
  rw [found, Option.map_some, empty] at size
  exact absurd size (by decide)

end Egos.Blkfile
