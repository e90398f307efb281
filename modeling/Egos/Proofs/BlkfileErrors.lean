import Egos.Proofs.BlkfileCalls

/-! What is left of a request that is answered with an error, when calls of the block server fail
while it is handled. -/

namespace Egos.Blkfile
open Library Files
open Grass (Pid Uid)
open Disk (BLOCK_SIZE)

/-- The entries of all files are the same, and the bytes up to their sizes. -/
structure Unharmed (cache : Cache) (s : InodeStore) (after : Cache) (t : InodeStore) : Prop where
  entries : after = cache
  bytes : ∀ f, f ≠ 0 → (cache f).stAlloc = true →
    ∀ i < (cache f).stSize.toNat, t.byte (UInt32.ofNat f) i = s.byte (UInt32.ofNat f) i

/-- If the sender gets an error among the replies, no file has changed. -/
def HarmlessEnd (cache : Cache) (s : InodeStore) (src : Pid) (after : Cache) (t : InodeStore) : Prop :=
  ∀ sent, t.sent = s.sent ++ sent → (∃ reply, (src, reply) ∈ sent ∧ reply.status = .error) → Unharmed cache s after t

/-- The program ends like that when some calls of the block server fail. -/
def ErrorsHarmless (failures : Failures) (cache : Cache) (s : InodeStore) (src : Pid) : Server Cache → Prop :=
  Ends failures.serve s (HarmlessEnd cache s src)

section Harmless
variable {failures : Failures} {cache : Cache} {s : InodeStore} {src : Pid} {program : Server Cache}

theorem harmless_refused : Refusable failures.serve cache s src (HarmlessEnd cache s src) where
  delivers := failures.delivers
  refused _ _ _ := ⟨rfl, fun _ _ _ _ _ => rfl⟩

theorem harmless_done {after : Cache} {t : InodeStore} {sent : List (Pid × FileReply)}
    (ran : program.run failures.serve s = .done after t)
    (new : t.sent = s.sent ++ sent) : ErrorsHarmless failures cache s src program ↔
      ((∃ reply, (src, reply) ∈ sent ∧ reply.status = .error) → Unharmed cache s after t) := by
  refine (ends_done ran).trans ⟨fun harmless => harmless sent new, fun unharmed more other => ?_⟩
  rw [List.append_cancel_left (other.symm.trans new)]
  exact unharmed

/-- A single reply that is no error. -/
theorem harmless_ok {after : Cache} {t : InodeStore} {reply : FileReply}
    (ran : program.run failures.serve s = .done after t)
    (new : t.sent = s.sent ++ [(src, reply)]) (ok : reply.status = .ok) :
    ErrorsHarmless failures cache s src program := by
  rw [harmless_done ran new]
  rintro ⟨other, member, error⟩
  cases List.mem_singleton.mp member
  rw [ok] at error
  cases error

theorem Unharmed.flushed {middle t : InodeStore} (blocks : middle.blocks = s.blocks) (kept : Flushed middle t) :
    Unharmed cache s cache t := by
  refine ⟨rfl, fun f some _ i _ => ?_⟩
  unfold InodeStore.byte
  rw [kept.blocks _ (Holds.inode_ne some), blocks]

/-- The last steps of the handlers that change an entry. -/
theorem harmless_finish {changed : Cache} {reply : FileReply} (ok : reply.status = .ok) :
    ErrorsHarmless failures cache s src (do
    flushStatCache changed
    call (.send src reply)
    pure changed) := by
  obtain ⟨t, ran, kept⟩ := finish_serves failures.delivers (failures.serves (by decide)) changed reply
  refine harmless_ok ran ?_ ok
  change t.sent ++ _ = _
  rw [kept.sent]

section Handlers
variable {req : FileRequest} {data : List UInt8}

theorem create_harmless : ErrorsHarmless failures cache s src (doCreate cache req src) := by
  unfold doCreate
  cases cache.unallocated with
  | none => exact harmless_refused.refuse
  | some ino => exact harmless_refused.sender.mpr fun u _ => harmless_finish rfl

theorem chown_harmless : ErrorsHarmless failures cache s src (doChown cache req src) :=
  harmless_refused.file.mpr fun _ _ => harmless_refused.sender.mpr fun _ _ => harmless_refused.cond.mpr
    fun _ => harmless_finish rfl

theorem chmod_harmless : ErrorsHarmless failures cache s src (doChmod cache req src) :=
  harmless_refused.file.mpr fun _ _ => harmless_refused.sender.mpr fun _ _ => harmless_refused.cond.mpr
    fun _ => harmless_finish rfl

def setsizeBlocks (offset : UInt64) : UInt32 :=
  if offset = 0 then 0 else (1 + offset / UInt64.ofNat BLOCK_SIZE).toUInt32

theorem put_same_iff {stat changed : FileStat} {ino : UInt32} (found : cache.entry ino = some stat) :
    cache.put ino changed = cache ↔ changed = stat := by
  obtain ⟨inside, rfl⟩ := entry_eq found
  constructor
  · intro same
    have here := congrFun same ⟨ino.toNat, inside⟩
    rwa [put_here] at here
  · rintro rfl
    unfold Cache.put
    rw [dif_pos inside, Function.update_eq_self]

theorem setsize_call {ino size : UInt32} : (call (.blockSetsize ino size)).run failures.serve s =
    if failures.setsize ino size then .done false s else .done true (s.resize ino size) := by
  unfold call
  rw [Effect.run_perform]
  rfl

/-- The end of a FILE_SETSIZE, from the call of the block server on. -/
theorem setsize_ends {ino : UInt32} {stat : FileStat} (entry : cache.entry ino = some stat) (size : UInt32)
    (offset : UInt64) :
    ErrorsHarmless failures cache s src (do
      let success ← call (.blockSetsize ino size)
      respondUnless success src
      let cache := cache.put ino { stat with stSize := offset }
      flushStatCache cache
      respond .ok src
      pure cache) ↔ (failures.setsize ino size = true → offset = stat.stSize) := by
  have called := @setsize_call failures s ino size
  cases failed : failures.setsize ino size with
  | true =>
    rw [failed, if_pos rfl] at called
    obtain ⟨t, ran, kept⟩ := setsize_serves failures.delivers (failures.serves (by decide)) called cache stat offset
    have new : (InodeStore.reply t src (.cleared .ok)).sent =
        s.sent ++ [(src, .cleared .error), (src, .cleared .ok)] := by
      unfold InodeStore.reply
      dsimp only
      rw [kept.sent]
      exact List.append_assoc ..
    rw [harmless_done ran new]
    constructor
    · intro unharmed _
      have same := (unharmed ⟨_, List.mem_cons_self, rfl⟩).entries
      exact congrArg FileStat.stSize ((put_same_iff entry).mp same)
    · intro same _
      have unchanged : cache.put ino { stat with stSize := offset } = cache :=
        (put_same_iff entry).mpr (by rw [same rfl])
      have blocks : (answeredUnless false src s).blocks = s.blocks := rfl
      have unharmed : Unharmed cache s cache t := .flushed blocks kept
      rw [unchanged]
      exact ⟨rfl, unharmed.bytes⟩
  | false =>
    rw [failed, if_neg Bool.false_ne_true] at called
    obtain ⟨t, ran, kept⟩ := setsize_serves failures.delivers (failures.serves (by decide)) called cache stat offset
    refine ⟨fun _ => nofun, fun _ => harmless_ok ran ?_ (show (FileReply.cleared .ok).status = .ok from rfl)⟩
    unfold InodeStore.reply
    dsimp only
    rw [kept.sent]
    rfl

theorem setsize_harmless_iff : ErrorsHarmless failures cache s src (doSetsize cache req src) ↔
    ∀ stat u, cache.allocated req.ino = some stat → s.uid src = some u →
      Permitted P_FILE_OWNER_WRITE P_FILE_OTHER_WRITE u stat →
      req.offset ≤ stat.stSize → failures.setsize req.ino (setsizeBlocks req.offset) = true →
          req.offset = stat.stSize := by
  have ends (stat : FileStat) (found : cache.allocated req.ino = some stat) :=
    @setsize_ends failures cache s src req.ino stat (Option.filter_eq_some_iff.mp found).1
      (setsizeBlocks req.offset) req.offset
  constructor
  · intro harmless stat u found live permitted le
    have harmless := harmless_refused.cond.mp (harmless_refused.file.mp harmless stat found) (UInt64.not_lt.mpr le)
    exact (ends stat found).mp (harmless_refused.granted.mp harmless u live permitted)
  · intro careful
    refine harmless_refused.file.mpr fun stat found => harmless_refused.cond.mpr
      fun le => harmless_refused.granted.mpr fun u live permitted => ?_
    exact (ends stat found).mpr (careful stat u found live permitted (UInt64.not_lt.mp le))

/-- The end of a FILE_DELETE, from the change of the entry on. -/
theorem delete_ends {ino : UInt32} {stat : FileStat} (entry : cache.entry ino = some stat)
    (used : stat.stAlloc = true) :
    ErrorsHarmless failures cache s src (do
      let cache := cache.put ino { stat with stAlloc := false }
      flushStatCache cache
      let success ← call (.blockSetsize ino 0)
      respondUnless success src
      call (.send src (.cleared .ok))
      pure cache) ↔ failures.setsize ino 0 = false := by
  obtain ⟨middle, flushed, kept⟩ := @flush_serves failures.serve _ _ s (failures.serves (by decide))
    (cache.put ino { stat with stAlloc := false })
  have ends {success : Bool} {last : InodeStore}
      (called : (call (.blockSetsize ino 0)).run failures.serve middle = .done success last) : (do
      let cache := cache.put ino { stat with stAlloc := false }
      flushStatCache cache
      let success ← call (.blockSetsize ino 0)
      respondUnless success src
      call (.send src (.cleared .ok))
      pure cache : Server Cache).run failures.serve s =
        .done (cache.put ino { stat with stAlloc := false })
            (InodeStore.reply (answeredUnless success src last) src (.cleared .ok)) := by
    dsimp only
    rw [Effect.run_bind, Prog.bind_done flushed, Effect.run_bind, Prog.bind_done called, Effect.run_bind,
      Prog.bind_done (respondUnless_delivers failures.delivers success),
      Effect.run_bind, Prog.bind_done (send_delivers failures.delivers _)]
    rfl
  have called := @setsize_call failures middle ino 0
  cases failed : failures.setsize ino 0 with
  | true =>
    rw [failed, if_pos rfl] at called
    have new : (InodeStore.reply (answeredUnless false src middle) src (.cleared .ok)).sent =
        s.sent ++ [(src, .cleared .error), (src, .cleared .ok)] := by
      change (middle.sent ++ _) ++ _ = _
      rw [kept.sent, List.append_assoc]
      rfl
    rw [harmless_done (ends called) new]
    refine ⟨fun unharmed => ?_, nofun⟩
    have same := (put_same_iff entry).mp (unharmed ⟨_, List.mem_cons_self, rfl⟩).entries
    rw [← same] at used
    cases used
  | false =>
    rw [failed, if_neg Bool.false_ne_true] at called
    refine ⟨fun _ => rfl, fun _ => harmless_ok (ends called) ?_ (show (FileReply.cleared .ok).status = .ok from rfl)⟩
    change middle.sent ++ _ = _
    rw [kept.sent]

theorem delete_harmless_iff : ErrorsHarmless failures cache s src (doDelete cache req src) ↔
    ∀ stat u, cache.allocated req.ino = some stat → s.uid src = some u →
      Permitted P_FILE_OWNER_WRITE P_FILE_OTHER_WRITE u stat →
      failures.setsize req.ino 0 = false := by
  refine harmless_refused.deletion.trans ⟨fun harmless stat u found live permitted => ?_,
    fun careful stat u entry live permitted => ?_⟩
  · obtain ⟨entry, used⟩ := Option.filter_eq_some_iff.mp found
    have ends := harmless stat u entry live permitted
    rw [if_pos used] at ends
    exact (delete_ends entry used).mp ends
  · by_cases used : stat.stAlloc = true
    · rw [if_pos used]
      exact (delete_ends entry used).mpr (careful stat u (Option.filter_eq_some_iff.mpr ⟨entry, used⟩) live permitted)
    · rw [if_neg used]
      have ran : (do
          call (.send src (.cleared .ok))
          pure cache : Server Cache).run failures.serve s = .done cache (InodeStore.reply s src (.cleared .ok)) := by
        rw [Effect.run_bind, Prog.bind_done (send_delivers failures.delivers _)]
        rfl
      exact harmless_ok ran rfl (show (FileReply.cleared .ok).status = .ok from rfl)

/-- A call that touches nothing but the table leaves the blocks of the other inodes as they are. -/
theorem failing_kept {i : UInt32} {blocks : List DataBlock} (some : i ≠ 0) (op : Call) (fine : Touches 0 op)
    (state : InodeStore)
    (same : state.blocks i = blocks) : (failures.serve op state).state.blocks i = blocks := by
  cases op with
  | find pid => exact same
  | send dst reply => exact same
  | blockGetsize other => exact same
  | garbage count => exact same
  | blockRead other offset =>
    unfold Failures.serve
    dsimp only
    split_ifs
    · exact same
    · exact same
  | blockWrite other offset block =>
    unfold Failures.serve
    dsimp only
    split_ifs
    · exact same
    · exact touches_kept some some _ fine state same
  | blockSetsize other size =>
    have different : i ≠ other := by
      rintro rfl
      exact fine.elim some some
    unfold Failures.serve
    dsimp only
    split_ifs
    · exact same
    · exact (Function.update_of_ne different _ _).trans same

theorem harmless_of_gives (gives : program.Gives (Touches 0) (· = cache)) :
    ErrorsHarmless failures cache s src program := by
  intro after t ran _ _ _
  have nothing : ∀ op, Touches 0 op → ∀ state : InodeStore, True → True := fun _ _ _ _ => trivial
  refine ⟨(gives.run nothing trivial).2 after t ran, fun f other _ i _ => ?_⟩
  have blocks := (gives.run (@failing_kept failures _ _ (Holds.inode_ne other)) (rfl : s.blocks _ = _)).1
  rw [ran] at blocks
  unfold InodeStore.byte
  rw [show t.blocks (UInt32.ofNat f) = s.blocks (UInt32.ofNat f) from blocks]

/-- If a write stops half-way, the blocks before have the bytes that were there, up to the size of the file. -/
def StopsUnnoticed (failures : Failures) (s : InodeStore) (req : FileRequest) (data : List UInt8)
    (stat : FileStat) : Prop :=
  let e := extent stat.stSize req.offset req.size
  let first := e.startBlock.toUInt32
  let made := served (failures.write req.ino) first e.rows.toUInt32.toNat
  ¬ Unreadable s req.ino (failures.read req.ino) stat.stSize e → made ≠ e.rows.toUInt32.toNat → req.ino ≠ 0 →
    ∀ k, k / BLOCK_SIZE < made → place first k < stat.stSize.toNat →
      putByte s req.ino first (oldBlocks s req.ino (failures.read req.ino) stat.stSize e) req.offset data k =
        s.byte req.ino (place first k)

/-- A byte is in one of the blocks that are written, or is not changed. -/
theorem Overwrote.same_iff {ino first : UInt32} {count : Nat} {written : Nat → UInt8} {t : InodeStore}
    (wrote : Overwrote s ino first count written t)
    (bound : Nat) : (∀ i < bound, t.byte ino i = s.byte ino i) ↔
      ∀ k, k / BLOCK_SIZE < count → place first k < bound → written k = s.byte ino (place first k) := by
  constructor
  · intro same k row below
    rw [← wrote.new k row]
    exact same _ below
  · intro same i below
    by_cases apart : ∀ j < count, i / BLOCK_SIZE ≠ (first + UInt32.ofNat j).toNat
    · exact wrote.old i apart
    · push Not at apart
      obtain ⟨j, less, row⟩ := apart
      have inside : i % BLOCK_SIZE < BLOCK_SIZE := Nat.mod_lt i (by decide)
      have quotient : (j * BLOCK_SIZE + i % BLOCK_SIZE) / BLOCK_SIZE = j := by
        rw [InodeStore.row_add, Nat.div_eq_of_lt inside, Nat.add_zero]
      have here : place first (j * BLOCK_SIZE + i % BLOCK_SIZE) = i := by
        unfold place
        rw [quotient, ← row, Nat.mul_add_mod_self_right, Nat.mod_mod]
        exact Nat.div_add_mod' i BLOCK_SIZE
      have new := wrote.new (j * BLOCK_SIZE + i % BLOCK_SIZE) (by rwa [quotient])
      have old := same (j * BLOCK_SIZE + i % BLOCK_SIZE) (by rwa [quotient]) (by rwa [here])
      rw [here] at new old
      exact new.trans old

/-- The end of a FILE_WRITE, from blkfile_put on. -/
theorem write_ends {stat : FileStat} (found : cache.allocated req.ino = some stat) :
    ErrorsHarmless failures cache s src (do
      match ← put cache req.ino stat req.offset data req.size with
      | none => refuse cache src
      | some cache => do
        respond .ok src
        pure cache) ↔ StopsUnnoticed failures s req data stat := by
  obtain ⟨inside, entry, used⟩ := allocated_eq found
  have serves := failures.serves inside
  have table : Serves failures.serve 0 (failures.read 0) (failures.write 0) := failures.serves (by decide)
  by_cases unreadable : Unreadable s req.ino (failures.read req.ino) stat.stSize
    (extent stat.stSize req.offset req.size)
  · refine (ends_bind (put_unreadable serves cache unreadable)).trans ?_
    exact ⟨fun _ readable => absurd unreadable readable, fun _ => harmless_refused.refuse⟩
  obtain ⟨after, puts⟩ := @put_serves failures.serve req.ino _ _ _ _ s req.offset req.size data stat serves
    table cache unreadable
  by_cases whole : served (failures.write req.ino) (extent stat.stSize req.offset req.size).startBlock.toUInt32
      (extent stat.stSize req.offset req.size).rows.toUInt32.toNat =
        (extent stat.stSize req.offset req.size).rows.toUInt32.toNat
  · obtain ⟨last, ran, kept⟩ := puts.returns whole
    refine ⟨fun _ _ stops => absurd whole stops, fun _ => ?_⟩
    have ends : (do
        match ← put cache req.ino stat req.offset data req.size with
        | none => refuse cache src
        | some cache => do
          respond .ok src
          pure cache : Server Cache).run failures.serve s =
        .done (cache.put req.ino { stat with stSize := (extent stat.stSize req.offset req.size).finalSize })
            (InodeStore.reply last src (.cleared .ok)) := by
      rw [Effect.run_bind, Prog.bind_done ran]
      unfold respond
      dsimp only
      rw [Effect.run_bind, Prog.bind_done (send_delivers failures.delivers _)]
      rfl
    refine harmless_ok ends ?_ (show (FileReply.cleared .ok).status = .ok from rfl)
    change last.sent ++ _ = _
    rw [kept.sent, puts.wrote.sent]
  · have ends : (do
        match ← put cache req.ino stat req.offset data req.size with
        | none => refuse cache src
        | some cache => do
          respond .ok src
          pure cache : Server Cache).run failures.serve s =
              .done cache (InodeStore.reply after src (.cleared .error)) := by
      rw [Effect.run_bind, Prog.bind_done (puts.fails_ whole)]
      exact refuse_delivers failures.delivers
    have new : (InodeStore.reply after src (.cleared .error)).sent = s.sent ++ [(src, .cleared .error)] := by
      change after.sent ++ _ = _
      rw [puts.wrote.sent]
    rw [harmless_done ends new]
    constructor
    · intro unharmed _ _ other
      have bytes := (unharmed ⟨_, List.mem_cons_self, rfl⟩).bytes ⟨req.ino.toNat, inside⟩
        fun zero => other (UInt32.toNat_inj.mp (congrArg (fun f : Fin MAX_INODES => f.val) zero))
      rw [entry, UInt32.ofNat_toNat] at bytes
      exact (puts.wrote.same_iff _).mp (bytes used)
    · intro unnoticed _
      refine ⟨rfl, fun f other allocated => ?_⟩
      by_cases same : UInt32.ofNat f = req.ino
      · have here := (place_iff inside).mpr same
        rw [here] at other ⊢
        rw [entry, UInt32.ofNat_toNat]
        refine (puts.wrote.same_iff _).mpr (unnoticed unreadable whole ?_)
        intro zero
        exact other (Fin.ext (congrArg UInt32.toNat zero))
      · intro i _
        unfold InodeStore.byte
        rw [show (InodeStore.reply after src (.cleared .error)).blocks (UInt32.ofNat f) =
          s.blocks (UInt32.ofNat f) from puts.wrote.others _ same]

theorem write_harmless_iff : ErrorsHarmless failures cache s src (doWrite cache req data src) ↔
    ∀ stat u, cache.allocated req.ino = some stat → s.uid src = some u →
      Permitted P_FILE_OWNER_WRITE P_FILE_OTHER_WRITE u stat →
      req.size.toNat = data.length → StopsUnnoticed failures s req data stat := by
  constructor
  · intro harmless stat u found live permitted sized
    have harmless := harmless_refused.cond.mp (harmless_refused.file.mp harmless stat found) (not_not.mpr sized)
    exact (write_ends found).mp (harmless_refused.granted.mp harmless u live permitted)
  · intro careful
    refine harmless_refused.file.mpr fun stat found => harmless_refused.cond.mpr
      fun sized => harmless_refused.granted.mpr fun u live permitted => ?_
    exact (write_ends found).mpr (careful stat u found live permitted (not_not.mp sized))

/-- What must not happen while a request of each type is handled that is not refused for another reason. -/
def Careful (failures : Failures) (cache : Cache) (s : InodeStore) (req : FileRequest) (data : List UInt8)
    (src : Pid) : Prop :=
  ∀ stat u, cache.allocated req.ino = some stat → s.uid src = some u →
    Permitted P_FILE_OWNER_WRITE P_FILE_OTHER_WRITE u stat →
    match req.type with
    | .setsize => req.offset ≤ stat.stSize → failures.setsize req.ino (setsizeBlocks req.offset) = true →
        req.offset = stat.stSize
    | .delete => failures.setsize req.ino 0 = false
    | .write => req.size.toNat = data.length → StopsUnnoticed failures s req data stat
    | _ => True

/-- Whatever the state and whichever calls fail, an error is harmless exactly if the request is careful. -/
theorem errors_harmless_iff (failures : Failures) (cache : Cache) (s : InodeStore) (req : FileRequest)
    (data : List UInt8) (src : Pid) :
    ErrorsHarmless failures cache s src (handle cache req data src) ↔ Careful failures cache s req data src := by
  have harmless {program : Server Cache} (holds : ErrorsHarmless failures cache s src program) :
      ErrorsHarmless failures cache s src program ↔ ∀ stat u, cache.allocated req.ino = some stat → s.uid src = some u →
        Permitted P_FILE_OWNER_WRITE P_FILE_OTHER_WRITE u stat → True := ⟨fun _ _ _ _ _ _ => trivial, fun _ => holds⟩
  unfold handle Careful
  cases req.type with
  | create => exact harmless create_harmless
  | chown => exact harmless chown_harmless
  | chmod => exact harmless chmod_harmless
  | read => exact harmless (harmless_of_gives read_gives)
  | stat => exact harmless (harmless_of_gives stat_gives)
  | write => exact write_harmless_iff
  | setsize => exact setsize_harmless_iff
  | delete => exact delete_harmless_iff
  | setFlags => exact harmless (ends_halted rfl)
  | unknown => exact harmless (ends_halted rfl)

end Handlers

end Harmless

/-- The block server can only cut off an inode as a whole, so this file of 3000 bytes cannot become
one of 1500: the owner gets an error, and the new size nevertheless. -/
theorem setsize_harmful :
    ¬ ErrorsHarmless { read := fun _ _ => false, write := fun _ _ => false, setsize := fun _ size => size ≠ 0 }
    (Cache.put (fun _ => .zero) 1 { stAlloc := true, stSize := 3000, stUid := 9, stMode := P_FILE_OWNER_WRITE })
    { blocks := fun _ => List.replicate 3 zeroBlock, uid := fun _ => some 9, sent := [] } 4
    (handle (Cache.put (fun _ => .zero) 1 { stAlloc := true, stSize := 3000, stUid := 9, stMode := P_FILE_OWNER_WRITE })
      { type := .setsize, ino := 1, offset := 1500, size := 0, uid := 0, mode := 0 } [] 4) := by
  intro harmless
  have careful := (@setsize_harmless_iff _ _ _ 4
    { type := .setsize, ino := 1, offset := 1500, size := 0, uid := 0, mode := 0 }).mp harmless
  have same := careful { stAlloc := true, stSize := 3000, stUid := 9, stMode := P_FILE_OWNER_WRITE } 9 rfl rfl
    (by decide) (by decide) (by decide)
  exact absurd same (by decide)

end Egos.Blkfile
