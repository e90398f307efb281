import Egos.Proofs.BlkfileAccess

/-! Files that are closed to a user do not influence what the user sees: two servers that
differ only in such files give the same replies and go on to differ only in them. -/

namespace Egos.Blkfile
open Library Files
open Grass (Pid Uid)

/-- An allocated file of someone else that others can neither read nor write. -/
def Closed (u : Uid) (stat : FileStat) : Prop :=
  stat.stAlloc = true ∧ stat.stUid ≠ u ∧ stat.stMode &&& P_FILE_OTHER_READ = 0 ∧ stat.stMode &&& P_FILE_OTHER_WRITE = 0

theorem Closed.unused {u : Uid} {stat : FileStat} {owner other : UInt32} (closed : Closed u stat)
    (none : stat.stMode &&& other = 0) :
    ¬ MayUse owner other u stat := by
  rintro (⟨own, _⟩ | ⟨_, granted⟩)
  · exact closed.2.1 own.symm
  · exact granted none

/-- Tables that differ only in the sizes of the hidden files. The table itself is written to
inode 0, so that inode is hidden where there is a difference. -/
structure Alike (u : Uid) (hidden : Fin MAX_INODES → Prop) (cache other : Cache) : Prop where
  closed : ∀ f, hidden f → Closed u (cache f)
  seen : ∀ f, ¬ hidden f → other f = cache f
  sized : ∀ f, hidden f → other f = { cache f with stSize := (other f).stSize }
  table : hidden 0 ∨ other = cache

def Clear (hidden : Fin MAX_INODES → Prop) (ino : UInt32) : Prop := ∀ f, hidden f → ino ≠ UInt32.ofNat f

/-- Stores that differ only in the contents of the hidden files. -/
structure SameStore (uid : Pid → Option Uid) (hidden : Fin MAX_INODES → Prop) (s t : InodeStore) : Prop where
  left : s.uid = uid
  right : t.uid = uid
  sent : t.sent = s.sent
  blocks : ∀ ino, Clear hidden ino → t.blocks ino = s.blocks ino

def Visible (hidden : Fin MAX_INODES → Prop) : Call → Prop
  | .blockRead ino _ | .blockWrite ino _ _ | .blockGetsize ino | .blockSetsize ino _ => Clear hidden ino
  | _ => True

section Stores
variable {uid : Pid → Option Uid} {hidden : Fin MAX_INODES → Prop} {s t : InodeStore}

theorem SameStore.update (same : SameStore uid hidden s t) (ino : UInt32) (blocks : List DataBlock) :
    SameStore uid hidden { s with blocks := Function.update s.blocks ino blocks }
        { t with blocks := Function.update t.blocks ino blocks } where
  left := same.left
  right := same.right
  sent := same.sent
  blocks i clear := by
    dsimp only
    by_cases here : i = ino
    · rw [here, Function.update_self, Function.update_self]
    · rw [Function.update_of_ne here, Function.update_of_ne here, same.blocks i clear]

theorem visible_replies (op : Call) (visible : Visible hidden op) (s t : InodeStore) (same : SameStore uid hidden s t) :
    ∃ reply after other, InodeStore.serve op s = .done reply after ∧ InodeStore.serve op t = .done reply other ∧
        SameStore uid hidden after other := by
  cases op with
  | find pid =>
    refine ⟨uid pid, s, t, ?_, ?_, same⟩
    · rw [← same.left]
      rfl
    · rw [← same.right]
      rfl
  | send dst reply =>
    refine ⟨(), _, _, rfl, rfl, same.left, same.right, ?_, same.blocks⟩
    rw [same.sent]
  | blockRead ino offset =>
    refine ⟨_, s, t, rfl, ?_, same⟩
    rw [← same.blocks ino visible]
    rfl
  | blockGetsize ino =>
    refine ⟨_, s, t, rfl, ?_, same⟩
    rw [← same.blocks ino visible]
    rfl
  | garbage count => exact ⟨_, s, t, rfl, rfl, same⟩
  | blockWrite ino offset block =>
    unfold InodeStore.serve InodeStore.write
    dsimp only
    rw [same.blocks ino visible]
    split_ifs
    · exact ⟨true, _, _, rfl, rfl, same.update ino _⟩
    · exact ⟨false, s, t, rfl, rfl, same⟩
  | blockSetsize ino size =>
    unfold InodeStore.serve
    dsimp only
    rw [same.blocks ino visible]
    split_ifs
    · exact ⟨true, s, t, rfl, rfl, same⟩
    · exact ⟨true, _, _, rfl, rfl, same.update ino []⟩
    · exact ⟨false, s, t, rfl, rfl, same⟩
    · exact ⟨false, s, t, rfl, rfl, same⟩

end Stores

namespace Alike
variable {u : Uid} {hidden : Fin MAX_INODES → Prop} {cache other : Cache} {ino : UInt32}

theorem alloc_eq (alike : Alike u hidden cache other) (f : Fin MAX_INODES) : (other f).stAlloc = (cache f).stAlloc := by
  by_cases concealed : hidden f
  · rw [alike.sized f concealed]
  · rw [alike.seen f concealed]

theorem closed_other (alike : Alike u hidden cache other) {f : Fin MAX_INODES} (concealed : hidden f) :
    Closed u (other f) := by
  have closed := alike.closed f concealed
  rw [alike.sized f concealed]
  exact closed

theorem unallocated_eq (alike : Alike u hidden cache other) : other.unallocated = cache.unallocated := by
  unfold Cache.unallocated
  congr 1
  funext f
  rw [alike.alloc_eq f]

theorem entry_eq (alike : Alike u hidden cache other) (clear : Clear hidden ino) :
    other.entry ino = cache.entry ino := by
  unfold Cache.entry
  by_cases inside : ino.toNat < MAX_INODES
  · rw [dif_pos inside, dif_pos inside, alike.seen]
    exact fun concealed => clear _ concealed UInt32.ofNat_toNat.symm
  · rw [dif_neg inside, dif_neg inside]

theorem allocated_eq (alike : Alike u hidden cache other) (clear : Clear hidden ino) :
    other.allocated ino = cache.allocated ino := by
  unfold Cache.allocated
  rw [alike.entry_eq clear]

/-- Both tables get the same entry for a file that is not hidden. -/
theorem update (alike : Alike u hidden cache other) {i : Fin MAX_INODES} (shown : ¬ hidden i) (stat : FileStat) :
    Alike u hidden (Function.update cache i stat) (Function.update other i stat) := by
  have apart : ∀ f, hidden f → f ≠ i := by
    rintro f concealed rfl
    exact shown concealed
  refine ⟨fun f concealed => ?_, fun f visible => ?_, fun f concealed => ?_, ?_⟩
  · rw [Function.update_of_ne (apart f concealed)]
    exact alike.closed f concealed
  · by_cases here : f = i
    · rw [here, Function.update_self, Function.update_self]
    · rw [Function.update_of_ne here, Function.update_of_ne here, alike.seen f visible]
  · rw [Function.update_of_ne (apart f concealed), Function.update_of_ne (apart f concealed)]
    exact alike.sized f concealed
  · refine alike.table.imp_right fun same => ?_
    rw [same]

theorem put (alike : Alike u hidden cache other) (clear : Clear hidden ino) (stat : FileStat) :
    Alike u hidden (cache.put ino stat) (other.put ino stat) := by
  unfold Cache.put
  by_cases inside : ino.toNat < MAX_INODES
  · rw [dif_pos inside, dif_pos inside]
    exact alike.update (fun concealed => clear _ concealed UInt32.ofNat_toNat.symm) stat
  · rw [dif_neg inside, dif_neg inside]
    exact alike

end Alike

abbrev Twin (uid : Pid → Option Uid) (u : Uid) (hidden : Fin MAX_INODES → Prop) (first second : Server Cache) : Prop :=
  Effect.Twins InodeStore.serve (SameStore uid hidden) first second (Alike u hidden)

section Handlers
variable {uid : Pid → Option Uid} {u : Uid} {hidden : Fin MAX_INODES → Prop} {cache other : Cache}
    {req : FileRequest} {src : Pid}

theorem calls_twins {α : Type} {program : Server α} {wanted : α → Prop}
    (gives : program.Gives (Visible hidden) wanted) :
    Effect.Twins InodeStore.serve (SameStore uid hidden) program program Eq :=
  (Effect.Twins.same visible_replies gives).weaken fun _ _ both => both.1

theorem reply_twins (alike : Alike u hidden cache other) (reply : FileReply) : Twin uid u hidden (do
      call (.send src reply)
      pure cache) (do
      call (.send src reply)
      pure other) := by
  have sends : (call (.send src reply)).Gives (Visible hidden) fun _ => True := ⟨trivial, fun _ => trivial⟩
  exact (calls_twins sends).bind fun _ _ _ => .returns alike

theorem refuse_twins (alike : Alike u hidden cache other) : Twin uid u hidden (refuse cache src) (refuse other src) :=
  reply_twins alike _

/-- The tables are written to inode 0. -/
theorem flush_twins (alike : Alike u hidden cache other) :
    Effect.Twins InodeStore.serve (SameStore uid hidden) (flushStatCache cache) (flushStatCache other)
        fun _ _ => True := by
  by_cases table : hidden 0
  · intro s t same
    obtain ⟨after, left, kept⟩ := flushStatCache_run cache s
    obtain ⟨last, right, held⟩ := flushStatCache_run other t
    rw [left, right]
    refine ⟨⟨kept.uid.trans same.left, held.uid.trans same.right, ?_, fun ino clear => ?_⟩, trivial⟩
    · rw [held.sent, kept.sent, same.sent]
    · have some : ino ≠ 0 := clear 0 table
      rw [held.blocks ino some, kept.blocks ino some, same.blocks ino clear]
  · obtain rfl := alike.table.resolve_left table
    have clear : Clear hidden 0 := by
      intro f concealed zero
      by_cases first : f = 0
      · exact table (first ▸ concealed)
      · exact Holds.inode_ne first zero.symm
    have gives : (flushStatCache other).Gives (Visible hidden) fun _ => True := by
      unfold flushStatCache multiblockWrite
      exact (writeBlocks_gives fun _ _ => clear).bind fun _ _ => trivial
    exact (calls_twins gives).weaken fun _ _ _ => trivial

/-- The last steps of the handlers that change an entry. -/
theorem finish_twins (alike : Alike u hidden cache other) (reply : FileReply) : Twin uid u hidden (do
      flushStatCache cache
      call (.send src reply)
      pure cache) (do
      flushStatCache other
      call (.send src reply)
      pure other) :=
  (flush_twins alike).bind fun _ _ _ => reply_twins alike reply

theorem refused_twins (live : uid src = some u) (alike : Alike u hidden cache other) {first second : Server Cache}
    (left : ∀ s, s.uid src = some u → first.run InodeStore.serve s = refused cache src s)
    (right : ∀ s, s.uid src = some u → second.run InodeStore.serve s = refused other src s) :
    Twin uid u hidden first second := by
  intro s t same
  rw [left s (by rw [same.left, live]), right t (by rw [same.right, live])]
  refine ⟨⟨same.left, same.right, ?_, same.blocks⟩, alike⟩
  unfold InodeStore.reply
  rw [same.sent]

/-- A handler refuses requests for hidden files, and looks at nothing hidden in the others. -/
theorem hidden_twins (ino : UInt32) (program : Cache → Server Cache) (live : uid src = some u)
    (alike : Alike u hidden cache other)
    (shown : Clear hidden ino → Twin uid u hidden (program cache) (program other))
    (denied : ∀ (cache : Cache) (inside : ino.toNat < MAX_INODES), Closed u (cache ⟨ino.toNat, inside⟩) →
      ∀ s, s.uid src = some u → (program cache).run InodeStore.serve s = refused cache src s) :
    Twin uid u hidden (program cache) (program other) := by
  by_cases clear : Clear hidden ino
  · exact shown clear
  · unfold Clear at clear
    push Not at clear
    obtain ⟨f, concealed, here⟩ := clear
    have inside : ino.toNat < MAX_INODES := by
      rw [here, UInt32.toNat_ofNat_of_lt' (Nat.lt_trans f.isLt (by decide))]
      exact f.isLt
    rw [(place_iff inside).mpr here.symm] at concealed
    exact refused_twins live alike (denied cache inside (alike.closed _ concealed))
      (denied other inside (alike.closed_other concealed))

theorem freeReply_twins {ext : UInt32} :
    Effect.Twins InodeStore.serve (SameStore uid hidden) (freeReply ext) (freeReply ext)
    fun _ _ => True :=
  (calls_twins freeReply_gives).weaken fun _ _ _ => trivial

theorem replied_twins (alike : Alike u hidden cache other) {ext : UInt32} {reply : FileReply} : Twin uid u hidden
    (call (.send src reply) >>= fun _ => freeReply ext >>= fun _ => pure cache)
    (call (.send src reply) >>= fun _ => freeReply ext >>= fun _ => pure other) := by
  have sends : (call (.send src reply)).Gives (Visible hidden) fun _ => True := ⟨trivial, fun _ => trivial⟩
  exact (calls_twins sends).bind fun _ _ _ => freeReply_twins.bind fun _ _ _ => .returns alike

theorem readContents_twins (alike : Alike u hidden cache other) (clear : Clear hidden req.ino) {stat : FileStat} :
    Twin uid u hidden (readContents cache req stat src) (readContents other req stat src) := by
  unfold readContents
  refine (calls_twins (multiblockRead_gives fun _ => clear)).bind ?_
  rintro result _ rfl
  cases result with
  | none => exact freeReply_twins.bind fun _ _ _ => refuse_twins alike
  | some result =>
    exact .ite (freeReply_twins.bind fun _ _ _ => refuse_twins alike) (.ite (.halts _) (replied_twins alike))

theorem put_twins (alike : Alike u hidden cache other) {ino : UInt32} (clear : Clear hidden ino)
    {stat : FileStat} {offset : UInt64}
    {data : List UInt8} {size : UInt32} :
    Effect.Twins InodeStore.serve (SameStore uid hidden) (put cache ino stat offset data size)
      (put other ino stat offset data size) (Option.Rel (Alike u hidden)) := by
  unfold put
  dsimp only
  refine (calls_twins (oldContents_gives fun _ => clear)).bind ?_
  rintro contents _ rfl
  cases contents with
  | none => exact .returns .none
  | some contents =>
    dsimp only
    split_ifs
    · exact .halts _
    unfold multiblockWrite
    refine (calls_twins (writeBlocks_gives fun _ _ => clear)).bind ?_
    rintro written _ rfl
    cases written with
    | false => exact .returns .none
    | true => exact (flush_twins (alike.put clear _)).bind fun _ _ _ => .returns (.some (alike.put clear _))

section Requests
variable (live : uid src = some u) (user : u ≠ 0) (alike : Alike u hidden cache other)
include live user alike

omit live user in
/-- The new file is not one of the hidden files, which are allocated. -/
theorem create_twins : Twin uid u hidden (doCreate cache req src) (doCreate other req src) := by
  unfold doCreate
  rw [alike.unallocated_eq]
  cases found : cache.unallocated with
  | none => exact refuse_twins alike
  | some ino =>
    have picked := List.find?_some found
    rw [Bool.and_eq_true, Bool.not_eq_true'] at picked
    have shown : ¬ hidden ino := by
      intro concealed
      have used := (alike.closed ino concealed).1
      rw [picked.2] at used
      cases used
    dsimp only
    refine (calls_twins (findUid_gives trivial)).bind ?_
    rintro owner _ rfl
    rw [alike.seen ino shown]
    exact finish_twins (alike.update shown _) _

theorem read_twins : Twin uid u hidden (doRead cache req src) (doRead other req src) := by
  refine hidden_twins req.ino (doRead · req src) live alike (fun clear => ?_) fun cache inside closed s live => ?_
  · unfold doRead
    rw [alike.allocated_eq clear]
    cases cache.allocated req.ino with
    | none => exact refuse_twins alike
    | some stat =>
      refine (calls_twins (allowed_gives trivial)).bind ?_
      rintro granted _ rfl
      cases granted with
      | false => exact refuse_twins alike
      | true =>
        dsimp only
        split_ifs
        · exact readContents_twins alike clear
        · exact replied_twins alike
  · refine read_denied live user fun stat found => ?_
    obtain ⟨_, entry, _⟩ := allocated_eq found
    rw [← entry]
    exact closed.unused closed.2.2.1

theorem stat_twins : Twin uid u hidden (doStat cache req src) (doStat other req src) := by
  refine hidden_twins req.ino (doStat · req src) live alike (fun clear => ?_) fun cache inside closed s live => ?_
  · unfold doStat
    rw [alike.allocated_eq clear]
    cases cache.allocated req.ino with
    | none => exact refuse_twins alike
    | some stat =>
      refine (calls_twins (allowed_gives trivial)).bind ?_
      rintro granted _ rfl
      cases granted with
      | false => exact refuse_twins alike
      | true => exact reply_twins alike _
  · refine stat_denied live user fun stat found => ?_
    obtain ⟨_, entry, _⟩ := allocated_eq found
    rw [← entry]
    exact closed.unused closed.2.2.1

theorem write_twins {data : List UInt8} :
    Twin uid u hidden (doWrite cache req data src) (doWrite other req data src) := by
  refine hidden_twins req.ino (doWrite · req data src) live alike (fun clear => ?_)
    fun cache inside closed s live => write_denied live user inside (closed.unused closed.2.2.2)
  unfold doWrite
  rw [alike.allocated_eq clear]
  cases cache.allocated req.ino with
  | none => exact refuse_twins alike
  | some stat =>
    dsimp only
    split_ifs
    · exact refuse_twins alike
    refine (calls_twins (allowed_gives trivial)).bind ?_
    rintro granted _ rfl
    cases granted with
    | false => exact refuse_twins alike
    | true =>
      refine (put_twins alike clear).bind fun after last same => ?_
      cases same with
      | none => exact refuse_twins alike
      | some same => exact reply_twins same _

/-- The size is compared before the permission is checked, but both have the same reply. -/
theorem setsize_twins : Twin uid u hidden (doSetsize cache req src) (doSetsize other req src) := by
  refine hidden_twins req.ino (doSetsize · req src) live alike (fun clear => ?_)
    fun cache inside closed s live => setsize_denied live user inside (closed.unused closed.2.2.2)
  unfold doSetsize
  rw [alike.allocated_eq clear]
  cases cache.allocated req.ino with
  | none => exact refuse_twins alike
  | some stat =>
    dsimp only
    by_cases large : stat.stSize < req.offset
    · rw [if_pos large, if_pos large]
      exact refuse_twins alike
    rw [if_neg large, if_neg large]
    refine (calls_twins (allowed_gives trivial)).bind ?_
    rintro granted _ rfl
    cases granted with
    | false => exact refuse_twins alike
    | true =>
      have sets : ∀ size, (call (.blockSetsize req.ino size)).Gives (Visible hidden)
        fun _ => True := fun size => ⟨clear, fun _ => trivial⟩
      refine (calls_twins (sets _)).bind ?_
      rintro success _ rfl
      exact (calls_twins (respondUnless_gives fun _ => trivial)).bind fun _ _ _ => finish_twins (alike.put clear _) _

theorem delete_twins : Twin uid u hidden (doDelete cache req src) (doDelete other req src) := by
  refine hidden_twins req.ino (doDelete · req src) live alike (fun clear => ?_)
    fun cache inside closed s live => delete_denied live user inside (closed.unused closed.2.2.2)
  unfold doDelete
  rw [alike.entry_eq clear]
  split_ifs
  · exact refuse_twins alike
  refine (calls_twins (allowed_gives trivial)).bind ?_
  rintro granted _ rfl
  cases granted with
  | false => exact refuse_twins alike
  | true =>
    cases cache.entry req.ino with
    | none => exact .halts _
    | some stat =>
      dsimp only
      split_ifs
      · have sets : (call (.blockSetsize req.ino 0)).Gives (Visible hidden) fun _ => True := ⟨clear, fun _ => trivial⟩
        refine (flush_twins (alike.put clear _)).bind fun _ _ _ => (calls_twins sets).bind ?_
        rintro success _ rfl
        exact (calls_twins (respondUnless_gives fun _ => trivial)).bind fun _ _ _ => reply_twins (alike.put clear _) _
      · exact reply_twins alike _

theorem chmod_twins : Twin uid u hidden (doChmod cache req src) (doChmod other req src) := by
  refine hidden_twins req.ino (doChmod · req src) live alike (fun clear => ?_) fun cache inside closed s live =>
    chmod_denied live user fun stat found => ?_
  · unfold doChmod
    rw [alike.allocated_eq clear]
    cases cache.allocated req.ino with
    | none => exact refuse_twins alike
    | some stat =>
      refine (calls_twins (findUid_gives trivial)).bind ?_
      rintro sender _ rfl
      dsimp only
      split_ifs
      · exact refuse_twins alike
      · exact finish_twins (alike.put clear _) _
  · obtain ⟨_, entry, _⟩ := allocated_eq found
    rw [← entry]
    exact closed.2.1.symm

theorem handle_twins {data : List UInt8} :
    Twin uid u hidden (handle cache req data src) (handle other req data src) := by
  unfold handle
  cases req.type with
  | create => exact create_twins alike
  | delete => exact delete_twins live user alike
  | chown => exact refused_twins live alike (fun s live => chown_denied live user) fun s live => chown_denied live user
  | chmod => exact chmod_twins live user alike
  | read => exact read_twins live user alike
  | write => exact write_twins live user alike
  | stat => exact stat_twins live user alike
  | setsize => exact setsize_twins live user alike
  | setFlags => exact .halts _
  | unknown => exact .halts _

theorem serve_twins {msg : List UInt8} : Twin uid u hidden (serve cache msg src) (serve other msg src) := by
  unfold serve
  cases FileRequest.decode msg with
  | none => exact .halts _
  | some request => exact handle_twins live user alike

end Requests

/-- Two servers that look alike handle the same requests of the user, one after the other. -/
theorem serveAll_twins (user : u ≠ 0) {requests : List (Pid × List UInt8)}
    (live : ∀ request ∈ requests, uid request.1 = some u)
    (alike : Alike u hidden cache other) : Twin uid u hidden (serveAll cache requests) (serveAll other requests) := by
  induction requests generalizing cache other with
  | nil => exact .returns alike
  | cons request rest ih =>
    refine (serve_twins (live request List.mem_cons_self) user alike).bind fun after last still => ?_
    exact ih (fun later member => live later (List.mem_cons_of_mem _ member)) still

end Handlers

/-- The requests of a user respect the permissions of every file but the table, and files that are closed to the user
do not influence the replies nor anything but themselves. -/
theorem files_protected {uid : Pid → Option Uid} {u : Uid} (user : u ≠ 0) :
    (∀ (cache : Cache) (s : InodeStore) (req : FileRequest) (data : List UInt8) (src : Pid), s.uid = uid →
      uid src = some u →
      req.ino.toNat < MAX_INODES → Respected u req src cache s ((handle cache req data src).run InodeStore.serve s)) ∧
    ∀ (hidden : Fin MAX_INODES → Prop) (cache other : Cache) (requests : List (Pid × List UInt8)),
      (∀ request ∈ requests, uid request.1 = some u) → Alike u hidden cache other →
        Twin uid u hidden (serveAll cache requests) (serveAll other requests) :=
  ⟨fun cache s req data src same live inside => handle_respected (by rw [same, live]) user inside,
    fun hidden cache other requests live alike => serveAll_twins user live alike⟩

def readRequest : FileRequest := { type := .read, ino := 1, offset := 0, size := 100, uid := 0, mode := 0 }

def writeRequest : FileRequest := { type := .write, ino := 2, offset := 0, size := 1, uid := 0, mode := 0 }

/-- File 1 belongs to uid 7, and no one else may use it; file 2 belongs to uid 5. -/
def closedCache (size : UInt64) : Cache :=
  Function.update (Function.update Cache.new 2 { stAlloc := true, stSize := 0, stUid := 5, stMode := 12 }) 1
    { stAlloc := true, stSize := size, stUid := 7, stMode := 12 }

/-- Process 1, of uid 5, writes to its own file and asks for the bytes of the other one. -/
theorem files_protected_closed :
    Respected 5 writeRequest 1 (closedCache 3) (.empty fun _ => some 5)
      ((handle (closedCache 3) writeRequest [9] 1).run InodeStore.serve (.empty fun _ => some 5)) ∧
    ((handle (closedCache 3) writeRequest [9] 1).run InodeStore.serve (.empty fun _ => some 5)).state.byte 2 0 = 9 ∧
    Respected 5 readRequest 1 (closedCache 3) (.empty fun _ => some 5)
      ((handle (closedCache 3) readRequest [] 1).run InodeStore.serve (.empty fun _ => some 5)) ∧
    Twin (fun _ => some 5) 5 (fun f => f = 0 ∨ f = 1)
      (serveAll (closedCache 3) [(1, message 5 writeRequest [9]), (1, message 4 readRequest [])])
      (serveAll (closedCache 200) [(1, message 5 writeRequest [9]), (1, message 4 readRequest [])]) := by
  have both := @files_protected (fun _ => some 5) 5 (by decide)
  refine ⟨both.1 _ _ _ _ _ rfl rfl (by decide), by decide +kernel, both.1 _ _ _ _ _ rfl rfl (by decide),
    both.2 _ _ _ _ (fun _ _ => rfl) ⟨?_, ?_, ?_, .inl (.inl rfl)⟩⟩
  · rintro f (rfl | rfl)
    · exact ⟨rfl, by decide, rfl, rfl⟩
    · exact ⟨rfl, by decide, rfl, rfl⟩
  · intro f shown
    rw [not_or] at shown
    unfold closedCache
    rw [Function.update_of_ne shown.2, Function.update_of_ne shown.2]
  · rintro f (rfl | rfl)
    · rfl
    · rfl

/-- Inode 0 is allocated on a new disk, and creating a file writes to it. -/
def createRequest : FileRequest := { type := .create, ino := 1, offset := 0, size := 0, uid := 0, mode := 12 }

theorem create_writes_table :
    ∃ s, start.run InodeStore.serve (.empty fun _ => some 5) = .done .new s ∧ (Cache.new 0).stAlloc = true ∧
    ((handle .new createRequest [] 1).run InodeStore.serve s).state.blocks 0 ≠ s.blocks 0 ∧
        ¬ Modifies 5 createRequest 0 (Cache.new 0) := by
  obtain ⟨s, started, _⟩ := start_run fun _ => some 5
  refine ⟨s, started, rfl, fun same => ?_, fun modifies => absurd modifies.1 (by decide)⟩
  have before : s = (start.run InodeStore.serve (.empty fun _ => some 5)).state := by rw [started]; rfl
  have byte : ((handle .new createRequest [] 1).run InodeStore.serve s).state.byte 0 24 = s.byte 0 24 := by
    unfold InodeStore.byte
    rw [same]
  rw [before] at byte
  revert byte
  decide +kernel

end Egos.Blkfile
