import Egos.Grass.BlkfileSession
import Egos.Proofs.BlkfileOffsets

/-! Bytes that a file has lost by a FILE_SETSIZE. The last block keeps them, so that a file that
grows again can show them. -/

namespace Egos.Blkfile
open Library Files
open Grass (Pid Uid)
open Disk (BLOCK_SIZE)

/-- The file is still there with another size. -/
theorem allocated_resized {cache : Cache} {ino : UInt32} {stat : FileStat}
    (found : cache.allocated ino = some stat) (size : UInt64) :
    (cache.put ino { stat with stSize := size }).allocated ino = some { stat with stSize := size } := by
  obtain ⟨inside, -, used⟩ := allocated_eq found
  unfold Cache.allocated Cache.entry
  rw [dif_pos inside, put_here inside, Option.filter_some, if_pos used]

def CutShort (cache : Cache) (s : InodeStore) (req : FileRequest) (after : Cache) (t : InodeStore) : Prop :=
  ∃ stat, cache.allocated req.ino = some stat ∧ after = cache.put req.ino { stat with stSize := req.offset } ∧
    req.offset ≤ stat.stSize ∧
    (req.ino ≠ 0 → t.blocks req.ino = s.blocks req.ino ∨ t.blocks req.ino = [])

section Requests
variable {cache : Cache} {s : InodeStore} {req : FileRequest} {data : List UInt8} {src : Pid}

/-- What the block server does with a new size. -/
theorem resize_call {ino size : UInt32} (inside : ino.toNat < MAX_INODES) :
    (∃ middle, (call (.blockSetsize ino size)).run InodeStore.serve s = .done true middle ∧ middle.sent = s.sent ∧
      (middle.blocks ino = s.blocks ino ∨ middle.blocks ino = [])) ∨
    (call (.blockSetsize ino size)).run InodeStore.serve s = .done false s := by
  unfold call
  rw [Effect.run_perform]
  unfold InodeStore.serve
  dsimp only
  rw [if_pos inside]
  split_ifs
  · exact .inl ⟨s, rfl, rfl, .inl rfl⟩
  · exact .inl ⟨_, rfl, rfl, .inr (Function.update_self ..)⟩
  · exact .inr rfl

theorem setsize_cuts (setsize : req.type = .setsize) :
    Ends InodeStore.serve s (Answered s src fun _ => CutShort cache s req) (handle cache req data src) := by
  unfold handle
  rw [setsize]
  refine (answered_refused _).file.mpr fun stat found => (answered_refused _).cond.mpr
    fun le => (answered_refused _).granted.mpr
    fun u live permitted => ?_
  obtain ⟨inside, -, -⟩ := allocated_eq found
  have table : Serves InodeStore.serve 0 (fun _ => false) fun _ => false := InodeStore.serves (by decide)
  rcases @resize_call s req.ino (if req.offset =
    0 then 0 else (1 + req.offset / UInt64.ofNat BLOCK_SIZE).toUInt32) inside with
    ⟨middle, called, sent, blocks⟩ | called
  · obtain ⟨t, ran, kept⟩ := @setsize_serves _ _ src InodeStore.delivers _ _ table _ _ _ _ called cache stat req.offset
    have new : (InodeStore.reply t src (.cleared .ok)).sent = s.sent ++ [(src, .cleared .ok)] := by
      change t.sent ++ _ = _
      rw [kept.sent]
      exact congrArg (· ++ _) sent
    refine (ends_done ran).mpr ((answered_iff new).mpr (.inr ⟨stat, found, rfl, UInt64.not_lt.mp le, fun some => ?_⟩))
    have same : t.blocks req.ino = middle.blocks req.ino := kept.blocks _ some
    rw [← same] at blocks
    exact blocks
  · obtain ⟨t, ran, kept⟩ := @setsize_serves _ _ src InodeStore.delivers _ _ table _ _ _ _ called cache stat req.offset
    refine (ends_done ran).mpr fun reply new => ?_
    -- an error comes before the last reply
    have two : t.sent ++ [(src, FileReply.cleared .ok)] = s.sent ++ [(src, reply)] := new
    rw [kept.sent] at two
    have lengths := congrArg List.length two
    simp [answeredUnless, InodeStore.reply] at lengths

end Requests

/-- A request for a file to write it, read it or change its size, that is answered without an error. -/
def Exchange.Served (ino : UInt32) (x : Exchange) : Prop :=
  x.request.req.ino = ino ∧ (x.request.req.type = .write ∨ x.request.req.type = .read ∨ x.request.req.type = .setsize) ∧
    x.replies.map (·.status) = [.ok]

instance (ino : UInt32) (x : Exchange) : Decidable (x.Served ino) := inferInstanceAs (Decidable (_ ∧ _))

def Serving (ino : UInt32) : Session → Exchange → Session → Prop := Guarded (fun _ x => x.Served ino) Session.Step

/-- The numbers of the request fit, and the bytes between the end of the file and a write are zeros. -/
def Session.Fits (s : Session) (request : Request) : Prop :=
  OffsetsFit s.cache (s.store request.uid) request.req request.data request.src

def Fitting (before : Session) (x : Exchange) : Prop := before.Fits x.request

/-- The byte has been cut off, and not written since. -/
def CutOff (history : List Exchange) (i : Nat) : Prop :=
  ∃ earlier x later, history = earlier ++ x :: later ∧ x.request.req.type = .setsize ∧ x.request.req.offset.toNat ≤ i ∧
    ∀ y ∈ later, y.request.req.type = .write →
      ¬ (y.request.req.offset.toNat ≤ i ∧ i < y.request.req.offset.toNat + y.request.data.length)

theorem CutOff.last {history : List Exchange} {x : Exchange} {i : Nat} (cut : CutOff (history ++ [x]) i) :
    x.request.req.type = .setsize ∧ x.request.req.offset.toNat ≤ i ∨
      CutOff history i ∧ (x.request.req.type = .write →
        ¬ (x.request.req.offset.toNat ≤ i ∧ i < x.request.req.offset.toNat + x.request.data.length)) := by
  obtain ⟨earlier, y, later, split, setsize, le, unwritten⟩ := cut
  rcases List.eq_nil_or_concat later with rfl | ⟨later, z, rfl⟩
  · obtain ⟨-, same⟩ := List.append_inj' split rfl
    rw [List.singleton_inj.mp same]
    exact .inl ⟨setsize, le⟩
  · rw [List.concat_eq_append, ← List.cons_append, ← List.append_assoc] at split
    obtain ⟨rfl, same⟩ := List.append_inj' split rfl
    rw [List.singleton_inj.mp same]
    rw [List.concat_eq_append] at unwritten
    exact .inr ⟨⟨earlier, y, later, rfl, setsize, le, fun y member => unwritten y (List.mem_append_left _ member)⟩,
      unwritten z (List.mem_append_right _ List.mem_cons_self)⟩

/-- Bytes of the file that have been cut off are zeros. -/
def CutZero (ino : UInt32) (history : List Exchange) (s : Session) : Prop :=
  ∀ stat, s.cache.allocated ino = some stat → ∀ i < stat.stSize.toNat, CutOff history i →
    (s.store fun _ => none).byte ino i = 0

section Steps
variable {ino : UInt32} {before after : Session} {history : List Exchange} {x : Exchange}

def Exchange.store (x : Exchange) (after : Session) : InodeStore :=
  { blocks := after.blocks, uid := x.request.uid, sent := x.replies.map fun reply => (x.request.src, reply) }

theorem Serving.good {good : FileReply → Cache → InodeStore → Prop} (serving : Serving ino before x after)
    (ends : Ends InodeStore.serve (before.store x.request.uid)
    (Answered (before.store x.request.uid) x.request.src good)
      (handle before.cache x.request.req x.request.data x.request.src)) :
    ∃ reply, x.replies = [reply] ∧ good reply after.cache (x.store after) := by
  obtain ⟨⟨-, -, statuses⟩, step⟩ := serving
  obtain ⟨reply, single, ok⟩ := List.map_eq_singleton_iff.mp statuses
  rcases ends _ _ step reply (by rw [single]; rfl) with error | good
  · rw [ok] at error
    cases error
  · exact ⟨reply, single, good⟩

theorem Serving.write_cut (serving : Serving ino before x after) (file : ino ≠ 0)
    (write : x.request.req.type = .write) (fits : Fitting before x)
    (zero : CutZero ino history before) : CutZero ino (history ++ [x]) after := by
  obtain ⟨reply, -, stat, found, wrote⟩ := serving.good (write_fits write fits)
  obtain ⟨⟨rfl, -⟩, -⟩ := serving
  intro changed found' i below cut
  rw [wrote.entries, allocated_resized found, Option.some_inj] at found'
  rw [← found'] at below
  rcases cut.last with ⟨setsize, -⟩ | ⟨cut, unwritten⟩
  · rw [write] at setsize
    cases setsize
  have large := stat.stSize.toNat_lt
  have inside : i < max stat.stSize.toNat (x.request.req.offset.toNat + x.request.req.size.toNat) := by
    have le := Nat.mod_le (max stat.stSize.toNat (x.request.req.offset.toNat + x.request.req.size.toNat)) (2 ^ 64)
    rw [UInt64.toNat_ofNat'] at below
    omega
  have byte := wrote.bytes file i inside
  unfold writtenByte at byte
  rw [if_neg (unwritten write)] at byte
  refine byte.trans ?_
  split_ifs with old
  · exact zero stat found i old cut
  · rfl

theorem Serving.setsize_cut (serving : Serving ino before x after) (file : ino ≠ 0)
    (setsize : x.request.req.type = .setsize)
    (zero : CutZero ino history before) : CutZero ino (history ++ [x]) after := by
  obtain ⟨reply, -, stat, found, entries, le, blocks⟩ := serving.good (setsize_cuts setsize)
  obtain ⟨⟨rfl, -⟩, -⟩ := serving
  intro changed found' i below cut
  rw [entries, allocated_resized found, Option.some_inj] at found'
  rw [← found'] at below
  rcases cut.last with ⟨-, behind⟩ | ⟨cut, -⟩
  · exact absurd below (Nat.not_lt.mpr behind)
  have old : i < stat.stSize.toNat := Nat.lt_of_lt_of_le below (UInt64.le_iff_toNat_le.mp le)
  rcases blocks file with same | none
  · unfold InodeStore.byte
    rw [show (after.store fun _ => none).blocks x.request.req.ino = before.blocks x.request.req.ino from same]
    exact zero stat found i old cut
  · refine byte_absent ?_
    rw [show (after.store fun _ => Option.none).blocks x.request.req.ino = [] from none]
    exact Nat.zero_le _

/-- A read that is answered changes nothing. -/
theorem Serving.read_kept (serving : Serving ino before x after) (read : x.request.req.type = .read)
    (fits : Fitting before x) :
    after.cache = before.cache ∧ after.blocks = before.blocks := by
  obtain ⟨⟨-, -, statuses⟩, step⟩ := serving
  obtain ⟨reply, single, ok⟩ := List.map_eq_singleton_iff.mp statuses
  have replied := read_fits read fits
  have ran : (handle before.cache x.request.req x.request.data x.request.src).run InodeStore.serve
    (before.store x.request.uid) =
    .done after.cache (x.store after) := step
  rw [ran] at replied
  rcases replied reply (by rw [Outcome.state, Exchange.store, single]; rfl) with error | ⟨stat, -, -, blocks, entries⟩
  · rw [ok] at error
    cases error
  · exact ⟨entries _ _ rfl, blocks⟩

theorem Serving.read_cut (serving : Serving ino before x after) (read : x.request.req.type = .read)
    (fits : Fitting before x)
    (zero : CutZero ino history before) : CutZero ino (history ++ [x]) after := by
  obtain ⟨entries, blocks⟩ := serving.read_kept read fits
  intro stat found i below cut
  rw [entries] at found
  have store : (after.store fun _ => none).byte ino i = (before.store fun _ => none).byte ino i := by
    unfold InodeStore.byte
    rw [show (after.store fun _ => none).blocks = before.blocks from blocks]
    rfl
  rw [store]
  rcases cut.last with ⟨setsize, -⟩ | ⟨cut, -⟩
  · rw [read] at setsize
    cases setsize
  · exact zero stat found i below cut

/-- A file that is read, written and cut off by requests whose numbers fit. -/
theorem Serving.cut (file : ino ≠ 0) (serving : Serving ino before x after) (fits : Fitting before x)
    (zero : CutZero ino history before) :
    CutZero ino (history ++ [x]) after := by
  obtain ⟨⟨-, write | read | setsize, -⟩, -⟩ := id serving
  · exact serving.write_cut file write fits zero
  · exact serving.read_cut read fits zero
  · exact serving.setsize_cut file setsize zero

/-- A read returns what is stored. -/
theorem CutZero.read {s : Session} (zero : CutZero ino history s) {request : Request}
    (read : request.req.type = .read) (here : request.req.ino = ino)
    (fits : s.Fits request) {reply : FileReply}
    (answered : (s.handle request).state.sent = [(request.src, reply)]) (ok : reply.status = .ok)
    {j : Nat} {byte : UInt8} (shown : reply.data[j]? = some byte)
    (cut : CutOff history (request.req.offset.toNat + j)) : byte = 0 := by
  rcases read_fits read fits reply answered with error | ⟨stat, found, same, -⟩
  · rw [ok] at error
    cases error
  rw [same] at shown
  obtain ⟨below, value⟩ := List.getElem?_eq_some_iff.mp shown
  have count : j < readCount stat.stSize request.req.offset request.req.size := by
    simpa [bytesRead, readReply] using below
  have le := Nat.min_le_right request.req.size.toNat (stat.stSize.toNat - request.req.offset.toNat)
  rw [← value]
  simp only [bytesRead, readReply, List.getElem_map, List.getElem_range]
  rw [here] at found ⊢
  exact zero stat found _ (by unfold readCount at count; omega) cut

end Steps

/-- Bytes that have been cut off are read as zeros until they are written. -/
theorem cut_off_reads_zero {ino : UInt32} (file : ino ≠ 0) {first last : Session} {history : List Exchange}
    (run : Run (Guarded Fitting (Serving ino)) first history last) {request : Request}
    (read : request.req.type = .read) (here : request.req.ino = ino)
    (fits : last.Fits request) {reply : FileReply}
    (answered : (last.handle request).state.sent = [(request.src, reply)]) (ok : reply.status = .ok)
    {j : Nat} {byte : UInt8} (shown : reply.data[j]? = some byte)
    (cut : CutOff history (request.req.offset.toNat + j)) : byte = 0 := by
  have none : ∀ i, ¬ CutOff [] i := by
    rintro i ⟨earlier, x, later, split, -⟩
    simp at split
  have kept : ∀ labels before x after, CutZero ino labels before →
      Guarded Fitting (Serving ino) before x after → CutZero ino (labels ++ [x]) after :=
    fun _ _ _ _ zero step => step.2.cut file step.1 zero
  have zero : CutZero ino history last := run.history kept fun _ _ i _ cut => absurd cut (none i)
  exact zero.read read here fits answered ok shown cut

/-! A file that shrinks and grows. -/

instance (fileSize offset : UInt64) (size : UInt32) : Decidable (ReadFits fileSize offset size) :=
  decidable_of_iff (fileSize.toNat - offset.toNat < 2 ^ 32 ∧ offset.toNat + readCount fileSize offset size < 2 ^ 42 ∧
    readSpan fileSize offset size * BLOCK_SIZE < 2 ^ 32) ⟨fun ⟨left, finish, room⟩ => ⟨left, finish, room⟩,
      fun fits => ⟨fits.left, fits.finish, fits.room⟩⟩

instance (s : InodeStore) (ino : UInt32) (fileSize offset : UInt64) : Decidable (GapZero s ino fileSize offset) :=
  inferInstanceAs (Decidable (∀ i < offset.toNat, _))

instance (s : InodeStore) (req : FileRequest) (data : List UInt8) (stat : FileStat) (u : Uid) :
    Decidable (RequestFits s req data stat u) :=
  inferInstanceAs (Decidable (_ ∧ _))

instance (s : Session) (request : Request) : Decidable (s.Fits request) :=
  decidable_of_iff ((s.cache.allocated request.req.ino).all fun stat => (request.uid request.src).all fun u =>
      RequestFits (s.store request.uid) request.req request.data stat u)
    (by
      simp only [Option.all_eq_true, decide_eq_true_eq]
      exact ⟨fun fits stat u found live => fits stat found u live,
        fun fits stat found u live => fits stat u found live⟩)

instance (before : Session) (x : Exchange) : Decidable (Fitting before x) :=
  inferInstanceAs (Decidable (before.Fits x.request))

/-- No call changes the process table. -/
theorem serve_uid {α : Type} (program : Server α) (s : InodeStore) :
    (program.run InodeStore.serve s).state.uid = s.uid := by
  induction program generalizing s with
  | pure value => rfl
  | halt reason => rfl
  | call c next ih =>
    have kept : (InodeStore.serve c s).state.uid = s.uid := by
      cases c with
      | find | send | garbage | blockRead | blockGetsize => rfl
      | blockWrite | blockSetsize =>
        unfold InodeStore.serve
        dsimp only
        split_ifs <;> rfl
    cases served : InodeStore.serve c s with
    | done reply middle =>
      rw [served] at kept
      have steps : (Effect.call c next).run InodeStore.serve s = (next reply).run InodeStore.serve middle :=
        Prog.bind_done served
      rw [steps, ih]
      exact kept
    | halted reason middle =>
      rw [served] at kept
      have steps : (Effect.call c next).run InodeStore.serve s = .halted reason middle := Prog.bind_halted served
      rw [steps]
      exact kept

theorem Session.next_step {before after : Session} {x : Exchange} (made : before.next x = some after) :
    before.Step x after := by
  have uid := serve_uid (Blkfile.handle before.cache x.request.req x.request.data x.request.src)
    (before.store x.request.uid)
  unfold Session.next Session.handle at made
  unfold Session.Step Session.handle
  cases ran : (Blkfile.handle before.cache x.request.req x.request.data x.request.src).run InodeStore.serve
    (before.store x.request.uid) with
  | halted reason t =>
    rw [ran] at made
    cases made
  | done cache t =>
    rw [ran] at made uid
    dsimp only at made
    split_ifs at made with sent
    cases made
    obtain ⟨blocks, table, replies⟩ := t
    cases uid
    cases sent
    rfl

def Session.nextIf (condition : Session → Exchange → Prop) [∀ s x, Decidable (condition s x)] (s : Session)
    (x : Exchange) : Option Session :=
  if condition s x then s.next x else none

theorem Session.nextIf_step {condition : Session → Exchange → Prop} [∀ s x, Decidable (condition s x)]
    {before after : Session} {x : Exchange}
    (made : before.nextIf condition x = some after) : Guarded condition Session.Step before x after := by
  unfold nextIf at made
  split_ifs at made with met
  exact ⟨met, next_step made⟩

def owned (type : FileOp) (offset : UInt64) (data : List UInt8) (size : UInt32) : Request :=
  { uid := fun _ => some 9, src := 4, req := { type, ino := 1, offset, size, uid := 0, mode := 0 }, data }

def newFile : Session :=
  { cache := Cache.put (fun _ => .zero) 1 { stAlloc := true, stSize := 0, stUid := 9, stMode := P_FILE_OWNER_READ ||| P_FILE_OWNER_WRITE }
    blocks := fun _ => [] }

/-- Three bytes are written and all of them cut off, and one is written behind a gap. -/
def emptied : List Exchange :=
  [{ request := owned .write 0 [5, 5, 5] 3, replies := [.cleared .ok] },
    { request := owned .setsize 0 [] 0, replies := [.cleared .ok] },
    { request := owned .write 2 [7] 1, replies := [.cleared .ok] }]

theorem cut_off_reads_zero_emptied : ∃ last, Run (Guarded Fitting (Serving 1)) newFile emptied last ∧
    (last.handle (owned .read 0 [] 3)).state.sent = [(4, readReply 3 [0, 0, 7])] ∧
        ∀ byte, (readReply 3 [0, 0, 7]).data[1]? = some byte → byte = 0 := by
  have made : (emptied.foldlM (Session.nextIf fun s x => x.Served 1 ∧ Fitting s x) newFile).any
      (fun last => last.Fits (owned .read 0 [] 3) ∧
          (last.handle (owned .read 0 [] 3)).state.sent = [(4, readReply 3 [0, 0, 7])]) = true := by
    decide +kernel
  have steps : ∀ {before x after}, Session.nextIf (fun s x => x.Served 1 ∧ Fitting s x) before x = some after →
      Guarded Fitting (Serving 1) before x after := fun made => by
    obtain ⟨⟨served, fits⟩, step⟩ := Session.nextIf_step made
    exact ⟨fits, served, step⟩
  obtain ⟨last, reached, shows⟩ := (Option.any_eq_true _ _).mp made
  obtain ⟨fits, answered⟩ := of_decide_eq_true shows
  have run : Run (Guarded Fitting (Serving 1)) newFile emptied last := Run.of_foldlM steps reached
  have cut : CutOff emptied 1 := ⟨[{ request := owned .write 0 [5, 5, 5] 3, replies := [.cleared .ok] }], _,
    [{ request := owned .write 2 [7] 1, replies := [.cleared .ok] }], rfl, rfl, Nat.zero_le 1, by decide⟩
  exact ⟨last, run, answered, fun byte here => cut_off_reads_zero (by decide) run rfl rfl fits answered rfl here cut⟩

/-- Three bytes are written, two of them cut off, and one is written behind the gap. -/
def regrown : List Exchange :=
  [{ request := owned .write 0 [5, 5, 5] 3, replies := [.cleared .ok] },
    { request := owned .setsize 1 [] 0, replies := [.cleared .ok] },
    { request := owned .write 2 [7] 1, replies := [.cleared .ok] }]

def shown : Exchange := { request := owned .read 0 [] 3, replies := [readReply 3 [5, 5, 7]] }

/-- The byte in the gap is one of those that were cut off. -/
theorem cut_off_reappears :
    ¬ ∀ first last history x, Run (Serving 1) first (history ++ [x]) last → x.request.req.type = .read →
    ∀ reply ∈ x.replies, ∀ j byte, reply.data[j]? = some byte →
        CutOff history (x.request.req.offset.toNat + j) → byte = 0 := by
  intro claim
  have made : ((regrown ++ [shown]).foldlM (Session.nextIf fun _ x => x.Served 1) newFile).isSome := by decide +kernel
  obtain ⟨last, reached⟩ := Option.isSome_iff_exists.mp made
  have run : Run (Serving 1) newFile (regrown ++ [shown]) last := Run.of_foldlM Session.nextIf_step reached
  have cut : CutOff regrown 1 := ⟨[{ request := owned .write 0 [5, 5, 5] 3, replies := [.cleared .ok] }], _,
    [{ request := owned .write 2 [7] 1, replies := [.cleared .ok] }], rfl, rfl, Nat.le_refl 1, by decide⟩
  exact absurd (claim newFile last regrown shown run rfl _ List.mem_cons_self 1 5 rfl cut) (by decide)

end Egos.Blkfile
