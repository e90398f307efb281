import Egos.Grass.FileClients

/-! Requests whose senders are gone: when the file servers look at a process that is no
longer in the table. -/

namespace Egos.Files
open Library
open Grass (Pid Uid)

variable {α β : Type} {src : Pid}

/-- The program never looks for a process, and never follows a null pointer. -/
abbrev Settled (program : Server α) : Prop := program.Uses (fun c => ∀ pid, c ≠ .find pid) (· ≠ .nullPointer)

/-- The program looks for no process other than `src`, and not after it has given up the CPU. -/
def Finds (src : Pid) : Server α → Prop
  | .pure _ => True
  | .halt reason => reason ≠ .nullPointer
  | .call c next =>
    match c with
    | .find pid => pid = src ∧ ∀ uid, Finds src (next (some uid))
    | .send .. => Finds src (next ())
    | .garbage _ => ∀ contents, Finds src (next contents)
    | .blockRead .. => ∀ reply, Settled (next reply)
    | .blockWrite .. => ∀ reply, Settled (next reply)
    | .blockGetsize _ => ∀ reply, Settled (next reply)
    | .blockSetsize .. => ∀ reply, Settled (next reply)

theorem Settled.finds {program : Server α} (settled : Settled program) : Finds src program := by
  induction program with
  | pure value => trivial
  | halt reason => exact settled
  | call c next ih =>
    cases c with
    | find pid => exact absurd rfl (settled.1 pid)
    | send dst reply => exact ih () (settled.2 ())
    | garbage count => exact fun contents => ih contents (settled.2 contents)
    | blockRead | blockWrite | blockGetsize | blockSetsize => exact settled.2

/-- The program begins with a look at the entry of `src`, or stops at once. -/
def Looks (src : Pid) (program : Server α) : Prop :=
  (∃ next, program = .call (.find src) next ∧ next none = .halt .nullPointer ∧ ∀ uid, Settled (next (some uid))) ∨
    ∃ reason, program = .halt reason ∧ reason ≠ .nullPointer

theorem Looks.finds {program : Server α} (looks : Looks src program) : Finds src program := by
  rcases looks with ⟨next, rfl, -, rest⟩ | ⟨reason, rfl, other⟩
  · exact ⟨rfl, fun uid => (rest uid).finds⟩
  · exact other

theorem findUid_looks {next : Uid → Server α} (rest : ∀ uid, Settled (next uid)) : Looks src (findUid src >>= next) :=
  .inl ⟨_, rfl, rfl, rest⟩

theorem allowed_looks {owner other : UInt32} {stat : Option FileStat} {next : Bool → Server α}
    (rest : ∀ granted, Settled (next granted)) : Looks src (allowed owner other stat src >>= next) := by
  refine .inl ⟨_, rfl, rfl, fun uid => ?_⟩
  refine Effect.uses_bind (Effect.uses_ite trivial ?_) rest
  cases stat with
  | none => exact nofun
  | some stat => trivial

def Opens (early : Bool) (src : Pid) (refusal program : Server α) : Prop :=
  match early with
  | true => program = refusal
  | false => Looks src program

theorem opens_if {condition : Prop} [Decidable condition] {early : Bool} {refusal program : Server α}
    (rest : Opens early src refusal program) :
    Opens (decide condition || early) src refusal (if condition then refusal else program) := by
  by_cases holds : condition
  · simp [Opens, holds]
  · simpa [holds] using rest

/-- A call other than proc_find. -/
theorem settled_call {c : Call} {next : c.Reply → Server α} (other : ∀ pid, c ≠ .find pid)
    (rest : ∀ reply, Settled (next reply)) :
    Settled (call c >>= next) := ⟨other, rest⟩

/-- The program looks for no process, and stops only at the end of a buffer. -/
abbrev Plain (program : Server α) : Prop := program.Uses (fun c => ∀ pid, c ≠ .find pid) (· = .overflow)

theorem Plain.settled {program : Server α} (plain : Plain program) : Settled program :=
  plain.mono (fun _ other => other) (by rintro _ rfl; nofun)

theorem plain_call {c : Call} {next : c.Reply → Server α} (other : ∀ pid, c ≠ .find pid)
    (rest : ∀ reply, Plain (next reply)) :
    Plain (call c >>= next) := ⟨other, rest⟩

theorem plain_respond {status : Status} : Plain (respond status src) := plain_call nofun fun _ => trivial

theorem plain_freeReply {ext : UInt32} : Plain (freeReply ext) := Effect.uses_ite trivial rfl

section Runs
variable {τ : Type} {serve : τ → List UInt8 → Pid → Server τ} {refuse : τ → Pid → Server τ}
    {early : τ → List UInt8 → Bool}

theorem Finds.rpc {c : Call} {next : c.Reply → Server α} (finds : Finds src (.call c next)) (rpc : c.isRpc = true) :
    Settled (.call c next : Server α) := by
  cases c with
  | find | send | garbage => cases rpc
  | blockRead | blockWrite | blockGetsize | blockSetsize => exact ⟨nofun, finds⟩

def Sound (w : World τ) : Prop :=
  match w.control with
  | .waiting _ => True
  | .handling program => Settled program ∨ ∃ src, (w.uid src).isSome ∧ Finds src program
  | .stopped reason => reason ≠ .nullPointer

/-- While another process runs the server has looked for everybody it needs. -/
theorem Sound.yields {w : World τ} (sound : Sound w) (yields : w.control.yields = true) {changed : World τ}
    (same : changed.control = w.control) : Sound changed := by
  unfold Sound at sound ⊢
  rw [same]
  cases control : w.control with
  | waiting state => trivial
  | stopped reason => simpa only [control] using sound
  | handling program =>
    simp only [control] at sound yields
    refine .inl ?_
    rcases sound with settled | ⟨src, -, finds⟩
    · exact settled
    · cases program with
      | pure | halt => cases yields
      | call c next => exact finds.rpc yields

theorem Sound.proceed {w after : World τ} {answer : Answer} (sound : Sound w) (moved : w.proceed answer = some after) :
    Sound after := by
  unfold World.proceed at moved
  unfold Sound at sound
  cases control : w.control with
  | waiting state => simp only [control] at moved; cases moved
  | stopped reason => simp only [control] at moved; cases moved
  | handling program =>
    simp only [control] at moved sound
    cases program with
    | pure state =>
      cases moved
      trivial
    | halt reason =>
      cases moved
      exact sound.elim id fun ⟨_, _, other⟩ => other
    | call c next =>
      obtain ⟨reply, given, rfl⟩ := Option.map_eq_some_iff.mp moved
      rcases sound with settled | ⟨src, known, finds⟩
      · exact .inl (settled.2 reply)
      cases c with
      | find pid =>
        cases answer with
        | none =>
          obtain ⟨uid, entry⟩ := Option.isSome_iff_exists.mp known
          obtain ⟨rfl, rest⟩ := finds
          cases given
          refine .inr ⟨pid, known, ?_⟩
          rw [entry]
          exact rest uid
        | block | success | size | memory => cases given
      | send dst message => exact .inr ⟨src, known, finds⟩
      | garbage count => exact .inr ⟨src, known, finds reply⟩
      | blockRead | blockWrite | blockGetsize | blockSetsize => exact .inl (finds reply)

theorem Sound.step (opens : ∀ state msg src, Opens (early state msg) src (refuse state src) (serve state msg src))
    (settled : ∀ state src, Settled (refuse state src)) {w after : World τ} {event : Event} (sound : Sound w)
    (meets : Meets early w event) (moved : World.Step serve w event after) : Sound after := by
  unfold World.Step World.next at moved
  cases event with
  | request src msg =>
    obtain ⟨possible, same⟩ := Option.ite_none_right_eq_some.mp moved
    exact sound.yields (Bool.and_elim_left possible) (Option.some.inj same ▸ rfl)
  | release pid =>
    obtain ⟨possible, same⟩ := Option.ite_none_right_eq_some.mp moved
    exact sound.yields possible (Option.some.inj same ▸ rfl)
  | create pid uid =>
    obtain ⟨possible, same⟩ := Option.ite_none_right_eq_some.mp moved
    exact sound.yields (Bool.and_elim_left possible) (Option.some.inj same ▸ rfl)
  | receive =>
    cases control : w.control with
    | handling program => simp only [control] at moved; cases moved
    | stopped reason => simp only [control] at moved; cases moved
    | waiting state =>
      cases queued : w.mbox with
      | nil => simp only [control, queued] at moved; cases moved
      | cons first rest =>
        simp only [control, queued] at moved
        cases moved
        have opened := opens state first.2 first.1
        rcases meets state first.1 first.2 rest control queued with known | refused
        · cases decided : early state first.2 with
          | true =>
            rw [decided] at opened
            exact .inl (opened ▸ settled state first.1)
          | false =>
            rw [decided] at opened
            exact .inr ⟨first.1, known, opened.finds⟩
        · rw [refused] at opened
          exact .inl (opened ▸ settled state first.1)
  | proceed answer => exact sound.proceed moved

/-- A request of a sender that is gone is refused, and the server goes back to its loop. -/
def World.refused (w : World τ) (state : τ) (src : Pid) (rest : List (Pid × List UInt8)) : World τ :=
  { w with mbox := rest, sent := w.sent ++ [(src, .cleared .error)], control := .waiting state }

theorem refused_iff (opens : ∀ state msg src, Opens (early state msg) src (refuse state src) (serve state msg src))
    (refusal : ∀ state src, refuse state src = .call (.send src (.cleared .error)) fun _ => .pure state)
    {w : World τ} {state : τ} {msg : List UInt8} {rest : List (Pid × List UInt8)} (control : w.control = .waiting state)
    (queued : w.mbox = (src, msg) :: rest) (gone : w.uid src = none) :
    early state msg = true ↔ w.steps serve [.receive, .proceed .none, .proceed .none] =
        some (w.refused state src rest) := by
  have opened := opens state msg src
  have received : w.next serve .receive = some { w with mbox := rest, control := .handling (serve state msg src) } := by
    simp only [World.next, control, queued]
  simp only [World.steps, List.foldlM_cons, List.foldlM_nil, received, Option.bind_eq_bind, Option.bind_some]
  cases decided : early state msg with
  | true =>
    rw [decided] at opened
    have program : serve state msg src = .call (.send src (.cleared .error)) fun _ => .pure state :=
      opened.trans (refusal state src)
    simp [program, World.next, World.proceed, Call.answer, Call.sends, World.refused]
  | false =>
    rw [decided] at opened
    rcases opened with ⟨next, program, stops, -⟩ | ⟨reason, program, -⟩
    · simp [program, World.next, World.proceed, Call.answer, gone, stops, World.refused]
    · simp [program, World.next, World.proceed]

end Runs
end Egos.Files

namespace Egos.Blkfile
open Library Files
open Grass (Pid)

variable {cache : Cache} {req : FileRequest} {src : Pid} {ino : UInt32}

theorem plain_refuse : Plain (refuse cache src) := Effect.uses_bind plain_respond fun _ => trivial

theorem plain_readBlocks (rest : Nat) :
    ∀ {i : Nat} {offset : UInt32} {addr : Buffer}, Plain (readBlocks ino rest i offset addr) := by
  induction rest with
  | zero => exact trivial
  | succ rest ih =>
    intro i offset addr
    refine plain_call nofun fun reply => ?_
    cases reply with
    | none => trivial
    | some block => exact Effect.uses_ite rfl ih

theorem plain_multiblockRead {offset nblocks : UInt32} {addr : Buffer} :
    Plain (multiblockRead ino offset addr nblocks) :=
  Effect.uses_bind (plain_readBlocks _) fun _ => trivial

theorem plain_writeBlocks (rest : Nat) :
    ∀ {i : Nat} {offset : UInt32} {addr : Buffer}, Plain (writeBlocks ino rest i offset addr) := by
  induction rest with
  | zero => exact trivial
  | succ rest ih =>
    intro i offset addr
    refine Effect.uses_ite rfl (plain_call nofun fun reply => ?_)
    cases reply with
    | false => trivial
    | true => exact ih

theorem plain_flush : Plain (flushStatCache cache) := Effect.uses_bind (plain_writeBlocks _) fun _ => trivial

theorem plain_start : Plain start := by
  refine Effect.uses_bind (plain_call nofun fun size => ?_) fun loaded => ?_
  · exact Effect.uses_ite trivial (Effect.uses_bind (plain_readBlocks _) fun _ => trivial)
  · cases loaded with
    | some cache => trivial
    | none => exact Effect.uses_bind plain_flush fun _ => trivial

theorem plain_freed {ext : UInt32} : Plain (freeReply ext >>= fun _ => refuse cache src) :=
  Effect.uses_bind plain_freeReply fun _ => plain_refuse

theorem plain_replied {ext : UInt32} {reply : FileReply} :
    Plain (call (.send src reply) >>= fun _ => freeReply ext >>= fun _ => pure cache) :=
  plain_call nofun fun _ => Effect.uses_bind plain_freeReply fun _ => trivial

theorem plain_readContents {stat : FileStat} : Plain (readContents cache req stat src) := by
  refine Effect.uses_bind plain_multiblockRead fun result => ?_
  cases result with
  | none => exact plain_freed
  | some result => exact Effect.uses_ite plain_freed (Effect.uses_ite rfl plain_replied)

theorem plain_put {stat : FileStat} {offset : UInt64} {data : List UInt8} {size : UInt32} :
    Plain (put cache ino stat offset data size) := by
  refine Effect.uses_bind ?_ fun contents => ?_
  · exact Effect.uses_ite trivial (Effect.uses_bind plain_multiblockRead fun _ => trivial)
  · cases contents with
    | none => trivial
    | some contents =>
      refine Effect.uses_ite rfl (Effect.uses_bind (plain_writeBlocks _) fun written => ?_)
      cases written with
      | false => trivial
      | true => exact Effect.uses_bind plain_flush fun _ => trivial

theorem plain_respondUnless {success : Bool} : Plain (respondUnless success src) :=
  Effect.uses_ite trivial plain_respond

/-- The end of a request that changes the stat cache: it is flushed before the reply. -/
theorem plain_flushed {reply : FileReply} :
    Plain (do flushStatCache cache; call (.send src reply); pure cache : Server Cache) :=
  Effect.uses_bind plain_flush fun _ => plain_call nofun fun _ => trivial

section Handlers
variable {data : List UInt8}

theorem create_opens : Opens cache.unallocated.isNone src (refuse cache src) (doCreate cache req src) := by
  unfold doCreate
  cases cache.unallocated with
  | none => rfl
  | some ino => exact findUid_looks fun uid => plain_flushed.settled

theorem delete_opens : Opens (MAX_INODES < req.ino.toNat) src (refuse cache src) (doDelete cache req src) := by
  unfold doDelete
  rw [← Bool.or_false (decide _)]
  refine opens_if (allowed_looks fun granted => ?_)
  cases granted with
  | false => exact plain_refuse.settled
  | true =>
    cases cache.entry req.ino with
    | none => exact nofun
    | some stat =>
      refine Effect.uses_ite (Effect.uses_bind plain_flush.settled fun _ => settled_call nofun
        fun success => ?_) (settled_call nofun fun _ => trivial)
      exact Effect.uses_bind plain_respondUnless.settled fun _ => settled_call nofun fun _ => trivial

theorem chown_opens : Opens (cache.allocated req.ino).isNone src (refuse cache src) (doChown cache req src) := by
  unfold doChown
  cases cache.allocated req.ino with
  | none => rfl
  | some stat => exact findUid_looks fun uid => Effect.uses_ite plain_refuse.settled plain_flushed.settled

theorem chmod_opens : Opens (cache.allocated req.ino).isNone src (refuse cache src) (doChmod cache req src) := by
  unfold doChmod
  cases cache.allocated req.ino with
  | none => rfl
  | some stat => exact findUid_looks fun uid => Effect.uses_ite plain_refuse.settled plain_flushed.settled

theorem read_opens : Opens (cache.allocated req.ino).isNone src (refuse cache src) (doRead cache req src) := by
  unfold doRead
  cases cache.allocated req.ino with
  | none => rfl
  | some stat =>
    refine allowed_looks fun granted => ?_
    cases granted with
    | false => exact plain_refuse.settled
    | true => exact Effect.uses_ite plain_readContents.settled plain_replied.settled

theorem write_opens : Opens ((cache.allocated req.ino).isNone || req.size.toNat ≠ data.length) src (refuse cache src)
    (doWrite cache req data src) := by
  unfold doWrite
  cases cache.allocated req.ino with
  | none => rfl
  | some stat =>
    rw [Option.isNone_some, Bool.false_or, ← Bool.or_false (decide _)]
    refine opens_if (allowed_looks fun granted => ?_)
    cases granted with
    | false => exact plain_refuse.settled
    | true =>
      refine Effect.uses_bind plain_put.settled fun written => ?_
      cases written with
      | none => exact plain_refuse.settled
      | some cache => exact Effect.uses_bind plain_respond.settled fun _ => trivial

theorem stat_opens : Opens (cache.allocated req.ino).isNone src (refuse cache src) (doStat cache req src) := by
  unfold doStat
  cases cache.allocated req.ino with
  | none => rfl
  | some stat =>
    refine allowed_looks fun granted => ?_
    cases granted with
    | false => exact plain_refuse.settled
    | true => exact settled_call nofun fun _ => trivial

theorem setsize_opens : Opens ((cache.allocated req.ino).all fun stat => stat.stSize < req.offset) src
    (refuse cache src)
    (doSetsize cache req src) := by
  unfold doSetsize
  cases cache.allocated req.ino with
  | none => rfl
  | some stat =>
    rw [Option.all_some, ← Bool.or_false (decide _)]
    refine opens_if (allowed_looks fun granted => ?_)
    cases granted with
    | false => exact plain_refuse.settled
    | true =>
      refine settled_call nofun fun success => Effect.uses_bind plain_respondUnless.settled fun _ => ?_
      exact Effect.uses_bind plain_flush.settled fun _ => Effect.uses_bind plain_respond.settled fun _ => trivial

end Handlers

/-- A request that is not refused at once begins with a look at its sender. -/
theorem serve_opens (cache : Cache) (msg : List UInt8) (src : Pid) :
    Opens (refusesEarly cache msg) src (refuse cache src) (serve cache msg src) := by
  unfold refusesEarly serve
  cases FileRequest.decode msg with
  | none => exact .inr ⟨_, rfl, nofun⟩
  | some received =>
    obtain ⟨req, data⟩ := received
    dsimp only
    unfold handle
    cases type : req.type with
    | create => exact create_opens
    | delete => exact delete_opens
    | chown => exact chown_opens
    | chmod => exact chmod_opens
    | read => exact read_opens
    | write => exact write_opens
    | stat => exact stat_opens
    | setsize => exact setsize_opens
    | setFlags => exact .inr ⟨_, rfl, nofun⟩
    | unknown => exact .inr ⟨_, rfl, nofun⟩

end Egos.Blkfile

namespace Egos.Ramfile
open Library Egos.Files
open Grass (Pid)

variable {files : Files} {file : File} {req : FileRequest} {src : Pid} {ino : UInt32} {data : List UInt8}

theorem plain_refuse : Plain (refuse files src) := Effect.uses_bind plain_respond fun _ => trivial

theorem plain_replied {ext : UInt32} {reply : FileReply} :
    Plain (call (.send src reply) >>= fun _ => freeReply ext >>= fun _ => pure files) :=
  plain_call nofun fun _ => Effect.uses_bind plain_freeReply fun _ => trivial

theorem plain_realloc {length : Nat} : Plain (file.realloc length) := plain_call nofun fun _ => trivial

theorem plain_ramfilePut {offset : UInt64} {size : UInt32} : Plain (ramfilePut file offset data size) := by
  refine Effect.uses_bind ?_ fun grown => Effect.uses_ite rfl trivial
  exact Effect.uses_ite (Effect.uses_bind plain_realloc fun _ => trivial) trivial

/-- The table is looked at before the inode number is checked. -/
theorem allocatedFirst_opens {rest : File → Server Files} (looks : ∀ file, Looks src (rest file)) :
    Opens (req.ino.toNat < MAX_FILES && (files.allocated req.ino).isNone) src (refuse files src)
      (files.allocatedFirst req.ino >>= fun found => match found with | none => refuse files src | some file => rest file) := by
  unfold Files.allocatedFirst Files.allocated Files.file
  by_cases inside : req.ino.toNat < MAX_FILES
  · simp only [inside, decide_true, Bool.true_and, ↓reduceDIte, Option.filter_some]
    cases (files ⟨req.ino.toNat, inside⟩).stat.stAlloc with
    | true => exact looks _
    | false => rfl
  · simp only [inside, decide_false, Bool.false_and, ↓reduceDIte]
    exact .inr ⟨_, rfl, nofun⟩

theorem create_opens : Opens files.unallocated.isNone src (refuse files src) (doCreate files req src) := by
  unfold doCreate
  cases files.unallocated with
  | none => rfl
  | some ino => exact findUid_looks fun uid => settled_call nofun fun _ => trivial

theorem chown_opens : Opens (files.allocated req.ino).isNone src (refuse files src) (doChown files req src) := by
  unfold doChown
  cases files.allocated req.ino with
  | none => rfl
  | some file =>
    exact findUid_looks fun uid => Effect.uses_ite plain_refuse.settled (settled_call nofun fun _ => trivial)

theorem chmod_opens : Opens (files.allocated req.ino).isNone src (refuse files src) (doChmod files req src) := by
  unfold doChmod
  cases files.allocated req.ino with
  | none => rfl
  | some file =>
    exact findUid_looks fun uid => Effect.uses_ite plain_refuse.settled (settled_call nofun fun _ => trivial)

theorem read_opens : Opens (req.ino.toNat < MAX_FILES && (files.allocated req.ino).isNone) src (refuse files src)
    (doRead files req src) := by
  refine allocatedFirst_opens fun file => allowed_looks fun granted => ?_
  cases granted with
  | false => exact plain_refuse.settled
  | true => exact Effect.uses_ite (Effect.uses_ite nofun plain_replied.settled) plain_replied.settled

theorem write_opens : Opens ((files.allocated req.ino).isNone || req.size.toNat ≠ data.length) src (refuse files src)
    (doWrite files req data src) := by
  unfold doWrite
  cases files.allocated req.ino with
  | none => rfl
  | some file =>
    rw [Option.isNone_some, Bool.false_or, ← Bool.or_false (decide _)]
    refine opens_if (allowed_looks fun granted => ?_)
    cases granted with
    | false => exact plain_refuse.settled
    | true =>
      exact Effect.uses_bind plain_ramfilePut.settled fun _ => Effect.uses_bind plain_respond.settled fun _ => trivial

theorem stat_opens : Opens (req.ino.toNat < MAX_FILES && (files.allocated req.ino).isNone) src (refuse files src)
    (doStat files req src) := by
  refine allocatedFirst_opens fun file => allowed_looks fun granted => ?_
  cases granted with
  | false => exact plain_refuse.settled
  | true => exact settled_call nofun fun _ => trivial

theorem setsize_opens : Opens ((files.allocated req.ino).all fun file => file.stat.stSize < req.offset) src
    (refuse files src)
    (doSetsize files req src) := by
  unfold doSetsize
  cases files.allocated req.ino with
  | none => rfl
  | some file =>
    rw [Option.all_some, ← Bool.or_false (decide _)]
    refine opens_if (allowed_looks fun granted => ?_)
    cases granted with
    | false => exact plain_refuse.settled
    | true =>
      exact Effect.uses_bind plain_realloc.settled fun _ => Effect.uses_bind plain_respond.settled fun _ => trivial

/-- A request that is not refused at once begins with a look at its sender, or stops the server. -/
theorem serve_opens (files : Files) (msg : List UInt8) (src : Pid) :
    Opens (refusesEarly files msg) src (refuse files src) (serve files msg src) := by
  unfold refusesEarly serve
  cases FileRequest.decode msg with
  | none => exact .inr ⟨_, rfl, nofun⟩
  | some received =>
    obtain ⟨req, data⟩ := received
    dsimp only
    unfold handle
    cases type : req.type with
    | create => exact create_opens
    | chown => exact chown_opens
    | chmod => exact chmod_opens
    | read => exact read_opens
    | write => exact write_opens
    | stat => exact stat_opens
    | setsize => exact setsize_opens
    | delete => exact .inr ⟨_, rfl, nofun⟩
    | setFlags => exact .inr ⟨_, rfl, nofun⟩
    | unknown => exact .inr ⟨_, rfl, nofun⟩

end Egos.Ramfile

namespace Egos.Files
open Library
open Grass (Pid Uid)

/-- A server that is sent requests by processes that may be gone: in every run in which it
receives only what the condition allows it follows no null pointer, and a request whose
sender is gone is refused exactly if the condition allows it. -/
structure Forgiving {τ : Type} (serve : τ → List UInt8 → Pid → Server τ) (early : τ → List UInt8 → Bool)
    (start : World τ) : Prop where
  safe : ∀ {events w}, Run (Guarded (Meets early) (World.Step serve)) start events w → w.control ≠ .stopped .nullPointer
  exact : ∀ {w : World τ} {state src msg rest}, w.control = .waiting state → w.mbox = (src, msg) :: rest →
    w.uid src = none →
    (early state msg = true ↔ w.steps serve [.receive, .proceed .none, .proceed .none] =
      some (w.refused state src rest))

theorem Sound.run {τ : Type} {serve : τ → List UInt8 → Pid → Server τ} {refuse : τ → Pid → Server τ}
    {early : τ → List UInt8 → Bool}
    (opens : ∀ state msg src, Opens (early state msg) src (refuse state src) (serve state msg src))
    (settled : ∀ state src, Settled (refuse state src)) {start w : World τ} {events : List Event}
    (run : Run (Guarded (Meets early) (World.Step serve)) start events w) (sound : Sound start) :
    w.control ≠ .stopped .nullPointer := by
  have kept : ∀ (before : World τ) (event : Event) (after : World τ), Sound before →
      Guarded (Meets early) (World.Step serve) before event after → Sound after :=
    fun before event after holds moved => holds.step opens settled moved.1 moved.2
  have holds := run.invariant kept sound
  intro stopped
  unfold Sound at holds
  rw [stopped] at holds
  exact holds rfl

/-- Both file servers look for the sender of a request when they handle it. -/
theorem dead_senders (uid : Pid → Option Uid) :
    Forgiving Blkfile.serve Blkfile.refusesEarly (.boot uid (.handling Blkfile.start)) ∧
    Forgiving Ramfile.serve Ramfile.refusesEarly (.boot uid (.waiting Ramfile.Files.new)) where
  left :=
    { safe := fun run => Sound.run Blkfile.serve_opens (fun _ _ => Blkfile.plain_refuse.settled) run (.inl Blkfile.plain_start.settled)
      exact := refused_iff Blkfile.serve_opens fun _ _ => rfl }
  right :=
    { safe := fun run => Sound.run Ramfile.serve_opens (fun _ _ => Ramfile.plain_refuse.settled) run trivial
      exact := refused_iff Ramfile.serve_opens fun _ _ => rfl }

/-- FILE_CREATE -/
def createMessage : List UInt8 := 1 :: List.replicate 31 0

/-- A process is released while its request is queued, and then the request is handled. -/
def orphaned (src : Pid) : List Event :=
  [.request src createMessage, .release src, .receive, .proceed .none, .proceed .none]

/-- The block server has no stat cache, and the new one is written. -/
def newDisk : List Event := .proceed (.size none) :: List.replicate 3 (.proceed (.success true)) ++ [.proceed .none]

private def crashed {τ : Type} (w : World τ) : Bool :=
  match w.control with
  | .stopped reason => reason = .nullPointer
  | _ => false

private theorem crashes {τ : Type} {serve : τ → List UInt8 → Pid → Server τ} {start : World τ} {events : List Event}
    (ends : (start.steps serve events).any crashed = true) :
    ∃ w, Run (World.Step serve) start events w ∧ w.control = .stopped .nullPointer := by
  cases ran : start.steps serve events with
  | none => rw [ran] at ends; cases ends
  | some w =>
    rw [ran] at ends
    refine ⟨w, Run.of_foldlM id ran, ?_⟩
    cases control : w.control with
    | waiting state => simp [crashed, control] at ends
    | handling program => simp [crashed, control] at ends
    | stopped reason => simpa [crashed, control] using ends

/-- Either server follows a null pointer when it handles the request of a client that has been killed. -/
theorem dead_sender_crashes :
    (∃ w, Run (World.Step Blkfile.serve) (.boot (fun _ => some 5) (.handling Blkfile.start)) (newDisk ++ orphaned 7) w ∧
      w.control = .stopped .nullPointer) ∧
    ∃ w, Run (World.Step Ramfile.serve) (.boot (fun _ => some 5) (.waiting Ramfile.Files.new)) (orphaned 7) w ∧
      w.control = .stopped .nullPointer :=
  ⟨crashes (by decide +kernel), crashes (by decide +kernel)⟩

end Egos.Files
