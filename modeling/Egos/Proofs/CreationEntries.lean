import Egos.Apps.Creation
import Egos.Proofs.DirsvrMaps
import Egos.Library.Ensures

/-! Whether a new file gets its name. The directory server is the one of grass/dirsvr.c, the
files are arrays of bytes, and any request can be refused. -/

namespace Egos.Creation
open Library Strings
open Grass (Pid)
open Dirsvr (Fid DirEntry DirRequest DirReply DIR_ENTRY_SIZE DIR_NAME_SIZE Fits arrays contents entries entryOf)

structure World where
  allocated : Fid → Bool
  disk : Dirsvr.World
  clock : Nat

/-- What the servers answer to the requests: the inode that a file server takes, and which
requests are refused. -/
structure Answers where
  takes : Nat → UInt32
  refuses : Nat → Bool

namespace World

def tick (w : World) : World := { w with clock := w.clock + 1 }

def create (w : World) (fid : Fid) : World :=
  { w with allocated := Function.update w.allocated fid true, disk := { w.disk with file := Function.update w.disk.file fid [] } }

def resize (w : World) (fid : Fid) (size : Nat) : World :=
  { w with disk := { w.disk with file := Function.update w.disk.file fid (((w.disk.file fid).take size).rightpad size 0) } }

end World

def attempt {ε α : Type} (answers : Answers) (refusal : α) (serve : Prog World ε α) : Prog World ε α := fun w =>
  if answers.refuses w.clock then .done refusal w.tick else serve w.tick

def onDisk {ε α : Type} (serve : Prog Dirsvr.World ε α) : Prog World ε α :=
  serve.focus World.disk fun disk w => { w with disk }

def asked (answers : Answers) : (c : Dirsvr.Call) → Prog World Dirsvr.Halt c.Reply
  | .fileRead file offset size => attempt answers none (onDisk (arrays (.fileRead file offset size)))
  | .fileWrite file offset data => attempt answers false (onDisk (arrays (.fileWrite file offset data)))
  | .send dst reply => onDisk (arrays (.send dst reply))

/-- The loops of the directory server end after so many pages. -/
def pages (w : World) (dir : Fid) : Nat := (entries (w.disk.file dir)).length + 1

variable (answers : Answers) (self : Pid)

/-- The directory server handles a request, and its reply goes to the process. -/
def directory (req : DirRequest) : Prog World Dirsvr.Halt (Option DirReply) := do
  let before ← .get
  (Dirsvr.handle (pages before req.dir) req self).run (asked answers)
  let after ← .get
  pure ((after.disk.sent.drop before.disk.sent.length).head?.map Prod.snd)

def servers : (c : Call) → Prog World Dirsvr.Halt c.Reply
  | .fileCreate server _ => fun w =>
    let ino := answers.takes w.clock
    if answers.refuses w.clock ∨ w.allocated { server, ino } then .done none w.tick
    else .done (some ino) (w.tick.create { server, ino })
  | .fileWrite file offset data => attempt answers false (onDisk (arrays (.fileWrite file offset data)))
  | .fileSetsize file size => attempt answers false fun w => .done true (w.resize file size)
  | .dirRequest req => attempt answers none (directory answers self req)

/-! Lookups leave the servers as they are. -/

def World.view (w : World) : (Fid → Bool) × (Fid → List UInt8) := (w.allocated, w.disk.file)

section Lookup
variable {answers : Answers} {self : Pid} {dir : Fid} {name : List UInt8} {ε α : Type}

def Reads : Dirsvr.Call → Prop
  | .fileRead .. => True
  | .fileWrite .. => False
  | .send .. => True

theorem attempt_keeps {refusal : α} {serve : Prog World ε α} (keeps : Prog.Keeps World.view serve) :
    Prog.Keeps World.view (attempt answers refusal serve) := by
  intro w
  unfold attempt
  by_cases refused : answers.refuses w.clock = true
  · rw [if_pos refused]
    rfl
  · rw [if_neg refused]
    exact keeps w.tick

theorem asked_keeps (c : Dirsvr.Call) (reads : Reads c) : Prog.Keeps World.view (asked answers c) := by
  cases c with
  | fileRead file offset size => exact attempt_keeps fun w => rfl
  | fileWrite file offset data => exact reads.elim
  | send dst reply => exact fun w => rfl

theorem lookupFrom_uses (src : Pid) (fuel offset : Nat) :
    (Dirsvr.lookupFrom dir src name fuel offset).Uses Reads fun _ => True := by
  induction fuel generalizing offset with
  | zero => trivial
  | succ fuel ih =>
    refine ⟨trivial, fun reply => ?_⟩
    cases reply with
    | none => exact ⟨trivial, fun _ => trivial⟩
    | some buf =>
      refine Effect.uses_ite ⟨trivial, fun _ => trivial⟩ (Effect.uses_ite trivial ?_)
      cases (Dirsvr.entries buf).find? fun de => Dirsvr.nameCmp de name name.length with
      | none => exact ih _
      | some de => exact ⟨trivial, fun _ => trivial⟩

def Looks : Call → Prop
  | .dirRequest req => req.type = .lookup
  | _ => False

theorem directory_keeps {req : DirRequest} (looks : req.type = .lookup) :
    Prog.Keeps World.view (directory answers self req) := by
  have uses : ∀ fuel, (Dirsvr.handle fuel req self).Uses Reads fun _ => True := by
    intro fuel
    unfold Dirsvr.handle
    rw [looks]
    exact Effect.uses_ite ⟨trivial, fun _ => trivial⟩ (lookupFrom_uses self fuel 0)
  refine .get fun before => .bind (.run asked_keeps (uses _)) fun _ => .get fun after => ?_
  exact .pure _

theorem servers_keeps (c : Call) (looks : Looks c) : Prog.Keeps World.view (servers answers self c) := by
  cases c with
  | dirRequest req => exact attempt_keeps (directory_keeps looks)
  | fileCreate => exact looks.elim
  | fileWrite => exact looks.elim
  | fileSetsize => exact looks.elim

theorem dirLookup_uses (dir : Fid) (path : List UInt8) : (dirLookup dir path).Uses Looks fun _ => True := by
  refine ⟨rfl, fun reply => ?_⟩
  match reply with
  | none => trivial
  | some { status := .ok, fid } => trivial
  | some { status := .error, fid } => trivial

theorem walk_uses (isDir : Bool) (first path : List UInt8) (dir : Fid) :
    (walk isDir first path dir).Uses Looks fun _ => True := by
  induction path generalizing first dir with
  | nil => exact Effect.uses_ite trivial (Effect.uses_bind (dirLookup_uses dir _) fun fid => trivial)
  | cons c path ih =>
    refine Effect.uses_ite (Effect.uses_bind (dirLookup_uses dir _) fun found => ?_) (ih _ _)
    cases found with
    | none => trivial
    | some fid => exact ih [] fid

theorem flookup_keeps (env : Env) (path : List UInt8) (isDir : Bool) :
    Prog.Keeps World.view ((flookup env path isDir).run (servers answers self)) :=
  .run servers_keeps (Effect.uses_ite (walk_uses ..) (walk_uses ..))

end Lookup

/-! An insertion is refused and changes nothing, or the name has the new fid. -/

section Insert
variable {answers : Answers} {self src : Pid} {dir fid : Fid} {name : List UInt8} {w : World}

/-- An answer under refusals: an error, or the answer that is given without them. -/
def Answered (src : Pid) (w : World) (quiet : Prog Dirsvr.World Dirsvr.Halt Unit) (after : World) : Prop :=
  after.allocated = w.allocated ∧ ((∃ f, after.disk = w.disk.send src { status := .error, fid := f }) ∨
    quiet w.disk = .done () after.disk)

theorem addEntry_answered (offset : Nat) :
    Prog.Ensures (fun _ => True) ((Dirsvr.addEntry dir src name fid offset).run (asked answers)) w
    fun _ => Answered src w ((Dirsvr.addEntry dir src name fid offset).run arrays) := by
  by_cases refused : answers.refuses w.clock = true
  · have ran : asked answers (.fileWrite dir offset (Dirsvr.newEntry name fid).bytes) w = .done false w.tick :=
      if_pos refused
    exact .bind_returns ran ⟨rfl, .inl ⟨fid, rfl⟩⟩
  · have ran : asked answers (.fileWrite dir offset (Dirsvr.newEntry name fid).bytes) w =
        .done true { w.tick with disk := w.disk.write dir offset (Dirsvr.newEntry name fid).bytes } := if_neg refused
    exact .bind_returns ran ⟨rfl, .inr rfl⟩

def insertPage (dir : Fid) (src : Pid) (name : List UInt8) (fid : Fid) (fuel offset : Nat) (free : Option Nat)
    (buf : List UInt8) : Dirsvr.Server Unit :=
  if buf.length = 0 then Dirsvr.addEntry dir src name fid (free.getD offset)
  else if buf.length % DIR_ENTRY_SIZE ≠ 0 then .halt (.assertion "n % DIR_ENTRY_SIZE == 0")
  else
    match Dirsvr.scanEntries name (entries buf) offset free with
    | none => Dirsvr.dirRespond src .error none
    | some free => Dirsvr.insertFrom dir src name fid fuel (offset + buf.length) free

theorem insertFrom_page {world : Dirsvr.World} (fuel offset : Nat) (free : Option Nat) :
    (Dirsvr.insertFrom dir src name fid (fuel + 1) offset free).run arrays world =
      (insertPage dir src name fid fuel offset free (((world.file dir).drop offset).take Files.PAGESIZE)).run
        arrays world := rfl

theorem insertPage_answered {fuel offset : Nat} {free : Option Nat} (buf : List UInt8)
    (later : ∀ {w : World} (offset : Nat) (free : Option Nat),
      Prog.Ensures (fun _ => True) ((Dirsvr.insertFrom dir src name fid fuel offset free).run (asked answers)) w
        fun _ => Answered src w ((Dirsvr.insertFrom dir src name fid fuel offset free).run arrays)) :
    Prog.Ensures (fun _ => True) ((insertPage dir src name fid fuel offset free buf).run (asked answers)) w
      fun _ => Answered src w ((insertPage dir src name fid fuel offset free buf).run arrays) := by
  unfold insertPage
  split_ifs
  · exact addEntry_answered _
  · exact .halt trivial
  · cases Dirsvr.scanEntries name (entries buf) offset free with
    | none => exact ⟨rfl, .inl ⟨.zero, rfl⟩⟩
    | some free => exact later _ free

theorem insertFrom_answered (fuel offset : Nat) (free : Option Nat) :
    Prog.Ensures (fun _ => True) ((Dirsvr.insertFrom dir src name fid fuel offset free).run (asked answers)) w
      fun _ => Answered src w ((Dirsvr.insertFrom dir src name fid fuel offset free).run arrays) := by
  induction fuel generalizing offset free w with
  | zero => exact .halt trivial
  | succ fuel ih =>
    by_cases refused : answers.refuses w.clock = true
    · have ran : asked answers (.fileRead dir offset Files.PAGESIZE) w = .done none w.tick := if_pos refused
      exact .bind_returns ran ⟨rfl, .inl ⟨.zero, rfl⟩⟩
    · have ran : asked answers (.fileRead dir offset Files.PAGESIZE) w =
          .done (some (((w.disk.file dir).drop offset).take Files.PAGESIZE)) w.tick := if_neg refused
      exact .bind_returns ran (insertPage_answered _ ih)

theorem dirDoInsert_answered (fuel : Nat) :
    Prog.Ensures (fun _ => True) ((Dirsvr.dirDoInsert fuel dir src name fid).run (asked answers)) w
    fun _ => Answered src w ((Dirsvr.dirDoInsert fuel dir src name fid).run arrays) := by
  unfold Dirsvr.dirDoInsert
  split_ifs
  · exact ⟨rfl, .inl ⟨.zero, rfl⟩⟩
  · exact insertFrom_answered fuel 0 none

/-! Without refusals. -/

variable {world : Dirsvr.World}

def Ends (src : Pid) (dir : Fid) (name : List UInt8) (fid : Fid) (world after : Dirsvr.World) : Prop :=
  (∃ f, after = world.send src { status := .error, fid := f }) ∨
    ∃ disk, after = disk.send src { status := .ok, fid } ∧ disk.sent = world.sent ∧ contents disk dir name = some fid

/-- A directory that does not consist of whole entries is not read to its end. -/
theorem ragged_ends {fuel offset : Nat} {free : Option Nat} (ragged : ¬DIR_ENTRY_SIZE ∣ (world.file dir).length)
    (whole : DIR_ENTRY_SIZE ∣ offset)
    (inside : offset ≤ (world.file dir).length) :
    Prog.Ensures (fun _ => True) ((Dirsvr.insertFrom dir src name fid fuel offset free).run arrays) world
        fun _ => Ends src dir name fid world := by
  induction fuel generalizing offset free with
  | zero => exact .halt trivial
  | succ fuel ih =>
    have more : offset ≠ (world.file dir).length := fun last => ragged (last ▸ whole)
    have length : (((world.file dir).drop offset).take Files.PAGESIZE).length =
        min Files.PAGESIZE ((world.file dir).length - offset) := by
      rw [List.length_take, List.length_drop]
    have page : 0 < Files.PAGESIZE := by decide
    unfold Prog.Ensures
    rw [insertFrom_page, insertPage, if_neg (by omega)]
    split_ifs with odd
    · trivial
    · cases Dirsvr.scanEntries name (entries _) offset free with
      | none => exact .inl ⟨.zero, rfl⟩
      | some free => exact ih (Nat.dvd_add whole (Nat.dvd_of_mod_eq_zero (not_not.mp odd))) (by omega)

/-- The new entry is the first one that has the name. -/
theorem entryOf_added {front back : List DirEntry} (string : Fits name) (before : ∀ de ∈ front, de.cname ≠ name) :
    entryOf (front ++ Dirsvr.newEntry name fid :: back) name = some fid := by
  rw [Dirsvr.entryOf_append, Dirsvr.entryOf_eq_none.mpr before, Option.none_or, Dirsvr.entryOf_cons,
    if_pos (Dirsvr.newEntry_cname string)]
  rfl

theorem entryOf_splice {file : List UInt8} (whole : DIR_ENTRY_SIZE ∣ file.length) (string : Fits name)
    (absent : ¬(name ≠ [] ∧ entryOf (entries file) name ≠ none)) {free : Option Nat}
    (first : free = (entries file).findIdx? (·.cname = [])) :
    (free.map (· * DIR_ENTRY_SIZE)).getD file.length ≤ file.length ∧
      entryOf (entries (splice file ((free.map (· * DIR_ENTRY_SIZE)).getD file.length)
          (Dirsvr.newEntry name fid).bytes)) name = some fid := by
  have other : name ≠ [] → ∀ de ∈ entries file, de.cname ≠ name := fun some =>
    Dirsvr.entryOf_eq_none.mp (not_not.mp fun known => absent ⟨some, known⟩)
  cases free with
  | none =>
    have used : ∀ de ∈ entries file, de.cname ≠ [] := fun de member =>
      of_decide_eq_false (List.findIdx?_eq_none_iff.mp first.symm de member)
    refine ⟨le_rfl, ?_⟩
    change entryOf (entries (splice file file.length _)) name = _
    rw [Dirsvr.entries_end fid whole string]
    refine entryOf_added string fun de member => ?_
    by_cases some : name = []
    · exact some ▸ used de member
    · exact other some de member
  | some i =>
    obtain ⟨inside, -, used⟩ := List.findIdx?_eq_some_iff_getElem.mp first.symm
    refine ⟨?_, ?_⟩
    · have slot : i * DIR_ENTRY_SIZE ≤ (entries file).length * DIR_ENTRY_SIZE := Nat.mul_le_mul_right _ inside.le
      rwa [Dirsvr.length_entries, Nat.div_mul_cancel whole] at slot
    · change entryOf (entries (splice file (i * DIR_ENTRY_SIZE) _)) name = _
      rw [Dirsvr.entries_free fid whole string inside]
      refine entryOf_added string fun de member => ?_
      by_cases some : name = []
      · obtain ⟨j, below, rfl⟩ := List.getElem_of_mem member
        have small : j < i := Nat.lt_of_lt_of_le below (List.length_take_le _ _)
        rw [List.getElem_take, some]
        exact fun empty => used j small (decide_eq_true empty)
      · exact other some de (List.mem_of_mem_take member)

/-- Without refusals a name is inserted, or the server answers with an error. -/
theorem dirDoInsert_ends (zeros : 0 ∉ name) : Prog.Ensures (fun _ => True)
    ((Dirsvr.dirDoInsert ((entries (world.file dir)).length + 1) dir src name fid).run arrays) world
        fun _ => Ends src dir name fid world := by
  unfold Dirsvr.dirDoInsert
  split_ifs with long
  · exact .inl ⟨.zero, rfl⟩
  · by_cases whole : DIR_ENTRY_SIZE ∣ (world.file dir).length
    · have string : Fits name := ⟨Nat.not_lt.mp long, zeros⟩
      have ran := Dirsvr.insertFrom_run src name fid none whole (j := 0) (Nat.zero_le _)
        (Nat.lt_succ_self ((entries (world.file dir)).length - 0))
      rw [Nat.zero_mul, List.drop_zero, Dirsvr.scanEntries_string string] at ran
      by_cases absent : name ≠ [] ∧ entryOf (entries (world.file dir)) name ≠ none
      · rw [if_pos absent] at ran
        exact .returns ran (.inl ⟨.zero, rfl⟩)
      · rw [if_neg absent] at ran
        simp only [Nat.zero_add] at ran
        obtain ⟨inside, added⟩ := @entryOf_splice fid name _ whole string absent _ rfl
        refine .returns ran (.inr ⟨world.write dir _ (Dirsvr.newEntry name fid).bytes, rfl, rfl, ?_⟩)
        exact (congrArg (fun file => entryOf (entries file) name) (Dirsvr.write_inside inside)).trans added
    · exact ragged_ends whole (Nat.dvd_zero _) (Nat.zero_le _)

structure Inserted (w : World) (dir : Fid) (name : List UInt8) (fid : Fid) (accepted : Bool) (after : World) :
    Prop where
  inodes : after.allocated = w.allocated
  refused : accepted = false → after.disk.file = w.disk.file
  entered : accepted = true → contents after.disk dir name = some fid

/-- The reply of the directory server tells how the insertion ended. -/
theorem directory_inserts (zeros : 0 ∉ name) :
    Prog.Ensures (fun _ => True) (directory answers self { type := .insert, dir, fid, name }) w
    fun reply after => ∃ status f, reply = some { status, fid := f } ∧
        Inserted w dir name fid (status = .ok) after := by
  refine .get (.bind (dirDoInsert_answered _) fun _ after answered => .get (.pure ?_))
  have ends : Ends self dir name fid w.disk after.disk :=
    answered.2.elim .inl fun quiet => (dirDoInsert_ends zeros).done quiet
  obtain ⟨f, disk⟩ | ⟨disk, last, same, entered⟩ := ends
  · have sent : after.disk.sent = w.disk.sent ++ [(self, { status := .error, fid := f })] := by rw [disk]; rfl
    refine ⟨.error, f, ?_, answered.1, fun _ => by rw [disk]; rfl, fun accepted => by cases accepted⟩
    rw [sent, List.drop_left]
    rfl
  · have sent : after.disk.sent = w.disk.sent ++ [(self, { status := .ok, fid })] := by rw [last, ← same]; rfl
    refine ⟨.ok, fid, ?_, answered.1, fun refused => (by cases refused), fun _ => by rw [last]; exact entered⟩
    rw [sent, List.drop_left]
    rfl

theorem inserted (w : World) (zeros : 0 ∉ name) :
    Prog.Ensures (fun _ => True) ((dirInsert dir name fid).run (servers answers self)) w
    fun accepted after => Inserted w dir name fid accepted after := by
  by_cases refused : answers.refuses w.clock = true
  · have ran : servers answers self (.dirRequest { type := .insert, dir, fid, name }) w = .done none w.tick :=
      if_pos refused
    exact .bind_returns ran ⟨rfl, fun _ => rfl, fun accepted => by cases accepted⟩
  · have ran : servers answers self (.dirRequest { type := .insert, dir, fid, name }) w =
        directory answers self { type := .insert, dir, fid, name } w.tick :=
      if_neg refused
    have handled := @directory_inserts answers self dir fid name w.tick zeros
    unfold Prog.Ensures at handled
    rw [← ran] at handled
    refine .bind handled fun reply after replied => ?_
    obtain ⟨status, f, rfl, kept⟩ := replied
    cases status with
    | ok => exact .pure ⟨kept.inodes, kept.refused, kept.entered⟩
    | error => exact .pure ⟨kept.inodes, kept.refused, kept.entered⟩

/-- What dir_insert returns is the status of the reply. -/
theorem dirInsert_replies {after : World} {reply : DirReply} (reached : answers.refuses w.clock = false)
    (ran : (Dirsvr.dirDoInsert (pages w dir) dir self name fid).run (asked answers) w.tick = .done () after)
    (sent : after.disk.sent = w.disk.sent ++ [(self, reply)]) :
    (dirInsert dir name fid).run (servers answers self) w = .done (decide (reply.status = .ok)) after := by
  have front : (after.disk.sent.drop w.disk.sent.length).head?.map Prod.snd = some reply := by
    rw [sent, List.drop_left]
    rfl
  have served : directory answers self { type := .insert, dir, fid, name } w.tick = .done (some reply) after :=
    (Prog.bind_done ran).trans (congrArg (Outcome.done · _) front)
  have replied : servers answers self (.dirRequest { type := .insert, dir, fid, name }) w = .done (some reply) after :=
    (if_neg (Bool.eq_false_iff.mp reached)).trans served
  refine (Prog.bind_done replied).trans ?_
  obtain ⟨status, f⟩ := reply
  cases status <;> rfl

/-- A name that does not fit into an entry is refused, whatever the servers answer. -/
theorem long_refused (answers : Answers) (self : Pid) (w : World) (dir fid : Fid) (long : DIR_NAME_SIZE < name.length) :
    ∃ after, (dirInsert dir name fid).run (servers answers self) w = .done false after := by
  cases reached : answers.refuses w.clock with
  | true =>
    have ran : servers answers self (.dirRequest { type := .insert, dir, fid, name }) w = .done none w.tick :=
      if_pos reached
    exact ⟨w.tick, Prog.bind_done ran⟩
  | false =>
    have ran : (Dirsvr.dirDoInsert (pages w dir) dir self name fid).run (asked answers) w.tick =
        .done () { w.tick with disk := w.disk.send self (Dirsvr.answer none) } := by
      unfold Dirsvr.dirDoInsert
      rw [if_pos long]
      rfl
    exact ⟨_, @dirInsert_replies answers self dir fid name w _ (Dirsvr.answer none) reached ran rfl⟩

def Calm (answers : Answers) (w : World) : Prop := ∀ n ≥ w.clock, answers.refuses n = false

theorem asked_calm (c : Dirsvr.Call) (calm : Calm answers w) : ∃ clock ≥ w.clock, ∃ reply disk,
    arrays c w.disk = .done reply disk ∧ asked answers c w = .done reply { w with disk, clock } := by
  have open' : ¬answers.refuses w.clock = true := by rw [calm w.clock le_rfl]; exact Bool.false_ne_true
  cases c with
  | fileRead file offset size => exact ⟨w.clock + 1, Nat.le_succ _, _, _, rfl, if_neg open'⟩
  | fileWrite file offset data => exact ⟨w.clock + 1, Nat.le_succ _, _, _, rfl, if_neg open'⟩
  | send dst reply => exact ⟨w.clock, le_rfl, _, _, rfl, rfl⟩

theorem run_calm {program : Dirsvr.Server Unit} {disk : Dirsvr.World} (calm : Calm answers w)
    (ran : program.run arrays w.disk = .done () disk) :
    ∃ clock, program.run (asked answers) w = .done () { w with disk, clock } := by
  induction program generalizing w with
  | pure value =>
    cases ran
    exact ⟨w.clock, rfl⟩
  | halt reason => cases ran
  | call c next ih =>
    obtain ⟨clock, later, reply, middle, first, same⟩ := asked_calm c calm
    have rest : (next reply).run arrays middle = .done () disk := (Prog.bind_done first).symm.trans ran
    obtain ⟨last, ends⟩ := @ih reply { w with disk := middle, clock } (fun n after => calm n (later.trans after)) rest
    exact ⟨last, (Prog.bind_done same).trans ends⟩

/-- Whether a name is accepted when no request is refused. -/
theorem accepts_calm (calm : Calm answers w) (formed : Dirsvr.WellFormed (w.disk.file dir))
    (valid : Dirsvr.ValidName name) :
    ∃ after, (dirInsert dir name fid).run (servers answers self) w =
        .done (decide (contents w.disk dir name = none)) after := by
  have later : Calm answers w.tick := fun n after => calm n (Nat.le_of_succ_le after)
  have ran : (Dirsvr.dirDoInsert (pages w dir) dir self name fid).run arrays w.disk = _ :=
    Dirsvr.dirDoInsert_run valid formed (Nat.lt_succ_self _)
  by_cases absent : contents w.disk dir name = none
  · rw [if_pos absent] at ran
    obtain ⟨disk, added, sent, -⟩ := Dirsvr.addEntry_run self fid formed valid absent rfl
    obtain ⟨clock, ends⟩ := run_calm later (ran.trans added)
    rw [decide_eq_true absent]
    exact ⟨_, @dirInsert_replies answers self dir fid name w _ (Dirsvr.answer (some fid))
      (calm w.clock le_rfl) ends (sent ▸ rfl)⟩
  · rw [if_neg absent] at ran
    obtain ⟨clock, ends⟩ := run_calm later ran
    rw [decide_eq_false absent]
    exact ⟨_, @dirInsert_replies answers self dir fid name w _ (Dirsvr.answer none) (calm w.clock le_rfl) ends rfl⟩

end Insert

/-! The part before the insertion. -/

section Prepare
variable {answers : Answers} {self : Pid} {w : World}

/-- A new inode is not in use before, and the other files stay. -/
structure Made (w : World) (fid : Fid) (made : World) : Prop where
  fresh : w.allocated fid = false
  inodes : made.allocated = Function.update w.allocated fid true
  others : ∀ other ≠ fid, made.disk.file other = w.disk.file other

theorem fileCreate_made (server : Pid) (mode : UInt32) :
    Prog.Ensures (fun _ => True) (servers answers self (.fileCreate server mode)) w fun ino after =>
    match ino with
    | none => after.allocated = w.allocated
    | some ino => Made w { server, ino } after := by
  unfold Prog.Ensures servers
  dsimp only
  split_ifs with refused
  · rfl
  · exact ⟨Bool.eq_false_iff.mpr fun used => refused (.inr used),
      rfl, fun other apart => Function.update_of_ne apart _ _⟩

theorem fileWrite_made {fid : Fid} {made : World} (kept : Made w fid made) (offset : Nat) (data : List UInt8) :
    Prog.Ensures (fun _ => True) (servers answers self (.fileWrite fid offset data)) made fun _ => Made w fid := by
  by_cases refused : answers.refuses made.clock = true
  · have ran : servers answers self (.fileWrite fid offset data) made = .done false made.tick := if_pos refused
    exact .returns ran ⟨kept.fresh, kept.inodes, kept.others⟩
  · have ran : servers answers self (.fileWrite fid offset data) made =
        .done true { made.tick with disk := made.disk.write fid offset data } :=
      if_neg refused
    refine .returns ran ⟨kept.fresh, kept.inodes, fun other apart => ?_⟩
    exact (Function.update_of_ne apart _ _).trans (kept.others other apart)

theorem newDirectory_made (filesvr : Pid) (mode : UInt32) (dir : Fid) (stack : Fin DIR_NAME_SIZE → UInt8) :
    Prog.Ensures (fun _ => True) ((newDirectory filesvr mode dir stack).run (servers answers self)) w fun fid after =>
      match fid with
      | none => after.allocated = w.allocated
      | some fid => Made w fid after := by
  refine .bind (fileCreate_made filesvr mode) fun ino made kept => ?_
  cases ino with
  | none => exact .pure kept
  | some ino =>
    refine .bind (fileWrite_made kept _ _) fun _ first begun => ?_
    exact .bind (fileWrite_made begun _ _) fun _ last whole => .pure whole

theorem lastComponent_subset {path last : List UInt8} (found : lastComponent path = some last) : last ⊆ path := by
  unfold lastComponent at found
  by_cases plain : chr '/' ∉ path
  · rw [if_pos plain] at found
    cases found
    exact List.Subset.refl path
  · rw [if_neg plain] at found
    have same : (path.reverse.takeWhile (· ≠ chr '/')).reverse = last := by
      revert found
      cases (path.reverse.takeWhile (· ≠ chr '/')).reverse with
      | nil => exact fun found => by cases found
      | cons c rest => exact fun found => Option.some.inj found
    intro c member
    exact List.mem_reverse.mp ((List.takeWhile_prefix _).subset (List.mem_reverse.mp (same ▸ member)))

def Located.Prepared (path : List UInt8) (w : World) (located : Located) (after : World) : Prop :=
  match located with
  | .failed => after.allocated = w.allocated
  | .found _ => True
  | .made _ last fid => Made w fid after ∧ last ⊆ path

theorem locate_prepared (env : Env) (path : List UInt8) (create : Bool) : Prog.Ensures (fun _ => True)
    ((locate env path create).run (servers answers self)) w fun located after => located.Prepared path w after := by
  unfold locate
  rw [Effect.run_bind]
  refine .bind ((flookup_keeps env path false).ensures w) fun found looked same => ?_
  have inodes : looked.allocated = w.allocated := congrArg Prod.fst same
  have files : looked.disk.file = w.disk.file := congrArg Prod.snd same
  obtain ⟨dir, _ | fid⟩ := found
  · dsimp only
    split_ifs
    · exact .pure inodes
    · cases component : lastComponent path with
      | none => exact .pure inodes
      | some last =>
        refine .bind (fileCreate_made _ _) fun ino made kept => ?_
        cases ino with
        | none => exact .pure (kept.trans inodes)
        | some ino =>
          exact .pure ⟨⟨inodes ▸ kept.fresh, inodes ▸ kept.inodes, files ▸ kept.others⟩, lastComponent_subset component⟩
  · exact .pure trivial

theorem openFile_some (truncate : Bool) (flags : UInt32) (fid : Fid) : Prog.Ensures (fun _ => True)
    ((openFile truncate flags fid).run (servers answers self)) w fun file _ => file ≠ none := by
  unfold openFile
  cases truncate with
  | false => exact .pure (Option.some_ne_none _)
  | true =>
    by_cases refused : answers.refuses w.clock = true
    · have ran : servers answers self (.fileSetsize fid 0) w = .done false w.tick := if_pos refused
      exact .bind_returns ran (.pure (Option.some_ne_none _))
    · have ran : servers answers self (.fileSetsize fid 0) w = .done true (w.tick.resize fid 0) := if_neg refused
      exact .bind_returns ran (.pure (Option.some_ne_none _))

end Prepare

/-! What fopen and dir_create2 leave. -/

def Named (w : World) (fid : Fid) : Prop := ∃ dir ≠ fid, ∃ name ≠ [], contents w.disk dir name = some fid

/-- Every inode that has been allocated has an entry. -/
def Entered (before after : World) : Prop :=
  ∀ fid, after.allocated fid = true → before.allocated fid = false → Named after fid

inductive Command where
  | fopen (path mode : List UInt8) (string : 0 ∉ path)
  | dirCreate2 (filesvr : Pid) (mode : UInt32) (dir : Fid) (path : List UInt8) (string : 0 ∉ path)

def Refused (dir : Fid) (name : List UInt8) (fid : Fid) (w after : World) : Prop :=
  (dirInsert dir name fid).run (servers answers self) w = .done false after

variable (env : Env) (stack : Fin DIR_NAME_SIZE → UInt8) (w : World)

/-- When fopen returns null, or when the directory server refuses the name in dir_create2, no
inode is left without an entry; what dir_create2 returns is found under the name. -/
def Kept : Command → Prop
  | .fopen path mode _ => ∀ after, (fopen env path mode).run (servers answers self) w = .done none after →
      Entered w after
  | .dirCreate2 filesvr mode dir path _ =>
    (∀ fid made after, (newDirectory filesvr mode dir stack).run (servers answers self) w = .done (some fid) made →
      Refused answers self dir path fid made after → Entered w after) ∧
    ∀ fid after, (dirCreate2 filesvr mode dir path stack).run (servers answers self) w = .done (some fid) after →
      contents after.disk dir path = some fid

/-- The name of a new inode is accepted, or it is there already. -/
def Accepted : Command → Prop
  | .fopen path mode _ => ∀ flags create truncate dir last fid made after,
      openFlags mode = some (flags, create, truncate) →
      (locate env path create).run (servers answers self) w = .done (.made dir last fid) made →
      Refused answers self dir last fid made after → Named w fid
  | .dirCreate2 filesvr mode dir path _ => ∀ fid made after,
      (newDirectory filesvr mode dir stack).run (servers answers self) w = .done (some fid) made →
      Refused answers self dir path fid made after → Named w fid ∧ contents made.disk dir path = some fid

section Whole
variable {answers self env stack w} {made after : World} {dir fid : Fid} {name path mode : List UInt8}

theorem contents_congr (same : after.disk.file = made.disk.file) : contents after.disk = contents made.disk := by
  unfold contents
  rw [same]

/-- Only other files count. -/
theorem named_congr (same : ∀ dir ≠ fid, after.disk.file dir = made.disk.file dir) :
    Named after fid ↔ Named made fid := by
  have found : ∀ dir ≠ fid, contents after.disk dir = contents made.disk dir := by
    intro dir apart
    unfold contents
    rw [same dir apart]
  exact exists_congr fun dir => and_congr_right fun apart => by rw [found dir apart]

theorem entered_same (same : after.allocated = w.allocated) : Entered w after := by
  intro fid used unused
  rw [same, unused] at used
  cases used

/-- A name that is refused: the new inode is in use, and the files are as before. -/
theorem refused_iff (kept : Made w fid made) (zeros : 0 ∉ name)
    (refused : Refused answers self dir name fid made after) :
    (Entered w after ↔ Named w fid) ∧ contents after.disk = contents made.disk := by
  have result := (inserted made zeros).done refused
  have files := result.refused rfl
  refine ⟨?_, contents_congr files⟩
  rw [← named_congr fun other apart => (congrFun files other).trans (kept.others other apart)]
  have inodes : after.allocated = Function.update w.allocated fid true := result.inodes.trans kept.inodes
  constructor
  · intro entered
    exact entered fid (by rw [inodes, Function.update_self]) kept.fresh
  · intro named other used unused
    by_cases same : other = fid
    · exact same ▸ named
    · rw [inodes, Function.update_of_ne same, unused] at used
      cases used

def finish (flags : UInt32) (truncate : Bool) : Located → Client (Option File)
  | .failed => pure none
  | .found fid => openFile truncate flags fid
  | .made dir last fid => do
    if ← dirInsert dir last fid then openFile truncate flags fid
    else pure none

theorem fopen_run {flags : UInt32} {create truncate : Bool} (known : openFlags mode = some (flags, create, truncate)) :
    (fopen env path mode).run (servers answers self) =
      (locate env path create).run (servers answers self) >>=
          fun located => (finish flags truncate located).run (servers answers self) := by
  rw [← Effect.run_bind]
  unfold fopen
  rw [known]
  refine congrArg (Effect.run (servers answers self))
    (congrArg (locate env path create >>= ·) (funext fun located => ?_))
  cases located <;> rfl

theorem fopen_kept_iff (string : 0 ∉ path) :
    Kept answers self env stack w (.fopen path mode string) ↔
      Accepted answers self env stack w (.fopen path mode string) := by
  constructor
  · intro kept flags create truncate dir last fid made after known located refused
    obtain ⟨prepared, inside⟩ := (locate_prepared env path create).done located
    have last : (finish flags truncate (.made dir last fid)).run (servers answers self) made = .done none after := by
      unfold finish
      rw [Effect.run_bind, Prog.bind_done refused]
      rfl
    refine (refused_iff prepared (fun zero => string (inside zero)) refused).1.mp (kept after ?_)
    rw [fopen_run known, Prog.bind_done located, last]
  · intro accepted after ran
    cases known : openFlags mode with
    | none =>
      unfold fopen at ran
      rw [known] at ran
      cases ran
      exact entered_same rfl
    | some parsed =>
      obtain ⟨flags, create, truncate⟩ := parsed
      rw [fopen_run known] at ran
      obtain ⟨located, made, first, rest⟩ := Prog.bind_returns.mp ran
      have prepared := (locate_prepared env path create).done first
      cases located with
      | failed =>
        cases rest
        exact entered_same prepared
      | found fid => exact absurd rfl ((openFile_some truncate flags fid).done rest)
      | made dir last fid =>
        unfold finish at rest
        rw [Effect.run_bind] at rest
        obtain ⟨answer, middle, insertion, rest⟩ := Prog.bind_returns.mp rest
        cases answer with
        | true => exact absurd rfl ((openFile_some truncate flags fid).done rest)
        | false =>
          cases rest
          have named := accepted flags create truncate dir last fid made after known first insertion
          exact (refused_iff prepared.1 (fun zero => string (prepared.2 zero)) insertion).1.mpr named

theorem dirCreate2_kept_iff {filesvr : Pid} {mode : UInt32} (string : 0 ∉ path) :
    Kept answers self env stack w (.dirCreate2 filesvr mode dir path string) ↔
        Accepted answers self env stack w (.dirCreate2 filesvr mode dir path string) := by
  have made : ∀ {fid middle}, (newDirectory filesvr mode dir stack).run (servers answers self) w =
      .done (some fid) middle → Made w fid middle :=
    fun first => (newDirectory_made filesvr mode dir stack).done first
  have runs : (dirCreate2 filesvr mode dir path stack).run (servers answers self) =
      (newDirectory filesvr mode dir stack).run (servers answers self) >>= fun made =>
      match made with
      | none => pure none
      | some fid => (dirInsert dir path fid).run (servers answers self) >>= fun _ => pure (some fid) := by
    unfold dirCreate2
    rw [Effect.run_bind]
    refine congrArg (_ >>= ·) (funext fun made => ?_)
    cases made with
    | none => rfl
    | some fid => exact Effect.run_bind
  constructor
  · intro kept fid middle after first refused
    have result := refused_iff (made first) string refused
    refine ⟨result.1.mp (kept.1 fid middle after first refused), result.2 ▸ kept.2 fid after ?_⟩
    rw [runs, Prog.bind_done first]
    exact Prog.bind_done refused
  · intro accepted
    refine ⟨fun fid middle after first refused =>
      (refused_iff (made first) string refused).1.mpr (accepted fid middle after first refused).1, ?_⟩
    intro fid after ran
    rw [runs] at ran
    obtain ⟨found, middle, first, rest⟩ := Prog.bind_returns.mp ran
    cases found with
    | none => cases rest
    | some fid =>
      obtain ⟨answer, last, insertion, rest⟩ := Prog.bind_returns.mp rest
      cases rest
      cases answer with
      | true => exact ((inserted middle string).done insertion).entered rfl
      | false => exact (refused_iff (made first) string insertion).2 ▸ (accepted fid middle after first insertion).2

/-- dir_create is one of the calls of dir_create2. -/
theorem dirCreate_found {string : 0 ∉ path}
    (accepted : Accepted answers self env stack w (.dirCreate2 dir.server P_FILE_DEFAULT dir path string))
    (ran : (dirCreate dir path stack).run (servers answers self) w = .done (some fid) after) :
    contents after.disk dir path = some fid :=
  ((dirCreate2_kept_iff string).mpr accepted).2 fid after ran

/-- For every path, name and answer. -/
theorem creations_entered (answers : Answers) (self : Pid) (env : Env) (stack : Fin DIR_NAME_SIZE → UInt8)
    (w : World) (command : Command) :
    Kept answers self env stack w command ↔ Accepted answers self env stack w command := by
  cases command with
  | fopen path mode string => exact fopen_kept_iff string
  | dirCreate2 filesvr mode dir path string => exact dirCreate2_kept_iff string

end Whole

/-! Two names that are not accepted. -/

def root : Fid := { server := 1, ino := 1 }

def diskWith (directory : List UInt8) : World where
  allocated fid := fid = root
  disk := { file := fun fid => if fid = root then directory else [], sent := [] }
  clock := 0

def generous : Answers := { takes := fun n => .ofNat n + 2, refuses := fun _ => false }

def longName : List UInt8 := text "a-name-of-twenty-five-byt"

def used : List UInt8 := (Dirsvr.newEntry (text "a") { server := 1, ino := 9 }).bytes

theorem names_not_accepted :
    ¬Kept generous 5 { root, cwd := root } (fun _ => 0) (diskWith []) (.fopen longName (text "w") (by decide)) ∧
      ¬Kept generous 5 { root, cwd := root } (fun _ => 0) (diskWith used)
          (.dirCreate2 1 P_FILE_DEFAULT root (text "a") (by decide)) := by
  constructor
  · intro kept
    have located := Outcome.done_of_value (show
      ((locate { root, cwd := root } longName true).run (servers generous 5) (diskWith [])).value? =
      some (.made root longName { server := 1, ino := 3 }) by decide +kernel)
    obtain ⟨after, refused⟩ := long_refused generous 5 _ root { server := 1, ino := 3 }
      (show DIR_NAME_SIZE < longName.length by decide)
    obtain ⟨dir, -, name, -, found⟩ := (fopen_kept_iff _).mp kept FILE_WRITE true true root longName _ _ after
      (by decide) located refused
    have empty : (diskWith []).disk.file dir = [] := ite_self []
    unfold contents at found
    rw [empty] at found
    cases found
  · intro kept
    have made := Outcome.done_of_value (show ((dirCreate2 1 P_FILE_DEFAULT root (text "a") fun _ => 0).run
      (servers generous 5) (diskWith used)).value? =
      some (some { server := 1, ino := 2 }) by decide +kernel)
    have found := kept.2 _ _ made
    revert found
    decide +kernel

end Egos.Creation
