import Egos.Proofs.ServerEnds
import Egos.Proofs.ServerReplies

/-! The block file server and the directory server answer their requests. -/

namespace Egos.Servers
open Library Library.Rpc
open Grass (Pid Uid)

variable {pid : Name → Pid} {limit : Nat}

theorem file_completes (state : Blkfile.Cache) {msg : List UInt8} {src : Pid} (good : Good pid .blkfile msg) :
    ((server pid (limit + 1) .blkfile).serve state msg src).Completes (Asks (Good pid) .blkfile)
        (Gives (@Answers pid _ limit) .blkfile src) fun _ => True := by
  obtain ⟨req, data, decoded, bounded⟩ := good
  have ends : FileEnds src (Blkfile.serve state msg src) fun _ => True := by
    unfold Blkfile.serve
    rw [decoded]
    exact handle_ends bounded
  refine ends.mono (fun c _ j msg asked => ?_) fun c reply gives => ?_
  · cases c <;> cases asked
  · cases c with
    | find other =>
      rcases gives with sends | ⟨table, there, found, -⟩
      · exact absurd rfl sends
      · rintro rfl
        exact found ▸ there
    | _ => trivial

theorem dir_completes {msg : List UInt8} {src : Pid} (good : Good pid .directory msg) :
    ((server pid (limit + 1) .directory).serve () msg src).Completes (Asks (Good pid) .directory)
      (Gives (@Answers pid _ limit) .directory src) fun _ => True := by
  refine (dirServe_ends good).mono (fun c asked => asked) fun c reply gives => ?_
  cases c with
  | fileRead dir offset size =>
    rcases gives with sends | ⟨-, -, -, given⟩
    · exact absurd rfl sends
    · exact given
  | _ => trivial

/-- The servers answer good requests, when the block server does not refuse a size and directories
are as they should be. -/
theorem serving (apart : pid .blkfile ≠ pid .directory) :
    Serving pid (Good pid) (@Answers pid (limit + 1) limit) rank where
  apart i j same := by
    cases i <;> cases j
    · rfl
    · exact absurd same apart
    · exact absurd same.symm apart
    · rfl
  once i state msg src good := by
    cases i with
    | blkfile => exact serve_replies state msg src
    | directory =>
      have answerable : Dirsvr.DirOp.ofCode (Files.wordAt (msg.take (8 + Dirsvr.MAX_PATH_NAME)) 0) ≠ .remove := by
        rcases good.2.1 with lookup | insert
        · rw [lookup]
          exact nofun
        · rw [insert]
          exact nofun
      exact (dirServe_replies answerable).mono fun _ _ _ => trivial
  completes i state msg src good := by
    cases i with
    | blkfile => exact file_completes state good
    | directory => exact dir_completes good
  silent i op calls := by
    cases i with
    | blkfile => cases op <;> first | rfl | exact absurd rfl calls
    | directory => cases op <;> first | rfl | exact absurd rfl calls
  below i op j msg asked := by
    cases i with
    | blkfile => cases op <;> cases asked
    | directory =>
      have file {server : Pid} {sent : List UInt8} (asked : rpc pid server sent = some (some (j, msg))) :
          rank j < rank .directory := by
        unfold rpc at asked
        split_ifs at asked
        · cases asked
          exact Nat.zero_lt_one
        · cases asked
      cases op with
      | fileRead dir offset size => exact file asked
      | fileWrite dir offset data => exact file asked
      | send dst reply => cases asked
  sends i op sends := by
    cases i with
    | blkfile => cases op <;> first | exact ⟨()⟩ | exact absurd rfl sends
    | directory => cases op <;> first | exact ⟨()⟩ | exact absurd rfl sends
  returns i table op silent := by
    cases i with
    | blkfile =>
      cases op with
      | find other => exact ⟨table other, rfl, trivial⟩
      | send dst reply => cases silent
      | blockRead ino offset => exact ⟨none, trivial, trivial⟩
      | blockWrite ino offset block => exact ⟨false, trivial, trivial⟩
      | blockGetsize ino => exact ⟨none, trivial, trivial⟩
      | blockSetsize ino size => exact ⟨true, trivial, rfl⟩
      | garbage count => exact ⟨fun _ => 0, trivial, trivial⟩
    | directory =>
      cases op with
      | fileRead dir offset size => exact ⟨none, trivial, trivial⟩
      | fileWrite dir offset data => exact ⟨false, trivial, trivial⟩
      | send dst reply => cases silent

/-- In every run, a request whose handling has ended has been answered once, the reply to a process
is the one to the request it waits with, and where a server has a request some server can go on. In
every infinite run in which no server is passed over for ever, each request is answered exactly
once, whatever others are made meanwhile. -/
theorem requests_answered {w : World (server pid (limit + 1))} (apart : pid .blkfile ≠ pid .directory)
    (initial : w.Initial pid) :
    (∀ events after, Run (Guarded (Steady (Good pid) (Answers limit)) (Step pid)) w events after →
      after.Matched ∧ ((∃ i r, after.Held i r) → ∃ i, Able pid (Good pid) (Answers limit) after i)) ∧
    ∀ states events, states 0 = w → Endless (Guarded (Steady (Good pid) (Answers limit)) (Step pid)) states events →
      Fair pid (Good pid) (Answers limit) states events →
      ∀ n id, id < (states n).issued → ∃ m, n ≤ m ∧ ∀ l, m ≤ l → (states l).answered.count id = 1 := by
  have serves : Serving pid (Good pid) (@Answers pid (limit + 1) limit) rank := serving apart
  constructor
  · intro events after run
    have live : Live pid (Good pid) (Answers limit) rank after :=
      run.invariant (fun _ _ _ live step => live.step serves step) initial.live
    exact ⟨live.sound.matched, fun ⟨i, r, held⟩ => live.unstuck serves held⟩
  · rintro states events rfl endless fair n id issued
    exact served serves initial endless fair issued

/-! Runs with one client, which truncates the only file. -/

def pids : Name → Pid
  | .blkfile => 5
  | .directory => 6

def boot (cache : Blkfile.Cache) : World (server pids 4) where
  table p := if p < 10 then some 0 else none
  waits _ := none
  mbox _ := []
  control
    | .blkfile => .waiting cache
    | .directory => .waiting ()
  issued := 0
  answered := []
  returned := []

theorem boot_initial (cache : Blkfile.Cache) : (boot cache).Initial pids where
  waits _ := rfl
  mbox _ := rfl
  control i := by cases i <;> exact ⟨_, rfl⟩
  issued := rfl
  answered := rfl
  returned := rfl
  servers j := by cases j <;> exact Option.some_ne_none 0

def oneFile : Blkfile.Cache := Function.update (fun _ => .zero) 1 { Files.FileStat.zero with stAlloc := true }

def truncation : Files.FileRequest := { type := .setsize, ino := 1, offset := 0, size := 0, uid := 0, mode := 0 }

theorem serve_truncation :
    Blkfile.serve oneFile (Blkfile.message 7 truncation []) 7 = Blkfile.doSetsize oneFile truncation 7 := by
  unfold Blkfile.serve
  rw [Blkfile.decode_message rfl]
  rfl

def truncated : Blkfile.Cache := oneFile.put 1 { oneFile 1 with stSize := 0 }

/-- The request is handled; the block server answers with `resized`, and the table is not written. -/
def truncate (resized : Bool) (between : List (Event (server pids 4))) : List (Event (server pids 4)) :=
  [.request 7 .blkfile (Blkfile.message 7 truncation []),
    .receive .blkfile,
    .proceed .blkfile (Files.Call.find 7) (some 0),
    .call .blkfile,
    .proceed .blkfile (Files.Call.blockSetsize 1 0) resized] ++ between ++
  [.proceed .blkfile (Files.Call.blockWrite 0 0 (truncated.buffer.block 0)) false,
    .reply .blkfile]

theorem both {p : Name → Prop} (first : p .blkfile) (second : p .directory) (j : Name) : p j := by
  cases j <;> assumption

def gone (w : World (server pids 4)) : World (server pids 4) :=
  { w with table := Function.update w.table 8 none, waits := Function.update w.waits 8 none }

def restarts (w : World (server pids 4)) (n : Nat) : World (server pids 4) := if n % 2 = 0 then w else gone w

def restart (n : Nat) : Event (server pids 4) := if n % 2 = 0 then .die 8 else .create 8 0

structure Quiet (w : World (server pids 4)) : Prop where
  idle : ∀ i, ∃ state, w.control i = .waiting state
  empty : ∀ i, w.mbox i = []

theorem Quiet.held {w : World (server pids 4)} (quiet : Quiet w) (i : Name) (r : Request Pid (List UInt8)) :
    ¬ w.Held i r := by
  rintro (queued | ⟨calling, program, place⟩)
  · rw [quiet.empty i] at queued
    cases queued
  · obtain ⟨state, idle⟩ := quiet.idle i
    rw [idle] at place
    cases place

theorem Quiet.yields {w : World (server pids 4)} (quiet : Quiet w) (i : Name) : (w.control i).yields = true := by
  obtain ⟨state, idle⟩ := quiet.idle i
  rw [idle]
  rfl

theorem Quiet.gone {w : World (server pids 4)} (quiet : Quiet w) : Quiet (gone w) := ⟨quiet.idle, quiet.empty⟩

theorem Quiet.endless {w : World (server pids 4)} (quiet : Quiet w) (there : w.table 8 = some 0)
    (free : w.waits 8 = none) :
    Endless (Guarded (Steady (Good pids) (Answers 3)) (Step pids)) (restarts w) restart := by
  intro n
  rcases Nat.mod_two_eq_zero_or_one n with even | odd
  · have next : (n + 1) % 2 ≠ 0 := by omega
    simp only [restarts, restart, if_pos even, if_neg next]
    exact ⟨fun i r held => absurd held (quiet.held i r), .die quiet.yields (both (by decide) (by decide))⟩
  · have next : (n + 1) % 2 = 0 := by omega
    have here : n % 2 ≠ 0 := by omega
    simp only [restarts, restart, if_neg here, if_pos next]
    have again : { Servers.gone w with table := Function.update (Servers.gone w).table 8 (some 0) } = w := by
      unfold Servers.gone
      rw [Function.update_idem, ← there, Function.update_eq_self, ← free, Function.update_eq_self]
    have ended : (Servers.gone w).table 8 = none := by
      simp only [Servers.gone, Function.update_self]
    have created : Step pids (Servers.gone w) (.create 8 0)
        { Servers.gone w with table := Function.update (Servers.gone w).table 8 (some 0) } :=
      .create quiet.gone.yields ended
    rw [again] at created
    exact ⟨fun i r still => absurd still.1 (quiet.gone.held i r), created⟩

theorem Quiet.restarts {w : World (server pids 4)} (quiet : Quiet w) (n : Nat) : Quiet (restarts w n) := by
  unfold Servers.restarts
  split_ifs
  · exact quiet
  · exact quiet.gone

theorem requests_answered_truncate : ∃ states events n, states 0 = boot oneFile ∧
    Endless (Guarded (Steady (Good pids) (Answers 3)) (Step pids)) states events ∧
      Fair pids (Good pids) (Answers 3) states events ∧
    (states n).Matched ∧ (states n).returned = [(0, 0)] ∧ ∃ m, ∀ l, m ≤ l → (states l).answered.count 0 = 1 := by
  have run : ∃ after, Run (Guarded (Steady (Good pids) (Answers 3)) (Step pids)) (boot oneFile)
    (truncate true [.call .blkfile] ++ [.finish .blkfile]) after ∧
      Quiet after ∧ after.table 8 = some 0 ∧ after.waits 8 = none ∧ after.issued = 1 ∧ after.returned = [(0, 0)] :=
    ⟨_,
      .cons ⟨⟨truncation, [], Blkfile.decode_message rfl [], ⟨⟨nofun, nofun⟩, nofun, nofun⟩⟩,
        .request (both rfl rfl) (both (by decide) (by decide)) rfl rfl⟩ <|
      .cons ⟨trivial, .receive (both nofun fun _ => rfl) rfl rfl⟩ <|
      .cons ⟨trivial, .proceed (both nofun fun _ => rfl)
        (congrArg (Control.handling _ _) serve_truncation) rfl rfl rfl rfl⟩ <|
      .cons ⟨trivial, .call rfl rfl⟩ <|
      .cons ⟨rfl, .proceed (both nofun fun _ => rfl) rfl rfl rfl rfl trivial⟩ <|
      .cons ⟨trivial, .call rfl rfl⟩ <|
      .cons ⟨trivial, .proceed (both nofun fun _ => rfl) rfl rfl rfl rfl trivial⟩ <|
      .cons ⟨trivial, .reply () rfl rfl⟩ <|
      .cons ⟨trivial, .finish rfl⟩ .nil, ⟨both ⟨_, rfl⟩ ⟨_, rfl⟩, both rfl rfl⟩, rfl, rfl, rfl, rfl⟩
  obtain ⟨after, run, quiet, there, free, issued, returned⟩ := run
  obtain ⟨states, events, endless, begins, n, same⟩ := (quiet.endless there free).after_run run rfl
  have later (m : Nat) (beyond : n ≤ m) : states m = restarts after (m - n) := by
    rw [← (same (m - n)).1, Nat.add_sub_cancel' beyond]
  have here : states n = after := by
    rw [later n (Nat.le_refl n), Nat.sub_self]
    rfl
  -- the servers have nothing to do any more
  have fair : Fair pids (Good pids) (Answers 3) states events := by
    intro i again
    obtain ⟨m, beyond, able⟩ := again n
    have idle := quiet.restarts (m - n)
    rw [← later m beyond] at idle
    obtain ⟨state, waiting⟩ := idle.idle i
    exact absurd able (not_able_of_idle waiting (idle.empty i))
  have apart : pids .blkfile ≠ pids .directory := by decide
  have answers := requests_answered apart (boot_initial oneFile)
  obtain ⟨m, -, once⟩ := answers.2 states events begins endless fair n 0 (by rw [here, issued]; exact Nat.zero_lt_one)
  exact ⟨states, events, n, begins, endless, fair, here ▸ (answers.1 _ _ run).1, here ▸ returned, m, once⟩

/-- The block server refuses the size. While the table is written, the client makes its next
request, and gets the second reply to the first one. -/
theorem left_over_reply :
    ∃ after, Run (Step pids) (boot oneFile)
      (truncate false [.reply .blkfile, .call .blkfile, .request 7 .blkfile []]) after ∧
    ¬ after.Matched := by
  have run : ∃ after, Run (Step pids) (boot oneFile)
    (truncate false [.reply .blkfile, .call .blkfile, .request 7 .blkfile []]) after ∧
      after.returned = [(0, 0), (1, 0)] :=
    ⟨_,
      .cons (.request (both rfl rfl) (both (by decide) (by decide)) rfl rfl) <|
      .cons (.receive (both nofun fun _ => rfl) rfl rfl) <|
      .cons (.proceed (both nofun fun _ => rfl) (congrArg (Control.handling _ _) serve_truncation) rfl rfl rfl rfl) <|
      .cons (.call rfl rfl) <|
      .cons (.proceed (both nofun fun _ => rfl) rfl rfl rfl rfl trivial) <|
      .cons (.reply () rfl rfl) <|
      .cons (.call rfl rfl) <|
      .cons (.request (both rfl rfl) (both (by decide) (by decide)) rfl rfl) <|
      .cons (.proceed (both nofun fun _ => rfl) rfl rfl rfl rfl trivial) <|
      .cons (.reply () rfl rfl) .nil, rfl⟩
  obtain ⟨after, run, returned⟩ := run
  refine ⟨after, run, fun matched => ?_⟩
  have same := matched.own (1, 0) (by rw [returned]; exact List.mem_cons_of_mem _ List.mem_cons_self)
  exact absurd same (by decide)

end Egos.Servers
