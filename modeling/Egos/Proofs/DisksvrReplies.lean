import Egos.Grass.Disksvr
import Egos.Library.Transition
import Mathlib.Data.List.GetD
import Mathlib.Data.List.Perm.Basic

/-! The disk server answers each request once, as if it were carried out at once on an array of
blocks, and the replies of a client that waits for them come in the order of its requests. -/

namespace Egos.Disksvr
open Library Library.Prog Files Blocksvr
open Grass (Pid)
open Disk (BLOCK_SIZE)

/-! The file of the host as an array of blocks. -/

namespace DevDisk
variable {dd : DevDisk} {offset count j : Nat} {data : List UInt8}

/-- The bytes of a block; what the file does not reach is zeros. -/
def block (dd : DevDisk) (n : Nat) : DataBlock := fun i => dd.file.getD (n * BLOCK_SIZE + i) 0

theorem readAt_getD (inside : j < count) : (dd.readAt offset count).getD j 0 = dd.file.getD (offset + j) 0 := by
  unfold readAt
  rw [List.getD_eq_getElem?_getD, List.getElem?_take_of_lt inside, List.getElem?_drop, ← List.getD_eq_getElem?_getD]

theorem readAt_past (outside : count ≤ j) : (dd.readAt offset count).getD j 0 = 0 := by
  unfold readAt
  exact List.getD_eq_default _ _ (le_trans (List.length_take_le _ _) outside)

theorem writeAt_getD : (dd.writeAt offset data).file.getD j 0 =
    if offset ≤ j ∧ j < offset + data.length then data.getD (j - offset) 0 else dd.file.getD j 0 := by
  unfold writeAt
  by_cases inside : j < max dd.file.length (offset + data.length)
  · rw [List.getD_eq_getElem?_getD, List.getElem?_map, List.getElem?_range inside]
    rfl
  · rw [List.getD_eq_default _ _ (by simpa using inside), if_neg (by omega), List.getD_eq_default _ _ (by omega)]

theorem block_read (n : Nat) (size : Nat) :
    (fun i : Fin BLOCK_SIZE => (dd.readAt (n * BLOCK_SIZE) (min size BLOCK_SIZE)).getD i 0) = splice size
    (dd.block n) fun _ => 0 := by
  funext i
  unfold splice block
  split
  · next inside => exact readAt_getD (lt_min inside i.isLt)
  · next outside => exact readAt_past (le_trans (min_le_left _ _) (not_lt.mp outside))

theorem block_write (n : Nat) (size : Nat) (whole : data.length = BLOCK_SIZE) :
    (dd.writeAt (n * BLOCK_SIZE) (data.take (min size BLOCK_SIZE))).block =
      Function.update dd.block n (splice size (fun i => data.getD i 0) (dd.block n)) := by
  have length : (data.take (min size BLOCK_SIZE)).length = min size BLOCK_SIZE := by
    rw [List.length_take, whole, min_assoc, min_self]
  funext m i
  unfold block
  rw [writeAt_getD, length]
  by_cases here : m = n
  · subst here
    rw [Function.update_self]
    unfold splice
    by_cases inside : i.val < size
    · have place : i.val < min size BLOCK_SIZE := lt_min inside i.isLt
      rw [if_pos (by omega), if_pos inside, Nat.add_sub_cancel_left, List.getD_eq_getElem?_getD,
        List.getElem?_take_of_lt place,
        ← List.getD_eq_getElem?_getD]
    · rw [if_neg (by omega), if_neg inside]
  · rw [Function.update_of_ne here, if_neg]
    -- the bytes of another block are before or behind those of this one
    rintro ⟨from_, to_⟩
    have fits : min size BLOCK_SIZE ≤ BLOCK_SIZE := min_le_right _ _
    have small := i.isLt
    rcases Nat.lt_or_gt_of_ne here with before | behind
    · have next : (m + 1) * BLOCK_SIZE ≤ n * BLOCK_SIZE := Nat.mul_le_mul_right _ before
      rw [Nat.succ_mul] at next
      omega
    · have next : (n + 1) * BLOCK_SIZE ≤ m * BLOCK_SIZE := Nat.mul_le_mul_right _ behind
      rw [Nat.succ_mul] at next
      omega

end DevDisk

def State.platter (s : State) : Platter := { nblocks := s.dd.nblocks, block := s.dd.block }

variable {s after : State}

def State.Fits (s : State) : Prop := s.nblocks = s.dd.nblocks

/-- What a request that does not stop the server does: its answer is sent, or scheduled. -/
structure Answered (s : State) (src : Pid) (reply : BlockReply) (platter : Platter) (after : State) : Prop where
  platter : after.platter = platter
  fits : after.Fits
  sent : (after.sent = s.sent ++ [(src, reply)] ∧ after.events = s.events) ∨
    ∃ event, after.sent = s.sent ∧ after.events = s.events ++ [event] ∧ event.send = (src, reply)

private theorem respond_answered (fits : s.Fits) {src : Pid} {reply : BlockReply}
    (ran : send src reply s = .done () after) :
    Answered s src reply s.platter after := by
  cases ran
  exact ⟨rfl, fits, .inl ⟨rfl, rfl⟩⟩

theorem diskSeek_run (offset : UInt32) :
    diskSeek offset s = if offset < s.dd.nblocks then .done (offset.toNat * BLOCK_SIZE) s
    else .halted (.assertion "disk_seek" "offset < dd->nblocks") s := by
  unfold diskSeek
  rw [Prog.bind_done (get_run s)]
  split_ifs with inside
  · rw [decide_eq_true inside]
    rfl
  · rw [decide_eq_false inside]
    rfl

theorem receive_answered (fits : s.Fits) {msg : List UInt8} {src : Pid} {transfer : Transfer}
    (ran : receive msg src transfer s = .done () after) :
    ∃ reply platter, s.platter.answer msg transfer = some (reply, platter) ∧ Answered s src reply platter after := by
  unfold receive at ran
  unfold Platter.answer
  cases decoded : BlockRequest.decode msg with
  | none =>
    rw [decoded] at ran
    cases ran
  | some pair =>
    obtain ⟨req, data⟩ := pair
    rw [decoded] at ran
    dsimp only at ran ⊢
    cases type : req.type with
    | unknown =>
      rw [type] at ran
      cases ran
    | setsize =>
      rw [type] at ran
      exact ⟨_, _, rfl, respond_answered fits ran⟩
    | getsize =>
      rw [type] at ran
      unfold diskDoGetsize at ran
      dsimp only
      split_ifs at ran ⊢ with other
      · exact ⟨_, _, rfl, respond_answered fits ran⟩
      · cases ran
        exact ⟨_, _, rfl, rfl, fits, .inl ⟨by rw [fits]; rfl, rfl⟩⟩
    | read =>
      rw [type] at ran
      unfold diskDoRead at ran
      dsimp only
      by_cases other : req.ino ≠ 0
      · rw [if_pos other] at ran ⊢
        exact ⟨_, _, rfl, respond_answered fits ran⟩
      · rw [if_neg other] at ran ⊢
        unfold devDiskRead at ran
        obtain ⟨place, between, sought, rest⟩ := Prog.bind_returns.mp ran
        rw [diskSeek_run] at sought
        split_ifs at sought with inside
        cases sought
        have reaches : ¬s.platter.nblocks ≤ req.offsetNblock := UInt32.not_le.mpr inside
        rw [if_neg reaches]
        cases rest
        cases transfer with
        | none => exact ⟨_, _, rfl, rfl, fits, .inr ⟨_, rfl, rfl, rfl⟩⟩
        | some n =>
          refine ⟨_, _, rfl, rfl, fits, .inr ⟨_, rfl, rfl, ?_⟩⟩
          unfold Completion.send
          rw [← show _ = splice n (s.platter.block req.offsetNblock.toNat) fun _ => 0 from DevDisk.block_read _ _]
          rfl
    | write =>
      rw [type] at ran
      unfold diskDoWrite at ran
      dsimp only
      by_cases whole : data.length ≠ BLOCK_SIZE
      · rw [if_pos whole] at ran
        cases ran
      · rw [if_neg whole] at ran ⊢
        by_cases other : req.ino ≠ 0
        · rw [if_pos other] at ran ⊢
          exact ⟨_, _, rfl, respond_answered fits ran⟩
        · rw [if_neg other] at ran ⊢
          unfold devDiskWrite at ran
          obtain ⟨place, between, sought, rest⟩ := Prog.bind_returns.mp ran
          rw [diskSeek_run] at sought
          split_ifs at sought with inside
          cases sought
          have reaches : ¬s.platter.nblocks ≤ req.offsetNblock := UInt32.not_le.mpr inside
          rw [if_neg reaches]
          cases transfer with
          | none =>
            cases rest
            exact ⟨_, _, rfl, rfl, fits, .inr ⟨_, rfl, rfl, rfl⟩⟩
          | some n =>
            cases rest
            refine ⟨_, _, rfl, ?_, fits, .inr ⟨_, rfl, rfl, ?_⟩⟩
            · unfold State.platter
              dsimp only
              rw [DevDisk.block_write _ _ (not_not.mp whole)]
              rfl
            · unfold Completion.send
              simp only [decide_eq_true_eq]

/-! Runs. -/

def State.pending (s : State) : List (Pid × BlockReply) := s.events.map Completion.send

/-- The client waits for its reply before it sends another request. -/
def Waits (client : Pid) (s : State) : Event → Prop
  | .receive _ src _ => src = client → ∀ pair ∈ s.pending, pair.1 ≠ client
  | .complete => True

/-- What has been received so far has been answered, or will be. -/
structure Sound (h : History) (s : State) : Prop where
  platter : s.platter = h.platter
  fits : s.Fits
  once : (s.sent ++ s.pending).Perm h.answers

/-- The replies of a client come in the order of its requests. -/
def InOrder (client : Pid) (h : History) (s : State) : Prop :=
  (s.sent ++ s.pending).filter (·.1 = client) = h.answers.filter (·.1 = client)

/-- The completion of a transfer sends the first reply that is pending. -/
theorem complete_keeps (step : Step s .complete after) :
    after.platter = s.platter ∧ (s.Fits → after.Fits) ∧ after.sent ++ after.pending = s.sent ++ s.pending := by
  cases events : s.events with
  | nil =>
    have same : after = s := by
      unfold Step Event.perform complete at step
      simp only [modify_run, events] at step
      cases step
      rfl
    rw [same]
    exact ⟨rfl, id, rfl⟩
  | cons event rest =>
    have moved : after = { s with events := rest, sent := s.sent ++ [event.send] } := by
      unfold Step Event.perform complete at step
      simp only [modify_run, events] at step
      cases step
      rfl
    refine ⟨by rw [moved]; rfl, fun fits => by rw [moved]; exact fits, ?_⟩
    rw [moved]
    unfold State.pending
    rw [events, List.map_cons, List.append_assoc]
    rfl

/-- A request gets one reply, which is sent or pending. -/
theorem Sound.receives {h : History} (sound : Sound h s) {msg : List UInt8} {src : Pid} {transfer : Transfer}
    (step : Step s (.receive msg src transfer) after) :
    ∃ reply platter, h.next (.receive msg src transfer) = { platter, answers := h.answers ++ [(src, reply)] } ∧
      after.platter = platter ∧ after.Fits ∧
        ((after.sent = s.sent ++ [(src, reply)] ∧ after.pending = s.pending) ∨
            (after.sent = s.sent ∧ after.pending = s.pending ++ [(src, reply)])) := by
  obtain ⟨reply, platter, answer, answered⟩ := receive_answered sound.fits step
  refine ⟨reply, platter, ?_, answered.platter, answered.fits, ?_⟩
  · simp only [History.next, ← sound.platter, answer]
  · rcases answered.sent with ⟨sent, events⟩ | ⟨event, sent, events, tells⟩
    · exact .inl ⟨sent, congrArg (List.map Completion.send) events⟩
    · refine .inr ⟨sent, ?_⟩
      unfold State.pending
      rw [events, List.map_append, List.map_singleton, tells]

theorem Sound.step {h : History} {event : Event} (sound : Sound h s) (step : Step s event after) :
    Sound (h.next event) after := by
  cases event with
  | complete =>
    obtain ⟨platter, fits, same⟩ := complete_keeps step
    exact ⟨platter.trans sound.platter, fits sound.fits, same ▸ sound.once⟩
  | receive msg src transfer =>
    obtain ⟨reply, platter, next, kept, fits, ⟨sent, pending⟩ | ⟨sent, pending⟩⟩ := sound.receives step
    · rw [next]
      refine ⟨kept, fits, ?_⟩
      rw [sent, pending, List.append_assoc]
      refine (List.Perm.append_left s.sent List.perm_append_comm).trans ?_
      rw [← List.append_assoc]
      exact sound.once.append_right _
    · rw [next]
      refine ⟨kept, fits, ?_⟩
      rw [sent, pending, ← List.append_assoc]
      exact sound.once.append_right _

theorem InOrder.step {client : Pid} {h : History} {event : Event} (inOrder : InOrder client h s)
    (sound : Sound h s) (waits : Waits client s event)
    (step : Step s event after) : InOrder client (h.next event) after := by
  unfold InOrder at inOrder ⊢
  cases event with
  | complete =>
    rw [(complete_keeps step).2.2]
    exact inOrder
  | receive msg src transfer =>
    obtain ⟨reply, platter, next, -, -, ⟨sent, pending⟩ | ⟨sent, pending⟩⟩ := sound.receives step
    · rw [next, sent, pending, List.filter_append, List.filter_append, List.filter_append, ← inOrder,
        List.filter_append]
      by_cases own : src = client
      · have none : s.pending.filter (·.1 = client) = [] := by
          refine List.filter_eq_nil_iff.mpr fun pair member => ?_
          simpa using waits own pair member
        rw [none, List.append_nil, List.append_nil]
      · have other : [(src, reply)].filter (·.1 = client) = [] := by simp [own]
        rw [other, List.append_nil, List.append_nil]
    · rw [next, sent, pending, ← List.append_assoc, List.filter_append, List.filter_append h.answers, inOrder]

/-- The requests that were received have been answered by an array of blocks: each of them once, now
or when its event is run, and those of a client that waits for its replies in their order. -/
theorem disk_answers {nblocks : UInt32} {file : List UInt8} {events : List Event}
    (run : Run Step (.init nblocks file) events s) :
    let h := events.foldl History.next { platter := (State.init nblocks file).platter, answers := [] }
    s.platter = h.platter ∧ (s.sent ++ s.pending).Perm h.answers ∧
      ∀ client, Run (Guarded (Waits client) Step) (.init nblocks file) events s →
        (s.sent ++ s.pending).filter (·.1 = client) = h.answers.filter (·.1 = client) := by
  let history (events : List Event) : History :=
    events.foldl History.next { platter := (State.init nblocks file).platter, answers := [] }
  have next (labels : List Event) (label : Event) : history (labels ++ [label]) = (history labels).next label :=
    List.foldl_append ..
  have start : Sound (history []) (.init nblocks file) := ⟨rfl, rfl, .refl _⟩
  have kept : ∀ labels before label after, Sound (history labels) before → Step before label after →
      Sound (history (labels ++ [label])) after :=
    fun labels before label after sound step => next labels label ▸ sound.step step
  have sound : Sound (history events) s := run.history kept start
  refine ⟨sound.platter, sound.once, fun client waits => ?_⟩
  have both : ∀ labels before label after, Sound (history labels) before ∧ InOrder client (history labels) before →
      Guarded (Waits client) Step before label after → Sound (history (labels ++ [label])) after ∧
          InOrder client (history (labels ++ [label])) after := by
    intro labels before label after ⟨sound, inOrder⟩ ⟨waits, step⟩
    rw [next]
    exact ⟨sound.step step, inOrder.step sound waits step⟩
  exact (waits.history both ⟨start, rfl⟩).2

instance (client : Pid) (s : State) (event : Event) : Decidable (Waits client s event) := by
  cases event with
  | receive msg src transfer => exact inferInstanceAs (Decidable (src = client → _))
  | complete => exact inferInstanceAs (Decidable True)

private def take (client : Pid) (s : State) (event : Event) : Option State :=
  match event.perform s with
  | .done () after => if Waits client s event then some after else none
  | .halted .. => none

private theorem take_step {client : Pid} {event : Event} (taken : take client s event = some after) :
    Guarded (Waits client) Step s event after := by
  unfold take at taken
  cases ran : event.perform s with
  | done value last =>
    rw [ran] at taken
    dsimp only at taken
    split_ifs at taken with waits
    cases taken
    exact ⟨waits, ran⟩
  | halted reason last =>
    rw [ran] at taken
    cases taken

/-- Client 5 reads a block while client 6 asks for the size of the disk. -/
private def twoClients : List Event := [
  .receive (Grass.bytesOf 1 ++ Grass.bytesOf 0 ++ Grass.bytesOf 3) 5 (some BLOCK_SIZE),
  .receive (Grass.bytesOf 3 ++ Grass.bytesOf 0 ++ Grass.bytesOf 0) 6 none, .complete]

theorem disk_answers_two :
    ∃ s, Run (Guarded (Waits 5) Step) (.init 4 [1, 2]) twoClients s ∧ s.sent.map Prod.fst = [6, 5] ∧
    let h := twoClients.foldl History.next { platter := (State.init 4 [1, 2]).platter, answers := [] }
    s.platter = h.platter ∧ (s.sent ++ s.pending).Perm h.answers ∧
      (s.sent ++ s.pending).filter (·.1 = 5) = h.answers.filter (·.1 = 5) := by
  have plays : (twoClients.foldlM (take 5) (.init 4 [1, 2])).any (fun s => s.sent.map Prod.fst = [6, 5]) = true := by
    decide +kernel
  obtain ⟨s, played, sent⟩ := (Option.any_eq_true _ _).mp plays
  have run : Run (Guarded (Waits 5) Step) (.init 4 [1, 2]) twoClients s := .of_foldlM take_step played
  obtain ⟨platter, once, inOrder⟩ := disk_answers (Guarded.run run)
  exact ⟨s, run, of_decide_eq_true sent, platter, once, inOrder 5 run⟩

end Egos.Disksvr
