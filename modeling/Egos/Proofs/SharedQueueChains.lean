import Egos.Library.Transition
import Egos.Shared.Queue

/-! The cells of a queue are the items that were added and not yet taken, and `last` is the
place of the null link behind them, whatever calls have been made. -/

namespace Egos.Shared
open Library Library.Prog

/-- The cells lead from the first to the last one, which the next addition goes behind, and
hold the items. -/
structure Stored (q : Queue) (nodes : List Cell) (items : List Item) : Prop where
  chains : q.links.Chains nodes
  last : q.last = placeAfter .head nodes
  items : nodes.map q.item = items.map some

/-- The cells that can be reached are exactly those of the items, and the link that `last`
points to is null. -/
def Holds (q : Queue) (items : List Item) : Prop := ∃ nodes, Stored q nodes items ∧ q.links.get q.last = none

variable {q after : Queue} {nodes rest : List Cell} {items : List Item} {e first : Cell} {item : Item}
    {place : Place Cell}
  {value : Option Cell}

namespace Queue

@[simp] theorem put_last : (q.put place value).last = q.last := by cases place <;> rfl

@[simp] theorem put_heap : (q.put (.after e) value).heap =
    Function.update q.heap e ((q.heap e).map fun element => { element with next := value }) := rfl

theorem put_item : (q.put place value).item = q.item := by
  cases place with
  | head => rfl
  | after e =>
    funext other
    by_cases same : other = e
    · subst same
      simp [item, Function.comp_def]
    · simp [item, same]

theorem put_links (allocated : q.allocated place = true) : (q.put place value).links = q.links.set place value := by
  cases place with
  | head => rfl
  | after e =>
    obtain ⟨element, here⟩ := Option.isSome_iff_exists.mp allocated
    refine congrArg (Links.mk q.first) (funext fun other => ?_)
    by_cases same : other = e
    · subst same
      simp [here]
    · simp [same, links]

theorem put_allocated (other : Place Cell) : (q.put place value).allocated other = q.allocated other := by
  cases place with
  | head => cases other <;> rfl
  | after e =>
    cases other with
    | head => rfl
    | after node =>
      by_cases same : node = e
      · subst same
        simp [allocated]
      · simp [allocated, same]

end Queue

theorem store_run (allocated : q.allocated place = true) (value : Option Cell) :
    store place value q = .done () (q.put place value) := by
  unfold store
  rw [Prog.bind_done (get_run q), if_pos allocated]
  rfl

namespace Stored

theorem holds (stored : Stored q nodes items) : Holds q items :=
  ⟨nodes, stored, by rw [stored.last]; exact stored.chains.get_last⟩

theorem used (stored : Stored q nodes items) (member : e ∈ nodes) : (q.heap e).isSome = true := by
  have listed : q.item e ∈ items.map some := stored.items ▸ List.mem_map_of_mem member
  obtain ⟨item, _, same⟩ := List.mem_map.mp listed
  exact Option.isSome_map.symm.trans (congrArg Option.isSome same.symm)

theorem fresh (stored : Stored q nodes items) (free : q.heap e = none) : e ∉ nodes := by
  intro member
  have used := stored.used member
  rw [free] at used
  cases used

/-- The link behind the cells can be written. -/
theorem allocated (stored : Stored q nodes items) : q.allocated q.last = true := by
  rw [stored.last]
  rcases placeAfter_cases .head nodes with ⟨_, place⟩ | ⟨front, last, rfl, place⟩
  · rw [place]; rfl
  · rw [place]
    exact stored.used (List.mem_append_right _ List.mem_cons_self)

end Stored

def grown (q : Queue) (e : Cell) (item : Item) : Queue :=
  { q with heap := Function.update q.heap e (some { next := none, item }) }

theorem grown_stored (stored : Stored q nodes items) (fresh : q.heap e = none) (item : Item) :
    Stored (grown q e item) nodes items ∧ (grown q e item).item e = some item ∧ (grown q e item).links.next e = none ∧
      (grown q e item).allocated (.after e) = true := by
  have others : ∀ other ∈ nodes, (grown q e item).heap other = q.heap other := by
    intro other member
    refine Function.update_of_ne ?_ _ _
    rintro rfl
    exact stored.fresh fresh member
  have here : (grown q e item).heap e = some { next := none, item } := Function.update_self ..
  refine ⟨⟨stored.chains.congr rfl ?_, stored.last, ?_⟩, congrArg (Option.map Element.item) here,
    congrArg (Option.bind · Element.next) here, ?_⟩
  · intro other member
    exact congrArg (Option.bind · Element.next) (others other member).symm
  · rw [← stored.items]
    exact List.map_congr_left fun other member => congrArg (Option.map Element.item) (others other member)
  · exact congrArg Option.isSome here

theorem queueInsert_spec (stored : Stored q nodes items) (fresh : q.heap e = none) (item : Item) :
    ∃ after, queueInsert e item q = .done () after ∧ Stored after (e :: nodes) (item :: items) := by
  obtain ⟨kept, holds, _, used⟩ := grown_stored stored fresh item
  let aimed : Queue := { grown q e item with last := if q.first = none then .after e else q.last }
  have aims : aimLast e (grown q e item) = .done () aimed := by
    change (if q.first = none then setLast (.after e) else pure () : Action Unit) (grown q e item) = _
    by_cases empty : q.first = none
    · simp [aimed, empty, setLast, grown]
    · simp [aimed, empty, grown]
  let linked := (aimed.put (.after e) q.first).put .head (some e)
  have ran : queueInsert e item q = .done () linked := by
    unfold queueInsert newElement
    refine (Prog.bind_done (modify_run _ q)).trans ((Prog.bind_done aims).trans ((Prog.bind_done (get_run _)).trans ?_))
    have place : aimed.allocated (.after e) = true := used
    exact (Prog.bind_done (store_run place q.first)).trans (store_run rfl _)
  have links : linked.links = ((grown q e item).links.set (.after e) q.first).set .head (some e) := by
    have first : (aimed.put (.after e) q.first).links = aimed.links.set (.after e) q.first := Queue.put_links used
    exact (Queue.put_links rfl).trans (congrArg (Links.set · .head (some e)) first)
  refine ⟨linked, ran, links ▸ kept.chains.prepend (stored.fresh fresh), ?_, ?_⟩
  · change aimed.last = _
    cases nodes with
    | nil =>
      have empty : q.first = none := stored.chains.head_nil
      simp [aimed, empty, placeAfter]
    | cons first rest =>
      have more : q.first = some first := stored.chains.head_cons
      simp [aimed, more, stored.last, placeAfter]
  · have same : linked.item = (grown q e item).item := Queue.put_item.trans Queue.put_item
    rw [same, List.map_cons, List.map_cons, holds, kept.items]

theorem queueAppend_spec (stored : Stored q nodes items) (fresh : q.heap e = none) (item : Item) :
    ∃ after, queueAppend e item q = .done () after ∧ Stored after (nodes ++ [e]) (items ++ [item]) := by
  obtain ⟨kept, holds, ends, used⟩ := grown_stored stored fresh item
  let ended := (grown q e item).put (.after e) none
  let linked := ended.put q.last (some e)
  have place : ended.allocated q.last = true := (Queue.put_allocated _).trans kept.allocated
  have ran : queueAppend e item q = .done () { linked with last := .after e } := by
    unfold queueAppend newElement
    refine (Prog.bind_done (modify_run _ q)).trans
      ((Prog.bind_done (store_run used none)).trans ((Prog.bind_done (get_run _)).trans ?_))
    exact Prog.bind_done (store_run place (some e))
  have still : ended.links = (grown q e item).links := by
    have written : (grown q e item).links.set (.after e) none = (grown q e item).links :=
      congrArg (Links.mk q.first) ((congrArg (Function.update _ e) ends.symm).trans (Function.update_eq_self e _))
    exact (Queue.put_links used).trans written
  have links : linked.links = (grown q e item).links.set (placeAfter .head nodes) (some e) := by
    rw [← kept.last, ← still]
    exact Queue.put_links place
  refine ⟨_, ran, ?_, by simp, ?_⟩
  · have chains := kept.chains.append (stored.fresh fresh) ends
    rw [← links] at chains
    exact chains
  · have same : linked.item = (grown q e item).item := Queue.put_item.trans Queue.put_item
    have items : (nodes ++ [e]).map linked.item = (items ++ [item]).map some := by
      rw [same, List.map_append, List.map_append, kept.items, List.map_singleton, holds]
      rfl
    exact items

theorem takeFirst_empty (stored : Stored q nodes []) : takeFirst q = .done none q := by
  have none : nodes = [] := List.map_eq_nil_iff.mp stored.items
  subst none
  have empty : q.first = none := stored.chains.head_nil
  unfold takeFirst
  rw [Prog.bind_done (get_run q), empty]
  rfl

theorem load_run {element : Element} (here : q.heap e = some element) : load e q = .done element q := by
  unfold load
  rw [Prog.bind_done (get_run q), here]
  rfl

/-- The first cell is gone, and `last` goes back to the queue where it was the only one. -/
theorem takeFirst_more (stored : Stored q (e :: nodes) (item :: items)) :
    ∃ after, takeFirst q = .done (some item) after ∧ Stored after nodes items := by
  obtain ⟨element, here⟩ := Option.isSome_iff_exists.mp (stored.used List.mem_cons_self)
  obtain ⟨holds, others⟩ := List.cons.inj stored.items
  have item : element.item = item := by simpa [Queue.item, here] using holds
  have behind : q.links.next e = element.next := congrArg (Option.bind · Element.next) here
  have chains : (q.links.set .head (q.links.next e)).Chains nodes :=
    @Links.Chains.remove _ q.links [] nodes e _ stored.chains
  have apart : e ∉ nodes := (List.nodup_cons.mp stored.chains.nodup).1
  let advanced : Queue := { q with first := element.next, last := if element.next = none then .head else q.last }
  have advances : advance element.next q = .done () advanced := by
    unfold advance
    refine (Prog.bind_done (store_run rfl _)).trans ?_
    by_cases alone : element.next = none
    · simp [advanced, alone, setLast, Queue.put]
    · simp [advanced, alone, Queue.put]
  let after : Queue := { advanced with heap := Function.update q.heap e none }
  have ran : takeFirst q = .done (some element.item) after := by
    have first : q.first = some e := stored.chains.head_cons
    unfold takeFirst
    rw [Prog.bind_done (get_run q), first]
    exact (Prog.bind_done (load_run here)).trans
      ((Prog.bind_done advances).trans ((Prog.bind_done (load_run (q := advanced) here)).trans rfl))
  have kept : ∀ node ∈ nodes, after.heap node = q.heap node := by
    intro node member
    refine Function.update_of_ne ?_ _ _
    rintro rfl
    exact apart member
  refine ⟨after, item ▸ ran, ?_, ?_, ?_⟩
  · refine chains.congr behind.symm fun node member => ?_
    exact congrArg (Option.bind · Element.next) (kept node member).symm
  · change (if element.next = none then Place.head else q.last) = _
    cases nodes with
    | nil =>
      have alone : element.next = none := behind.symm.trans chains.head_nil
      simp [alone]
    | cons second rest =>
      have more : element.next = some second := behind.symm.trans chains.head_cons
      simp [more, stored.last, placeAfter]
  · rw [← others]
    exact List.map_congr_left fun node member => congrArg (Option.map Element.item) (kept node member)

/-- What the two functions that take an item have in common. -/
theorem takeFirst_spec (stored : Stored q nodes items) :
    ∃ after rest, takeFirst q = .done items.head? after ∧ Stored after rest items.tail := by
  cases items with
  | nil =>
    have empty : nodes = [] := List.map_eq_nil_iff.mp stored.items
    exact ⟨q, nodes, takeFirst_empty (empty ▸ stored), stored⟩
  | cons item items =>
    cases nodes with
    | nil => cases stored.items
    | cons e rest =>
      obtain ⟨after, ran, kept⟩ := takeFirst_more stored
      exact ⟨after, rest, ran, kept⟩

theorem Stored.empty_iff (stored : Stored q nodes items) : q.first = none ↔ items = [] := by
  constructor
  · intro empty
    have none : nodes = [] := stored.chains.eq_nil empty
    subst none
    exact List.map_eq_nil_iff.mp stored.items.symm
  · rintro rfl
    have none : nodes = [] := List.map_eq_nil_iff.mp stored.items
    subst none
    exact stored.chains.head_nil

/-- Every call of a queue returns what it is for, and no memory is accessed that is not
allocated. -/
theorem perform_spec (stored : Stored q nodes items) (fresh : q.heap e = none) (call : Call) :
    ∃ after rest, call.perform e q = .done (call.apply items).2 after ∧ Stored after rest (call.apply items).1 := by
  cases call with
  | insert item =>
    obtain ⟨after, ran, kept⟩ := queueInsert_spec stored fresh item
    exact ⟨after, _, Prog.bind_done ran, kept⟩
  | add item =>
    obtain ⟨after, ran, kept⟩ := queueAppend_spec stored fresh item
    exact ⟨after, _, Prog.bind_done ran, kept⟩
  | addUint item =>
    obtain ⟨after, ran, kept⟩ := queueAppend_spec stored fresh item.toUInt64
    exact ⟨after, _, Prog.bind_done ran, kept⟩
  | get =>
    obtain ⟨after, rest, ran, kept⟩ := takeFirst_spec stored
    have gets : queueGet q = .done (items.head?.getD 0) after := Prog.bind_done ran
    exact ⟨after, rest, Prog.bind_done gets, kept⟩
  | tget =>
    obtain ⟨after, rest, ran, kept⟩ := takeFirst_spec stored
    exact ⟨after, rest, Prog.bind_done ran, kept⟩
  | getUint =>
    obtain ⟨after, rest, ran, kept⟩ := takeFirst_spec stored
    have gets : queueGetUint q = .done (items.head?.map UInt64.toUInt32) after := Prog.bind_done ran
    exact ⟨after, rest, Prog.bind_done gets, kept⟩
  | empty =>
    have told : decide (q.first = none) = items.isEmpty := by
      rw [Bool.eq_iff_iff, decide_eq_true_eq, List.isEmpty_iff]
      exact stored.empty_iff
    refine ⟨q, nodes, ?_, stored⟩
    change Outcome.done (Reply.flag (decide (q.first = none))) q = _
    rw [told]
    rfl

/-- The items that remain after some calls, and the answers. -/
def replay (items : List Item) : List Call → List Item × List Reply
  | [] => (items, [])
  | call :: rest => ((replay (call.apply items).1 rest).1, (call.apply items).2 :: (replay (call.apply items).1 rest).2)

theorem replay_concat (calls : List Call) (call : Call) : replay items (calls ++ [call]) =
    ((call.apply (replay items calls).1).1, (replay items calls).2 ++ [(call.apply (replay items calls).1).2]) := by
  induction calls generalizing items with
  | nil => rfl
  | cons first rest ih => simp [replay, ih]

/-- The calls made so far have left the right items and returned the right answers. -/
structure Answered (labels : List Label) (q : Queue) : Prop where
  stored : ∃ nodes, Stored q nodes (replay [] (labels.map Label.call)).1
  replies : labels.map Label.reply = (replay [] (labels.map Label.call)).2

theorem Answered.step {labels : List Label} {label : Label} (answered : Answered labels q) (step : Step q label after) :
    Answered (labels ++ [label]) after := by
  obtain ⟨fresh, ran⟩ := step
  obtain ⟨nodes, stored⟩ := answered.stored
  obtain ⟨last, rest, performed, kept⟩ := perform_spec stored fresh label.call
  obtain ⟨reply, rfl⟩ := Outcome.done.inj (ran.symm.trans performed)
  constructor
  · rw [List.map_append, List.map_singleton, replay_concat]
    exact ⟨rest, kept⟩
  · rw [List.map_append, List.map_append, List.map_singleton, List.map_singleton, replay_concat,
      answered.replies, reply]

theorem queueInit_stored (q : Queue) : ∃ start, queueInit q = .done () start ∧ Stored start [] [] :=
  ⟨_, Prog.bind_done (store_run rfl _), ⟨rfl, List.nodup_nil⟩, rfl, rfl⟩

/-- After any calls of an initialised queue its cells are the items that a queue holds after
these calls, the answers were right, and the next call is answered as well. -/
theorem queue_holds {start : Queue} {labels : List Label} (begins : queueInit q = .done () start)
    (run : Run Step start labels after) :
    Holds after (replay [] (labels.map Label.call)).1 ∧ labels.map Label.reply = (replay [] (labels.map Label.call)).2 ∧
      ∀ (call : Call) (e : Cell), after.heap e = none →
        ∃ last, call.perform e after = .done (call.apply (replay [] (labels.map Label.call)).1).2 last := by
  obtain ⟨initial, ran, empty⟩ := queueInit_stored q
  obtain ⟨_, rfl⟩ := Outcome.done.inj (begins.symm.trans ran)
  have answered : Answered labels after :=
    run.history (fun _ _ _ _ answered step => answered.step step) ⟨⟨[], empty⟩, rfl⟩
  obtain ⟨nodes, stored⟩ := answered.stored
  refine ⟨stored.holds, answered.replies, fun call e fresh => ?_⟩
  obtain ⟨last, _, ran, _⟩ := perform_spec stored fresh call
  exact ⟨last, ran⟩

/-- The queue after a call, if that may return as the label says. -/
def Queue.take (q : Queue) (label : Label) : Option Queue :=
  match q.heap label.cell, label.call.perform label.cell q with
  | none, .done reply after => if reply = label.reply then some after else none
  | _, _ => none

theorem Queue.take_step {label : Label} (taken : q.take label = some after) : Step q label after := by
  unfold take at taken
  split at taken
  next reply last fresh ran =>
    split at taken
    next same =>
      cases taken
      exact .call fresh (same ▸ ran)
    next => cases taken
  next => cases taken

private def unused : Queue := { first := some 9, last := .after 9, heap := fun _ => none }

private def reuse : List Label :=
  [⟨.insert 5, 1, .none⟩, ⟨.add 6, 2, .none⟩, ⟨.get, 3, .pointer 5⟩, ⟨.tget, 3, .item (some 6)⟩, ⟨.tget, 3, .item none⟩,
    ⟨.addUint 7, 1, .none⟩, ⟨.insert 8, 2, .none⟩]

theorem queue_holds_reuse :
    ∃ start after, queueInit unused = .done () start ∧ Run Step start reuse after ∧ Holds after [8, 7] := by
  obtain ⟨start, begins, _⟩ := queueInit_stored unused
  have ends : (reuse.foldlM Queue.take (queueInit unused).state).isSome = true := by decide +kernel
  obtain ⟨after, played⟩ := Option.isSome_iff_exists.mp ends
  rw [begins] at played
  have run : Run Step start reuse after := .of_foldlM Queue.take_step played
  exact ⟨start, after, begins, run, (queue_holds begins run).1⟩

end Egos.Shared
