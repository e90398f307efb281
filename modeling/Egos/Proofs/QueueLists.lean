import Egos.Library.Chain
import Egos.P0.Queue
import Mathlib.Data.List.Perm.Subperm

/-! The list that a queue stands for, call by call. -/

namespace Egos.P0
open Library

variable {ι : Type}

/-- The links lead through the items from the head and back from the tail, and the length is
that of the list. -/
def Represents (queue : Queue ι) (items : List ι) : Prop :=
  ∃ nodes, Doubly queue.next queue.prev queue.head queue.tail nodes ∧ nodes.map queue.item = items ∧
    queue.length = items.length

/-- The nodes in the order of the list. The memory has been allocated, and there is more. -/
structure Stored (queue : Queue ι) (nodes : List Addr) (items : List ι) : Prop where
  linked : Doubly queue.next queue.prev queue.head queue.tail nodes
  holds : nodes.map queue.item = items
  length : queue.length = nodes.length
  known : ∀ node ∈ nodes, node < queue.mallocs
  grants : ∀ call, queue.refuses call = false

namespace Stored
variable {queue : Queue ι} {nodes : List Addr} {items : List ι}

theorem represents (stored : Stored queue nodes items) : Represents queue items :=
  ⟨nodes, stored.linked, stored.holds, by rw [stored.length, ← stored.holds, List.length_map]⟩

theorem length_items (stored : Stored queue nodes items) : queue.length = items.length := by
  rw [stored.length, ← stored.holds, List.length_map]

theorem fresh (stored : Stored queue nodes items) : queue.mallocs ∉ nodes :=
  fun member => absurd (stored.known _ member) (Nat.lt_irrefl _)

theorem bounded (stored : Stored queue nodes items) : nodes.length ≤ queue.mallocs := by
  have subset : nodes ⊆ List.range queue.mallocs := fun node member => List.mem_range.mpr (stored.known node member)
  simpa using (stored.linked.nodup.subperm subset).length_le

theorem malloc (stored : Stored queue nodes items) :
    P0.malloc queue = .done (some queue.mallocs) { queue with mallocs := queue.mallocs + 1 } := by
  change Outcome.done (if queue.refuses queue.mallocs then none else some queue.mallocs) _ = _
  rw [stored.grants]
  rfl

/-- The items of the nodes are those of before and that of a new node. -/
theorem map_setItem (stored : Stored queue nodes items) (item : ι) :
    nodes.map (Function.update queue.item queue.mallocs item) = items := by
  rw [← stored.holds]
  refine List.map_congr_left fun node member => Function.update_of_ne ?_ _ _
  rintro rfl
  exact stored.fresh member

/-- A list with a new node, once the node has been counted. -/
theorem extend (stored : Stored queue nodes items) {linked : Queue ι} {nodes' : List Addr} {items' : List ι}
    (links : Doubly linked.next linked.prev linked.head linked.tail nodes') (size : nodes'.length = nodes.length + 1)
    (inside : ∀ node ∈ nodes', node = queue.mallocs ∨ node ∈ nodes) (holds : nodes'.map linked.item = items')
    (mallocs : linked.mallocs = queue.mallocs + 1) (refuses : linked.refuses = queue.refuses) :
    Stored (linked.setLength (queue.length + 1)) nodes' items' where
  linked := links
  holds := holds
  length := by
    change queue.length + 1 = _
    rw [stored.length, size]
    omega
  known := by
    intro node member
    change node < linked.mallocs
    rw [mallocs]
    rcases inside node member with rfl | member
    · exact Nat.lt_succ_self _
    · exact Nat.lt_succ_of_lt (stored.known node member)
  grants := fun call => by
    change linked.refuses call = false
    rw [refuses]
    exact stored.grants call

end Stored

section Enqueue
variable {queue grown linked : Queue ι} {nodes : List Addr} {items : List ι} {item : ι} {newNode head tail : Addr}

theorem linkFirst_empty (empty : queue.length = 0) :
    linkFirst newNode queue = .done () ((queue.setTail (some newNode)).setNext newNode none) := by
  change (if queue.length = 0 then _ else _ : Action ι Unit) queue = _
  rw [if_pos empty]
  rfl

theorem linkFirst_more (more : queue.length ≠ 0) (first : queue.head = some head) :
    linkFirst newNode queue = .done () ((queue.setPrev head (some newNode)).setNext newNode (some head)) := by
  change (if queue.length = 0 then _ else _ : Action ι Unit) queue = _
  rw [if_neg more, first]
  rfl

theorem linkLast_empty (empty : queue.length = 0) :
    linkLast newNode queue = .done () ((queue.setHead (some newNode)).setPrev newNode none) := by
  change (if queue.length = 0 then _ else _ : Action ι Unit) queue = _
  rw [if_pos empty]
  rfl

theorem linkLast_more (more : queue.length ≠ 0) (last : queue.tail = some tail) :
    linkLast newNode queue = .done () ((queue.setNext tail (some newNode)).setPrev newNode (some tail)) := by
  change (if queue.length = 0 then _ else _ : Action ι Unit) queue = _
  rw [if_neg more, last]
  rfl

def Enqueues (program : Action ι Int) (queue : Queue ι) (nodes : List Addr) (items : List ι) : Prop :=
  ∃ linked, program queue = (do increment; pure 0 : Action ι Int) linked ∧ linked.length = queue.length ∧
    Stored (linked.setLength (queue.length + 1)) nodes items

theorem Enqueues.room {program : Action ι Int} (enqueues : Enqueues program queue nodes items)
    (room : queue.length ≠ INT_MAX) :
    ∃ after, program queue = .done 0 after ∧ Stored after nodes items := by
  obtain ⟨linked, same, length, stored⟩ := enqueues
  refine ⟨_, ?_, stored⟩
  have counted : increment linked = .done () (linked.setLength (queue.length + 1)) := by
    change (if linked.length = INT_MAX then _ else _ : Action ι Unit) linked = _
    rw [length, if_neg room]
    rfl
  rw [same, Prog.bind_done counted]
  rfl

theorem Enqueues.full {program : Action ι Int} (enqueues : Enqueues program queue nodes items)
    (full : queue.length = INT_MAX) :
    ∃ after, program queue = .halted .overflow after := by
  obtain ⟨linked, same, length, stored⟩ := enqueues
  refine ⟨linked, ?_⟩
  have stopped : increment linked = .halted .overflow linked := by
    change (if linked.length = INT_MAX then _ else _ : Action ι Unit) linked = _
    rw [length, if_pos full]
    rfl
  rw [same, Prog.bind_halted stopped]

theorem queuePrepend_run (given : malloc queue = .done (some newNode) grown)
    (links : linkFirst newNode (grown.setItem newNode item) = .done () linked) :
    queuePrepend (some item) queue =
      (do increment; pure 0 : Action ι Int) ((linked.setHead (some newNode)).setPrev newNode none) := by
  unfold queuePrepend
  exact (Prog.bind_done given).trans (Prog.bind_done links)

theorem queueAppend_run (given : malloc queue = .done (some newNode) grown)
    (links : linkLast newNode (grown.setItem newNode item) = .done () linked) :
    queueAppend (some item) queue =
      (do increment; pure 0 : Action ι Int) ((linked.setTail (some newNode)).setNext newNode none) := by
  unfold queueAppend
  exact (Prog.bind_done given).trans (Prog.bind_done links)

theorem prepend_enqueues (stored : Stored queue nodes items) (item : ι) :
    Enqueues (queuePrepend (some item)) queue (queue.mallocs :: nodes) (item :: items) := by
  have holds : (queue.mallocs :: nodes).map (Function.update queue.item queue.mallocs item) = item :: items := by
    rw [List.map_cons, Function.update_self, stored.map_setItem]
  cases nodes with
  | nil =>
    refine ⟨_, queuePrepend_run stored.malloc (linkFirst_empty stored.length), rfl, ?_⟩
    exact stored.extend (.singleton (Function.update_self ..) (Function.update_self ..)) rfl
      (fun _ => List.mem_cons.mp) holds rfl rfl
  | cons first rest =>
    have more : queue.length ≠ 0 := by rw [stored.length, List.length_cons]; omega
    refine ⟨_, queuePrepend_run stored.malloc (linkFirst_more more stored.linked.head_of_cons), rfl, ?_⟩
    exact stored.extend (stored.linked.prepend stored.fresh) rfl (fun _ => List.mem_cons.mp) holds rfl rfl

theorem append_enqueues (stored : Stored queue nodes items) (item : ι) :
    Enqueues (queueAppend (some item)) queue (nodes ++ [queue.mallocs]) (items ++ [item]) := by
  have holds : (nodes ++ [queue.mallocs]).map (Function.update queue.item queue.mallocs item) = items ++ [item] := by
    rw [List.map_append, stored.map_setItem, List.map_singleton, Function.update_self]
  have inside : ∀ node ∈ nodes ++ [queue.mallocs], node = queue.mallocs ∨ node ∈ nodes := by
    intro node member
    rcases List.mem_append.mp member with member | member
    · exact .inr member
    · exact .inl (List.mem_singleton.mp member)
  cases shape : nodes.reverse with
  | nil =>
    obtain rfl : nodes = [] := List.reverse_eq_nil_iff.mp shape
    refine ⟨_, queueAppend_run stored.malloc (linkLast_empty stored.length), rfl, ?_⟩
    exact stored.extend (.singleton (Function.update_self ..) (Function.update_self ..)) rfl inside holds rfl rfl
  | cons last front =>
    have way : Doubly queue.prev queue.next queue.tail queue.head (last :: front) := shape ▸ stored.linked.symm
    have size : nodes.length = front.length + 1 := by rw [← List.length_reverse, shape, List.length_cons]
    have fresh : queue.mallocs ∉ last :: front := shape ▸ fun member => stored.fresh (List.mem_reverse.mp member)
    have back : (queue.mallocs :: last :: front).reverse = nodes ++ [queue.mallocs] := by
      rw [← shape, List.reverse_cons, List.reverse_reverse]
    have more : queue.length ≠ 0 := by rw [stored.length, size]; omega
    refine ⟨_, queueAppend_run stored.malloc (linkLast_more more way.head_of_cons), rfl, ?_⟩
    refine stored.extend ?_ (by rw [List.length_append, List.length_singleton]) inside holds rfl rfl
    rw [← back]
    exact (way.prepend fresh).symm

end Enqueue

section Dequeue
variable {readable : ι → Bool} {queue linked : Queue ι} {nodes : List Addr} {items : List ι} {head second : Addr}

theorem unlinkFirst_last (single : queue.length = 1) :
    unlinkFirst head queue = .done () ((queue.setHead none).setTail none) := by
  change (if queue.length = 1 then _ else _ : Action ι Unit) queue = _
  rw [if_pos single]
  rfl

theorem unlinkFirst_more (more : queue.length ≠ 1) (next : queue.next head = some second) :
    unlinkFirst head queue = .done () ((queue.setHead (some second)).setPrev second none) := by
  change (if queue.length = 1 then _ else _ : Action ι Unit) queue = _
  rw [if_neg more, next]
  rfl

theorem queueDequeue_empty (empty : queue.length = 0) : queueDequeue queue = .done (-1, none) queue := by
  change (if queue.length = 0 then _ else _ : Action ι (Int × Option ι)) queue = _
  rw [if_pos empty]
  rfl

theorem queueDequeue_run (more : queue.length ≠ 0) (first : queue.head = some head)
    (unlinked : unlinkFirst head queue = .done () linked) :
    queueDequeue queue = .done (0, some (queue.item head)) (linked.setLength (linked.length - 1)) := by
  change (if queue.length = 0 then _ else _ : Action ι (Int × Option ι)) queue = _
  rw [if_neg more, first]
  exact Prog.bind_done unlinked

theorem dequeue_stored (stored : Stored queue nodes items) [DecidableEq ι] :
    ∃ after rest, exec readable .dequeue queue = .done (apply items .dequeue).2 after ∧
        Stored after rest (apply items .dequeue).1 := by
  have size := stored.length
  obtain rfl := stored.holds
  cases nodes with
  | nil => exact ⟨queue, [], Prog.bind_done (queueDequeue_empty size), stored⟩
  | cons first nodes =>
    have more : queue.length ≠ 0 := by rw [size, List.length_cons]; omega
    have known : ∀ node ∈ nodes, node < queue.mallocs := fun node member =>
      stored.known node (List.mem_cons_of_mem _ member)
    cases nodes with
    | nil =>
      have ran := queueDequeue_run more stored.linked.head_of_cons (unlinkFirst_last size)
      refine ⟨_, [], Prog.bind_done ran, ?_⟩
      exact { linked := .empty, holds := rfl, length := by change queue.length - 1 = _; rw [size]; rfl, known, grants := stored.grants }
    | cons second rest =>
      have several : queue.length ≠ 1 := by rw [size, List.length_cons, List.length_cons]; omega
      have ran := queueDequeue_run more stored.linked.head_of_cons (unlinkFirst_more several stored.linked.forwards.2.1)
      refine ⟨_, second :: rest, Prog.bind_done ran, ?_⟩
      refine { linked := stored.linked.dropFirst, holds := rfl, length := ?_, known, grants := stored.grants }
      change queue.length - 1 = _
      rw [size, List.length_cons]
      omega

end Dequeue

theorem queueNew_stored (prev next : Addr → Option Addr) (item : Addr → ι) :
    Stored (queueNew prev next item) [] [] where
  linked := .empty
  holds := rfl
  length := rfl
  known := nofun
  grants := fun _ => rfl

section Walk
variable {queue : Queue ι} {nodes : List Addr} {items : List ι} {start : Option Addr}

theorem iterateFrom_leads {fuel : Nat} (leads : Leads queue.next start nodes none) (enough : nodes.length < fuel) :
    iterateFrom fuel start queue = .done nodes queue := by
  induction nodes generalizing start fuel with
  | nil =>
    obtain ⟨fuel, rfl⟩ := Nat.exists_eq_succ_of_ne_zero (Nat.ne_of_gt enough)
    obtain rfl : start = none := leads
    rfl
  | cons node rest ih =>
    obtain ⟨fuel, rfl⟩ := Nat.exists_eq_succ_of_ne_zero (Nat.ne_of_gt (Nat.zero_lt_of_lt enough))
    obtain ⟨rfl, leads⟩ := leads
    exact Prog.bind_done (ih leads (Nat.lt_of_succ_lt_succ enough))

theorem queueIterate_stored (stored : Stored queue nodes items) : queueIterate queue = .done nodes queue :=
  iterateFrom_leads stored.linked.forwards (Nat.lt_succ_of_le stored.bounded)

/-- A node leaves the list, and the length stays as it was. -/
theorem unlink_length (q : Addr) (queue : Queue ι) :
    ∃ after, unlink q queue = .done () after ∧ after.length = queue.length := by
  unfold unlink
  rw [Prog.bind_done (show (Prog.get : Action ι (Queue ι)) queue = .done queue queue from rfl)]
  cases queue.prev q with
  | none => cases queue.next q <;> exact ⟨_, rfl, rfl⟩
  | some prev => cases queue.next q <;> exact ⟨_, rfl, rfl⟩

variable [DecidableEq ι] {readable : ι → Bool} {item : ι}

theorem search_leads {fuel : Nat} (leads : Leads queue.next start nodes none) (enough : nodes.length < fuel) :
    search item fuel start queue = .done (nodes.find? fun node => queue.item node = item) queue := by
  induction nodes generalizing start fuel with
  | nil =>
    obtain ⟨fuel, rfl⟩ := Nat.exists_eq_succ_of_ne_zero (Nat.ne_of_gt enough)
    obtain rfl : start = none := leads
    rfl
  | cons node rest ih =>
    obtain ⟨fuel, rfl⟩ := Nat.exists_eq_succ_of_ne_zero (Nat.ne_of_gt (Nat.zero_lt_of_lt enough))
    obtain ⟨rfl, leads⟩ := leads
    change (if queue.item node ≠ item then _ else _ : Action ι (Option Addr)) queue = _
    by_cases found : queue.item node = item
    · rw [if_neg (not_not.mpr found), List.find?_cons, decide_eq_true found]
      rfl
    · rw [if_pos found, List.find?_cons, decide_eq_false found]
      exact ih leads (Nat.lt_of_succ_lt_succ enough)

theorem search_stored (stored : Stored queue nodes items) (item : ι) :
    search item (queue.mallocs + 1) queue.head queue = .done (nodes.find? fun node => queue.item node = item) queue :=
  search_leads stored.linked.forwards (Nat.lt_succ_of_le stored.bounded)

theorem queueDelete_missing (stored : Stored queue nodes items) (fine : items = [] ∨ readable item = true)
    (missing : item ∉ items) :
    queueDelete readable (some item) queue = .done (-1) queue := by
  change (if queue.length = 0 then _ else _ : Action ι Int) queue = _
  by_cases empty : queue.length = 0
  · rw [if_pos empty]
    rfl
  · have read : readable item = true := by
      refine fine.resolve_left fun none => empty ?_
      rw [stored.length_items, none]
      rfl
    have found : nodes.find? (fun node => queue.item node = item) = none := by
      refine List.find?_eq_none.mpr fun node member same => missing ?_
      rw [← stored.holds]
      exact List.mem_map.mpr ⟨node, member, of_decide_eq_true same⟩
    have searched := search_stored stored item
    rw [found] at searched
    rw [if_neg empty, if_pos read]
    exact Prog.bind_done searched

theorem queueDelete_wild (stored : Stored queue nodes items) (filled : items ≠ []) (wild : readable item ≠ true) :
    queueDelete readable (some item) queue = .halted .wildPointer queue := by
  change (if queue.length = 0 then _ else _ : Action ι Int) queue = _
  have more : queue.length ≠ 0 := by
    have := List.length_pos_iff.mpr filled
    rw [stored.length_items]
    omega
  rw [if_neg more, if_neg wild]
  rfl

theorem queueDelete_found (stored : Stored queue nodes items) (read : readable item = true) (member : item ∈ items) :
    ∃ after, queueDelete readable (some item) queue = .done 0 after ∧ after.length = queue.length := by
  obtain ⟨node, inside, holds⟩ := List.mem_map.mp (stored.holds ▸ member)
  have more : queue.length ≠ 0 := by
    have := List.length_pos_of_mem inside
    rw [stored.length]
    omega
  obtain ⟨q, found⟩ := Option.isSome_iff_exists.mp (List.find?_isSome.mpr
    (show ∃ node ∈ nodes, decide (queue.item node = item) = true from ⟨node, inside, decide_eq_true holds⟩))
  have searched := search_stored stored item
  rw [found] at searched
  obtain ⟨after, unlinked, length⟩ := unlink_length q queue
  refine ⟨after, ?_, length⟩
  change (if queue.length = 0 then _ else _ : Action ι Int) queue = _
  rw [if_neg more, if_pos read]
  exact (Prog.bind_done searched).trans (Prog.bind_done unlinked)

end Walk

section Conforms
variable [DecidableEq ι] {readable : ι → Bool} {queue : Queue ι} {nodes : List Addr} {items : List ι} {item : ι}
    {call : Call ι}

/-- A call after which the queue cannot but stand for its list: it deletes nothing and follows
no wild pointer, and the length is not at the end of its type when an item is added. -/
def Safe (readable : ι → Bool) (items : List ι) : Call ι → Prop
  | .prepend _ | .append _ => (items.length : Int) ≠ INT_MAX
  | .delete item => (items = [] ∨ readable item = true) ∧ item ∉ items
  | .dequeue | .iterate | .length => True

theorem exec_safe (stored : Stored queue nodes items) (safe : Safe readable items call) :
    ∃ after rest, exec readable call queue = .done (apply items call).2 after ∧
        Stored after rest (apply items call).1 := by
  cases call with
  | prepend item =>
    obtain ⟨after, ran, kept⟩ := (prepend_enqueues stored item).room (stored.length_items ▸ safe)
    exact ⟨after, _, Prog.bind_done ran, kept⟩
  | append item =>
    obtain ⟨after, ran, kept⟩ := (append_enqueues stored item).room (stored.length_items ▸ safe)
    exact ⟨after, _, Prog.bind_done ran, kept⟩
  | dequeue => exact dequeue_stored stored
  | delete item =>
    have same : apply items (.delete item) = (items, .status (-1)) := if_neg safe.2
    rw [same]
    exact ⟨queue, nodes, Prog.bind_done (queueDelete_missing stored safe.1 safe.2), stored⟩
  | iterate =>
    refine ⟨queue, nodes, ?_, stored⟩
    change exec readable .iterate queue = .done (.visited items) queue
    rw [← stored.holds]
    exact Prog.bind_done (queueIterate_stored stored)
  | length =>
    refine ⟨queue, nodes, ?_, stored⟩
    change exec readable .length queue = .done (.status items.length) queue
    rw [← stored.length_items]
    rfl

/-- Every other call stops, or leaves a wrong length behind. -/
theorem exec_unsafe (stored : Stored queue nodes items) (broken : ¬Safe readable items call) {reply : Reply ι}
    {after : Queue ι}
    (ran : exec readable call queue = .done reply after) : ¬Represents after (apply items call).1 := by
  cases call with
  | prepend item =>
    obtain ⟨stopped, full⟩ := (prepend_enqueues stored item).full (stored.length_items.trans (not_not.mp broken))
    exact nomatch (Prog.bind_halted full).symm.trans ran
  | append item =>
    obtain ⟨stopped, full⟩ := (append_enqueues stored item).full (stored.length_items.trans (not_not.mp broken))
    exact nomatch (Prog.bind_halted full).symm.trans ran
  | delete item =>
    by_cases fine : items = [] ∨ readable item = true
    case neg =>
      obtain ⟨filled, wild⟩ := not_or.mp fine
      have stops : exec readable (.delete item) queue = .halted .wildPointer queue :=
        Prog.bind_halted (queueDelete_wild stored filled wild)
      exact nomatch stops.symm.trans ran
    have member : item ∈ items := not_not.mp fun missing => broken ⟨fine, missing⟩
    have read : readable item = true := fine.resolve_left (List.ne_nil_of_mem member)
    obtain ⟨final, deleted, length⟩ := queueDelete_found stored read member
    have same : Outcome.done (Reply.status 0) final = .done reply after := (Prog.bind_done deleted).symm.trans ran
    cases same
    rw [show (apply items (.delete item)).1 = items.erase item from congrArg Prod.fst (if_pos member)]
    rintro ⟨_, -, -, counted⟩
    have shorter := List.length_erase_of_mem member
    have positive := List.length_pos_of_mem member
    rw [length, stored.length_items] at counted
    omega
  | dequeue | iterate | length => exact absurd trivial broken

/-- Before and after every call the queue stands for its list, and every call answers as the
list does. -/
def Conforms (readable : ι → Bool) : Queue ι → List ι → List (Call ι) → Prop
  | queue, items, [] => Represents queue items
  | queue, items, call :: calls => Represents queue items ∧
      ∃ after, exec readable call queue = .done (apply items call).2 after ∧
        Conforms readable after (apply items call).1 calls

def AllSafe (readable : ι → Bool) : List ι → List (Call ι) → Prop
  | _, [] => True
  | items, call :: calls => Safe readable items call ∧ AllSafe readable (apply items call).1 calls

theorem Conforms.represents {calls : List (Call ι)} (conforms : Conforms readable queue items calls) :
    Represents queue items := by
  cases calls with
  | nil => exact conforms
  | cons call calls => exact conforms.1

theorem conforms_iff (stored : Stored queue nodes items) (calls : List (Call ι)) :
    Conforms readable queue items calls ↔ AllSafe readable items calls := by
  induction calls generalizing queue nodes items with
  | nil => exact iff_of_true stored.represents trivial
  | cons call calls ih =>
    by_cases safe : Safe readable items call
    · obtain ⟨after, rest, ran, kept⟩ := exec_safe stored safe
      constructor
      · rintro ⟨-, other, ran', conforms⟩
        cases ran.symm.trans ran'
        exact ⟨safe, (ih kept).mp conforms⟩
      · exact fun all => ⟨stored.represents, after, ran, (ih kept).mpr all.2⟩
    · refine iff_of_false ?_ fun all => safe all.1
      rintro ⟨-, after, ran, conforms⟩
      exact exec_unsafe stored safe ran conforms.represents

/-- A queue behaves as a list as long as no item that it holds is deleted. -/
theorem queue_conforms (readable : ι → Bool) (prev next : Addr → Option Addr) (item : Addr → ι)
    (calls : List (Call ι)) :
    Conforms readable (queueNew prev next item) [] calls ↔ AllSafe readable [] calls :=
      conforms_iff (queueNew_stored prev next item) calls

/-- An item is appended and deleted, and the length is not that of the empty list. -/
theorem delete_breaks : ¬Conforms (fun _ => true) (queueNew (fun _ => none) (fun _ => none) fun _ => "") []
    [.append "x", .delete "x"] := by
  rw [conforms_iff (queueNew_stored _ _ _)]
  rintro ⟨-, ⟨-, missing⟩, -⟩
  exact missing (List.mem_singleton.mpr rfl)

end Conforms
end Egos.P0
