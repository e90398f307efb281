import Mathlib.Data.List.Iterate
import Mathlib.Data.List.Nodup
import Mathlib.Logic.Function.Iterate

/-! Linked lists that share one map from a node to its successor. A family of
lists is given by a head and a length for each; the last node carries a mark. -/

namespace Egos.Library

variable {α ι : Type}

theorem iterate_congr {f g : α → α} : ∀ {count : Nat} {start : α},
    (∀ step, step + 1 < count → f (f^[step] start) = g (f^[step] start)) →
    List.iterate f start count = List.iterate g start count := by
  intro count
  induction count with
  | zero => intro start agree; rfl
  | succ count ih =>
    intro start agree
    cases count with
    | zero => rfl
    | succ count =>
      have first : f start = g start := agree 0 (by omega)
      have rest := ih fun step inside => agree (step + 1) (by omega)
      change start :: List.iterate f (f start) (count + 1) = start :: List.iterate g (g start) (count + 1)
      rw [← first]
      exact congrArg _ rest

/-- Where two successor maps agree along a list they reach the same nodes. -/
theorem iterate_step_congr {f g : α → α} {count step : Nat} {start : α}
    (agree : ∀ step, step + 1 < count → f (f^[step] start) = g (f^[step] start)) (inside : step < count) :
    g^[step] start = f^[step] start := by
  have same := iterate_congr agree
  have left := List.getElem?_iterate f start count step inside
  rw [same, List.getElem?_iterate g start count step inside] at left
  exact Option.some.inj left

theorem iterate_succ_last (f : α → α) (start : α) (count : Nat) :
    List.iterate f start (count + 1) = List.iterate f start count ++ [f^[count] start] :=
  List.iterate_add f start count 1

/-- The nodes of each list of a family, in order. -/
def nodes (next : α → α) (head : ι → α) (length : ι → Nat) (list : ι) : List α :=
  List.iterate next (head list) (length list)

theorem mem_nodes {next : α → α} {head : ι → α} {length : ι → Nat} {list : ι} {node : α} :
    node ∈ nodes next head length list ↔ ∃ step < length list, node = next^[step] (head list) := List.mem_iterate

theorem step_mem_nodes {next : α → α} {head : ι → α} {length : ι → Nat} {list : ι} {step : Nat}
    (inside : step < length list) : next^[step] (head list) ∈ nodes next head length list :=
  mem_nodes.mpr ⟨step, inside, rfl⟩

theorem nodes_getElem? {next : α → α} {head : ι → α} {length : ι → Nat} {list : ι} {step : Nat}
    (inside : step < length list) :
    (nodes next head length list)[step]? = some (next^[step] (head list)) :=
  List.getElem?_iterate next (head list) (length list) step inside

theorem length_nodes (next : α → α) (head : ι → α) (length : ι → Nat) (list : ι) :
    (nodes next head length list).length = length list := List.length_iterate _ _ _

theorem nodes_getLast {next : α → α} {head : ι → α} {length : ι → Nat} {list : ι} {front : List α} {node : α}
    (shape : nodes next head length list = front ++ [node]) : node = next^[length list - 1] (head list) := by
  have size : length list = front.length + 1 := by
    rw [← length_nodes next head length list, shape, List.length_append, List.length_singleton]
  have lookup := @nodes_getElem? _ _ next head length list (length list - 1) (by omega)
  rw [shape, List.getElem?_append_right (by omega), show length list - 1 - front.length = 0 by omega] at lookup
  exact Option.some.inj lookup

/-- Nodes keep their lists when the successors of other nodes change. -/
theorem nodes_congr {next next' : α → α} {head : ι → α} {length : ι → Nat} {list : ι}
    (agree : ∀ node ∈ nodes next head length list, next node = next' node) :
    nodes next' head length list = nodes next head length list :=
  (iterate_congr fun _ inside => agree _ (step_mem_nodes (by omega))).symm

/-- Lists that visit no node twice, share no node and end with the mark. -/
structure Linked (next : α → α) (head : ι → α) (length : ι → Nat) (mark : α) : Prop where
  nodup : ∀ list, (nodes next head length list).Nodup
  apart : ∀ first second, first ≠ second → ∀ node ∈ nodes next head length first, node ∉ nodes next head length second
  ends : ∀ list, ∀ node ∈ (nodes next head length list).getLast?, next node = mark

namespace Linked
variable {next next' : α → α} {head head' : ι → α} {length length' : ι → Nat} {mark node : α} {list : ι}

theorem empty (next : α → α) (head : ι → α) (mark : α) : Linked next head (fun _ : ι => 0) mark := by
  refine ⟨fun _ => List.nodup_nil, fun _ _ _ _ member => ?_, fun _ _ last => ?_⟩
  · cases member
  · cases last

/-- One list is replaced by nodes of its own and fresh ones, the others stay as they are. -/
theorem replace [DecidableEq ι] (linked : Linked next head length mark) {changed : List α}
    (nodes' : nodes next' head' length' = Function.update (nodes next head length) list changed)
    (agree : ∀ other, other ≠ list → ∀ node ∈ nodes next head length other, next node = next' node)
    (nodup : changed.Nodup) (fresh : ∀ node ∈ changed, ∀ other, other ≠ list → node ∉ nodes next head length other)
    (ends : ∀ node ∈ changed.getLast?, next' node = mark) : Linked next' head' length' mark := by
  refine ⟨fun other => ?_, fun first second different node member => ?_, fun other node last => ?_⟩
  · by_cases here : other = list
    · subst here; simpa only [nodes', Function.update_self] using nodup
    · simpa only [nodes', Function.update_of_ne here] using linked.nodup other
  · rw [nodes'] at member ⊢
    by_cases left : first = list
    · subst left
      have right : second ≠ first := different.symm
      rw [Function.update_self] at member
      rw [Function.update_of_ne right]
      exact fresh node member second right
    · rw [Function.update_of_ne left] at member
      by_cases right : second = list
      · subst right
        rw [Function.update_self]
        exact fun present => fresh node present first left member
      · rw [Function.update_of_ne right]
        exact linked.apart first second different node member
  · rw [nodes'] at last
    by_cases here : other = list
    · subst here
      rw [Function.update_self] at last
      exact ends node last
    · rw [Function.update_of_ne here] at last
      rw [← agree other here node (List.mem_of_getLast? last)]
      exact linked.ends other node last

/-- The steps of a list lead to different nodes. -/
theorem step_injective (linked : Linked next head length mark) {first second : Nat} (left : first < length list)
    (right : second < length list) (same : next^[first] (head list) = next^[second] (head list)) : first = second := by
  have inside : first < (nodes next head length list).length := by rwa [length_nodes]
  apply (List.getElem?_inj inside (linked.nodup list)).mp
  rw [nodes_getElem? left, nodes_getElem? right, same]

variable [DecidableEq α] [DecidableEq ι]

/-- A fresh node becomes the only one of an empty list. -/
theorem start (linked : Linked next head length mark) (fresh : ∀ other, node ∉ nodes next head length other) :
    nodes (Function.update next node mark) (Function.update head list node) (Function.update length list 1) =
      Function.update (nodes next head length) list [node] ∧
    Linked (Function.update next node mark) (Function.update head list node) (Function.update length list 1) mark := by
  have agree : ∀ other, ∀ known ∈ nodes next head length other, next known = Function.update next node mark known := by
    intro other known member
    rw [Function.update_of_ne]
    rintro rfl
    exact fresh other member
  have changed : nodes (Function.update next node mark) (Function.update head list node)
    (Function.update length list 1) =
      Function.update (nodes next head length) list [node] := by
    funext other
    by_cases here : other = list
    · subst here; simp [nodes]
    · rw [Function.update_of_ne here, ← nodes_congr (agree other)]
      simp [nodes, here]
  refine ⟨changed, linked.replace changed (fun other _ => agree other) (List.nodup_singleton _) ?_ ?_⟩
  · intro known member other _
    rw [List.mem_singleton.mp member]
    exact fresh other
  · intro known last
    cases last
    exact Function.update_self _ _ _

/-- A fresh node follows the last one of a list. -/
theorem append (linked : Linked next head length mark) (fresh : ∀ other, node ∉ nodes next head length other)
    {last : α} (more : 0 < length list) (isLast : last = next^[length list - 1] (head list)) :
    nodes (Function.update (Function.update next node mark) last node) head
      (Function.update length list (length list + 1)) =
      Function.update (nodes next head length) list (nodes next head length list ++ [node]) ∧
    Linked (Function.update (Function.update next node mark) last node) head
        (Function.update length list (length list + 1)) mark := by
  have member : last ∈ nodes next head length list := isLast ▸ step_mem_nodes (by omega)
  have different : node ≠ last := by rintro rfl; exact fresh list member
  have agree : ∀ other, ∀ known ∈ nodes next head length other, known ≠ last →
      next known = Function.update (Function.update next node mark) last node known := by
    intro other known present apart
    rw [Function.update_of_ne apart, Function.update_of_ne]
    rintro rfl
    exact fresh other present
  have others : ∀ other, other ≠ list → ∀ known ∈ nodes next head length other,
      next known = Function.update (Function.update next node mark) last node known := by
    intro other apart known present
    refine agree other known present ?_
    rintro rfl
    exact linked.apart other list apart _ present member
  have unlinked : ∀ step, step + 1 < length list → next (next^[step] (head list)) =
      Function.update (Function.update next node mark) last node (next^[step] (head list)) := by
    refine fun step inside => agree list _ (step_mem_nodes (by omega)) ?_
    rw [isLast]
    intro equal
    have := linked.step_injective (by omega) (by omega) equal
    omega
  have changed : nodes (Function.update (Function.update next node mark) last node) head
      (Function.update length list (length list + 1)) =
      Function.update (nodes next head length) list (nodes next head length list ++ [node]) := by
    funext other
    by_cases here : other = list
    · subst here
      simp only [nodes, Function.update_self]
      rw [iterate_succ_last, ← iterate_congr unlinked]
      congr 2
      rw [show length other = length other - 1 + 1 by omega, Function.iterate_succ_apply',
        iterate_step_congr unlinked (by omega), ← isLast, Function.update_self]
    · rw [Function.update_of_ne here, ← nodes_congr (others other here)]
      simp [nodes, here]
  refine ⟨changed, linked.replace changed others ?_ ?_ ?_⟩
  · refine List.nodup_append.mpr ⟨linked.nodup list, List.nodup_singleton _, ?_⟩
    rintro known present single inside rfl
    rw [List.mem_singleton.mp inside] at present
    exact fresh list present
  · intro known present other apart
    rcases List.mem_append.mp present with present | present
    · exact linked.apart list other apart.symm known present
    · rw [List.mem_singleton.mp present]; exact fresh other
  · intro known final
    have same : known = node := by simpa [eq_comm] using final
    subst known
    rw [Function.update_of_ne different, Function.update_self]

omit [DecidableEq α] in
/-- A list is emptied and its nodes may point anywhere. -/
theorem clear (linked : Linked next head length mark)
    (agree : ∀ node, node ∉ nodes next head length list → next' node = next node)
    (heads : ∀ other, other ≠ list → head' other = head other) :
    nodes next' head' (Function.update length list 0) = Function.update (nodes next head length) list [] ∧
    Linked next' head' (Function.update length list 0) mark := by
  have others : ∀ other, other ≠ list → ∀ known ∈ nodes next head length other, next known = next' known :=
    fun other apart known present => (agree known (linked.apart other list apart known present)).symm
  have changed : nodes next' head' (Function.update length list 0) =
      Function.update (nodes next head length) list [] := by
    funext other
    by_cases here : other = list
    · subst here; simp [nodes]
    · rw [Function.update_of_ne here, ← nodes_congr (others other here)]
      simp only [nodes, Function.update_of_ne here, heads other here]
  refine ⟨changed, linked.replace changed others List.nodup_nil ?_ ?_⟩
  · intro known present; cases present
  · intro known last; cases last

end Linked
end Egos.Library
