import Mathlib.Data.List.Nodup
import Mathlib.Logic.Function.Basic

/-! Lists of nodes that are linked by pointers, in one direction or in both. A null pointer
is `none`. -/

namespace Egos.Library

variable {α : Type} {link link' next prev : α → Option α} {start stop middle head tail : Option α}
    {node first second : α}
  {nodes front rest : List α}

/-- The links lead from one pointer through the nodes, in order, to the other pointer. -/
def Leads (link : α → Option α) : Option α → List α → Option α → Prop
  | start, [], stop => start = stop
  | start, node :: rest, stop => start = some node ∧ Leads link (link node) rest stop

namespace Leads

@[simp] theorem nil : Leads link start [] stop ↔ start = stop := Iff.rfl

@[simp] theorem cons : Leads link start (node :: rest) stop ↔ start = some node ∧ Leads link (link node) rest stop :=
  Iff.rfl

theorem append : Leads link start (front ++ rest) stop ↔ ∃ middle, Leads link start front middle ∧
    Leads link middle rest stop := by
  induction front generalizing start with
  | nil => simp
  | cons node front ih => simp [ih, and_assoc]

/-- Only the links of the nodes on the way matter. -/
theorem congr (path : Leads link start nodes stop) (agree : ∀ node ∈ nodes, link node = link' node) :
    Leads link' start nodes stop := by
  induction nodes generalizing start with
  | nil => exact path
  | cons node rest ih =>
    refine ⟨path.1, ih ?_ fun other member => agree other (List.mem_cons_of_mem _ member)⟩
    rw [← agree node List.mem_cons_self]
    exact path.2

/-- The link of a node that is not on the way is changed. -/
theorem update [DecidableEq α] {value : Option α} (path : Leads link start nodes stop) (apart : node ∉ nodes) :
    Leads (Function.update link node value) start nodes stop := by
  refine path.congr fun other member => (Function.update_of_ne ?_ _ _).symm
  rintro rfl
  exact apart member

/-- A null-terminated list is determined by its links. -/
theorem unique {other : List α} (path : Leads link start nodes none) (path' : Leads link start other none) :
    nodes = other := by
  induction nodes generalizing start other with
  | nil =>
    cases other with
    | nil => rfl
    | cons node other => exact nomatch path.symm.trans path'.1
  | cons node rest ih =>
    cases other with
    | nil => exact nomatch path'.symm.trans path.1
    | cons node' other =>
      obtain rfl : node = node' := Option.some.inj (path.1.symm.trans path'.1)
      rw [ih path.2 path'.2]

end Leads

/-- A list whose nodes know both neighbours. -/
structure Doubly (next prev : α → Option α) (head tail : Option α) (nodes : List α) : Prop where
  forwards : Leads next head nodes none
  backwards : Leads prev tail nodes.reverse none
  nodup : nodes.Nodup

namespace Doubly

theorem symm (linked : Doubly next prev head tail nodes) : Doubly prev next tail head nodes.reverse where
  forwards := linked.backwards
  backwards := by rw [List.reverse_reverse]; exact linked.forwards
  nodup := List.nodup_reverse.mpr linked.nodup

theorem empty : Doubly next prev none none [] := ⟨rfl, rfl, List.nodup_nil⟩

theorem head_of_cons (linked : Doubly next prev head tail (node :: rest)) : head = some node := linked.forwards.1

theorem singleton (last : next node = none) (first : prev node = none) :
    Doubly next prev (some node) (some node) [node] :=
  ⟨⟨rfl, last⟩, ⟨rfl, first⟩, List.nodup_singleton _⟩

/-- The last node of the list is the first one of the way back. -/
theorem tail_cons (linked : Doubly next prev head tail (first :: rest)) : ∃ middle,
    Leads prev tail rest.reverse middle ∧ middle = some first ∧ prev first = none := by
  obtain ⟨middle, path, arrives, ends⟩ := Leads.append.mp (List.reverse_cons ▸ linked.backwards)
  exact ⟨middle, path, arrives, ends⟩

variable [DecidableEq α]

/-- A new node is put before the first one. -/
theorem prepend (linked : Doubly next prev head tail (first :: rest)) (fresh : node ∉ first :: rest) :
    Doubly (Function.update next node (some first)) (Function.update (Function.update prev first (some node)) node none)
      (some node) tail (node :: first :: rest) where
  forwards := by
    refine ⟨rfl, ?_⟩
    rw [Function.update_self, ← linked.head_of_cons]
    exact linked.forwards.update fresh
  backwards := by
    obtain ⟨middle, path, arrives, -⟩ := linked.tail_cons
    have apart : first ∉ rest.reverse := fun member => (List.nodup_cons.mp linked.nodup).1 (List.mem_reverse.mp member)
    have apart' : node ∉ rest.reverse := fun member => fresh (List.mem_cons_of_mem _ (List.mem_reverse.mp member))
    have different : first ≠ node := fun same => fresh (same ▸ List.mem_cons_self)
    rw [List.reverse_cons, List.reverse_cons]
    refine Leads.append.mpr ⟨some node,
      Leads.append.mpr ⟨middle, (path.update apart).update apart', arrives, ?_⟩, rfl, ?_⟩
    · rw [Function.update_of_ne different, Function.update_self]; rfl
    · rw [Function.update_self]; rfl
  nodup := List.nodup_cons.mpr ⟨fresh, linked.nodup⟩

/-- The first of several nodes is taken away. -/
theorem dropFirst (linked : Doubly next prev head tail (first :: second :: rest)) :
    Doubly next (Function.update prev second none) (some second) tail (second :: rest) where
  forwards := ⟨rfl, linked.forwards.2.2⟩
  backwards := by
    have nodup := (List.nodup_cons.mp linked.nodup).2
    obtain ⟨middle, path, -, -⟩ := linked.tail_cons
    rw [List.reverse_cons] at path ⊢
    obtain ⟨between, path, arrives, -⟩ := Leads.append.mp path
    have apart : second ∉ rest.reverse := fun member => (List.nodup_cons.mp nodup).1 (List.mem_reverse.mp member)
    refine Leads.append.mpr ⟨between, path.update apart, arrives, ?_⟩
    rw [Function.update_self]; rfl
  nodup := (List.nodup_cons.mp linked.nodup).2

end Doubly
end Egos.Library
