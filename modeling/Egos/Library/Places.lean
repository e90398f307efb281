import Egos.Library.Chain

/-! Null-terminated lists whose links are told by their places: the head of the list, or the
link of a node. A pointer to a pointer is such a place. -/

namespace Egos.Library

inductive Place (α : Type) where
  | head
  | after (node : α)
  deriving DecidableEq

/-- The head of a list and the links of its nodes. -/
structure Links (α : Type) where
  head : Option α
  next : α → Option α

/-- The place of the link behind some nodes, which start at a place. -/
def placeAfter {α : Type} (start : Place α) : List α → Place α
  | [] => start
  | node :: rest => placeAfter (.after node) rest

variable {α : Type} {links other : Links α} {nodes front rest : List α} {node : α} {value : Option α} {start : Place α}

@[simp] theorem placeAfter_nil : placeAfter start ([] : List α) = start := rfl

@[simp] theorem placeAfter_cons : placeAfter start (node :: rest) = placeAfter (.after node) rest := rfl

theorem placeAfter_append : placeAfter start (front ++ rest) = placeAfter (placeAfter start front) rest := by
  induction front generalizing start with
  | nil => rfl
  | cons node front ih => exact ih

@[simp] theorem placeAfter_concat : placeAfter start (front ++ [node]) = .after node := by
  rw [placeAfter_append]
  rfl

/-- The list is empty, or its place is that of a last node. -/
theorem placeAfter_cases (start : Place α) (nodes : List α) :
    nodes = [] ∧ placeAfter start nodes = start ∨ ∃ front last, nodes = front ++ [last] ∧
        placeAfter start nodes = .after last := by
  rcases List.eq_nil_or_concat nodes with rfl | ⟨front, last, rfl⟩
  · exact .inl ⟨rfl, rfl⟩
  · refine .inr ⟨front, last, ?_⟩
    simp

namespace Links

def get (links : Links α) : Place α → Option α
  | .head => links.head
  | .after node => links.next node

def set [DecidableEq α] (links : Links α) (place : Place α) (value : Option α) : Links α :=
  match place with
  | .head => { links with head := value }
  | .after node => { links with next := Function.update links.next node value }

/-- The links lead through the nodes, from the head to a null link. -/
structure Chains (links : Links α) (nodes : List α) : Prop where
  leads : Leads links.next links.head nodes none
  nodup : nodes.Nodup

namespace Chains

theorem congr (chains : Chains links nodes) (head : other.head = links.head)
    (next : ∀ node ∈ nodes, links.next node = other.next node) :
    Chains other nodes := ⟨head ▸ chains.leads.congr next, chains.nodup⟩

theorem unique {nodes' : List α} (chains : Chains links nodes) (chains' : Chains links nodes') : nodes = nodes' :=
  chains.leads.unique chains'.leads

theorem head_nil (chains : Chains links []) : links.head = none := chains.leads

theorem head_cons (chains : Chains links (node :: rest)) : links.head = some node := chains.leads.1

theorem eq_nil (chains : Chains links nodes) (empty : links.head = none) : nodes = [] := by
  cases nodes with
  | nil => rfl
  | cons node rest => cases chains.head_cons.symm.trans empty

theorem eq_cons (chains : Chains links nodes) (first : links.head = some node) : ∃ rest, nodes = node :: rest := by
  cases nodes with
  | nil => cases chains.head_nil.symm.trans first
  | cons other rest =>
    cases chains.head_cons.symm.trans first
    exact ⟨rest, rfl⟩

/-- The link behind the nodes is null. -/
theorem get_last (chains : Chains links nodes) : links.get (placeAfter .head nodes) = none := by
  rcases placeAfter_cases .head nodes with ⟨rfl, place⟩ | ⟨front, last, rfl, place⟩
  · exact chains.head_nil
  · rw [place]
    obtain ⟨_, _, _, ends⟩ := Leads.append.mp chains.leads
    exact ends

variable [DecidableEq α]

/-- A node that links to the head becomes the head. -/
theorem prepend (chains : Chains links nodes) (fresh : node ∉ nodes) :
    Chains ((links.set (.after node) links.head).set .head (some node)) (node :: nodes) where
  leads := by
    refine ⟨rfl, ?_⟩
    change Leads (Function.update links.next node links.head)
      (Function.update links.next node links.head node) nodes none
    rw [Function.update_self]
    exact chains.leads.update fresh
  nodup := List.nodup_cons.mpr ⟨fresh, chains.nodup⟩

/-- A last node is linked behind the others. -/
theorem append (chains : Chains links nodes) (fresh : node ∉ nodes) (ends : links.next node = none) :
    Chains (links.set (placeAfter .head nodes) (some node)) (nodes ++ [node]) where
  leads := by
    rcases placeAfter_cases .head nodes with ⟨rfl, place⟩ | ⟨front, last, rfl, place⟩
    · exact ⟨rfl, ends⟩
    · rw [place]
      obtain ⟨middle, path, arrives, -⟩ := Leads.append.mp chains.leads
      have apart : last ∉ front := fun member =>
        (List.nodup_append.mp chains.nodup).2.2 last member last List.mem_cons_self rfl
      have different : node ≠ last := by
        rintro rfl
        exact fresh (List.mem_append_right _ List.mem_cons_self)
      refine Leads.append.mpr ⟨some node, Leads.append.mpr ⟨middle, path.update apart, arrives, ?_⟩, rfl, ?_⟩
      · exact Function.update_self ..
      · exact (Function.update_of_ne different ..).trans ends
  nodup := by
    refine List.nodup_append.mpr ⟨chains.nodup, List.nodup_singleton _, ?_⟩
    rintro known member other single rfl
    exact fresh (List.mem_singleton.mp single ▸ member)

/-- The link to a node is set to the node behind it. -/
theorem remove (chains : Chains links (front ++ node :: rest)) :
    Chains (links.set (placeAfter .head front) (links.next node)) (front ++ rest) where
  leads := by
    obtain ⟨middle, path, arrives, behind⟩ := Leads.append.mp chains.leads
    rcases placeAfter_cases .head front with ⟨rfl, place⟩ | ⟨before, last, rfl, place⟩
    · exact behind
    · rw [place]
      obtain ⟨start, path, begins, -⟩ := Leads.append.mp path
      have nodup := List.nodup_append.mp chains.nodup
      have apart : last ∉ before := fun member =>
        (List.nodup_append.mp nodup.1).2.2 last member last List.mem_cons_self rfl
      have inside : last ∈ before ++ [last] := List.mem_append_right _ List.mem_cons_self
      have later : last ∉ rest := fun member => nodup.2.2 last inside last (List.mem_cons_of_mem _ member) rfl
      refine Leads.append.mpr ⟨_, Leads.append.mpr ⟨start, path.update apart, begins, rfl⟩, ?_⟩
      change Leads (Function.update links.next last (links.next node))
        (Function.update links.next last (links.next node) last) rest none
      rw [Function.update_self]
      exact behind.update later
  nodup := by
    have sublist : (front ++ rest).Sublist (front ++ node :: rest) :=
      List.Sublist.append_left (List.sublist_cons_self _ _) _
    exact chains.nodup.sublist sublist

end Chains

/-- Every node knows the place of the link that points to it. -/
def Backed (back : α → Option (Place α)) : Place α → List α → Prop
  | _, [] => True
  | place, node :: rest => back node = some place ∧ Backed back (.after node) rest

namespace Backed
variable {back back' : α → Option (Place α)} {place : Place α}

@[simp] theorem nil : Backed back place [] := trivial

@[simp] theorem cons : Backed back place (node :: rest) ↔ back node = some place ∧ Backed back (.after node) rest :=
  Iff.rfl

theorem append : Backed back place (front ++ rest) ↔
    Backed back place front ∧ Backed back (placeAfter place front) rest := by
  induction front generalizing place with
  | nil => simp
  | cons node front ih => simp [ih, and_assoc]

theorem congr (backed : Backed back place nodes) (agree : ∀ node ∈ nodes, back' node = back node) :
    Backed back' place nodes := by
  induction nodes generalizing place with
  | nil => trivial
  | cons node rest ih =>
    exact ⟨(agree node List.mem_cons_self).trans backed.1,
      ih backed.2 fun other member => agree other (List.mem_cons_of_mem _ member)⟩

/-- The first node is pointed to by another link. -/
theorem restart (backed : Backed back start (node :: rest)) (first : back' node = some place)
    (agree : ∀ other ∈ rest, back' other = back other) :
    Backed back' place (node :: rest) := ⟨first, backed.2.congr agree⟩

end Backed
end Links
end Egos.Library
