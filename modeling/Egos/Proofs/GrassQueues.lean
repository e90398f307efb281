import Mathlib.Data.Set.Insert
import Egos.Grass.Process
import Egos.Library.Tally

/-! Where processes are listed: the run queues, the list of free slots and the two
counters. The slots in `off` are on no run queue although their state may say so:
the current process, and a process on its way into or out of a queue. -/

namespace Egos.Grass
open Library

namespace Kernel
variable {k : Kernel} {p q : Slot} {record : Process}

@[simp] theorem put_self : (k.put p record).procSet p = record := Function.update_self ..

theorem put_of_ne (other : q ≠ p) : (k.put p record).procSet q = k.procSet q := Function.update_of_ne other ..

@[simp] theorem record_procSet {life : Life} : (k.record life).procSet = k.procSet := rfl

theorem put_put {again : Process} : (k.put p record).put p again = k.put p again := by
  unfold put
  rw [Function.update_idem]

theorem tally_put {test : Process → Bool} :
    tally test (k.put p record).procSet = tally test k.procSet - weight test (k.procSet p) + weight test record :=
  tally_update ..

/-- What holds of the new record and of all the others holds of every record. -/
theorem put_cases (holds : Slot → Process → Prop) (here : holds p record) (others : ∀ q, q ≠ p → holds q (k.procSet q))
    (q : Slot) : holds q ((k.put p record).procSet q) := by
  by_cases same : q = p
  · subst same; rw [put_self]; exact here
  · rw [put_of_ne same]; exact others q same

end Kernel

namespace ProcState

def queued : ProcState → Bool
  | .runnable | .zombie => true
  | .waiting | .free => false

def live : ProcState → Bool
  | .runnable | .waiting => true
  | .zombie | .free => false

end ProcState

def inUse (p : Process) : Bool := p.state ≠ .free

def isRunnable (p : Process) : Bool := p.state = .runnable

structure Queues (off : Set Slot) (k : Kernel) : Prop where
  mem : ∀ level p, p ∈ k.mtlQueue level ↔
    p ∉ off ∧ (k.procSet p).state.queued = true ∧ level.val = (k.procSet p).priority
  nodup : ∀ level, (k.mtlQueue level).Nodup
  priority : ∀ p, (k.procSet p).priority < MAX_PRIORITY
  freeMem : ∀ p, p ∈ k.procFree ↔ (k.procSet p).state = .free
  freeNodup : k.procFree.Nodup
  nprocs : k.procNprocs = tally inUse k.procSet
  nrunnable : k.procNrunnable = tally isRunnable k.procSet

def pushed (queues : Level → List Slot) (priority : Nat) (p : Slot) : Level → List Slot :=
  fun level => if level.val = priority then queues level ++ [p] else queues level

namespace Queues
variable {off : Set Slot} {k after : Kernel} {p : Slot} {record : Process}

/-- Only the slots that a queue might hold matter for what is set aside. -/
theorem reoff {other : Set Slot} (queues : Queues off k)
    (same : ∀ q, (k.procSet q).state.queued = true → (q ∈ other ↔ q ∈ off)) : Queues other k := by
  refine { queues with mem := ?_ }
  intro level q
  rw [queues.mem]
  constructor
  · rintro ⟨out, ready, place⟩
    exact ⟨fun inside => out ((same q ready).mp inside), ready, place⟩
  · rintro ⟨out, ready, place⟩
    exact ⟨fun inside => out ((same q ready).mpr inside), ready, place⟩

/-- One process changes, but neither its slot's use nor its place in a queue. -/
theorem replace (queues : Queues off k) (set : after.procSet = (k.put p record).procSet)
    (place : p ∈ off ∨ (record.priority = (k.procSet p).priority ∧ record.state.queued = (k.procSet p).state.queued))
    (priority : record.priority < MAX_PRIORITY) (use : record.state = .free ↔ (k.procSet p).state = .free)
    (sameQueues : after.mtlQueue = k.mtlQueue) (sameFree : after.procFree = k.procFree)
    (sameNprocs : after.procNprocs = k.procNprocs)
    (nrunnable : after.procNrunnable = k.procNrunnable - weight isRunnable (k.procSet p) + weight isRunnable record) :
    Queues off after := by
  refine ⟨?_, ?_, ?_, ?_, ?_, ?_, ?_⟩
  · intro level q
    rw [sameQueues, queues.mem, set]
    by_cases same : q = p
    · subst same
      rw [Kernel.put_self]
      rcases place with inside | ⟨samePriority, sameQueued⟩
      · exact ⟨fun held => absurd inside held.1, fun held => absurd inside held.1⟩
      · rw [samePriority, sameQueued]
    · rw [Kernel.put_of_ne same]
  · rw [sameQueues]; exact queues.nodup
  · intro q
    rw [set]
    exact Kernel.put_cases (fun _ entry => entry.priority < MAX_PRIORITY) priority
      (fun other _ => queues.priority other) q
  · intro q
    rw [sameFree, queues.freeMem, set]
    by_cases same : q = p
    · subst same; rw [Kernel.put_self]; exact use.symm
    · rw [Kernel.put_of_ne same]
  · rw [sameFree]; exact queues.freeNodup
  · have sameUse : inUse record = inUse (k.procSet p) := by
      unfold inUse
      exact decide_eq_decide.mpr (not_congr use)
    rw [sameNprocs, set, Kernel.tally_put, queues.nprocs]
    unfold weight
    rw [sameUse]
    omega
  · rw [nrunnable, set, Kernel.tally_put, queues.nrunnable]

/-- A process that was set aside goes to the end of the queue of its priority. -/
theorem push (queues : Queues off k) (aside : p ∈ off) (ready : (k.procSet p).state.queued = true)
    (set : after.procSet = k.procSet) (sameQueues : after.mtlQueue = pushed k.mtlQueue (k.procSet p).priority p)
    (sameFree : after.procFree = k.procFree) (sameNprocs : after.procNprocs = k.procNprocs)
    (sameNrunnable : after.procNrunnable = k.procNrunnable) : Queues (off \ {p}) after := by
  refine ⟨?_, ?_, by rw [set]; exact queues.priority, by rw [sameFree, set]; exact queues.freeMem,
    by rw [sameFree]; exact queues.freeNodup, by rw [sameNprocs, set]; exact queues.nprocs,
    by rw [sameNrunnable, set]; exact queues.nrunnable⟩
  · intro level q
    rw [sameQueues, set]
    unfold pushed
    have listed := queues.mem level q
    by_cases same : q = p
    · subst same
      have absent : q ∉ k.mtlQueue level := fun inside => (listed.mp inside).1 aside
      by_cases here : level.val = (k.procSet q).priority
      · simp [here, ready]
      · simp [here, absent]
    · have outside : q ∉ off \ {p} ↔ q ∉ off := by simp [same]
      rw [outside, ← listed]
      by_cases here : level.val = (k.procSet p).priority
      · simp [here, same]
      · simp [here]
  · intro level
    rw [sameQueues]
    unfold pushed
    by_cases here : level.val = (k.procSet p).priority
    · rw [if_pos here]
      have absent : p ∉ k.mtlQueue level := fun inside => ((queues.mem level p).mp inside).1 aside
      exact List.nodup_append.mpr ⟨queues.nodup level, List.nodup_singleton p, by
        intro q inside other last
        rw [List.mem_singleton.mp last]
        rintro rfl
        exact absent inside⟩
    · rw [if_neg here]
      exact queues.nodup level

/-- The head of a queue is set aside. -/
theorem pop {level : Level} {rest : List Slot} (queues : Queues off k) (head : k.mtlQueue level = p :: rest)
    (set : after.procSet = k.procSet) (sameQueues : after.mtlQueue = Function.update k.mtlQueue level rest)
    (sameFree : after.procFree = k.procFree) (sameNprocs : after.procNprocs = k.procNprocs)
    (sameNrunnable : after.procNrunnable = k.procNrunnable) : Queues (insert p off) after := by
  have nodup := queues.nodup level
  rw [head] at nodup
  have fresh := (List.nodup_cons.mp nodup).1
  have listed := (queues.mem level p).mp (by rw [head]; exact List.mem_cons_self)
  refine ⟨?_, ?_, by rw [set]; exact queues.priority, by rw [sameFree, set]; exact queues.freeMem,
    by rw [sameFree]; exact queues.freeNodup, by rw [sameNprocs, set]; exact queues.nprocs,
    by rw [sameNrunnable, set]; exact queues.nrunnable⟩
  · intro other q
    have before := queues.mem other q
    rw [sameQueues, set]
    by_cases same : q = p
    · subst same
      have absent : q ∉ Function.update k.mtlQueue level rest other := by
        by_cases here : other = level
        · subst here; rw [Function.update_self]; exact fresh
        · rw [Function.update_of_ne here]
          intro inside
          exact here (Fin.ext ((before.mp inside).2.2.trans listed.2.2.symm))
      simp [absent]
    · have outside : q ∉ insert p off ↔ q ∉ off := by simp [same]
      rw [outside, ← before]
      by_cases here : other = level
      · subst here; rw [Function.update_self, head]; simp [same]
      · rw [Function.update_of_ne here]
  · intro other
    rw [sameQueues]
    by_cases here : other = level
    · subst here; rw [Function.update_self]; exact (List.nodup_cons.mp nodup).2
    · rw [Function.update_of_ne here]; exact queues.nodup other

/-- A zombie that is on no queue gives its slot back. -/
theorem release (queues : Queues off k) (aside : p ∈ off) (dead : (k.procSet p).state = .zombie)
    (set : after.procSet = (k.put p record).procSet) (freed : record.state = .free)
    (priority : record.priority < MAX_PRIORITY) (sameQueues : after.mtlQueue = k.mtlQueue)
    (added : after.procFree = k.procFree ++ [p]) (nprocs : after.procNprocs = k.procNprocs - 1)
    (sameNrunnable : after.procNrunnable = k.procNrunnable) : Queues off after := by
  have absent : p ∉ k.procFree := by rw [queues.freeMem, dead]; exact ProcState.noConfusion
  refine ⟨?_, ?_, ?_, ?_, ?_, ?_, ?_⟩
  · intro level q
    rw [sameQueues, queues.mem, set]
    by_cases same : q = p
    · subst same
      exact ⟨fun held => absurd aside held.1, fun held => absurd aside held.1⟩
    · rw [Kernel.put_of_ne same]
  · rw [sameQueues]; exact queues.nodup
  · intro q
    rw [set]
    exact Kernel.put_cases (fun _ entry => entry.priority < MAX_PRIORITY) priority
      (fun other _ => queues.priority other) q
  · intro q
    rw [added, set]
    by_cases same : q = p
    · subst same; simp [freed]
    · rw [Kernel.put_of_ne same]; simp [same, queues.freeMem]
  · rw [added]
    exact List.nodup_append.mpr ⟨queues.freeNodup, List.nodup_singleton p, by
      intro q inside other last
      rw [List.mem_singleton.mp last]
      rintro rfl
      exact absent inside⟩
  · rw [nprocs, set, Kernel.tally_put, queues.nprocs]
    simp [weight, inUse, freed, dead]
  · rw [sameNrunnable, set, Kernel.tally_put, queues.nrunnable]
    simp [weight, isRunnable, freed, dead]

/-- A free slot is taken for a runnable process, which starts set aside. -/
theorem alloc {rest : List Slot} (queues : Queues off k) (head : k.procFree = p :: rest)
    (set : after.procSet = (k.put p record).procSet) (runnable : record.state = .runnable)
    (priority : record.priority < MAX_PRIORITY) (sameQueues : after.mtlQueue = k.mtlQueue)
    (taken : after.procFree = rest) (nprocs : after.procNprocs = k.procNprocs + 1)
    (nrunnable : after.procNrunnable = k.procNrunnable + 1) : Queues (insert p off) after := by
  have nodup := queues.freeNodup
  rw [head] at nodup
  have fresh := (List.nodup_cons.mp nodup).1
  have free : (k.procSet p).state = .free := (queues.freeMem p).mp (by rw [head]; exact List.mem_cons_self)
  refine ⟨?_, ?_, ?_, ?_, ?_, ?_, ?_⟩
  · intro level q
    rw [sameQueues, queues.mem, set]
    by_cases same : q = p
    · subst same
      rw [free]
      simp [ProcState.queued]
    · rw [Kernel.put_of_ne same]
      simp [same]
  · rw [sameQueues]; exact queues.nodup
  · intro q
    rw [set]
    exact Kernel.put_cases (fun _ entry => entry.priority < MAX_PRIORITY) priority
      (fun other _ => queues.priority other) q
  · intro q
    rw [taken, set]
    have before := queues.freeMem q
    rw [head] at before
    by_cases same : q = p
    · subst same; simp [fresh, runnable]
    · rw [Kernel.put_of_ne same, ← before]; simp [same]
  · rw [taken]; exact (List.nodup_cons.mp nodup).2
  · rw [nprocs, set, Kernel.tally_put, queues.nprocs]
    simp [weight, inUse, runnable, free]
  · rw [nrunnable, set, Kernel.tally_put, queues.nrunnable]
    simp [weight, isRunnable, runnable, free]

/-- There is a process as long as some slot is in use. -/
theorem nprocs_pos (queues : Queues off k) (used : (k.procSet p).state ≠ .free) : 0 < k.procNprocs := by
  have passes : inUse (k.procSet p) = true := decide_eq_true used
  rw [queues.nprocs]
  exact tally_pos passes

end Queues
end Egos.Grass
