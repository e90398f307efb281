import Egos.Proofs.SpawnUids
import Mathlib.Algebra.BigOperators.Fin
import Mathlib.Algebra.Order.BigOperators.Group.Finset

/-! Pids while the generator has not come around: a pid in use, or the sender of a pending
request, is not greater than the number of processes that have been created. -/

namespace Egos.Grass
open Library

def Kernel.creations (k : Kernel) : Nat := ∑ p, k.births p

namespace Kernel
variable {k after : Kernel} {p : Slot}

theorem Born.creations {uid : Uid} (born : k.Born after p uid) : after.creations = k.creations + 1 := by
  have rest : ∑ q ∈ Finset.univ.erase p, after.births q = ∑ q ∈ Finset.univ.erase p, k.births q :=
    Finset.sum_congr rfl fun q member => (born.others q (Finset.ne_of_mem_erase member)).1
  unfold Kernel.creations
  rw [← Finset.add_sum_erase _ _ (Finset.mem_univ p), ← Finset.add_sum_erase _ k.births (Finset.mem_univ p),
    born.births, rest]
  omega

end Kernel

theorem Ageing.creations {doomed : Uid → Prop} {k after : Kernel} (aged : Ageing doomed k after) :
    after.creations = k.creations :=
  Finset.sum_congr rfl fun p _ => aged.births p

namespace Spawning
variable {s after : System} {event : Event}

def GivenOut (k : Kernel) (pid : Pid) : Prop := 0 < pid.toNat ∧ pid.toNat ≤ k.creations

structure Early (s : System) : Prop where
  pidGen : s.kernel.pidGen = .ofNat (s.kernel.creations + 1)
  used : ∀ p, (s.kernel.procSet p).state ≠ .free → GivenOut s.kernel (s.kernel.procSet p).pid
  pending : ∀ request ∈ s.pending, GivenOut s.kernel request.src

theorem GivenOut.mono {k after : Kernel} {pid : Pid} (given : GivenOut k pid) (more : k.creations ≤ after.creations) :
    GivenOut after pid := ⟨given.1, given.2.trans more⟩

/-- Pid 0 comes after the last pid, and is not given out before. -/
theorem Early.unused (early : Early s) (few : s.kernel.creations < 2 ^ 32) : s.PidUnused := by
  have next : s.kernel.pidGen.toNat = (s.kernel.creations + 1) % 2 ^ 32 := by rw [early.pidGen, UInt32.toNat_ofNat']
  have other : ∀ pid, GivenOut s.kernel pid → pid ≠ s.kernel.pidGen := by
    rintro pid ⟨positive, most⟩ rfl
    omega
  exact ⟨fun p used => other _ (early.used p used), fun request member => other _ (early.pending request member)⟩

theorem Step.creations_le (step : Step s event after) (sane : s.Sane) :
    s.kernel.creations ≤ after.kernel.creations := by
  rcases step.change sane with ⟨doomed, aged, _⟩ | ⟨owner, parent, p, uid, _, _, _, _, born⟩
  · exact le_of_eq aged.creations.symm
  · rw [born.creations]
    exact Nat.le_succ _

theorem Step.early (step : Step s event after) (sane : s.Sane) (early : Early s)
    (few : after.kernel.creations < 2 ^ 32) : Early after := by
  have more := step.creations_le sane
  have pending : ∀ request ∈ after.pending, GivenOut after.kernel request.src := by
    intro request member
    rcases step.pending sane member with old | ⟨_, alive, src, _, _⟩
    · exact (early.pending request old).mono more
    · rw [src]
      exact (early.used _ alive).mono more
  rcases step.change sane with ⟨doomed, aged, _⟩ | ⟨owner, parent, p, uid, _, _, _, _, born⟩
  · refine ⟨?_, fun q used => ?_, pending⟩
    · rw [aged.pidGen, aged.creations, early.pidGen]
    · rw [(aged.ages q).pid]
      exact (early.used q fun free => used ((aged.ages q).free free)).mono more
  · refine ⟨?_, fun q used => ?_, pending⟩
    · rw [born.pidGen, born.creations, early.pidGen, UInt32.ofNat_add (s.kernel.creations + 1)]
      rfl
    · by_cases new : q = p
      · rw [new, born.pid, early.pidGen]
        have value : (UInt32.ofNat (s.kernel.creations + 1)).toNat = s.kernel.creations + 1 := by
          rw [UInt32.toNat_ofNat', Nat.mod_eq_of_lt]
          rw [← born.creations]
          exact few
        unfold GivenOut
        rw [value, born.creations]
        exact ⟨Nat.succ_pos _, le_rfl⟩
      · rw [(born.others q new).2] at used ⊢
        exact (early.used q used).mono more

theorem begun_early : Early begun := by
  refine ⟨by decide +kernel, ?_, nofun⟩
  have only : ∀ p, (begun.kernel.procSet p).state ≠ .free →
      0 < (begun.kernel.procSet p).pid.toNat ∧ (begun.kernel.procSet p).pid.toNat ≤ begun.kernel.creations := by
        decide +kernel
  exact only

/-- In a run that has created fewer processes than there are pids, every step so far was one with a pid
that nobody had. -/
private theorem run_early {events : List Event} (run : Run Step begun events s) (few : s.kernel.creations < 2 ^ 32) :
    s.Sane ∧ Named s ∧ Early s := by
  induction run with
  | nil => exact ⟨begun_named.1, begun_named.2, begun_early⟩
  | @snoc events middle event after run step ih =>
    have sane : middle.Sane := run.invariant (fun _ _ _ sane step => step.sane sane) begun_named.1
    have before := lt_of_le_of_lt (step.creations_le sane) few
    obtain ⟨_, named, early⟩ := ih before
    have fresh : FreshPid middle event := fun _ _ _ => early.unused before
    exact ⟨step.sane sane, step.named fresh sane named, step.early sane early few⟩

/-- Until as many processes have been created as there are pids, no two processes in the table have
the same pid and user identifiers do not escalate. -/
theorem pids_distinct {events : List Event} (run : Run Step begun events s) (few : s.kernel.creations < 2 ^ 32) :
    (∀ p q, (s.kernel.procSet p).state ≠ .free → (s.kernel.procSet q).state ≠ .free →
      (s.kernel.procSet p).pid = (s.kernel.procSet q).pid → p = q) ∧
    ∀ event after, Step s event after → Bounded s event after := by
  obtain ⟨sane, named, _⟩ := run_early run few
  exact ⟨named.distinct, fun event after step => step.bounded sane named⟩

/-- Main, the server and a process that the server has created. -/
theorem pids_distinct_three : ∃ events s, Run Step begun events s ∧ s.kernel.creations = 3 ∧
    (∀ p q, (s.kernel.procSet p).state ≠ .free → (s.kernel.procSet q).state ≠ .free →
      (s.kernel.procSet p).pid = (s.kernel.procSet q).pid → p = q) ∧
    ∀ event after, Step s event after → Bounded s event after := by
  let events : List Event := [
    .spawnInit 0, .kernel (.call (.recv .request 0 Spawnsvr.receiveSize 0)), .kernel (.round 0 0),
    .kernel (.call (.rpc 2 (bytesOf 1 ++ List.replicate 20 0) 8 0)), .kernel (.round 0 0), .serve 0]
  have plays : (events.foldlM System.take begun).any (fun s => s.kernel.creations = 3) = true := by decide +kernel
  obtain ⟨s, played, three⟩ := (Option.any_eq_true _ _).mp plays
  have created : s.kernel.creations = 3 := of_decide_eq_true three
  have run : Run Step begun events s := .of_foldlM System.take_step played
  exact ⟨events, s, run, created, pids_distinct run (by rw [created]; decide)⟩

end Spawning
end Egos.Grass
