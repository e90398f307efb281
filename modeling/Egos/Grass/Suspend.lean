import Egos.Grass.Machine

/-! The loop of proc_yield with the variable `next`: how long it waits for interrupts when no
process can run. -/

namespace Egos.Grass
open Library

/-- One process in the search for timeouts; `next` is the time until which proc_yield may wait. -/
def checkTimeoutNext (now : Time) (p : Slot) (next : Time) : Kern Time := do
  let k ← .get
  match k.procShuttingDown && (k.procSet p).state ≠ .free with
  | true => do
    procZap none p STAT_SHUTDOWN
    pure next
  | false =>
    match (k.procSet p).state = .waiting && (k.procSet p).alarmSet with
    | true => do
      when ((k.procSet p).exptime ≤ now) (procWakeup p)
      let k ← .get
      pure (if (k.procSet p).exptime < next then (k.procSet p).exptime else next)
    | false => pure next

def searchTimeouts (now : Time) : List Slot → Time → Kern Time
  | [], next => pure next
  | p :: rest, next => do
    let next ← checkTimeoutNext now p next
    searchTimeouts now rest next

/-- A round after the search for timeouts. -/
def procYieldPick (later : Time) : Kern Turn := do
  let next ← pick (List.finRange MAX_PRIORITY)
  let k ← .get
  ensure (k.procNprocs ≠ 0) "proc_yield" "proc_nprocs > 0"
  match next with
  | none => noneFound
  | some next =>
    switchTo next later
    resume
    pure .running

/-- One round of the loop with the value of `next` at its end. A round that ends with `yielding`
calls intr_suspend(next - now). -/
def procYieldRoundNext (now later : Time) : Kern (Turn × Time) := do
  let k ← .get
  ensure (k.procNprocs ≠ 0) "proc_yield" "proc_nprocs > 0"
  match k.procCurfew ≠ 0 && k.procCurfew < now with
  | true => .halt .exit
  | false =>
    let next ← searchTimeouts now procSlots (now + 1000)
    let turn ← procYieldPick later
    pure (turn, next)

end Egos.Grass
