import Egos.Library.Program
import Mathlib.Tactic.SplitIfs

/-! Programs that call services. A program is the tree of its calls; what a call does is
fixed when the program is run, so that one program can be run to its end in one state and
can also be interrupted between two calls. -/

namespace Egos.Library

/-- `Reply op` is what the call `op` returns. -/
inductive Effect {Op : Type} (Reply : Op → Type) (ε α : Type) where
  | pure (value : α)
  | halt (reason : ε)
  | call (op : Op) (next : Reply op → Effect Reply ε α)

namespace Effect
variable {Op : Type} {Reply : Op → Type} {σ ε α β : Type}

def bind (program : Effect Reply ε α) (next : α → Effect Reply ε β) : Effect Reply ε β :=
  match program with
  | .pure value => next value
  | .halt reason => .halt reason
  | .call op rest => .call op fun reply => (rest reply).bind next

instance : Monad (Effect Reply ε) where
  pure := .pure
  bind := bind

def perform (op : Op) : Effect Reply ε (Reply op) := .call op .pure

@[simp] theorem pure_bind (value : α) (next : α → Effect Reply ε β) :
    (Pure.pure value : Effect Reply ε α) >>= next = next value := rfl

@[simp] theorem halt_bind (reason : ε) (next : α → Effect Reply ε β) :
    (.halt reason : Effect Reply ε α) >>= next = .halt reason := rfl

@[simp] theorem call_bind (op : Op) (rest : Reply op → Effect Reply ε α) (next : α → Effect Reply ε β) :
    (.call op rest : Effect Reply ε α) >>= next = .call op fun reply => rest reply >>= next := rfl

@[simp] theorem perform_bind (op : Op) (next : Reply op → Effect Reply ε β) :
    (perform op : Effect Reply ε (Reply op)) >>= next = .call op next := rfl

/-- Runs a program to its end. -/
def run (serve : (op : Op) → Prog σ ε (Reply op)) : Effect Reply ε α → Prog σ ε α
  | .pure value => Pure.pure value
  | .halt reason => Prog.halt reason
  | .call op next => serve op >>= fun reply => (next reply).run serve

theorem run_bind {serve : (op : Op) → Prog σ ε (Reply op)} {program : Effect Reply ε α} {next : α → Effect Reply ε β} :
    (program >>= next).run serve = program.run serve >>= fun value => (next value).run serve := by
  induction program with
  | pure value => rfl
  | halt reason => rfl
  | call op rest ih => simp only [call_bind, run, Prog.bind_assoc, ih]

theorem run_perform {serve : (op : Op) → Prog σ ε (Reply op)} (op : Op) :
    (perform op : Effect Reply ε (Reply op)).run serve = serve op := by
  funext state
  change (serve op >>= Pure.pure) state = serve op state
  cases ran : serve op state with
  | done reply after => exact Prog.bind_done ran
  | halted reason after => exact Prog.bind_halted ran

/-- Every call that the program can make and every reason for which it can halt is
allowed, whatever the calls before return. -/
def Uses (allowed : Op → Prop) (stops : ε → Prop) : Effect Reply ε α → Prop
  | .pure _ => True
  | .halt reason => stops reason
  | .call op next => allowed op ∧ ∀ reply, (next reply).Uses allowed stops

theorem uses_bind {allowed : Op → Prop} {stops : ε → Prop} {program : Effect Reply ε α} {next : α → Effect Reply ε β}
    (first : program.Uses allowed stops) (rest : ∀ value, (next value).Uses allowed stops) :
    (program >>= next).Uses allowed stops := by
  induction program with
  | pure value => exact rest value
  | halt reason => exact first
  | call op continuation ih => exact ⟨first.1, fun reply => ih reply (first.2 reply)⟩

theorem Uses.mono {allowed wider : Op → Prop} {stops more : ε → Prop} {program : Effect Reply ε α}
    (uses : program.Uses allowed stops)
    (calls : ∀ op, allowed op → wider op) (halts : ∀ reason, stops reason → more reason) : program.Uses wider more := by
  induction program with
  | pure value => trivial
  | halt reason => exact halts reason uses
  | call op next ih => exact ⟨calls op uses.1, fun reply => ih reply (uses.2 reply)⟩

theorem uses_ite {allowed : Op → Prop} {stops : ε → Prop} {condition : Prop} [Decidable condition]
    {yes no : Effect Reply ε α}
    (first : yes.Uses allowed stops) (second : no.Uses allowed stops) :
    (if condition then yes else no).Uses allowed stops := by
  split_ifs
  · exact first
  · exact second

end Effect
end Egos.Library
