/-
Nothing that a host does with a memory can go wrong on a machine.

A run starts from a new memory and goes on after every fault. `run` carries it
out in place, and a hazard would end it. That it comes to its end is the theorem
here: the sums, differences and slices of every operation and of every
instruction are in range in each state that a run can reach, whatever the
arguments are.

The argument is the invariant. `WellFormed` bounds the bytes of a memory by four
gibibytes and the current pages by the maximum. The first keeps every sum of
addresses far inside a 64-bit word, and the second keeps the room to grow from
going below zero. A run never leaves it (`WellFormed.run`), so agreement with the
definitions on `Memory` carries over from one step to all of them. The host is one
that has the bytes it is asked for; another one adds a fault to those a grow can end
with, and nothing else (`growOn_eq`).
-/
import WasmExec.Proofs.Machine.Instruction
import WasmExec.Proofs.Instruction.Effect

set_option autoImplicit false

namespace WasmExec.Machine

/-! ## Runs in place -/

/-- Performs an operation and hands a fault to the host, which goes on. -/
def attempt (op : Operation) : Action (Except Fault Answer) := fun m =>
  match perform op m with
  | .ok answer after => .ok (.ok answer) after
  | .error (.fault fault) after => .ok (.error fault) after
  | .error (.hazard hazard) after => .error (.hazard hazard) after

/-- **A run in place**: what each operation answered. A hazard ends it early. -/
def run : List Operation → Action (List (Except Fault Answer))
  | [] => pure []
  | op :: ops => do
    let answer ← attempt op
    let answers ← run ops
    return answer :: answers

/-- What one step of a run answered. -/
def answer (step : Memory × Operation) : Except Fault Answer :=
  (step.1.perform step.2).map Prod.fst

theorem attempt_agrees {m : Memory} (hm : m.WellFormed) (op : Operation) :
    attempt op m = .ok (answer (m, op)) (m.after op) := by
  rw [attempt, perform_agrees hm op, answer, Memory.after]
  cases m.perform op with
  | error fault => rfl
  | ok result => rfl

/-- **A run in place comes to its end**, with the answers and the memory of the
run on values. -/
theorem run_agrees (ops : List Operation) {m : Memory} (hm : m.WellFormed) :
    run ops m = .ok ((m.trace ops).map answer) (m.run ops) := by
  induction ops generalizing m with
  | nil => rfl
  | cons op ops ih =>
    -- the next step meets the memory that this one left, which is well formed
    rw [run, bind_ok (attempt_agrees hm op), bind_ok (ih (hm.after op))]
    rfl

/-! ## No hazard -/

/-- What agrees with a computation on values meets no hazard. -/
theorem settle_ne_hazard {α : Type} (m after : Memory) (e : Except Fault (α × Memory))
    (hazard : Hazard) : settle m e ≠ .error (.hazard hazard) after := by
  cases e with
  | error fault => exact nofun
  | ok result => exact nofun

theorem mapError_fault_ne_hazard {α : Type} (e : Except Fault α) (hazard : Hazard) :
    e.mapError Stop.fault ≠ .error (.hazard hazard) := by
  cases e with
  | error fault => exact nofun
  | ok a => exact nofun

/-- The instructions on a memory that a host can have. What an instruction leaves
behind is what operations can leave behind. -/
theorem execute_some_agrees {m : Memory} (hm : m.WellFormed) (i : Instruction)
    (args : List Value) :
    execute i (some m) args
      = ((i.execute (some m) args).1.mapError .fault,
        some (m.run (i.operation? args).toList)) := by
  have hsome : ∀ m' ∈ some m, m'.WellFormed := by
    rintro m' ⟨⟩
    exact hm
  rw [execute_agrees hsome, i.execute_memory]

/-- **Safety.** From any limits that a memory can be created with, every run in
place comes to its end, with the answers and the memory of the run on values. In
the state it reaches, the limits are those asked for and hold the size between
them, the size never falls, and growing adds the pages asked for exactly if the
maximum allows it. And there no operation and no instruction meets a hazard,
whatever it is given; an instruction leads to a state that a run reaches too. -/
theorem run_safe (minimum maximum : UInt32) (m₀ : Memory)
    (h : create minimum maximum = .ok m₀) (ops : List Operation) :
    ∃ m, run ops m₀ = .ok ((m₀.trace ops).map answer) m ∧ m = m₀.run ops
      ∧ (m.minimum ≤ m.current ∧ m.current ≤ m.maximum ∧ m.maximum ≤ 65536
        ∧ m.bytes.size = m.current * 65536)
      ∧ (m.minimum = minimum.toNat ∧ m.maximum = min maximum.toNat 65536)
      ∧ (∀ op, m.current ≤ (m.after op).current)
      ∧ (∀ delta : UInt32, m.current + delta.toNat ≤ m.maximum →
        ∃ pages grown, grow delta m = .ok pages grown ∧ pages.toInt = m.current
          ∧ grown.current = m.current + delta.toNat
          ∧ grown.content = m.content ++ List.replicate (delta.toNat * 65536) 0)
      ∧ (∀ delta : UInt32, m.maximum < m.current + delta.toNat →
        ∃ pages, grow delta m = .ok pages m ∧ pages.toInt = -1)
      ∧ (∀ op hazard after, perform op m ≠ .error (.hazard hazard) after)
      ∧ ∀ i args,
        (∀ hazard, (execute i (some m) args).1 ≠ .error (.hazard hazard))
          ∧ ∃ ops', (execute i (some m) args).2 = some (m₀.run (ops ++ ops')) := by
  rw [create_eq] at h
  obtain ⟨hnew, hmin₀, -, hmax₀⟩ := Memory.create_limits h
  obtain ⟨hmin, hmax, -⟩ := Memory.limits_run ops m₀
  have hm : (m₀.run ops).WellFormed := hnew.run ops
  refine ⟨m₀.run ops, run_agrees ops hnew, rfl,
    ⟨hm.minimum_le, hm.current_le, hm.maximum_le, hm.size_eq⟩,
    ⟨hmin.trans hmin₀, hmax.trans hmax₀⟩, ?_, ?_, ?_, ?_, ?_⟩
  · intro op
    exact ((m₀.run ops).limits_after op).2.2
  · intro delta hfits
    obtain ⟨hpages, hcontent, hcurrent, -, -⟩ := (Memory.grow_exact hm delta).1 hfits
    exact ⟨_, _, grow_agrees hm delta, hpages, hcurrent, hcontent⟩
  · intro delta hover
    obtain ⟨hpages, hsame⟩ := (Memory.grow_exact hm delta).2 hover
    refine ⟨_, ?_, hpages⟩
    rw [grow_agrees hm delta, hsame]
  -- whatever agrees with a computation on values ends in an answer or a fault
  · intro op hazard after
    rw [perform_agrees hm op]
    exact settle_ne_hazard _ _ _ hazard
  · intro i args
    rw [execute_some_agrees hm i args]
    refine ⟨mapError_fault_ne_hazard _, (i.operation? args).toList, ?_⟩
    rw [Memory.run_append]

/-- The smallest memory that can grow, filled and grown past its maximum. -/
theorem run_safe_one_page :
    ∃ m₀, create 1 2 = .ok m₀
      ∧ ∃ m, run [.fill 0 255 65536, .grow 1, .grow 0xffffffff] m₀
          = .ok ((m₀.trace [.fill 0 255 65536, .grow 1, .grow 0xffffffff]).map answer) m
        ∧ m.minimum = 1 ∧ m.maximum = 2 := by
  obtain ⟨m₀, hm₀⟩ : ∃ m₀, create 1 2 = .ok m₀ := ⟨_, create_eq 1 2⟩
  obtain ⟨m, hrun, -, -, ⟨hmin, hmax⟩, -⟩ :=
    run_safe 1 2 m₀ hm₀ [.fill 0 255 65536, .grow 1, .grow 0xffffffff]
  exact ⟨m₀, hm₀, m, hrun, hmin, hmax⟩

end WasmExec.Machine
