import DocScript.Machine.Capability
import DocScript.Memory.Arena

/-!
# Arenas as the memory of a machine
-/

namespace DocScript.Arena

/-- An operation on the arena of a state. An operation that fails changes nothing. -/
def service (arena : σ → Arena) (replace : σ → Arena → σ)
    (operation : Arena → Except FaultCause (α × Arena)) : Service σ α := fun state =>
  match operation (arena state) with
  | .ok (value, changed) => .ok value (replace state changed)
  | .error cause => .error { cause } state

/-- The memory that the arena of a state is. An allocation that fails may have been counted. -/
def interface (arena : σ → Arena) (replace : σ → Arena → σ) : MemoryInterface σ where
  allocate size := fun state =>
    match (arena state).allocate size with
    | (.ok address, changed) => .ok address (replace state changed)
    | (.error fault, changed) => .error { cause := .memory fault } (replace state changed)
  read address offset width := service arena replace fun arena =>
    (arena.read address offset width).map fun value => (.scalar value, arena)
  write address offset width value := service arena replace fun arena =>
    (arena.write address offset width value).map fun arena => ((), arena)
  free address := service arena replace fun arena =>
    ((arena.free address).mapError .memory).map fun arena => ((), arena)

end DocScript.Arena
