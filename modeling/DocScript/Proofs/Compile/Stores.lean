import DocScript.Proofs.Compile.Composition

/-! # What compiled code stores

Many forms of statements store into a local. Whichever does, the local may be written, and the
operation is the one for its type: what is stored into an integer goes through the operation that
makes an integer of it.
-/

namespace DocScript

open Command

/-- What the commands store they store into locals that may be written, each by the operation for
its type. -/
def BodyScope.StoresWell (body : BodyScope) (commands : List Command) : Prop :=
  ∀ command ∈ commands, command.op.stores = true →
    ∃ name target, body.Writes name target ∧ command = target.store

theorem BodyScope.composes_storesWell (body : BodyScope) :
    body.Composes fun _ commands _ => body.StoresWell commands where
  nil := fun _ hmem => absurd hmem List.not_mem_nil
  append := fun hfirst hsecond command hmem =>
    (List.mem_append.1 hmem).elim (hfirst command) (hsecond command)
  load := by
    intro _ _ _ _ command hmem hstores
    obtain rfl := List.mem_singleton.1 hmem
    cases hstores
  store := fun hwrite _ hmem _ => ⟨_, _, hwrite, List.mem_singleton.1 hmem⟩
  other := by
    intro _ command hother found hmem hstores
    obtain rfl := List.mem_singleton.1 hmem
    rw [Opcode.usesLocal_of_stores hstores] at hother
    cases hother

/-- A store in a function that translates a declaration is into a declared local, which is no
parameter, by the operation for its type. -/
theorem Translation.store_declared {signatures : SignatureTable} {space : String}
    {declaration : Json} {function : CompiledFunction Constant}
    (made : Translation signatures space declaration function) {offset slot : Nat} {op : Opcode}
    (hmem : (offset, .operation op slot) ∈ function.entries) (hstores : op.stores = true) :
    function.paramCount ≤ slot ∧ ∃ name type,
      (declaredLocals declaration)[slot - function.paramCount]? = some (name, type) ∧
        op = (LocalSlot.mk slot type).storeOp := by
  have hwritten : function.paramCount ≤ slot := (made.allows hmem).written hstores
  have hwhole : BodyScope.StoresWell ⟨signatures, made.names⟩ made.whole :=
    made.composed (BodyScope.composes_storesWell _)
  obtain ⟨name, target, hwrite, hcommand⟩ :=
    hwhole _ (mem_of_mem_placed (made.mem_entries.1 hmem)) hstores
  obtain ⟨rfl, rfl⟩ := Command.mk.inj hcommand
  refine ⟨hwritten, name, target.type, ?_, rfl⟩
  have hslot := (made.laidOut.slot name target).1 hwrite.2
  have hparams : made.signature.slots.length = function.paramCount := by
    rw [Signature.slots, List.length_map, made.paramCount]
  rwa [List.getElem?_append_right (hparams ▸ hwritten), hparams] at hslot

end DocScript
