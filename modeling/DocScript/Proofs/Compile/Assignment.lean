import DocScript.Proofs.Compile.Stores

/-! # Stores come before loads

The compiler keeps one set of the names that have been assigned so far, in the order of the text,
whatever branch or loop an assignment stands in. A name gets into the set only together with a
store, and only names in the set are read. So in the code of a function a store stands somewhere
in front of each load, unless the local is a parameter.
-/

namespace DocScript

open Command

/-- One of the commands stores into the slot. -/
def StoresInto (commands : List Command) (slot : Nat) : Prop :=
  ∃ command ∈ commands, command.op.stores = true ∧ command.operand = slot

theorem StoresInto.mono {first second : List Command} {slot : Nat} (h : StoresInto first slot)
    (hsubset : first ⊆ second) : StoresInto second slot :=
  let ⟨command, hmem, hstores⟩ := h
  ⟨command, hsubset hmem, hstores⟩

theorem LocalSlot.stores_store (target : LocalSlot) : target.store.op.stores = true := by
  unfold store storeOp
  split <;> rfl

theorem split_singleton {before rest : List Command} {command other : Command}
    (h : [command] = before ++ other :: rest) : before = [] ∧ other = command := by
  cases before with
  | nil => exact ⟨rfl, (List.cons.inj h).1.symm⟩
  | cons head tail => simp at h

/-- What the commands load has been assigned in front of them, or is stored among them earlier; and
what counts as assigned behind them has been so in front of them, or is stored among them. -/
structure BodyScope.Assigns (body : BodyScope) (assigned : List String) (commands : List Command)
    (after : List String) : Prop where
  loaded : ∀ before command rest, commands = before ++ command :: rest → command.op = .loadLocal →
    (∃ name target, body.Reads assigned name target ∧ target.slot = command.operand) ∨
      StoresInto before command.operand
  covered : ∀ name target, body.Reads after name target →
    body.Reads assigned name target ∨ StoresInto commands target.slot

theorem BodyScope.Assigns.append {body : BodyScope} {assigned between after : List String}
    {first second : List Command} (hfirst : body.Assigns assigned first between)
    (hsecond : body.Assigns between second after) :
    body.Assigns assigned (first ++ second) after where
  loaded before command rest hsplit hload := by
    rcases split_append hsplit with ⟨behind, hfront⟩ | ⟨inner, rfl, hinner⟩
    · exact hfirst.loaded before command behind hfront hload
    · rcases hsecond.loaded inner command rest hinner hload with
        ⟨name, target, hread, hslot⟩ | hstored
      · rcases hfirst.covered name target hread with hearlier | hstored
        · exact .inl ⟨name, target, hearlier, hslot⟩
        · exact .inr (hslot ▸ hstored.mono (List.subset_append_left _ _))
      · exact .inr (hstored.mono (List.subset_append_right _ _))
  covered name target hread := by
    rcases hsecond.covered name target hread with hearlier | hstored
    · exact (hfirst.covered name target hearlier).imp_right
        (·.mono (List.subset_append_left _ _))
    · exact .inr (hstored.mono (List.subset_append_right _ _))

/-- Together with a store a name comes to count as assigned. -/
theorem BodyScope.Assigns.store {body : BodyScope} {assigned : List String} {name : String}
    {target : LocalSlot} (hwrite : body.Writes name target) :
    body.Assigns assigned [target.store] (marked assigned name) where
  loaded before command rest hsplit hload := by
    obtain ⟨-, rfl⟩ := split_singleton hsplit
    have hstores := target.stores_store
    rw [hload] at hstores
    cases hstores
  covered other found hread := by
    unfold marked at hread
    split at hread
    next => exact .inl hread
    next =>
      obtain ⟨hslot, hmem⟩ := hread
      rcases List.mem_cons.1 hmem with rfl | hmem
      · obtain rfl : target = found := Option.some.inj (hwrite.2.symm.trans hslot)
        exact .inr ⟨target.store, List.mem_singleton_self _, target.stores_store, rfl⟩
      · exact .inl ⟨hslot, hmem⟩

/-- All code assigns before it loads. What a branch or a loop assigns counts as assigned behind it,
whether it is run or not. -/
theorem BodyScope.composes_assigns (body : BodyScope) : body.Composes body.Assigns where
  nil := ⟨fun _ _ _ hsplit => by simp at hsplit, fun _ _ => .inl⟩
  append := .append
  load := fun {_ name target} hread => by
    refine ⟨fun before command rest hsplit _ => ?_, fun _ _ => .inl⟩
    obtain ⟨-, rfl⟩ := split_singleton hsplit
    exact .inl ⟨name, target, hread, rfl⟩
  store := .store
  other := fun {_ command} hcommand => by
    refine ⟨fun before other rest hsplit hload => ?_, fun _ _ => .inl⟩
    obtain ⟨-, rfl⟩ := split_singleton hsplit
    rw [hload] at hcommand
    cases hcommand

/-! ### Functions -/

namespace Translation

variable {signatures : SignatureTable} {space : String} {declaration : Json}
  {function : CompiledFunction Constant}
  (made : Translation signatures space declaration function)

include made

/-- The names of the parameters stand for the first locals. -/
theorem slot_lt_of_param {name : String} {target : LocalSlot}
    (hslot : made.names.slot? name = some target)
    (hparam : name ∈ made.signature.params.map Parameter.name) :
    target.slot < function.paramCount := by
  have hplace := (made.laidOut.slot name target).1 hslot
  have hcount : made.signature.slots.length = function.paramCount := by
    rw [made.paramCount, Signature.slots, List.length_map]
  refine Nat.lt_of_not_le fun hlocal => ?_
  rw [List.getElem?_append_right (hcount ▸ hlocal)] at hplace
  have hdistinct := made.laidOut.distinct
  rw [List.map_append, List.nodup_append] at hdistinct
  have hfirst : name ∈ made.signature.slots.map Prod.fst := by
    rw [Signature.slots, List.map_map]
    exact hparam
  exact hdistinct.2.2 name hfirst name
    (List.mem_map_of_mem (f := Prod.fst) (List.mem_of_getElem? hplace)) rfl

/-- In front of each load from a local that is no parameter stands a store into it. -/
theorem store_before_load {offset slot : Nat}
    (hmem : (offset, .operation .loadLocal slot) ∈ function.entries)
    (hlocal : function.paramCount ≤ slot) :
    ∃ earlier op, earlier < offset ∧ op.stores = true ∧
      (earlier, .operation op slot) ∈ function.entries := by
  have hwhole : BodyScope.Assigns ⟨signatures, made.names⟩
      (made.signature.params.map Parameter.name).reverse made.whole made.assigned :=
    made.composed (BodyScope.composes_assigns _)
  obtain ⟨before, rest, hsplit, hplace⟩ := split_of_mem_placed (made.mem_entries.1 hmem)
  rcases hwhole.loaded before ⟨.loadLocal, slot⟩ rest hsplit rfl with
    ⟨name, target, hread, hslot⟩ | ⟨command, hmem, hstores, hslot⟩
  · have hparam := made.slot_lt_of_param hread.1 (List.mem_reverse.1 hread.2)
    have hsame : target.slot = slot := hslot
    exact absurd (hsame ▸ hparam) (Nat.not_lt_of_ge hlocal)
  · obtain ⟨front, behind, rfl⟩ := List.append_of_mem hmem
    subst hslot
    refine ⟨size front, command.op, ?_, hstores, made.mem_entries.2 ?_⟩
    · have := command.op.width_pos
      rw [hplace, size_append, size_cons]
      omega
    · rw [hsplit, placed_append, placed_append, Nat.zero_add]
      exact List.mem_append_left _ (List.mem_append_right _ List.mem_cons_self)

end Translation

end DocScript
