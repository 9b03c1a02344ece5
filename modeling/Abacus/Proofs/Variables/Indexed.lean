import Mathlib.Data.List.Basic
import Abacus.Proofs.Variables.Access

/-!
# Variables with an index

A map from names to slots saves the search for a name. The map is trusted: that the slot which it
tells has the name is not checked. Nor is it checked that a slot which is used is there. Where it is
not, this is no error of the expression but a fault, and nothing comes of it
(`Bindings.Indexed.follow?`).

On new variables neither can go wrong. The map has exactly the names of the slots, each with its own
slot (`Bindings.Indexed.IsExact`). So with the same accesses the indexed variables become what the
variables without an index become, every access comes to the same, and all slots that are used are
there (`Accesses.exists_indexed`).
-/

namespace Abacus

namespace Bindings

/-- The variables of one evaluation, and the slots of their names. -/
structure Indexed extends Bindings where
  /-- The slot of each name. -/
  ids : Std.ExtTreeMap String VarId

namespace Indexed

/-- No variables. -/
def empty : Indexed := ⟨∅, ∅⟩

instance : EmptyCollection Indexed := ⟨empty⟩

/-- The slot of a name, which the index tells, and the variables that have it. -/
def resolve (table : Indexed) (name : String) (store : Store) : VarId × Indexed :=
  match table.ids[name]? with
  | some id => (id, table)
  | none =>
    let id : VarId := ⟨table.size⟩
    (id, ⟨⟨table.slots ++ [⟨name, store.get? name⟩]⟩, table.ids.insert name id⟩)

/-- What reading an operand comes to, if its slot is there. -/
def value? (table : Indexed) : Operand → Option (Except EvalError Float)
  | .literal value => some (.ok value)
  | .var id => table.slots[id.index]?.map fun slot =>
    match slot.value with
    | some value => .ok value
    | none => .error (.uninitializedVariable slot.name)

/-- The name of a slot, if it is there. -/
def name? (table : Indexed) (id : VarId) : Option String :=
  table.slots[id.index]?.map Slot.name

/-- The variables after a slot was given a value, if it is there. -/
def set? (table : Indexed) (id : VarId) (value : Float) : Option Indexed :=
  table.slots[id.index]?.map fun slot =>
    { table with slots := table.slots.set id.index { slot with value := some value } }

/-- The variables after an access. There are none if a slot that it uses is not there, or if it comes
to something else than it tells. -/
def follow? (table : Indexed) : Access → Option Indexed
  | .resolve name store id =>
    if (table.resolve name store).1 = id then some (table.resolve name store).2 else none
  | .read operand outcome => if table.value? operand = some outcome then some table else none
  | .nameOf id name => if table.name? id = some name then some table else none
  | .write id value => table.set? id value

/-- Whether the index has exactly the names of the slots, each with its own slot. -/
def IsExact (table : Indexed) : Prop :=
  ∀ (name : String) (id : VarId), table.ids[name]? = some id ↔ table.names[id.index]? = some name

variable {table : Indexed} {bindings after : Bindings} {name other : String} {store : Store}
  {id : VarId} {access : Access}

theorem isExact_empty : (∅ : Indexed).IsExact := by
  intro name id
  rw [show (∅ : Indexed).ids = ∅ from rfl, Std.ExtTreeMap.getElem?_empty]
  exact ⟨nofun, nofun⟩

theorem exists_slot (h : id.index < bindings.size) :
    ∃ slot, bindings.slots[id.index]? = some slot :=
  ⟨_, List.getElem?_eq_getElem h⟩

/-- An operand whose slot is there is read as it is without an index. -/
theorem value?_eq_some {operand : Operand}
    (h : ∀ id ∈ operand.var?, id.index < table.size) :
    table.value? operand = some (table.value operand) := by
  cases operand with
  | literal => rfl
  | var id =>
    obtain ⟨slot, hs⟩ := exists_slot (h id rfl)
    cases hv : slot.value <;>
      simp [value?, value, read?, Bindings.name, names, List.getD_eq_getElem?_getD, hs, hv]

theorem name?_eq_some (h : id.index < table.size) : table.name? id = some (table.name id) := by
  obtain ⟨slot, hs⟩ := exists_slot h
  simp only [name?, Bindings.name, names, List.getD_eq_getElem?_getD, List.getElem?_map, hs,
    Option.map_some, Option.getD_some]

theorem set?_eq_some (h : id.index < table.size) (value : Float) :
    table.set? id value = some { table with toBindings := table.toBindings.set id value } := by
  obtain ⟨slot, hs⟩ := exists_slot h
  simp [set?, Bindings.set, List.modify_eq_set_getElem?, hs]

/-- After a name that was not there was resolved, its slot is there besides the others. -/
theorem getElem?_names_resolve_iff (hn : name ∉ bindings.names) :
    (bindings.resolve name store).2.names[id.index]? = some other ↔
      (id = (bindings.resolve name store).1 ∧ other = name) ∨
        bindings.names[id.index]? = some other := by
  constructor
  · intro h
    rcases Nat.lt_or_ge id.index bindings.size with hlt | hge
    · rw [names_resolve, if_neg hn, List.getElem?_append_left (by rwa [length_names])] at h
      exact .inr h
    · exact .inl (eq_of_size_le hn hge h)
  · rintro (⟨rfl, rfl⟩ | h)
    · exact getElem?_names_resolve
    · exact getElem?_names_resolve_of_eq_some h

/-- An exact index tells the slot to which a name is resolved, and stays exact. -/
theorem IsExact.resolve (h : table.IsExact) (hd : table.names.Nodup) (name : String)
    (store : Store) :
    (table.resolve name store).1 = (table.toBindings.resolve name store).1 ∧
      (table.resolve name store).2.toBindings = (table.toBindings.resolve name store).2 ∧
      (table.resolve name store).2.IsExact := by
  cases hid : table.ids[name]? with
  | some id =>
    have hslot := idOf?_of_getElem?_names hd ((h name id).1 hid)
    rw [Indexed.resolve, hid, resolve_of_idOf?_eq_some hslot]
    exact ⟨rfl, rfl, h⟩
  | none =>
    have hn : name ∉ table.names := by
      intro hm
      obtain ⟨i, hi⟩ := List.mem_iff_getElem?.1 hm
      rw [(h name ⟨i⟩).2 hi] at hid
      cases hid
    rw [Indexed.resolve, hid]
    refine ⟨by rw [resolve_of_notMem hn], by rw [resolve_of_notMem hn], fun other id => ?_⟩
    have hnames : (table.toBindings.resolve name store).2.names[id.index]? = some other ↔ _ :=
      getElem?_names_resolve_iff hn
    rw [resolve_of_notMem hn] at hnames
    rw [hnames, ← h, Std.ExtTreeMap.getElem?_insert]
    by_cases hne : name = other
    · subst hne
      simp [hid, eq_comm]
    · simp [hne, Ne.symm hne]

/-- An access that uses slots that are there is followed by indexed variables with an exact index,
which stays exact. -/
theorem IsExact.exists_follow? (h : table.IsExact) (hd : table.names.Nodup)
    (hu : ∀ id ∈ access.uses, id.index < table.size) (ha : access.Leads table.toBindings after) :
    ∃ table', table.follow? access = some table' ∧ table'.toBindings = after ∧ table'.IsExact := by
  cases ha with
  | resolve _ name store =>
    obtain ⟨hid, hbindings, hexact⟩ := h.resolve hd name store
    exact ⟨_, if_pos hid, hbindings, hexact⟩
  | read _ operand =>
    have hvalue := value?_eq_some fun id hid => hu id (Option.mem_toList.2 hid)
    exact ⟨table, if_pos hvalue, rfl, h⟩
  | nameOf _ id => exact ⟨table, if_pos (name?_eq_some (hu id (List.mem_singleton_self id))), rfl, h⟩
  | write _ id value =>
    refine ⟨_, set?_eq_some (hu id (List.mem_singleton_self id)) value, rfl, fun name other => ?_⟩
    have hnames : (table.toBindings.set id value).names = table.names := names_set value
    rw [hnames]
    exact h name other

end Indexed

end Bindings

/-- Indexed variables follow all accesses to new variables: they become the same, and the index is
exact. -/
theorem Accesses.exists_indexed {log : List Access} {bindings : Bindings}
    (h : Accesses [] ∅ log bindings) :
    ∃ table : Bindings.Indexed, log.foldlM Bindings.Indexed.follow? ∅ = some table ∧
      table.toBindings = bindings ∧ table.IsExact := by
  induction h with
  | nil => exact ⟨∅, rfl, rfl, Bindings.Indexed.isExact_empty⟩
  | concat h hu ha ih =>
    obtain ⟨table, hfollow, rfl, hexact⟩ := ih
    have hrecorded := h.isRecorded
    obtain ⟨table', hlast, hbindings, hexact'⟩ := hexact.exists_follow? hrecorded.nodup
      (fun id hid => hrecorded.lt_size_of_mem_returned ((hu id hid).resolve_left nofun)) ha
    refine ⟨table', ?_, hbindings, hexact'⟩
    rw [List.foldlM_append, hfollow]
    simpa using hlast

end Abacus
