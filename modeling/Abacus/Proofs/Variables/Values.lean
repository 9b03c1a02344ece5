import Abacus.Evaluation.Outcome
import Abacus.Proofs.Operation.Local

/-!
# Values by name

The value that a variable has in an evaluation, asked for by its name (`Bindings.valueOf?`). A slot
keeps its name (`getElem?_names_of_idOf?`), so resolving one name leaves the values of the others
alone (`valueOf?_resolve_of_ne`), and writing back stores each variable with its value
(`Store.get?_commit`).
-/

namespace Abacus

/-- The value of a variable in an evaluation, if it is there and has one. -/
def Bindings.valueOf? (bindings : Bindings) (name : String) : Option Float :=
  (bindings.idOf? name).bind bindings.read?

theorem Bindings.valueOf?_cons (slot : Slot) (slots : List Slot) (name : String) :
    valueOf? ⟨slot :: slots⟩ name =
      if slot.name = name then slot.value else valueOf? ⟨slots⟩ name := by
  by_cases h : slot.name = name
  · simp [valueOf?, idOf?, names, read?, List.idxOf?_cons, h]
  · simp only [valueOf?, idOf?, names, List.map_cons, List.idxOf?_cons, beq_eq_false_iff_ne.2 h, h,
      if_false, Option.map_map, Bool.false_eq_true]
    cases List.idxOf? name (slots.map Slot.name) with
    | none => rfl
    | some i => simp [read?]

theorem Bindings.valueOf?_of_notMem {bindings : Bindings} {name : String}
    (h : name ∉ bindings.names) : bindings.valueOf? name = none := by
  rw [valueOf?, idOf?_eq_none_iff.2 h, Option.bind_none]

namespace Bindings

variable {bindings : Bindings} {store : Store} {name other : String} {id : VarId}

/-- The slot of a name has the name. -/
theorem getElem?_names_of_idOf? (h : bindings.idOf? name = some id) :
    bindings.names[id.index]? = some name := by
  obtain ⟨i, hi, rfl⟩ := Option.map_eq_some_iff.1 h
  obtain ⟨hlt, hname, _⟩ := List.idxOf?_eq_some_iff.1 hi
  rw [List.getElem?_eq_getElem hlt, hname]

/-- The slot that a name is resolved to has the name. -/
theorem getElem?_names_resolve :
    (bindings.resolve name store).2.names[(bindings.resolve name store).1.index]? = some name := by
  cases h : bindings.idOf? name with
  | some id =>
    rw [resolve_of_idOf?_eq_some h]
    exact getElem?_names_of_idOf? h
  | none =>
    rw [resolve_of_idOf?_eq_none h]
    simp [names, size]

/-- Slots that are there keep their names while another name is resolved. -/
theorem getElem?_names_resolve_of_eq_some {i : Nat} (h : bindings.names[i]? = some other) :
    (bindings.resolve name store).2.names[i]? = some other := by
  rw [names_resolve]
  split
  · exact h
  · rw [List.getElem?_append_left (List.getElem?_eq_some_iff.1 h).1, h]

/-- Resolving a name leaves the values of all others alone. -/
theorem valueOf?_resolve_of_ne (h : other ≠ name) :
    (bindings.resolve name store).2.valueOf? other = bindings.valueOf? other := by
  cases hid : bindings.idOf? name with
  | some id => rw [resolve_of_idOf?_eq_some hid]
  | none =>
    rw [resolve_of_idOf?_eq_none hid]
    obtain ⟨slots⟩ := bindings
    clear hid
    induction slots with
    | nil =>
      rw [List.nil_append, valueOf?_cons, if_neg (Ne.symm h)]
    | cons slot slots ih =>
      rw [List.cons_append, valueOf?_cons, valueOf?_cons, ih]

/-- A variable whose slot is not handed over keeps its value. -/
theorem AgreeOutside.valueOf?_eq {handed : List Operand} {after : Bindings}
    (h : bindings.AgreeOutside handed after)
    (hn : ∀ id, .var id ∈ handed → bindings.names[id.index]? ≠ some name) :
    after.valueOf? name = bindings.valueOf? name := by
  have hid : after.idOf? name = bindings.idOf? name := by
    rw [idOf?, idOf?, h.names]
  rw [valueOf?, valueOf?, hid]
  cases hb : bindings.idOf? name with
  | none => rfl
  | some id => exact h.read? id fun hm => hn id hm (getElem?_names_of_idOf? hb)

end Bindings

namespace Store

variable {s t : Store} {name : String}

/-- Stores that agree on a name still do when the same variables have been stored in both. -/
theorem get?_insertMany_congr (entries : List (String × Option Float)) (h : s.get? name = t.get? name) :
    (s.insertMany entries).get? name = (t.insertMany entries).get? name := by
  induction entries generalizing s t with
  | nil => exact h
  | cons v entries ih =>
    rw [insertMany_cons, insertMany_cons]
    refine ih ?_
    cases hv : v.2 with
    | none => exact h
    | some value => rw [Option.elim_some, Option.elim_some, get?_insert, get?_insert, h]

/-- A variable of the evaluation is stored with its value, and whatever has none keeps its entry. -/
theorem get?_commit {bindings : Bindings} (h : bindings.names.Nodup) :
    (s.commit bindings).get? name = (bindings.valueOf? name).or (s.get? name) := by
  obtain ⟨slots⟩ := bindings
  induction slots generalizing s with
  | nil => rfl
  | cons slot slots ih =>
    have hn : slot.name ∉ Bindings.names ⟨slots⟩ ∧ (Bindings.names ⟨slots⟩).Nodup :=
      List.nodup_cons.1 h
    have hstep : s.commit ⟨slot :: slots⟩ =
        (slot.value.elim s (s.insert slot.name)).commit ⟨slots⟩ := rfl
    rw [hstep, ih hn.2, Bindings.valueOf?_cons]
    by_cases hname : slot.name = name
    · rw [if_pos hname, ← hname, Bindings.valueOf?_of_notMem hn.1, Option.none_or]
      cases slot.value with
      | none => rfl
      | some value => rw [Option.elim_some, get?_insert, if_pos rfl, Option.some_or]
    · rw [if_neg hname]
      congr 1
      cases slot.value with
      | none => rfl
      | some value => rw [Option.elim_some, get?_insert, if_neg hname]

end Store

end Abacus
