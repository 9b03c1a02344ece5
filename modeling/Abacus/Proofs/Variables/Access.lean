import Mathlib.Data.List.Induction
import Abacus.Proofs.Variables.Lookup

/-!
# What is done with variables

A name is resolved to a slot, and a slot is read, named or given a value. Each of these is an access,
and a log tells the accesses that there have been and what came of them. Slots are only known from
earlier accesses (`Accesses`): nothing else hands them out.

On new variables a log tells all there is to know (`Bindings.IsRecorded`). The names are those that
were resolved, each once and in the order in which they were resolved first. Every slot that was
returned keeps its name, and it holds the value that was last set, or else what the store had when the
name was resolved first, whatever became of the store later.

* `Bindings.IsRecorded.leads`: one more access is told by the log with it;
* `Accesses.isRecorded`: so new variables are told by all accesses to them;
* `Accesses.outcome_eq`, `Accesses.exists_resolve_of_nameOf`: what came of reading a variable, and of
  asking for the name of a slot.
-/

namespace Abacus

/-- Something that is done with the variables of an evaluation, and what came of it. -/
inductive Access where
  /-- A name is resolved to a slot, which is filled from a store if it is new. -/
  | resolve (name : String) (store : Store) (id : VarId)
  /-- An operand is read. -/
  | read (operand : Operand) (outcome : Except EvalError Float)
  /-- The name of a slot is asked for. -/
  | nameOf (id : VarId) (name : String)
  /-- A slot is given a value. -/
  | write (id : VarId) (value : Float)

namespace Access

/-- The slots that an access needs to know. -/
def uses : Access → List VarId
  | .resolve .. => []
  | .read operand _ => operand.var?.toList
  | .nameOf id _ | .write id _ => [id]

/-- The name that is resolved. -/
def resolves? : Access → Option String
  | .resolve name .. => some name
  | _ => none

/-- The slot that is returned. -/
def returns? : Access → Option VarId
  | .resolve _ _ id => some id
  | _ => none

/-- The value that a slot is given. -/
def writes? (id : VarId) : Access → Option Float
  | .write other value => if other = id then some value else none
  | _ => none

/-- What the store has for a name that is resolved. -/
def finds? (name : String) : Access → Option (Option Float)
  | .resolve other store _ => if other = name then some (store.get? name) else none
  | _ => none

/-- The names that were resolved, each as often as it was. -/
def resolved (log : List Access) : List String :=
  log.filterMap resolves?

/-- The slots that were returned, each as often as it was. -/
def returned (log : List Access) : List VarId :=
  log.filterMap returns?

/-- The value that a slot was last given. -/
def lastWritten? (log : List Access) (id : VarId) : Option Float :=
  (log.filterMap (writes? id)).getLast?

/-- What the store had for a name when it was first resolved. -/
def firstFound? (log : List Access) (name : String) : Option Float :=
  (log.filterMap (finds? name)).head?.join

/-- What reading the variable of a name comes to after the accesses of a log. -/
def reading (log : List Access) (id : VarId) (name : String) : Except EvalError Float :=
  match (lastWritten? log id).or (firstFound? log name) with
  | some value => .ok value
  | none => .error (.uninitializedVariable name)

/-- Whether an access to some variables comes to what it tells, and leaves others behind. -/
inductive Leads : Access → Bindings → Bindings → Prop where
  | resolve (bindings : Bindings) (name : String) (store : Store) :
    Leads (.resolve name store (bindings.resolve name store).1) bindings
      (bindings.resolve name store).2
  | read (bindings : Bindings) (operand : Operand) :
    Leads (.read operand (bindings.value operand)) bindings bindings
  | nameOf (bindings : Bindings) (id : VarId) :
    Leads (.nameOf id (bindings.name id)) bindings bindings
  | write (bindings : Bindings) (id : VarId) (value : Float) :
    Leads (.write id value) bindings (bindings.set id value)

@[simp] theorem resolved_append (log log' : List Access) :
    resolved (log ++ log') = resolved log ++ resolved log' := List.filterMap_append

@[simp] theorem returned_append (log log' : List Access) :
    returned (log ++ log') = returned log ++ returned log' := List.filterMap_append

variable {log : List Access} {name : String} {id : VarId}

theorem mem_resolved_iff : name ∈ resolved log ↔ ∃ store id, .resolve name store id ∈ log := by
  rw [resolved, List.mem_filterMap]
  constructor
  · rintro ⟨access, hm, ha⟩
    cases access with
    | resolve other store id =>
      obtain rfl := Option.some.inj ha
      exact ⟨store, id, hm⟩
    | read | nameOf | write => cases ha
  · rintro ⟨store, id, hm⟩
    exact ⟨_, hm, rfl⟩

theorem mem_returned_iff : id ∈ returned log ↔ ∃ name store, .resolve name store id ∈ log := by
  rw [returned, List.mem_filterMap]
  constructor
  · rintro ⟨access, hm, ha⟩
    cases access with
    | resolve name store other =>
      obtain rfl := Option.some.inj ha
      exact ⟨name, store, hm⟩
    | read | nameOf | write => cases ha
  · rintro ⟨name, store, hm⟩
    exact ⟨_, hm, rfl⟩

/-- A later value takes the place of an earlier one. -/
theorem lastWritten?_concat (log : List Access) (access : Access) (id : VarId) :
    lastWritten? (log ++ [access]) id = (access.writes? id).or (lastWritten? log id) := by
  rw [lastWritten?, List.filterMap_append, List.getLast?_append]
  cases h : access.writes? id <;> simp [lastWritten?, h]

/-- A slot that no access uses was given no value. -/
theorem lastWritten?_of_forall_notMem (h : ∀ access ∈ log, id ∉ access.uses) :
    lastWritten? log id = none := by
  rw [lastWritten?, List.getLast?_eq_none_iff, List.filterMap_eq_nil_iff]
  intro access hm
  cases access with
  | write other value =>
    refine if_neg fun he => h _ hm ?_
    exact he ▸ List.mem_singleton_self _
  | resolve | read | nameOf => rfl

/-- What was found first stays. -/
theorem firstFound?_concat_of_mem (h : name ∈ resolved log) (access : Access) :
    firstFound? (log ++ [access]) name = firstFound? log name := by
  obtain ⟨store, id, hm⟩ := mem_resolved_iff.1 h
  have hfound : store.get? name ∈ log.filterMap (finds? name) :=
    List.mem_filterMap.2 ⟨_, hm, if_pos rfl⟩
  obtain ⟨first, rest, hcons⟩ := List.exists_cons_of_ne_nil (List.ne_nil_of_mem hfound)
  simp [firstFound?, List.filterMap_append, hcons]

theorem firstFound?_concat_of_notMem (h : name ∉ resolved log) (access : Access) :
    firstFound? (log ++ [access]) name = (access.finds? name).join := by
  have hnone : log.filterMap (finds? name) = [] := by
    rw [List.filterMap_eq_nil_iff]
    intro earlier hm
    cases earlier with
    | resolve other store id =>
      refine if_neg fun he => h (mem_resolved_iff.2 ⟨store, id, ?_⟩)
      rwa [← he]
    | read | nameOf | write => rfl
  cases hf : access.finds? name <;> simp [firstFound?, List.filterMap_append, hnone, hf]

end Access

open Access (returned resolved lastWritten? firstFound?)

/-- Accesses that are made one after the other, with slots that are known from before or have been
returned since. -/
inductive Accesses (known : List VarId) (start : Bindings) : List Access → Bindings → Prop where
  | nil : Accesses known start [] start
  | concat {log : List Access} {access : Access} {before after : Bindings}
    (h : Accesses known start log before) (hu : ∀ id ∈ access.uses, id ∈ known ∨ id ∈ returned log)
    (ha : access.Leads before after) : Accesses known start (log ++ [access]) after

namespace Accesses

variable {known wider : List VarId} {a b c : Bindings} {log log' : List Access}

theorem mono (h : Accesses known a log b) (hs : known ⊆ wider) : Accesses wider a log b := by
  induction h with
  | nil => exact .nil
  | concat _ hu ha ih => exact .concat ih (fun id hid => (hu id hid).imp_left (@hs id)) ha

/-- What was returned at first is known later. -/
theorem append (h : Accesses known a log b) (h' : Accesses (known ++ returned log) b log' c) :
    Accesses known a (log ++ log') c := by
  induction h' with
  | nil =>
    rw [List.append_nil]
    exact h
  | concat _ hu ha ih =>
    rw [← List.append_assoc]
    refine .concat ih (fun id hid => ?_) ha
    rw [Access.returned_append, List.mem_append, ← or_assoc, ← List.mem_append]
    exact hu id hid

/-- The first part of a log has led to variables to which the next access was made. -/
theorem exists_leads {access : Access} (h : Accesses known a (log ++ access :: log') c) :
    ∃ before after, Accesses known a log before ∧ access.Leads before after ∧
      ∀ id ∈ access.uses, id ∈ known ∨ id ∈ returned log := by
  -- A path is built at its end, so the accesses after the one in question are taken off one by one.
  induction log' using List.reverseRecOn generalizing c with
  | nil =>
    generalize hlog : log ++ [access] = whole at h
    cases h with
    | nil => simp at hlog
    | concat h hu ha =>
      obtain ⟨rfl, rfl⟩ : log = _ ∧ access = _ := by simpa using hlog
      exact ⟨_, _, h, ha, hu⟩
  | append_singleton later last ih =>
    generalize hlog : log ++ access :: (later ++ [last]) = whole at h
    cases h with
    | nil => simp at hlog
    | concat h hu ha =>
      rw [← List.cons_append, ← List.append_assoc] at hlog
      obtain ⟨rfl, -⟩ := List.append_inj' hlog rfl
      exact ih h

end Accesses

/-! ## What a log tells -/

/-- An element at the end counts if it has not been there before. -/
theorem eraseDups_concat {α : Type} [DecidableEq α] (xs : List α) (x : α) :
    (xs ++ [x]).eraseDups = if x ∈ xs then xs.eraseDups else xs.eraseDups ++ [x] := by
  rw [List.eraseDups_append]
  by_cases h : x ∈ xs <;> simp [List.removeAll, List.eraseDups_cons, h]

namespace Bindings

variable {bindings before after : Bindings} {store : Store} {name : String} {id : VarId}
  {log : List Access} {access : Access}

/-- Resolving a name changes no slot that is there. -/
theorem read?_resolve (h : id.index < bindings.size) :
    (bindings.resolve name store).2.read? id = bindings.read? id := by
  cases hid : bindings.idOf? name with
  | some id' => rw [resolve_of_idOf?_eq_some hid]
  | none =>
    rw [resolve_of_idOf?_eq_none hid, read?, read?, List.getElem?_append_left h]

theorem size_le_resolve : bindings.size ≤ (bindings.resolve name store).2.size := by
  rw [← length_names, ← length_names]
  exact names_prefix_resolve.length_le

/-- A name that is not there gets the next slot, with its stored value. -/
theorem resolve_of_notMem (h : name ∉ bindings.names) :
    bindings.resolve name store =
      (⟨bindings.size⟩, ⟨bindings.slots ++ [⟨name, store.get? name⟩]⟩) :=
  resolve_of_idOf?_eq_none (idOf?_eq_none_iff.2 h)

theorem read?_resolve_self (h : name ∉ bindings.names) :
    (bindings.resolve name store).2.read? (bindings.resolve name store).1 = store.get? name := by
  simp [resolve_of_notMem h, read?, size]

/-- A slot that was not there before a name was resolved is that of the name. -/
theorem eq_of_size_le {other : String} (hn : name ∉ bindings.names) (hge : bindings.size ≤ id.index)
    (h : (bindings.resolve name store).2.names[id.index]? = some other) :
    id = (bindings.resolve name store).1 ∧ other = name := by
  rw [names_resolve, if_neg hn] at h
  have hlt := (List.getElem?_eq_some_iff.1 h).1
  have hindex : id.index = bindings.names.length := by
    rw [List.length_append, List.length_singleton, length_names] at hlt
    rw [length_names]
    omega
  rw [hindex, List.getElem?_concat_length] at h
  rw [resolve_of_notMem hn, ← length_names, ← hindex]
  exact ⟨rfl, (Option.some.inj h).symm⟩

theorem lt_size_of_getElem?_names (h : bindings.names[id.index]? = some name) :
    id.index < bindings.size := by
  rw [← length_names]
  exact (List.getElem?_eq_some_iff.1 h).1

/-- Whether a log tells what has become of new variables. -/
structure IsRecorded (log : List Access) (bindings : Bindings) : Prop where
  /-- No name has two slots. -/
  nodup : bindings.names.Nodup
  /-- The names stand in the order in which they were resolved first. -/
  names : bindings.names = (resolved log).eraseDups
  /-- A slot that was returned has the name that was resolved. -/
  returns : ∀ {name store id}, .resolve name store id ∈ log → bindings.names[id.index]? = some name
  /-- All slots that were used are there. -/
  uses : ∀ access ∈ log, ∀ id ∈ access.uses, id.index < bindings.size
  /-- A slot has the value that was last written to it, or else the one that was found first. -/
  read? : ∀ {id name}, bindings.names[id.index]? = some name →
    bindings.read? id = (lastWritten? log id).or (firstFound? log name)

namespace IsRecorded

theorem empty : IsRecorded [] ∅ :=
  ⟨List.nodup_nil, rfl, nofun, nofun, nofun⟩

theorem mem_names_iff (h : IsRecorded log bindings) :
    name ∈ bindings.names ↔ name ∈ resolved log := by
  rw [h.names, List.mem_eraseDups]

/-- Asking changes nothing that a log tells. -/
theorem ask (h : IsRecorded log bindings) (hu : ∀ id ∈ access.uses, id.index < bindings.size)
    (hr : access.resolves? = none) (hw : ∀ id, access.writes? id = none) :
    IsRecorded (log ++ [access]) bindings where
  nodup := h.nodup
  names := by
    rw [h.names]
    simp [resolved, hr]
  returns hm := by
    rcases List.mem_append.1 hm with hm | hm
    · exact h.returns hm
    · rw [← List.mem_singleton.1 hm] at hr
      cases hr
  uses := List.forall_mem_append.2 ⟨h.uses, List.forall_mem_singleton.2 hu⟩
  read? hid := by
    rw [h.read? hid, Access.lastWritten?_concat, hw, Option.none_or,
      Access.firstFound?_concat_of_mem (h.mem_names_iff.1 (List.mem_of_getElem? hid))]

theorem write (h : IsRecorded log bindings) (hid : id.index < bindings.size) (value : Float) :
    IsRecorded (log ++ [.write id value]) (bindings.set id value) where
  nodup := by
    rw [names_set]
    exact h.nodup
  names := by
    rw [names_set, h.names, Access.resolved_append, show resolved [.write id value] = [] from rfl,
      List.append_nil]
  returns hm := by
    rw [names_set]
    exact h.returns (by simpa using hm)
  uses := by
    rw [← length_names, names_set, length_names]
    exact List.forall_mem_append.2 ⟨h.uses, by simpa [Access.uses] using hid⟩
  read? {other name} hother := by
    rw [names_set] at hother
    rw [read?_set value other hid, h.read? hother, Access.lastWritten?_concat,
      Access.firstFound?_concat_of_mem (h.mem_names_iff.1 (List.mem_of_getElem? hother)),
      Access.writes?]
    split
    · rw [Option.some_or, Option.some_or]
    · rw [Option.none_or]

theorem resolve (h : IsRecorded log bindings) (name : String) (store : Store) :
    IsRecorded (log ++ [.resolve name store (bindings.resolve name store).1])
      (bindings.resolve name store).2 where
  nodup := nodup_names_resolve h.nodup
  names := by
    rw [names_resolve, Access.resolved_append, show resolved [.resolve name store _] = [name] from rfl,
      eraseDups_concat, ← h.names]
    simp [h.mem_names_iff]
  returns hm := by
    rcases List.mem_append.1 hm with hm | hm
    · exact getElem?_names_resolve_of_eq_some (h.returns hm)
    · cases List.mem_singleton.1 hm
      exact getElem?_names_resolve
  uses := by
    refine List.forall_mem_append.2 ⟨fun access hm id hid => ?_, by simp [Access.uses]⟩
    exact Nat.lt_of_lt_of_le (h.uses access hm id hid) size_le_resolve
  read? {id other} hid := by
    rw [Access.lastWritten?_concat, show Access.writes? id (.resolve name store _) = none from rfl,
      Option.none_or]
    rcases Nat.lt_or_ge id.index bindings.size with hlt | hge
    · obtain ⟨other', hother⟩ : ∃ other', bindings.names[id.index]? = some other' :=
        ⟨_, List.getElem?_eq_getElem (by rwa [length_names])⟩
      obtain rfl : other' = other :=
        Option.some.inj ((getElem?_names_resolve_of_eq_some hother).symm.trans hid)
      rw [read?_resolve hlt, h.read? hother,
        Access.firstFound?_concat_of_mem (h.mem_names_iff.1 (List.mem_of_getElem? hother))]
    · have hn : name ∉ bindings.names := fun hm => by
        rw [names_resolve, if_pos hm] at hid
        exact Nat.not_lt.2 hge (lt_size_of_getElem?_names hid)
      have hunused : lastWritten? log id = none :=
        Access.lastWritten?_of_forall_notMem fun access hm hu =>
          Nat.not_lt.2 hge (h.uses access hm id hu)
      obtain ⟨rfl, rfl⟩ := eq_of_size_le hn hge hid
      rw [read?_resolve_self hn, hunused, Option.none_or,
        Access.firstFound?_concat_of_notMem (mt h.mem_names_iff.2 hn), Access.finds?, if_pos rfl,
        Option.join_some]

/-- One more access is told by the log with it. -/
theorem leads (h : IsRecorded log before) (hu : ∀ id ∈ access.uses, id.index < before.size)
    (ha : access.Leads before after) : IsRecorded (log ++ [access]) after := by
  cases ha with
  | resolve _ name store => exact h.resolve name store
  | read | nameOf => exact h.ask hu rfl fun _ => rfl
  | write _ id value => exact h.write (hu id (List.mem_singleton_self id)) value

/-- A slot that was returned is there. -/
theorem lt_size_of_mem_returned (h : IsRecorded log bindings) (hid : id ∈ returned log) :
    id.index < bindings.size := by
  obtain ⟨name, store, hm⟩ := Access.mem_returned_iff.1 hid
  exact lt_size_of_getElem?_names (h.returns hm)

/-- Two names have the same slot only if they are the same. -/
theorem eq_iff (h : IsRecorded log bindings) {name' : String} {store' : Store} {id' : VarId}
    (hm : .resolve name store id ∈ log) (hm' : .resolve name' store' id' ∈ log) :
    id = id' ↔ name = name' := by
  have hname := h.returns hm
  have hname' := h.returns hm'
  constructor
  · rintro rfl
    exact Option.some.inj (hname.symm.trans hname')
  · rintro rfl
    have hid := idOf?_of_getElem?_names h.nodup hname
    exact Option.some.inj (hid.symm.trans (idOf?_of_getElem?_names h.nodup hname'))

/-- What reading the variable of a name comes to is told by the log. -/
theorem value_eq (h : IsRecorded log bindings) (hm : .resolve name store id ∈ log) :
    bindings.value (.var id) = Access.reading log id name := by
  have hname := h.returns hm
  have hspelled : bindings.name id = name := by
    rw [Bindings.name, List.getD_eq_getElem?_getD, hname, Option.getD_some]
  have hread := h.read? hname
  cases hr : bindings.read? id with
  | some value => simp only [Bindings.value, Access.reading, ← hread, hr]
  | none => simp only [Bindings.value, Access.reading, ← hread, hr, hspelled]

end IsRecorded

end Bindings

namespace Accesses

variable {log later : List Access} {bindings : Bindings} {id : VarId} {name : String}

/-- New variables are told by all accesses to them. -/
theorem isRecorded (h : Accesses [] ∅ log bindings) : bindings.IsRecorded log := by
  induction h with
  | nil => exact .empty
  | concat _ hu ha ih =>
    refine ih.leads (fun id hid => ih.lt_size_of_mem_returned ?_) ha
    exact (hu id hid).resolve_left nofun

/-- A variable that was read had been resolved before, and had the value that was last written to its
slot until then, or else the one that was found first. -/
theorem outcome_eq {outcome : Except EvalError Float}
    (h : Accesses [] ∅ (log ++ .read (.var id) outcome :: later) bindings) :
    ∃ name store, .resolve name store id ∈ log ∧ outcome = Access.reading log id name := by
  obtain ⟨before, after, hbefore, ha, hu⟩ := h.exists_leads
  obtain ⟨name, store, hm⟩ :=
    Access.mem_returned_iff.1 ((hu id (List.mem_singleton_self id)).resolve_left nofun)
  cases ha with
  | read => exact ⟨name, store, hm, hbefore.isRecorded.value_eq hm⟩

/-- A slot whose name was asked for had been returned for that name. -/
theorem exists_resolve_of_nameOf (h : Accesses [] ∅ (log ++ .nameOf id name :: later) bindings) :
    ∃ store, .resolve name store id ∈ log := by
  obtain ⟨before, after, hbefore, ha, hu⟩ := h.exists_leads
  obtain ⟨name, store, hm⟩ :=
    Access.mem_returned_iff.1 ((hu id (List.mem_singleton_self id)).resolve_left nofun)
  cases ha with
  | nameOf =>
    refine ⟨store, ?_⟩
    rwa [Bindings.name, List.getD_eq_getElem?_getD, hbefore.isRecorded.returns hm, Option.getD_some]

end Accesses

end Abacus
