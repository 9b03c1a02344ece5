import Abacus.Proofs.Variables.Values

/-!
# The variables that an expression sees

To an expression a variable has the value of its slot or, as long as it has none, its stored value
(`Bindings.lookup`). Whether a name has been met yet makes no difference to what is seen:

* `lookup_resolve`: meeting a name changes what is seen of no variable;
* `lookup_set`: writing to a slot changes what is seen of its variable;
* `AgreeOutside.lookup_eq`: an effect changes what is seen of the variables that it is handed;
* `Store.get?_commit_eq_lookup`: what is seen at the end is what is stored.
-/

namespace Abacus

namespace Bindings

/-- What an expression sees of a variable: the value in its slot, or the stored value when it has no
slot yet. -/
def lookup (bindings : Bindings) (store : Store) (name : String) : Option Float :=
  if name ∈ bindings.names then bindings.valueOf? name else store.get? name

variable {bindings : Bindings} {store : Store} {name other : String} {id : VarId}

@[simp] theorem lookup_empty : (∅ : Bindings).lookup store name = store.get? name := rfl

theorem lookup_of_mem (h : name ∈ bindings.names) :
    bindings.lookup store name = bindings.valueOf? name := if_pos h

theorem lookup_of_notMem (h : name ∉ bindings.names) :
    bindings.lookup store name = store.get? name := if_neg h

/-- No name is met twice. -/
theorem nodup_names_resolve (h : bindings.names.Nodup) :
    (bindings.resolve name store).2.names.Nodup := by
  rw [names_resolve]
  split
  · exact h
  · rename_i hn
    refine List.nodup_append.2 ⟨h, List.pairwise_singleton _ name, fun a ha b hb => ?_⟩
    rw [List.mem_singleton.1 hb]
    rintro rfl
    exact hn ha

theorem names_prefix_resolve : bindings.names <+: (bindings.resolve name store).2.names := by
  rw [names_resolve]
  split
  · exact List.prefix_rfl
  · exact List.prefix_append _ _

/-- A name that is met for the first time gets its stored value. -/
theorem valueOf?_resolve_self (h : name ∉ bindings.names) :
    (bindings.resolve name store).2.valueOf? name = store.get? name := by
  rw [resolve_of_idOf?_eq_none (idOf?_eq_none_iff.2 h)]
  obtain ⟨slots⟩ := bindings
  induction slots with
  | nil => rw [List.nil_append, valueOf?_cons, if_pos rfl]
  | cons slot slots ih =>
    obtain ⟨hne, hmem⟩ : name ≠ slot.name ∧ name ∉ names ⟨slots⟩ := not_or.1 (mt List.mem_cons.2 h)
    rw [List.cons_append, valueOf?_cons, if_neg (Ne.symm hne), ih hmem]

/-- Meeting a name changes what is seen of no variable. -/
theorem lookup_resolve :
    (bindings.resolve name store).2.lookup store other = bindings.lookup store other := by
  by_cases hname : name ∈ bindings.names
  · obtain ⟨id, hid⟩ := Option.ne_none_iff_exists'.1 (mt idOf?_eq_none_iff.1 (not_not_intro hname))
    rw [resolve_of_idOf?_eq_some hid]
  have hnames : (bindings.resolve name store).2.names = bindings.names ++ [name] := by
    rw [names_resolve, if_neg hname]
  by_cases hother : other = name
  · subst hother
    rw [lookup_of_mem (by simp [hnames]), lookup_of_notMem hname, valueOf?_resolve_self hname]
  · by_cases hmem : other ∈ bindings.names
    · rw [lookup_of_mem (by simp [hnames, hmem]), lookup_of_mem hmem, valueOf?_resolve_of_ne hother]
    · rw [lookup_of_notMem (by simp [hnames, hmem, hother]), lookup_of_notMem hmem]

/-- What is seen of a variable whose slot is not handed over stays the same. -/
theorem AgreeOutside.lookup_eq {handed : List Operand} {after : Bindings}
    (h : bindings.AgreeOutside handed after)
    (hn : ∀ id, .var id ∈ handed → bindings.names[id.index]? ≠ some name) :
    after.lookup store name = bindings.lookup store name := by
  rw [lookup, lookup, h.names, h.valueOf?_eq hn]

/-- Where no name has two slots, the slot with a name is the one that the name has. -/
theorem idOf?_of_getElem?_names (hd : bindings.names.Nodup)
    (h : bindings.names[id.index]? = some name) : bindings.idOf? name = some id := by
  obtain ⟨hlt, hname⟩ := List.getElem?_eq_some_iff.1 h
  have hidx : bindings.names.idxOf? name = some id.index := by
    refine List.idxOf?_eq_some_iff.2 ⟨hlt, hname, fun j hj he => ?_⟩
    exact Nat.ne_of_lt hj ((List.getElem_inj hd).1 (he.trans hname.symm))
  rw [idOf?, hidx, Option.map_some]

/-- The value in a slot is what is seen of its variable. -/
theorem read?_eq_lookup (hd : bindings.names.Nodup) (h : bindings.names[id.index]? = some name)
    (store : Store) : bindings.read? id = bindings.lookup store name := by
  rw [lookup_of_mem (List.mem_of_getElem? h), valueOf?, idOf?_of_getElem?_names hd h, Option.bind_some]

/-- Writing to a slot changes what is seen of its variable, and of no other. -/
theorem lookup_set (hd : bindings.names.Nodup) (h : bindings.names[id.index]? = some name)
    (value : Float) :
    (bindings.set id value).lookup store other =
      if other = name then some value else bindings.lookup store other := by
  have hagree : bindings.AgreeOutside [.var id] (bindings.set id value) :=
    .set List.mem_cons_self value
  split
  · rename_i heq
    subst heq
    have hlt : id.index < bindings.size := by
      rw [← length_names]
      exact (List.getElem?_eq_some_iff.1 h).1
    rw [← read?_eq_lookup (by rwa [names_set]) (by rwa [names_set]), read?_set value id hlt, if_pos rfl]
  · rename_i hne
    refine hagree.lookup_eq fun id' hid hname => hne ?_
    obtain rfl : id' = id := by simpa using hid
    exact Option.some.inj (hname.symm.trans h)

end Bindings

/-- What an expression sees of a variable at its end is stored. -/
theorem Store.get?_commit_eq_lookup {store : Store} {bindings : Bindings} {name : String}
    (h : bindings.names.Nodup) :
    (store.commit bindings).get? name = (bindings.lookup store name).or (store.get? name) := by
  rw [get?_commit h]
  by_cases hn : name ∈ bindings.names
  · rw [Bindings.lookup_of_mem hn]
  · rw [Bindings.lookup_of_notMem hn, Bindings.valueOf?_of_notMem hn, Option.none_or, Option.or_self]

end Abacus
