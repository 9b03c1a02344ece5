import Abacus.Evaluation.Outcome
import Abacus.Operation.Formula
import Abacus.Proofs.Registry.Namespaces

/-!
# Registering in any order

Registering asks different questions of operators and of other operations (`Registry.collides`). Still,
whether a list of operations registers depends on its members two by two, and not on which of the two
comes first (`Operation.IsCompatible`): they have different names, or both are operators and their kinds
differ. So the list may come in any order, and every order makes the same registry (`load_of_perm`).

* `collides_insert_eq_false_iff`: one more operation takes the names that it is not compatible with;
* `snd_load_eq_none_iff`: the lists that register;
* `find?_load_of_find?`, `find?_load_of_mem`: what has been registered stays as it is;
* `Reachable.eq_of_find?_eq`: the look-ups of a registry determine the rest of it.
-/

namespace Abacus

/-- Whether two operations may be in one registry: only operators of different kinds share a name. -/
def Operation.IsCompatible (op other : Operation) : Prop :=
  op.name = other.name →
    op.kind.isOperator = true ∧ other.kind.isOperator = true ∧ op.kind ≠ other.kind

theorem Operation.IsCompatible.symm {op other : Operation} (h : op.IsCompatible other) :
    other.IsCompatible op := fun hn =>
  have ⟨hop, hother, hne⟩ := h hn.symm
  ⟨hother, hop, hne.symm⟩

namespace Registry

variable {registry result r s : Registry} {op new : Operation} {ops order : List Operation} {name : String}
  {kind : Kind}

/-! ## Free names -/

/-- A name is free for an operation if all that is found under it are operators of other kinds, and the
operation is an operator as well. -/
theorem collides_eq_false_iff :
    registry.collides op = false ↔ ∀ kind other, registry.find? op.name kind = some other →
      op.kind.isOperator = true ∧ kind.isOperator = true ∧ op.kind ≠ kind := by
  refine ⟨fun h kind other hf => find?_of_not_collides h hf, fun h => ?_⟩
  have hnone : ∀ kind, ¬(op.kind.isOperator = true ∧ kind.isOperator = true ∧ op.kind ≠ kind) →
      registry.find? op.name kind = none := fun kind hk =>
    Option.eq_none_iff_forall_not_mem.2 fun other hf => hk (h kind other hf)
  unfold collides
  split
  · have hfunction := hnone .function fun hk => absurd hk.2.1 (by decide)
    have hopen := hnone .openBracket fun hk => absurd hk.2.1 (by decide)
    have hclose := hnone .closeBracket fun hk => absurd hk.2.1 (by decide)
    have hsame := hnone op.kind fun hk => hk.2.2 rfl
    simp [isFunction, isBracket, bracket?, hfunction, hopen, hclose, hsame]
  · rename_i ho
    exact contains_eq_false_iff.2 fun kind => hnone kind fun hk => ho hk.1

/-- After an operation has been added, a name is free if it was, and the two operations are
compatible. -/
theorem collides_insert_eq_false_iff :
    (registry.insert new).collides op = false ↔
      registry.collides op = false ∧ new.IsCompatible op := by
  simp only [collides_eq_false_iff, find?_insert]
  constructor
  · intro h
    refine ⟨fun kind other hf => ?_, fun hn => ?_⟩
    · by_cases hk : new.name = op.name ∧ new.kind = kind
      · exact h kind new (if_pos hk)
      · exact h kind other ((if_neg hk).trans hf)
    · obtain ⟨hop, hnew, hne⟩ := h new.kind new (if_pos ⟨hn, rfl⟩)
      exact ⟨hnew, hop, hne.symm⟩
  · rintro ⟨hfree, hc⟩ kind other hf
    split at hf
    · rename_i hk
      obtain ⟨hn, rfl⟩ := hk
      obtain ⟨hnew, hop, hne⟩ := hc hn
      exact ⟨hop, hnew, hne.symm⟩
    · exact hfree kind other hf

/-! ## Lists that register -/

/-- A list of operations registers if each name is valid and free beforehand, and any two operations
are compatible. -/
theorem snd_load_eq_none_iff :
    (registry.load ops).2 = none ↔
      (∀ op ∈ ops, Name.isValid op.kind.nameClass op.name = true ∧ registry.collides op = false) ∧
        ops.Pairwise Operation.IsCompatible := by
  induction ops generalizing registry with
  | nil => simp
  | cons op ops ih =>
    rw [List.forall_mem_cons, List.pairwise_cons]
    cases hr : registry.register op with
    | error error =>
      rw [load_cons_of_error hr]
      constructor
      · intro h
        cases h
      · rintro ⟨⟨⟨hv, hc⟩, _⟩, _⟩
        rw [register_eq_ok_iff.2 ⟨hv, hc, rfl⟩] at hr
        cases hr
    | ok result =>
      obtain ⟨hv, hc, rfl⟩ := register_eq_ok_iff.1 hr
      simp only [load_cons_of_ok hr, ih, collides_insert_eq_false_iff]
      constructor
      · rintro ⟨hfree, hp⟩
        exact ⟨⟨⟨hv, hc⟩, fun other hm => ⟨(hfree other hm).1, (hfree other hm).2.1⟩⟩,
          fun other hm => (hfree other hm).2.2, hp⟩
      · rintro ⟨⟨_, hfree⟩, hcompatible, hp⟩
        exact ⟨fun other hm => ⟨(hfree other hm).1, (hfree other hm).2, hcompatible other hm⟩, hp⟩

/-- A list that registers, from none, does so in any order. -/
theorem snd_load_eq_none_of_perm (hp : order.Perm ops) (h : ((∅ : Registry).load ops).2 = none) :
    ((∅ : Registry).load order).2 = none := by
  rw [snd_load_eq_none_iff] at h ⊢
  exact ⟨fun op hm => h.1 op (hp.mem_iff.1 hm), (List.Perm.pairwise_iff (fun hc => hc.symm) hp).2 h.2⟩

/-- Registering an operation replaces none. -/
theorem find?_register_of_find? (hr : registry.register new = .ok result)
    (hf : registry.find? name kind = some op) : result.find? name kind = some op := by
  have hfree := collides_eq_false_iff.1 (register_eq_ok_iff.1 hr).2.1
  rw [find?_of_register hr, if_neg, hf]
  rintro ⟨rfl, rfl⟩
  exact (hfree _ op hf).2.2 rfl

theorem find?_load_of_find? (hf : registry.find? name kind = some op) (ops : List Operation) :
    (registry.load ops).1.find? name kind = some op := by
  induction ops generalizing registry with
  | nil => exact hf
  | cons new ops ih =>
    cases hr : registry.register new with
    | error error => rwa [load_cons_of_error hr]
    | ok result =>
      rw [load_cons_of_ok hr]
      exact ih (find?_register_of_find? hr hf)

/-- Every operation of a list that registers is found. -/
theorem find?_load_of_mem (h : (registry.load ops).2 = none) (hm : op ∈ ops) :
    (registry.load ops).1.find? op.name op.kind = some op := by
  induction ops generalizing registry with
  | nil => cases hm
  | cons new ops ih =>
    cases hr : registry.register new with
    | error error =>
      rw [load_cons_of_error hr] at h
      cases h
    | ok result =>
      rw [load_cons_of_ok hr] at h ⊢
      rcases List.mem_cons.1 hm with rfl | hm
      · refine find?_load_of_find? ?_ ops
        rw [find?_of_register hr, if_pos ⟨rfl, rfl⟩]
      · exact ih h hm

/-- After a list has been registered, from none, its operations are found, and nothing else. -/
theorem find?_load_empty_iff (h : ((∅ : Registry).load ops).2 = none) :
    ((∅ : Registry).load ops).1.find? name kind = some op ↔
      op ∈ ops ∧ op.name = name ∧ op.kind = kind := by
  constructor
  · intro hf
    rw [find?_load h, find?_empty, Option.or_none] at hf
    exact ⟨List.mem_reverse.1 (List.mem_of_find?_eq_some hf), by simpa using List.find?_some hf⟩
  · rintro ⟨hm, rfl, rfl⟩
    exact find?_load_of_mem h hm

theorem size_insert (h : registry.collides op = false) :
    (registry.insert op).size = registry.size + 1 := by
  have hnot : registry.table.contains (op.name, op.kind) = false := by
    rw [Std.ExtTreeMap.contains_eq_isSome_getElem?, Option.isSome_eq_false_iff,
      Option.isNone_iff_eq_none]
    exact find?_eq_none_of_not_collides h
  simp [size, insert, Std.ExtTreeMap.size_insert, hnot]

/-- A list that registers adds as many operations as it has members. -/
theorem size_load (h : (registry.load ops).2 = none) :
    (registry.load ops).1.size = registry.size + ops.length := by
  induction ops generalizing registry with
  | nil => rfl
  | cons op ops ih =>
    cases hr : registry.register op with
    | error error =>
      rw [load_cons_of_error hr] at h
      cases h
    | ok result =>
      rw [load_cons_of_ok hr] at h ⊢
      obtain ⟨-, hc, rfl⟩ := register_eq_ok_iff.1 hr
      rw [ih h, size_insert hc, List.length_cons]
      omega

/-! ## What the look-ups tell -/

/-- A registry in which more is found has names at least as long. -/
theorem Reachable.longestName_le (hr : r.Reachable) (hs : s.Reachable)
    (h : ∀ name kind op, r.find? name kind = some op → s.find? name kind = some op) :
    r.longestName ≤ s.longestName := by
  rcases hr.exists_longestName with ⟨name, kind, op, hf, hl⟩ | rfl
  · rw [← hl]
    exact hs.utf8ByteSize_le (h name kind op hf)
  · exact Nat.zero_le _

/-- Registries with the same look-ups are the same: the longest name is told by the names. -/
theorem Reachable.eq_of_find?_eq (hr : r.Reachable) (hs : s.Reachable)
    (h : ∀ name kind, r.find? name kind = s.find? name kind) : r = s :=
  ext h (Nat.le_antisymm (hr.longestName_le hs fun name kind _ hf => (h name kind).symm.trans hf)
    (hs.longestName_le hr fun name kind _ hf => (h name kind).trans hf))

/-- Lists with the same members make the same registry. -/
theorem load_eq_of_perm (hp : order.Perm ops) (h : ((∅ : Registry).load ops).2 = none) :
    (∅ : Registry).load order = (∅ : Registry).load ops := by
  have ho := snd_load_eq_none_of_perm hp h
  refine Prod.ext ?_ (ho.trans h.symm)
  refine (Reachable.empty.load order).eq_of_find?_eq (Reachable.empty.load ops) fun name kind => ?_
  refine Option.ext fun op => ?_
  rw [find?_load_empty_iff ho, find?_load_empty_iff h, hp.mem_iff]

/-- A list of operations that registers, one after the other from none, registers in any order. It makes
a registry in which exactly its operations are found, with as many operations as the list has members.
In whatever order it comes, every look-up, the number of operations and the longest name are the same,
and so are the tokens of every text and what it evaluates to. In tables by namespaces it registers as
well: they present the same registry, and only the operators of a name may be listed in another order. -/
theorem load_of_perm (h : ((∅ : Registry).load ops).2 = none) (hp : order.Perm ops) :
    let registry := ((∅ : Registry).load ops).1
    let other := ((∅ : Registry).load order).1
    let spaces := (∅ : Namespaces).load ops
    let others := (∅ : Namespaces).load order
    ((∅ : Registry).load order).2 = none ∧
      ((∀ name kind op, registry.find? name kind = some op ↔
          op ∈ ops ∧ op.name = name ∧ op.kind = kind) ∧
        registry.size = ops.length) ∧
      (∀ name, (∀ kind, other.find? name kind = registry.find? name kind) ∧
        other.bracket? name = registry.bracket? name ∧
        other.contains name = registry.contains name) ∧
      other.size = registry.size ∧ other.longestName = registry.longestName ∧
      ((∀ text, tokenize other text = tokenize registry text) ∧
        ∀ store text, evaluate other store text = evaluate registry store text) ∧
      (spaces.2 = none ∧ others.2 = none) ∧
      (spaces.1.Presents registry ∧ others.1.Presents registry) ∧
      ∀ name, (others.1.operatorsNamed name).Perm (spaces.1.operatorsNamed name) := by
  intro registry other spaces others
  have heq : other = registry := congrArg Prod.fst (load_eq_of_perm hp h)
  have hsize : registry.size = ops.length := (size_load h).trans (Nat.zero_add _)
  have ho : ((∅ : Registry).load order).2 = none := snd_load_eq_none_of_perm hp h
  have hr : registry.Reachable := Reachable.empty.load ops
  obtain ⟨hspaces, herror⟩ := Namespaces.Presents.empty.load ops
  obtain ⟨hothers, herror'⟩ := Namespaces.Presents.empty.load order
  replace hothers : others.1.Presents registry := heq ▸ hothers
  refine ⟨ho, ⟨fun _ _ _ => find?_load_empty_iff h, hsize⟩, ?_⟩
  rw [heq]
  refine ⟨fun _ => ⟨fun _ => rfl, rfl, rfl⟩, rfl, rfl, ⟨fun _ => rfl, fun _ _ => rfl⟩, ⟨?_, ?_⟩,
    ⟨hspaces, hothers⟩, fun name => ?_⟩
  · exact herror.trans h
  · exact herror'.trans ho
  · exact (hothers.operatorsNamed_perm hr name).trans (hspaces.operatorsNamed_perm hr name).symm

/-- All three kinds of operators under one name, with brackets and a function between them, and the same
list backwards. -/
theorem load_of_perm_sample :
    let ops : List Operation := [.prefixOp "-" 3 fun a => -a, .openBracket "[", .postfixOp "-" fun a => a,
      .closeBracket "]" "[", .binary "-" 1 .left fun a b => a - b, .ofFormula "twice" fun a : Float => a + a]
    ((∅ : Registry).load ops).2 = none ∧ ops.reverse.Perm ops ∧
      ((∅ : Registry).load ops.reverse).2 = none ∧ ((∅ : Registry).load ops).1.size = 6 ∧
      (∀ store, evaluate ((∅ : Registry).load ops.reverse).1 store "twice([a - b])" =
        evaluate ((∅ : Registry).load ops).1 store "twice([a - b])") ∧
      (((∅ : Namespaces).load ops).1.operatorsNamed "-").map Operation.kind =
        [.prefixOp, .postfixOp, .binary] ∧
      (((∅ : Namespaces).load ops.reverse).1.operatorsNamed "-").Perm
        (((∅ : Namespaces).load ops).1.operatorsNamed "-") := by
  intro ops
  have h : ((∅ : Registry).load ops).2 = none := by decide +kernel
  obtain ⟨ho, ⟨-, hsize⟩, -, -, -, ⟨-, hevaluate⟩, -, -, hlists⟩ := load_of_perm h ops.reverse_perm
  exact ⟨h, ops.reverse_perm, ho, hsize, fun store => hevaluate store _, by decide +kernel, hlists "-"⟩

end Registry

end Abacus
