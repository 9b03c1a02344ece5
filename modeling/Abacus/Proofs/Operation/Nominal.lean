import Mathlib.Data.List.Forall2
import Abacus.Proofs.Operation.Target
import Abacus.Proofs.Variables.Lookup

/-!
# Operations see names, not slots

Two evaluations may have met their variables in a different order, so that one name has different slots
in them (`Operand.Same`), and one of them may have met more names, as long as both see the same values
(`Bindings.Alike`). An operation is nominal if this makes no difference to it: handed the same operands,
it comes to the same value, and both still see the same (`Operation.IsNominal`). What reads, writes and
computes is nominal (`Parallel.bind`, `parallel_read`, `parallel_write`), and so are all bundled
operations (`Library.isNominal_bundle`).
-/

namespace Abacus

/-! ## Operands and variables -/

/-- Whether two operands are the same number, or variables of the same name. The names are those of the
slots in one evaluation and in another. -/
inductive Operand.Same (names names' : List String) : Operand → Operand → Prop where
  | literal (value : Float) : Same names names' (.literal value) (.literal value)
  | var {id id' : VarId} {name : String} (h : names[id.index]? = some name)
    (h' : names'[id'.index]? = some name) : Same names names' (.var id) (.var id')

/-- Whether two evaluations see the same values of all variables. -/
structure Bindings.Alike (store : Store) (bindings bindings' : Bindings) : Prop where
  nodup : bindings.names.Nodup
  nodup' : bindings'.names.Nodup
  lookup : ∀ name, bindings'.lookup store name = bindings.lookup store name

theorem getElem?_of_isPrefix {names wider : List String} {i : Nat} {name : String} (hp : names <+: wider)
    (h : names[i]? = some name) : wider[i]? = some name := by
  obtain ⟨hlt, rfl⟩ := List.getElem?_eq_some_iff.1 h
  exact List.prefix_iff_getElem?.1 hp i hlt

theorem Operand.Same.mono {names names' wider wider' : List String} {operand operand' : Operand}
    (h : Same names names' operand operand') (hn : names <+: wider) (hn' : names' <+: wider') :
    Same wider wider' operand operand' := by
  cases h with
  | literal value => exact .literal value
  | var h h' => exact .var (getElem?_of_isPrefix hn h) (getElem?_of_isPrefix hn' h')

namespace Bindings.Alike

variable {store : Store} {bindings bindings' : Bindings} {operand operand' : Operand} {name : String}

/-- The same operands stand for the same number, or lack one for the same reason. -/
theorem value_eq (h : Alike store bindings bindings')
    (ho : Operand.Same bindings.names bindings'.names operand operand') :
    bindings'.value operand' = bindings.value operand := by
  cases ho with
  | literal => rfl
  | @var id id' name hid hid' =>
    have hread : bindings'.read? id' = bindings.read? id := by
      rw [read?_eq_lookup h.nodup' hid' store, read?_eq_lookup h.nodup hid store, h.lookup]
    have hname : bindings'.name id' = bindings.name id := by
      rw [Bindings.name, Bindings.name, List.getD_eq_getElem?_getD, List.getD_eq_getElem?_getD, hid, hid']
    rw [value, value, hread, hname]

/-- Writing to the same variable keeps variables alike. -/
theorem set {id id' : VarId} (h : Alike store bindings bindings')
    (hid : bindings.names[id.index]? = some name) (hid' : bindings'.names[id'.index]? = some name)
    (value : Float) : Alike store (bindings.set id value) (bindings'.set id' value) := by
  refine ⟨by rw [names_set]; exact h.nodup, by rw [names_set]; exact h.nodup', fun other => ?_⟩
  rw [lookup_set h.nodup hid, lookup_set h.nodup' hid', h.lookup]

/-- Meeting a name keeps variables alike. -/
theorem resolve (h : Alike store bindings bindings') :
    Alike store (bindings.resolve name store).2 (bindings'.resolve name store).2 :=
  ⟨nodup_names_resolve h.nodup, nodup_names_resolve h.nodup', fun other => by
    rw [lookup_resolve, lookup_resolve, h.lookup]⟩

end Bindings.Alike

/-! ## Effects -/

namespace Effect

variable {store : Store} {names names' : List String} {α β : Type}

/-- Whether an effect does on some variables what another one does on variables that are alike: it has
the same result when the other one succeeds, and leaves variables that are alike. The names in the slots
are given, and stay. -/
def Parallel (store : Store) (names names' : List String) (effect effect' : Effect α) : Prop :=
  ∀ (bindings bindings' : Bindings) (result : α) (after : Bindings),
    bindings.names = names → bindings'.names = names' → bindings.Alike store bindings' →
      effect bindings = .ok result after →
        ∃ after', effect' bindings' = .ok result after' ∧ after.names = names ∧ after'.names = names' ∧
          after.Alike store after'

theorem parallel_fail (error : EvalError) (effect : Effect α) :
    Parallel store names names' (fail error) effect := nofun

theorem parallel_pure (a : α) : Parallel store names names' (pure a) (pure a) := by
  rintro bindings bindings' _ _ hn hn' h ⟨⟩
  exact ⟨bindings', rfl, hn, hn', h⟩

theorem parallel_ofExcept (outcome : Except EvalError α) :
    Parallel store names names' (ofExcept outcome) (ofExcept outcome) := by
  cases outcome with
  | ok a => exact parallel_pure a
  | error error => exact parallel_fail error _

theorem parallel_read {operand operand' : Operand} (ho : Operand.Same names names' operand operand') :
    Parallel store names names' (read operand) (read operand') := by
  rintro bindings bindings' result after rfl rfl h he
  have hvalue := h.value_eq ho
  unfold read at he ⊢
  rw [hvalue]
  exact parallel_ofExcept _ bindings bindings' result after rfl rfl h he

theorem parallel_write {id id' : VarId} {name : String} (h : names[id.index]? = some name)
    (h' : names'[id'.index]? = some name) (value : Float) :
    Parallel store names names' (write id value) (write id' value) := by
  rintro bindings bindings' _ _ rfl rfl halike ⟨⟩
  exact ⟨_, rfl, by simp, by simp, halike.set h h' value⟩

/-- One effect after the other is parallel to one after the other. -/
theorem Parallel.bind {x x' : Effect α} {f f' : α → Effect β} (hx : Parallel store names names' x x')
    (hf : ∀ a, Parallel store names names' (f a) (f' a)) :
    Parallel store names names' (x >>= f) (x' >>= f') := by
  intro bindings bindings' result after hn hn' h he
  simp only [Bind.bind, EStateM.bind] at he ⊢
  split at he
  · rename_i a between ha
    obtain ⟨between', ha', hm, hm', hbetween⟩ := hx bindings bindings' a between hn hn' h ha
    rw [ha']
    exact hf a between between' result after hm hm' hbetween he
  · cases he

theorem Parallel.map {x x' : Effect α} (hx : Parallel store names names' x x') (f : α → β) :
    Parallel store names names' (f <$> x) (f <$> x') := by
  rw [map_eq_pure_bind, map_eq_pure_bind]
  exact hx.bind fun a => parallel_pure (f a)

section Actions

variable {left left' right right' operand operand' : Operand}

theorem parallel_compute (f : Float → Float) (h : Operand.Same names names' operand operand') :
    Parallel store names names' (compute f operand) (compute f operand') :=
  (parallel_read h).bind fun a => parallel_pure (f a)

theorem parallel_compute₂ (f : Float → Float → Float) (hl : Operand.Same names names' left left')
    (hr : Operand.Same names names' right right') :
    Parallel store names names' (compute₂ f left right) (compute₂ f left' right') :=
  (parallel_read hl).bind fun a => (parallel_read hr).bind fun b => parallel_pure (f a b)

theorem parallel_assign (name : String) (hl : Operand.Same names names' left left')
    (hr : Operand.Same names names' right right') :
    Parallel store names names' (assign name left right) (assign name left' right') := by
  cases hl with
  | literal => exact parallel_fail _ _
  | var h h' =>
    exact (parallel_read hr).bind fun value =>
      (parallel_write h h' value).bind fun _ => parallel_pure value

theorem parallel_step (name : String) (amount : Float)
    (h : Operand.Same names names' operand operand') :
    Parallel store names names' (step name amount operand) (step name amount operand') := by
  cases h with
  | literal => exact parallel_fail _ _
  | var h h' =>
    exact (parallel_read (.var h h')).bind fun before =>
      (parallel_write h h' (before + amount)).bind fun _ => parallel_pure _

end Actions

end Effect

/-! ## Nominal operations -/

/-- Whether an action looks at one operand by its name alone. -/
def UnaryAction.IsNominal (action : UnaryAction) : Prop :=
  ∀ (store : Store) (names names' : List String) (operand operand' : Operand),
    Operand.Same names names' operand operand' →
      Effect.Parallel store names names' (action operand) (action operand')

/-- Whether the action of a role looks at variables by their names alone. -/
def Role.IsNominal : Role → Prop
  | .binary _ _ action => ∀ (store : Store) (names names' : List String)
      (left left' right right' : Operand), Operand.Same names names' left left' →
        Operand.Same names names' right right' →
          Effect.Parallel store names names' (action left right) (action left' right')
  | .prefixOp _ action | .postfixOp action | .openBracket (some action) => action.IsNominal
  | .function .. | .openBracket none | .closeBracket _ => True

/-- Whether an operation looks at variables by their names alone. -/
def Operation.IsNominal (op : Operation) : Prop :=
  op.role.IsNominal

/-- Whether all operations of a registry are nominal. -/
def Registry.IsNominal (registry : Registry) : Prop :=
  ∀ name kind op, registry.find? name kind = some op → op.IsNominal

namespace Operation

variable {name : String} {priority : Int} {associativity : Associativity}

@[simp] theorem isNominal_binary {f : Float → Float → Float} :
    (binary name priority associativity f).IsNominal :=
  fun _ _ _ _ _ _ _ hl hr => Effect.parallel_compute₂ f hl hr

@[simp] theorem isNominal_prefixOp {f : Float → Float} : (prefixOp name priority f).IsNominal :=
  fun _ _ _ _ _ h => Effect.parallel_compute f h

@[simp] theorem isNominal_openBracket : (openBracket name).IsNominal := trivial

@[simp] theorem isNominal_closeBracket {opener : String} : (closeBracket name opener).IsNominal :=
  trivial

@[simp] theorem isNominal_ofFormula {α : Type} [Formula α] {formula : α} :
    (ofFormula name formula).IsNominal := trivial

end Operation

namespace Library

theorem isNominal_bundle : ∀ op ∈ bundle, op.IsNominal := by
  have ha : assignment.IsNominal := fun _ _ _ _ _ _ _ => Effect.parallel_assign "="
  have hb : ∀ name amount, (stepBefore name amount).IsNominal := fun name amount _ _ _ _ _ h =>
    (Effect.parallel_step name amount h).map Prod.snd
  have hp : ∀ name amount, (stepAfter name amount).IsNominal := fun name amount _ _ _ _ _ h =>
    (Effect.parallel_step name amount h).map Prod.fst
  simp [bundle, arithmetic, power, trigonometry, logarithms, ha, hb, hp]

theorem isNominal_registry : registry.IsNominal := fun _ _ op h =>
  isNominal_bundle op (mem_bundle_of_find? h)

end Library

end Abacus
