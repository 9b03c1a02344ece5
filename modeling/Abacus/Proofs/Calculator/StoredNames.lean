import Abacus.Proofs.Calculator.Transparency
import Abacus.Proofs.Evaluation.Agreement
import Abacus.Proofs.Evaluation.Failure
import Abacus.Proofs.Text.ByteOrder
import Abacus.Proofs.Token.Known

/-!
# The names in a store

What a store may hold that is used with one registry only (`Store.Reachable`): variables are stored
from outside, texts are evaluated, one by one or several at a time, and variables are taken out. Only
storing from outside looks at the name. An evaluation writes back the variables that its tokens name,
and reading a text makes a variable of nothing but a valid name that the registry leaves free. So every
stored name could be stored from outside again, and a text that is this name alone has the stored value
(`Store.Reachable.stored_names`).

An operation may give an evaluation a variable that no token names, and nothing checks the name of it.
Such a variable is told apart by the evaluation that has written it back and by the moment at which it
came up (`Evaluated.Adds`). No local operation adds any.

* `Reaches.mem_names`: the variables of an evaluation are named by its tokens, or added at a moment;
* `tokenize_of_accepts`, `evaluate_of_accepts`: a free name is read as a variable, and its value is the
  stored one.
-/

namespace Abacus

variable {registry : Registry} {store : Store} {name : String}

/-! ## Names that an evaluation has -/

/-- The next step applies an operation that gives the evaluation a variable of the name. -/
def Moment.Adds (registry : Registry) (m : Moment) (name : String) : Prop :=
  ∃ op enclosing taken w, m.Executes registry op enclosing taken ∧ m.run.workspace.run op = .ok w ∧
    name ∉ m.run.workspace.bindings.names ∧ name ∈ w.bindings.names

/-- Local operations add no name. -/
theorem Reaches.not_adds {tokens : List Token} {m : Moment} (hl : registry.IsLocal)
    (h : Reaches registry store tokens m) : ¬m.Adds registry name := by
  rintro ⟨op, enclosing, taken, w, hexecutes, hr, hbefore, hafter⟩
  have hlocal : op.IsLocal := by
    cases hexecutes with
    | pending | close => exact h.forall_frames hl _ List.mem_cons_self
    | postfixOp _ _ ho => exact hl _ _ _ ho
  rw [(Workspace.agreeOutside_of_run hlocal hr).names] at hafter
  exact hbefore hafter

/-- A step gives the evaluation the name of a token, or a name that its operation adds. -/
theorem Moment.Next.mem_names {m m' : Moment} (h : Next registry store m m')
    (hn : name ∈ m'.run.workspace.bindings.names) :
    name ∈ m.run.workspace.bindings.names ∨ name ∈ variableNames m.rest ∨ m.Adds registry name := by
  by_cases hbefore : name ∈ m.run.workspace.bindings.names
  · exact .inl hbefore
  rcases h.runs with hsame | ⟨met, hm, hmet⟩ | ⟨op, enclosing, hexecutes, hrun, -⟩
  · exact .inl (hsame ▸ hn)
  · rw [hmet, Bindings.names_resolve] at hn
    split at hn
    · exact .inl hn
    · rcases List.mem_append.1 hn with hn | hn
      · exact .inl hn
      · rw [List.mem_singleton.1 hn]
        exact .inr (.inl (mem_variableNames.2 hm))
  · exact .inr (.inr ⟨op, enclosing, _, _, hexecutes, hrun, hbefore, hn⟩)

/-- The variables of an evaluation are named by its tokens, or an operation has added them. -/
theorem Reaches.mem_names {tokens : List Token} {m : Moment} (h : Reaches registry store tokens m)
    (hn : name ∈ m.run.workspace.bindings.names) :
    name ∈ variableNames tokens ∨ ∃ m', Reaches registry store tokens m' ∧ m'.Adds registry name := by
  induction h with
  | refl => cases hn
  | @tail a b ha hstep ih =>
    rcases hstep.mem_names hn with hn | hn | hadds
    · exact ih hn
    · exact .inl (mem_variableNames.2 ((rest_suffix ha).subset (mem_variableNames.1 hn)))
    · exact .inr ⟨a, ha, hadds⟩

/-- A text that was evaluated, and the store whose values the evaluation has seen. -/
structure Evaluated where
  /-- The text. -/
  text : String
  /-- The store. -/
  seen : Store

/-- The evaluation has come to a value and written back a variable that no token names, and an operation
has added it. -/
def Evaluated.Adds (registry : Registry) (evaluated : Evaluated) (name : String) : Prop :=
  ∃ tokens value bindings m, tokenize registry evaluated.text = .ok tokens ∧
    runAll registry evaluated.seen tokens = .ok (value, bindings) ∧
    (∃ v, (name, some v) ∈ bindings.toList) ∧ name ∉ variableNames tokens ∧
    Reaches registry evaluated.seen tokens m ∧ m.Adds registry name

theorem Registry.IsLocal.not_adds (hl : registry.IsLocal) (evaluated : Evaluated) (name : String) :
    ¬evaluated.Adds registry name := by
  rintro ⟨tokens, value, bindings, m, -, -, -, -, hreach, hadds⟩
  exact hreach.not_adds hl hadds

/-- What a text writes back is named by its tokens, or added. -/
theorem Evaluated.mem_variableNames_or_adds {evaluated : Evaluated} {tokens : List Token}
    {value v : Float} {bindings : Bindings} (ht : tokenize registry evaluated.text = .ok tokens)
    (hr : runAll registry evaluated.seen tokens = .ok (value, bindings))
    (hv : (name, some v) ∈ bindings.toList) :
    name ∈ variableNames tokens ∨ evaluated.Adds registry name := by
  by_cases hm : name ∈ variableNames tokens
  · exact .inl hm
  obtain ⟨operand, previous, index, hreach, -⟩ := exists_reaches hr
  have hn : name ∈ bindings.names := by
    obtain ⟨slot, hslot, he⟩ := List.mem_map.1 hv
    exact List.mem_map.2 ⟨slot, hslot, congrArg Prod.fst he⟩
  obtain ⟨m, hmoment, hadds⟩ := (hreach.mem_names hn).resolve_left hm
  exact .inr ⟨tokens, value, bindings, m, ht, hr, ⟨v, hv⟩, hm, hmoment, hadds⟩

/-! ## Names that are free -/

/-- A name that could be stored from outside is classified as a variable. -/
theorem classify?_of_accepts (h : Store.accepts registry name = true) :
    classify? registry name.toList = some .var := by
  simp only [Store.accepts, Registry.contains, Bool.and_eq_true, Bool.not_eq_true', Bool.or_eq_false_iff]
    at h
  obtain ⟨hvalid, ⟨hfunction, hoperator⟩, hbracket⟩ := h
  have hcall : isCallSymbol name.toList = false := by
    rw [Bool.eq_false_iff, ne_eq, isCallSymbol_iff]
    rintro (rfl | rfl) <;> exact absurd hvalid (by decide)
  simp [classify?, hvalid, hfunction, hoperator, hbracket, hcall]

theorem not_isDigit_of_isAlpha {c : Char} (h : c.isAlpha = true) : c.isDigit = false := by
  change (decide ((65 : UInt32) ≤ c.val ∧ c.val ≤ 90) ||
    (decide ((97 : UInt32) ≤ c.val) && decide (c.val ≤ 122))) = true at h
  change (decide ((48 : UInt32) ≤ c.val) && decide (c.val ≤ 57)) = false
  simp only [Bool.or_eq_true, Bool.and_eq_true, Bool.and_eq_false_iff, decide_eq_true_eq,
    decide_eq_false_iff_not, UInt32.le_iff_toNat_le, UInt32.reduceToNat] at h ⊢
  omega

/-- A name that could be stored from outside is read as a variable. -/
theorem tokenize_of_accepts (hr : registry.Reachable) (h : Store.accepts registry name = true) :
    tokenize registry name = .ok [⟨.var, name⟩] := by
  have hlexical : Token.IsLexical registry ⟨.var, name⟩ := by
    refine .name (fun c hc => ?_) (classify?_of_accepts h)
    have hvalid : Name.isWord name.toList = true := (Bool.and_eq_true_iff.1 h).1
    cases hcs : name.toList with
    | nil => simp [hcs] at hc
    | cons d cs =>
      rw [hcs, Name.isWord, Name.spelled_cons, Bool.and_eq_true] at hvalid
      obtain rfl : d = c := by simpa [hcs] using hc
      have hreserved := Name.not_isReserved_of_isAlphanum (Name.isAlphanum_of_isAlpha hvalid.1)
      refine ⟨not_isDigit_of_isAlpha hvalid.1, ?_⟩
      rintro rfl
      cases hreserved
  have hscan : scan registry 0 (name.toList ++ []) = _ := scan_append hr hlexical (by simp)
  rwa [List.append_nil, scan_nil] at hscan

/-- A text that is the free name of a stored variable has the stored value, and changes nothing. -/
theorem evaluate_of_accepts (hr : registry.Reachable) (h : Store.accepts registry name = true)
    {value : Float} (hv : store.get? name = some value) :
    evaluate registry store name = ⟨.ok value, store⟩ := by
  have hrun : runAll registry store [⟨.var, name⟩] = .ok (value, ⟨[⟨name, some value⟩]⟩) := by
    have hread : Run.start.readVariable store name =
        ⟨[], ⟨[.var ⟨0⟩], ⟨[⟨name, some value⟩]⟩⟩, .var⟩ := by
      simp only [Run.readVariable, Run.start, ← hv]
      rfl
    rw [runAll, runTokens_singleton, Run.step_var rfl, ok_bind, hread]
    rfl
  have hcommit : store.commit ⟨[⟨name, some value⟩]⟩ = store := by
    refine Store.ext_get? fun other => ?_
    show (store.insert name value).get? other = store.get? other
    rw [Store.get?_insert]
    split
    · rename_i he
      rw [← he, hv]
    · rfl
  rw [evaluate_of_tokenize (tokenize_of_accepts hr h), evaluateTokens_of_ok hrun, hcommit]

/-! ## Stores -/

/-- Whether a calculator has the registry and has come about by requests. -/
def Calculator.Serves (registry : Registry) (calculator : Calculator) : Prop :=
  ∃ store capacity requests,
    calculator = ((Calculator.ofParts registry store capacity).answers requests).2

theorem Calculator.Serves.tracks {calculator : Calculator} (h : calculator.Serves registry) :
    calculator.Tracks registry calculator.store := by
  obtain ⟨store, capacity, requests, rfl⟩ := h
  obtain ⟨-, htracks⟩ := (Tracks.ofParts registry store capacity).answers requests
  rwa [htracks.store_eq]

/-- The texts of a batch, each with the store that the ones before it have left. -/
def evaluations (registry : Registry) (store : Store) : List String → List Evaluated
  | [] => []
  | text :: texts => ⟨text, store⟩ :: evaluations registry (evaluate registry store text).store texts

/-- The stores that come about, from an empty one, by using them with one registry, and the texts that
have been evaluated since. -/
inductive Store.Reachable (registry : Registry) : List Evaluated → Store → Prop where
  /-- A new store, or one that has been cleared. -/
  | empty : Reachable registry [] ∅
  | set {past : List Evaluated} {store result : Store} {name : String} {value : Float}
    (h : Reachable registry past store) (hs : store.set registry name value = .ok result) :
    Reachable registry past result
  | erase {past : List Evaluated} {store : Store} (h : Reachable registry past store) (name : String) :
    Reachable registry past (store.erase name)
  | evaluate {past : List Evaluated} {store : Store} (h : Reachable registry past store)
    (text : String) :
    Reachable registry (past ++ [⟨text, store⟩]) (Abacus.evaluate registry store text).store
  /-- A calculator evaluates a text, with whatever its cache holds. -/
  | calculate {past : List Evaluated} {calculator : Calculator}
    (h : Reachable registry past calculator.store) (hc : calculator.Serves registry) (text : String) :
    Reachable registry (past ++ [⟨text, calculator.store⟩]) (calculator.evaluate text).2.store
  | evaluateBatch {past : List Evaluated} {calculator : Calculator}
    (h : Reachable registry past calculator.store) (hc : calculator.Serves registry)
    (texts : List String) :
    Reachable registry (past ++ evaluations registry calculator.store texts)
      (calculator.evaluateBatch texts).2.store
  /-- An evaluation that goes on at the same time as others writes back: the values it has seen may be
  those of any store. -/
  | commit {past : List Evaluated} {store seen : Store} {text : String} {tokens : List Token}
    {value : Float} {bindings : Bindings} (h : Reachable registry past store)
    (ht : tokenize registry text = .ok tokens)
    (hr : runAll registry seen tokens = .ok (value, bindings)) :
    Reachable registry (past ++ [⟨text, seen⟩]) (store.commit bindings)

namespace Store

variable {past : List Evaluated}

/-- Whether every name of the store is free, or was added by an operation in one of some evaluations. -/
def IsNamed (registry : Registry) (past : List Evaluated) (store : Store) : Prop :=
  ∀ name value, store.get? name = some value →
    accepts registry name = true ∨ ∃ evaluated ∈ past, evaluated.Adds registry name

/-- A name for which a list has no value keeps the value that it has. -/
theorem get?_insertMany_of_forall_notMem {entries : List (String × Option Float)}
    (h : ∀ value, (name, some value) ∉ entries) :
    (store.insertMany entries).get? name = store.get? name := by
  induction entries generalizing store with
  | nil => rfl
  | cons entry entries ih =>
    obtain ⟨other, value?⟩ := entry
    rw [insertMany_cons, ih fun value hm => h value (List.mem_cons_of_mem _ hm)]
    cases value? with
    | none => rfl
    | some value =>
      rw [Option.elim_some, get?_insert, if_neg]
      rintro rfl
      exact h value List.mem_cons_self

namespace IsNamed

theorem mono {later : List Evaluated} (h : IsNamed registry past store) :
    IsNamed registry (past ++ later) store := by
  intro name value hv
  refine (h name value hv).imp_right ?_
  rintro ⟨evaluated, hm, hadds⟩
  exact ⟨evaluated, List.mem_append_left _ hm, hadds⟩

theorem set {result : Store} {value : Float} (h : IsNamed registry past store)
    (hs : store.set registry name value = .ok result) : IsNamed registry past result := by
  obtain ⟨ha, rfl⟩ := set_eq_ok_iff.1 hs
  intro other v hv
  rw [get?_insert] at hv
  split at hv
  · rename_i he
    exact .inl (he ▸ ha)
  · exact h other v hv

theorem erase (h : IsNamed registry past store) (name : String) :
    IsNamed registry past (store.erase name) := by
  intro other v hv
  rw [get?_erase] at hv
  split at hv
  · cases hv
  · exact h other v hv

/-- Writing back the variables of a text stores free names, and names that an operation has added. -/
theorem commit {seen : Store} {text : String} {tokens : List Token} {value : Float}
    {bindings : Bindings} (h : IsNamed registry past store) (hreach : registry.Reachable)
    (ht : tokenize registry text = .ok tokens)
    (hr : runAll registry seen tokens = .ok (value, bindings)) :
    IsNamed registry (past ++ [⟨text, seen⟩]) (store.commit bindings) := by
  intro name v hv
  by_cases hn : ∃ written, (name, some written) ∈ bindings.toList
  · obtain ⟨written, hwritten⟩ := hn
    have hevaluated : tokenize registry (Evaluated.mk text seen).text = .ok tokens := ht
    rcases Evaluated.mem_variableNames_or_adds hevaluated hr hwritten with hm | hadds
    · obtain ⟨hvalid, hfree⟩ := (isKnown_of_tokenize hreach ht _ (mem_variableNames.1 hm)).found
      exact .inl (by simp [accepts, hvalid, hfree])
    · exact .inr ⟨_, List.mem_append_right _ (List.mem_singleton_self _), hadds⟩
  · rw [Store.commit, get?_insertMany_of_forall_notMem (not_exists.1 hn)] at hv
    exact h.mono name v hv

theorem evaluate (h : IsNamed registry past store) (hreach : registry.Reachable) (text : String) :
    IsNamed registry (past ++ [⟨text, store⟩]) (Abacus.evaluate registry store text).store := by
  cases ht : tokenize registry text with
  | error error =>
    rw [evaluate_of_lex_error ht]
    exact h.mono
  | ok tokens =>
    rw [evaluate_of_tokenize ht]
    cases hr : runAll registry store tokens with
    | error error =>
      rw [evaluateTokens_of_error hr]
      exact h.mono
    | ok outcome =>
      rw [evaluateTokens_of_ok hr]
      exact h.commit hreach ht hr

theorem evaluateAll (h : IsNamed registry past store) (hreach : registry.Reachable)
    (texts : List String) :
    IsNamed registry (past ++ evaluations registry store texts)
      (Abacus.evaluateAll registry store texts).2 := by
  induction texts generalizing past store with
  | nil => exact h.mono
  | cons text texts ih =>
    have hrest := ih (h.evaluate hreach text)
    rwa [List.append_assoc] at hrest

end IsNamed

theorem Reachable.isNamed (hreach : registry.Reachable) (h : Reachable registry past store) :
    IsNamed registry past store := by
  induction h with
  | empty => simp [IsNamed]
  | set _ hs ih => exact ih.set hs
  | erase _ name ih => exact ih.erase name
  | evaluate _ text ih => exact ih.evaluate hreach text
  | calculate _ hc text ih =>
    rw [(hc.tracks.evaluate text).2.store_eq]
    exact ih.evaluate hreach text
  | evaluateBatch _ hc texts ih =>
    rw [Calculator.evaluateBatch_eq, hc.tracks.registry_eq]
    exact ih.evaluateAll hreach texts
  | commit _ ht hr ih => exact ih.commit hreach ht hr

/-- What holds of a store that is used with one registry. A stored name is free, unless an operation has
added it in one of the evaluations, as no local operation does. Where the name is free, a variable can
be stored under it, and the text that is this name alone has the stored value and leaves the store as
it is. The listing holds exactly the stored variables, in ascending order of the bytes of their names,
and is as long as the store is large. -/
theorem Reachable.stored_names (hreach : registry.Reachable) (h : Reachable registry past store) :
    (∀ name value, store.get? name = some value →
      (accepts registry name = true ∨ ∃ evaluated ∈ past, evaluated.Adds registry name) ∧
      (accepts registry name = true →
        (∀ v, store.set registry name v = .ok (store.insert name v)) ∧
        Abacus.evaluate registry store name = ⟨.ok value, store⟩)) ∧
    (registry.IsLocal → ∀ (evaluated : Evaluated) (name : String), ¬evaluated.Adds registry name) ∧
    (∀ name value, (name, value) ∈ store.toList ↔ store.get? name = some value) ∧
    (store.toList.Pairwise fun a b => Text.bytes a.1 < Text.bytes b.1) ∧
    store.toList.length = store.size := by
  refine ⟨fun name value hv => ⟨h.isNamed hreach name value hv, fun ha => ?_⟩, fun hl => hl.not_adds,
    fun _ _ => mem_toList_iff, pairwise_bytes, length_toList⟩
  exact ⟨fun v => set_eq_ok_iff.2 ⟨ha, rfl⟩, evaluate_of_accepts hreach ha hv⟩

/-- One variable is stored from outside, and another one by the text `a = b`. -/
theorem Reachable.stored_names_sample :
    let store := (Abacus.evaluate Library.registry ((∅ : Store).insert "b" 2.0) "a = b").store
    accepts Library.registry "a" = true ∧
      Abacus.evaluate Library.registry store "a" = ⟨.ok 2.0, store⟩ ∧
      (store.toList.Pairwise fun a b => Text.bytes a.1 < Text.bytes b.1) ∧
      store.toList.length = store.size := by
  intro store
  obtain ⟨hfree, ha⟩ : accepts Library.registry "b" = true ∧ store.get? "a" = some 2.0 := by
    decide +kernel
  have hset : (∅ : Store).set Library.registry "b" 2.0 = .ok ((∅ : Store).insert "b" 2.0) :=
    set_eq_ok_iff.2 ⟨hfree, rfl⟩
  have hstore : Reachable Library.registry [⟨"a = b", (∅ : Store).insert "b" 2.0⟩] store :=
    (Reachable.empty.set hset).evaluate "a = b"
  obtain ⟨hnames, hlocal, -, hsorted, hlength⟩ :=
    Reachable.stored_names Library.reachable_registry hstore
  obtain ⟨haccepts | ⟨evaluated, -, hadds⟩, hvalue⟩ := hnames "a" 2.0 ha
  · exact ⟨haccepts, (hvalue haccepts).2, hsorted, hlength⟩
  · exact absurd hadds (hlocal Library.isLocal_registry evaluated "a")

/-- An operation that is not local resolves a name that is not valid and gives it a value. The variable
is stored, and it could not be stored from outside. -/
theorem Reachable.stored_name_not_accepted :
    let add : UnaryAction := fun _ bindings =>
      .ok 0.0 ((bindings.resolve "1x" ∅).2.set (bindings.resolve "1x" ∅).1 0.0)
    let registry := ((∅ : Registry).load [⟨"!", .postfixOp add⟩]).1
    registry.Reachable ∧ ∃ past store, Reachable registry past store ∧
      store.get? "1x" = some 0.0 ∧ accepts registry "1x" = false ∧
      ¬(Abacus.evaluate registry store "1x").result = .ok 0.0 := by
  intro add registry
  exact ⟨Registry.Reachable.empty.load _, _, _, Reachable.empty.evaluate "1!", by decide +kernel⟩

end Store

end Abacus
