import Abacus.Proofs.Evaluation.Agreement
import Abacus.Proofs.Evaluation.Execution
import Abacus.Proofs.Library.Registered

/-!
# Isolation of calls and groups

When what stands inside a call or a group has to do with the operands and variables outside of it.
An evaluation is isolated (`Isolated`) if no operation inside takes an operand from below the base of
the scope, so that a scope that closes leaves the operands below it as they were and no variable that
is not named inside gets another value. An operator that lacks its right operand is applied all the
same, and takes what there is: the evaluation is isolated exactly if none of them is stranded at the
bottom of a scope with operands below it (`isolated_iff`, `Moment.Strands`).

* `Run.Balanced.base_add_taken_le_iff`: when a pending operator takes from below a scope;
* `Passage.operands`, `Passage.valueOf?`: what a scope leaves as it was.
-/

namespace Abacus

/-! ## Scopes from opening to closing -/

/-- A step after which a number of operations still wait. -/
def Moment.Inside (registry : Registry) (store : Store) (level : List Frame) (m m' : Moment) : Prop :=
  Next registry store m m' ∧ level <:+ m'.run.frames

/-- A scope of an evaluation: it is opened by the step from `m` to `m₀`, waits until `m₁`, and is
closed by the step from there to `m₂`. -/
structure Passage (registry : Registry) (store : Store) (tokens : List Token) (scope : Frame)
    (m m₀ m₁ m₂ : Moment) : Prop where
  reaches : Reaches registry store tokens m
  isScope : scope.operation.isScope = true
  opens : Moment.Next registry store m m₀
  opened : m₀.run.frames = scope :: m.run.frames
  inside : Relation.ReflTransGen (Moment.Inside registry store (scope :: m.run.frames)) m₀ m₁
  closes : Moment.Next registry store m₁ m₂
  closing : m₁.run.frames = scope :: m.run.frames
  closed : m₂.run.frames = m.run.frames

/-- Whether calls and groups keep to their own operands and variables. -/
structure Isolated (registry : Registry) (store : Store) (tokens : List Token) : Prop where
  /-- No operation takes an operand from below the base of a scope that it stands in. -/
  taken : ∀ {m op enclosing n}, Reaches registry store tokens m →
    m.Executes registry op enclosing n → ∀ scope ∈ enclosing, scope.operation.isScope = true →
      scope.base + n ≤ m.run.workspace.operands.length
  /-- A scope that is closed leaves one operand above those that were there when it was opened. -/
  operands : ∀ {scope m m₀ m₁ m₂}, Passage registry store tokens scope m m₀ m₁ m₂ →
    ∃ result, m₂.run.workspace.operands = result :: m.run.workspace.operands
  /-- A variable that is not named inside a scope has the value after it that it had before. -/
  valueOf? : registry.IsLocal → ∀ {scope m m₀ m₁ m₂ inside},
    Passage registry store tokens scope m m₀ m₁ m₂ → m₀.rest = inside ++ m₂.rest →
      ∀ name ∉ variableNames inside,
        m₂.run.workspace.bindings.valueOf? name = m.run.workspace.bindings.valueOf? name

/-- The next step applies an operator that lacks its right operand, is the first one in a scope that
it stands in, and finds operands below that scope. -/
inductive Moment.Strands (registry : Registry) : Moment → Prop where
  | mk {frame scope : Frame} {frames : List Frame} {w : Workspace} {previous : Reading}
    {index : Nat} {rest : List Token}
    (hr : releases registry previous rest.head? frame.operation = true)
    (hp : previous.completesOperand = false) (hm : scope ∈ frames)
    (hs : scope.operation.isScope = true) (hf : frame.base + 1 = scope.base + frame.operation.demand)
    (hb : 0 < scope.base) : Strands registry ⟨⟨frame :: frames, w, previous⟩, index, rest⟩

/-! ## What executions take -/

namespace Run.Balanced

variable {frame scope : Frame} {frames : List Frame} {w : Workspace} {previous : Reading}
  {run : Run}

/-- Nothing waits above the operands that are there. -/
theorem base_le (h : run.Balanced) (hf : frame ∈ run.frames) :
    frame.base ≤ run.workspace.operands.length := by
  obtain ⟨n, hr, hl⟩ := h
  have := hr.base_le frame hf
  omega

/-- A pending operator takes from below a scope exactly if it lacks its right operand, is the first
one in the scope, and there are operands below. -/
theorem base_add_taken_le_iff (h : Balanced ⟨frame :: frames, w, previous⟩)
    (hf : frame.operation.isScope = false) (hm : scope ∈ frames) :
    scope.base + frame.taken w ≤ w.operands.length ↔
      ¬(previous.completesOperand = false ∧
        frame.base + 1 = scope.base + frame.operation.demand ∧ 0 < scope.base) := by
  obtain ⟨n, hr, hl⟩ := h
  replace hl : w.operands.length = n + previous.completesOperand.toNat := hl
  have htaken : frame.taken w = w.taken frame.operation := by simp [Frame.taken, hf]
  rw [htaken, Workspace.taken, hl]
  cases hr with
  | prefixOp hk hr =>
    have hle := hr.base_le scope hm
    rw [Operation.demand_of_kind_prefixOp hk]
    cases previous.completesOperand <;> simp only [Bool.toNat_false, Bool.toNat_true] <;> split <;>
      simp <;> omega
  | binary hk hr =>
    have hle := hr.base_le scope hm
    rw [Operation.demand_of_kind_binary hk]
    cases previous.completesOperand <;> simp only [Bool.toNat_false, Bool.toNat_true] <;> split <;>
      simp <;> omega
  | function hk | openBracket hk => simp [Operation.isScope, hk] at hf

end Run.Balanced

namespace Moment

variable {registry : Registry} {m : Moment} {op : Operation} {enclosing : List Frame} {n : Nat}

/-- An execution takes from below a scope only where an operator is stranded. -/
theorem Executes.base_add_le (hreach : registry.Reachable) (hb : m.run.Balanced)
    (hs : ¬m.Strands registry) (h : m.Executes registry op enclosing n) :
    ∀ scope ∈ enclosing, scope.operation.isScope = true →
      scope.base + n ≤ m.run.workspace.operands.length := by
  intro scope hm hscope
  cases h with
  | pending hr =>
    refine (hb.base_add_taken_le_iff (Operation.not_isScope_of_releases hr) hm).2 ?_
    rintro ⟨hp, hf, h0⟩
    exact hs (.mk hr hp hm hscope hf h0)
  | @close frame frames w previous index token rest _ _ hframe =>
    have hle := hb.base_le (List.mem_cons_self : frame ∈ frame :: enclosing)
    have htaken : frame.base + frame.taken w ≤ w.operands.length :=
      Frame.base_add_taken_le hframe hle
    obtain ⟨n, hr, _⟩ := hb
    have hout := (hr.of_isScope hframe).base_le scope hm
    show scope.base + frame.taken w ≤ w.operands.length
    omega
  | @postfixOp run index name rest op hp _ ho =>
    obtain ⟨n, hr, hl⟩ := hb
    have hle := hr.base_le scope hm
    have hd := Operation.demand_of_kind_postfixOp (hreach.find?_eq_some ho).2.1
    replace hl : run.workspace.operands.length = n + run.previous.completesOperand.toNat := hl
    rw [hp, Bool.toNat_true] at hl
    have htaken : run.workspace.taken op ≤ 1 := by
      unfold Workspace.taken
      split <;> omega
    show scope.base + run.workspace.taken op ≤ run.workspace.operands.length
    omega

end Moment

/-! ## What a scope leaves alone -/

/-- The operands and variables of a moment, compared with those of an earlier one. What has been
added are numbers and variables that have been named since, and only variables that have been named
since may have another value. -/
structure Moment.Touches (earlier m : Moment) (inside : List Token) : Prop where
  operands : ∃ above, m.run.workspace.operands = above ++ earlier.run.workspace.operands ∧
    ∀ id, .var id ∈ above →
      ∃ name ∈ variableNames inside, m.run.workspace.bindings.names[id.index]? = some name
  valueOf? : ∀ name ∉ variableNames inside,
    m.run.workspace.bindings.valueOf? name = earlier.run.workspace.bindings.valueOf? name

theorem variableNames_append (xs ys : List Token) :
    variableNames (xs ++ ys) = variableNames xs ++ variableNames ys := by
  simp [variableNames]

namespace Moment

variable {registry : Registry} {store : Store} {earlier m m' : Moment} {inside read : List Token}

theorem Touches.refl (m : Moment) : m.Touches m [] :=
  ⟨⟨[], rfl, fun _ h => absurd h List.not_mem_nil⟩, fun _ _ => rfl⟩

/-- More may be named when nothing has been added and no value has changed. -/
theorem Touches.of_workspace_eq (h : earlier.Touches m inside)
    (hw : m'.run.workspace = m.run.workspace) (read : List Token) :
    earlier.Touches m' (inside ++ read) := by
  obtain ⟨⟨above, ho, ha⟩, hv⟩ := h
  refine ⟨⟨above, hw ▸ ho, fun id hid => ?_⟩, fun name hn => ?_⟩
  · obtain ⟨name, hm, hname⟩ := ha id hid
    exact ⟨name, by simp [variableNames_append, hm], hw ▸ hname⟩
  · rw [variableNames_append, List.mem_append, not_or] at hn
    rw [hw, hv name hn.1]

/-- A step whose executions reach only what has been added touches only what has been named. -/
theorem Touches.next (h : earlier.Touches m inside) (hl : registry.IsLocal)
    (hf : ∀ frame ∈ m.run.frames, frame.operation.IsLocal) (hc : Changes registry store m m')
    (hr : m.rest = read ++ m'.rest)
    (he : ∀ op n, m.Executes registry op m'.run.frames n →
      earlier.run.workspace.operands.length + n ≤ m.run.workspace.operands.length) :
    earlier.Touches m' (inside ++ read) := by
  cases hc with
  | same hw => exact h.of_workspace_eq hw read
  | @literal value hw =>
    obtain ⟨above, ho, ha⟩ := h.operands
    have hw' : m'.run.workspace.bindings = m.run.workspace.bindings := by rw [hw]; rfl
    refine ⟨⟨.literal value :: above, ?_, fun id hid => ?_⟩, fun name hn => ?_⟩
    · rw [hw, List.cons_append, ← ho]
      rfl
    · obtain ⟨name, hm, hname⟩ := ha id (by simpa using hid)
      exact ⟨name, by simp [variableNames_append, hm], hw' ▸ hname⟩
    · rw [variableNames_append, List.mem_append, not_or] at hn
      rw [hw', h.valueOf? name hn.1]
  | @var name hrest hw =>
    obtain rfl : read = [⟨.var, name⟩] := List.append_cancel_right (hr.symm.trans hrest)
    obtain ⟨above, ho, ha⟩ := h.operands
    have hmem : name ∈ variableNames (inside ++ [⟨.var, name⟩]) := by simp [variableNames]
    refine ⟨⟨.var (m.run.workspace.bindings.resolve name store).1 :: above, ?_, fun id hid => ?_⟩,
      fun other hn => ?_⟩
    · rw [hw, List.cons_append, ← ho]
      rfl
    · rw [hw]
      rcases List.mem_cons.1 hid with hid | hid
      · rw [Operand.var.inj hid]
        exact ⟨name, hmem, Bindings.getElem?_names_resolve⟩
      · obtain ⟨other, hm, hother⟩ := ha id hid
        exact ⟨other, by simp [variableNames_append, hm],
          Bindings.getElem?_names_resolve_of_eq_some hother⟩
    · have hne : other ≠ name := fun he => hn (he ▸ hmem)
      rw [variableNames_append, List.mem_append, not_or] at hn
      rw [hw, ← h.valueOf? other hn.1]
      exact Bindings.valueOf?_resolve_of_ne hne
  | @applied op handed below result happ hex hop =>
    obtain ⟨above, ho, ha⟩ := h.operands
    have hlocal : op.IsLocal := by
      rcases hop with ⟨frame, hm, rfl⟩ | ⟨name, kind, hfind⟩
      · exact hf frame hm
      · exact hl name kind op hfind
    have hb := happ.bindings hlocal
    -- The operands of the execution are among those that have been added.
    obtain ⟨rest, rfl⟩ := happ.suffix ⟨above, ho.symm⟩ (he _ _ hex)
    have happend : above ++ earlier.run.workspace.operands =
        handed ++ rest ++ earlier.run.workspace.operands := by
      rw [← ho, happ.before, List.append_assoc]
    have habove : above = handed ++ rest := List.append_cancel_right happend
    refine ⟨⟨result :: rest, by rw [happ.after, List.cons_append], fun id hid => ?_⟩,
      fun name hn => ?_⟩
    · have hid : .var id ∈ above := by
        rw [habove]
        rcases List.mem_cons.1 hid with rfl | hid
        · rcases happ.result with ⟨value, hv⟩ | hv
          · cases hv
          · simp [hv]
        · exact List.mem_append_right _ hid
      obtain ⟨name, hm, hname⟩ := ha id hid
      exact ⟨name, by simp [variableNames_append, hm], hb.names ▸ hname⟩
    · rw [variableNames_append, List.mem_append, not_or] at hn
      rw [← h.valueOf? name hn.1]
      refine hb.valueOf?_eq fun id hid hname => ?_
      obtain ⟨other, hm, hother⟩ := ha id (habove ▸ List.mem_append_left _ hid)
      rw [hname] at hother
      exact hn.1 (Option.some.inj hother ▸ hm)

/-- A step reads at most one token. -/
theorem Next.exists_read (h : Next registry store m m') : ∃ read, m.rest = read ++ m'.rest := by
  cases h with
  | fire => exact ⟨[], rfl⟩
  | read => exact ⟨[_], rfl⟩

/-- A step lets at most one operation go, or at most one wait. -/
theorem Next.frames (h : Next registry store m m') :
    m'.run.frames = m.run.frames ∨ (∃ frame, m'.run.frames = frame :: m.run.frames) ∨
      ∃ frame, m.run.frames = frame :: m'.run.frames := by
  cases h with
  | fire => exact .inr (.inr ⟨_, rfl⟩)
  | read hs hr =>
    cases Run.step_eq_ok hs hr with
    | separator | literal | var | callOpen | postfixOp => exact .inl rfl
    | function | openBracket | prefixOp | binary => exact .inr (.inl ⟨_, rfl⟩)
    | callClose _ hf | closeBracket _ hf => exact .inr (.inr ⟨_, hf⟩)

/-- An operation that begins to wait is the only change, and its base is where the operands end. -/
theorem Next.opened {scope : Frame} (h : Next registry store m m')
    (hf : m'.run.frames = scope :: m.run.frames) :
    m'.run.workspace = m.run.workspace ∧ scope.base = m.run.workspace.operands.length := by
  have hne : ∀ {frames : List Frame}, frames ≠ scope :: frames := fun h =>
    absurd (congrArg List.length h) (by simp)
  cases h with
  | fire =>
    have hlength := congrArg List.length hf
    simp only [List.length_cons] at hlength
    omega
  | read hs hr =>
    cases Run.step_eq_ok hs hr with
    | separator | literal | var | callOpen | postfixOp => exact absurd hf hne
    | function | openBracket | prefixOp | binary =>
      obtain ⟨rfl, _⟩ := List.cons.inj hf
      exact ⟨rfl, rfl⟩
    | callClose _ hf' | closeBracket _ hf' =>
      have hlength := congrArg List.length hf
      simp only [hf', List.length_cons] at hlength
      omega

/-- A scope that goes is applied, and nothing else is. -/
theorem Next.closed {scope : Frame} (h : Next registry store m m')
    (hs : scope.operation.isScope = true) (hf : m.run.frames = scope :: m'.run.frames) :
    scope.fire m.run.workspace = .ok m'.run.workspace ∧
      ∀ op n, m.Executes registry op m'.run.frames n → n = scope.taken m.run.workspace := by
  have hne : ∀ {frames : List Frame}, frames ≠ scope :: frames := fun h =>
    absurd (congrArg List.length h) (by simp)
  have hexecutes : ∀ op n, m.Executes registry op m'.run.frames n →
      n = scope.taken m.run.workspace := by
    intro op n hex
    generalize hl : m'.run.frames = level at hf hex
    cases hex with
    | pending | close => rw [(List.cons.inj hf).1]
    | postfixOp => exact absurd hf hne
  refine ⟨?_, hexecutes⟩
  cases h with
  | fire hr hw =>
    obtain ⟨rfl, _⟩ := List.cons.inj hf
    rw [Operation.not_isScope_of_releases hr] at hs
    cases hs
  | read hsettled hr =>
    cases Run.step_eq_ok hsettled hr with
    | separator | literal | var | callOpen | postfixOp => exact absurd hf hne
    | function | openBracket | prefixOp | binary =>
      have hlength := congrArg List.length hf
      simp only [Run.pushFrame, List.length_cons] at hlength
      omega
    | callClose _ hf' _ _ hw | closeBracket _ hf' _ _ _ hw =>
      obtain ⟨rfl, _⟩ := List.cons.inj (hf'.symm.trans hf)
      exact hw

end Moment

namespace Passage

variable {registry : Registry} {store : Store} {tokens inside : List Token} {scope : Frame}
  {m m₀ m₁ m₂ : Moment}

/-- What holds when a scope is opened and is kept by all steps inside that take nothing from below
the scope holds until the scope is closed. -/
theorem induction {P : Moment → Prop} (h : Passage registry store tokens scope m m₀ m₁ m₂)
    (hreach : registry.Reachable) (hs : ∀ m, Reaches registry store tokens m → ¬m.Strands registry)
    (h₀ : P m₀)
    (hstep : ∀ a b, Reaches registry store tokens a → Moment.Next registry store a b →
      (∀ op n, a.Executes registry op b.run.frames n →
        m.run.workspace.operands.length + n ≤ a.run.workspace.operands.length) → P a → P b) :
    Reaches registry store tokens m₁ ∧ P m₁ := by
  obtain ⟨hm, hscope, hopens, hopened, hinside, -, -, -⟩ := h
  have hbase := (hopens.opened hopened).2
  induction hinside with
  | refl => exact ⟨hm.tail hopens, h₀⟩
  | @tail a b _ hn ih =>
    obtain ⟨ha, hp⟩ := ih
    refine ⟨ha.tail hn.1, hstep a b ha hn.1 (fun op n hex => ?_) hp⟩
    rw [← hbase]
    exact hex.base_add_le hreach (ha.balanced hreach) (hs a ha) scope
      (hn.2.subset List.mem_cons_self) hscope

/-- The operands below a scope are still there when it is closed. -/
theorem suffix (h : Passage registry store tokens scope m m₀ m₁ m₂) (hreach : registry.Reachable)
    (hs : ∀ m, Reaches registry store tokens m → ¬m.Strands registry) :
    Reaches registry store tokens m₁ ∧
      m.run.workspace.operands <:+ m₁.run.workspace.operands := by
  refine h.induction (P := fun a => m.run.workspace.operands <:+ a.run.workspace.operands) hreach hs
    ?_ fun a b ha hn he hp => ?_
  · exact (h.opens.opened h.opened).1 ▸ List.suffix_rfl
  · exact (hn.changes hreach (ha.balanced hreach)).suffix hp he

/-- The scope itself is applied to what has been added since it was opened. -/
theorem base_add_taken_le (h : Passage registry store tokens scope m m₀ m₁ m₂)
    (hreach : registry.Reachable) (hs : ∀ m, Reaches registry store tokens m → ¬m.Strands registry) :
    m.run.workspace.operands.length + scope.taken m₁.run.workspace ≤
      m₁.run.workspace.operands.length := by
  have hle := (h.suffix hreach hs).2.length_le
  have hbase := (h.opens.opened h.opened).2
  have htaken := Frame.base_add_taken_le (w := m₁.run.workspace) h.isScope (by omega)
  omega

/-- A scope that is closed leaves one operand above those that were there when it was opened. -/
theorem operands (h : Passage registry store tokens scope m m₀ m₁ m₂) (hreach : registry.Reachable)
    (hs : ∀ m, Reaches registry store tokens m → ¬m.Strands registry) :
    ∃ result, m₂.run.workspace.operands = result :: m.run.workspace.operands := by
  obtain ⟨h₁, hsuffix⟩ := h.suffix hreach hs
  have hbase := (h.opens.opened h.opened).2
  have hfire := (h.closes.closed h.isScope (h.closed ▸ h.closing)).1
  have hfound := (Frame.fire_eq_ok hfire).2 h.isScope
  obtain ⟨n, hr, _⟩ := h₁.balanced hreach
  rw [h.closing] at hr
  obtain ⟨handed, below, result, ha, hl⟩ := Frame.exists_applied hr.kind_ne_closeBracket hfire
  have hkept : m.run.workspace.operands <:+ below :=
    ha.suffix hsuffix (hl ▸ h.base_add_taken_le hreach hs)
  have hlength : m.run.workspace.operands.length = below.length := by
    have hd := ha.demand
    rw [ha.before, List.length_append] at hfound
    have := hkept.length_le
    omega
  exact ⟨result, by rw [ha.after, hkept.eq_of_length hlength]⟩

/-- A variable that is not named inside a scope has the value after it that it had before. -/
theorem valueOf? (h : Passage registry store tokens scope m m₀ m₁ m₂) (hreach : registry.Reachable)
    (hs : ∀ m, Reaches registry store tokens m → ¬m.Strands registry) (hl : registry.IsLocal)
    (hr : m₀.rest = inside ++ m₂.rest) {name : String} (hn : name ∉ variableNames inside) :
    m₂.run.workspace.bindings.valueOf? name = m.run.workspace.bindings.valueOf? name := by
  have hw := (h.opens.opened h.opened).1
  obtain ⟨h₁, named, hnamed, htouches⟩ :=
    h.induction (P := fun a => ∃ named, m₀.rest = named ++ a.rest ∧ m.Touches a named) hreach hs
      ⟨[], rfl, (Moment.Touches.refl m).of_workspace_eq hw []⟩
      fun a b ha hnext he ⟨named, hnamed, htouches⟩ => by
        obtain ⟨read, hread⟩ := hnext.exists_read
        exact ⟨named ++ read, by rw [hnamed, hread, List.append_assoc],
          htouches.next hl (ha.confined hl).frames (hnext.changes hreach (ha.balanced hreach)) hread
            he⟩
  obtain ⟨read, hread⟩ := h.closes.exists_read
  have htaken := h.base_add_taken_le hreach hs
  have hclosed := (h.closes.closed h.isScope (h.closed ▸ h.closing)).2
  have htouches := htouches.next hl (h₁.confined hl).frames
    (h.closes.changes hreach (h₁.balanced hreach)) hread fun op n hex => hclosed op n hex ▸ htaken
  have happend : inside ++ m₂.rest = named ++ read ++ m₂.rest := by
    rw [← hr, hnamed, hread, List.append_assoc]
  obtain rfl : inside = named ++ read := List.append_cancel_right happend
  exact htouches.valueOf? name hn

end Passage

/-- Every scope that waits at a moment has been opened before, and what waits outside of it has
waited since. -/
theorem Reaches.exists_opening {registry : Registry} {store : Store} {tokens : List Token}
    {m₁ : Moment} (h : Reaches registry store tokens m₁) {scope : Frame} {outer : List Frame}
    (hf : scope :: outer <:+ m₁.run.frames) :
    ∃ m m₀, Reaches registry store tokens m ∧ Moment.Next registry store m m₀ ∧
      m.run.frames = outer ∧ m₀.run.frames = scope :: outer ∧
      Relation.ReflTransGen (Moment.Inside registry store (scope :: outer)) m₀ m₁ := by
  induction h with
  | refl => exact absurd (List.suffix_nil.1 hf) (List.cons_ne_nil _ _)
  | @tail a b ha hn ih =>
    have hbefore : scope :: outer <:+ a.run.frames ∨
        (a.run.frames = outer ∧ b.run.frames = scope :: outer) := by
      rcases hn.frames with he | ⟨frame, he⟩ | ⟨frame, he⟩
      · exact .inl (he ▸ hf)
      · rcases List.suffix_cons_iff.1 (he ▸ hf) with hin | hf'
        · exact .inr ⟨(List.cons.inj hin).2.symm, he.trans hin.symm⟩
        · exact .inl hf'
      · exact .inl (he ▸ hf.trans (List.suffix_cons _ _))
    rcases hbefore with hf' | ⟨hout, hin⟩
    · obtain ⟨m, m₀, hm, hopens, hout, hin, hpath⟩ := ih hf'
      exact ⟨m, m₀, hm, hopens, hout, hin, hpath.tail ⟨hn, hf⟩⟩
    · exact ⟨a, b, ha, hn, hout, hin, .refl⟩

/-- Calls and groups keep to their own operands and variables exactly if no operator is applied that
lacks its right operand, is the first one in a scope, and finds operands below that scope. -/
theorem isolated_iff {registry : Registry} (hreach : registry.Reachable) (store : Store)
    (tokens : List Token) :
    Isolated registry store tokens ↔
      ∀ m, Reaches registry store tokens m → ¬m.Strands registry := by
  constructor
  · intro h m hm hs
    cases hs with
    | mk hr hp hmem hscope hf h0 =>
      have htaken := h.taken hm (.pending hr) _ hmem hscope
      have hiff := (hm.balanced hreach).base_add_taken_le_iff
        (Operation.not_isScope_of_releases hr) hmem
      exact hiff.1 htaken ⟨hp, hf, h0⟩
  · intro hs
    exact {
      taken := fun hm hex => hex.base_add_le hreach (hm.balanced hreach) (hs _ hm)
      operands := fun h => h.operands hreach hs
      valueOf? := fun hl _ _ _ _ _ _ h hr _ hn => h.valueOf? hreach hs hl hr hn }

open Library in
/-- In `3 * (-)` the sign is stranded: it would take the number before the bracket. -/
theorem not_isolated_group : ¬Isolated registry ∅
    [⟨.literal, "3"⟩, ⟨.operator, "*"⟩, ⟨.bracket, "("⟩, ⟨.operator, "-"⟩, ⟨.bracket, ")"⟩] := by
  have hnumeral : Number.read? "3".toList = some 3.0 := by decide +kernel
  have hmul := (find?_registry "*" .binary).trans rfl
  have hneg := (find?_registry "-" .prefixOp).trans rfl
  have hopen : registry.bracket? "(" = some (.openBracket "(") := by
    rw [Registry.bracket?, find?_registry]
    rfl
  have hclose : registry.bracket? ")" = some (.closeBracket ")" "(") := by
    rw [Registry.bracket?, find?_registry, find?_registry]
    rfl
  have h₁ : Reaches registry ∅ [⟨.literal, "3"⟩, ⟨.operator, "*"⟩, ⟨.bracket, "("⟩,
      ⟨.operator, "-"⟩, ⟨.bracket, ")"⟩] ⟨_, 1, _⟩ :=
    Moment.reaches_of_step (Run.step_literal rfl hnumeral)
  have h₂ := h₁.trans (Moment.reaches_of_step (Run.step_binary rfl hmul))
  have h₃ := h₂.trans (Moment.reaches_of_step (Run.step_openBracket rfl hopen rfl))
  have h₄ := h₃.trans (Moment.reaches_of_step (Run.step_prefixOp rfl hneg))
  have hreleases : releases registry .prefixOp (some ⟨.bracket, ")"⟩) (.prefixOp "-" 3 fun a => -a) =
      true := by
    simp [releases, Token.closes, hclose, Reading.completesOperand, Operation.isScope]
  exact fun h => (isolated_iff reachable_registry ∅ _).1 h _ h₄
    (.mk hreleases rfl List.mem_cons_self rfl rfl (by decide))

open Library in
/-- The value of `1 + sqrt(-, 4)` is one: the sign takes the operand of the addition, which is one
short, and the addition takes the root. -/
theorem not_isolated_call : ¬Isolated registry ∅
    [⟨.literal, "1"⟩, ⟨.operator, "+"⟩, ⟨.function, "sqrt"⟩, ⟨.bracket, "("⟩, ⟨.operator, "-"⟩,
      ⟨.separator, ","⟩, ⟨.literal, "4"⟩, ⟨.bracket, ")"⟩] := by
  have hnumeral : Number.read? "1".toList = some 1.0 := by decide +kernel
  have hadd := (find?_registry "+" .binary).trans rfl
  have hsqrt := (find?_registry "sqrt" .function).trans rfl
  have hneg := (find?_registry "-" .prefixOp).trans rfl
  have h₁ : Reaches registry ∅ [⟨.literal, "1"⟩, ⟨.operator, "+"⟩, ⟨.function, "sqrt"⟩,
      ⟨.bracket, "("⟩, ⟨.operator, "-"⟩, ⟨.separator, ","⟩, ⟨.literal, "4"⟩, ⟨.bracket, ")"⟩]
      ⟨_, 1, _⟩ :=
    Moment.reaches_of_step (Run.step_literal rfl hnumeral)
  have h₂ := h₁.trans (Moment.reaches_of_step (Run.step_binary rfl hadd))
  have h₃ := h₂.trans (Moment.reaches_of_step (Run.step_function rfl rfl hsqrt))
  have h₄ := h₃.trans (Moment.reaches_of_step (Run.step_callOpen rfl))
  have h₅ := h₄.trans (Moment.reaches_of_step (Run.step_prefixOp rfl hneg))
  intro h
  have htaken := h.taken h₅ (.pending rfl) _ List.mem_cons_self rfl
  exact absurd htaken (by decide)

end Abacus
