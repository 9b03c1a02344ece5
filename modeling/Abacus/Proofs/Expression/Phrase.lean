import Abacus.Evaluation.Reading

/-!
# Phrases

What may stand between the two ends of a scope. A phrase is complete when it ends where an operand
does, and incomplete when it is empty or ends in an operator that waits for its right operand. The
arguments of a call are phrases with a separator between any two, and as many of them are complete as
the function takes arguments: the incomplete ones do not count.

A phrase is balanced, so where it ends can be told by counting brackets (`Phrase.extent_append`), and
a list of tokens has the form of arguments in one way only (`eq_of_joined_append`).

* `Phrase.getLast?_of_complete`: how complete phrases end;
* `Phrase.callsHaveArguments`: in a phrase, arguments follow the name of every function;
* `HasArguments.eq`, `HasArguments.isWellFormed_iff`: which arguments a call has, and when it is well
  formed.
-/

namespace Abacus

/-- The mark between two arguments. -/
def Token.comma : Token := ⟨.separator, ","⟩

/-- A stretch of tokens and whether an operand is complete at its end. -/
structure Segment where
  /-- The tokens. -/
  tokens : List Token
  /-- Whether they end in an operand. -/
  complete : Bool

theorem Operation.kind_of_opener? {op : Operation} {opener : String}
    (h : op.opener? = some opener) : op.kind = .closeBracket := by
  obtain ⟨name, role⟩ := op
  cases role with
  | closeBracket => rfl
  | _ => simp [opener?] at h

/-- Stretches of tokens with a separator between any two. -/
def joined (segments : List Segment) : List Token :=
  [Token.comma].intercalate (segments.map Segment.tokens)

/-- Tokens that may stand between the ends of a scope, and whether an operand is complete after
them. -/
inductive Phrase (registry : Registry) : List Token → Bool → Prop where
  | nil : Phrase registry [] false
  | literal {tokens : List Token} {text : String} (h : Phrase registry tokens false) :
    Phrase registry (tokens ++ [⟨.literal, text⟩]) true
  | var {tokens : List Token} {name : String} (h : Phrase registry tokens false) :
    Phrase registry (tokens ++ [⟨.var, name⟩]) true
  | prefixOp {tokens : List Token} {name : String} {op : Operation}
    (h : Phrase registry tokens false) (ho : registry.find? name .prefixOp = some op) :
    Phrase registry (tokens ++ [⟨.operator, name⟩]) false
  | binary {tokens : List Token} {name : String} {op : Operation} (h : Phrase registry tokens true)
    (ho : registry.find? name .binary = some op) :
    Phrase registry (tokens ++ [⟨.operator, name⟩]) false
  | postfixOp {tokens : List Token} {name : String} {op : Operation}
    (h : Phrase registry tokens true) (hb : registry.find? name .binary = none)
    (ho : registry.find? name .postfixOp = some op) :
    Phrase registry (tokens ++ [⟨.operator, name⟩]) true
  | group {tokens content : List Token} {opener closer : String} {op cl : Operation}
    (h : Phrase registry tokens false) (ho : registry.bracket? opener = some op)
    (hk : op.kind = .openBracket) (hc : registry.bracket? closer = some cl)
    (hn : cl.opener? = some op.name) (hi : Phrase registry content true) :
    Phrase registry (tokens ++ ⟨.bracket, opener⟩ :: (content ++ [⟨.bracket, closer⟩])) true
  | call {tokens : List Token} {name : String} {arity : Nat}
    {body : List Float → Except EvalError Float} {segments : List Segment}
    (h : Phrase registry tokens false)
    (hf : registry.find? name .function = some ⟨name, .function arity body⟩)
    (hc : ∀ op, registry.bracket? ")" = some op → op.kind ≠ .openBracket)
    (hne : segments ≠ []) (hs : ∀ segment ∈ segments, Phrase registry segment.tokens segment.complete)
    (ha : segments.countP Segment.complete = arity) :
    Phrase registry (tokens ++ ⟨.function, name⟩ :: ⟨.bracket, "("⟩ :: (joined segments ++
      [⟨.bracket, ")"⟩])) true

variable {registry : Registry}

/-! ## Brackets and ends -/

namespace Token

/-- Whether a bracket opens a scope: it is registered so, or it is the parenthesis after the name of
a function. -/
def opens (registry : Registry) (afterFunction : Bool) (token : Token) : Bool :=
  (afterFunction && token.isSymbol Name.callOpen) ||
    (registry.bracket? token.text).any fun op => op.kind = .openBracket

/-- Whether an operand may end in a token: a number, a variable, a postfix operator, or a bracket that
closes. -/
def endsOperand (registry : Registry) (token : Token) : Bool :=
  match token.kind with
  | .literal | .var => true
  | .operator =>
    (registry.find? token.text .binary).isNone && (registry.find? token.text .postfixOp).isSome
  | .bracket => !token.opens registry false
  | .separator | .function => false

theorem opens_callClose (h : ∀ op, registry.bracket? ")" = some op → op.kind ≠ .openBracket) :
    opens registry false ⟨.bracket, ")"⟩ = false := by
  cases hb : registry.bracket? ")" with
  | none => simp [opens, hb]
  | some op => simp [opens, hb, h op hb]

/-- A bracket that names an opening one does not open. -/
theorem opens_of_opener? {closer opener : String} {op : Operation}
    (h : registry.bracket? closer = some op) (hn : op.opener? = some opener) :
    opens registry false ⟨.bracket, closer⟩ = false := by
  simp [opens, h, Operation.kind_of_opener? hn]

end Token

/-! ## How phrases end -/

namespace Phrase

variable {tokens : List Token} {complete : Bool}

/-- A complete phrase ends in a token that completes an operand. -/
theorem getLast?_of_complete (h : Phrase registry tokens true) :
    ∃ token, tokens.getLast? = some token ∧ token.endsOperand registry = true := by
  cases h with
  | literal | var => exact ⟨_, List.getLast?_concat, rfl⟩
  | postfixOp _ hb ho => exact ⟨_, List.getLast?_concat, by simp [Token.endsOperand, hb, ho]⟩
  | group _ _ _ hc hn _ =>
    rw [← List.cons_append, ← List.append_assoc, List.getLast?_concat]
    exact ⟨_, rfl, by simp [Token.endsOperand, Token.opens_of_opener? hc hn]⟩
  | call _ _ hc =>
    rw [← List.cons_append, ← List.cons_append, ← List.append_assoc, List.getLast?_concat]
    exact ⟨_, rfl, by simp [Token.endsOperand, Token.opens_callClose hc]⟩

/-- What an incomplete phrase is made of: a phrase and an operator after it. -/
theorem of_concat {token : Token} (h : Phrase registry (tokens ++ [token]) false) :
    token.kind = .operator ∧
      (Phrase registry tokens false ∨ registry.find? token.text .binary ≠ none) := by
  generalize he : tokens ++ [token] = all at h
  cases h with
  | nil => simp at he
  | prefixOp h ho =>
    obtain ⟨rfl, ht⟩ := List.append_inj' he rfl
    obtain rfl := List.singleton_inj.1 ht
    exact ⟨rfl, .inl h⟩
  | binary h ho =>
    obtain ⟨rfl, ht⟩ := List.append_inj' he rfl
    obtain rfl := List.singleton_inj.1 ht
    exact ⟨rfl, .inr (by simp [ho])⟩

/-- No phrase is both complete and incomplete. -/
theorem not_complete (h : Phrase registry tokens complete) (hc : complete = true) :
    ¬Phrase registry tokens false := by
  induction h with
  | nil | prefixOp | binary => cases hc
  | literal | var =>
    intro h
    cases h.of_concat.1
  | postfixOp _ hb _ ih =>
    intro h
    rcases h.of_concat.2 with h | h
    · exact ih rfl h
    · exact h hb
  | group =>
    rw [← List.cons_append, ← List.append_assoc]
    intro h
    cases h.of_concat.1
  | call =>
    rw [← List.cons_append, ← List.cons_append, ← List.append_assoc]
    intro h
    cases h.of_concat.1

end Phrase

/-! ## Where phrases end -/

/-- The number of tokens before the separator or bracket that ends a stretch of tokens, where `depth`
scopes have been opened in it so far. -/
def extent (registry : Registry) : Nat → Bool → List Token → Nat
  | _, _, [] => 0
  | depth, afterFunction, token :: tokens =>
    match token.kind with
    | .literal | .var | .operator => extent registry depth false tokens + 1
    | .function => extent registry depth true tokens + 1
    | .separator => if depth = 0 then 0 else extent registry depth false tokens + 1
    | .bracket =>
      if token.opens registry afterFunction then extent registry (depth + 1) false tokens + 1
      else if depth = 0 then 0
      else extent registry (depth - 1) false tokens + 1

section Extent

variable {depth : Nat} {afterFunction : Bool} {tokens : List Token}

theorem extent_plain {token : Token} (h : token.kind = .literal ∨ token.kind = .var ∨
    token.kind = .operator) :
    extent registry depth afterFunction (token :: tokens) =
      extent registry depth false tokens + 1 := by
  rcases h with h | h | h <;> simp [extent, h]

theorem extent_function (name : String) :
    extent registry depth afterFunction (⟨.function, name⟩ :: tokens) =
      extent registry depth true tokens + 1 := rfl

theorem extent_opens {text : String} (h : Token.opens registry afterFunction ⟨.bracket, text⟩ = true) :
    extent registry depth afterFunction (⟨.bracket, text⟩ :: tokens) =
      extent registry (depth + 1) false tokens + 1 := by
  simp [extent, h]

/-- A bracket that closes a scope of the stretch belongs to the stretch. -/
theorem extent_closes {text : String}
    (h : Token.opens registry afterFunction ⟨.bracket, text⟩ = false) :
    extent registry (depth + 1) afterFunction (⟨.bracket, text⟩ :: tokens) =
      extent registry depth false tokens + 1 := by
  simp [extent, h]

theorem extent_comma :
    extent registry (depth + 1) afterFunction (Token.comma :: tokens) =
      extent registry (depth + 1) false tokens + 1 := by
  simp [extent, Token.comma]

/-- A separator or a bracket that closes ends a stretch in which nothing is open. -/
theorem extent_zero {token : Token} (h : token = .comma ∨
    token.kind = .bracket ∧ token.opens registry false = false) :
    extent registry 0 false (token :: tokens) = 0 := by
  rcases h with rfl | ⟨hk, ho⟩
  · simp [extent, Token.comma]
  · simp [extent, hk, ho]

theorem joined_cons_cons (segment next : Segment) (rest : List Segment) :
    joined (segment :: next :: rest) = segment.tokens ++ Token.comma :: joined (next :: rest) := by
  simp [joined, List.intercalate_cons_cons]

theorem joined_singleton (segment : Segment) : joined [segment] = segment.tokens := by
  simp [joined]

/-- Arguments inside an open scope belong to the stretch if each of them does. -/
theorem extent_joined {segments : List Segment}
    (h : ∀ segment ∈ segments, ∀ depth rest, extent registry depth false (segment.tokens ++ rest) =
      segment.tokens.length + extent registry depth false rest) (depth : Nat) (rest : List Token) :
    extent registry (depth + 1) false (joined segments ++ rest) =
      (joined segments).length + extent registry (depth + 1) false rest := by
  match segments with
  | [] => simp [joined]
  | [segment] => rw [joined_singleton, h segment (by simp)]
  | segment :: next :: segments =>
    have ih : extent registry (depth + 1) false (joined (next :: segments) ++ rest) = _ :=
      extent_joined (fun s hs => h s (List.mem_cons_of_mem _ hs)) depth rest
    rw [joined_cons_cons, List.append_assoc, h segment (by simp), List.cons_append, extent_comma, ih]
    simp only [List.length_append, List.length_cons]
    omega

end Extent

namespace Phrase

/-- A phrase is balanced: a stretch that begins with it goes on after it as it does without it. -/
theorem extent_append {tokens : List Token} {complete : Bool} (h : Phrase registry tokens complete)
    (depth : Nat) (rest : List Token) :
    extent registry depth false (tokens ++ rest) =
      tokens.length + extent registry depth false rest := by
  induction h generalizing depth rest with
  | nil => simp
  | literal _ ih | var _ ih | prefixOp _ _ ih | binary _ _ ih | postfixOp _ _ _ ih =>
    rw [List.append_assoc, ih, List.singleton_append, extent_plain (by simp), List.length_append,
      List.length_singleton]
    omega
  | @group tokens content opener closer op cl _ ho hk hc hn _ ih ihc =>
    have hopen : Token.opens registry false ⟨.bracket, opener⟩ = true := by
      simp [Token.opens, ho, hk]
    have hclose := Token.opens_of_opener? hc hn
    rw [List.append_assoc, ih, List.cons_append, extent_opens hopen, List.append_assoc, ihc,
      List.singleton_append, extent_closes hclose]
    simp only [List.length_append, List.length_cons, List.length_nil]
    omega
  | @call tokens name arity body segments _ hf hc _ _ _ ih ihs =>
    have hopen : Token.opens registry true ⟨.bracket, "("⟩ = true := rfl
    have hclose := Token.opens_callClose hc
    rw [List.append_assoc, ih, List.cons_append, extent_function, List.cons_append,
      extent_opens hopen, List.append_assoc, extent_joined ihs, List.singleton_append,
      extent_closes hclose]
    simp only [List.length_append, List.length_cons, List.length_nil]
    omega

/-- Two phrases that begin a list of tokens, each before a separator or a closing bracket, are the
same. -/
theorem eq_of_append {xs ys rest rest' : List Token} {complete complete' : Bool} {close close' : Token}
    (hx : Phrase registry xs complete) (hy : Phrase registry ys complete')
    (hc : close = .comma ∨ close.kind = .bracket ∧ close.opens registry false = false)
    (hc' : close' = .comma ∨ close'.kind = .bracket ∧ close'.opens registry false = false)
    (h : xs ++ close :: rest = ys ++ close' :: rest') :
    xs = ys ∧ close = close' ∧ rest = rest' := by
  have hlength : xs.length = ys.length := by
    have he := congrArg (extent registry 0 false) h
    rwa [hx.extent_append, hy.extent_append, extent_zero hc, extent_zero hc'] at he
  obtain ⟨rfl, ht⟩ := List.append_inj h hlength
  obtain ⟨rfl, rfl⟩ := List.cons.inj ht
  exact ⟨rfl, rfl, rfl⟩

end Phrase

/-! ## Arguments -/

/-- The number of arguments that the function of a name takes. -/
def Registry.arity? (registry : Registry) (name : String) : Option Nat :=
  (registry.find? name .function).bind Operation.arity?

/-- What follows the name of a function: phrases in parentheses, with a separator between any two. As
many of them are complete as the function takes arguments. -/
structure HasArguments (registry : Registry) (name : String) (after : List Token)
    (segments : List Segment) : Prop where
  closes : Token.opens registry false ⟨.bracket, ")"⟩ = false
  nonempty : segments ≠ []
  phrases : ∀ segment ∈ segments, Phrase registry segment.tokens segment.complete
  arity? : registry.arity? name = some (segments.countP Segment.complete)
  tokens : ∃ rest, after = ⟨.bracket, "("⟩ :: (joined segments ++ ⟨.bracket, ")"⟩ :: rest)

/-- What follows the name of a function when the call is well formed: as many complete phrases in
parentheses as the function takes arguments, with a separator between any two. None of them is empty,
and each of them ends in a token that completes an operand. -/
def IsWellFormed (registry : Registry) (name : String) (after : List Token) : Prop :=
  ∃ (arguments : List (List Token)) (rest : List Token),
    after = ⟨.bracket, "("⟩ :: ([Token.comma].intercalate arguments ++ ⟨.bracket, ")"⟩ :: rest) ∧
      registry.arity? name = some arguments.length ∧
      ∀ argument ∈ arguments, Phrase registry argument true ∧
        ∃ token, argument.getLast? = some token ∧ token.endsOperand registry = true

section Arguments

variable {name : String} {after : List Token} {segments : List Segment}

/-- A list of tokens has the form of arguments in one way only. -/
theorem eq_of_joined_append (hclose : Token.opens registry false ⟨.bracket, ")"⟩ = false) :
    ∀ {xs ys : List Segment} {rest rest' : List Token}, xs ≠ [] → ys ≠ [] →
      (∀ segment ∈ xs, Phrase registry segment.tokens segment.complete) →
      (∀ segment ∈ ys, Phrase registry segment.tokens segment.complete) →
      joined xs ++ ⟨.bracket, ")"⟩ :: rest = joined ys ++ ⟨.bracket, ")"⟩ :: rest' → xs = ys := by
  have hsegment : ∀ {x y : Segment}, Phrase registry x.tokens x.complete →
      Phrase registry y.tokens y.complete → x.tokens = y.tokens → x = y := by
    rintro ⟨xs, cx⟩ ⟨ys, cy⟩ hx hy (rfl : xs = ys)
    cases cx <;> cases cy
    · rfl
    · exact absurd hx (hy.not_complete rfl)
    · exact absurd hy (hx.not_complete rfl)
    · rfl
  have hend : (⟨.bracket, ")"⟩ : Token) = .comma ∨
      TokenKind.bracket = .bracket ∧ Token.opens registry false ⟨.bracket, ")"⟩ = false :=
    .inr ⟨rfl, hclose⟩
  intro xs
  induction xs with
  | nil => exact fun h => absurd rfl h
  | cons x xs ih =>
    intro ys rest rest' _ hne hxs hys h
    cases ys with
    | nil => exact absurd rfl hne
    | cons y ys =>
      have hx := hxs x List.mem_cons_self
      have hy := hys y List.mem_cons_self
      cases xs with
      | nil =>
        cases ys with
        | nil =>
          rw [joined_singleton, joined_singleton] at h
          rw [hsegment hx hy (hx.eq_of_append hy hend hend h).1]
        | cons y' ys =>
          rw [joined_singleton, joined_cons_cons, List.append_assoc, List.cons_append] at h
          cases (hx.eq_of_append hy hend (.inl rfl) h).2.1
      | cons x' xs =>
        cases ys with
        | nil =>
          rw [joined_singleton, joined_cons_cons, List.append_assoc, List.cons_append] at h
          cases (hx.eq_of_append hy (.inl rfl) hend h).2.1
        | cons y' ys =>
          rw [joined_cons_cons, joined_cons_cons, List.append_assoc, List.append_assoc,
            List.cons_append, List.cons_append] at h
          obtain ⟨hxy, _, h⟩ := hx.eq_of_append hy (.inl rfl) (.inl rfl) h
          rw [hsegment hx hy hxy, ih (by simp) (by simp)
            (fun s hs => hxs s (List.mem_cons_of_mem _ hs))
            (fun s hs => hys s (List.mem_cons_of_mem _ hs)) h]

/-- The arguments of a call are determined by its tokens. -/
theorem HasArguments.eq {segments' : List Segment} (h : HasArguments registry name after segments)
    (h' : HasArguments registry name after segments') : segments = segments' := by
  obtain ⟨hclose, hne, hphrases, _, rest, rfl⟩ := h
  obtain ⟨_, hne', hphrases', _, rest', hafter⟩ := h'
  exact eq_of_joined_append hclose hne hne' hphrases hphrases' (List.cons.inj hafter).2

/-- Complete phrases are arguments as they are. -/
theorem joined_map_complete (arguments : List (List Token)) :
    joined (arguments.map (⟨·, true⟩)) = [Token.comma].intercalate arguments := by
  simp [joined, Function.comp_def]

/-- A call is well formed exactly if none of its arguments is incomplete, or there is nothing at all
between its parentheses. -/
theorem HasArguments.isWellFormed_iff (h : HasArguments registry name after segments) :
    IsWellFormed registry name after ↔
      segments = [⟨[], false⟩] ∨ ∀ segment ∈ segments, segment.complete = true := by
  obtain ⟨hclose, hne, hphrases, harity, rest, rfl⟩ := h
  constructor
  · rintro ⟨arguments, rest', hafter, hlength, harguments⟩
    have hafter := (List.cons.inj hafter).2
    rw [← joined_map_complete] at hafter
    cases arguments with
    | nil =>
      have hempty : ∀ segment ∈ [Segment.mk [] false],
          Phrase registry segment.tokens segment.complete := fun segment hs => by
        rw [List.mem_singleton.1 hs]
        exact .nil
      exact .inl (eq_of_joined_append hclose hne (by simp) hphrases hempty hafter)
    | cons argument arguments =>
      refine .inr fun segment hs => ?_
      rw [eq_of_joined_append hclose hne (by simp) hphrases
        (List.forall_mem_map.2 fun argument ha => (harguments argument ha).1) hafter] at hs
      obtain ⟨argument, _, rfl⟩ := List.mem_map.1 hs
      rfl
  · rintro (rfl | hcomplete)
    · exact ⟨[], rest, rfl, harity, by simp⟩
    · refine ⟨segments.map Segment.tokens, rest, rfl, ?_, fun argument ha => ?_⟩
      · rw [harity, List.countP_eq_length.2 hcomplete, List.length_map]
      · obtain ⟨segment, hs, rfl⟩ := List.mem_map.1 ha
        have hphrase : Phrase registry segment.tokens true :=
          hcomplete segment hs ▸ hphrases segment hs
        exact ⟨hphrase, hphrase.getLast?_of_complete⟩

end Arguments

/-! ## The calls of a phrase -/

/-- Whether arguments follow the name of every function. -/
def CallsHaveArguments (registry : Registry) (tokens : List Token) : Prop :=
  ∀ before name after, tokens = before ++ ⟨.function, name⟩ :: after →
    ∃ segments, HasArguments registry name after segments

namespace CallsHaveArguments

variable {xs ys : List Token}

theorem append (hx : CallsHaveArguments registry xs) (hy : CallsHaveArguments registry ys) :
    CallsHaveArguments registry (xs ++ ys) := by
  intro before name after h
  rcases List.append_eq_append_iff.1 h with ⟨mid, rfl, hmid⟩ | ⟨mid, rfl, hmid⟩
  · exact hy mid name after hmid
  · cases mid with
    | nil => exact hy [] name after (by simpa using hmid.symm)
    | cons token mid =>
      obtain ⟨rfl, rfl⟩ := List.cons.inj hmid
      obtain ⟨segments, hs⟩ := hx before name mid rfl
      obtain ⟨rest, rfl⟩ := hs.tokens
      exact ⟨segments, { hs with tokens := ⟨rest ++ ys, by simp⟩ }⟩

theorem singleton {token : Token} (h : token.kind ≠ .function) :
    CallsHaveArguments registry [token] := by
  intro before name after he
  cases before with
  | nil =>
    rw [(List.cons.inj he).1] at h
    exact absurd rfl h
  | cons => simp at he

theorem joined {segments : List Segment}
    (h : ∀ segment ∈ segments, CallsHaveArguments registry segment.tokens) :
    CallsHaveArguments registry (joined segments) := by
  match segments with
  | [] =>
    intro before name after he
    simp [Abacus.joined] at he
  | [segment] =>
    rw [joined_singleton]
    exact h segment (by simp)
  | segment :: next :: rest =>
    rw [joined_cons_cons, ← List.singleton_append]
    exact (h segment (by simp)).append ((singleton (by simp [Token.comma])).append
      (joined fun s hs => h s (List.mem_cons_of_mem _ hs)))

end CallsHaveArguments

/-- In a phrase, arguments follow the name of every function. -/
theorem Phrase.callsHaveArguments {tokens : List Token} {complete : Bool}
    (h : Phrase registry tokens complete) : CallsHaveArguments registry tokens := by
  induction h with
  | nil =>
    intro before name after he
    simp at he
  | literal _ ih | var _ ih | prefixOp _ _ ih | binary _ _ ih | postfixOp _ _ _ ih =>
    exact ih.append (.singleton (by simp))
  | @group tokens content opener closer _ _ _ _ _ _ _ _ ih ihc =>
    rw [← List.singleton_append (x := (⟨.bracket, opener⟩ : Token))]
    exact ih.append ((CallsHaveArguments.singleton (by simp)).append
      (ihc.append (.singleton (by simp))))
  | @call tokens name arity body segments _ hf hc hne hs ha ih ihs =>
    refine ih.append ?_
    have htail : CallsHaveArguments registry
        (⟨.bracket, "("⟩ :: (joined segments ++ [⟨.bracket, ")"⟩])) := by
      rw [← List.singleton_append (x := (⟨.bracket, "("⟩ : Token))]
      exact (CallsHaveArguments.singleton (by simp)).append
        ((CallsHaveArguments.joined ihs).append (.singleton (by simp)))
    intro before other after he
    cases before with
    | nil =>
      obtain ⟨ht, rfl⟩ := List.cons.inj he
      obtain rfl : name = other := congrArg Token.text ht
      refine ⟨segments, Token.opens_callClose hc, hne, hs, ?_, [], rfl⟩
      rw [Registry.arity?, hf, ha]
      rfl
    | cons token before => exact htail before other after (List.cons.inj he).2

end Abacus
