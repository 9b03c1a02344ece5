import Mathlib.Control.Monad.Basic
import Abacus.Evaluation.Outcome
import Abacus.Proofs.Library.Registered
import Abacus.Proofs.Token.Greedy

/-!
# Names that do not occur

A text is read and evaluated by the names that occur in it, and by no others. Two registries that know
the same of these names (`Registry.AgreeOn`) read the same tokens from the text, and come to the same value
or error and the same store (`tokenize_congr_registry`, `evaluate_congr_registry`). So an operation
that is added to a registry is of no account to a text without its name (`evaluate_of_register`).

The limit on the length of names differs between the two registries. It decides which prefixes of a
word are looked up and whether a run of letters is taken for a variable at sight, but not what is found
(`name?_eq_greedyName?`).

* `isInfix_of_scan`: the tokens of a text are pieces of it, so an evaluation looks up names of the text.
-/

namespace Abacus

/-- Whether two registries know the same of each name that occurs in a text. -/
def Registry.AgreeOn (r s : Registry) (cs : List Char) : Prop :=
  ∀ name : String, name.toList <:+: cs → ∀ kind, r.find? name kind = s.find? name kind

variable {registry r s : Registry} {cs ds : List Char} {store : Store}

theorem Registry.AgreeOn.mono (h : r.AgreeOn s cs) (hi : ds <:+: cs) : r.AgreeOn s ds :=
  fun name hn => h name (hn.trans hi)

theorem Registry.bracket?_congr {name : String} (h : ∀ kind, r.find? name kind = s.find? name kind) :
    r.bracket? name = s.bracket? name := by
  rw [bracket?, bracket?, h, h]

/-! ## Reading -/

theorem classify?_congr (h : r.AgreeOn s cs) : classify? r cs = classify? s cs := by
  have hf : ∀ kind, r.find? (String.ofList cs) kind = s.find? (String.ofList cs) kind :=
    h (String.ofList cs) (by simp)
  have hfunction : r.isFunction (String.ofList cs) = s.isFunction (String.ofList cs) := by
    rw [Registry.isFunction, Registry.isFunction, hf]
  have hoperator : r.isOperator (String.ofList cs) = s.isOperator (String.ofList cs) := by
    simp only [Registry.isOperator, hf]
  have hbracket : r.isBracket (String.ofList cs) = s.isBracket (String.ofList cs) := by
    rw [Registry.isBracket, Registry.isBracket, Registry.bracket?_congr hf]
  rw [classify?, classify?, hfunction, hoperator, hbracket]

theorem longestPrefix?_congr {classify classify' : List Char → Option TokenKind} {length : Nat}
    (h : ∀ n, classify (cs.take n) = classify' (cs.take n)) :
    longestPrefix? classify cs length = longestPrefix? classify' cs length := by
  induction length with
  | zero => rfl
  | succ length ih => rw [longestPrefix?, longestPrefix?, h, ih]

theorem name?_congr (hr : r.Reachable) (hs : s.Reachable) (h : r.AgreeOn s cs) :
    name? r cs = name? s cs := by
  rw [name?_eq_greedyName? hr, name?_eq_greedyName? hs, greedyName?_eq_longestPrefix?,
    greedyName?_eq_longestPrefix?]
  exact longestPrefix?_congr fun n => classify?_congr (h.mono (List.take_prefix n cs).isInfix)

theorem lexeme_congr (hr : r.Reachable) (hs : s.Reachable) {c : Char} (h : r.AgreeOn s (c :: cs))
    (position : Nat) : lexeme r position c cs = lexeme s position c cs := by
  simp only [lexeme, name?_congr hr hs h]

theorem scan_congr (hr : r.Reachable) (hs : s.Reachable) (position : Nat) (h : r.AgreeOn s cs) :
    scan r position cs = scan s position cs := by
  induction position, cs using scan.induct r with
  | case1 position => rw [scan_nil, scan_nil]
  | case2 position c cs hb ih =>
    rw [scan_cons_blank hb, scan_cons_blank hb, ih (h.mono (List.suffix_cons c cs).isInfix)]
  | case3 position c cs hb error hl =>
    rw [scan_cons_of_error (by simpa using hb) hl,
      scan_cons_of_error (by simpa using hb) (lexeme_congr hr hs h position ▸ hl)]
  | case4 position c cs hb kind length hl text error _ ih
  | case5 position c cs hb kind length hl text tokens _ ih =>
    have hrest : cs.drop length <:+: c :: cs :=
      ((List.drop_suffix length cs).trans (List.suffix_cons c cs)).isInfix
    rw [scan_cons (by simpa using hb) hl,
      scan_cons (by simpa using hb) (lexeme_congr hr hs h position ▸ hl), ih (h.mono hrest)]

/-- Registries that agree on the names in a text read the same tokens from it, or find the same error. -/
theorem tokenize_congr_registry (hr : r.Reachable) (hs : s.Reachable) {text : String}
    (h : r.AgreeOn s text.toList) : tokenize r text = tokenize s text :=
  scan_congr hr hs 0 h

/-- The tokens of a text are pieces of it. -/
theorem isInfix_of_scan (position : Nat) (cs : List Char) {tokens : List Token}
    (h : scan registry position cs = .ok tokens) : ∀ token ∈ tokens, token.text.toList <:+: cs := by
  induction position, cs using scan.induct registry generalizing tokens with
  | case1 position =>
    rw [scan_nil] at h
    simp [← Except.ok.inj h]
  | case2 position c cs hb ih =>
    intro token hm
    exact (ih (scan_cons_blank hb ▸ h) token hm).trans (List.suffix_cons c cs).isInfix
  | case3 position c cs hb error hl =>
    rw [scan_cons_of_error (by simpa using hb) hl] at h
    cases h
  | case4 position c cs hb kind length hl text error hs =>
    rw [scan_cons (by simpa using hb) hl, hs] at h
    cases h
  | case5 position c cs hb kind length hl text rest hs =>
    rename_i ih
    rw [scan_cons (by simpa using hb) hl, hs] at h
    obtain rfl := Except.ok.inj h
    refine List.forall_mem_cons.2 ⟨?_, fun token hm => ?_⟩
    · rw [String.toList_ofList, ← List.take_succ_cons]
      exact (List.take_prefix _ _).isInfix
    · exact (ih hs token hm).trans
        ((List.drop_suffix length cs).trans (List.suffix_cons c cs)).isInfix

/-! ## Evaluating -/

/-- A token is looked up by its text only. -/
theorem Run.step_congr_registry {token : Token}
    (h : ∀ kind, r.find? token.text kind = s.find? token.text kind) (run : Run) (index : Nat)
    (next : Option Token) : run.step r store index token next = run.step s store index token next := by
  have hb : r.bracket? token.text = s.bracket? token.text := Registry.bracket?_congr h
  have ht : token.startsOperand r = token.startsOperand s := by simp only [Token.startsOperand, hb]
  simp only [step, readFunction, readBracket, readOperator, readInfixOrPostfix, ht, hb, h]

theorem runTokens_congr_registry {tokens : List Token}
    (h : ∀ token ∈ tokens, ∀ kind, r.find? token.text kind = s.find? token.text kind) (run : Run)
    (index : Nat) : runTokens r store run index tokens = runTokens s store run index tokens := by
  induction tokens generalizing run index with
  | nil => rfl
  | cons token tokens ih =>
    obtain ⟨htoken, hrest⟩ := List.forall_mem_cons.1 h
    rw [runTokens_cons, runTokens_cons, Run.step_congr_registry htoken]
    exact bind_congr fun run => ih hrest run (index + 1)

theorem evaluateTokens_congr_registry {tokens : List Token}
    (h : ∀ token ∈ tokens, ∀ kind, r.find? token.text kind = s.find? token.text kind) :
    evaluateTokens r store tokens = evaluateTokens s store tokens := by
  rw [evaluateTokens, evaluateTokens, runAll, runAll, runTokens_congr_registry h]

/-- Registries that agree on the names in a text evaluate it to the same value or error, and leave the
same store. -/
theorem evaluate_congr_registry (hr : r.Reachable) (hs : s.Reachable) {text : String}
    (h : r.AgreeOn s text.toList) (store : Store) : evaluate r store text = evaluate s store text := by
  have ht : tokenize r text = tokenize s text := tokenize_congr_registry hr hs h
  cases hr : tokenize r text with
  | error error => rw [evaluate_of_lex_error hr, evaluate_of_lex_error (ht ▸ hr)]
  | ok tokens =>
    rw [evaluate_of_tokenize hr, evaluate_of_tokenize (ht ▸ hr)]
    exact evaluateTokens_congr_registry fun token hm => h token.text (isInfix_of_scan 0 _ hr token hm)

/-! ## One more operation -/

/-- Registering an operation changes what is known of one name. -/
theorem Registry.agreeOn_of_register {extended : Registry} {op : Operation}
    (hr : registry.register op = .ok extended) (hn : ¬op.name.toList <:+: cs) :
    extended.AgreeOn registry cs := by
  intro name hi kind
  rw [find?_of_register hr, if_neg]
  rintro ⟨rfl, -⟩
  exact hn hi

/-- An operation that a registry accepts, of any kind, with a name of any length and whatever the name
means already, is of no account to a text in which the name does not occur. The text is read as
before, with the same tokens or the same error, and from every store it is evaluated as before, to the
same value or error and the same store. -/
theorem evaluate_of_register {extended : Registry} {op : Operation} (h : registry.Reachable)
    (hr : registry.register op = .ok extended) {text : String} (hn : ¬op.name.toList <:+: text.toList) :
    tokenize extended text = tokenize registry text ∧
      ∀ store, evaluate extended store text = evaluate registry store text :=
  have hagree : extended.AgreeOn registry text.toList := Registry.agreeOn_of_register hr hn
  ⟨tokenize_congr_registry (h.register hr) h hagree, evaluate_congr_registry (h.register hr) h hagree⟩

/-- The variable `hypotenus` is longer than all bundled names, and shorter than a function that is
added. -/
theorem evaluate_of_register_sample :
    let op : Operation := .ofFormula "hypotenuse" fun a b : Float => (a * a + b * b).sqrt
    let extended := Library.registry.insert op
    Library.registry.register op = .ok extended ∧
      Library.registry.longestName < "hypotenus".utf8ByteSize ∧
      "hypotenus".utf8ByteSize < extended.longestName ∧
      tokenize extended "hypotenus=1" =
        .ok [⟨.var, "hypotenus"⟩, ⟨.operator, "="⟩, ⟨.literal, "1"⟩] ∧
      ∀ store, evaluate extended store "hypotenus=1" = evaluate Library.registry store "hypotenus=1" := by
  intro op extended
  -- Each of these facts looks into the registry, so they are decided together.
  obtain ⟨hvalid, hfree, hlonger, hlongest, hplain⟩ :
      Name.isValid op.kind.nameClass op.name = true ∧ Library.registry.collides op = false ∧
        Library.registry.longestName < "hypotenus".utf8ByteSize ∧
        "hypotenus".utf8ByteSize < extended.longestName ∧
        tokenize Library.registry "hypotenus=1" =
          .ok [⟨.var, "hypotenus"⟩, ⟨.operator, "="⟩, ⟨.literal, "1"⟩] := by
    decide +kernel
  have hr : Library.registry.register op = .ok extended :=
    Registry.register_eq_ok_iff.2 ⟨hvalid, hfree, rfl⟩
  have hn : ¬op.name.toList <:+: "hypotenus=1".toList := by decide +kernel
  obtain ⟨htokens, hvalue⟩ := evaluate_of_register Library.reachable_registry hr hn
  exact ⟨hr, hlonger, hlongest, htokens.trans hplain, hvalue⟩

end Abacus
