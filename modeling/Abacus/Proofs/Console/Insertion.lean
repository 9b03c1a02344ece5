import Mathlib.Control.Monad.Basic
import Abacus.Console
import Abacus.Proofs.Calculator.Transparency

/-!
# Lines that leave no trace

A line is put into the input of a conversation: a blank one, or an expression that has no value where it
stands. It shows on the screen as a prompt of its own and, if it is not blank, as its message. Nothing
else on the screen changes (`converse_insert`), although the cache may have forgotten other texts because
of it. What follows the line `exit` does not show at all.

Two calculators are alike if only the texts that their caches hold can tell them apart
(`Calculator.Alike`). Alike calculators say the same in any conversation (`transcript_congr`), and a
calculator that found no value is like the one that was asked (`Calculator.Alike.evaluate_of_error`).

* `lines_append`: a text can be cut after any of its lines;
* `transcript_append_of_talk?`, `transcript_append_of_ends`: a conversation can be cut there as well,
  unless it has ended;
* `transcript_insert_blank`, `transcript_insert_failing`: a line between two others.
-/

namespace Abacus

/-- A text without a value leaves the store as it was. -/
theorem store_evaluate_of_error {registry : Registry} {store : Store} {text : String}
    {error : EvalError} (h : (evaluate registry store text).result = .error error) :
    (evaluate registry store text).store = store := by
  cases ht : tokenize registry text with
  | error lexError => rw [evaluate_of_lex_error ht]
  | ok tokens =>
    rw [evaluate_of_tokenize ht] at h ⊢
    exact store_of_error h

/-! ## Alike calculators -/

namespace Calculator

/-- The calculators have one registry and one store, and what their caches hold for a text are the tokens
of the text. The caches need not hold the same texts. -/
def Alike (first second : Calculator) : Prop :=
  ∃ registry store, first.Tracks registry store ∧ second.Tracks registry store

namespace Alike

variable {first second : Calculator}

theorem ofParts (registry : Registry) (store : Store) (capacity : Nat) :
    (Calculator.ofParts registry store capacity).Alike (.ofParts registry store capacity) :=
  ⟨registry, store, .ofParts registry store capacity, .ofParts registry store capacity⟩

theorem store_eq (h : first.Alike second) : first.store = second.store := by
  obtain ⟨registry, store, hfirst, hsecond⟩ := h
  exact hfirst.store_eq.trans hsecond.store_eq.symm

/-- Alike calculators find the same value or the same error, and stay alike. -/
theorem evaluate (h : first.Alike second) (text : String) :
    (first.evaluate text).1 = (second.evaluate text).1 ∧
      (first.evaluate text).2.Alike (second.evaluate text).2 := by
  obtain ⟨registry, store, hfirst, hsecond⟩ := h
  obtain ⟨hvalue, hfirst⟩ := hfirst.evaluate text
  obtain ⟨hvalue', hsecond⟩ := hsecond.evaluate text
  exact ⟨hvalue.trans hvalue'.symm, _, _, hfirst, hsecond⟩

/-- A calculator that found no value is like the one that was asked. -/
theorem evaluate_of_error (h : first.Alike second) {text : String} {error : EvalError}
    (he : (first.evaluate text).1 = .error error) : (first.evaluate text).2.Alike second := by
  obtain ⟨registry, store, hfirst, hsecond⟩ := h
  obtain ⟨hvalue, hafter⟩ := hfirst.evaluate text
  rw [store_evaluate_of_error (hvalue.symm.trans he)] at hafter
  exact ⟨registry, store, hafter, hsecond⟩

end Alike

end Calculator

namespace Console

variable {calculator first second : Calculator} {line : List Char}

/-! ## Lines of a text -/

/-- The text is empty, or its last line is closed. -/
def IsClosed (text : List Char) : Prop :=
  ∀ c ∈ text.getLast?, c = '\n'

instance (text : List Char) : Decidable (IsClosed text) :=
  Option.decidableForallMem text.getLast?

theorem lines_ne_nil (c : Char) (cs : List Char) : lines (c :: cs) ≠ [] := by
  unfold lines
  split
  · exact List.cons_ne_nil _ _
  · split <;> exact List.cons_ne_nil _ _

/-- A text can be cut after a line. -/
theorem lines_append {head : List Char} (h : IsClosed head) (tail : List Char) :
    lines (head ++ tail) = lines head ++ lines tail := by
  induction head with
  | nil => rfl
  | cons c cs ih =>
    cases cs with
    | nil =>
      obtain rfl : c = '\n' := h c rfl
      rfl
    | cons d cs =>
      have hcut : lines (d :: (cs ++ tail)) = lines (d :: cs) ++ lines tail := ih h
      obtain ⟨next, rest, hlines⟩ := List.exists_cons_of_ne_nil (lines_ne_nil d cs)
      simp only [List.cons_append, lines.eq_2 c, hcut, hlines]
      split <;> rfl

/-! ## Answers -/

/-- The line ends the conversation. -/
def Ends (line : List Char) : Prop :=
  String.ofList (Text.trim line) = "exit"

instance (line : List Char) : Decidable (Ends line) :=
  inferInstanceAs (Decidable (_ = _))

/-- The line is an expression, and the calculator finds this error in place of its value. -/
structure Fails (calculator : Calculator) (line : List Char) (error : EvalError) : Prop where
  /-- The line is not blank and is no command. -/
  notMem : String.ofList (Text.trim line) ∉ ["", "exit", ":vars"]
  result : (calculator.evaluate (String.ofList (Text.trim line))).1 = .error error

theorem respond?_eq_none_iff : respond? calculator line = none ↔ Ends line := by
  unfold respond? Ends
  generalize String.ofList (Text.trim line) = text
  by_cases hexit : text = "exit"
  · simp [hexit]
  · refine iff_of_false ?_ hexit
    simp only [if_neg hexit]
    split
    · exact Option.some_ne_none _
    · split
      · exact Option.some_ne_none _
      · split <;> exact Option.some_ne_none _

theorem Fails.respond?_eq {error : EvalError} (h : Fails calculator line error) :
    respond? calculator line = some (error.message ++ "\n",
      (calculator.evaluate (String.ofList (Text.trim line))).2) := by
  obtain ⟨hblank, hexit, hvars⟩ : String.ofList (Text.trim line) ≠ "" ∧
      String.ofList (Text.trim line) ≠ "exit" ∧ String.ofList (Text.trim line) ≠ ":vars" := by
    simpa using h.notMem
  have hresult := h.result
  unfold respond?
  rw [if_neg hblank, if_neg hexit, if_neg hvars]
  generalize calculator.evaluate (String.ofList (Text.trim line)) = outcome at hresult ⊢
  obtain ⟨result, next⟩ := outcome
  obtain rfl : result = .error error := hresult
  rfl

/-- Alike calculators answer a line alike. -/
theorem respond?_congr (h : first.Alike second) (line : List Char) :
    (respond? first line = none ∧ respond? second line = none) ∨
      ∃ answer first' second', respond? first line = some (answer, first') ∧
        respond? second line = some (answer, second') ∧ first'.Alike second' := by
  unfold respond?
  generalize String.ofList (Text.trim line) = text
  dsimp only
  split
  · exact .inr ⟨_, _, _, rfl, rfl, h⟩
  · split
    · exact .inl ⟨rfl, rfl⟩
    · split
      · exact .inr ⟨_, _, _, rfl, by rw [h.store_eq], h⟩
      · obtain ⟨hresult, hafter⟩ := h.evaluate text
        rcases hfirst : first.evaluate text with ⟨result, first'⟩
        rcases hsecond : second.evaluate text with ⟨result', second'⟩
        rw [hfirst, hsecond] at hresult hafter
        obtain rfl : result = result' := hresult
        cases result with
        | ok value => exact .inr ⟨_, _, _, rfl, rfl, hafter⟩
        | error error => exact .inr ⟨_, _, _, rfl, rfl, hafter⟩

/-! ## Conversations -/

/-- What appears on the screen while the lines are answered, and the calculator afterwards, or `none` if
a line ends the conversation. -/
def talk? (calculator : Calculator) : List (List Char) → Option (String × Calculator)
  | [] => some ("", calculator)
  | line :: rest =>
    match respond? calculator line with
    | none => none
    | some (answer, next) =>
      (talk? next rest).map fun (screen, last) => (prompt ++ answer ++ screen, last)

variable {ls rest : List (List Char)} {screen answer : String} {next last : Calculator}

theorem transcript_cons_of_some (h : respond? calculator line = some (answer, next)) :
    transcript calculator (line :: rest) = prompt ++ answer ++ transcript next rest := by
  rw [transcript_cons, h]

theorem transcript_cons_of_none (h : respond? calculator line = none) :
    transcript calculator (line :: rest) = prompt := by
  rw [transcript_cons, h]

theorem talk?_cons_of_some (h : respond? calculator line = some (answer, next)) :
    talk? calculator (line :: rest) =
      (talk? next rest).map fun (screen, last) => (prompt ++ answer ++ screen, last) := by
  rw [talk?, h]

/-- Alike calculators say the same, whatever their caches hold. -/
theorem transcript_congr (h : first.Alike second) (ls : List (List Char)) :
    transcript first ls = transcript second ls := by
  induction ls generalizing first second with
  | nil => rfl
  | cons line rest ih =>
    rcases respond?_congr h line with ⟨hf, hs⟩ | ⟨answer, first', second', hf, hs, halike⟩
    · rw [transcript_cons_of_none hf, transcript_cons_of_none hs]
    · rw [transcript_cons_of_some hf, transcript_cons_of_some hs, ih halike]

/-- All lines are answered if none of them ends the conversation. -/
theorem exists_talk?_eq_some (h : calculator.Alike calculator) (hends : ∀ line ∈ ls, ¬Ends line) :
    ∃ screen last, talk? calculator ls = some (screen, last) ∧ last.Alike last := by
  induction ls generalizing calculator with
  | nil => exact ⟨_, _, rfl, h⟩
  | cons line rest ih =>
    obtain ⟨hends, hrest⟩ := List.forall_mem_cons.1 hends
    rcases respond?_congr h line with ⟨hn, -⟩ | ⟨answer, next, next', hs, hs', halike⟩
    · exact absurd (respond?_eq_none_iff.1 hn) hends
    · obtain ⟨-, rfl⟩ : answer = answer ∧ next = next' := by simpa using hs.symm.trans hs'
      obtain ⟨screen, last, htalk, hlast⟩ := ih halike hrest
      exact ⟨_, last, by rw [talk?_cons_of_some hs, htalk]; rfl, hlast⟩

/-- A conversation is cut in two between two lines. -/
theorem transcript_append_of_talk? (h : talk? calculator ls = some (screen, last))
    (rest : List (List Char)) :
    transcript calculator (ls ++ rest) = screen ++ transcript last rest := by
  induction ls generalizing calculator screen with
  | nil =>
    obtain ⟨rfl, rfl⟩ : "" = screen ∧ calculator = last := by simpa [talk?] using h
    simp
  | cons line ls ih =>
    cases hr : respond? calculator line with
    | none => simp [talk?, hr] at h
    | some pair =>
      obtain ⟨answer, next⟩ := pair
      rw [talk?_cons_of_some hr] at h
      obtain ⟨⟨screen', last'⟩, htalk, heq⟩ := Option.map_eq_some_iff.1 h
      obtain ⟨rfl, rfl⟩ : prompt ++ answer ++ screen' = screen ∧ last' = last := by simpa using heq
      rw [List.cons_append, transcript_cons_of_some hr, ih htalk, String.append_assoc,
        String.append_assoc, String.append_assoc]

/-- Nothing that follows the end of a conversation appears. -/
theorem transcript_append_of_ends (h : ∃ line ∈ ls, Ends line) (rest : List (List Char)) :
    transcript calculator (ls ++ rest) = transcript calculator ls := by
  induction ls generalizing calculator with
  | nil => simp at h
  | cons line ls ih =>
    cases hr : respond? calculator line with
    | none => rw [List.cons_append, transcript_cons_of_none hr, transcript_cons_of_none hr]
    | some pair =>
      obtain ⟨answer, next⟩ := pair
      have hline : ¬Ends line := fun he => by simp [respond?_eq_none_iff.2 he] at hr
      have hls : ∃ line ∈ ls, Ends line := by simpa [hline] using h
      rw [List.cons_append, transcript_cons_of_some hr, transcript_cons_of_some hr, ih hls]

/-! ## A line between two others -/

theorem transcript_insert_blank (h : talk? calculator ls = some (screen, last))
    (hblank : Text.trim line = []) (rest : List (List Char)) :
    transcript calculator (ls ++ line :: rest) = screen ++ prompt ++ transcript last rest := by
  rw [transcript_append_of_talk? h, transcript_cons_of_some (respond_blank hblank),
    String.append_empty, String.append_assoc]

theorem transcript_insert_failing (h : talk? calculator ls = some (screen, last))
    (halike : last.Alike last) {error : EvalError} (hfails : Fails last line error)
    (rest : List (List Char)) :
    transcript calculator (ls ++ line :: rest) =
      screen ++ (prompt ++ error.message ++ "\n") ++ transcript last rest := by
  rw [transcript_append_of_talk? h, transcript_cons_of_some hfails.respond?_eq,
    transcript_congr (halike.evaluate_of_error hfails.result)]
  simp only [String.append_assoc]

/-- The console starts with the bundled operations and no variables. -/
theorem bundled_eq :
    Calculator.bundled cacheCapacity = .ok (.ofParts Library.registry ∅ cacheCapacity) := by
  unfold Calculator.bundled
  rw [Registry.bundled_eq_ok]

theorem converse_eq (input : String) :
    converse input =
      ⟨0, transcript (.ofParts Library.registry ∅ cacheCapacity) (lines input.toList)⟩ := by
  unfold converse
  rw [bundled_eq]

/-- The text is cut after some line, and no line before the cut ends the conversation. A line that is put
in there, closed unless it is the last one, adds its prompt to the screen where the answers to the lines
before it end, and its message if it is an expression without a value at this place. It adds nothing
else, and all else stays as it was. What follows a line that ends the conversation does not appear. The
exit code is zero each time. -/
theorem converse_insert :
    (∀ (head inserted tail : String) (line : List Char), IsClosed head.toList →
      (∀ line ∈ lines head.toList, ¬Ends line) → lines inserted.toList = [line] →
      IsClosed inserted.toList ∨ tail = "" →
      ∃ start calculator screen, Calculator.bundled cacheCapacity = .ok start ∧
        talk? start (lines head.toList) = some (screen, calculator) ∧
        let rest := transcript calculator (lines tail.toList)
        converse (head ++ tail) = ⟨0, screen ++ rest⟩ ∧
        (Text.trim line = [] →
          converse (head ++ inserted ++ tail) = ⟨0, screen ++ prompt ++ rest⟩) ∧
        ∀ error, Fails calculator line error →
          converse (head ++ inserted ++ tail) =
            ⟨0, screen ++ (prompt ++ error.message ++ "\n") ++ rest⟩) ∧
    ∀ head : String, IsClosed head.toList → (∃ line ∈ lines head.toList, Ends line) →
      ∃ screen, ∀ tail, converse (head ++ tail) = ⟨0, screen⟩ := by
  let start := Calculator.ofParts Library.registry ∅ cacheCapacity
  refine ⟨fun head inserted tail line hhead hends hline hclosed => ?_, fun head hhead hends =>
    ⟨transcript start (lines head.toList), fun tail => ?_⟩⟩
  · obtain ⟨screen, calculator, htalk, halike⟩ :=
      exists_talk?_eq_some (.ofParts Library.registry ∅ cacheCapacity) hends
    have hcut : lines (head ++ tail).toList = lines head.toList ++ lines tail.toList := by
      rw [String.toList_append, lines_append hhead]
    have hinserted : lines (inserted.toList ++ tail.toList) = line :: lines tail.toList := by
      rcases hclosed with hclosed | rfl
      · rw [lines_append hclosed, hline]; rfl
      · simpa [lines] using hline
    have hcut' : lines (head ++ inserted ++ tail).toList =
        lines head.toList ++ line :: lines tail.toList := by
      rw [String.toList_append, String.toList_append, List.append_assoc, lines_append hhead,
        hinserted]
    refine ⟨_, calculator, screen, bundled_eq, htalk, ?_, fun hblank => ?_, fun error hfails => ?_⟩
    · rw [converse_eq, hcut, transcript_append_of_talk? htalk]
    · rw [converse_eq, hcut', transcript_insert_blank htalk hblank]
    · rw [converse_eq, hcut', transcript_insert_failing htalk halike hfails]
  · rw [converse_eq, String.toList_append, lines_append hhead, transcript_append_of_ends hends]

/-- The variable `x` keeps its value when the line `(x = 2) + y` fails after it has changed it. -/
theorem converse_insert_sample :
    ∃ screen rest, converse ("x = 1\n" ++ ":vars\n") = ⟨0, screen ++ rest⟩ ∧
      converse ("x = 1\n" ++ " \n" ++ ":vars\n") = ⟨0, screen ++ prompt ++ rest⟩ ∧
      converse ("x = 1\n" ++ "(x = 2) + y\n" ++ ":vars\n") =
        ⟨0, screen ++ (prompt ++ (EvalError.uninitializedVariable "y").message ++ "\n") ++ rest⟩ ∧
      ∃ screen, ∀ tail, converse ("x = 1\n exit\n" ++ tail) = ⟨0, screen⟩ := by
  obtain ⟨hinsert, hends⟩ := converse_insert
  have hfound : ∀ state ∈ talk? (.ofParts Library.registry ∅ cacheCapacity) (lines "x = 1\n".toList),
      (state.2.evaluate "(x = 2) + y").1 = .error (.uninitializedVariable "y") := by
    decide +kernel
  obtain ⟨start, calculator, screen, hstart, htalk, hplain, hblank, -⟩ :=
    hinsert "x = 1\n" " \n" ":vars\n" [' '] (by decide) (by decide) rfl (.inl (by decide))
  obtain ⟨start', calculator', screen', hstart', htalk', -, -, hfails⟩ :=
    hinsert "x = 1\n" "(x = 2) + y\n" ":vars\n" "(x = 2) + y".toList (by decide) (by decide)
      (by decide) (.inl (by decide))
  obtain rfl : Calculator.ofParts Library.registry ∅ cacheCapacity = start :=
    Except.ok.inj (bundled_eq.symm.trans hstart)
  obtain rfl : Calculator.ofParts Library.registry ∅ cacheCapacity = start' :=
    Except.ok.inj (bundled_eq.symm.trans hstart')
  obtain ⟨rfl, rfl⟩ := Prod.mk.inj (Option.some.inj (htalk.symm.trans htalk'))
  exact ⟨screen, _, hplain, hblank (by decide), hfails _ ⟨by decide, hfound _ htalk⟩,
    hends "x = 1\n exit\n" (by decide) (by decide)⟩

end Console

end Abacus
