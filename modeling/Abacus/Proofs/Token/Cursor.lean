import Abacus.Proofs.Token.Concatenation

/-!
# Where reading a text stands

Reading a text goes from place to place: over a blank, or over a token (`Cursor`). At each place there
are tokens that have been read, and a rest of the text. What comes of the whole text is those tokens and
then what comes of the rest (`Cursor.scan_eq`), and an error of the text is one of a token that cannot be
read at some place (`Cursor.exists_of_error`).

A token is found by looking further than it reaches. Yet it is the same when less of the text is there,
as long as all of the token is (`lexeme_of_isPrefix`): shorter prefixes are all that is missing. So the text
before a place, read alone, gives the tokens that have been read up to there (`Cursor.scan_before`).

* `Number.lexeme_eq_of_isPrefix`, `name?_of_isPrefix`: the same numeral, and the same name;
* `Cursor.exists_spread`: what is before a place is made of blanks and of the tokens.
-/

namespace Abacus

open Text

/-- Reading a text from a position comes to a place: what is before it in the text, the tokens that have
been read from that, and the rest. -/
inductive Cursor (registry : Registry) :
    Nat → List Char → List Char → List Token → List Char → Prop where
  | here {position : Nat} {cs : List Char} : Cursor registry position cs [] [] cs
  | blank {position : Nat} {c : Char} {cs before rest : List Char} {tokens : List Token}
    (hb : isBlank c = true) (h : Cursor registry (position + c.utf8Size) cs before tokens rest) :
    Cursor registry position (c :: cs) (c :: before) tokens rest
  | token {position length : Nat} {kind : TokenKind} {c : Char} {cs before rest : List Char}
    {tokens : List Token} (hb : isBlank c = false)
    (hl : lexeme registry position c cs = .ok (kind, length))
    (h : Cursor registry (position + byteLength (c :: cs.take length)) (cs.drop length) before tokens
      rest) :
    Cursor registry position (c :: cs) (c :: cs.take length ++ before)
      (⟨kind, .ofList (c :: cs.take length)⟩ :: tokens) rest

variable {registry : Registry} {position : Nat} {c : Char} {cs before rest us vs : List Char}
  {tokens : List Token}

/-! ## The same token in less of the text -/

theorem numeral?_of_isPrefix {n : Nat} (hc : c.isDigit = true) (hp : us <+: vs) (hn : n ≤ us.length)
    (h : numeral? (c :: vs) = some n) : numeral? (c :: us) = some n := by
  obtain ⟨htext, -⟩ := numeral?_eq_some hc h
  have htake : vs.take n = us.take n := by
    obtain ⟨more, rfl⟩ := hp
    rw [List.take_append_of_le_length hn]
  have hbegins : Number.lexeme (c :: vs) <+: c :: us := by
    rw [← htext, htake]
    exact (List.prefix_cons_inj c).2 (List.take_prefix n us)
  have heq := Number.lexeme_eq_of_isPrefix hc ((List.prefix_cons_inj c).2 hp) hbegins
  simpa only [numeral?, heq] using h

/-- How far a word reaches is the same in a shorter text, as far as that goes. -/
theorem le_length_word_iff_of_isPrefix {n : Nat} (hp : us <+: vs) (hn : n ≤ us.length) :
    n ≤ (word us).length ↔ n ≤ (word vs).length := by
  obtain ⟨more, rfl⟩ := hp
  have hle : n ≤ (us ++ more).length := by
    rw [List.length_append]
    omega
  rw [word, word, ← all_take_iff hn, ← all_take_iff hle, List.take_append_of_le_length hn]

/-- The name at the start of a text is the same in any shorter text that has all of it. -/
theorem name?_of_isPrefix (h : registry.Reachable) {kind : TokenKind} {n : Nat} (hp : us <+: vs)
    (hn : n < us.length) (hname : name? registry vs = some (kind, n)) :
    name? registry us = some (kind, n) := by
  rw [name?_eq_greedyName? h, greedyName?_eq_longestPrefix?, longestPrefix?_eq_some_iff] at hname ⊢
  have htake : ∀ m, m ≤ us.length → us.take m = vs.take m := by
    intro m hm
    obtain ⟨more, rfl⟩ := hp
    rw [List.take_append_of_le_length hm]
  obtain ⟨hlt, hkind, hlonger⟩ := hname
  have hword : (word us).length ≤ us.length := length_word_le
  refine ⟨(le_length_word_iff_of_isPrefix hp hn).2 hlt, by rwa [htake _ hn], fun m hnm hm => ?_⟩
  have hle : m + 1 ≤ us.length := by omega
  rw [htake _ hle]
  exact hlonger m hnm ((le_length_word_iff_of_isPrefix hp hle).1 hm)

/-- The token at the start of a text is the same in any shorter text that has all of it. -/
theorem lexeme_of_isPrefix (h : registry.Reachable) {kind : TokenKind} {length : Nat} (hp : us <+: vs)
    (hn : length ≤ us.length) (hl : lexeme registry position c vs = .ok (kind, length)) :
    lexeme registry position c us = .ok (kind, length) := by
  unfold lexeme at hl ⊢
  split at hl
  · rename_i hc
    rw [if_pos hc, hl]
  · rename_i hc
    rw [if_neg hc]
    split at hl
    · rename_i hdigit
      rw [if_pos hdigit]
      split at hl
      · rename_i n hnumeral
        obtain ⟨rfl, rfl⟩ := Prod.mk.inj (Except.ok.inj hl)
        rw [numeral?_of_isPrefix hdigit hp hn hnumeral]
      · cases hl
    · rename_i hdigit
      rw [if_neg hdigit]
      split at hl
      · rename_i token hname
        obtain rfl := Except.ok.inj hl
        have hlt : length < (c :: us).length := Nat.lt_succ_of_le hn
        rw [name?_of_isPrefix h ((List.prefix_cons_inj c).2 hp) hlt hname]
      · cases hl

/-! ## Places -/

namespace Cursor

/-- What is before a place and the rest make the text. -/
theorem eq_append (h : Cursor registry position cs before tokens rest) : cs = before ++ rest := by
  induction h with
  | here => rfl
  | blank _ _ ih => rw [ih, List.cons_append]
  | @token position length kind c cs before rest tokens _ _ _ ih =>
    rw [List.append_assoc, ← ih, List.cons_append, List.take_append_drop]

/-- Reading goes on from a place as from the start of a text. -/
theorem trans {between last : List Char} {more : List Token}
    (h : Cursor registry position cs before tokens rest)
    (h' : Cursor registry (position + byteLength before) rest between more last) :
    Cursor registry position cs (before ++ between) (tokens ++ more) last := by
  induction h with
  | here => exact h'
  | blank hb _ ih =>
    rw [byteLength_cons, ← Nat.add_assoc] at h'
    exact .blank hb (ih h')
  | token hb hl _ ih =>
    rw [byteLength_append, ← Nat.add_assoc] at h'
    rw [List.append_assoc]
    exact .token hb hl (ih h')

/-- What comes of a text is the tokens that have been read, and then what comes of the rest. -/
theorem scan_eq (h : Cursor registry position cs before tokens rest) :
    scan registry position cs =
      (scan registry (position + byteLength before) rest).map (tokens ++ ·) := by
  induction h with
  | @here position cs =>
    rw [byteLength_nil, Nat.add_zero]
    cases scan registry position cs <;> rfl
  | blank hb _ ih => rw [scan_cons_blank hb, ih, byteLength_cons, Nat.add_assoc]
  | @token position length kind c cs before rest tokens hb hl _ ih =>
    rw [scan_cons hb hl, ih, byteLength_append, ← Nat.add_assoc]
    cases scan registry (position + byteLength (c :: cs.take length) + byteLength before) rest <;> rfl

/-- The text before a place gives the tokens that have been read when it is read alone, although more
of the text was looked at to find them. -/
theorem scan_before (hreach : registry.Reachable)
    (h : Cursor registry position cs before tokens rest) :
    scan registry position before = .ok tokens := by
  induction h with
  | here => exact scan_nil
  | blank hb _ ih => rw [scan_cons_blank hb, ih]
  | @token position length kind c cs before rest tokens hb hl h ih =>
    have hcs : cs.take length ++ before ++ rest = cs := by
      rw [List.append_assoc, ← h.eq_append, List.take_append_drop]
    have hlength : (cs.take length).length = length :=
      List.length_take_of_le (length_le_of_lexeme hl)
    have hshort : lexeme registry position c (cs.take length ++ before) = .ok (kind, length) := by
      refine lexeme_of_isPrefix hreach ⟨rest, hcs⟩ ?_ hl
      rw [List.length_append, hlength]
      exact Nat.le_add_right _ _
    rw [List.cons_append, scan_cons hb hshort, List.take_left' hlength, List.drop_left' hlength, ih]
    rfl

/-- A text that is read comes to its end. -/
theorem of_scan (h : scan registry position cs = .ok tokens) :
    Cursor registry position cs cs tokens [] := by
  induction position, cs using scan.induct registry generalizing tokens with
  | case1 position =>
    rw [scan_nil] at h
    obtain rfl := Except.ok.inj h
    exact .here
  | case2 position c cs hb ih => exact .blank hb (ih (scan_cons_blank hb ▸ h))
  | case3 position c cs hb error hl =>
    rw [scan_cons_of_error (by simpa using hb) hl] at h
    cases h
  | case4 position c cs hb kind length hl text error hs =>
    rw [scan_cons (by simpa using hb) hl, hs] at h
    cases h
  | case5 position c cs hb kind length hl text more hs =>
    rename_i ih
    have hb : isBlank c = false := by simpa using hb
    rw [scan_cons hb hl, hs] at h
    obtain rfl := Except.ok.inj h
    have hcursor := Cursor.token hb hl (ih hs)
    rwa [List.cons_append, List.take_append_drop] at hcursor

/-- The error of a text is that of a token that cannot be read at some place. -/
theorem exists_of_error {error : LexError} (h : scan registry position cs = .error error) :
    ∃ before tokens c rest, Cursor registry position cs before tokens (c :: rest) ∧
      isBlank c = false ∧ lexeme registry (position + byteLength before) c rest = .error error := by
  induction position, cs using scan.induct registry with
  | case1 position =>
    rw [scan_nil] at h
    cases h
  | case2 position c cs hb ih =>
    obtain ⟨before, tokens, d, rest, hcursor, hd, hl⟩ := ih (scan_cons_blank hb ▸ h)
    refine ⟨c :: before, tokens, d, rest, .blank hb hcursor, hd, ?_⟩
    rwa [byteLength_cons, ← Nat.add_assoc]
  | case3 position c cs hb error' hl =>
    have hb : isBlank c = false := by simpa using hb
    rw [scan_cons_of_error hb hl] at h
    obtain rfl := Except.error.inj h
    exact ⟨[], [], c, cs, .here, hb, hl⟩
  | case4 position c cs hb kind length hl text error' hs ih =>
    have hb : isBlank c = false := by simpa using hb
    rw [scan_cons hb hl, hs] at h
    obtain rfl := Except.error.inj h
    obtain ⟨before, tokens, d, rest, hcursor, hd, hlast⟩ := ih hs
    refine ⟨_, _, d, rest, .token hb hl hcursor, hd, ?_⟩
    rwa [byteLength_append, ← Nat.add_assoc]
  | case5 position c cs hb kind length hl text more hs =>
    rw [scan_cons (by simpa using hb) hl, hs] at h
    cases h

end Cursor

/-! ## What is before a place -/

theorem spread_congr {gap gap' : Nat → String} {i : Nat} (h : ∀ j, i ≤ j → gap j = gap' j)
    (tokens : List Token) : spread gap i tokens = spread gap' i tokens := by
  induction tokens generalizing i with
  | nil => exact h i (Nat.le_refl i)
  | cons token tokens ih =>
    rw [spread, spread, h i (Nat.le_refl i), ih fun j hj => h j (Nat.le_of_succ_le hj)]

/-- What is written in front of tokens may be written in the gap before them. -/
theorem spread_update (gap : Nat → String) (i : Nat) (front : String) (tokens : List Token) :
    spread (Function.update gap i (front ++ gap i)) i tokens = front ++ spread gap i tokens := by
  cases tokens with
  | nil => rw [spread, spread, Function.update_self]
  | cons token tokens =>
    have hlater : ∀ j, i + 1 ≤ j → Function.update gap i (front ++ gap i) j = gap j :=
      fun j hj => Function.update_of_ne (by omega) _ _
    rw [spread, spread, Function.update_self, spread_congr hlater]
    simp only [String.append_assoc]

/-- What is before a place is the tokens that have been read, with blanks in the gaps between them. -/
theorem Cursor.exists_spread (h : Cursor registry position cs before tokens rest) (i : Nat) :
    ∃ gap : Nat → String, (∀ j, ∀ c ∈ (gap j).toList, isBlank c = true) ∧
      String.ofList before = spread gap i tokens := by
  induction h generalizing i with
  | here => exact ⟨fun _ => "", by simp, rfl⟩
  | @blank position c cs before rest tokens hb h ih =>
    obtain ⟨gap, hblank, hspread⟩ := ih i
    refine ⟨Function.update gap i (String.ofList [c] ++ gap i), fun j => ?_, ?_⟩
    · by_cases hj : j = i
      · subst hj
        rw [Function.update_self, String.toList_append, String.toList_ofList,
          List.singleton_append]
        exact List.forall_mem_cons.2 ⟨hb, hblank j⟩
      · rw [Function.update_of_ne hj]
        exact hblank j
    · rw [spread_update, ← hspread, ← String.ofList_append, List.singleton_append]
  | @token position length kind c cs before rest tokens hb hl h ih =>
    obtain ⟨gap, hblank, hspread⟩ := ih (i + 1)
    refine ⟨Function.update gap i "", fun j => ?_, ?_⟩
    · by_cases hj : j = i
      · subst hj
        rw [Function.update_self]
        exact nofun
      · rw [Function.update_of_ne hj]
        exact hblank j
    · have hlater : ∀ j, i + 1 ≤ j → Function.update gap i "" j = gap j :=
        fun j hj => Function.update_of_ne (by omega) _ _
      rw [spread, Function.update_self, spread_congr hlater, ← hspread, String.ofList_append,
        String.empty_append]

end Abacus
