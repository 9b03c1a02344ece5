import Mathlib.Data.Finset.Card
import Mathlib.Data.Finset.Dedup
import Abacus.Proofs.Calculator.Transparency

/-!
# Recency

The cache of a calculator holds the texts that were used last (`Calculator.cache_of_answers`). A text is
used when a request to read or to evaluate it finds tokens in it (`usedTexts`); what its evaluation comes
to does not matter, and batches use no text. The history of the texts used, read backwards and without
repetition, is their recency, and the cache keeps a beginning of it.

A text whose tokens are asked for again gets the very tokens of its last use if it is still kept, that is,
if fewer other texts were used in between than the cache has room for.

* `recency_concat`: a text that is used moves to the front;
* `take_filter_take`: what the cache has dropped would not have come back;
* `Calculator.Remembers.answer`, `Calculator.Remembers.answers`: what one request and any number of them
  preserve;
* `Calculator.find?_answers`: requests for other texts may drop the tokens of a text, but do not change
  them.
-/

namespace Abacus

/-! ## The order of use -/

/-- Whether a text can be cut into tokens. -/
def isReadable (registry : Registry) (text : String) : Bool :=
  (tokenize registry text).isOk

/-- The text that a request asks to read or to evaluate. The texts of a batch are not looked up in the
cache. -/
def Request.text? : Request → Option String
  | .tokenize text | .evaluate text => some text
  | .evaluateBatch _ | .change _ => none

/-- The texts that requests use, in the order of the requests: those that are asked for and can be
read. -/
def usedTexts (registry : Registry) (requests : List Request) : List String :=
  (requests.filterMap Request.text?).filter (isReadable registry)

/-- The texts of a history without repetition, the last used first. -/
def recency (history : List String) : List String :=
  history.reverse.eraseDups

section Lists

variable {α : Type} [DecidableEq α]

/-- Leaving out elements and leaving out repetitions commute. -/
theorem eraseDups_filter (p : α → Bool) :
    ∀ xs : List α, (xs.filter p).eraseDups = xs.eraseDups.filter p
  | [] => rfl
  | x :: xs => by
    have ih := eraseDups_filter p (xs.filter fun y => !y == x)
    rw [List.filter_filter] at ih
    rw [List.eraseDups_cons]
    cases hp : p x with
    | true =>
      rw [List.filter_cons_of_pos hp, List.filter_cons_of_pos hp, List.eraseDups_cons, ← ih,
        List.filter_filter]
      simp only [Bool.and_comm]
    | false =>
      rw [List.filter_cons_of_neg (by simp [hp]), List.filter_cons_of_neg (by simp [hp]), ← ih]
      congr 1
      refine List.filter_congr fun y _ => ?_
      by_cases hy : y = x <;> simp [hy, hp]
termination_by xs => xs.length
decreasing_by exact Nat.lt_succ_of_le (List.length_filter_le _ _)

/-- Of the first elements at most one is left out, so those beyond the next one do not matter. -/
theorem take_filter_take {xs : List α} (h : xs.Nodup) (x : α) (n : Nat) :
    ((xs.take (n + 1)).filter fun y => y ≠ x).take n = (xs.filter fun y => y ≠ x).take n := by
  induction xs generalizing n with
  | nil => rfl
  | cons y ys ih =>
    obtain ⟨hy, hys⟩ := List.nodup_cons.1 h
    cases n with
    | zero => rfl
    | succ n =>
      rw [List.take_succ_cons]
      by_cases hyx : y = x
      · subst hyx
        -- The element is left out here, so no other one is.
        have hkept : ∀ zs : List α, zs ⊆ ys → (zs.filter fun z => z ≠ y) = zs := fun zs hzs =>
          List.filter_eq_self.2 fun z hz => decide_eq_true fun he => hy (he ▸ hzs hz)
        rw [List.filter_cons_of_neg (by simp), List.filter_cons_of_neg (by simp),
          hkept _ (List.take_subset _ _), hkept _ (List.Subset.refl _), List.take_take, Nat.min_self]
      · rw [List.filter_cons_of_pos (by simpa using hyx), List.filter_cons_of_pos (by simpa using hyx),
          List.take_succ_cons, List.take_succ_cons, ih hys]

end Lists

variable {registry : Registry} {history : List String} {text : String}

/-- A text that is used moves to the front. -/
theorem recency_concat (history : List String) (text : String) :
    recency (history ++ [text]) = text :: (recency history).filter fun other => other ≠ text := by
  rw [recency, List.reverse_concat, List.eraseDups_cons, eraseDups_filter, ← recency]
  congr 1
  exact List.filter_congr fun other _ => by by_cases h : other = text <;> simp [h]

theorem mem_recency : text ∈ recency history ↔ text ∈ history := by
  rw [recency, List.mem_eraseDups, List.mem_reverse]

theorem nodup_recency (history : List String) : (recency history).Nodup := by
  induction history using List.reverseRecOn with
  | nil => exact List.nodup_nil
  | append_singleton history text ih =>
    rw [recency_concat]
    exact List.nodup_cons.2 ⟨by simp, ih.filter _⟩

/-- As many texts are in the recency of a history as there are different ones in it. -/
theorem length_recency (history : List String) : (recency history).length = history.toFinset.card := by
  rw [← List.toFinset_card_of_nodup (nodup_recency history)]
  congr 1
  ext text
  simp [mem_recency]

/-- Before a text come those that were used since. -/
theorem recency_append_cons {later : List String} (h : text ∉ later) (history : List String) :
    ∃ before, recency (history ++ text :: later) = recency later ++ text :: before := by
  have hkeep : (text :: history.reverse).removeAll later.reverse =
      text :: history.reverse.removeAll later.reverse := by
    simp [List.removeAll, h]
  rw [recency, List.reverse_append, List.reverse_cons, List.append_assoc, List.singleton_append,
    List.eraseDups_append, hkeep, List.eraseDups_cons]
  exact ⟨_, rfl⟩

/-- A text is among the last used ones if fewer others were used since. -/
theorem mem_take_recency_iff {later : List String} (h : text ∉ later) (history : List String)
    (n : Nat) : text ∈ (recency (history ++ text :: later)).take n ↔ later.toFinset.card < n := by
  obtain ⟨before, hb⟩ := recency_append_cons h history
  have hnodup := nodup_recency (history ++ text :: later)
  rw [← length_recency later, hb]
  constructor
  · intro hm
    by_contra hn
    rw [List.take_append_of_le_length (Nat.le_of_not_lt hn)] at hm
    exact h (mem_recency.1 (List.mem_of_mem_take hm))
  · intro hn
    obtain ⟨k, rfl⟩ := Nat.exists_eq_add_of_lt hn
    rw [Nat.add_assoc, List.take_length_add_append, List.take_succ_cons]
    exact List.mem_append_right _ List.mem_cons_self

/-! ## What requests do to the cache -/

namespace TokenCache

variable {cache : TokenCache} {other : String} {stream kept : TokenStream}

theorem mem_texts_iff : text ∈ cache.texts ↔ (cache.find? text).isSome = true := by
  simp [texts, find?, List.find?_isSome]

/-- Using another text may drop the tokens of a text, but does not change them. -/
theorem find?_of_use (hne : other ≠ text) (h : (cache.use other stream).find? text = some kept) :
    cache.find? text = some kept := by
  obtain ⟨entry, he, rfl⟩ := Option.map_eq_some_iff.1 h
  have he := (List.take_prefix _ _).find?_eq_some he
  rw [List.find?_cons_of_neg (by simpa using hne), List.find?_filter] at he
  rw [find?, Option.map_eq_some_iff]
  refine ⟨entry, ?_, rfl⟩
  rw [← he]
  refine congrArg (List.find? · cache.entries) (funext fun entry => ?_)
  by_cases hentry : entry.1 = text <;> simp [hentry, Ne.symm hne]

end TokenCache

namespace Calculator

variable {calculator : Calculator} {store : Store} {stream : TokenStream}

/-- The texts that the cache of the calculator holds are the first ones of the recency of the history, as
many as it has room for. Whatever it holds was numbered before any tokens that are still to be read. -/
structure Remembers (history : List String) (calculator : Calculator) : Prop where
  texts : calculator.cache.texts = (recency history).take calculator.cache.capacity
  serials : ∀ entry ∈ calculator.cache.entries, entry.2.serial < calculator.readings

theorem cache_evaluate : (calculator.evaluate text).2.cache = (calculator.tokenize text).2.cache := by
  unfold evaluate
  split <;> rename_i heq <;> rw [heq]

theorem readings_evaluate :
    (calculator.evaluate text).2.readings = (calculator.tokenize text).2.readings := by
  unfold evaluate
  split <;> rename_i heq <;> rw [heq]

/-- Whether a text can be read does not depend on what the cache holds. -/
theorem Tracks.isOk_tokenize (h : Tracks registry store calculator) (text : String) :
    (calculator.tokenize text).1.isOk = isReadable registry text := by
  have hresult := (h.tokenize text).1
  rw [isReadable, ← hresult]
  cases (calculator.tokenize text).1 <;> rfl

/-- Reading a text uses it with the tokens that come back, or changes nothing if there are none. -/
theorem Remembers.tokenize_eq (h : Remembers history calculator) (text : String) :
    (∃ error, calculator.tokenize text = (.error error, calculator)) ∨
      ∃ stream readings, calculator.readings ≤ readings ∧ stream.serial < readings ∧
        calculator.tokenize text =
          (.ok stream, { calculator with cache := calculator.cache.use text stream, readings }) := by
  cases hf : calculator.cache.find? text with
  | some stream =>
    have hserial := h.serials _ (TokenCache.mem_entries_of_find? hf)
    exact .inr ⟨stream, calculator.readings, Nat.le_refl _, hserial, tokenize_of_find?_eq_some hf⟩
  | none =>
    cases ht : Abacus.tokenize calculator.registry text with
    | error error => exact .inl ⟨error, tokenize_of_error hf ht⟩
    | ok tokens =>
      exact .inr ⟨_, calculator.readings + 1, Nat.le_succ _, Nat.lt_succ_self _, tokenize_of_ok hf ht⟩

namespace Remembers

theorem ofParts (registry : Registry) (store : Store) (capacity : Nat) :
    Remembers [] (.ofParts registry store capacity) :=
  ⟨List.take_nil.symm, nofun⟩

/-- Whatever else changes about a calculator, it remembers the same texts. -/
theorem congr {other : Calculator} (h : Remembers history calculator)
    (hc : other.cache = calculator.cache) (hr : other.readings = calculator.readings) :
    Remembers history other :=
  ⟨hc ▸ h.texts, hc ▸ hr ▸ h.serials⟩

/-- A text that is used is remembered as the last one. -/
theorem use {readings : Nat} (h : Remembers history calculator)
    (hr : calculator.readings ≤ readings) (hs : stream.serial < readings) :
    Remembers (history ++ [text])
      { calculator with cache := calculator.cache.use text stream, readings } where
  texts := by
    show (calculator.cache.use text stream).texts = (recency (history ++ [text])).take _
    rw [TokenCache.texts_use, h.texts, recency_concat, TokenCache.capacity_use]
    cases calculator.cache.capacity with
    | zero => rfl
    | succ n => rw [List.take_succ_cons, List.take_succ_cons, take_filter_take (nodup_recency history)]
  serials entry he := by
    rcases TokenCache.mem_entries_use he with rfl | he
    · exact hs
    · exact Nat.lt_of_lt_of_le (h.serials entry he) hr

theorem tokenize (h : Remembers history calculator) (ht : Tracks registry store calculator)
    (text : String) :
    Remembers (history ++ [text].filter (isReadable registry)) (calculator.tokenize text).2 := by
  have hok := ht.isOk_tokenize text
  rcases h.tokenize_eq text with ⟨error, he⟩ | ⟨stream, readings, hr, hs, he⟩
  · rw [he] at hok ⊢
    rwa [List.filter_cons_of_neg (by simp [← hok, Except.isOk, Except.toBool]), List.filter_nil,
      List.append_nil]
  · rw [he] at hok ⊢
    rw [List.filter_cons_of_pos (by rw [← hok]; rfl), List.filter_nil]
    exact h.use hr hs

/-- A request adds the text that it uses to what is remembered. -/
theorem answer (h : Remembers history calculator) (ht : Tracks registry store calculator)
    (request : Request) :
    Remembers (history ++ usedTexts registry [request]) (calculator.answer request).2 := by
  cases request with
  | tokenize text => exact h.tokenize ht text
  | evaluate text => exact (h.tokenize ht text).congr cache_evaluate readings_evaluate
  | evaluateBatch | change => exact (List.append_nil history).symm ▸ h.congr rfl rfl

theorem answers (h : Remembers history calculator) (ht : Tracks registry store calculator)
    (requests : List Request) :
    Remembers (history ++ usedTexts registry requests) (calculator.answers requests).2 := by
  induction requests generalizing history store calculator with
  | nil => exact (List.append_nil history).symm ▸ h
  | cons request requests ih =>
    have hsplit : usedTexts registry (request :: requests) =
        usedTexts registry [request] ++ usedTexts registry requests := by
      rw [usedTexts, ← List.singleton_append, List.filterMap_append, List.filter_append]
      rfl
    rw [hsplit, ← List.append_assoc]
    exact ih (h.answer ht request) (ht.answer request).2

end Remembers

/-! ## Tokens that are asked for again -/

theorem capacity_tokenize :
    (calculator.tokenize text).2.cache.capacity = calculator.cache.capacity := by
  unfold tokenize
  split
  · rfl
  · split <;> rfl

theorem capacity_answers (calculator : Calculator) (requests : List Request) :
    (calculator.answers requests).2.cache.capacity = calculator.cache.capacity := by
  induction requests generalizing calculator with
  | nil => rfl
  | cons request requests ih =>
    refine (ih (calculator.answer request).2).trans ?_
    cases request with
    | tokenize text => exact capacity_tokenize
    | evaluate text => exact (congrArg TokenCache.capacity cache_evaluate).trans capacity_tokenize
    | evaluateBatch | change => rfl

/-- What requests for other texts do to the tokens that are kept for a text: they may be dropped, but
are not changed, and what is read meanwhile has later numbers. -/
structure Spares (text : String) (before after : Calculator) : Prop where
  readings : before.readings ≤ after.readings
  find? : ∀ stream, after.cache.find? text = some stream → before.cache.find? text = some stream

namespace Spares

variable {before middle after : Calculator}

theorem refl : Spares text before before :=
  ⟨Nat.le_refl _, fun _ h => h⟩

theorem trans (h : Spares text before middle) (h' : Spares text middle after) :
    Spares text before after :=
  ⟨Nat.le_trans h.readings h'.readings, fun stream hf => h.find? stream (h'.find? stream hf)⟩

theorem of_tokenize {other : String} (h : Remembers history before) (hne : other ≠ text) :
    Spares text before (before.tokenize other).2 := by
  rcases h.tokenize_eq other with ⟨error, he⟩ | ⟨stream, readings, hr, _, he⟩
  · exact he ▸ refl
  · rw [he]
    exact ⟨hr, fun kept => TokenCache.find?_of_use hne⟩

theorem of_answer {request : Request} (h : Remembers history before)
    (hne : request.text? ≠ some text) : Spares text before (before.answer request).2 := by
  cases request with
  | tokenize other => exact of_tokenize h fun he => hne (congrArg some he)
  | evaluate other =>
    have hspares : Spares text before (before.tokenize other).2 :=
      of_tokenize h fun he => hne (congrArg some he)
    exact ⟨readings_evaluate ▸ hspares.readings, cache_evaluate ▸ hspares.find?⟩
  | evaluateBatch | change => exact ⟨Nat.le_refl _, fun _ hf => hf⟩

theorem of_answers {requests : List Request} (h : Remembers history before)
    (ht : Tracks registry store before) (hne : ∀ request ∈ requests, request.text? ≠ some text) :
    Spares text before (before.answers requests).2 := by
  induction requests generalizing history store before with
  | nil => exact refl
  | cons request requests ih =>
    obtain ⟨hrequest, hrequests⟩ := List.forall_mem_cons.1 hne
    exact (of_answer h hrequest).trans (ih (h.answer ht request) (ht.answer request).2 hrequests)

end Spares

/-- Both ways of asking for a text do the same to the cache. -/
theorem answer_of_text? {request : Request} (hr : request.text? = some text) :
    (calculator.answer request).2.cache = (calculator.tokenize text).2.cache ∧
      (calculator.answer request).2.readings = (calculator.tokenize text).2.readings := by
  cases request with
  | tokenize other =>
    obtain rfl : other = text := Option.some.inj hr
    exact ⟨rfl, rfl⟩
  | evaluate other =>
    obtain rfl : other = text := Option.some.inj hr
    exact ⟨cache_evaluate, readings_evaluate⟩
  | evaluateBatch | change => cases hr

theorem notMem_usedTexts {requests : List Request}
    (h : ∀ request ∈ requests, request.text? ≠ some text) : text ∉ usedTexts registry requests := by
  intro hm
  obtain ⟨request, hmem, hr⟩ := List.mem_filterMap.1 (List.mem_filter.1 hm).1
  exact h request hmem hr

/-- A request that can read its text leaves the tokens in front. -/
theorem use_of_text? {request : Request} (h : Remembers history calculator)
    (hr : request.text? = some text) (hs : (calculator.tokenize text).1 = .ok stream) :
    (calculator.answer request).2.cache = calculator.cache.use text stream ∧
      stream.serial < (calculator.answer request).2.readings := by
  rw [(answer_of_text? hr).1, (answer_of_text? hr).2]
  rcases h.tokenize_eq text with ⟨error, he⟩ | ⟨other, readings, -, hserial, he⟩
  · rw [he] at hs
    cases hs
  · rw [he] at hs ⊢
    obtain rfl := Except.ok.inj hs
    exact ⟨rfl, hserial⟩

/-- The tokens of a text are asked for, and then other texts are. At the end the tokens are still kept
exactly if the cache has room for them besides the other texts; new tokens would have a later number. -/
theorem find?_answers {request : Request} {between : List Request}
    (h : Remembers history calculator) (ht : Tracks registry store calculator)
    (hr : request.text? = some text) (hs : (calculator.tokenize text).1 = .ok stream)
    (hne : ∀ other ∈ between, other.text? ≠ some text) :
    stream.serial < (calculator.answers (request :: between)).2.readings ∧
      (calculator.answers (request :: between)).2.cache.find? text =
        if (usedTexts registry between).toFinset.card < calculator.cache.capacity then some stream
        else none := by
  have hreadable : isReadable registry text = true := by
    rw [← ht.isOk_tokenize text, hs]
    rfl
  have hused : usedTexts registry (request :: between) = text :: usedTexts registry between := by
    rw [usedTexts, List.filterMap_cons_some hr, List.filter_cons_of_pos hreadable]
    rfl
  obtain ⟨hfront, hserial⟩ := use_of_text? h hr hs
  have hspares : Spares text (calculator.answer request).2
      (calculator.answers (request :: between)).2 :=
    .of_answers (h.answer ht request) (ht.answer request).2 hne
  refine ⟨Nat.lt_of_lt_of_le hserial hspares.readings, ?_⟩
  have hlater := h.answers ht (request :: between)
  have hkept : ((calculator.answers (request :: between)).2.cache.find? text).isSome = true ↔
      (usedTexts registry between).toFinset.card < calculator.cache.capacity := by
    rw [← TokenCache.mem_texts_iff, hlater.texts, capacity_answers, hused]
    exact mem_take_recency_iff (notMem_usedTexts hne) history _
  split
  · rename_i hroom
    obtain ⟨kept, hk⟩ := Option.isSome_iff_exists.1 (hkept.2 hroom)
    have hbefore := hspares.find? kept hk
    rw [hfront, TokenCache.find?_use_self (Nat.zero_lt_of_lt hroom)] at hbefore
    rw [hk, hbefore]
  · rename_i hroom
    exact Option.not_isSome_iff_eq_none.1 (mt hkept.1 hroom)

/-- So a text has the same tokens when it is asked for again, and the very tokens of the last request if
they are still kept. -/
theorem exists_tokenize_answers {request : Request} {between : List Request}
    (h : Remembers history calculator) (ht : Tracks registry store calculator)
    (hr : request.text? = some text) (hs : (calculator.tokenize text).1 = .ok stream)
    (hne : ∀ other ∈ between, other.text? ≠ some text) :
    ∃ again, ((calculator.answers (request :: between)).2.tokenize text).1 = .ok again ∧
      again.tokens = stream.tokens ∧
      (again = stream ↔ (usedTexts registry between).toFinset.card < calculator.cache.capacity) := by
  obtain ⟨hserial, hfind⟩ := find?_answers h ht hr hs hne
  split at hfind
  · rename_i hroom
    rw [tokenize_of_find?_eq_some hfind]
    exact ⟨stream, rfl, rfl, iff_of_true rfl hroom⟩
  · rename_i hroom
    have htokens := (ht.tokenize text).1
    rw [hs] at htokens
    have hlater := (ht.answers (request :: between)).2
    have hread : Abacus.tokenize (calculator.answers (request :: between)).2.registry text =
        .ok stream.tokens := by
      rw [hlater.registry_eq, ← htokens]
      rfl
    rw [tokenize_of_ok hfind hread]
    refine ⟨_, rfl, rfl, iff_of_false (fun he => ?_) hroom⟩
    rw [← he] at hserial
    exact Nat.lt_irrefl _ hserial

end Calculator

/-- The cache of a calculator that has answered any requests holds the texts used last, in the order of
use, as many as it has room for. A text is used when a request to read or to evaluate it can read it,
which does not depend on the cache, and one that cannot be read leaves the cache as it is. When the tokens
of a text are asked for again they are those of the last request for the text, and not read anew, exactly
if fewer different texts were used since than there is room for. -/
theorem Calculator.cache_of_answers (registry : Registry) (store : Store) (capacity : Nat)
    (requests : List Request) :
    let calculator := ((Calculator.ofParts registry store capacity).answers requests).2
    calculator.cache.texts = (usedTexts registry requests).reverse.eraseDups.take capacity ∧
    calculator.cached = min capacity (usedTexts registry requests).toFinset.card ∧
    (∀ text, (calculator.tokenize text).1.isOk = isReadable registry text) ∧
    (∀ request text, request.text? = some text → isReadable registry text = false →
      (calculator.answer request).2.cache = calculator.cache) ∧
    ∀ request text stream between, request.text? = some text →
      (calculator.tokenize text).1 = .ok stream →
      (∀ other ∈ between, other.text? ≠ some text) →
      ∃ again, ((calculator.answers (request :: between)).2.tokenize text).1 = .ok again ∧
        again.tokens = stream.tokens ∧
        (again = stream ↔ (usedTexts registry between).toFinset.card < capacity) := by
  intro calculator
  have ht : calculator.Tracks registry _ :=
    ((Tracks.ofParts registry store capacity).answers requests).2
  have h : calculator.Remembers (usedTexts registry requests) :=
    (Remembers.ofParts registry store capacity).answers (Tracks.ofParts registry store capacity) requests
  have hcapacity : calculator.cache.capacity = capacity := capacity_answers _ requests
  have htexts := h.texts
  rw [hcapacity] at htexts
  refine ⟨htexts, ?_, ht.isOk_tokenize, fun request text hr hunreadable => ?_,
    fun request text stream between hr hs hne => ?_⟩
  · rw [← length_recency, ← List.length_take, ← htexts, TokenCache.texts, List.length_map]
    rfl
  · rw [(answer_of_text? hr).1]
    rw [← ht.isOk_tokenize] at hunreadable
    rcases h.tokenize_eq text with ⟨error, he⟩ | ⟨stream, readings, _, _, he⟩
    · rw [he]
    · rw [he] at hunreadable
      cases hunreadable
  · rw [← hcapacity]
    exact exists_tokenize_answers h ht hr hs hne

/-- With room for two texts: `1 +` has no value, but it is used, while `é` is not. Using `3` leaves room for
the tokens of `1`, which are asked for again. -/
theorem Calculator.cache_of_answers_sample :
    let calculator := ((Calculator.ofParts Library.registry ∅ 2).answers
      [.evaluate "2", .tokenize "1", .evaluate "1 +", .evaluate "é", .evaluateBatch ["3"]]).2
    calculator.cache.texts = ["1 +", "1"] ∧
      ∃ stream, (calculator.tokenize "1").1 = .ok stream ∧
        ((calculator.answers [.evaluate "1", .tokenize "3"]).2.tokenize "1").1 = .ok stream := by
  intro calculator
  obtain ⟨hused, hbetween, hreadable⟩ :
      usedTexts Library.registry
          [.evaluate "2", .tokenize "1", .evaluate "1 +", .evaluate "é", .evaluateBatch ["3"]] =
        ["2", "1", "1 +"] ∧
      usedTexts Library.registry [.tokenize "3"] = ["3"] ∧ isReadable Library.registry "1" = true := by
    decide +kernel
  obtain ⟨htexts, -, hok, -, hagain⟩ := Calculator.cache_of_answers Library.registry ∅ 2
    [.evaluate "2", .tokenize "1", .evaluate "1 +", .evaluate "é", .evaluateBatch ["3"]]
  rw [hused] at htexts
  refine ⟨htexts.trans (by decide), ?_⟩
  obtain ⟨stream, hs⟩ : ∃ stream, (calculator.tokenize "1").1 = .ok stream := by
    have h := (hok "1").trans hreadable
    cases hs : (calculator.tokenize "1").1 with
    | ok stream => exact ⟨stream, rfl⟩
    | error error =>
      rw [hs] at h
      cases h
  obtain ⟨again, ha, -, hsame⟩ := hagain (.evaluate "1") "1" stream [.tokenize "3"] rfl hs
    (List.forall_mem_singleton.2 (by decide))
  obtain rfl := hsame.2 (by rw [hbetween]; decide)
  exact ⟨again, hs, ha⟩

end Abacus
