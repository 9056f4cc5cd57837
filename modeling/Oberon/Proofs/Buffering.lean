import Oberon.Proofs.Covering

/-!
# Oberon.Proofs.Buffering

Looking ahead changes nothing about what is read. However calls of a `Lookahead` are mixed, the
tokens that `next` delivers are those of a plain scan, one after the other; a token that was looked
at is the one that will be delivered; and every lexical fault in the part of the source that has been
scanned was the answer to one call.
-/

namespace Oberon

open List Lookahead Token

variable {s : Lookahead}

namespace Lexeme

def token? : Lexeme → Option Token
  | token t => some t
  | fault _ _ => none

def fault? : Lexeme → Option (LexicalFault × Span)
  | token _ => none
  | fault f span => some (f, span)

end Lexeme

namespace Scan

/-- The tokens among lexemes. -/
def tokensOf (ls : List Lexeme) : List Token := ls.filterMap Lexeme.token?

/-- The faults among lexemes. -/
def faultsOf (ls : List Lexeme) : List (LexicalFault × Span) := ls.filterMap Lexeme.fault?

@[simp] lemma tokensOf_nil : tokensOf [] = [] := rfl

@[simp] lemma tokensOf_token (t ls) :
    tokensOf (.token t :: ls) = t :: tokensOf ls := rfl

@[simp] lemma tokensOf_fault (f span ls) :
    tokensOf (.fault f span :: ls) = tokensOf ls := rfl

@[simp] lemma tokensOf_append (ls ls') :
    tokensOf (ls ++ ls') = tokensOf ls ++ tokensOf ls' := filterMap_append

@[simp] lemma faultsOf_nil : faultsOf [] = [] := rfl

@[simp] lemma faultsOf_token (t ls) :
    faultsOf (.token t :: ls) = faultsOf ls := rfl

@[simp] lemma faultsOf_fault (f span ls) :
    faultsOf (.fault f span :: ls) = (f, span) :: faultsOf ls := rfl

@[simp] lemma faultsOf_append (ls ls') :
    faultsOf (ls ++ ls') = faultsOf ls ++ faultsOf ls' := filterMap_append

end Scan

open Scan

/-- The token at a place of a plain scan; behind the last one there is the end of the source. -/
def plainToken (source : String) (i : Nat) : Token :=
  (tokensOf (scan source)).getD i (endOf source.utf8ByteSize)

namespace Lookahead

/-! ## Calls -/

/-- What can be asked of a `Lookahead`. -/
inductive Request where
  | next
  | peek
  | peekAt (offset : Nat)
  | check (test : Lexis → Bool)

def Request.isNext : Request → Bool
  | next => true
  | _ => false

inductive Reply where
  | token (t : Token)
  | verdict (passes : Bool)

/-- Make one call. -/
def ask (s : Lookahead) : Request → Answer Reply × Lookahead
  | .next => (s.next.1.map .token, s.next.2)
  | .peek => (s.peek.1.map .token, s.peek.2)
  | .peekAt offset => ((s.peekAt offset).1.map .token, (s.peekAt offset).2)
  | .check test => ((s.check test).1.map .verdict, (s.check test).2)

/-- The answer at the end of a source of some length. -/
def endReply (length : Nat) : Request → Reply
  | .check test => .verdict (test .eof)
  | _ => .token (endOf length)

/-- What is not asked for by `next` is answered by looking at a token. -/
lemma ask_eq_peekAt (s : Lookahead) {request : Request} (h : request.isNext = false) : ∃ offset f,
    s.ask request = ((s.peekAt offset).1.map f, (s.peekAt offset).2) ∧
    ∀ length, f (endOf length) = endReply length request := by
  cases request with
  | next => cases h
  | peek => exact ⟨0, .token, rfl, fun _ => rfl⟩
  | peekAt offset => exact ⟨offset, .token, rfl, fun _ => rfl⟩
  | check test =>
    refine ⟨0, fun t => .verdict (test t.lexis), ?_, fun _ => rfl⟩
    unfold ask check peek
    obtain ⟨_ | _, s'⟩ := s.peekAt 0 <;> rfl

/-- Make calls one after the other. -/
def run (s : Lookahead) : List Request → List (Request × Answer Reply) × Lookahead
  | [] => ([], s)
  | request :: rest =>
    let r := (s.ask request).2.run rest
    ((request, (s.ask request).1) :: r.1, r.2)

/-- The tokens delivered by `next`. -/
def delivered (calls : List (Request × Answer Reply)) : List Token := calls.filterMap fun
    | (.next, .ok (.token t)) => some t
    | _ => none

/-- The faults that calls were answered with. -/
def reported (calls : List (Request × Answer Reply)) : List (LexicalFault × Span) :=
  calls.filterMap fun
    | (_, .error e) => some e
    | (_, .ok _) => none

/-! ## What is in the buffer -/

lemma buffer_scanNext (h : s.scanNext = (r, s')) : s'.buffer = s.buffer := by
  unfold scanNext at h
  split at h <;> cases h <;> rfl

/-- Filling takes nothing out of the buffer. -/
lemma buffer_prefix_fill (count) (s : Lookahead) : s.buffer <+: (fill count s).2.buffer := by
  induction count generalizing s with
  | zero => exact prefix_refl _
  | succ count ih =>
    unfold fill
    split
    · rename_i t s1 hs
      have hbuffer := buffer_scanNext hs
      refine .trans ?_ (ih _)
      rw [← hbuffer]
      exact prefix_append _ _
    · rename_i e s1 hs
      have hbuffer := buffer_scanNext hs
      exact hbuffer ▸ prefix_refl _

lemma length_buffer_fill (count s) (h : (fill count s).1 = .ok ()) :
    (fill count s).2.buffer.length = s.buffer.length + count := by
  induction count generalizing s with
  | zero => rfl
  | succ count ih =>
    unfold fill at h ⊢
    split at h
    · rename_i t s1 hs
      have hbuffer := buffer_scanNext hs
      rw [ih _ h, ← hbuffer, length_append, length_singleton]
      omega
    · cases h

lemma buffer_prefix_peekAt (s : Lookahead) (offset) :
    s.buffer <+: (s.peekAt offset).2.buffer := by
  have h := s.buffer_prefix_fill (offset + 1 - s.buffer.length)
  unfold peekAt
  split <;> simpa only [*] using h

/-- A token that was looked at is in the buffer. -/
lemma buffer_peekAt (h : (s.peekAt offset).1 = .ok t) : (s.peekAt offset).2.buffer[offset]? =
    some t := by
  have hfill := s.length_buffer_fill (offset + 1 - s.buffer.length)
  unfold peekAt at h ⊢
  split at h
  · rename_i s1 hs
    have hlength : s1.buffer.length = s.buffer.length + (offset + 1 - s.buffer.length) := by
      rw [hs] at hfill
      exact hfill rfl
    have hlt : offset < s1.buffer.length := by omega
    cases h
    rw [getD_eq_getElem?_getD, getElem?_eq_getElem hlt, Option.getD_some]
  · cases h

/-- What is not asked for by `next` only adds to the buffer. -/
lemma buffer_prefix_ask (s : Lookahead) {request : Request} (h : request.isNext = false) :
    s.buffer <+: (s.ask request).2.buffer := by
  obtain ⟨offset, f, hask, _⟩ := s.ask_eq_peekAt h
  rw [hask]
  exact s.buffer_prefix_peekAt offset

/-- A token in the buffer moves up by one place with every `next`, whatever else is asked. -/
lemma buffer_run (requests : List Request) : ∀ {s : Lookahead} {i : Nat},
    s.buffer[i + requests.countP Request.isNext]? = some t → (s.run requests).2.buffer[i]? =
    some t := by
  induction requests with
  | nil => intro s i h; exact h
  | cons request rest ih =>
    intro s i h
    refine ih (s := (s.ask request).2) ?_
    cases hn : request.isNext with
    | false =>
      rw [countP_cons_of_neg (by simp [hn])] at h
      obtain ⟨added, hadded⟩ := s.buffer_prefix_ask hn
      rw [← hadded, List.getElem?_append_left (List.getElem?_eq_some_iff.1 h).1]
      exact h
    | true =>
      rw [List.countP_cons_of_pos hn, ← Nat.add_assoc] at h
      cases request with
      | next =>
        obtain ⟨buffer, left, length⟩ := s
        cases buffer with
        | nil => cases h
        | cons _ _ => exact h
      | _ => cases hn

/-- A token in front of the buffer is delivered next. -/
lemma next_of_buffer (h : s.buffer[0]? = some t) : s.next.1 = .ok t := by
  obtain ⟨buffer, rest, length⟩ := s
  cases buffer with
  | nil => cases h
  | cons u _ => cases h; rfl

/-! ## What has been delivered and reported -/

/-- A state in which the tokens `taken` have been delivered and `faults` have been reported. Tokens
that were scanned and not delivered wait in the buffer, and behind the last one there may be any
number of ends. -/
structure Tracks (source : String) (s : Lookahead) (taken : List Token)
    (faults : List (LexicalFault × Span)) : Prop where
  length : s.length = source.utf8ByteSize
  split : ∃ scanned ends, scan source = scanned ++ s.rest ∧ faults = faultsOf scanned ∧
    taken ++ s.buffer = tokensOf scanned ++ replicate ends (endOf s.length) ∧
    (s.rest ≠ [] → ends = 0)

variable {taken : List Token}
 

lemma tracks_ofSource (source) : (ofSource source).Tracks source [] [] :=
  ⟨rfl, [], 0, rfl, rfl, rfl, fun _ => rfl⟩

/-- The tokens delivered with an answer. -/
def tokens : Answer Token → List Token
  | .ok t => [t]
  | .error _ => []

/-- The faults reported with an answer. -/
def errors {α : Type} : Answer α → List (LexicalFault × Span)
  | .ok _ => []
  | .error e => [e]

/-- What is scanned goes behind what is in the buffer. -/
lemma Tracks.scanNext (h : s.Tracks source taken faults) :
    Tracks source { s.scanNext.2 with buffer := s.buffer ++ tokens s.scanNext.1 } taken
      (faults ++ errors s.scanNext.1) := by
  obtain ⟨hlength, scanned, ends, hscan, hfaults, htokens, hends⟩ := h
  obtain ⟨buffer, rest, length⟩ := s
  cases rest with
  | nil =>
    refine ⟨hlength, scanned, ends + 1, hscan, ?_, ?_, fun h => absurd rfl h⟩
    · simpa [scanNext, errors] using hfaults
    · rw [replicate_succ', ← append_assoc, ← append_assoc]
      exact congrArg (· ++ _) htokens
  | cons l rest =>
    have hnone : ends = 0 := hends (cons_ne_nil _ _)
    subst hnone
    rw [replicate_zero, append_nil] at htokens
    cases l with
    | token t =>
      refine ⟨hlength, scanned ++ [.token t], 0, ?_, ?_, ?_, fun _ => rfl⟩
      · simpa [scanNext] using hscan
      · simpa [scanNext, errors] using hfaults
      · simpa [scanNext, tokens] using congrArg (· ++ [t]) htokens
    | fault f span =>
      refine ⟨hlength, scanned ++ [.fault f span], 0, ?_, ?_, ?_, fun _ => rfl⟩
      · simpa [scanNext] using hscan
      · simpa [scanNext, errors] using congrArg (· ++ [(f, span)]) hfaults
      · simpa [scanNext, tokens] using htokens

lemma Tracks.fill (count) (s : Lookahead) (h : s.Tracks source taken faults) :
    (fill count s).2.Tracks source taken (faults ++ errors (fill count s).1) := by
  induction count generalizing s with
  | zero => simpa [Lookahead.fill, errors] using h
  | succ count ih =>
    have hnext := h.scanNext
    unfold Lookahead.fill
    split
    · rename_i t s1 hs
      have hbuffer := buffer_scanNext hs
      rw [hs, ← hbuffer] at hnext
      refine ih { s1 with buffer := s1.buffer ++ [t] } ?_
      simpa [tokens, errors] using hnext
    · rename_i e s1 hs
      have hbuffer := buffer_scanNext hs
      rw [hs, ← hbuffer, tokens, append_nil] at hnext
      exact hnext

section

variable (h : s.Tracks source taken faults)
include h

lemma Tracks.peekAt (offset) :
    (s.peekAt offset).2.Tracks source taken (faults ++ errors (s.peekAt offset).1) := by
  have hfill := h.fill (offset + 1 - s.buffer.length)
  unfold Lookahead.peekAt
  split
  all_goals
    rename_i hs
    rw [hs] at hfill
    exact hfill

lemma Tracks.next :
    s.next.2.Tracks source (taken ++ tokens s.next.1) (faults ++ errors s.next.1) := by
  obtain ⟨buffer, rest, length⟩ := s
  cases buffer with
  | cons t buffer =>
    obtain ⟨hlength, scanned, ends, hscan, hfaults, htokens, hends⟩ := h
    refine ⟨hlength, scanned, ends, hscan, ?_, ?_, hends⟩
    · simpa [next, errors] using hfaults
    · simpa [next, tokens] using htokens
  | nil =>
    have hempty : (Lookahead.scanNext ⟨[], rest, length⟩).2.buffer = [] := buffer_scanNext rfl
    obtain ⟨hlength, scanned, ends, hscan, hfaults, htokens, hends⟩ := h.scanNext
    refine ⟨hlength, scanned, ends, hscan, hfaults, ?_, hends⟩
    rw [Lookahead.next, hempty, append_nil]
    exact htokens

lemma Tracks.ask (request) :
    (s.ask request).2.Tracks source (taken ++ delivered [(request,
     (s.ask request).1)]) (faults ++ reported [(request, (s.ask request).1)]) := by
  cases hn : request.isNext with
  | false =>
    obtain ⟨offset, f, hask, _⟩ := s.ask_eq_peekAt hn
    have hp := h.peekAt offset
    rw [hask]
    generalize s.peekAt offset = r at hp ⊢
    cases request with
    | next => cases hn
    | _ => obtain ⟨_ | _, s'⟩ := r <;> simpa [delivered, reported, errors, Except.map] using hp
  | true =>
    cases request with
    | next =>
      have hn := h.next
      unfold Lookahead.ask
      generalize s.next = r at hn ⊢
      obtain ⟨_ | _, s'⟩ := r <;> exact hn
    | _ => cases hn

end

lemma delivered_cons (call calls) : delivered (call :: calls) =
    delivered [call] ++ delivered calls := by
  simp only [delivered, filterMap_cons, filterMap_nil]
  split <;> rfl

lemma reported_cons (call calls) : reported (call :: calls) =
    reported [call] ++ reported calls := by
  simp only [reported, filterMap_cons, filterMap_nil]
  split <;> rfl

lemma Tracks.run (requests) : ∀ {s : Lookahead} {taken faults}, s.Tracks source taken faults →
    (s.run requests).2.Tracks source (taken ++ delivered (s.run requests).1) (faults ++ reported
     (s.run requests).1) := by
  induction requests with
  | nil => intro s taken faults h; simpa [Lookahead.run, delivered, reported] using h
  | cons request rest ih =>
    intro s taken faults h
    have hr := ih (h.ask request)
    rw [append_assoc, append_assoc, ← delivered_cons, ← reported_cons] at hr
    exact hr

/-! ## Behind the end -/

/-- Everything has been read up to the end of the source. -/
structure Ended (s : Lookahead) : Prop where
  rest : s.rest = []
  buffer : ∀ t ∈ s.buffer, t = endOf s.length

lemma Ended.scanNext (h : s.Ended) : s.scanNext = (.ok (endOf s.length), s) := by
  rw [Lookahead.scanNext, h.rest]

lemma Ended.fill (count) (s : Lookahead) (h : s.Ended) : (fill count s).1 = .ok () ∧
    (fill count s).2.Ended ∧ (fill count s).2.length = s.length := by
  induction count generalizing s with
  | zero => exact ⟨rfl, h, rfl⟩
  | succ count ih =>
    rw [Lookahead.fill, h.scanNext]
    refine ih { s with buffer := s.buffer ++ [endOf s.length] } ⟨h.rest, fun t ht => ?_⟩
    exact (mem_append.1 ht).elim (h.buffer t) mem_singleton.1

lemma Ended.peekAt (h : s.Ended) (offset) : (s.peekAt offset).1 = .ok (endOf s.length) ∧
    (s.peekAt offset).2.Ended ∧ (s.peekAt offset).2.length = s.length := by
  obtain ⟨hok, hended, hlength⟩ := h.fill (offset + 1 - s.buffer.length)
  unfold Lookahead.peekAt
  split
  · rename_i s1 hs
    rw [hs] at hended hlength
    refine ⟨congrArg Except.ok ?_, hended, hlength⟩
    rw [getD_eq_getElem?_getD]
    cases hget : s1.buffer[offset]? with
    | none => exact congrArg endOf hlength
    | some t =>
      rw [Option.getD_some, hended.buffer t (mem_of_getElem? hget)]
      exact congrArg endOf hlength
  · rename_i e s1 hs
    rw [hs] at hok
    cases hok

lemma Ended.next (h : s.Ended) : s.next.1 = .ok (endOf s.length) ∧ s.next.2.Ended ∧
    s.next.2.length = s.length := by
  unfold Lookahead.next
  split
  · rename_i t buffer hb
    have hbuffer := h.buffer
    rw [hb, forall_mem_cons] at hbuffer
    exact ⟨congrArg Except.ok hbuffer.1, ⟨h.rest, hbuffer.2⟩, rfl⟩
  · rw [h.scanNext]
    exact ⟨rfl, h, rfl⟩

lemma Ended.ask (h : s.Ended) (request) : (s.ask request).1 = .ok (endReply s.length request) ∧
    (s.ask request).2.Ended ∧ (s.ask request).2.length = s.length := by
  cases hn : request.isNext with
  | false =>
    obtain ⟨offset, f, hask, hend⟩ := s.ask_eq_peekAt hn
    obtain ⟨hok, hrest⟩ := h.peekAt offset
    rw [hask, ← hend]
    exact ⟨congrArg (Except.map f) hok, hrest⟩
  | true =>
    obtain ⟨hok, hrest⟩ := h.next
    cases request with
    | next => exact ⟨congrArg (Except.map Reply.token) hok, hrest⟩
    | _ => cases hn

lemma Ended.run (requests) : ∀ {s : Lookahead}, s.Ended → (s.run requests).1 =
    requests.map fun request => (request, .ok (endReply s.length request)) := by
  induction requests with
  | nil => intro s _; rfl
  | cons request rest ih =>
    intro s h
    obtain ⟨hok, hended, hlength⟩ := h.ask request
    rw [Lookahead.run, ih hended, hok, hlength, map_cons]

/-- The end is delivered only when there is nothing left. -/
lemma Tracks.ended (h : s.Tracks source taken faults) (ht : s.next.1 = .ok t)
    (heof : t.lexis = .eof) : t = endOf source.utf8ByteSize ∧ s.next.2.Ended := by
  obtain ⟨hlength, scanned, ends, hscan, hfaults, htokens, hends⟩ := h.next
  have hne (u) (hu : u ∈ tokensOf scanned) : u.lexis ≠ .eof := by
    obtain ⟨l, hl, hlu⟩ := mem_filterMap.1 hu
    cases l with
    | token u' =>
      cases hlu
      have hmem : .token u ∈ scan source := hscan ▸ mem_append_left _ hl
      exact token_ne_eof hmem
    | fault => cases hlu
  rw [ht, tokens, append_assoc, singleton_append] at htokens
  -- The end that is delivered is none of the scanned tokens, so it and all behind it are ends.
  have hsuffix : t :: s.next.2.buffer <:+ replicate ends (endOf s.next.2.length) := by
    rcases append_eq_append_iff.1 htokens with ⟨more, hscanned, hrest⟩ | ⟨more, -, hrest⟩
    · cases more with
      | nil => exact ⟨[], hrest⟩
      | cons u more =>
        have hu : t = u := (cons.inj hrest).1
        exact absurd heof (hne t (by rw [hscanned, hu]; simp))
    · exact ⟨more, hrest.symm⟩
  have hmem (u) (hu : u ∈ t :: s.next.2.buffer) := mem_replicate.1 (hsuffix.subset hu)
  obtain ⟨hsome, hend⟩ := hmem t mem_cons_self
  refine ⟨hlength ▸ hend, ?_, fun u hu => (hmem u (mem_cons_of_mem _ hu)).2⟩
  by_contra hrest
  exact hsome (hends hrest)

/-! ## Any calls -/

lemma Tracks.delivered_eq (h : s.Tracks source taken faults) : taken =
    (range taken.length).map (plainToken source) := by
  obtain ⟨hlength, scanned, ends, hscan, -, htokens, hends⟩ := h
  have hplain : tokensOf (scan source) = tokensOf scanned ++ tokensOf s.rest := by
    rw [hscan, tokensOf_append]
  refine ext_getElem (by simp) fun i hi _ => ?_
  have hget : (tokensOf scanned ++ replicate ends (endOf s.length))[i]? = some taken[i] := by
    rw [← htokens, getElem?_append_left hi, getElem?_eq_getElem hi]
  rw [getElem_map, getElem_range, plainToken, hplain, getD_eq_getElem?_getD]
  rw [getElem?_append] at hget ⊢
  split at hget
  · rename_i hlt
    rw [if_pos hlt, hget, Option.getD_some]
  · rename_i hlt
    obtain ⟨hsome, hend⟩ := mem_replicate.1 (mem_of_getElem? hget)
    have hrest : s.rest = [] := by
      by_contra hne
      exact hsome (hends hne)
    rw [if_neg hlt, hrest, hend, hlength]
    rfl

/-- However calls are mixed: `next` delivers the tokens of a plain scan in order; every fault of the
part that has been scanned was the answer to one call, and nothing else was; a token that can be
looked at is the one that `next` delivers once those before it have been delivered, whatever is asked
in between; and behind the end there is nothing but the end. -/
theorem run_transparent (source : String) (requests : List Request) :
    let calls := ((ofSource source).run requests).1
    let s := ((ofSource source).run requests).2
    delivered calls = (range (delivered calls).length).map (plainToken source) ∧
      (∃ scanned, scan source = scanned ++ s.rest ∧ reported calls = faultsOf scanned) ∧
      (∀ offset t, (s.peekAt offset).1 = .ok t → ∀ later : List Request,
        later.countP Request.isNext = offset → ((s.peekAt offset).2.run later).2.next.1 = .ok t) ∧
      (∀ test passes, (s.check test).1 = .ok passes → ∃ t, s.peek.1 = .ok t ∧ passes = test t.lexis) ∧
      ∀ t, s.next.1 = .ok t → t.lexis = .eof → t = endOf source.utf8ByteSize ∧
        ∀ later : List Request, (s.next.2.run later).1 =
          later.map fun request => (request, .ok (endReply source.utf8ByteSize request)) := by
  intro calls s
  have h : s.Tracks source (delivered calls) (reported calls) :=
    (tracks_ofSource source).run requests
  refine ⟨h.delivered_eq, ?_, fun offset t ht later hlater => ?_, fun test passes ht => ?_,
    fun t ht heof => ?_⟩
  · obtain ⟨-, scanned, -, hscan, hfaults, -⟩ := h
    exact ⟨scanned, hscan, hfaults⟩
  · refine next_of_buffer (buffer_run later ?_)
    rw [Nat.zero_add, hlater]
    exact buffer_peekAt ht
  · unfold check at ht
    split at ht
    · rename_i t s' hs
      exact ⟨t, by rw [hs], by cases ht; rfl⟩
    · cases ht
  · obtain ⟨hend, hended⟩ := h.ended ht heof
    exact ⟨hend, fun later => h.next.length ▸ hended.run later⟩

/-- A look that meets a fault keeps the token in front of it. -/
theorem run_transparent_faulty :
    let s := ((ofSource "x ! :=").run [.peekAt 1]).2
    s.buffer.length = 1 ∧ (s.peekAt 1).1 = .ok ⟨.symbol .becomes, ⟨4, 6⟩⟩ ∧
      ((s.peekAt 1).2.run [.check Lexis.isIdent, .next]).2.next.1 =
        .ok ⟨.symbol .becomes, ⟨4, 6⟩⟩ := by
  intro s
  have hpeek : (s.peekAt 1).1 = .ok ⟨.symbol .becomes, ⟨4, 6⟩⟩ := by rfl
  exact ⟨rfl, hpeek, (run_transparent "x ! :=" [.peekAt 1]).2.2.1 1 _ hpeek _ rfl⟩

end Lookahead
end Oberon
