import MarkupTree.Proofs.Token.Identity
import MarkupTree.Token.Factory

/-!
# Identities on many threads

Any number of threads make tokens and share one counter. A request reads and moves the counter once
at most, so what matters of a run is the order in which the requests reach the counter: a schedule
names the thread whose turn it is. Each thread has a program of its own, which may go by the answers
that it has had so far.

* `Request.run_of_passes`, `Request.run_of_not_passes` — which requests use up an identity
* `Numbered.serve`, `Numbered.run` — a request, and so a run, goes on with a row of identities
* `identitiesUnique_run` — all of them are different, whatever the programs and the schedule
-/

namespace MarkupTree

/-! ## Requests -/

/-- What a thread asks for. -/
inductive Request where
  /-- An identity alone. -/
  | identity
  /-- The token of a text at a place. -/
  | token (rules : PositionRules) (raw : Option (List Char)) (line col start : UInt32)
  /-- The token of the source text between two offsets. -/
  | fragment (rules : PositionRules) (source : List Char) (start stop : UInt32)

/-- What a thread gets. -/
inductive Answer where
  | identity (id : TokenId)
  | token (t : Token)
deriving DecidableEq, Repr

/-- The identity that an answer carries. -/
def Answer.id : Answer → TokenId
  | identity id => id
  | token t => t.id

namespace Request

/-- The answer to a request, or the fault that it ends with, and the counter behind it. -/
def run : Request → Counter → Except Fault Answer × Counter
  | identity, c => (.ok (.identity c.take.1), c.take.2)
  | token rules raw line col start, c =>
    let made := Token.make rules raw line col start c
    (made.1.map .token, made.2)
  | fragment rules source start stop, c =>
    let made := Token.fragment rules source start stop c
    (made.1.map .token, made.2)

/-- The offsets of a request are in order: the end of a text fits, and a span does not run
backwards. -/
def Passes : Request → Prop
  | identity => True
  | token _ raw _ _ start => start.toNat + (Text.unitLen (raw.getD [])).toNat < UInt32.size
  | fragment _ _ start stop => start ≤ stop

instance decidablePasses : DecidablePred Passes
  | identity => isTrue trivial
  | token _ raw _ _ start =>
    inferInstanceAs (Decidable (start.toNat + (Text.unitLen (raw.getD [])).toNat < UInt32.size))
  | fragment _ _ start stop => inferInstanceAs (Decidable (start ≤ stop))

/-- The identity that a request uses up: the one that the counter stands at, if it moves on. -/
def taken (r : Request) (c : Counter) : Option TokenId :=
  if (r.run c).2 = c then none else some c.take.1

/-- A request with its offsets in order uses up one identity, and carries it in its answer, unless it
ends with a fault behind that. -/
theorem run_of_passes {r : Request} (h : r.Passes) (c : Counter) :
    (r.run c).2 = c.take.2 ∧ ∀ a, (r.run c).1 = .ok a → a.id = c.take.1 := by
  cases r with
  | identity => exact ⟨rfl, fun a ha => by rw [← Except.ok.inj ha]; rfl⟩
  | token rules raw line col start =>
    have hstop : checkedAdd start (Text.unitLen (raw.getD [])) = some _ := if_pos h
    rw [run]
    cases hline : rules.endLine (raw.getD []) line with
    | error fault =>
      rw [Token.make_of_endLine_error hstop hline]
      exact ⟨rfl, fun a ha => nomatch ha⟩
    | ok lastLine =>
      cases hcol : rules.endCol (raw.getD []) col with
      | error fault =>
        rw [Token.make_of_endCol_error hstop hline hcol]
        exact ⟨rfl, fun a ha => nomatch ha⟩
      | ok lastCol =>
        rw [Token.make_of_fits hstop hline hcol]
        exact ⟨rfl, fun a ha => by rw [← Except.ok.inj ha]; rfl⟩
  | fragment rules source start stop =>
    rw [run, Token.fragment_of_le h]
    exact ⟨rfl, fun a ha => by rw [← Except.ok.inj ha]; rfl⟩

/-- Any other request ends with a fault and leaves the counter alone. -/
theorem run_of_not_passes {r : Request} (h : ¬r.Passes) (c : Counter) :
    ∃ fault, r.run c = (.error fault, c) := by
  cases r with
  | identity => exact absurd trivial h
  | token rules raw line col start =>
    have hstop : checkedAdd start (Text.unitLen (raw.getD [])) = none := if_neg h
    exact ⟨.endOffsetOverflow start, by rw [run, Token.make_of_overflow hstop]; rfl⟩
  | fragment rules source start stop =>
    exact ⟨.reversedSpan start stop, by rw [run, Token.fragment_of_not_le h]; rfl⟩

theorem take_snd_ne (c : Counter) : c.take.2 ≠ c := by
  intro h
  have hnext : c.next + 1 = c.next := congrArg Counter.next h
  rw [UInt64.add_eq_left] at hnext
  cases hnext

theorem taken_of_passes {r : Request} (h : r.Passes) (c : Counter) :
    r.taken c = some c.take.1 := by
  rw [taken, (run_of_passes h c).1, if_neg (take_snd_ne c)]

theorem taken_of_not_passes {r : Request} (h : ¬r.Passes) (c : Counter) : r.taken c = none := by
  obtain ⟨fault, hrun⟩ := run_of_not_passes h c
  rw [taken, hrun, if_pos rfl]

end Request

/-! ## Runs -/

namespace Threads

/-- What a thread does: the request that follows the answers so far, if any does. -/
abbrev Program := List (Except Fault Answer) → Option Request

/-- A request that has had its turn: the identity that it has used up, if any, and its answer. -/
structure Served (ι : Type) where
  thread : ι
  request : Request
  id? : Option TokenId
  answer : Except Fault Answer

/-- The counter that the threads share, and the requests that have had their turn, in order. -/
structure State (ι : Type) where
  counter : Counter
  served : List (Served ι) := []

namespace State

section

variable {ι : Type} (s : State ι)

/-- The identities handed out, in order. -/
def ids : List TokenId := s.served.filterMap Served.id?

variable [DecidableEq ι]

/-- The identities handed out to one thread, in order. -/
def idsOf (i : ι) : List TokenId := (s.served.filter (·.thread = i)).filterMap Served.id?

/-- What one thread has got so far. -/
def answersOf (i : ι) : List (Except Fault Answer) :=
  (s.served.filter (·.thread = i)).map Served.answer

omit [DecidableEq ι] in
/-- Serves a request of a thread. -/
def serve (i : ι) (r : Request) : State ι :=
  { counter := (r.run s.counter).2
    served := s.served ++ [⟨i, r, r.taken s.counter, (r.run s.counter).1⟩] }

/-- Gives a thread its turn. -/
def turn (programs : ι → Program) (i : ι) : State ι :=
  match programs i (s.answersOf i) with
  | none => s
  | some r => s.serve i r

/-- Gives the threads of a schedule their turns. -/
def run (programs : ι → Program) (schedule : List ι) : State ι :=
  schedule.foldl (fun s i => s.turn programs i) s

end

end State

/-! ## One turn, and all of them -/

/-- Since the counter stood at `first`, identities have been handed out in a row: one for each
request with its offsets in order, which carries it in its answer. -/
structure Numbered {ι : Type} (first : UInt64) (s : State ι) : Prop where
  ids : s.ids = TokenId.row first s.ids.length
  counter : s.counter.next = first + UInt64.ofNat s.ids.length
  taken : ∀ e ∈ s.served, e.id?.isSome = true ↔ e.request.Passes
  carried : ∀ e ∈ s.served, ∀ a, e.answer = .ok a → e.id? = some a.id

section

variable {ι : Type} {first : UInt64} {s : State ι}

theorem numbered_start (c : Counter) : Numbered c.next ({ counter := c } : State ι) where
  ids := rfl
  counter := (UInt64.add_zero c.next).symm
  taken := fun _ h => nomatch h
  carried := fun _ h => nomatch h

theorem Numbered.serve (h : Numbered first s) (i : ι) (r : Request) :
    Numbered first (s.serve i r) := by
  have hserved : (s.serve i r).served
      = s.served ++ [⟨i, r, r.taken s.counter, (r.run s.counter).1⟩] := rfl
  by_cases hpasses : r.Passes
  · -- the row goes on with the identity that the counter stands at
    obtain ⟨hcounter, hcarried⟩ := r.run_of_passes hpasses s.counter
    have htaken := Request.taken_of_passes hpasses s.counter
    have hids : (s.serve i r).ids = s.ids ++ [s.counter.take.1] := by
      rw [State.ids, hserved, List.filterMap_append, htaken]
      rfl
    have hlength : (s.serve i r).ids.length = s.ids.length + 1 := by
      rw [hids, List.length_append, List.length_singleton]
    refine ⟨?_, ?_, ?_, ?_⟩
    · rw [hlength, TokenId.row_succ, hids, ← h.ids, ← h.counter]
      rfl
    · show (r.run s.counter).2.next = _
      rw [hcounter, hlength, Counter.take_snd, h.counter, UInt64.ofNat_add, UInt64.add_assoc]
      rfl
    · rw [hserved, List.forall_mem_append, List.forall_mem_singleton, htaken]
      exact ⟨h.taken, iff_of_true rfl hpasses⟩
    · rw [hserved, List.forall_mem_append, List.forall_mem_singleton, htaken]
      exact ⟨h.carried, fun a ha => congrArg some (hcarried a ha).symm⟩
  · obtain ⟨fault, hrun⟩ := r.run_of_not_passes hpasses s.counter
    have htaken := Request.taken_of_not_passes hpasses s.counter
    have hids : (s.serve i r).ids = s.ids := by
      rw [State.ids, hserved, List.filterMap_append, htaken]
      exact List.append_nil _
    refine ⟨?_, ?_, ?_, ?_⟩
    · rw [hids]
      exact h.ids
    · show (r.run s.counter).2.next = _
      rw [hrun, hids]
      exact h.counter
    · rw [hserved, List.forall_mem_append, List.forall_mem_singleton, htaken]
      exact ⟨h.taken, iff_of_false Bool.false_ne_true hpasses⟩
    · rw [hserved, List.forall_mem_append, List.forall_mem_singleton, hrun]
      exact ⟨h.carried, fun _ ha => nomatch ha⟩

variable [DecidableEq ι] (programs : ι → Program)

theorem Numbered.turn (h : Numbered first s) (i : ι) : Numbered first (s.turn programs i) := by
  rw [State.turn]
  split
  · exact h
  · exact h.serve i _

theorem Numbered.run (h : Numbered first s) (schedule : List ι) :
    Numbered first (s.run programs schedule) := by
  induction schedule generalizing s with
  | nil => exact h
  | cons i schedule ih => exact ih (h.turn programs i)

end

/-! ## Identities of a run -/

/-- What the threads have been handed since the counter stood at `first`. -/
structure IdentitiesUnique {ι : Type} [DecidableEq ι] (first : UInt64) (s : State ι) : Prop where
  distinct : s.ids.Nodup
  increasing : ∀ i, (s.idsOf i).Pairwise (·.value < ·.value)
  /-- The counter has counted the requests that got past the check of their offsets. -/
  counted : s.counter.next.toNat = first.toNat + s.served.countP (·.request.Passes)
  /-- These requests, and no others, have used up an identity. -/
  taken : ∀ e ∈ s.served, e.id?.isSome = true ↔ e.request.Passes
  /-- An identity alone or that of a token is the one that its request has used up. -/
  carried : ∀ e ∈ s.served, ∀ a, e.answer = .ok a → e.id? = some a.id
  /-- No two identities are written alike. -/
  legible : Function.Injective TokenId.display

/-- Whatever the threads ask for, and in whatever order they have their turns: as long as the counter
does not run over, no identity is handed out twice, and those of one thread increase. -/
theorem identitiesUnique_run {ι : Type} [DecidableEq ι] (programs : ι → Program) (c : Counter)
    (schedule : List ι)
    (h : c.next.toNat + (State.run { counter := c } programs schedule).ids.length < UInt64.size) :
    IdentitiesUnique c.next (State.run { counter := c } programs schedule) := by
  have hnumbered := (numbered_start c).run programs schedule
  generalize State.run { counter := c } programs schedule = s at h hnumbered
  have hcount : s.served.countP (·.request.Passes) = s.ids.length := by
    rw [State.ids, List.length_filterMap_eq_countP]
    exact List.countP_congr fun e he => by simpa using (hnumbered.taken e he).symm
  have hincreasing : s.ids.Pairwise (·.value < ·.value) := by
    rw [hnumbered.ids]
    exact TokenId.pairwise_row (Nat.le_of_lt h)
  refine ⟨?_, fun i => ?_, ?_, hnumbered.taken, hnumbered.carried, ?_⟩
  · rw [hnumbered.ids]
    exact TokenId.nodup_row _ (by omega)
  · exact hincreasing.sublist (List.filter_sublist.filterMap _)
  · rw [hnumbered.counter, hcount, UInt64.toNat_add, UInt64.toNat_ofNat_of_lt' (by omega),
      Nat.mod_eq_of_lt h]
  · exact TokenId.display_injective

/-- Two threads take turns. Of five requests two have their offsets out of order and use up nothing;
the very first uses up an identity and then ends with a fault, since its column does not fit. -/
theorem identitiesUnique_run_faults :
    let first := [.token .baseline (some ['a']) 1 4294967295 0, .identity]
    let second := [.token .baseline (some ['a']) 1 1 4294967295, .fragment .baseline ['a'] 0 1,
      .fragment .baseline ['a'] 1 0]
    let programs : Bool → Program := fun i answers => (if i then first else second)[answers.length]?
    let s := State.run { counter := {} } programs [true, false, false, true, false, true]
    1 + s.ids.length < UInt64.size ∧ s.ids = [⟨1⟩, ⟨2⟩, ⟨3⟩] ∧ s.idsOf true = [⟨1⟩, ⟨3⟩] ∧
      s.served.map Served.id? = [some ⟨1⟩, none, some ⟨2⟩, some ⟨3⟩, none] ∧
      IdentitiesUnique 1 s := by
  intro first second programs s
  have hids : s.ids = [⟨1⟩, ⟨2⟩, ⟨3⟩] := by decide
  have hfits : 1 + s.ids.length < UInt64.size := by rw [hids]; decide
  exact ⟨hfits, hids, by decide, by decide, identitiesUnique_run programs {} _ hfits⟩

end Threads

end MarkupTree
