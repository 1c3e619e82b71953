import FlowLint.Proofs.Flow.Chart
import FlowLint.Proofs.Flow.Offence

/-!
What statements do, without a graph: the words that their runs read, each with how the run ends.
Behaviours are put together from smaller ones, and followed by what is read behind them.
-/
namespace FlowLint
set_option autoImplicit true

/-- How a run of a statement ends. -/
inductive Outcome
  | normal
  | jump (kind : JumpKind) (label : Option String)
  | returned
  | thrown
  /-- The run was cut off before its end. -/
  | interrupted
deriving DecidableEq, Repr

/-- A set of words, each with the way its run ends. -/
abbrev Behaviour (α : Type) : Type :=
  List (Letter α) → Outcome → Prop

namespace Enclosing

/-- Whether a jump refers to this statement. -/
def catches (enclosing : Enclosing) (kind : JumpKind) : Option String → Bool
  | none => enclosing.stops kind
  | some label => enclosing.labels.contains label

/-- How a loop sees its body end: a `continue` to the loop ends it normally. -/
def resume (enclosing : Enclosing) : Outcome → Outcome
  | .jump .continue label =>
    if enclosing.catches .continue label then .normal else .jump .continue label
  | outcome => outcome

/-- How a statement ends when what is in it does: a `break` to the statement ends it normally. What
is not a loop has nowhere to go on at a `continue` to it. -/
def leave (enclosing : Enclosing) : Outcome → Outcome
  | .jump .break label => if enclosing.catches .break label then .normal else .jump .break label
  | .jump .continue label =>
    if enclosing.catches .continue label then .interrupted else .jump .continue label
  | outcome => outcome

end Enclosing

namespace Behaviour

inductive ends (outcome : Outcome) : Behaviour α
  | intro : ends outcome [] outcome

def skip : Behaviour α :=
  ends .normal

def never : Behaviour α :=
  fun _ _ => False

inductive emit (letter : Letter α) : Behaviour α
  | cut : emit letter [] .interrupted
  | done : emit letter [letter] .normal

def either (left right : Behaviour α) : Behaviour α :=
  fun word outcome => left word outcome ∨ right word outcome

/-- One behaviour after another, if the first ends normally. -/
inductive andThen (first second : Behaviour α) : Behaviour α
  | abrupt (h : first word outcome) (ho : outcome ≠ .normal) : andThen first second word outcome
  | both (h : first word .normal) (h' : second word' outcome) :
      andThen first second (word ++ word') outcome

/-- One behaviour after another, if the first ends normally or with a thrown value. -/
inductive rescuedBy (first second : Behaviour α) : Behaviour α
  | abrupt (h : first word outcome) (hn : outcome ≠ .normal) (ht : outcome ≠ .thrown) :
      rescuedBy first second word outcome
  | normal (h : first word .normal) (h' : second word' outcome) :
      rescuedBy first second (word ++ word') outcome
  | thrown (h : first word .thrown) (h' : second word' outcome) :
      rescuedBy first second (word ++ word') outcome

/-- A behaviour again and again, until another one takes its place. -/
inductive repeated (round last : Behaviour α) : Behaviour α
  | last (h : last word outcome) : repeated round last word outcome
  | abrupt (h : round word outcome) (ho : outcome ≠ .normal) : repeated round last word outcome
  | again (h : round word .normal) (hr : repeated round last word' outcome) :
      repeated round last (word ++ word') outcome

/-- A behaviour whose runs are seen to end otherwise. -/
inductive through (f : Outcome → Outcome) (behaviour : Behaviour α) : Behaviour α
  | intro (h : behaviour word outcome) : through f behaviour word (f outcome)

/-- An element that decides between two sides is read, and the side that is taken. -/
def test (element : α) (taken : Bool) : Behaviour α :=
  (emit (.element element)).andThen (emit (.side taken))

/-- The rounds of a loop from its guard on. -/
def rounds (enclosing : Enclosing) (enter exit body update : Behaviour α) : Behaviour α :=
  repeated (enter.andThen ((body.through enclosing.resume).andThen update)) exit

end Behaviour

namespace Reading

def stopped : Reading α :=
  fun word ending => word = [] ∧ ending = .interrupted

/-- A letter is read first, if the reading gets so far. -/
inductive emit (letter : Letter α) (reading : Reading α) : Reading α
  | cut : emit letter reading [] .interrupted
  | cons (h : reading word ending) : emit letter reading (letter :: word) ending

def either (left right : Reading α) : Reading α :=
  fun word ending => left word ending ∨ right word ending

theorem either_never (reading : Reading α) : reading.either (fun _ _ => False) = reading := by
  funext word ending
  simp [either]

theorem emit_either (letter : Letter α) (left right : Reading α) :
    emit letter (left.either right) = (emit letter left).either (emit letter right) := by
  funext word ending
  apply propext
  constructor
  · intro h
    cases h with
    | cut => exact .inl .cut
    | cons h => exact h.imp .cons .cons
  · rintro (h | h)
    · cases h with
      | cut => exact .cut
      | cons h => exact .cons (.inl h)
    · cases h with
      | cut => exact .cut
      | cons h => exact .cons (.inr h)

end Reading

/-- What is read behind a statement, for each way it can end. -/
structure Continuation (α : Type) where
  normal : Reading α
  jump : JumpKind → Option String → Reading α
  returned : Reading α
  thrown : Reading α

namespace Continuation

/-- What is read behind an outcome; nothing behind one that is no end. -/
def behind (next : Continuation α) : Outcome → Reading α
  | .normal => next.normal
  | .jump kind label => next.jump kind label
  | .returned => next.returned
  | .thrown => next.thrown
  | .interrupted => .stopped

theorem behind_of_ne_normal (next : Continuation α) (reading : Reading α)
    (h : outcome ≠ .normal) :
    { next with normal := reading }.behind outcome = next.behind outcome := by
  cases outcome with
  | normal => exact (h rfl).elim
  | jump | returned | thrown | interrupted => rfl

theorem behind_of_ne (next : Continuation α) (reading reading' : Reading α)
    (hn : outcome ≠ .normal) (ht : outcome ≠ .thrown) :
    { next with normal := reading, thrown := reading' }.behind outcome = next.behind outcome := by
  cases outcome with
  | normal => exact (hn rfl).elim
  | thrown => exact (ht rfl).elim
  | jump | returned | interrupted => rfl

def through (next : Continuation α) (f : Outcome → Outcome) : Continuation α where
  normal := next.behind (f .normal)
  jump kind label := next.behind (f (.jump kind label))
  returned := next.behind (f .returned)
  thrown := next.behind (f .thrown)

end Continuation

namespace Behaviour

variable {α : Type}

/-- What a behaviour reads together with what follows it. -/
def into (behaviour : Behaviour α) (next : Continuation α) : Reading α :=
  fun word ending => ∃ first outcome rest,
    word = first ++ rest ∧ behaviour first outcome ∧ next.behind outcome rest ending

variable {behaviour first second round last : Behaviour α} {next : Continuation α}
  {reading : Reading α}

theorem skip_andThen (behaviour : Behaviour α) : skip.andThen behaviour = behaviour := by
  funext word outcome
  apply propext
  constructor
  · intro h
    cases h with
    | abrupt h ho =>
      cases h
      exact (ho rfl).elim
    | both h h' =>
      cases h
      exact h'
  · intro h
    exact andThen.both ends.intro h

theorem into_ends (outcome : Outcome) (next : Continuation α) :
    (ends outcome).into next = next.behind outcome := by
  funext word ending
  apply propext
  constructor
  · rintro ⟨_, _, rest, rfl, h, hn⟩
    cases h
    exact hn
  · exact fun h => ⟨[], outcome, word, rfl, .intro, h⟩

theorem into_skip (next : Continuation α) : skip.into next = next.normal :=
  into_ends .normal next

theorem into_never (next : Continuation α) : never.into next = fun _ _ => False := by
  funext word ending
  simp [into, never]

theorem into_emit (letter : Letter α) (next : Continuation α) :
    (emit letter).into next = .emit letter next.normal := by
  funext word ending
  apply propext
  constructor
  · rintro ⟨_, _, rest, rfl, h, hn⟩
    cases h with
    | cut =>
      obtain ⟨rfl, rfl⟩ := hn
      exact .cut
    | done => exact .cons hn
  · intro h
    cases h with
    | cut => exact ⟨[], .interrupted, [], rfl, .cut, rfl, rfl⟩
    | cons h => exact ⟨[letter], .normal, _, rfl, .done, h⟩

theorem into_either (left right : Behaviour α) (next : Continuation α) :
    (left.either right).into next = (left.into next).either (right.into next) := by
  funext word ending
  apply propext
  constructor
  · rintro ⟨first, outcome, rest, rfl, h, hn⟩
    exact h.imp (fun h => ⟨first, outcome, rest, rfl, h, hn⟩)
      fun h => ⟨first, outcome, rest, rfl, h, hn⟩
  · rintro (⟨first, outcome, rest, rfl, h, hn⟩ | ⟨first, outcome, rest, rfl, h, hn⟩)
    · exact ⟨first, outcome, rest, rfl, .inl h, hn⟩
    · exact ⟨first, outcome, rest, rfl, .inr h, hn⟩

theorem into_andThen (first second : Behaviour α) (next : Continuation α) :
    (first.andThen second).into next = first.into { next with normal := second.into next } := by
  funext word ending
  apply propext
  constructor
  · rintro ⟨_, outcome, rest, rfl, h, hn⟩
    cases h with
    | abrupt h ho => exact ⟨_, outcome, rest, rfl, h, next.behind_of_ne_normal _ ho ▸ hn⟩
    | both h h' => exact ⟨_, .normal, _, List.append_assoc .., h, _, outcome, rest, rfl, h', hn⟩
  · rintro ⟨word, outcome, rest, rfl, h, hn⟩
    cases outcome with
    | normal =>
      obtain ⟨word', outcome, rest, rfl, h', hn⟩ := hn
      exact ⟨_, outcome, rest, (List.append_assoc ..).symm, .both h h', hn⟩
    | jump | returned | thrown | interrupted => exact ⟨word, _, rest, rfl, .abrupt h nofun, hn⟩

theorem into_rescuedBy (first second : Behaviour α) (next : Continuation α) :
    (first.rescuedBy second).into next =
      first.into { next with normal := second.into next, thrown := second.into next } := by
  funext word ending
  apply propext
  constructor
  · rintro ⟨_, outcome, rest, rfl, h, hn⟩
    cases h with
    | abrupt h hn' ht => exact ⟨_, outcome, rest, rfl, h, next.behind_of_ne _ _ hn' ht ▸ hn⟩
    | normal h h' => exact ⟨_, .normal, _, List.append_assoc .., h, _, outcome, rest, rfl, h', hn⟩
    | thrown h h' => exact ⟨_, .thrown, _, List.append_assoc .., h, _, outcome, rest, rfl, h', hn⟩
  · rintro ⟨word, outcome, rest, rfl, h, hn⟩
    cases outcome with
    | normal =>
      obtain ⟨word', outcome, rest, rfl, h', hn⟩ := hn
      exact ⟨_, outcome, rest, (List.append_assoc ..).symm, .normal h h', hn⟩
    | thrown =>
      obtain ⟨word', outcome, rest, rfl, h', hn⟩ := hn
      exact ⟨_, outcome, rest, (List.append_assoc ..).symm, .thrown h h', hn⟩
    | jump | returned | interrupted => exact ⟨word, _, rest, rfl, .abrupt h nofun nofun, hn⟩

theorem into_through (behaviour : Behaviour α) (next : Continuation α) {f : Outcome → Outcome}
    (hf : f .interrupted = .interrupted) :
    (behaviour.through f).into next = behaviour.into (next.through f) := by
  have he : ∀ outcome, (next.through f).behind outcome = next.behind (f outcome) := by
    intro outcome
    cases outcome with
    | interrupted => rw [hf]; rfl
    | normal | jump | returned | thrown => rfl
  funext word ending
  apply propext
  constructor
  · rintro ⟨_, _, rest, rfl, h, hn⟩
    cases h with
    | intro h => exact ⟨_, _, rest, rfl, h, he _ ▸ hn⟩
  · rintro ⟨word, outcome, rest, rfl, h, hn⟩
    exact ⟨word, f outcome, rest, rfl, .intro h, he _ ▸ hn⟩

theorem into_test (element : α) (taken : Bool) (next : Continuation α) :
    (test element taken).into next =
      .emit (.element element) (.emit (.side taken) next.normal) := by
  rw [test, into_andThen, into_emit, into_emit]

theorem andThen_nil (h : first.andThen second [] .normal) :
    first [] .normal ∧ second [] .normal := by
  generalize hw : [] = word at h
  cases h with
  | abrupt _ ho => exact (ho rfl).elim
  | both h h' =>
    obtain ⟨rfl, rfl⟩ := List.append_eq_nil_iff.1 hw.symm
    exact ⟨h, h'⟩

/-- A loop whose rounds read something is the only solution of its equation. -/
theorem eq_into_repeated {reading : Reading α} (hr : ¬ round [] .normal)
    (h : reading = (round.into { next with normal := reading }).either (last.into next)) :
    reading = (round.repeated last).into next := by
  have step : ∀ word ending, reading word ending ↔
      round.into { next with normal := reading } word ending ∨ last.into next word ending :=
    fun word ending => iff_of_eq (congrFun (congrFun h word) ending)
  funext word ending
  apply propext
  constructor
  · intro hw
    -- a round reads at least one letter, so what is left to read after it is shorter
    induction hl : word.length using Nat.strongRecOn generalizing word with
    | ind n ih =>
      rcases (step word ending).1 hw with ⟨first, outcome, rest, rfl, hround, hn⟩ |
        ⟨first, outcome, rest, rfl, hlast, hn⟩
      · by_cases ho : outcome = .normal
        · subst ho
          have hne : first ≠ [] := fun he => hr (he ▸ hround)
          have hlt : rest.length < n := by
            have := List.length_pos_of_ne_nil hne
            rw [← hl, List.length_append]
            omega
          obtain ⟨second, outcome, rest, rfl, hsecond, hn⟩ := ih _ hlt rest hn rfl
          exact ⟨_, outcome, rest, (List.append_assoc ..).symm, .again hround hsecond, hn⟩
        · rw [next.behind_of_ne_normal _ ho] at hn
          exact ⟨first, outcome, rest, rfl, .abrupt hround ho, hn⟩
      · exact ⟨first, outcome, rest, rfl, .last hlast, hn⟩
  · rintro ⟨word, outcome, rest, rfl, hword, hn⟩
    induction hword with
    | last hlast => exact (step _ _).2 (.inr ⟨_, _, rest, rfl, hlast, hn⟩)
    | abrupt hround ho =>
      rw [← next.behind_of_ne_normal reading ho] at hn
      exact (step _ _).2 (.inl ⟨_, _, rest, rfl, hround, hn⟩)
    | again hround _ ih =>
      rw [List.append_assoc]
      exact (step _ _).2 (.inl ⟨_, .normal, _, rfl, hround, ih hn⟩)

/-- What is read from the guard and from the body of a loop, when its rounds lead from one to the
other. -/
theorem eq_into_rounds {loop : Enclosing} {runs again enter exit : Behaviour α}
    {guard body : Reading α} (hn : ¬ enter [] .normal)
    (hg : guard = (enter.into { next.through loop.leave with normal := body }).either
      (exit.into (next.through loop.leave)))
    (hb : body = ((runs.through loop.resume).andThen again).into
      { next.through loop.leave with normal := guard }) :
    guard = ((rounds loop enter exit runs again).through loop.leave).into next ∧
      body = (((runs.through loop.resume).andThen (again.andThen
        (rounds loop enter exit runs again))).through loop.leave).into next := by
  have hguard : guard = (rounds loop enter exit runs again).into (next.through loop.leave) := by
    apply eq_into_repeated fun h => hn (andThen_nil h).1
    rw [into_andThen, ← hb]
    exact hg
  rw [into_through _ _ rfl, into_through _ _ rfl]
  refine ⟨hguard, ?_⟩
  rw [into_andThen, into_andThen, ← hguard, hb, into_andThen]

end Behaviour

end FlowLint
