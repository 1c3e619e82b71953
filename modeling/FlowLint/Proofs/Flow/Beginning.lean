import FlowLint.Proofs.Flow.Evaluated
import FlowLint.Proofs.Flow.Runs

namespace FlowLint
set_option autoImplicit true

open Behaviour

/-- A run begins with an element, or is cut off before that; without an element it reads nothing and
ends normally. -/
def Outcome.After (entry : Option α) (word : List (Letter α)) (outcome : Outcome) : Prop :=
  match entry with
  | none => word = [] ∧ outcome = .normal
  | some element => word = [] ∧ outcome = .interrupted ∨ ∃ rest, word = .element element :: rest

/-- All runs of a behaviour begin with an element, if there is one. -/
def Behaviour.Begins (behaviour : Behaviour α) (entry : Option α) : Prop :=
  ∀ word outcome, behaviour word outcome → outcome.After entry word

namespace Outcome.After

variable {α : Type} {element : α} {word : List (Letter α)} {outcome : Outcome}

/-- A run that got beyond its beginning has read the first element, whatever it reads next. -/
theorem append (h : outcome.After (some element) word) (hne : outcome ≠ .interrupted)
    (word' : List (Letter α)) (outcome' : Outcome) :
    outcome'.After (some element) (word ++ word') := by
  rcases h with ⟨-, rfl⟩ | ⟨rest, rfl⟩
  · exact (hne rfl).elim
  · exact .inr ⟨rest ++ word', rfl⟩

theorem see {entry : Option α} (h : outcome.After entry word) {f : Outcome → Outcome}
    (hn : f .normal = .normal) (hi : f .interrupted = .interrupted) :
    (f outcome).After entry word := by
  cases entry with
  | none =>
    obtain ⟨rfl, rfl⟩ := h
    exact ⟨rfl, hn⟩
  | some element =>
    rcases h with ⟨rfl, rfl⟩ | h
    · exact .inl ⟨rfl, hi⟩
    · exact .inr h

end Outcome.After

namespace Behaviour

variable {α : Type} {behaviour first second left right round last : Behaviour α} {element : α}
  {entry entry' : Option α}

theorem begins_skip : (skip : Behaviour α).Begins none := by
  intro word outcome h
  cases h
  exact ⟨rfl, rfl⟩

theorem begins_never (entry : Option α) : (never : Behaviour α).Begins entry :=
  fun _ _ => False.elim

theorem begins_emit (element : α) : (emit (.element element)).Begins (some element) := by
  intro word outcome h
  cases h with
  | cut => exact .inl ⟨rfl, rfl⟩
  | done => exact .inr ⟨[], rfl⟩

theorem Begins.either (hl : left.Begins entry) (hr : right.Begins entry) :
    (left.either right).Begins entry :=
  fun word outcome h => h.elim (hl word outcome) (hr word outcome)

theorem Begins.before (hf : first.Begins (some element)) (second : Behaviour α) :
    (first.andThen second).Begins (some element) := by
  intro word outcome h
  cases h with
  | abrupt h _ => exact hf _ _ h
  | both h _ => exact (hf _ _ h).append nofun _ _

theorem Begins.andThen (hf : first.Begins entry) (hs : second.Begins entry') :
    (first.andThen second).Begins (entry.or entry') := by
  cases entry with
  | some element => exact hf.before second
  | none =>
    intro word outcome h
    cases h with
    | abrupt h ho => exact (ho (hf _ _ h).2).elim
    | both h h' =>
      obtain ⟨rfl, -⟩ := hf _ _ h
      exact hs _ _ h'

theorem begins_test (element : α) (taken : Bool) : (test element taken).Begins (some element) :=
  (begins_emit element).before _

theorem Begins.rescuedBy (hf : first.Begins entry) (hs : second.Begins entry') :
    (first.rescuedBy second).Begins (entry.or entry') := by
  intro word outcome h
  cases entry with
  | some element =>
    cases h with
    | abrupt h => exact hf _ _ h
    | normal h _ => exact (hf _ _ h).append nofun _ _
    | thrown h _ => exact (hf _ _ h).append nofun _ _
  | none =>
    cases h with
    | abrupt h hn => exact (hn (hf _ _ h).2).elim
    | normal h h' =>
      obtain ⟨rfl, -⟩ := hf _ _ h
      exact hs _ _ h'
    | thrown h _ => cases (hf _ _ h).2

theorem Begins.repeated (hr : round.Begins (some element)) (hl : last.Begins (some element)) :
    (round.repeated last).Begins (some element) := by
  intro word outcome h
  cases h with
  | last h => exact hl _ _ h
  | abrupt h => exact hr _ _ h
  | again h _ => exact (hr _ _ h).append nofun _ _

theorem Begins.resume (h : behaviour.Begins entry) (enclosing : Enclosing) :
    (behaviour.through enclosing.resume).Begins entry := by
  intro word outcome hr
  cases hr with
  | intro hr => exact (h _ _ hr).see rfl rfl

theorem Begins.leave (h : behaviour.Begins entry) (enclosing : Enclosing) :
    (behaviour.through enclosing.leave).Begins entry := by
  intro word outcome hr
  cases hr with
  | intro hr => exact (h _ _ hr).see rfl rfl

/-- The rounds of a loop begin with its guard. -/
theorem Begins.rounds {enter exit : Behaviour α} (he : enter.Begins (some element))
    (hx : exit.Begins (some element)) (enclosing : Enclosing) (body update : Behaviour α) :
    (rounds enclosing enter exit body update).Begins (some element) :=
  (he.before _).repeated hx

end Behaviour

/-- A loop that begins with another node than its first one in source order: a loop over a subject
begins with the subject, and a `for` without a test with its initialiser. -/
def Stmt.entersAside : Stmt → Bool
  | .forEach .. | .forStmt _ (some _) none _ _ => true
  | _ => false

def Element.entersAside (element : Element) : Bool :=
  match element.node with
  | .statement stmt => stmt.entersAside
  | .expression _ => false

/-- Where a part of a body begins, given its nodes and what it evaluates. -/
structure Element.Enters (entry : Option Element) (nodes evaluated : List Element) : Prop where
  empty : entry = none → evaluated = []
  head : (∀ element ∈ nodes, element.entersAside = false) → entry = evaluated.head?

namespace Element.Enters

variable {entry entry' : Option Element} {element : Element}
  {nodes nodes' evaluated evaluated' : List Element}

theorem nil : Enters none nodes [] :=
  ⟨fun _ => rfl, fun _ => rfl⟩

theorem cons (element : Element) (evaluated : List Element) :
    Enters (some element) nodes (element :: evaluated) :=
  ⟨nofun, fun _ => rfl⟩

theorem mono (h : Enters entry nodes evaluated) (hs : nodes ⊆ nodes') :
    Enters entry nodes' evaluated :=
  ⟨h.empty, fun hn => h.head fun element hm => hn element (hs hm)⟩

theorem append (h : Enters entry nodes evaluated) (h' : Enters entry' nodes' evaluated') :
    Enters (entry.or entry') (nodes ++ nodes') (evaluated ++ evaluated') := by
  constructor
  · intro he
    obtain ⟨he, he'⟩ := Option.or_eq_none_iff.1 he
    rw [h.empty he, h'.empty he', List.append_nil]
  · intro hn
    obtain ⟨hnodes, hnodes'⟩ := List.forall_mem_append.1 hn
    rw [List.head?_append, h.head hnodes, h'.head hnodes']

end Element.Enters

/-- All runs of a statement begin where the statement is entered. -/
def Stmt.Begins (stmt : Stmt) : Prop :=
  ∀ pos, ∃ entry,
    Element.Enters entry (Event.elements (stmt.walk .shallow pos)) (stmt.evaluated pos) ∧
      ∀ options known labels, (stmt.runs options known labels pos).Begins entry

theorem Stmt.runsAll_begin {stmts : List Stmt} (h : ∀ stmt ∈ stmts, Stmt.Begins stmt) (pos : Nat) :
    ∃ entry,
      Element.Enters entry (Event.elements (walks .shallow pos stmts)) (evaluatedIn pos stmts) ∧
        ∀ options known, (runsAll options known pos stmts).Begins entry := by
  induction stmts generalizing pos with
  | nil => exact ⟨none, .nil, fun _ _ => begins_skip⟩
  | cons stmt stmts ih =>
    obtain ⟨hstmt, hstmts⟩ := List.forall_mem_cons.1 h
    obtain ⟨entry, henters, hbegins⟩ := hstmt pos
    obtain ⟨entry', henters', hbegins'⟩ := ih hstmts (pos + stmt.size)
    rw [walks, evaluatedIn, Event.elements_append]
    exact ⟨entry.or entry', henters.append henters',
      fun options known => (hbegins options known []).andThen (hbegins' options known)⟩

theorem Stmt.Begins.option {init : Option Stmt} (h : ∀ stmt ∈ init, Stmt.Begins stmt) (pos : Nat) :
    ∃ entry,
      Element.Enters entry (Event.elements (Stmt.optionWalk .shallow pos init))
        (init.elim [] (·.evaluated pos)) ∧
      ∀ options known, Behaviour.Begins (init.elim skip (·.runs options known [] pos)) entry := by
  cases init with
  | none => exact ⟨none, .nil, fun _ _ => begins_skip⟩
  | some init =>
    obtain ⟨entry, henters, hbegins⟩ := h init rfl pos
    exact ⟨entry, henters, fun options known => hbegins options known []⟩

theorem Rescue.guarding_begins {rescue : Option Rescue}
    (h : ∀ part ∈ rescue, ∀ stmt ∈ Rescue.stmts part, Stmt.Begins stmt) :
    ∃ entry, Element.Enters entry
        (rescue.elim [] fun part => Event.elements (Stmt.walks .shallow part.position part.stmts))
        (rescue.elim [] Rescue.evaluated) ∧
      ∀ options known behaviour first, Behaviour.Begins behaviour first →
        (Rescue.guarding options known rescue behaviour).Begins (first.or entry) := by
  cases rescue with
  | none => exact ⟨none, .nil, fun _ _ _ first hb => by rwa [Option.or_none]⟩
  | some rescue =>
    obtain ⟨parameter, position, stmts⟩ := rescue
    obtain ⟨entry, henters, hbegins⟩ := Stmt.runsAll_begin (h _ rfl) position
    cases parameter with
    | none =>
      exact ⟨entry, henters, fun options known _ _ hb => hb.rescuedBy (hbegins options known)⟩
    | some parameter =>
      exact ⟨some parameter, .cons .., fun options known _ _ hb =>
        hb.rescuedBy ((begins_emit parameter).before _)⟩

theorem Stmt.begins (stmt : Stmt) : stmt.Begins := by
  induction stmt using Stmt.induction with
  | expression | declaration | function | debugger =>
    exact fun pos => ⟨_, .cons .., fun _ _ _ => begins_emit _⟩
  | jump | returnStmt | throwStmt =>
    exact fun pos => ⟨_, .cons .., fun _ _ _ => (begins_emit _).before _⟩
  | empty => exact fun pos => ⟨none, .nil, fun _ _ _ => begins_skip⟩
  | withStmt => exact fun pos => ⟨none, .nil, fun _ _ _ => begins_never _⟩
  | ifStmt range test body orElse ihBody ihElse =>
    intro pos
    refine ⟨some ⟨pos + 1, .expression test⟩, ?_, fun options known labels => ?_⟩
    · rw [evaluated_ifStmt]
      exact .cons ..
    · rw [runs_ifStmt]
      exact ((begins_test _ _).before _).either ((begins_test _ _).before _)
  | whileStmt range test body ih =>
    exact fun pos => ⟨_, .cons .., fun options known labels =>
      ((begins_test _ true).rounds (begins_test _ false) _ _ _).leave _⟩
  | doStmt range body test ih =>
    intro pos
    obtain ⟨entry, henters, hbegins⟩ := ih (pos + 1)
    let head : Element := ⟨pos + 1 + body.size, .expression test⟩
    refine ⟨entry.or (some head), ?_, fun options known labels => ?_⟩
    · have hhead : Element.Enters (some head) [] [head] := .cons ..
      apply (henters.append hhead).mono
      simp [walk]
    · exact (((hbegins _ _ _).resume _).andThen
        ((begins_test head true).rounds (begins_test head false) _ _ _)).leave _
  | forStmt range init test update body ihInit ih =>
    intro pos
    obtain ⟨entry, henters, hbegins⟩ := Stmt.Begins.option ihInit (pos + 1)
    let stmt := forStmt range init test update body
    refine ⟨entry.or (some (forHead pos (pos + 1 + optionSize init) stmt test)), ?_,
      fun options known labels => ?_⟩
    · rw [evaluated_forStmt]
      cases test with
      | none =>
        refine ⟨by simp, fun hn => ?_⟩
        have hself := hn ⟨pos, .statement stmt⟩ ((Stmt.sublist_walk pos stmt).subset (by simp))
        cases init with
        | none => rw [henters.head (List.forall_mem_nil _)]; rfl
        | some init => cases hself
      | some test =>
        let head : Element := ⟨pos + 1 + optionSize init, .expression test⟩
        let bodyPos := pos + 1 + optionSize init + test.size
        have hhead : Element.Enters (some head) [] (head :: (body.evaluated bodyPos ++
          Expr.optionEvaluated (bodyPos + body.size) update)) := .cons ..
        have hboth := henters.append hhead
        simp only [List.append_assoc, Option.isNone_some, Bool.false_eq_true, if_false,
          List.nil_append]
        apply hboth.mono
        simp [walk]
    · rw [runs_forStmt]
      apply (hbegins options known).andThen
      cases test with
      | none => exact ((begins_emit _).rounds (begins_never _) _ _ _).leave _
      | some test => exact ((begins_test _ true).rounds (begins_test _ false) _ _ _).leave _
  | forEach range kind left right body ih =>
    exact fun pos => ⟨_, .cons .., fun options known labels => (begins_emit _).before _⟩
  | tryStmt range block handler finalizer ihBlock ihHandler ihFinalizer =>
    intro pos
    obtain ⟨entry, henters, hbegins⟩ := runsAll_begin ihBlock (pos + 1)
    obtain ⟨entry', henters', hcaught⟩ := Rescue.guarding_begins
      (Handler.forall_rescue ihHandler (pos + 1 + sizes block.body))
    obtain ⟨entry'', henters'', hfinal⟩ := Rescue.guarding_begins (Block.forall_rescue ihFinalizer
      (pos + 1 + sizes block.body + Handler.optionSize handler))
    refine ⟨(entry.or entry').or entry'', ?_, fun options known labels => ?_⟩
    · rw [evaluated_tryStmt]
      apply ((henters.append henters').append henters'').mono
      obtain ⟨_, stmts⟩ := block
      rw [walk, Event.elements_node, Event.elements_append, Event.elements_append]
      refine (List.Sublist.cons _ (.append (.append ?_ ?_) ?_)).subset
      · exact .refl _
      · rcases handler with _ | ⟨_, parameter, ⟨_, caught⟩⟩
        · exact .refl _
        · rw [Handler.optionWalk, Event.elements_handler, Event.elements_append]
          exact List.sublist_append_right ..
      · rcases finalizer with _ | ⟨_, final⟩ <;> exact .refl _
    · rw [runs_tryStmt]
      exact hfinal _ _ _ _ (hcaught _ _ _ _ (hbegins options known))
  | switchStmt range discriminant clauses ih =>
    exact fun pos => ⟨_, .cons .., fun options known labels => (begins_emit _).before _⟩
  | block range body ih =>
    intro pos
    obtain ⟨entry, henters, hbegins⟩ := runsAll_begin ih (pos + 1)
    refine ⟨entry, henters.mono ?_, fun options known labels => hbegins options known⟩
    simp [walk]
  | labeled range label body ih =>
    intro pos
    obtain ⟨entry, henters, hbegins⟩ := ih (pos + 1)
    refine ⟨entry, henters.mono ?_, fun options known labels => ?_⟩
    · simp [walk]
    · rw [runs]
      split
      · exact hbegins _ _ _
      · exact (hbegins _ _ _).leave _

end FlowLint
