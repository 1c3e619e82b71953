import FlowLint.Proofs.Flow.Runs

namespace FlowLint
set_option autoImplicit true

open Behaviour

namespace Enclosing

variable {kind : JumpKind} {label : Option String} {outcome : Outcome}

theorem eq_of_resume (enclosing : Enclosing) (h : enclosing.resume outcome = .jump kind label) :
    outcome = .jump kind label := by
  cases outcome with
  | normal | returned | thrown | interrupted => cases h
  | jump kind' label' =>
    cases kind' with
    | «break» => exact h
    | «continue» =>
      rw [resume] at h
      split at h
      · cases h
      · exact h

theorem eq_of_leave (enclosing : Enclosing) (h : enclosing.leave outcome = .jump kind label) :
    outcome = .jump kind label ∧ enclosing.catches kind label = false := by
  cases outcome with
  | normal | returned | thrown | interrupted => cases h
  | jump kind' label' =>
    cases kind' with
    | «break» =>
      rw [leave] at h
      split at h
      · cases h
      · next hc =>
        cases h
        exact ⟨rfl, by simpa using hc⟩
    | «continue» =>
      rw [leave] at h
      split at h
      · cases h
      · next hc =>
        cases h
        exact ⟨rfl, by simpa using hc⟩

end Enclosing

/-- Every jump out of a behaviour refers to one of the statements around. -/
def Behaviour.JumpsTo (around : List Enclosing) (behaviour : Behaviour α) : Prop :=
  ∀ word kind label, behaviour word (.jump kind label) →
    around.any (·.catches kind label) = true

namespace Behaviour

variable {around : List Enclosing} {behaviour first second left right round last enter exit body
  update : Behaviour Element}

theorem jumpsTo_skip : (skip : Behaviour Element).JumpsTo around := by
  intro word kind label h
  cases h

theorem jumpsTo_never : (never : Behaviour Element).JumpsTo around :=
  fun _ _ _ => False.elim

theorem jumpsTo_emit (letter : Letter Element) : (emit letter).JumpsTo around := by
  intro word kind label h
  cases h

theorem JumpsTo.either (hl : left.JumpsTo around) (hr : right.JumpsTo around) :
    (left.either right).JumpsTo around := by
  intro word kind label h
  rcases h with h | h
  · exact hl word kind label h
  · exact hr word kind label h

theorem JumpsTo.andThen (hf : first.JumpsTo around) (hs : second.JumpsTo around) :
    (first.andThen second).JumpsTo around := by
  intro word kind label h
  cases h with
  | abrupt h => exact hf _ kind label h
  | both _ h => exact hs _ kind label h

theorem jumpsTo_test (element : Element) (taken : Bool) : (test element taken).JumpsTo around :=
  (jumpsTo_emit _).andThen (jumpsTo_emit _)

theorem JumpsTo.rescuedBy (hf : first.JumpsTo around) (hs : second.JumpsTo around) :
    (first.rescuedBy second).JumpsTo around := by
  intro word kind label h
  cases h with
  | abrupt h => exact hf _ kind label h
  | normal _ h => exact hs _ kind label h
  | thrown _ h => exact hs _ kind label h

theorem JumpsTo.repeated (hr : round.JumpsTo around) (hl : last.JumpsTo around) :
    (round.repeated last).JumpsTo around := by
  intro word kind label h
  generalize ho : Outcome.jump kind label = outcome at h
  induction h with
  | last h => exact hl _ kind label (ho ▸ h)
  | abrupt h => exact hr _ kind label (ho ▸ h)
  | again _ _ ih => exact ih ho

theorem JumpsTo.resume (h : behaviour.JumpsTo around) (enclosing : Enclosing) :
    (behaviour.through enclosing.resume).JumpsTo around := by
  intro word kind label hj
  generalize ho : Outcome.jump kind label = outcome at hj
  cases hj with
  | intro hb =>
    cases enclosing.eq_of_resume ho.symm
    exact h word kind label hb

/-- A statement lets only those jumps out that do not refer to it. -/
theorem JumpsTo.leave {enclosing : Enclosing} (h : behaviour.JumpsTo (enclosing :: around)) :
    (behaviour.through enclosing.leave).JumpsTo around := by
  intro word kind label hj
  generalize ho : Outcome.jump kind label = outcome at hj
  cases hj with
  | intro hb =>
    obtain ⟨rfl, hc⟩ := enclosing.eq_of_leave ho.symm
    have ha := h word kind label hb
    rwa [List.any_cons, hc, Bool.false_or] at ha

theorem JumpsTo.rounds {enclosing : Enclosing} (he : enter.JumpsTo around)
    (hx : exit.JumpsTo around) (hb : body.JumpsTo around) (hu : update.JumpsTo around) :
    (Behaviour.rounds enclosing enter exit body update).JumpsTo around :=
  (he.andThen ((hb.resume enclosing).andThen hu)).repeated hx

end Behaviour

theorem JumpKind.any_catches {options : FlowOptions} {around : List Enclosing} {kind : JumpKind}
    {label : Option String} (h : kind.offence? options around range label = none) :
    around.any (·.catches kind (options.labelOf (Enclosing.known around) label)) = true := by
  have hunlabeled : (if around.any (·.stops kind) then none
      else some (FlowError.unresolvedJump kind range)) = none →
      around.any (·.catches kind none) = true := by
    intro hn
    split at hn
    · next ha => exact ha
    · cases hn
  cases label with
  | none =>
    rw [FlowOptions.labelOf_none]
    exact hunlabeled h
  | some label =>
    have hk := Enclosing.contains_known around label
    cases hl : around.find? (·.labels.contains label) with
    | some enclosing =>
      rw [hl] at hk
      rw [FlowOptions.labelOf_known hk, List.any_eq_true]
      have hc := List.find?_some hl
      exact ⟨enclosing, List.mem_of_find?_eq_some hl, hc⟩
    | none =>
      rw [hl] at hk
      cases ho : options.unresolvedLabel with
      | error =>
        simp only [offence?, hl, ho] at h
        cases h
      | innermost =>
        rw [FlowOptions.labelOf_unknown ho hk]
        simp only [offence?, hl, ho] at h
        exact hunlabeled h

section Statements

variable {options : FlowOptions} {around : List Enclosing} {stmts : List Stmt}

/-- Where nothing is wrong with a statement, its jumps refer to the statements around. -/
def Stmt.Resolves (stmt : Stmt) : Prop :=
  ∀ (options : FlowOptions) (around : List Enclosing) (labels : List String) (pos : Nat),
    stmt.offences options around labels = [] →
    (stmt.runs options (Enclosing.known around) labels pos).JumpsTo around

theorem Stmt.runsAll_jumpsTo (hr : ∀ stmt ∈ stmts, Stmt.Resolves stmt)
    (h : Stmt.offencesIn options around stmts = []) (pos : Nat) :
    (Stmt.runsAll options (Enclosing.known around) pos stmts).JumpsTo around := by
  induction stmts generalizing pos with
  | nil => exact jumpsTo_skip
  | cons stmt stmts ih =>
    obtain ⟨hs, hrest⟩ := List.append_eq_nil_iff.1 h
    exact (hr stmt (List.mem_cons_self ..) _ _ _ _ hs).andThen
      (ih (fun stmt hm => hr stmt (List.mem_cons_of_mem _ hm)) hrest _)

namespace Clause

variable {clauses : List Clause}

theorem runsFrom_jumpsTo (hr : ∀ clause ∈ clauses, ∀ stmt ∈ Clause.body clause, Stmt.Resolves stmt)
    (h : Clause.offences options around clauses = []) (pos : Nat) :
    (Clause.runsFrom options (Enclosing.known around) pos clauses).JumpsTo around := by
  induction clauses generalizing pos with
  | nil => exact jumpsTo_skip
  | cons clause clauses ih =>
    obtain ⟨range, condition, body⟩ := clause
    obtain ⟨hb, hrest⟩ := List.append_eq_nil_iff.1 h
    exact (Stmt.runsAll_jumpsTo (hr _ (List.mem_cons_self ..)) hb _).andThen
      (ih (fun clause hm => hr clause (List.mem_cons_of_mem _ hm)) hrest _)

theorem runsDefault_jumpsTo
    (hr : ∀ clause ∈ clauses, ∀ stmt ∈ Clause.body clause, Stmt.Resolves stmt)
    (h : Clause.offences options around clauses = []) (pos : Nat) :
    (Clause.runsDefault options (Enclosing.known around) pos clauses).JumpsTo around := by
  induction clauses generalizing pos with
  | nil => exact jumpsTo_skip
  | cons clause clauses ih =>
    obtain ⟨range, condition, body⟩ := clause
    cases condition with
    | none => exact runsFrom_jumpsTo hr h pos
    | some condition =>
      exact ih (fun clause hm => hr clause (List.mem_cons_of_mem _ hm))
        (List.append_eq_nil_iff.1 h).2 _

theorem selects_jumpsTo (hr : ∀ clause ∈ clauses, ∀ stmt ∈ Clause.body clause, Stmt.Resolves stmt)
    (h : Clause.offences options around clauses = []) (ho : Behaviour.JumpsTo around other)
    (pos : Nat) :
    (Clause.selects options (Enclosing.known around) other pos clauses).JumpsTo around := by
  induction clauses generalizing pos with
  | nil => exact ho
  | cons clause clauses ih =>
    have hfrom := runsFrom_jumpsTo hr h pos
    obtain ⟨range, condition, body⟩ := clause
    have hrest := ih (fun clause hm => hr clause (List.mem_cons_of_mem _ hm))
      (List.append_eq_nil_iff.1 h).2
    cases condition with
    | none => exact hrest _
    | some condition =>
      exact ((jumpsTo_test _ _).andThen hfrom).either ((jumpsTo_test _ _).andThen (hrest _))

end Clause

theorem Rescue.guarding_jumpsTo {rescue : Option Rescue} {behaviour : Behaviour Element}
    (hr : ∀ part ∈ rescue, ∀ stmt ∈ Rescue.stmts part, Stmt.Resolves stmt)
    (h : rescue.elim [] (Stmt.offencesIn options around ·.stmts) = [])
    (hb : behaviour.JumpsTo around) :
    (Rescue.guarding options (Enclosing.known around) rescue behaviour).JumpsTo around := by
  cases rescue with
  | none => exact hb
  | some rescue =>
    obtain ⟨parameter, position, stmts⟩ := rescue
    have hs := Stmt.runsAll_jumpsTo (hr _ rfl) h position
    cases parameter with
    | none => exact hb.rescuedBy hs
    | some parameter => exact hb.rescuedBy ((jumpsTo_emit _).andThen hs)

theorem Stmt.resolves (stmt : Stmt) : stmt.Resolves := by
  induction stmt using Stmt.induction with
  | expression | declaration | function | debugger =>
    intro options around labels pos h
    rw [Stmt.runs]
    exact jumpsTo_emit _
  | empty =>
    intro options around labels pos h
    rw [Stmt.runs]
    exact jumpsTo_skip
  | withStmt =>
    intro options around labels pos h
    rw [Stmt.runs]
    exact jumpsTo_never
  | returnStmt | throwStmt =>
    intro options around labels pos h
    rw [Stmt.runs]
    exact (jumpsTo_emit _).andThen nofun
  | jump range kind label =>
    intro options around labels pos h
    rw [Stmt.offences, Option.toList_eq_nil_iff] at h
    rw [Stmt.runs]
    refine (jumpsTo_emit _).andThen fun word kind' label' hj => ?_
    cases hj
    exact JumpKind.any_catches h
  | ifStmt range condition body orElse ihBody ihElse =>
    intro options around labels pos h
    rw [Stmt.offences_ifStmt, List.append_eq_nil_iff] at h
    rw [Stmt.runs_ifStmt]
    refine ((jumpsTo_test _ _).andThen (ihBody _ _ _ _ h.1)).either ((jumpsTo_test _ _).andThen ?_)
    cases orElse with
    | none => exact jumpsTo_skip
    | some orElse => exact ihElse orElse rfl _ _ _ _ h.2
  | whileStmt range condition body ih =>
    intro options around labels pos h
    rw [Stmt.offences] at h
    rw [Stmt.runs]
    exact ((jumpsTo_test _ _).rounds (jumpsTo_test _ _) (ih _ _ _ _ h) jumpsTo_skip).leave
  | doStmt range body condition ih =>
    intro options around labels pos h
    rw [Stmt.offences] at h
    rw [Stmt.runs]
    have hb := ih _ _ _ (pos + 1) h
    exact ((hb.resume _).andThen
      ((jumpsTo_test _ _).rounds (jumpsTo_test _ _) hb jumpsTo_skip)).leave
  | forStmt range init condition update body ihInit ih =>
    intro options around labels pos h
    rw [Stmt.offences_forStmt, List.append_eq_nil_iff] at h
    rw [Stmt.runs_forStmt]
    refine JumpsTo.andThen ?_ (JumpsTo.rounds ?_ ?_ (ih _ _ _ _ h.2) ?_).leave
    · cases init with
      | none => exact jumpsTo_skip
      | some init => exact ihInit init rfl _ _ _ _ h.1
    · cases condition with
      | none => exact jumpsTo_emit _
      | some condition => exact jumpsTo_test _ _
    · cases condition with
      | none => exact jumpsTo_never
      | some condition => exact jumpsTo_test _ _
    · cases update with
      | none => exact jumpsTo_skip
      | some update => exact jumpsTo_emit _
  | forEach range kind left right body ih =>
    intro options around labels pos h
    rw [Stmt.offences] at h
    rw [Stmt.runs]
    exact (jumpsTo_emit _).andThen
      ((jumpsTo_test _ _).rounds (jumpsTo_test _ _) (ih _ _ _ _ h) jumpsTo_skip).leave
  | tryStmt range block handler finalizer ihBlock ihHandler ihFinalizer =>
    intro options around labels pos h
    rw [Stmt.offences_tryStmt, List.append_eq_nil_iff, List.append_eq_nil_iff] at h
    rw [Stmt.runs_tryStmt]
    refine Rescue.guarding_jumpsTo (Block.forall_rescue ihFinalizer _) ?_
      (Rescue.guarding_jumpsTo (Handler.forall_rescue ihHandler _) ?_
        (Stmt.runsAll_jumpsTo ihBlock h.1.1 _))
    · rw [Option.elim_map]
      exact h.2
    · rw [Option.elim_map]
      exact h.1.2
  | switchStmt range discriminant clauses ih =>
    intro options around labels pos h
    rw [Stmt.offences] at h
    rw [Stmt.runs]
    exact (jumpsTo_emit _).andThen
      (Clause.selects_jumpsTo ih h (Clause.runsDefault_jumpsTo ih h _) _).leave
  | block range body ih =>
    intro options around labels pos h
    rw [Stmt.offences] at h
    rw [Stmt.runs]
    exact Stmt.runsAll_jumpsTo ih h _
  | labeled range label body ih =>
    intro options around labels pos h
    rw [Stmt.offences] at h
    rw [Stmt.runs]
    split at h
    · next ht =>
      simp only [ht, if_true]
      exact ih _ _ _ _ h
    · next ht =>
      simp only [ht, Bool.false_eq_true, if_false]
      exact (ih _ _ _ _ h).leave

end Statements

/-- No run of a body ends with a jump if nothing is wrong with the body. -/
theorem Body.not_runs_jump {options : FlowOptions} {body : Body} (h : body.offences options = [])
    (word : List (Letter Element)) (kind : JumpKind) (label : Option String) :
    ¬ body.runs options word (.jump kind label) := by
  intro hr
  cases Stmt.runsAll_jumpsTo (fun stmt _ => stmt.resolves) h body.position word kind label hr

end FlowLint
