import FlowLint.Proofs.Tree.Positions
import Mathlib.Data.List.Forall2

namespace FlowLint
set_option autoImplicit true

inductive Site
  | body (stmts : List Stmt)
  | statement (stmt : Stmt)
  | expression (expr : Expr)
  | handler (handler : Handler)
  | clause (clause : Clause)

def Expr.fields : Expr → List (List Site)
  | .name .. | .number .. | .string .. | .boolean .. | .null .. => []
  | .array _ elements | .sequence _ elements => [elements.map .expression]
  | .call _ callee arguments | .new _ callee arguments =>
    [[.expression callee], arguments.map .expression]
  | .member _ object _ => [[.expression object]]
  | .subscript _ object index => [[.expression object], [.expression index]]
  | .unary _ _ operand => [[.expression operand]]
  | .update _ _ _ target => [[.expression target]]
  | .binary _ _ left right => [[.expression left], [.expression right]]
  | .assign _ _ target value => [[.expression target], [.expression value]]
  | .conditional _ test whenTrue whenFalse =>
    [[.expression test], [.expression whenTrue], [.expression whenFalse]]
  | .function _ _ _ body => [[.body body]]

def Stmt.fields : Stmt → List (List Site)
  | .expression _ value => [[.expression value]]
  | .declaration _ _ declarators =>
    [declarators.flatMap fun ⟨_, _, init⟩ => init.toList.map .expression]
  | .function _ _ _ body => [[.body body]]
  | .ifStmt _ test body orElse =>
    [[.expression test], [.statement body], orElse.toList.map .statement]
  | .whileStmt _ test body => [[.expression test], [.statement body]]
  | .doStmt _ body test => [[.statement body], [.expression test]]
  | .forStmt _ init test update body =>
    [init.toList.map .statement, test.toList.map .expression, update.toList.map .expression,
      [.statement body]]
  | .forEach _ _ left right body => [[.statement left], [.expression right], [.statement body]]
  | .returnStmt _ value => [value.toList.map .expression]
  | .throwStmt _ value => [[.expression value]]
  | .tryStmt _ tried handler finalizer =>
    [[.body tried.body], handler.toList.map .handler, finalizer.toList.map (.body ·.body)]
  | .switchStmt _ discriminant clauses => [[.expression discriminant], clauses.map .clause]
  | .block _ body => [[.body body]]
  | .labeled _ _ body => [[.statement body]]
  | .withStmt _ object body => [[.expression object], [.statement body]]
  | .jump .. | .empty _ | .debugger _ => []

namespace Site

/-- The sites directly inside a site, by the fields that hold them. -/
def fields : Site → List (List Site)
  | body stmts => [stmts.map .statement]
  | statement stmt => stmt.fields
  | expression expr => expr.fields
  | handler ⟨_, parameter, block⟩ => [parameter.toList.map .expression, [.body block.body]]
  | clause ⟨_, test, stmts⟩ => [test.toList.map .expression, [.body stmts]]

def Logs : Site → Event → Prop
  | body stmts, .body stmts' => stmts' = stmts
  | statement stmt, .node element => element.node = .statement stmt
  | expression expr, .node element => element.node = .expression expr
  | handler ⟨range, _, _⟩, .handler range' => range' = range
  | clause ⟨range, test, _⟩, .clause range' isDefault => range' = range ∧ isDefault = test.isNone
  | _, _ => False

/-- The way down to a site: the number of a field, and of a site in that field, again and again. -/
abbrev Path :=
  List (Nat × Nat)

inductive At : Site → Path → Site → Prop
  | here : At site [] site
  | inside {site child target : Site} {path : Path} (hf : site.fields[k]? = some field)
      (hi : field[i]? = some child) (h : At child path target) : At site ((k, i) :: path) target

end Site

open Site (Path)

/-- Events are the visits of the sites at some paths, in the order of a list of these paths. Each path
is in it once, and those through a site follow that of the site itself, before any others. -/
structure Enumerates (P : Path → Site → Prop) (paths : List Path) (events : List Event) : Prop where
  nodup : paths.Nodup
  complete : ∀ path, path ∈ paths ↔ ∃ site, P path site
  logs : List.Forall₂ (fun path event => ∃ site, P path site ∧ site.Logs event) paths events
  together : ∀ before path after, paths = before ++ path :: after →
    ∃ inside rest, after = inside ++ rest ∧ (∀ other ∈ inside, path <+: other) ∧
      ∀ other ∈ before ++ rest, ¬ path <+: other

namespace Enumerates

variable {P Q : Path → Site → Prop} {paths paths' : List Path} {events events' : List Event}

theorem congr (h : Enumerates P paths events) (hp : ∀ path site, P path site ↔ Q path site) :
    Enumerates Q paths events := by
  obtain rfl : P = Q := funext₂ fun path site => propext (hp path site)
  exact h

theorem empty : Enumerates (fun _ _ => False) [] [] where
  nodup := .nil
  complete := by simp
  logs := .nil
  together := by simp

protected theorem append (h : Enumerates P paths events) (h' : Enumerates Q paths' events')
    (ha : ∀ path site path' site', P path site → Q path' site' →
      ¬ path <+: path' ∧ ¬ path' <+: path) :
    Enumerates (fun path site => P path site ∨ Q path site) (paths ++ paths')
      (events ++ events') := by
  have hapart (path) (hp : path ∈ paths) (path') (hp' : path' ∈ paths') :
      ¬ path <+: path' ∧ ¬ path' <+: path := by
    obtain ⟨site, hs⟩ := (h.complete path).1 hp
    obtain ⟨site', hs'⟩ := (h'.complete path').1 hp'
    exact ha path site path' site' hs hs'
  refine ⟨?_, fun path => ?_, ?_, fun before path after he => ?_⟩
  · refine List.nodup_append'.2 ⟨h.nodup, h'.nodup, fun path hp hp' => ?_⟩
    exact (hapart path hp path hp').1 List.prefix_rfl
  · rw [List.mem_append, h.complete, h'.complete]
    exact exists_or.symm
  · exact List.rel_append (h.logs.imp fun _ _ ⟨site, hs, hl⟩ => ⟨site, .inl hs, hl⟩)
      (h'.logs.imp fun _ _ ⟨site, hs, hl⟩ => ⟨site, .inr hs, hl⟩)
  · -- The path is one of the second list, or one of the first.
    have hcases : (∃ front, before = paths ++ front ∧ paths' = front ++ path :: after) ∨
        ∃ back, paths = before ++ path :: back ∧ after = back ++ paths' := by
      rcases List.append_eq_append_iff.1 he with ⟨front, hb, hp⟩ | ⟨_ | ⟨_, back⟩, hb, hp⟩
      · exact .inl ⟨front, hb, hp⟩
      · exact .inl ⟨[], by simpa using hb.symm, hp.symm⟩
      · obtain ⟨rfl, rfl⟩ := List.cons.inj hp
        exact .inr ⟨back, hb, rfl⟩
    rcases hcases with ⟨front, rfl, hp⟩ | ⟨back, hp, rfl⟩
    · obtain ⟨inside, rest, rfl, hin, hout⟩ := h'.together front path after hp
      refine ⟨inside, rest, rfl, hin, fun other ho => ?_⟩
      rw [List.append_assoc, List.mem_append] at ho
      rcases ho with ho | ho
      · exact (hapart other ho path (by simp [hp])).2
      · exact hout other ho
    · obtain ⟨inside, rest, rfl, hin, hout⟩ := h.together before path back hp
      refine ⟨inside, rest ++ paths', List.append_assoc .., hin, fun other ho => ?_⟩
      rw [← List.append_assoc, List.mem_append] at ho
      rcases ho with ho | ho
      · exact hout other ho
      · exact (hapart path (by simp [hp]) other ho).1

theorem under (h : Enumerates P paths events) (step : Nat × Nat) :
    Enumerates (fun path site => ∃ rest, path = step :: rest ∧ P rest site)
      (paths.map (step :: ·)) events where
  nodup := h.nodup.map (List.cons_injective)
  complete path := by
    rw [List.mem_map]
    constructor
    · rintro ⟨rest, hm, rfl⟩
      obtain ⟨site, hs⟩ := (h.complete rest).1 hm
      exact ⟨site, rest, rfl, hs⟩
    · rintro ⟨site, rest, rfl, hs⟩
      exact ⟨rest, (h.complete rest).2 ⟨site, hs⟩, rfl⟩
  logs := by
    rw [List.forall₂_map_left_iff]
    exact h.logs.imp fun path _ ⟨site, hs, hl⟩ => ⟨site, ⟨path, rfl, hs⟩, hl⟩
  together before path after he := by
    obtain ⟨before, tail, rfl, rfl, htail⟩ := List.map_eq_append_iff.1 he
    obtain ⟨path, after, rfl, rfl, rfl⟩ := List.map_eq_cons_iff.1 htail
    obtain ⟨inside, rest, rfl, hin, hout⟩ := h.together before path after rfl
    refine ⟨inside.map (step :: ·), rest.map (step :: ·), List.map_append .., ?_, ?_⟩
    · exact List.forall_mem_map.2 fun other ho => List.cons_prefix_cons.2 ⟨rfl, hin other ho⟩
    · rw [← List.map_append]
      exact List.forall_mem_map.2 fun other ho hp => hout other ho (List.cons_prefix_cons.1 hp).2

/-- A site is visited before what is inside. -/
theorem root (h : Enumerates P paths events) (hp : ∀ path site, P path site → path ≠ [])
    {site : Site} (hl : site.Logs event) :
    Enumerates (fun path target => path = [] ∧ target = site ∨ P path target) ([] :: paths)
      (event :: events) := by
  have hne (path) (hm : path ∈ paths) : path ≠ [] := by
    obtain ⟨target, ht⟩ := (h.complete path).1 hm
    exact hp path target ht
  refine ⟨?_, fun path => ?_, ?_, fun before path after he => ?_⟩
  · exact List.nodup_cons.2 ⟨fun hm => hne _ hm rfl, h.nodup⟩
  · rw [List.mem_cons, h.complete, exists_or]
    simp
  · exact .cons ⟨site, .inl ⟨rfl, rfl⟩, hl⟩ (h.logs.imp fun _ _ ⟨target, ht, hl⟩ =>
      ⟨target, .inr ht, hl⟩)
  · cases before with
    | nil =>
      obtain ⟨rfl, rfl⟩ := List.cons.inj he
      exact ⟨paths, [], (List.append_nil _).symm, fun _ _ => List.nil_prefix, nofun⟩
    | cons first before =>
      obtain ⟨rfl, hpaths⟩ := List.cons.inj he
      obtain ⟨inside, rest, rfl, hin, hout⟩ := h.together before path after hpaths
      refine ⟨inside, rest, rfl, hin, List.forall_mem_cons.2 ⟨fun hnil => ?_, hout⟩⟩
      exact hne path (by simp [hpaths]) (List.prefix_nil.1 hnil)

end Enumerates

namespace Site

/-- A path leads through a field, whose sites are counted from `start` on. -/
def Through (k start : Nat) (field : List Site) (path : Path) (target : Site) : Prop :=
  ∃ i child rest, field[i]? = some child ∧ path = (k, start + i) :: rest ∧ At child rest target

def Among (fields : List (List Site)) (order : List Nat) (path : Path) (target : Site) : Prop :=
  ∃ k ∈ order, ∃ field, fields[k]? = some field ∧ Through k 0 field path target

theorem at_iff {site target : Site} {path : Path} : At site path target ↔
    path = [] ∧ target = site ∨ Among site.fields (List.range site.fields.length) path target := by
  constructor
  · rintro (_ | ⟨hf, hi, h⟩)
    · exact .inl ⟨rfl, rfl⟩
    · refine .inr ⟨_, List.mem_range.2 (List.getElem?_eq_some_iff.1 hf).1, _, hf, _, _, _, hi, ?_, h⟩
      rw [Nat.zero_add]
  · rintro (⟨rfl, rfl⟩ | ⟨k, -, field, hf, i, child, rest, hi, rfl, h⟩)
    · exact .here
    · rw [Nat.zero_add]
      exact .inside hf hi h

end Site

open Site (At Through Among)

/-- Events are the visits of a site and of all sites inside. -/
def Site.Toured (site : Site) (events : List Event) : Prop :=
  ∃ paths, Enumerates (At site) paths events

def RowToured (k start : Nat) (field : List Site) (events : List Event) : Prop :=
  ∃ paths, Enumerates (Through k start field) paths events

def FieldsToured (fields : List (List Site)) (order : List Nat) (events : List Event) : Prop :=
  ∃ paths, Enumerates (Among fields order) paths events

namespace RowToured

variable {site : Site} {field field' : List Site} {events events' : List Event}

theorem nil : RowToured k start [] [] :=
  ⟨[], Enumerates.empty.congr fun path target => by simp [Through]⟩

theorem single (h : site.Toured events) : RowToured k start [site] events := by
  obtain ⟨paths, h⟩ := h
  refine ⟨_, (h.under (k, start)).congr fun path target => ?_⟩
  constructor
  · rintro ⟨rest, rfl, ht⟩
    exact ⟨0, site, rest, rfl, rfl, ht⟩
  · rintro ⟨i, child, rest, hi, rfl, ht⟩
    obtain ⟨rfl, rfl⟩ : i = 0 ∧ child = site := by
      cases i with
      | zero => exact ⟨rfl, (Option.some.inj hi).symm⟩
      | succ i => cases hi
    exact ⟨rest, rfl, ht⟩

protected theorem append (h : RowToured k start field events)
    (h' : RowToured k (start + field.length) field' events') :
    RowToured k start (field ++ field') (events ++ events') := by
  obtain ⟨paths, h⟩ := h
  obtain ⟨paths', h'⟩ := h'
  refine ⟨_, (h.append h' ?_).congr fun path target => ?_⟩
  · rintro _ _ _ _ ⟨i, child, rest, hi, rfl, -⟩ ⟨i', child', rest', hi', rfl, -⟩
    have hlt := (List.getElem?_eq_some_iff.1 hi).1
    constructor <;> intro hp <;> have := (List.cons_prefix_cons.1 hp).1 <;> grind
  · constructor
    · rintro (⟨i, child, rest, hi, rfl, ht⟩ | ⟨i, child, rest, hi, rfl, ht⟩)
      · have hlt := (List.getElem?_eq_some_iff.1 hi).1
        exact ⟨i, child, rest, by rwa [List.getElem?_append_left hlt], rfl, ht⟩
      · refine ⟨field.length + i, child, rest, ?_, by rw [Nat.add_assoc], ht⟩
        rwa [List.getElem?_append_right (Nat.le_add_right ..), Nat.add_sub_cancel_left]
    · rintro ⟨i, child, rest, hi, rfl, ht⟩
      by_cases hlt : i < field.length
      · rw [List.getElem?_append_left hlt] at hi
        exact .inl ⟨i, child, rest, hi, rfl, ht⟩
      · rw [List.getElem?_append_right (Nat.le_of_not_lt hlt)] at hi
        refine .inr ⟨i - field.length, child, rest, hi, ?_, ht⟩
        rw [Nat.add_assoc, Nat.add_sub_cancel' (Nat.le_of_not_lt hlt)]

theorem cons (h : site.Toured events) (h' : RowToured k (start + 1) field events') :
    RowToured k start (site :: field) (events ++ events') :=
  .append (.single h) h'

end RowToured

namespace FieldsToured

variable {fields : List (List Site)} {order : List Nat} {field : List Site}
  {events events' : List Event}

theorem none : FieldsToured fields [] [] :=
  ⟨[], Enumerates.empty.congr fun path target => by simp [Among]⟩

theorem one (hf : fields[k]? = some field) (h : RowToured k 0 field events) :
    FieldsToured fields [k] events := by
  obtain ⟨paths, h⟩ := h
  refine ⟨paths, h.congr fun path target => ?_⟩
  simp [Among, hf]

theorem more (h : FieldsToured fields order events) (k : Nat) (hk : k ∉ order)
    (hf : fields[k]? = some field) (h' : RowToured k 0 field events') :
    FieldsToured fields (order ++ [k]) (events ++ events') := by
  obtain ⟨paths, h⟩ := h
  obtain ⟨paths', h'⟩ := one hf h'
  refine ⟨_, (h.append h' ?_).congr fun path target => ?_⟩
  · rintro _ _ _ _ ⟨j, hj, -, -, i, -, rest, -, rfl, -⟩ ⟨j', hj', -, -, i', -, rest', -, rfl, -⟩
    obtain rfl := List.mem_singleton.1 hj'
    constructor <;> intro hp <;> have := (List.cons_prefix_cons.1 hp).1 <;> grind
  · simp only [Among, List.mem_append, or_and_right, exists_or]

end FieldsToured

/-- A site is visited, then its fields in some order. -/
theorem Site.Toured.mk {site : Site} (order : List Nat)
    (ho : order.Perm (List.range site.fields.length)) (hl : site.Logs event)
    (h : FieldsToured site.fields order events) : site.Toured (event :: events) := by
  obtain ⟨paths, h⟩ := h
  refine ⟨_, (h.root ?_ hl).congr fun path target => ?_⟩
  · rintro _ _ ⟨k, -, -, -, i, -, rest, -, rfl, -⟩
    exact List.cons_ne_nil _ _
  · rw [Site.at_iff, Among, Among]
    simp only [ho.mem_iff]

protected theorem Site.Toured.body (h : RowToured 0 0 (stmts.map .statement) events) :
    (Site.body stmts).Toured (.body stmts :: events) :=
  .mk [0] (.refl _) rfl (.one rfl h)

mutual

theorem Expr.toured (pos : Nat) (expr : Expr) :
    (Site.expression expr).Toured (expr.walk .deep pos) := by
  cases expr with
  | name | number | string | boolean | null => exact .mk [] (.refl _) rfl .none
  | array range elements | sequence range elements =>
    exact .mk [0] (.refl _) rfl (.one rfl (Expr.walks_toured _ elements))
  | call range callee arguments | new range callee arguments =>
    refine .mk [0, 1] (.refl _) rfl ?_
    exact .more (.one rfl (.single (callee.toured _))) 1 (by decide) rfl
      (Expr.walks_toured _ arguments)
  | member range operand property | unary range op operand | update range op fixity operand =>
    exact .mk [0] (.refl _) rfl (.one rfl (.single (operand.toured _)))
  | subscript range left right | binary range op left right =>
    refine .mk [0, 1] (.refl _) rfl ?_
    exact .more (.one rfl (.single (left.toured _))) 1 (by decide) rfl (.single (right.toured _))
  | assign range op target value =>
    refine .mk [1, 0] (.swap ..) rfl ?_
    exact .more (.one rfl (.single (value.toured _))) 0 (by decide) rfl (.single (target.toured _))
  | conditional range test whenTrue whenFalse =>
    refine .mk [0, 1, 2] (.refl _) rfl ?_
    refine .more (.more (.one rfl ?_) 1 (by decide) rfl ?_) 2 (by decide) rfl ?_
    · exact .single (test.toured _)
    · exact .single (whenTrue.toured _)
    · exact .single (whenFalse.toured _)
  | function range name parameters body =>
    exact .mk [0] (.refl _) rfl (.one rfl (.single (.body (Stmt.walks_toured _ body))))

theorem Expr.walks_toured (pos : Nat) (exprs : List Expr) :
    RowToured k start (exprs.map .expression) (Expr.walks .deep pos exprs) := by
  cases exprs with
  | nil => exact .nil
  | cons expr exprs => exact .cons (expr.toured _) (Expr.walks_toured _ exprs)

theorem Expr.optionWalk_toured (pos : Nat) (expr : Option Expr) :
    RowToured k start (expr.toList.map .expression) (Expr.optionWalk .deep pos expr) := by
  cases expr with
  | none => exact .nil
  | some expr => exact .single (expr.toured _)

theorem Stmt.toured (pos : Nat) (stmt : Stmt) :
    (Site.statement stmt).Toured (stmt.walk .deep pos) := by
  cases stmt with
  | expression range value | throwStmt range value =>
    exact .mk [0] (.refl _) rfl (.one rfl (.single (value.toured _)))
  | declaration range kind declarators =>
    exact .mk [0] (.refl _) rfl (.one rfl (Declarator.walks_toured _ declarators))
  | function range name parameters body | block range body =>
    exact .mk [0] (.refl _) rfl (.one rfl (.single (.body (Stmt.walks_toured _ body))))
  | ifStmt range test body orElse =>
    refine .mk [0, 1, 2] (.refl _) rfl ?_
    refine .more (.more (.one rfl ?_) 1 (by decide) rfl ?_) 2 (by decide) rfl ?_
    · exact .single (test.toured _)
    · exact .single (body.toured _)
    · exact Stmt.optionWalk_toured _ orElse
  | whileStmt range test body | withStmt range test body =>
    refine .mk [0, 1] (.refl _) rfl ?_
    exact .more (.one rfl (.single (test.toured _))) 1 (by decide) rfl (.single (body.toured _))
  | doStmt range body test =>
    refine .mk [0, 1] (.refl _) rfl ?_
    exact .more (.one rfl (.single (body.toured _))) 1 (by decide) rfl (.single (test.toured _))
  | forStmt range init test update body =>
    -- The body is visited before the update.
    refine .mk [0, 1, 3, 2] (.cons _ (.cons _ (.swap ..))) rfl ?_
    refine .more (.more (.more (.one rfl ?_) 1 (by decide) rfl ?_) 3 (by decide) rfl ?_) 2
      (by decide) rfl ?_
    · exact Stmt.optionWalk_toured _ init
    · exact Expr.optionWalk_toured _ test
    · exact .single (body.toured _)
    · exact Expr.optionWalk_toured _ update
  | forEach range kind left right body =>
    refine .mk [1, 0, 2] (.swap ..) rfl ?_
    refine .more (.more (.one rfl ?_) 0 (by decide) rfl ?_) 2 (by decide) rfl ?_
    · exact .single (right.toured _)
    · exact .single (left.toured _)
    · exact .single (body.toured _)
  | jump | empty | debugger => exact .mk [] (.refl _) rfl .none
  | returnStmt range value =>
    exact .mk [0] (.refl _) rfl (.one rfl (Expr.optionWalk_toured _ value))
  | tryStmt range block handler finalizer =>
    refine .mk [0, 1, 2] (.refl _) rfl ?_
    refine .more (.more (.one rfl ?_) 1 (by decide) rfl ?_) 2 (by decide) rfl ?_
    · exact .single (block.toured _)
    · exact Handler.optionWalk_toured _ handler
    · exact Block.optionWalk_toured _ finalizer
  | switchStmt range discriminant clauses =>
    refine .mk [0, 1] (.refl _) rfl ?_
    exact .more (.one rfl (.single (discriminant.toured _))) 1 (by decide) rfl
      (Clause.walks_toured _ clauses)
  | labeled range label body => exact .mk [0] (.refl _) rfl (.one rfl (.single (body.toured _)))

theorem Stmt.walks_toured (pos : Nat) (stmts : List Stmt) :
    RowToured k start (stmts.map .statement) (Stmt.walks .deep pos stmts) := by
  cases stmts with
  | nil => exact .nil
  | cons stmt stmts => exact .cons (stmt.toured _) (Stmt.walks_toured _ stmts)

theorem Stmt.optionWalk_toured (pos : Nat) (stmt : Option Stmt) :
    RowToured k start (stmt.toList.map .statement) (Stmt.optionWalk .deep pos stmt) := by
  cases stmt with
  | none => exact .nil
  | some stmt => exact .single (stmt.toured _)

theorem Declarator.walks_toured (pos : Nat) (declarators : List Declarator) :
    RowToured k start (declarators.flatMap fun ⟨_, _, init⟩ => init.toList.map .expression)
      (Declarator.walks .deep pos declarators) := by
  match declarators with
  | [] => exact .nil
  | ⟨_, _, init⟩ :: declarators =>
    exact .append (Expr.optionWalk_toured _ init) (Declarator.walks_toured _ declarators)

theorem Block.toured (pos : Nat) (block : Block) :
    (Site.body block.body).Toured (block.walk .deep pos) := by
  obtain ⟨_, body⟩ := block
  exact .body (Stmt.walks_toured _ body)

theorem Block.optionWalk_toured (pos : Nat) (block : Option Block) :
    RowToured k start (block.toList.map (.body ·.body)) (Block.optionWalk .deep pos block) := by
  cases block with
  | none => exact .nil
  | some block => exact .single (block.toured _)

theorem Handler.optionWalk_toured (pos : Nat) (handler : Option Handler) :
    RowToured k start (handler.toList.map .handler) (Handler.optionWalk .deep pos handler) := by
  match handler with
  | none => exact .nil
  | some ⟨_, parameter, body⟩ =>
    refine .single (.mk [0, 1] (.refl _) rfl ?_)
    exact .more (.one rfl (Expr.optionWalk_toured _ parameter)) 1 (by decide) rfl
      (.single (body.toured _))

theorem Clause.walks_toured (pos : Nat) (clauses : List Clause) :
    RowToured k start (clauses.map .clause) (Clause.walks .deep pos clauses) := by
  match clauses with
  | [] => exact .nil
  | ⟨_, test, body⟩ :: clauses =>
    refine .cons (.mk [0, 1] (.refl _) ⟨rfl, rfl⟩ ?_) (Clause.walks_toured _ clauses)
    exact .more (.one rfl (Expr.optionWalk_toured _ test)) 1 (by decide) rfl
      (.single (.body (Stmt.walks_toured _ body)))

end

namespace Script

/-- The walk over a script visits every site of it once, each before those inside, which follow it
without a gap; the numbers of the statements and expressions count them. -/
theorem walk_tour (script : Script) :
    (∃ paths, Enumerates (At (.body script.body)) paths script.walk) ∧
      (Event.elements script.walk).map (·.position) =
        List.range (Event.elements script.walk).length := by
  refine ⟨Site.Toured.body (Stmt.walks_toured 0 script.body), ?_⟩
  have hp := script.positions
  have hl := congrArg List.length hp
  rw [List.length_map, List.length_range] at hl
  rw [hp, hl]

end Script

end FlowLint
