import FlowLint.Proofs.Grammar.Numbered
import FlowLint.Proofs.Lint.Places
import FlowLint.Proofs.Lint.Relocated

/-!
Formatting does not matter: sources with the same tokens at different places have the same tree,
the same graphs and the same reports, at the places of the tokens.

Both sources are compared with a script over numbered tokens. A range of one source does not tell
that of the other: a statement can fill one source from end to end, as the script does, and stand
between blanks in the other.
-/
namespace FlowLint
set_option autoImplicit true

/-- A graph has the shape of another one, and holds the same elements at other places. -/
structure Graph.Mirrors (f : Range → Range) (graph moved : Graph Element) : Prop where
  size : moved.size = graph.size
  start : moved.start = graph.start
  elements : moved.blocks.map (·.elements) = graph.blocks.map (·.elements.map (·.relocate f))
  edges : moved.blocks.map (·.edge) = graph.blocks.map (·.edge)
  successors : moved.successors = graph.successors
  predecessors : moved.predecessors = graph.predecessors

theorem Graph.mirrors_map (f : Range → Range) (graph : Graph Element) :
    graph.Mirrors f (graph.map (·.relocate f)) where
  size := graph.size_map
  start := graph.start_map
  elements := by
    rw [map, List.map_map]
    rfl
  edges := by
    rw [map, List.map_map]
    rfl
  successors := graph.successors_map
  predecessors := graph.predecessors_map

namespace Script

/-- A script is another one at other places, and all that is found out about it is at the other
places as well. -/
structure Mirrors (f : Range → Range) (script moved : Script) : Prop where
  tree : moved = script.relocate f
  bodies : moved.bodies = script.bodies.map (·.relocate f)
  graphs : ∀ options, ∀ body ∈ script.bodies,
    (∃ graph graph', body.graph options = .ok graph ∧
      (body.relocate f).graph options = .ok graph' ∧ graph.Mirrors f graph') ∨
    ∃ error, body.graph options = .error error ∧
      (body.relocate f).graph options = .error (error.relocate f)
  reports : ∀ settings, (moved.lint settings).Perm ((script.lint settings).map (·.relocate f))

/-- All places in a script, and those of what is found out about it, are numbers of tokens or that
of the whole script. -/
structure Numbered (count : Nat) (script : Script) : Prop where
  range : script.range = ⟨0, count + 1⟩
  pieces : ∀ piece ∈ script.pieces, piece.range.Numbered count
  errors : ∀ options, ∀ body ∈ script.bodies, ∀ error, body.graph options = .error error →
    ∃ place, error.range? = some place ∧ place.Numbered count
  reports : ∀ settings, ∀ report ∈ script.lint settings,
    report.range = script.range ∨ report.range.Numbered count

variable {script : Script} {f : Range → Range}

theorem mirrors_relocate {p : Placement} (h : ∀ body ∈ script.bodies, body.KeepsOrder p.place) :
    script.Mirrors p.place (script.relocate p.place) where
  tree := rfl
  bodies := script.bodies_relocate
  graphs options body hb := by
    have hgraph := Body.graph_relocate (h body hb) options
    rw [hgraph]
    cases body.graph options with
    | ok graph => exact .inl ⟨graph, _, rfl, rfl, graph.mirrors_map p.place⟩
    | error error => exact .inr ⟨error, rfl, rfl⟩
  reports := script.lint_relocate h

theorem numbered_of_pieces (hr : script.range = ⟨0, count + 1⟩)
    (hp : ∀ piece ∈ script.pieces, piece.range.Numbered count) : script.Numbered count where
  range := hr
  pieces := hp
  errors options body hb error he := by
    obtain ⟨piece, hm, hrange⟩ := Body.about_of_graph_error hb he
    exact ⟨_, hrange, hp piece hm⟩
  reports settings report hm := by
    apply (range_of_mem_lint hm).imp_right
    rintro ⟨first, hf, last, hl, he⟩
    rw [he]
    exact (hp first hf).join (hp last hl)

/-- A source is read as its numbered tokens are, at the places of the tokens. -/
theorem parse_carries (h : tokens source = .ok list) :
    Carries (·.relocate (Placement.ofTokens list).place)
      (·.relocate (Placement.ofTokens list).place) (ofTokens (Token.numbered 1 list))
      (parse source) := by
  have hparse : parse source = ofTokens list := by
    rw [parse, h]
    rfl
  obtain ⟨others, last, rfl, -⟩ := tokens_eq_append h
  have hmoved := ofTokens_relocate (p := Placement.ofTokens (others ++ [last]))
    (Token.over_numbered (Cursor.over_of_tokens h))
  rw [← Token.numbered_append, Token.relocate_numbered] at hmoved
  rw [hparse]
  exact hmoved

theorem numbered_of_ofTokens (h : tokens source = .ok list)
    (hs : ofTokens (Token.numbered 1 list) = .ok script) : script.Numbered list.length := by
  obtain ⟨others, last, rfl, -⟩ := tokens_eq_append h
  rw [Token.numbered_append] at hs
  have hover := Token.over_numbered (Cursor.over_of_tokens h)
  apply numbered_of_pieces
  · rw [range_of_ofTokens hs, List.length_append, Nat.add_comm others.length]
    rfl
  · intro piece hm
    obtain ⟨hplaced, -⟩ := placed_of_ofTokens hover (Nat.le_succ _) hs
    exact .of_marks (.inl (hplaced piece hm).1.spans)

theorem error_numbered (h : tokens source = .ok list)
    (he : ofTokens (Token.numbered 1 list) = .error error) : error.range.Numbered list.length := by
  obtain ⟨others, last, rfl, -⟩ := tokens_eq_append h
  rw [Token.numbered_append] at he
  exact .of_marks (marks_of_ofTokens (Token.over_numbered (Cursor.over_of_tokens h)) he)

theorem keepsOrder_of_numbered (h : tokens source = .ok list) (hn : script.Numbered list.length) :
    ∀ body ∈ script.bodies, body.KeepsOrder (Placement.ofTokens list).place := by
  obtain ⟨others, last, rfl, -⟩ := tokens_eq_append h
  have hmono := Placement.start_strictMonoOn (tokens_follow h).1.starts_pairwise
  have hstart {body : Body} {element : Element} (hb : body ∈ script.bodies)
      (he : element ∈ body.nodes) : element.range.start ∈ Set.Ioc 0 (others ++ [last]).length := by
    obtain ⟨piece, hm, hr⟩ := Body.exists_range_of_mem_nodes hb he
    obtain ⟨i, hi, j, -, he⟩ := hn.pieces piece hm
    rw [hr, he]
    exact ⟨Nat.succ_pos i, hi⟩
  intro body hb left hl right hr
  exact hmono.lt_iff_lt (hstart hb hl) (hstart hb hr)

/-- Sources that have the same tokens, but at different places, are both read or both rejected. What
is read from them is one script over numbered tokens at the places of their tokens, and so are its
bodies, their graphs and what is reported about them; what they are rejected for is the same. -/
theorem lint_formatting (h : tokens source = .ok list) (h' : tokens source' = .ok list')
    (hf : list.map Token.face = list'.map Token.face) :
    (∀ range : Range, range.Numbered list.length →
      Range.Corresponds list list' ((Placement.ofTokens list).place range)
        ((Placement.ofTokens list').place range)) ∧
    ((∃ base script script' : Script, base.Numbered list.length ∧
        parse source = .ok script ∧ base.Mirrors (Placement.ofTokens list).place script ∧
        parse source' = .ok script' ∧ base.Mirrors (Placement.ofTokens list').place script') ∨
      ∃ error error', parse source = .error error ∧ parse source' = .error error' ∧
        error.message = error'.message ∧
        Range.Corresponds list list' error.range error'.range) := by
  have hlength : list.length = list'.length := by
    have hmap := congrArg List.length hf
    rwa [List.length_map, List.length_map] at hmap
  have hbase := parse_carries h
  have hbase' := parse_carries h'
  rw [← Token.numbered_congr hf] at hbase'
  refine ⟨fun range hr => Placement.corresponds_place hr hlength, ?_⟩
  cases hr : ofTokens (Token.numbered 1 list) with
  | ok base =>
    rw [hr] at hbase hbase'
    have hn := numbered_of_ofTokens h hr
    have hmirrors := mirrors_relocate (keepsOrder_of_numbered h hn)
    have hmirrors' := mirrors_relocate (keepsOrder_of_numbered h' (hlength ▸ hn))
    exact .inl ⟨base, _, _, hn, hbase, hmirrors, hbase', hmirrors'⟩
  | error error =>
    rw [hr] at hbase hbase'
    have hn := error_numbered h hr
    exact .inr ⟨_, _, hbase, hbase', rfl, Placement.corresponds_place hn hlength⟩

/-- A loop that is left at once, with blanks and a comment. -/
def spacious : String :=
  " while ( a ) \x7b break ; /* never */ b \x7d "

/-- The same loop without blanks. -/
def compact : String :=
  "while(a)\x7bbreak;b\x7d"

theorem lint_formatting_blanks :
    ∃ list list', tokens spacious = .ok list ∧ tokens compact = .ok list' ∧
      list.map Token.face = list'.map Token.face ∧
      (∃ base script script' : Script, base.Numbered list.length ∧
        parse spacious = .ok script ∧ base.Mirrors (Placement.ofTokens list).place script ∧
        parse compact = .ok script' ∧ base.Mirrors (Placement.ofTokens list').place script') ∧
      (parse spacious).toOption.map (·.body.map (·.range)) = some [⟨1, 38⟩] ∧
      (parse compact).toOption.map (·.body.map (·.range)) = some [⟨0, 17⟩] := by
  obtain ⟨list, h⟩ : ∃ list, tokens spacious = .ok list := exists_ok_of_isOk (by decide +kernel)
  obtain ⟨list', h'⟩ : ∃ list, tokens compact = .ok list := exists_ok_of_isOk (by decide +kernel)
  have hfaces : (tokens spacious).map (List.map Token.face) =
      (tokens compact).map (List.map Token.face) := by
    decide +kernel
  rw [h, h'] at hfaces
  have hf := Except.ok.inj hfaces
  refine ⟨list, list', h, h', hf, ?_, by decide +kernel, by decide +kernel⟩
  obtain ⟨-, hscripts | ⟨error, _, he, -⟩⟩ := lint_formatting h h' hf
  · exact hscripts
  · have hok : (parse spacious).isOk = true := by decide +kernel
    rw [he] at hok
    cases hok

end Script

end FlowLint
