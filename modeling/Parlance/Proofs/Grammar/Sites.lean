import Parlance.Diagnostic.Report
import Parlance.Proofs.Expression.Origins
import Parlance.Proofs.Grammar.Described
import Parlance.Proofs.Nesting.Origins

/-!
# Diagnostics of a run point into the text

Positions arise when a text is cut into tokens, and all that follows only hands them
on. A token put in by a definition has the place of its use; a nesting and its
expressions report tokens that they were given. Only an expression that saw no token
at all reports one without a place of its own, and the place of that one is the start
of the text.
-/

namespace Parlance

namespace Lexer

/-- Segments put together are the text they were cut from. By induction over the scan, whose
collected characters are the start of the next run. -/
theorem flatMap_text_segmentsFrom (lexer : Lexer) (collected text : List Char) :
    (lexer.segmentsFrom collected text).flatMap Segment.text = collected.reverse ++ text := by
  have flushed (collected : List Char) :
      (Segment.flush collected).flatMap Segment.text = collected.reverse := by
    cases collected <;> simp [Segment.flush, Segment.text]
  fun_induction lexer.segmentsFrom collected text with
  | case1 collected => simp [flushed]
  | case2 collected c rest _ inductionHypothesis => simp [inductionHypothesis]
  | case3 collected c rest rule _ length inductionHypothesis =>
    rw [List.flatMap_append, List.flatMap_cons, inductionHypothesis, flushed]
    simp [Segment.text]

/-- A token of segments has its text at its position inside theirs. By induction over the segments:
the text of each moves the position on for those behind it. -/
theorem tokensOf_stands (chain : Chain) (file : String) (start : Position)
    (segments : List Segment) :
    ∀ token ∈ tokensOf chain file start segments,
      ∃ before after, segments.flatMap Segment.text = before ++ (token.value.toList ++ after) ∧
        token.position = start.advance before := by
  induction segments generalizing start with
  | nil => simp [tokensOf]
  | cons segment rest inductionHypothesis =>
    have later : ∀ token ∈ tokensOf chain file (start.advance segment.text) rest,
        ∃ before after,
          (segment :: rest).flatMap Segment.text = before ++ (token.value.toList ++ after) ∧
          token.position = start.advance before := by
      intro token member
      obtain ⟨before, after, divided, position⟩ := inductionHypothesis _ token member
      refine ⟨segment.text ++ before, after, by simp [divided], ?_⟩
      rw [position, Position.advance_append]
    rw [tokensOf]
    split
    · refine List.forall_mem_cons.mpr ⟨⟨[], rest.flatMap Segment.text, ?_, rfl⟩, later⟩
      rw [String.toList_ofList]
      rfl
    · exact later

/-- A token of a text stands in it at its position. -/
theorem scan_stands (lexer : Lexer) (text file : String) :
    ∀ token ∈ lexer.scan { text, file },
      ∃ before after, text.toList = before ++ (token.value.toList ++ after) ∧
        token.position = Position.advance {} before := by
  have stands := tokensOf_stands lexer.chain file {} (lexer.segments text.toList)
  rwa [segments, flatMap_text_segmentsFrom] at stands

/-- The tokens of a text stand in it, those of definitions at the place of their use. A token of a
definition has the position of the name that it stands for. -/
theorem lex_stands (lexer : Lexer) (text file : String) :
    ∀ token ∈ lexer.lex text file, token.StandsIn text := by
  intro token member
  obtain ⟨source, scanned, made⟩ := List.mem_flatMap.mp member
  obtain ⟨before, after, divided, position⟩ := lexer.scan_stands text file source scanned
  refine ⟨before, source.value.toList ++ after, divided, ?_⟩
  rw [← position]
  simp only [expand] at made
  split at made
  · obtain ⟨_, _, rfl⟩ := List.mem_map.mp made
    rfl
  · rw [List.mem_singleton.mp made]

end Lexer

namespace Grammar

/-! ## Regions -/

/-- Resolving regions keeps to the tokens of the trees that are looked at. By induction over the
work list. A region that is taken from it is resolved, and the children of any other branch are put
on it, with the tokens of that branch. -/
theorem carryOut_given {holds : Token → Prop} (expressions : Expressions) (regions : List String)
    (made : List Tree) (found : List (Reported Tree)) (tasks : List Task)
    (tokens : ∀ tree, .visit tree ∈ tasks → tree.All holds)
    (about : ∀ result ∈ found, Expressions.GivenTree holds result) :
    ∀ result ∈ (carryOut expressions regions made found tasks).2,
      Expressions.GivenTree holds result := by
  fun_induction carryOut expressions regions made found tasks with
  | case1 => exact about
  | case2 made found token rest inductionHypothesis =>
    exact inductionHypothesis (fun tree member => tokens tree (by simp [member])) about
  | case3 made found name children rest region expression inductionHypothesis =>
    refine inductionHypothesis (fun tree member => tokens tree (by simp [member])) ?_
    have resolved := expressions.resolve_given (.branch name children) (tokens _ (by simp))
    exact List.forall_mem_cons.mpr ⟨resolved, about⟩
  | case4 made found name children rest _ inductionHypothesis =>
    refine inductionHypothesis (fun tree member => ?_) about
    simp only [Task.visits, List.mem_append, List.mem_map, List.mem_cons, reduceCtorEq,
      false_or] at member
    rcases member with ⟨child, inside, same⟩ | later
    · obtain rfl := Task.visit.inj same
      intro token among
      exact tokens (.branch name children) (by simp) token
        (Tree.mem_leavesAll.mpr ⟨_, inside, among⟩)
    · exact tokens tree (by simp [later])
  | case5 made found name count rest inductionHypothesis =>
    exact inductionHypothesis (fun tree member => tokens tree (by simp [member])) about

/-- What is reported about the regions of a tree is about its tokens. The work list holds the tree
at first, and after that only what is below it. -/
theorem resolveRegions_about {holds : Token → Prop} (grammar : Grammar) {tree : Tree}
    (tokens : tree.All holds) :
    ∀ diagnostic ∈ (grammar.resolveRegions tree).diagnostics,
      diagnostic.About (Expressions.Site holds) := by
  intro diagnostic member
  obtain ⟨result, found, reported⟩ := List.mem_flatMap.mp member
  unfold resolveRegions at found
  split at found
  · simp at found
  · rename_i expressions _
    have given := carryOut_given expressions grammar.regions [] [] [.visit tree]
      (by simpa using tokens) (by simp) result (List.mem_reverse.mp found)
    exact given.about diagnostic reported

/-! ## Runs -/

/-- A token that stands in the text, or the one that stands in for none, has a true
position of the text. -/
theorem stands_of_site {text : String} {token : Token}
    (site : Expressions.Site (Token.StandsIn text) token) : token.StandsIn text := by
  rcases site with stands | rfl
  · exact stands
  · exact ⟨[], text.toList, rfl, rfl⟩

/-- Every diagnostic that a run of a described grammar adds to a report points at a true
position of the text: its bytes begin between two characters of the text, and its line
and column are the ones counted there. -/
theorem run_points_into_text (spec : Spec) (grammar : Grammar)
    (described : ofSpec spec = .ok grammar) (text file : String) (report : Report) :
    ∀ diagnostic ∈
        (report.add (grammar.run text file).diagnostics).diagnostics.drop report.count,
      diagnostic.PointsInto text := by
  have added : (report.add (grammar.run text file).diagnostics).diagnostics.drop report.count =
      (grammar.run text file).diagnostics := by
    simp [Report.add, Report.count]
  have undefined : ∀ name body, grammar.nesting.definitions.find? name = some body →
      body.All (Token.StandsIn text) := by
    simp [ofSpec_definitions described, Dictionary.find?, Dictionary.empty]
  obtain ⟨tokens, built⟩ := grammar.nesting.buildWith_given
    (NodeHook.expand_respects undefined none) () (grammar.lexer.lex_stands text file)
  rw [added, Run.diagnostics]
  refine List.forall_mem_append.mpr ⟨fun diagnostic member => ?_, ?_⟩
  · exact (built diagnostic member).pointsInto
  · split
    · rename_i resolution resolved
      obtain ⟨_, found⟩ := Option.ite_none_left_eq_some.mp resolved
      obtain rfl := Option.some.inj found
      intro diagnostic member
      have about := grammar.resolveRegions_about tokens diagnostic member
      exact (about.mono fun _ => stands_of_site).pointsInto
    · simp

/-- Sums in parentheses, with a name for the plus sign. -/
def sums : Spec where
  rules := [{ start := " ", filtered := true }, { start := "\n", filtered := true },
    { start := "(" }, { start := ")" }, { start := "+" }]
  definitions := .ofList [("plus", ["+"])]
  root := { name := "line" }
  bounds := [{ name := "expression", start := "(", closing := ")", element := some "argument" }]
  expression := some { operators := [{ operator := "+", arity := .binary }] }

/-- An empty group before any token, and an operator put in by a definition, are both
reported inside the text. -/
theorem sums_point_into_text :
    ∃ grammar, ofSpec sums = .ok grammar ∧
      (grammar.run "()\nplus" "sums").diagnostics.map (·.id) = ["FK2002", "FK2005"] ∧
      ∀ diagnostic ∈ (Report.add {} (grammar.run "()\nplus" "sums").diagnostics).diagnostics.drop 0,
        diagnostic.PointsInto "()\nplus" := by
  have reported : (match ofSpec sums with
      | .ok grammar => (grammar.run "()\nplus" "sums").diagnostics.map (·.id)
      | .error _ => []) = ["FK2002", "FK2005"] := by
    decide +kernel
  cases described : ofSpec sums with
  | error _ => simp [described] at reported
  | ok grammar =>
    rw [described] at reported
    exact ⟨grammar, rfl, reported,
      run_points_into_text sums grammar described "()\nplus" "sums" {}⟩

end Grammar

end Parlance
