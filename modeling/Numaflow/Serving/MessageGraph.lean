import Numaflow.Isb.Forward
import Numaflow.Lib.Forest

/-!
# When a request is complete

Every vertex reports each copy of a message that it has processed with a callback, which names
the vertex the copy came from and the responses of the vertex.  The serving side walks through
the graph of the pipeline from the source: it looks for a callback of the copy, and for every
response it walks along the edges that the response takes.  The request is complete when no
callback is missing on the way.

The serving side reads the edges from the same specification as the vertices, but decides with a
test of its own whether a response of a vertex goes along an edge.

Main results: `willContinueThePath_eq_iff`, `generateSubgraph_unvisited`,
`generateSubgraphFromCallbacks_isSome_iff`.
-/

namespace Numaflow.Serving

open Lib Option Relation Forest
open Isb (ForwardConditions shouldForward)

/-! ## The edges of a pipeline -/

inductive OperatorType where
  | and
  | or
  | not
deriving DecidableEq, Repr

/-- Read an operator; the code stops on any other text. -/
def OperatorType.ofString (s : String) : Option OperatorType :=
  if s = "and" then some .and
  else if s = "or" then some .or
  else if s = "not" then some .not
  else none

/-- The condition of an edge on tags. -/
structure Tag where
  operator : Option OperatorType := none
  values : List String
deriving DecidableEq, Repr

structure Conditions where
  tags : Option Tag
deriving DecidableEq, Repr

structure Edge where
  fromVertex : String
  toVertex : String
  conditions : Option Conditions := none
deriving DecidableEq, Repr

/-- What the serving side makes of the condition of an edge, if it can read the operator. -/
def Conditions.ofForwardConditions (conditions : ForwardConditions) : Option Conditions :=
  match conditions.operator with
  | none => some ⟨some ⟨none, conditions.values⟩⟩
  | some operator =>
    (OperatorType.ofString operator).map fun operator =>
      ⟨some ⟨some operator, conditions.values⟩⟩

/-- The conditions of an edge of the specification. -/
def edgeConditions : Option ForwardConditions → Option (Option Conditions)
  | none => some none
  | some conditions => (Conditions.ofForwardConditions conditions).map some

def compareSlice (operator : OperatorType) (a b : List String) : Bool :=
  match operator with
  | .and => a.all b.contains
  | .or => a.any b.contains
  | .not => !a.any b.contains

/-- Whether a response with the tags goes along an edge with the conditions. -/
def willContinueThePath (conditions : Option Conditions) (responseTags : Option (List String)) :
    Bool :=
  match conditions.bind Conditions.tags with
  | none => true
  | some tags =>
    match responseTags with
    | none => tags.operator = some .not
    | some callbackTags =>
      match tags.operator with
      | none => false
      | some operator => compareSlice operator callbackTags tags.values

/-! ## Agreement with the vertices -/

/-- The cases in which the serving side decides as the vertices do.  It takes a missing
operator for one that never holds, does not let everything pass an empty list of values, and
asks of the operator "and" that the condition has all tags of the response, while the vertices
ask that the response has all values of the condition. -/
def RoutedAlike (conditions : Option Conditions) (tags : Option (List String)) : Prop :=
  match conditions.bind Conditions.tags with
  | none => True
  | some ⟨some .not, _⟩ => True
  | some ⟨some .or, values⟩ => values ≠ []
  | some ⟨some .and, values⟩ =>
    match tags with
    | none => values ≠ []
    | some tags => tags ⊆ values ↔ values ⊆ tags
  | some ⟨none, values⟩ => values ≠ [] ∧ ∀ value ∈ values, value ∉ tags.getD []

theorem any_contains_comm (a b : List String) : a.any b.contains = b.any a.contains := by
  rw [Bool.eq_iff_iff]
  simp only [List.any_eq_true, List.contains_iff_mem]
  constructor
  · rintro ⟨x, ha, hb⟩
    exact ⟨x, hb, ha⟩
  · rintro ⟨x, hb, ha⟩
    exact ⟨x, ha, hb⟩

theorem all_contains_iff {a b : List String} : a.all b.contains = true ↔ a ⊆ b := by
  simp only [List.all_eq_true, List.contains_iff_mem]
  rfl

variable {conditions : ForwardConditions} {converted : Conditions}

/-- What the vertices do with a condition that the serving side could read. -/
theorem shouldForward_eq (h : Conditions.ofForwardConditions conditions = some converted)
    (tags : Option (List String)) : ∃ operator, converted = ⟨some ⟨operator, conditions.values⟩⟩ ∧
      shouldForward tags (some conditions) =
        (conditions.values.isEmpty || match operator.getD .or with
          | .and => conditions.values.all (tags.getD []).contains
          | .or => conditions.values.any (tags.getD []).contains
          | .not => !conditions.values.any (tags.getD []).contains) := by
  obtain ⟨operator, values⟩ := conditions
  cases operator with
  | none =>
    refine ⟨none, (some.inj h).symm, ?_⟩
    cases values <;> rfl
  | some =>
    simp only [Conditions.ofForwardConditions, OperatorType.ofString] at h
    split_ifs at h with hand hor hnot
    · refine ⟨some .and, (some.inj h).symm, ?_⟩
      subst hand
      cases values <;> rfl
    · refine ⟨some .or, (some.inj h).symm, ?_⟩
      subst hor
      cases values <;> rfl
    · refine ⟨some .not, (some.inj h).symm, ?_⟩
      subst hnot
      cases values <;> rfl
    · simp at h

/-- The serving side expects a response along an edge exactly when the vertices send it there, in
those cases and in no others. -/
theorem willContinueThePath_eq_iff {conditions : Option ForwardConditions}
    {converted : Option Conditions} (h : edgeConditions conditions = some converted)
    (tags : Option (List String)) :
    willContinueThePath converted tags = shouldForward tags conditions ↔
      RoutedAlike converted tags := by
  cases conditions with
  | none =>
    obtain rfl := some.inj h
    exact iff_of_true rfl trivial
  | some conditions =>
    obtain ⟨converted, hconverted, rfl⟩ := map_eq_some_iff.mp h
    obtain ⟨operator, rfl, hforward⟩ := shouldForward_eq hconverted tags
    rw [hforward]
    generalize conditions.values = values
    -- an empty list of values passes everything on the side of the vertices
    cases operator with
    | none => cases tags <;> simp [willContinueThePath, RoutedAlike]
    | some operator =>
      cases operator with
      | and =>
        cases tags with
        | none => cases values <;> simp [willContinueThePath, RoutedAlike]
        | some tags =>
          have hall : (values.isEmpty || values.all tags.contains) = values.all tags.contains := by
            cases values <;> simp
          simp only [willContinueThePath, RoutedAlike, bind_some, getD_some, hall, compareSlice]
          rw [Bool.eq_iff_iff, all_contains_iff, all_contains_iff]
      | or | not =>
        cases values with
        | nil => cases tags <;> simp [willContinueThePath, RoutedAlike, compareSlice]
        | cons value values =>
          cases tags <;> simp [willContinueThePath, RoutedAlike, compareSlice,
              any_contains_comm _ (value :: values)]

/-- A response with one of the values of a condition with the operator "or", and one that has
not all values of a condition with the operator "and". -/
theorem willContinueThePath_eq_iff_or :
    edgeConditions (some ⟨some "or", ["a", "b"]⟩) = some (some ⟨some ⟨some .or, ["a", "b"]⟩⟩) ∧
      willContinueThePath (some ⟨some ⟨some .or, ["a", "b"]⟩⟩) (some ["b", "c"]) =
        shouldForward (some ["b", "c"]) (some ⟨some "or", ["a", "b"]⟩) ∧
      ¬RoutedAlike (some ⟨some ⟨some .and, ["a", "b"]⟩⟩) (some ["b"]) := by
  have hor : edgeConditions (some ⟨some "or", ["a", "b"]⟩) =
      some (some ⟨some ⟨some .or, ["a", "b"]⟩⟩) := by
    decide
  have hand : edgeConditions (some ⟨some "and", ["a", "b"]⟩) =
      some (some ⟨some ⟨some .and, ["a", "b"]⟩⟩) := by
    decide
  refine ⟨hor, (willContinueThePath_eq_iff hor _).mpr (List.cons_ne_nil _ _), ?_⟩
  rw [← willContinueThePath_eq_iff hand]
  decide

/-- The vertices take a missing operator for "or", and forward a response with one tag more
than the condition asks for; the serving side expects neither response. -/
theorem willContinueThePath_differs :
    (edgeConditions (some ⟨none, ["a"]⟩) = some (some ⟨some ⟨none, ["a"]⟩⟩) ∧
      shouldForward (some ["a"]) (some ⟨none, ["a"]⟩) = true ∧
      willContinueThePath (some ⟨some ⟨none, ["a"]⟩⟩) (some ["a"]) = false) ∧
    (edgeConditions (some ⟨some "and", ["a"]⟩) = some (some ⟨some ⟨some .and, ["a"]⟩⟩) ∧
      shouldForward (some ["a", "b"]) (some ⟨some "and", ["a"]⟩) = true ∧
      willContinueThePath (some ⟨some ⟨some .and, ["a"]⟩⟩) (some ["a", "b"]) = false) := by
  decide

/-! ## Callbacks -/

/-- The tag of a response that is dropped. -/
def drop : String :=
  "U+005C__DROP__"

/-- The tags of a response. -/
structure Response where
  tags : Option (List String) := none
deriving DecidableEq, Repr

structure Callback where
  id : String
  vertex : String
  cbTime : Nat := 0
  fromVertex : String
  responses : List Response
deriving DecidableEq, Repr

/-- A callback as the completed graph shows it. -/
structure EdgeCallback where
  fromVertex : String
  toVertex : String
  cbTime : Nat
deriving DecidableEq, Repr

structure Subgraph where
  id : String
  edgeCallbacks : List EdgeCallback
deriving DecidableEq, Repr

/-- The graph of a pipeline. -/
structure MessageGraph where
  edges : List Edge
deriving DecidableEq, Repr

def Response.dropped (response : Response) : Bool :=
  match response.tags with
  | none => false
  | some tags => tags.contains drop

def Callback.edgeCallback (callback : Callback) : EdgeCallback :=
  ⟨callback.fromVertex, callback.vertex, callback.cbTime⟩

/-- A callback of the source: it names its own vertex, or none, as the origin. -/
def Callback.ofSource (callback : Callback) : Bool :=
  callback.vertex = callback.fromVertex || callback.fromVertex = ""

/-- A copy of the message at a vertex, with the vertex it comes from. -/
structure Copy where
  vertex : String
  fromVertex : String
deriving DecidableEq, Repr

/-- The callback fits the copy: the one of the source names no origin. -/
def Copy.claims (copy : Copy) (callback : Callback) : Bool :=
  callback.vertex = copy.vertex &&
    (callback.fromVertex = "" || callback.fromVertex = copy.fromVertex)

/-- The callbacks that are not visited yet, and the part of the graph that is completed. -/
structure Walk where
  unvisited : List Callback
  edgeCallbacks : List EdgeCallback := []
deriving DecidableEq, Repr

/-- Visit a callback. -/
def Walk.visit (walk : Walk) (copy : Copy) (callback : Callback) : Walk :=
  ⟨walk.unvisited.eraseP copy.claims, walk.edgeCallbacks ++ [callback.edgeCallback]⟩

namespace MessageGraph

/-- The edges that leave a vertex. -/
def edgesFrom (g : MessageGraph) (vertex : String) : List Edge :=
  g.edges.filter fun edge => edge.fromVertex = vertex

def isMonovertex (g : MessageGraph) : Bool :=
  g.edges.isEmpty

/-- Walk on from a copy; the result is none when a callback is missing.  A callback without
responses, or with a response that is dropped, ends the walk here.  Every call visits a
callback, so that the number of callbacks is enough fuel. -/
def generateSubgraph (g : MessageGraph) : Nat → Copy → Walk → Option Walk
  | 0, _, _ => none
  | fuel + 1, copy, walk =>
    match walk.unvisited.find? copy.claims with
    | none => none
    | some callback =>
      if callback.responses.isEmpty || callback.responses.any Response.dropped then
        some (walk.visit copy callback)
      else
        callback.responses.foldlM (fun walk response =>
          (g.edgesFrom copy.vertex).foldlM (fun walk edge =>
            if willContinueThePath edge.conditions response.tags then
              generateSubgraph g fuel ⟨edge.toVertex, copy.vertex⟩ walk
            else some walk) walk) (walk.visit copy callback)

/-- The completed graph of the callbacks, if none is missing.  The source is the vertex of the
last callback that names it; a pipeline of one vertex is complete with its only callback. -/
def generateSubgraphFromCallbacks (g : MessageGraph) (id : String) (callbacks : List Callback) :
    Option Subgraph :=
  match g.isMonovertex, callbacks with
  | true, [callback] => some ⟨id, [callback.edgeCallback]⟩
  | _, callbacks =>
    match callbacks.findRev? Callback.ofSource with
    | none => none
    | some source =>
      (g.generateSubgraph callbacks.length ⟨source.vertex, source.vertex⟩ ⟨callbacks, []⟩).map
        fun walk => ⟨id, walk.edgeCallbacks⟩

/-! ## The walk as a search -/

/-- The copies that go out along the edges a response takes. -/
def copies (g : MessageGraph) (vertex : String) (response : Response) : List Copy :=
  ((g.edgesFrom vertex).filter fun edge =>
    willContinueThePath edge.conditions response.tags).map fun edge => ⟨edge.toVertex, vertex⟩

/-- The copies that the walk looks for after a callback. -/
def expects (g : MessageGraph) (callback : Callback) : List Copy :=
  if callback.responses.isEmpty || callback.responses.any Response.dropped then []
  else callback.responses.flatMap (g.copies callback.vertex)

/-- The walk is a search that meets every copy with one callback. -/
theorem generateSubgraph_unvisited (g : MessageGraph) (fuel : Nat) (copy : Copy) (walk : Walk) :
    (g.generateSubgraph fuel copy walk).map Walk.unvisited =
      consume Copy.claims g.expects fuel copy walk.unvisited := by
  induction fuel generalizing copy walk with
  | zero => rfl
  | succ fuel ih =>
    rw [generateSubgraph, consume_succ]
    cases hfind : walk.unvisited.find? copy.claims with
    | none => rfl
    | some callback =>
      have hvertex : callback.vertex = copy.vertex := by
        have hclaims := List.find?_some hfind
        simp only [Copy.claims, Bool.and_eq_true, decide_eq_true_eq] at hclaims
        exact hclaims.1
      simp only [bind_some, expects]
      split_ifs with hends
      · rfl
      · have hloop : callback.responses.foldlM (fun walk response =>
            (g.edgesFrom copy.vertex).foldlM (fun walk edge =>
              if willContinueThePath edge.conditions response.tags then
                generateSubgraph g fuel ⟨edge.toVertex, copy.vertex⟩ walk
              else some walk) walk) (walk.visit copy callback) =
            (callback.responses.flatMap (g.copies callback.vertex)).foldlM
              (fun walk copy => generateSubgraph g fuel copy walk)
              (walk.visit copy callback) := by
          rw [foldlM_flatMap, hvertex]
          congr 1
          funext walk response
          rw [copies, List.foldlM_map, List.foldlM_filter]
          rfl
        rw [hloop]
        exact map_foldlM (fun copy _ walk => ih copy walk) _

/-- More fuel than there are callbacks makes no difference. -/
theorem generateSubgraph_isSome_fuel (g : MessageGraph) (copy : Copy) (walk : Walk) {fuel : Nat}
    (hfuel : walk.unvisited.length ≤ fuel) : (g.generateSubgraph fuel copy walk).isSome =
      (g.generateSubgraph walk.unvisited.length copy walk).isSome := by
  rw [← isSome_map (f := Walk.unvisited), generateSubgraph_unvisited,
    ← isSome_map (f := Walk.unvisited), generateSubgraph_unvisited, ← consumeAll_singleton,
    ← consumeAll_singleton, consumeAll_fuel (Nat.le_refl _) hfuel]

/-! ## The run of a message -/

/-- The copies that a vertex sends out: a response that is dropped goes nowhere. -/
def forwards (g : MessageGraph) (callback : Callback) : List Copy :=
  callback.responses.flatMap fun response =>
    if response.dropped then [] else g.copies callback.vertex response

end MessageGraph

/-- The callback reports the copy.  A copy that has just been read by the source is one from
the source itself, and its callback may name no origin. -/
def Copy.ReportedBy (copy : Copy) (callback : Callback) : Prop :=
  callback.vertex = copy.vertex ∧
    (callback.fromVertex = copy.fromVertex ∨
      copy.fromVertex = copy.vertex ∧ callback.fromVertex = "")

/-- The copy that a callback reports. -/
def Callback.copy (callback : Callback) : Copy :=
  ⟨callback.vertex, if callback.fromVertex = "" then callback.vertex else callback.fromVertex⟩

open Callback

namespace MessageGraph

section

variable (g : MessageGraph)

/-- The callbacks of a message that the source has read: one for every copy of it. -/
def MessageRun (source : String) (callbacks : List Callback) : Prop :=
  Forest Copy.ReportedBy g.forwards [⟨source, source⟩] callbacks

/-- An edge leads from the one vertex to the other. -/
def Adjacent (v w : String) : Prop :=
  ∃ edge ∈ g.edges, edge.fromVertex = v ∧ edge.toVertex = w

def Acyclic : Prop :=
  ∀ v, ¬ Relation.TransGen g.Adjacent v v

/-- Every vertex has a name. -/
def Named : Prop :=
  ∀ edge ∈ g.edges, edge.fromVertex ≠ "" ∧ edge.toVertex ≠ ""

/-- The vertex does not drop one of its responses and forward another one. -/
def Unmixed (callback : Callback) : Prop :=
  callback.responses.any Response.dropped = true → g.forwards callback = []

end

/-- A graph in which the edges go up some numbering of the vertices has no cycle. -/
theorem acyclic_of_rank {g : MessageGraph} (rank : String → Nat)
    (h : ∀ edge ∈ g.edges, rank edge.fromVertex < rank edge.toVertex) : g.Acyclic := by
  intro v hcycle
  have hlt : ∀ w, TransGen g.Adjacent v w → rank v < rank w := by
    intro w hpath
    induction hpath with
    | single hstep =>
      obtain ⟨edge, hedge, rfl, rfl⟩ := hstep
      exact h edge hedge
    | tail _ hstep ih =>
      obtain ⟨edge, hedge, rfl, rfl⟩ := hstep
      exact ih.trans (h edge hedge)
  exact lt_irrefl _ (hlt v hcycle)

variable {g : MessageGraph} {source : String} {callback : Callback} {copy : Copy}
  {response : Response}

theorem adjacent_of_mem_copies {vertex : String} (h : copy ∈ g.copies vertex response) :
    g.Adjacent vertex copy.vertex ∧ copy.fromVertex = vertex := by
  simp only [copies, List.mem_map, List.mem_filter, edgesFrom, decide_eq_true_eq] at h
  obtain ⟨edge, ⟨⟨hedge, hfrom⟩, -⟩, rfl⟩ := h
  exact ⟨⟨edge, hedge, hfrom, rfl⟩, rfl⟩

theorem adjacent_of_mem_expects (h : copy ∈ g.expects callback) :
    g.Adjacent callback.vertex copy.vertex ∧ copy.fromVertex = callback.vertex := by
  unfold expects at h
  split_ifs at h with hends
  · exact absurd h List.not_mem_nil
  · obtain ⟨response, -, hcopy⟩ := List.mem_flatMap.mp h
    exact adjacent_of_mem_copies hcopy

/-- Unless it drops one response and forwards another one, a vertex sends out the copies that
the walk looks for. -/
theorem forwards_eq_expects (h : g.Unmixed callback) :
    g.forwards callback = g.expects callback := by
  unfold expects
  split_ifs with hends
  · rcases Bool.or_eq_true_iff.mp hends with hempty | hdropped
    · rw [forwards, List.isEmpty_iff.mp hempty]
      rfl
    · exact h hdropped
  · simp only [Bool.or_eq_true, not_or, List.any_eq_true, not_exists, not_and] at hends
    refine List.flatMap_congr fun response hresponse => ?_
    rw [if_neg (hends.2 response hresponse)]

/-- A vertex sends out the copies that the walk looks for, or the walk looks for none. -/
theorem expects_eq_or_nil (g : MessageGraph) (callback : Callback) :
    g.expects callback = g.forwards callback ∨ g.expects callback = [] := by
  by_cases hdropped : callback.responses.any Response.dropped = true
  · exact .inr (if_pos (by rw [hdropped, Bool.or_true]))
  · exact .inl (forwards_eq_expects fun h => absurd h hdropped).symm

/-! ## Which copies a callback fits

The callbacks of a run are those of the source, and those of copies that came along an edge
from a vertex that the source leads to.  The source is none of the vertices that it leads to,
so that a callback without an origin fits the copy at the source only. -/

/-- The copies of a run. -/
structure Due (g : MessageGraph) (source : String) (copy : Copy) : Prop where
  reachable : Relation.ReflTransGen g.Adjacent source copy.vertex
  named : copy.fromVertex ≠ ""
  moved : copy = ⟨source, source⟩ ∨ copy.vertex ≠ source ∧ copy.fromVertex ≠ copy.vertex

/-- The callbacks of a run. -/
structure Known (g : MessageGraph) (source : String) (callback : Callback) : Prop where
  reachable : Relation.ReflTransGen g.Adjacent source callback.vertex
  source_of_ofSource : callback.ofSource = true → callback.vertex = source

theorem due_source (hsource : source ≠ "") : g.Due source ⟨source, source⟩ :=
  ⟨ReflTransGen.refl, hsource, .inl rfl⟩

theorem Known.due (hacyclic : g.Acyclic) (hnamed : g.Named) (h : g.Known source callback)
    (hcopy : copy ∈ g.expects callback) : g.Due source copy := by
  obtain ⟨hadjacent, hfrom⟩ := adjacent_of_mem_expects hcopy
  have hpath := TransGen.tail' h.reachable hadjacent
  refine ⟨hpath.to_reflTransGen, ?_, .inr ⟨?_, ?_⟩⟩
  · obtain ⟨edge, hedge, hvertex, -⟩ := hadjacent
    rw [hfrom, ← hvertex]
    exact (hnamed edge hedge).1
  · intro heq
    exact hacyclic source (heq ▸ hpath)
  · intro heq
    rw [hfrom] at heq
    exact hacyclic copy.vertex (TransGen.single (heq ▸ hadjacent))

/-- A callback of a run is known, and it tells which copy it reports. -/
theorem Due.known (h : g.Due source copy) (hreported : copy.ReportedBy callback) :
    g.Known source callback ∧ callback.copy = copy := by
  obtain ⟨hvertex, hfrom⟩ := hreported
  have hcopy : callback.copy = copy := by
    rcases hfrom with hfrom | ⟨hself, hempty⟩
    · rw [Callback.copy, hfrom, if_neg h.named, hvertex]
    · rw [Callback.copy, if_pos hempty, hvertex]
      exact congrArg (Copy.mk copy.vertex) hself.symm
  refine ⟨⟨hvertex ▸ h.reachable, fun hofSource => ?_⟩, hcopy⟩
  rcases h.moved with heq | ⟨-, hmoved⟩
  · rw [hvertex, heq]
  · -- a copy that came along an edge has an origin, and it is another vertex
    exfalso
    rcases hfrom with hfrom | ⟨hself, -⟩
    · simp only [Callback.ofSource, Bool.or_eq_true, decide_eq_true_eq, hfrom, hvertex] at hofSource
      rcases hofSource with hsame | hempty
      · exact hmoved hsame.symm
      · exact h.named hempty
    · exact hmoved hself

/-- The walk takes a callback for a copy exactly when the callback reports such a copy. -/
theorem Due.claims_iff (h : g.Due source copy) (hknown : g.Known source callback) :
    copy.claims callback = true ↔ callback.copy = copy := by
  obtain ⟨vertex, origin⟩ := copy
  simp only [Copy.claims, copy, Copy.mk.injEq, Bool.and_eq_true, Bool.or_eq_true, decide_eq_true_eq]
  by_cases hempty : callback.fromVertex = ""
  · have hsource := hknown.source_of_ofSource (by simp [ofSource, hempty])
    rw [hsource]
    rcases h.moved with heq | ⟨hvertex, -⟩
    · simp only [Copy.mk.injEq] at heq
      simp [heq, hempty]
    · exact iff_of_false (fun hclaims => hvertex hclaims.1.symm) fun hcopy => hvertex hcopy.1.symm
  · simp [hempty]

/-! ## Completed requests -/

variable {callbacks : List Callback}

/-- In a pipeline with edges, a request is complete when the walk from its source finds every
callback that it looks for. -/
theorem isSome_iff_consume (hedges : g.edges ≠ []) (id : String)
    (hknown : ∀ callback ∈ callbacks, g.Known source callback) :
    (g.generateSubgraphFromCallbacks id callbacks).isSome = true ↔
      (∃ callback ∈ callbacks, callback.ofSource = true) ∧
        ∃ rest, consume Copy.claims g.expects callbacks.length ⟨source, source⟩ callbacks =
          some rest := by
  have hmono : g.isMonovertex = false := by
    rw [isMonovertex, List.isEmpty_eq_false_iff]
    exact hedges
  simp only [generateSubgraphFromCallbacks, hmono]
  cases hfind : callbacks.findRev? ofSource with
  | none =>
    rw [List.findRev?_eq_find?_reverse, List.find?_eq_none] at hfind
    refine iff_of_false (by simp) ?_
    rintro ⟨⟨callback, hmem, hofSource⟩, -⟩
    exact hfind callback (List.mem_reverse.mpr hmem) hofSource
  | some first =>
    rw [List.findRev?_eq_find?_reverse] at hfind
    have hmem := List.mem_reverse.mp (List.mem_of_find?_eq_some hfind)
    have hofSource := List.find?_some hfind
    have hvertex := (hknown first hmem).source_of_ofSource hofSource
    have hwalk := g.generateSubgraph_unvisited callbacks.length ⟨source, source⟩ ⟨callbacks, []⟩
    simp only [hvertex, isSome_map]
    rw [← isSome_map (f := Walk.unvisited), hwalk, isSome_iff_exists]
    exact ⟨fun hrest => ⟨⟨first, hmem, hofSource⟩, hrest⟩, fun h => h.2⟩

section

variable (hacyclic : g.Acyclic) (hnamed : g.Named)

include hacyclic hnamed

variable {fuel : Nat} {rest : List Callback}

/-- The callbacks that a successful walk has visited are balanced for the copy at the
source. -/
theorem balanced_of_consume (hsource : source ≠ "")
    (hknown : ∀ callback ∈ callbacks, g.Known source callback)
    (h : consume Copy.claims g.expects fuel ⟨source, source⟩ callbacks = some rest) :
    ∃ used : List Callback, used.Subperm callbacks ∧
      Balanced Callback.copy g.expects used [⟨source, source⟩] := by
  rw [← consumeAll_singleton] at h
  obtain ⟨used, hused, hbalanced⟩ := Balanced.of_consumeAll
    (fun _ hdue _ => hdue.claims_iff) (fun _ h _ => h.due hacyclic hnamed) h
    (List.forall_mem_singleton.mpr (due_source hsource)) hknown
  exact ⟨used, ((List.sublist_append_left used rest).subperm).trans hused.symm.subperm, hbalanced⟩

/-- A walk through callbacks that are balanced for the copy at the source succeeds. -/
theorem consume_of_balanced (hsource : source ≠ "")
    (hknown : ∀ callback ∈ callbacks, g.Known source callback)
    (h : Balanced Callback.copy g.expects callbacks [⟨source, source⟩]) :
    ∃ rest, consume Copy.claims g.expects callbacks.length ⟨source, source⟩ callbacks =
      some rest := by
  have hbalanced := h
  obtain ⟨rest, hrest, -⟩ := Balanced.consumeAll
    (fun _ hdue _ => hdue.claims_iff) (fun _ h _ => h.due hacyclic hnamed) hbalanced
    (le_refl callbacks.length) (List.forall_mem_singleton.mpr (due_source hsource)) hknown
  exact ⟨rest, consumeAll_singleton _ _ _ ▸ hrest⟩

end

/-- The first callback of a forest is one of the source. -/
theorem exists_ofSource {emits : Callback → List Copy}
    (h : Forest Copy.ReportedBy emits [⟨source, source⟩] callbacks) :
    ∃ callback ∈ callbacks, callback.ofSource = true := by
  cases h with
  | @cons _ _ callback _ _ hreported =>
    refine ⟨callback, List.mem_cons_self, ?_⟩
    rcases hreported with ⟨hvertex, hfrom | ⟨-, hempty⟩⟩
    · simp [ofSource, hvertex, hfrom]
    · simp [ofSource, hempty]

section

variable (hacyclic : g.Acyclic) (hnamed : g.Named) (hsource : source ≠ "") {all : List Callback}
  (hforest : Forest Copy.ReportedBy g.expects [⟨source, source⟩] all)

include hacyclic hnamed hsource hforest

/-- The callbacks that the walk looks for are known. -/
theorem known_of_forest : ∀ callback ∈ all, g.Known source callback :=
  hforest.known (fun _ _ hdue hreported => (Due.known hdue hreported).1)
    (fun _ hknown _ => hknown.due hacyclic hnamed)
    (List.forall_mem_singleton.mpr (due_source hsource))

/-- The callbacks that the walk looks for are balanced for the copy at the source. -/
theorem balanced_of_forest : Balanced Callback.copy g.expects all [⟨source, source⟩] :=
  hforest.balanced (fun _ _ => Due.known) (fun _ hknown _ => hknown.due hacyclic hnamed)
    (List.forall_mem_singleton.mpr (due_source hsource))

/-- A part of the callbacks that the walk looks for makes a completed graph exactly when it has
all of them. -/
theorem isSome_iff_perm (hedges : g.edges ≠ [])
    (hsub : callbacks.Subperm all) (id : String) :
    (g.generateSubgraphFromCallbacks id callbacks).isSome = true ↔ callbacks.Perm all := by
  have hknown := known_of_forest hacyclic hnamed hsource hforest
  have hcallbacks : ∀ callback ∈ callbacks, g.Known source callback := fun callback h =>
    hknown callback (hsub.subset h)
  have hall := balanced_of_forest hacyclic hnamed hsource hforest
  rw [isSome_iff_consume hedges id hcallbacks]
  constructor
  · -- the visited callbacks are balanced for the copy at the source, and so are all of them
    rintro ⟨-, rest, hrest⟩
    obtain ⟨used, hused, hbalanced⟩ := balanced_of_consume hacyclic hnamed hsource hcallbacks hrest
    have hperm : used.Perm all := hbalanced.perm_of_subperm
      (r := fun c d => TransGen g.Adjacent c.vertex d.vertex)
      (fun copy => hacyclic copy.vertex) (fun _ _ _ => TransGen.trans) hall
      (hused.trans hsub)
      fun callback _ copy hcopy => TransGen.single (adjacent_of_mem_expects hcopy).1
    exact hsub.antisymm (hperm.symm.subperm.trans hused)
  · intro hperm
    obtain ⟨callback, hmem, hofSource⟩ := exists_ofSource hforest
    exact ⟨⟨callback, hperm.symm.subset hmem, hofSource⟩,
      consume_of_balanced hacyclic hnamed hsource hcallbacks (hall.perm hperm.symm)⟩

end

/-- The callbacks that have come in for a message make a completed graph exactly when all
callbacks have come in, whatever their order is, if and only if no vertex drops one of its
responses and forwards another one. -/
theorem generateSubgraphFromCallbacks_isSome_iff (hacyclic : g.Acyclic) (hnamed : g.Named)
    (hedges : g.edges ≠ []) (hsource : source ≠ "") {all : List Callback}
    (hrun : g.MessageRun source all) (id : String) :
    (∀ callbacks : List Callback, callbacks.Subperm all →
        ((g.generateSubgraphFromCallbacks id callbacks).isSome = true ↔ callbacks.Perm all)) ↔
      ∀ callback ∈ all, g.Unmixed callback := by
  constructor
  · -- the callbacks that the walk looks for complete the graph, so they are all there are
    intro hcomplete callback hcallback hdropped
    obtain ⟨pruned, hsub, hforest, hsame⟩ := hrun.prune g.expects_eq_or_nil
    have hsome := (isSome_iff_perm hacyclic hnamed hsource hforest hedges
      (List.Subperm.refl pruned) id).mpr (.refl _)
    have hperm := (hcomplete pruned hsub.subperm).mp hsome
    rw [← hsame hperm.length_eq callback hcallback]
    exact if_pos (by rw [hdropped, Bool.or_true])
  · intro hunmixed callbacks hsub
    have hforest : Forest Copy.ReportedBy g.expects [⟨source, source⟩] all :=
      hrun.congr fun callback hcallback => forwards_eq_expects (hunmixed callback hcallback)
    exact isSome_iff_perm hacyclic hnamed hsource hforest hedges hsub id

/-- A source with two responses, of which the next vertex drops the first one: with one of the
callbacks missing the request is not complete, and with all of them it is. -/
theorem generateSubgraphFromCallbacks_isSome_flatMap :
    ¬ ((⟨[⟨"in", "out", none⟩]⟩ : MessageGraph).generateSubgraphFromCallbacks "id"
        [⟨"id", "in", 1, "", [⟨none⟩, ⟨none⟩]⟩, ⟨"id", "out", 3, "in", [⟨none⟩]⟩]).isSome = true ∧
      ((⟨[⟨"in", "out", none⟩]⟩ : MessageGraph).generateSubgraphFromCallbacks "id"
        [⟨"id", "out", 3, "in", [⟨none⟩]⟩, ⟨"id", "in", 1, "", [⟨none⟩, ⟨none⟩]⟩,
          ⟨"id", "out", 2, "in", [⟨some [drop]⟩]⟩]).isSome = true := by
  have hacyclic : (⟨[⟨"in", "out", none⟩]⟩ : MessageGraph).Acyclic :=
    acyclic_of_rank (fun v => if v = "in" then 0 else 1) (by decide)
  have hnamed : (⟨[⟨"in", "out", none⟩]⟩ : MessageGraph).Named := by
    unfold Named
    decide
  have hrun : (⟨[⟨"in", "out", none⟩]⟩ : MessageGraph).MessageRun "in"
      [⟨"id", "in", 1, "", [⟨none⟩, ⟨none⟩]⟩, ⟨"id", "out", 2, "in", [⟨some [drop]⟩]⟩,
        ⟨"id", "out", 3, "in", [⟨none⟩]⟩] :=
    tree ⟨rfl, Or.inr ⟨rfl, rfl⟩⟩
      (leaf ⟨rfl, Or.inl rfl⟩ rfl (leaf ⟨rfl, Or.inl rfl⟩ rfl nil))
  have hunmixed : ∀ callback ∈ ([⟨"id", "in", 1, "", [⟨none⟩, ⟨none⟩]⟩,
      ⟨"id", "out", 2, "in", [⟨some [drop]⟩]⟩, ⟨"id", "out", 3, "in", [⟨none⟩]⟩] : List Callback),
      (⟨[⟨"in", "out", none⟩]⟩ : MessageGraph).Unmixed callback := by
    unfold Unmixed
    decide
  have hcomplete := (generateSubgraphFromCallbacks_isSome_iff hacyclic hnamed
    (List.cons_ne_nil _ _) (by decide) hrun "id").mpr hunmixed
  constructor
  · rw [hcomplete _ (by decide)]
    decide
  · rw [hcomplete _ (by decide)]
    decide

/-- A source that drops one response and forwards another one: the request is complete with
the callback of the source alone, before the next vertex has processed its copy. -/
theorem generateSubgraphFromCallbacks_early :
    (⟨[⟨"in", "out", none⟩]⟩ : MessageGraph).MessageRun "in"
        [⟨"id", "in", 1, "in", [⟨some [drop]⟩, ⟨none⟩]⟩, ⟨"id", "out", 2, "in", [⟨none⟩]⟩] ∧
      (⟨[⟨"in", "out", none⟩]⟩ : MessageGraph).generateSubgraphFromCallbacks "id"
        [⟨"id", "in", 1, "in", [⟨some [drop]⟩, ⟨none⟩]⟩] = some ⟨"id", [⟨"in", "in", 1⟩]⟩ := by
  refine ⟨?_, by decide⟩
  exact tree ⟨rfl, Or.inl rfl⟩ (leaf ⟨rfl, Or.inl rfl⟩ rfl nil)

end MessageGraph

end Numaflow.Serving
