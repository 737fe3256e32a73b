import Numaflow.Controller.Validate
import Numaflow.Lib.Text

/-!
# Names of buffers and buckets

The buffers and the watermark buckets of a pipeline are named after the namespace, the
pipeline and the vertices, joined with dashes.  The names of pipelines and vertices may
contain dashes themselves, so a name can be cut in more than one way.

Main results: `Pipeline.getAllBuckets_nodup_iff`, `Pipeline.disjoint_resourceNames_iff`,
`resources_not_shared_iff`.
-/

namespace Numaflow.Controller

open Lib AbstractVertex List

def generateEdgeBucketName (nspace pipeline fromVertex toVertex : String) : String :=
  nspace ++ "-" ++ pipeline ++ "-" ++ fromVertex ++ "-" ++ toVertex

section

variable (nspace pipeline vertex : String)

def generateBufferName (index : Nat) : String :=
  nspace ++ "-" ++ pipeline ++ "-" ++ vertex ++ "-" ++ toString index

def generateSourceBucketName : String :=
  nspace ++ "-" ++ pipeline ++ "-" ++ vertex ++ "_SOURCE"

def generateSinkBucketName : String :=
  nspace ++ "-" ++ pipeline ++ "-" ++ vertex ++ "_SINK"

end

def AbstractVertex.ownedBufferNames (v : AbstractVertex) (nspace pipeline : String) :
    List String :=
  if v.isASource then []
  else (List.range v.getPartitionCount).map (generateBufferName nspace pipeline v.name)

namespace Pipeline

def getAllBuffers (pl : Pipeline) : List String :=
  pl.vertices.flatMap fun v => v.ownedBufferNames pl.nspace pl.name

def getAllBuckets (pl : Pipeline) : List String :=
  (pl.edges.map fun e => generateEdgeBucketName pl.nspace pl.name e.fromVertex e.toVertex) ++
    pl.vertices.filterMap fun v =>
      if v.source then some (generateSourceBucketName pl.nspace pl.name v.name)
      else if v.sink then some (generateSinkBucketName pl.nspace pl.name v.name)
      else none

end Pipeline

/-! ## Resources and their names -/

/-- What a pipeline has a name for. -/
inductive Resource where
  | buffer (vertex : String) (index : Nat)
  | edgeBucket (fromVertex toVertex : String)
  | sourceBucket (vertex : String)
  | sinkBucket (vertex : String)
deriving DecidableEq, Repr

namespace Resource

def name (nspace pipeline : String) : Resource → String
  | buffer v i => generateBufferName nspace pipeline v i
  | edgeBucket f t => generateEdgeBucketName nspace pipeline f t
  | sourceBucket v => generateSourceBucketName nspace pipeline v
  | sinkBucket v => generateSinkBucketName nspace pipeline v

/-- The part of the name that comes from the vertices. -/
def rest : Resource → String
  | buffer v i => v ++ "-" ++ toString i
  | edgeBucket f t => f ++ "-" ++ t
  | sourceBucket v => v ++ "_SOURCE"
  | sinkBucket v => v ++ "_SINK"

theorem name_eq (nspace pipeline : String) (r : Resource) :
    r.name nspace pipeline = nspace ++ "-" ++ (pipeline ++ "-" ++ r.rest) := by
  cases r <;> simp only [name, rest, generateBufferName, generateEdgeBucketName,
    generateSourceBucketName, generateSinkBucketName, String.append_assoc]

/-- Within a namespace the names agree when the parts after the namespace do. -/
theorem name_eq_name_iff {nspace p p' : String} {r r' : Resource} :
    r.name nspace p = r'.name nspace p' ↔ p ++ "-" ++ r.rest = p' ++ "-" ++ r'.rest := by
  rw [name_eq, name_eq]
  exact String.append_right_inj _

end Resource

/-- The names of two edges can be cut in two ways: the first vertex of the second edge is that
of the first edge with a further part, and the second vertex of the first edge starts with this
part. -/
def Edge.Meets (e e' : Edge) : Prop :=
  ∃ x, e'.fromVertex = e.fromVertex ++ "-" ++ x ∧ e.toVertex = x ++ "-" ++ e'.toVertex

/-- The bucket of an edge is that of another edge only when the two edges meet. -/
theorem edgeBucket_eq_iff {e e' : Edge} : (Resource.edgeBucket e.fromVertex e.toVertex).rest =
    (Resource.edgeBucket e'.fromVertex e'.toVertex).rest ↔
      Resource.edgeBucket e.fromVertex e.toVertex = .edgeBucket e'.fromVertex e'.toVertex ∨
        e.Meets e' ∨ e'.Meets e := by
  rw [Resource.rest, Resource.rest, append_dash_eq_iff, Resource.edgeBucket.injEq]
  rfl

/-- A label has no underscore. -/
theorem underscore_notMem_of_label {value : String} (h : isDns1035Label value = true) :
    '_' ∉ value.toList := by
  unfold isDns1035Label at h
  cases hvalue : value.toList with
  | nil => exact not_mem_nil
  | cons =>
    rw [hvalue] at h
    simp only [Bool.and_eq_true, all_eq_true] at h
    obtain ⟨⟨⟨hc, hcs⟩, _⟩, _⟩ := h
    rw [mem_cons]
    rintro (rfl | hmem)
    · exact absurd hc (by decide)
    · exact absurd (hcs _ hmem) (by decide)

/-! ## The resources of a pipeline -/

section

variable (v : AbstractVertex)

/-- The buffers that a vertex owns. -/
def AbstractVertex.buffers : List Resource :=
  if v.isASource then [] else (List.range v.getPartitionCount).map (Resource.buffer v.name)

/-- The bucket of a source or sink vertex. -/
def AbstractVertex.bucket : Option Resource :=
  if v.source then some (.sourceBucket v.name)
  else if v.sink then some (.sinkBucket v.name)
  else none

variable {r : Resource}

theorem AbstractVertex.eq_of_mem_buffers {v : AbstractVertex} (h : r ∈ v.buffers) :
    ∃ i, r = .buffer v.name i := by
  unfold buffers at h
  split at h
  · cases h
  · obtain ⟨i, _, heq⟩ := mem_map.mp h
    exact ⟨i, heq.symm⟩

theorem AbstractVertex.eq_of_bucket {v : AbstractVertex} (h : v.bucket = some r) :
    r = .sourceBucket v.name ∨ r = .sinkBucket v.name := by
  unfold bucket at h
  split at h
  · exact .inl (Option.some.inj h).symm
  · split at h
    · exact .inr (Option.some.inj h).symm
    · cases h

theorem AbstractVertex.buffers_nodup : v.buffers.Nodup := by
  unfold buffers
  split
  · exact nodup_nil
  · apply nodup_range.map
    intro i j h
    injection h

theorem AbstractVertex.map_name_buffers (nspace pipeline : String) :
    v.buffers.map (Resource.name nspace pipeline) = v.ownedBufferNames nspace pipeline := by
  unfold buffers ownedBufferNames
  split
  · rfl
  · rw [map_map]
    rfl

end

namespace Pipeline

section

variable (pl : Pipeline)

def buffers : List Resource :=
  pl.vertices.flatMap AbstractVertex.buffers

def buckets : List Resource :=
  (pl.edges.map fun e => Resource.edgeBucket e.fromVertex e.toVertex) ++
    pl.vertices.filterMap AbstractVertex.bucket

theorem getAllBuffers_eq :
    pl.getAllBuffers = pl.buffers.map (Resource.name pl.nspace pl.name) := by
  simp only [getAllBuffers, buffers, map_flatMap, map_name_buffers]

theorem getAllBuckets_eq :
    pl.getAllBuckets = pl.buckets.map (Resource.name pl.nspace pl.name) := by
  rw [getAllBuckets, buckets, map_append, map_map, map_filterMap]
  congr 1
  congr 1
  funext v
  unfold bucket
  split
  · rfl
  · split <;> rfl

end

section

variable {pl : Pipeline} (haccepted : pl.Accepted)

include haccepted

theorem pairwise_name_ne : pl.vertices.Pairwise fun v w => v.name ≠ w.name :=
  pairwise_map.mp haccepted.vertices_nodup

theorem buffers_nodup : pl.buffers.Nodup := by
  refine nodup_flatMap.mpr ⟨fun v _ => v.buffers_nodup, ?_⟩
  apply (pairwise_name_ne haccepted).imp
  intro v w hne r hv hw
  obtain ⟨i, rfl⟩ := eq_of_mem_buffers hv
  obtain ⟨j, heq⟩ := eq_of_mem_buffers hw
  injection heq with hname
  exact hne hname

theorem buckets_nodup : pl.buckets.Nodup := by
  refine nodup_append.mpr ⟨?_, ?_, ?_⟩
  · have hinj : Function.Injective fun names : String × String =>
        Resource.edgeBucket names.1 names.2 := by
      rintro ⟨f, t⟩ ⟨f', t'⟩ h
      injection h with hf ht
      exact Prod.ext hf ht
    have hnodup := haccepted.edges_nodup.map hinj
    rwa [map_map] at hnodup
  · refine pairwise_filterMap.mpr ((pairwise_name_ne haccepted).imp ?_)
    intro v w hne r hv r' hw heq
    rcases eq_of_bucket hv with rfl | rfl <;>
      rcases eq_of_bucket hw with rfl | rfl <;> simp [hne] at heq
  · intro r hedge r' hbucket heq
    obtain ⟨e, _, rfl⟩ := mem_map.mp hedge
    obtain ⟨v, _, hr⟩ := mem_filterMap.mp hbucket
    rcases eq_of_bucket hr with rfl | rfl <;> cases heq

/-- The buffers of a pipeline have different names: the number after the last dash can be read
back. -/
theorem getAllBuffers_nodup : pl.getAllBuffers.Nodup := by
  rw [getAllBuffers_eq, nodup_map_iff_inj_on (buffers_nodup haccepted)]
  intro r hr r' hr' h
  obtain ⟨v, _, hv⟩ := mem_flatMap.mp hr
  obtain ⟨w, _, hw⟩ := mem_flatMap.mp hr'
  obtain ⟨i, rfl⟩ := eq_of_mem_buffers hv
  obtain ⟨j, rfl⟩ := eq_of_mem_buffers hw
  obtain ⟨hname, rfl⟩ := dash_number_inj h
  rw [String.append_right_inj _ |>.mp hname]

/-- The bucket of a source or a sink is the bucket of nothing else. -/
theorem bucket_rest_inj {v : AbstractVertex} {r r' : Resource} (hr : v.bucket = some r)
    (hr' : r' ∈ pl.buckets) (h : r.rest = r'.rest) : r = r' := by
  rcases mem_append.mp hr' with hedge | hbucket
  · -- there is no underscore in the name of an edge
    obtain ⟨e, he, rfl⟩ := mem_map.mp hedge
    obtain ⟨hfrom, hto⟩ := haccepted.endpoints e he
    obtain ⟨f, hf, hfname⟩ := mem_map.mp hfrom
    obtain ⟨t, ht, htname⟩ := mem_map.mp hto
    have hmark : '_' ∈ (Resource.edgeBucket e.fromVertex e.toVertex).rest.toList := by
      rw [← h]
      rcases eq_of_bucket hr with rfl | rfl <;> simp [Resource.rest]
    have hf' := underscore_notMem_of_label (haccepted.label f hf)
    have ht' := underscore_notMem_of_label (haccepted.label t ht)
    simp [Resource.rest, ← hfname, ← htname, hf', ht'] at hmark
  · obtain ⟨w, _, hw⟩ := mem_filterMap.mp hbucket
    have hlast := congrArg (fun s : String => s.toList.getLast?) h
    rcases eq_of_bucket hr with rfl | rfl <;> rcases eq_of_bucket hw with rfl | rfl
    · rw [String.append_left_inj _ |>.mp h]
    · simp [Resource.rest] at hlast
    · simp [Resource.rest] at hlast
    · rw [String.append_left_inj _ |>.mp h]

/-- The buckets of a pipeline have different names exactly when no two edges meet. -/
theorem getAllBuckets_nodup_iff :
    pl.getAllBuckets.Nodup ↔ ∀ e ∈ pl.edges, ∀ e' ∈ pl.edges, ¬e.Meets e' := by
  rw [getAllBuckets_eq, nodup_map_iff_inj_on (buckets_nodup haccepted)]
  simp only [Resource.name_eq_name_iff, String.append_right_inj]
  have hedge : ∀ e ∈ pl.edges, Resource.edgeBucket e.fromVertex e.toVertex ∈ pl.buckets :=
    fun e he => mem_append_left _ (mem_map_of_mem he)
  constructor
  · intro hinj e he e' he' hmeets
    have heq := hinj _ (hedge e he) _ (hedge e' he') (edgeBucket_eq_iff.mpr (.inr (.inl hmeets)))
    -- a name is not its own part
    obtain ⟨x, hfrom, -⟩ := hmeets
    have hlength := congrArg String.length (hfrom.symm.trans (Resource.edgeBucket.inj heq).1.symm)
    simp only [String.length_append] at hlength
    have hdash : "-".length = 1 := rfl
    omega
  · intro hapart r hr r' hr' h
    rcases mem_append.mp hr with hfirst | hbucket
    · rcases mem_append.mp hr' with hsecond | hbucket'
      · obtain ⟨e, he, rfl⟩ := mem_map.mp hfirst
        obtain ⟨e', he', rfl⟩ := mem_map.mp hsecond
        rcases edgeBucket_eq_iff.mp h with heq | hmeets | hmeets
        · exact heq
        · exact absurd hmeets (hapart e he e' he')
        · exact absurd hmeets (hapart e' he' e he)
      · obtain ⟨v, _, hv⟩ := mem_filterMap.mp hbucket'
        exact (bucket_rest_inj haccepted hv hr h.symm).symm
    · obtain ⟨v, _, hv⟩ := mem_filterMap.mp hbucket
      exact bucket_rest_inj haccepted hv hr' h

end

/-- The names of all buffers and buckets of a pipeline. -/
def resourceNames (pl : Pipeline) : List String :=
  pl.getAllBuffers ++ pl.getAllBuckets

theorem resourceNames_eq (pl : Pipeline) :
    pl.resourceNames = (pl.buffers ++ pl.buckets).map (Resource.name pl.nspace pl.name) := by
  rw [resourceNames, getAllBuffers_eq, getAllBuckets_eq, map_append]

/-- The names of two pipelines can be cut in two ways: the name of the second is that of the
first with a further part, and the rest of a name of the first starts with this part and goes on
as the rest of a name of the second. -/
def Overlaps (pl other : Pipeline) : Prop :=
  ∃ x, other.name = pl.name ++ "-" ++ x ∧ ∃ r ∈ pl.buffers ++ pl.buckets,
    ∃ r' ∈ other.buffers ++ other.buckets, r.rest = x ++ "-" ++ r'.rest

/-- Two pipelines of a namespace have no name in common exactly when they do not overlap. -/
theorem disjoint_resourceNames_iff {pl other : Pipeline} (hspace : other.nspace = pl.nspace)
    (hname : other.name ≠ pl.name) : pl.resourceNames.Disjoint other.resourceNames ↔
      ¬pl.Overlaps other ∧ ¬other.Overlaps pl := by
  have hmeet : pl.resourceNames.Disjoint other.resourceNames ↔
      ∀ r ∈ pl.buffers ++ pl.buckets, ∀ r' ∈ other.buffers ++ other.buckets,
        pl.name ++ "-" ++ r.rest ≠ other.name ++ "-" ++ r'.rest := by
    simp only [resourceNames_eq, hspace, disjoint_iff_ne, forall_mem_map, ne_eq,
      Resource.name_eq_name_iff]
  rw [hmeet]
  refine ⟨fun h => ⟨?_, ?_⟩, fun ⟨hfirst, hsecond⟩ r hr r' hr' heq => ?_⟩
  · rintro ⟨x, hx, r, hr, r', hr', hrest⟩
    exact h r hr r' hr' (append_dash_eq_iff.mpr (.inr (.inl ⟨x, hx, hrest⟩)))
  · rintro ⟨x, hx, r', hr', r, hr, hrest⟩
    exact h r hr r' hr' (append_dash_eq_iff.mpr (.inr (.inr ⟨x, hx, hrest⟩)))
  · rcases append_dash_eq_iff.mp heq with ⟨hsame, -⟩ | ⟨x, hx, hrest⟩ | ⟨x, hx, hrest⟩
    · exact hname hsame.symm
    · exact hfirst ⟨x, hx, r, hr, r', hr', hrest⟩
    · exact hsecond ⟨x, hx, r', hr', r, hr, hrest⟩

end Pipeline

/-- When buffers and buckets are not shared, for accepted pipelines: the buffers of a pipeline
have different names; its buckets do exactly when no two edges meet; and two pipelines of a
namespace have no name in common exactly when they do not overlap. -/
theorem resources_not_shared_iff {pl : Pipeline} (hvalid : pl.validatePipeline = .ok ()) :
    pl.getAllBuffers.Nodup ∧
      (pl.getAllBuckets.Nodup ↔ ∀ e ∈ pl.edges, ∀ e' ∈ pl.edges, ¬e.Meets e') ∧
      ∀ other : Pipeline, other.validatePipeline = .ok () → other.nspace = pl.nspace →
        other.name ≠ pl.name → (pl.resourceNames.Disjoint other.resourceNames ↔
          ¬pl.Overlaps other ∧ ¬other.Overlaps pl) := by
  have haccepted := Pipeline.accepted_of_validatePipeline hvalid
  exact ⟨Pipeline.getAllBuffers_nodup haccepted, Pipeline.getAllBuckets_nodup_iff haccepted,
    fun _ _ => Pipeline.disjoint_resourceNames_iff⟩

/-- A pipeline of a source, a keyed reduce vertex with two partitions, and a sink. -/
def simplePipeline (name : String) : Pipeline where
  nspace := "ns"
  name := name
  vertices := [⟨"in", true, false, none, none, none, none⟩,
    ⟨"sum", false, false, some ⟨some ⟨true⟩⟩, some 2, none, none⟩,
    ⟨"out", false, true, none, none, some 1, some 3⟩]
  edges := [⟨"in", "sum", none⟩, ⟨"sum", "out", some ["even"]⟩]

/-- Two pipelines of which one name continues the other. -/
theorem resources_not_shared_simple : (simplePipeline "p").resourceNames =
        ["ns-p-sum-0", "ns-p-sum-1", "ns-p-out-0", "ns-p-in-sum", "ns-p-sum-out",
          "ns-p-in_SOURCE", "ns-p-out_SINK"] ∧
      (∀ e ∈ (simplePipeline "p").edges, ∀ e' ∈ (simplePipeline "p").edges, ¬e.Meets e') ∧
      ¬(simplePipeline "p").Overlaps (simplePipeline "p-in") := by
  have hvalid : (simplePipeline "p").validatePipeline = .ok () := by decide +kernel
  have h := resources_not_shared_iff hvalid
  refine ⟨by decide +kernel, h.2.1.mp (by decide +kernel), ?_⟩
  exact ((h.2.2 (simplePipeline "p-in") (by decide +kernel) rfl (by decide)).mp
    (disjoint_iff_ne.mpr (by decide +kernel))).1

/-- A pipeline with two sources and two sinks whose names overlap around a dash. -/
def dashedPipeline : Pipeline where
  nspace := "ns"
  name := "p"
  vertices := [⟨"a", true, false, none, none, none, none⟩,
    ⟨"a-b", true, false, none, none, none, none⟩,
    ⟨"b-c", false, true, none, none, none, none⟩,
    ⟨"c", false, true, none, none, none, none⟩]
  edges := [⟨"a", "b-c", none⟩, ⟨"a-b", "c", none⟩, ⟨"a", "c", none⟩]

/-- A pipeline of one source and one sink. -/
def pairPipeline (name source sink : String) : Pipeline where
  nspace := "ns"
  name := name
  vertices := [⟨source, true, false, none, none, none, none⟩,
    ⟨sink, false, true, none, none, none, none⟩]
  edges := [⟨source, sink, none⟩]

/-- Two edges of an accepted pipeline share the bucket `ns-p-a-b-c`, and the sinks of two
accepted pipelines share the buffer `ns-p-a-b-0`. -/
theorem resources_shared : dashedPipeline.validatePipeline = .ok () ∧
      dashedPipeline.getAllBuckets.take 2 = ["ns-p-a-b-c", "ns-p-a-b-c"] ∧
      (pairPipeline "p" "in" "a-b").validatePipeline = .ok () ∧
      (pairPipeline "p-a" "in" "b").validatePipeline = .ok () ∧
      (pairPipeline "p" "in" "a-b").getAllBuffers = ["ns-p-a-b-0"] ∧
      (pairPipeline "p-a" "in" "b").getAllBuffers = ["ns-p-a-b-0"] := by
  decide +kernel

end Numaflow.Controller
