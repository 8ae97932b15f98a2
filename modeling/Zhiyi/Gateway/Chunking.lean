import Zhiyi.Gateway.Reading

set_option autoImplicit false

/-! A response sent as chunks: text and tool call arguments split anyhow, everything
else sent once. The loop of a stream puts the chunks together again. -/
namespace Zhiyi
namespace Gateway
open Python

variable {O : Objects}

def textsOf (chunks : List (ProviderChunk O)) : List String := chunks.filterMap (·.textDelta)

def deltasAt (index : ℕ) (chunks : List (ProviderChunk O)) : List ToolCallDelta :=
  (chunks.filterMap (·.toolCallDelta)).filter (·.index = index)

/-- A tool call sent as deltas: its id and name at least once, its arguments as
    fragments of their JSON text. -/
structure Fragments (call : ToolCall O) (deltas : List ToolCallDelta) : Prop where
  ids : ∀ delta ∈ deltas, ∀ id ∈ delta.id, id = call.id
  names : ∀ delta ∈ deltas, ∀ name ∈ delta.name, name = call.name
  identified : ∃ delta ∈ deltas, delta.id = some call.id
  named : ∃ delta ∈ deltas, delta.name = some call.name
  arguments : O.loads (String.join (deltas.map (·.argumentsFragment))) = .ok call.arguments

/-- The chunks are some chunking of the response. -/
structure Chunked (answer : ProviderResponse O) (chunks : List (ProviderChunk O)) : Prop where
  text : String.join (textsOf chunks) = String.join (answer.content.map (·.text))
  usage : chunks.filterMap (·.usage) = answer.usage.toList
  providerRequestId : chunks.filterMap (·.providerRequestId) = answer.providerRequestId.toList
  structuredOutput : chunks.filterMap (·.structuredOutput) = answer.structuredOutput.toList
  finishReason : (chunks.filterMap (·.finishReason)).getLast?.getD .unknown = answer.finishReason
  toolCalls : ∃ tools : List (ℕ × ToolCall O), tools.map Prod.snd = answer.toolCalls ∧
    tools.Pairwise (fun p q => p.1 < q.1) ∧
    (∀ p ∈ tools, Fragments p.2 (deltasAt p.1 chunks)) ∧
    ∀ chunk ∈ chunks, ∀ delta ∈ chunk.toolCallDelta, ∃ p ∈ tools, p.1 = delta.index

/-- The deltas of each tool call agree about its id and name. -/
def Consistent (chunks : List (ProviderChunk O)) : Prop :=
  ∀ index, ∃ id name, ∀ delta ∈ deltasAt index chunks,
    (∀ known ∈ delta.id, known = id) ∧ ∀ known ∈ delta.name, known = name

def bufferOf (deltas : List ToolCallDelta) : ToolCallBuffer :=
  ⟨deltas.findSome? (·.id), deltas.findSome? (·.name), deltas.map (·.argumentsFragment)⟩

/-- The buffers after the chunks `done`. -/
def Buffers (done : List (ProviderChunk O)) (buffers : Dict ℕ ToolCallBuffer) : Prop :=
  ∀ index, buffers.get? index =
    if deltasAt index done = [] then none else some (bufferOf (deltasAt index done))

/-- The variables of a stream after the chunks `done`. -/
structure Gathered (done : List (ProviderChunk O)) (l : StreamLocals O) : Prop where
  text : String.join l.textFragments = String.join (textsOf done)
  usage : l.usage = (done.filterMap (·.usage)).getLast?
  providerRequestId : l.providerRequestId = (done.filterMap (·.providerRequestId)).getLast?
  structuredOutput : l.structuredOutput = (done.filterMap (·.structuredOutput)).getLast?
  finishReason : l.finishReason = (done.filterMap (·.finishReason)).getLast?.getD .unknown
  toolBuffers : Buffers done l.toolBuffers

theorem gathered_initial : Gathered [] (.initial : StreamLocals O) := by
  constructor <;> simp [StreamLocals.initial, textsOf, deltasAt, Buffers]

theorem findSome_concat {α : Type} {f : α → Option String} {as : List α} {a : α} {known : String}
    (has : ∀ b ∈ as, ∀ x ∈ f b, x = known) (ha : ∀ x ∈ f a, x = known) (requestId : String) :
    ToolCallBuffer.agree (as.findSome? f) (f a) requestId = .ok ((as ++ [a]).findSome? f) := by
  have hsome : ∀ x, as.findSome? f = some x → x = known := by
    intro x hx
    obtain ⟨b, hb, hfb⟩ := List.exists_of_findSome?_eq_some hx
    exact has b hb x hfb
  rw [List.findSome?_append]
  unfold ToolCallBuffer.agree
  cases hf : as.findSome? f with
  | none => cases hfa : f a <;> simp [hfa]
  | some x =>
    cases hfa : f a with
    | none => simp
    | some y =>
      have hxy : x = y := (hsome x hf).trans (ha y hfa).symm
      simp [hxy]

theorem append_bufferOf {deltas : List ToolCallDelta} {delta : ToolCallDelta} {id name : String}
    (h : ∀ d ∈ deltas ++ [delta], (∀ known ∈ d.id, known = id) ∧ ∀ known ∈ d.name, known = name)
    (requestId : String) :
    (bufferOf deltas).append delta requestId = .ok (bufferOf (deltas ++ [delta])) := by
  obtain ⟨hdeltas, hdelta⟩ := List.forall_mem_append.mp h
  obtain ⟨hid, hname⟩ := hdelta delta (List.mem_singleton.mpr rfl)
  unfold ToolCallBuffer.append
  rw [bufferOf, findSome_concat (fun d hd => (hdeltas d hd).1) hid,
    findSome_concat (fun d hd => (hdeltas d hd).2) hname]
  simp [bufferOf]
  rfl

theorem deliverText_read {s : StreamState O} (h : s.consumerClosed = false) (l : StreamLocals O)
    {step : ChunkStep O} (hread : step.Read) :
    ∃ t, t.consumerClosed = false ∧ deliverText s l step =
      (t, { l with textFragments :=
        l.textFragments ++ (step.chunk.textDelta.filter (· ≠ "")).toList }, .ok ()) := by
  unfold deliverText
  cases step.chunk.textDelta with
  | none => exact ⟨s, h, by simp⟩
  | some text =>
    by_cases hempty : text = ""
    · exact ⟨s, h, by simp [hempty, Option.filter_some]⟩
    · have hshown : ((some text).filter (· ≠ "")).toList = [text] := by
        simp [Option.filter_some, hempty]
      simp only [hempty, if_false, hread.1, hshown]
      rw [yieldItem_read (s := { s with visible := true }) h]
      refine ⟨_, ?_, rfl⟩
      exact h

theorem deliverUsage_read {s : StreamState O} (h : s.consumerClosed = false) (l : StreamLocals O)
    {step : ChunkStep O} (hread : step.Read) :
    ∃ t, t.consumerClosed = false ∧ deliverUsage s l step =
      (t, { l with usage := step.chunk.usage.or l.usage }, .ok ()) := by
  unfold deliverUsage
  cases step.chunk.usage with
  | none => exact ⟨s, h, rfl⟩
  | some usage =>
    simp only [hread.2.2, yieldItem_read h]
    refine ⟨_, ?_, rfl⟩
    exact h

theorem deltasAt_concat (index : ℕ) (done : List (ProviderChunk O)) (chunk : ProviderChunk O) :
    deltasAt index (done ++ [chunk]) =
      deltasAt index done ++ (chunk.toolCallDelta.filter (·.index = index)).toList := by
  unfold deltasAt
  rw [List.filterMap_append, List.filter_append]
  cases hdelta : chunk.toolCallDelta with
  | none => simp [hdelta]
  | some delta => by_cases hindex : delta.index = index <;> simp [hdelta, hindex, Option.filter_some]

theorem deliverTool_read (requestId : String) {s : StreamState O} (h : s.consumerClosed = false)
    {done : List (ProviderChunk O)} {l : StreamLocals O} (hl : Buffers done l.toolBuffers) {step : ChunkStep O}
    (hread : step.Read) (hconsistent : Consistent (done ++ [step.chunk])) :
    ∃ t buffers, t.consumerClosed = false ∧
      deliverTool requestId s l step = (t, { l with toolBuffers := buffers }, .ok ()) ∧
      Buffers (done ++ [step.chunk]) buffers := by
  unfold deliverTool
  cases hdelta : step.chunk.toolCallDelta with
  | none =>
    refine ⟨s, l.toolBuffers, h, rfl, fun index => ?_⟩
    rw [deltasAt_concat, hdelta]
    simpa using hl index
  | some delta =>
    have hbuffer : (l.toolBuffers.get? delta.index).getD .empty =
        bufferOf (deltasAt delta.index done) := by
      rw [hl]
      split_ifs with hnone
      · rw [hnone]
        rfl
      · rfl
    have hhere : deltasAt delta.index (done ++ [step.chunk]) =
        deltasAt delta.index done ++ [delta] := by
      simp [deltasAt_concat, hdelta]
    obtain ⟨id, name, hagree⟩ := hconsistent delta.index
    rw [hhere] at hagree
    simp only [hbuffer, append_bufferOf hagree requestId, hread.2.1]
    rw [yieldItem_read (s := { s with visible := true }) h]
    refine ⟨_, _, ?_, rfl, fun index => ?_⟩
    · exact h
    rw [Dict.get?_insert]
    split_ifs with hindex hnone hnone
    · subst hindex
      rw [hhere] at hnone
      simp at hnone
    · subst hindex
      rw [hhere]
    · have hne : delta.index ≠ index := fun he => hindex he.symm
      have hsame : deltasAt index (done ++ [step.chunk]) = deltasAt index done := by
        simp [deltasAt_concat, hdelta, hne]
      rw [hl, ← hsame, if_pos hnone]
    · have hne : delta.index ≠ index := fun he => hindex he.symm
      have hsame : deltasAt index (done ++ [step.chunk]) = deltasAt index done := by
        simp [deltasAt_concat, hdelta, hne]
      rw [hl, ← hsame, if_neg hnone]

theorem last_concat {α : Type} (f : ProviderChunk O → Option α) (done : List (ProviderChunk O))
    (chunk : ProviderChunk O) :
    ((done ++ [chunk]).filterMap f).getLast? = (f chunk).or (done.filterMap f).getLast? := by
  rw [List.filterMap_append]
  cases hf : f chunk with
  | none => simp [hf]
  | some a => simp [hf]

theorem textsOf_concat (done : List (ProviderChunk O)) (chunk : ProviderChunk O) :
    String.join (textsOf (done ++ [chunk])) =
      String.join (textsOf done) ++ String.join (chunk.textDelta.filter (· ≠ "")).toList := by
  unfold textsOf
  rw [List.filterMap_append, String.join_append]
  congr 1
  cases htext : chunk.textDelta with
  | none => simp [htext]
  | some text =>
    by_cases hempty : text = ""
    · simp [htext, hempty, Option.filter_some]
    · simp [htext, hempty, Option.filter_some]

theorem deliver_gathers (requestId : String) {s : StreamState O} (h : s.consumerClosed = false)
    {done : List (ProviderChunk O)} {l : StreamLocals O} (hl : Gathered done l) {step : ChunkStep O}
    (hread : step.Read) (hconsistent : Consistent (done ++ [step.chunk]))
    (honce : ((done ++ [step.chunk]).filterMap (·.structuredOutput)).length ≤ 1) :
    (deliver requestId s l step).2.2 = .ok () ∧
      Gathered (done ++ [step.chunk]) (deliver requestId s l step).2.1 := by
  obtain ⟨s₁, h₁, htext⟩ := deliverText_read h l hread
  obtain ⟨s₂, buffers, h₂, htool, hbuffers⟩ := deliverTool_read requestId h₁ (l := { l with
    textFragments := l.textFragments ++ (step.chunk.textDelta.filter (· ≠ "")).toList })
    hl.toolBuffers hread hconsistent
  obtain ⟨s₃, h₃, husage⟩ := deliverUsage_read h₂ { l with
    textFragments := l.textFragments ++ (step.chunk.textDelta.filter (· ≠ "")).toList
    toolBuffers := buffers } hread
  have hdeliver : deliver requestId s l step =
      (s₃, collect requestId { l with
        textFragments := l.textFragments ++ (step.chunk.textDelta.filter (· ≠ "")).toList
        toolBuffers := buffers
        usage := step.chunk.usage.or l.usage } step.chunk) := by
    simp only [deliver, htext, htool, husage]
  rw [hdeliver]
  have hstructured : l.structuredOutput = none ∨ step.chunk.structuredOutput = none := by
    rw [hl.structuredOutput]
    rw [List.filterMap_append, List.length_append] at honce
    cases hnew : step.chunk.structuredOutput with
    | none => exact .inr rfl
    | some value =>
      simp only [hnew, List.filterMap_cons, List.filterMap_nil, List.length_singleton] at honce
      have hnil : done.filterMap (·.structuredOutput) = [] := List.length_eq_zero_iff.mp (by omega)
      exact .inl (by rw [hnil]; rfl)
  refine ⟨?_, ?_⟩
  · unfold collect
    rcases hstructured with hnone | hnone <;> simp only [hnone]
    cases step.chunk.structuredOutput <;> rfl
  · have hcollected : (collect requestId { l with
        textFragments := l.textFragments ++ (step.chunk.textDelta.filter (· ≠ "")).toList
        toolBuffers := buffers
        usage := step.chunk.usage.or l.usage } step.chunk).1 = {
        usage := step.chunk.usage.or l.usage
        providerRequestId := step.chunk.providerRequestId.or l.providerRequestId
        textFragments := l.textFragments ++ (step.chunk.textDelta.filter (· ≠ "")).toList
        finishReason := step.chunk.finishReason.getD l.finishReason
        structuredOutput := step.chunk.structuredOutput.or l.structuredOutput
        toolBuffers := buffers } := by
      unfold collect
      rcases hstructured with hnone | hnone <;> simp only [hnone]
      · cases step.chunk.structuredOutput <;> rfl
      · rfl
    rw [hcollected]
    constructor
    · rw [String.join_append, hl.text, textsOf_concat]
    · rw [hl.usage, last_concat]
    · rw [hl.providerRequestId, last_concat]
    · rw [hl.structuredOutput, last_concat]
    · rw [hl.finishReason, last_concat]
      cases step.chunk.finishReason <;> simp
    · exact hbuffers

theorem Consistent.of_append {done more : List (ProviderChunk O)} (h : Consistent (done ++ more)) :
    Consistent done := by
  intro index
  obtain ⟨id, name, hagree⟩ := h index
  refine ⟨id, name, fun delta hdelta => hagree delta ?_⟩
  unfold deltasAt at hdelta ⊢
  rw [List.filterMap_append, List.filter_append]
  exact List.mem_append_left _ hdelta

/-- The consumer reads every item, no timeout fires, and the iterator is closed. -/
structure Sends (answer : StreamAnswer O) (deadline : ℚ) : Prop where
  reads : ∀ step ∈ answer.chunks, step.Read
  checks : ∀ step ∈ answer.chunks, step.check < deadline
  lastCheck : answer.lastCheck < deadline
  close : answer.close = .ok ()

theorem consume_gathers (requestId : String) {deadline : ℚ} (target : ModelTarget)
    {answer : StreamAnswer O} (hanswer : Sends answer deadline) (hending : answer.ending = .ok ())
    (steps : List (ChunkStep O)) (hsteps : ∀ step ∈ steps, step ∈ answer.chunks)
    (done : List (ProviderChunk O)) (hconsistent : Consistent (done ++ steps.map (·.chunk)))
    (honce : ((done ++ steps.map (·.chunk)).filterMap (·.structuredOutput)).length ≤ 1)
    {s : StreamState O} (h : s.consumerClosed = false) {l : StreamLocals O} (hb : Buffered s l)
    (hl : Gathered done l) :
    (consume requestId deadline target answer steps false s l).2.2 = .ok () ∧
      Gathered (done ++ steps.map (·.chunk))
        (consume requestId deadline target answer steps false s l).2.1 := by
  induction steps generalizing done s l with
  | nil =>
    unfold consume
    simp only [remaining_of_lt hanswer.lastCheck, hending, List.map_nil, List.append_nil]
    exact ⟨rfl, hl⟩
  | cons step steps ih =>
    obtain ⟨hstep, hrest⟩ := List.forall_mem_cons.mp hsteps
    have hread := hanswer.reads step hstep
    have hsplit : done ++ (step :: steps).map (·.chunk) =
        (done ++ [step.chunk]) ++ steps.map (·.chunk) := by simp
    rw [hsplit] at hconsistent honce ⊢
    obtain ⟨hok, hgathered⟩ := deliver_gathers requestId h hl hread
      hconsistent.of_append (((List.sublist_append_left _ _).filterMap _).length_le.trans honce)
    have hreads := deliver_reads requestId h hb hread
    unfold consume
    simp only [remaining_of_lt (hanswer.checks step hstep), markInvoked, Bool.false_eq_true, if_false]
    generalize deliver requestId s l step = delivered at hok hgathered hreads
    obtain ⟨t, l', left⟩ := delivered
    simp only at hok hgathered hreads
    subst hok
    simp only
    exact ih hrest _ hconsistent honce (hreads.consumerClosed.trans h) hreads.buffered hgathered

theorem Chunked.consistent {answer : ProviderResponse O} {chunks : List (ProviderChunk O)}
    (h : Chunked answer chunks) : Consistent chunks := by
  obtain ⟨tools, -, -, hfragments, hindices⟩ := h.toolCalls
  intro index
  by_cases htool : ∃ p ∈ tools, p.1 = index
  · obtain ⟨p, hp, rfl⟩ := htool
    have hfragment := hfragments p hp
    exact ⟨p.2.id, p.2.name, fun delta hdelta =>
      ⟨hfragment.ids delta hdelta, hfragment.names delta hdelta⟩⟩
  · refine ⟨"", "", fun delta hdelta => absurd ?_ htool⟩
    obtain ⟨hmem, hindex⟩ := List.mem_filter.mp hdelta
    obtain ⟨chunk, hchunk, hdelta⟩ := List.mem_filterMap.mp hmem
    obtain ⟨p, hp, hindex'⟩ := hindices chunk hchunk delta hdelta
    exact ⟨p, hp, hindex'.trans (by simpa using hindex)⟩

theorem Chunked.once {answer : ProviderResponse O} {chunks : List (ProviderChunk O)}
    (h : Chunked answer chunks) : (chunks.filterMap (·.structuredOutput)).length ≤ 1 := by
  rw [h.structuredOutput]
  cases answer.structuredOutput <;> simp

theorem findSome_known {α : Type} {f : α → Option String} {as : List α} {known : String}
    (has : ∀ a ∈ as, ∀ x ∈ f a, x = known) (hsent : ∃ a ∈ as, f a = some known) :
    as.findSome? f = some known := by
  cases hf : as.findSome? f with
  | none =>
    obtain ⟨a, ha, hfa⟩ := hsent
    rw [List.findSome?_eq_none_iff] at hf
    rw [hf a ha] at hfa
    cases hfa
  | some x =>
    obtain ⟨a, ha, hfa⟩ := List.exists_of_findSome?_eq_some hf
    rw [has a ha x hfa]

theorem build_bufferOf {call : ToolCall O} {deltas : List ToolCallDelta} (h : Fragments call deltas)
    (requestId : String) : (bufferOf deltas).build requestId = .ok call := by
  have hid := findSome_known h.ids h.identified
  have hname := findSome_known h.names h.named
  have hvalid : call.id ≠ "" ∧ matchesToolName call.name = true ∧ O.isMapping call.arguments = true :=
    ⟨call.identified, call.named, call.mapping⟩
  simp only [ToolCallBuffer.build, bufferOf, hid, hname, h.arguments, dif_pos hvalid]

theorem mapM_eq_ok {α β : Type} {f : α → Except Exn β} {k : α → β} {as : List α}
    (h : ∀ a ∈ as, f a = .ok (k a)) : as.mapM f = .ok (as.map k) := by
  induction as with
  | nil => rfl
  | cons a as ih =>
    obtain ⟨ha, has⟩ := List.forall_mem_cons.mp h
    rw [List.mapM_cons, ha, ih has]
    rfl

/-- The response with its text in one part. -/
def joined (answer : ProviderResponse O) : ProviderResponse O :=
  { answer with content :=
      let text := String.join (answer.content.map (·.text))
      if h : text ≠ "" then [⟨text, h⟩] else [] }

theorem getLast?_toList {α : Type} (a : Option α) : a.toList.getLast? = a := by cases a <;> rfl

theorem assembled_of_chunked {answer : ProviderResponse O} {chunks : List (ProviderChunk O)}
    (h : Chunked answer chunks) {l : StreamLocals O} (hl : Gathered chunks l) (requestId : String) :
    l.usage = answer.usage ∧ l.providerRequestId = answer.providerRequestId ∧
      assembled l requestId = .ok (joined answer) := by
  obtain ⟨tools, htools, hascending, hfragments, hindices⟩ := h.toolCalls
  have hascends : Entries.Ascending (tools.map fun p => (p.1, bufferOf (deltasAt p.1 chunks))) :=
    List.pairwise_map.mpr hascending
  have hbuffers : l.toolBuffers = ⟨_, hascends⟩ := by
    refine Dict.ext_get? fun index => ?_
    rw [hl.toolBuffers]
    by_cases htool : ∃ p ∈ tools, p.1 = index
    · obtain ⟨p, hp, rfl⟩ := htool
      obtain ⟨delta, hdelta, -⟩ := (hfragments p hp).identified
      rw [if_neg (List.ne_nil_of_mem hdelta)]
      exact ((Dict.mem_items_iff _ _ _).mp (List.mem_map_of_mem hp)).symm
    · have hnone : deltasAt index chunks = [] := by
        refine List.eq_nil_iff_forall_not_mem.mpr fun delta hdelta => htool ?_
        obtain ⟨hmem, hindex⟩ := List.mem_filter.mp hdelta
        obtain ⟨chunk, hchunk, hdelta⟩ := List.mem_filterMap.mp hmem
        obtain ⟨p, hp, hindex'⟩ := hindices chunk hchunk delta hdelta
        exact ⟨p, hp, hindex'.trans (by simpa using hindex)⟩
      rw [if_pos hnone]
      cases hget : Dict.get? ⟨_, hascends⟩ index with
      | none => rfl
      | some buffer =>
        obtain ⟨p, hp, hpair⟩ := List.mem_map.mp ((Dict.mem_items_iff _ _ _).mpr hget)
        exact absurd ⟨p, hp, (Prod.mk.inj hpair).1⟩ htool
  have hcalls : (l.toolBuffers.items.mapM fun p => (p.2.build requestId : Except Exn (ToolCall O))) =
      .ok answer.toolCalls := by
    rw [hbuffers, ← htools, List.mapM_map]
    exact mapM_eq_ok fun p hp => build_bufferOf (hfragments p hp) requestId
  have husage : l.usage = answer.usage := by rw [hl.usage, h.usage, getLast?_toList]
  have hrequest : l.providerRequestId = answer.providerRequestId := by
    rw [hl.providerRequestId, h.providerRequestId, getLast?_toList]
  have hstructured : l.structuredOutput = answer.structuredOutput := by
    rw [hl.structuredOutput, h.structuredOutput, getLast?_toList]
  have hfinish : l.finishReason = answer.finishReason := by rw [hl.finishReason, h.finishReason]
  have htext : String.join l.textFragments = String.join (answer.content.map (·.text)) := by
    rw [hl.text, h.text]
  refine ⟨husage, hrequest, ?_⟩
  unfold assembled joined
  rw [hcalls]
  simp only [bind, Except.bind, pure, Except.pure, husage, hrequest, hstructured, hfinish, htext]

end Gateway
end Zhiyi
