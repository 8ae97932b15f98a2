import Zhiyi.Gateway.Agreement

set_option autoImplicit false

/-! Streamed tool calls whose deltas arrive interleaved. What an attempt ends with is a function
of what its chunks say, with the deltas of every tool call apart from those of the others, so
the order in which parallel calls arrive does not matter. -/
namespace Zhiyi
namespace Gateway
open Python

variable {O : Objects}

abbrev ToolDeltas := Dict ℕ (List ToolCallDelta)

def agreed (f : ToolCallDelta → Option String) (deltas : List ToolCallDelta) : Bool :=
  deltas.all fun delta => (f delta).all fun value => deltas.findSome? f == some value

def coherent (deltas : List ToolCallDelta) : Bool := agreed (·.id) deltas && agreed (·.name) deltas

/-- The tool calls that the deltas spell, in the order of their indices. -/
def ToolDeltas.build (family : ToolDeltas) (requestId : String) : Except Exn (List (ToolCall O)) :=
  if family.items.all fun p => coherent p.2 then
    family.items.mapM fun p => (bufferOf p.2).build requestId
  else .error (ToolCallBuffer.malformedFragments requestId)

structure Said (O : Objects) where
  text : String
  usage : Option ModelUsage
  providerRequestId : Option String
  structuredOutput : Option O.Value
  finishReason : FinishReason
  family : ToolDeltas

/-- The chunks are some interleaving of this. -/
structure Conveys (chunks : List (ProviderChunk O)) (said : Said O) : Prop where
  text : String.join (textsOf chunks) = said.text
  usage : (chunks.filterMap (·.usage)).getLast? = said.usage
  providerRequestId : (chunks.filterMap (·.providerRequestId)).getLast? = said.providerRequestId
  structuredOutput : chunks.filterMap (·.structuredOutput) = said.structuredOutput.toList
  finishReason : (chunks.filterMap (·.finishReason)).getLast?.getD .unknown = said.finishReason
  deltas : ∀ index, deltasAt index chunks = (said.family.get? index).getD []
  nonempty : ∀ index, said.family.get? index ≠ some []

def Said.answer (said : Said O) (calls : List (ToolCall O)) : ProviderResponse O where
  content := if h : said.text ≠ "" then [⟨said.text, h⟩] else []
  finishReason := said.finishReason
  usage := said.usage
  providerRequestId := said.providerRequestId
  toolCalls := calls
  structuredOutput := said.structuredOutput

theorem agreed_iff {f : ToolCallDelta → Option String} {deltas : List ToolCallDelta} :
    agreed f deltas = true ↔ ∃ known, ∀ delta ∈ deltas, ∀ value ∈ f delta, value = known := by
  simp only [agreed, List.all_eq_true, Option.all_eq_true, beq_iff_eq]
  constructor
  · intro h
    refine ⟨(deltas.findSome? f).getD "", fun delta hdelta value hvalue => ?_⟩
    rw [h delta hdelta value hvalue]
    rfl
  · rintro ⟨known, h⟩ delta hdelta value hvalue
    rw [h delta hdelta value hvalue]
    exact findSome_known h ⟨delta, hdelta, by rw [hvalue, h delta hdelta value hvalue]⟩

theorem coherent_iff {deltas : List ToolCallDelta} :
    coherent deltas = true ↔ ∃ id name, ∀ delta ∈ deltas,
      (∀ known ∈ delta.id, known = id) ∧ ∀ known ∈ delta.name, known = name := by
  rw [coherent, Bool.and_eq_true, agreed_iff, agreed_iff]
  constructor
  · rintro ⟨⟨id, hid⟩, name, hname⟩
    exact ⟨id, name, fun delta hdelta => ⟨hid delta hdelta, hname delta hdelta⟩⟩
  · rintro ⟨id, name, h⟩
    exact ⟨⟨id, fun delta hdelta => (h delta hdelta).1⟩, name, fun delta hdelta => (h delta hdelta).2⟩

theorem consistent_iff {chunks : List (ProviderChunk O)} :
    Consistent chunks ↔ ∀ index, coherent (deltasAt index chunks) = true := by
  unfold Consistent
  simp only [coherent_iff]

theorem agree_conflict {f : ToolCallDelta → Option String} {deltas : List ToolCallDelta}
    {delta : ToolCallDelta} (h : agreed f deltas = true) (hconflict : agreed f (deltas ++ [delta]) = false)
    (requestId : String) :
    ToolCallBuffer.agree (deltas.findSome? f) (f delta) requestId =
      .error (ToolCallBuffer.malformedFragments requestId) := by
  obtain ⟨known, hknown⟩ := agreed_iff.mp h
  have hno : ∀ one, ¬ ∀ d ∈ deltas ++ [delta], ∀ value ∈ f d, value = one := by
    intro one hone
    rw [agreed_iff.mpr ⟨one, hone⟩] at hconflict
    cases hconflict
  cases hdelta : f delta with
  | none =>
    refine absurd (fun d hd value hvalue => ?_) (hno known)
    rcases List.mem_append.mp hd with hd | hd
    · exact hknown d hd value hvalue
    · rw [List.mem_singleton.mp hd, hdelta] at hvalue
      cases hvalue
  | some new =>
    cases hfirst : deltas.findSome? f with
    | none =>
      refine absurd (fun d hd value hvalue => ?_) (hno new)
      rcases List.mem_append.mp hd with hd | hd
      · rw [List.findSome?_eq_none_iff.mp hfirst d hd] at hvalue
        cases hvalue
      · rw [List.mem_singleton.mp hd, hdelta] at hvalue
        exact (Option.some.inj hvalue).symm
    | some first =>
      have hne : first ≠ new := by
        rintro rfl
        refine hno first fun d hd value hvalue => ?_
        rcases List.mem_append.mp hd with hd | hd
        · obtain ⟨d', hd', hfirst'⟩ := List.exists_of_findSome?_eq_some hfirst
          rw [hknown d hd value hvalue, hknown d' hd' first hfirst']
        · rw [List.mem_singleton.mp hd, hdelta] at hvalue
          exact (Option.some.inj hvalue).symm
      exact if_pos hne

theorem append_conflict {deltas : List ToolCallDelta} {delta : ToolCallDelta}
    (h : coherent deltas = true) (hconflict : coherent (deltas ++ [delta]) = false) (requestId : String) :
    (bufferOf deltas).append delta requestId = .error (ToolCallBuffer.malformedFragments requestId) := by
  obtain ⟨hid, hname⟩ := Bool.and_eq_true_iff.mp h
  unfold ToolCallBuffer.append
  cases hids : agreed (·.id) (deltas ++ [delta]) with
  | false =>
    have hagree := agree_conflict hid hids requestId
    simp only [bufferOf, hagree]
    rfl
  | true =>
    have hnames : agreed (·.name) (deltas ++ [delta]) = false := by
      rw [coherent, hids, Bool.true_and] at hconflict
      exact hconflict
    have hagree := agree_conflict hname hnames requestId
    obtain ⟨known, hknown⟩ := agreed_iff.mp hids
    obtain ⟨hbefore, hhere⟩ := List.forall_mem_append.mp hknown
    have hfirst := findSome_concat hbefore (hhere delta (List.mem_singleton.mpr rfl)) requestId
    simp only [bufferOf, hagree, hfirst]
    rfl

theorem deliverTool_conflict (requestId : String) (s : StreamState O) {done : List (ProviderChunk O)}
    {l : StreamLocals O} (hl : Buffers done l.toolBuffers) {step : ChunkStep O} (hdone : Consistent done)
    (hconflict : ¬ Consistent (done ++ [step.chunk])) :
    (deliverTool requestId s l step).2.2 =
      .error (.raised (ToolCallBuffer.malformedFragments requestId)) := by
  rw [consistent_iff] at hdone hconflict
  unfold deliverTool
  cases hdelta : step.chunk.toolCallDelta with
  | none =>
    refine absurd (fun index => ?_) hconflict
    rw [deltasAt_concat, hdelta]
    simpa using hdone index
  | some delta =>
    have hbuffer : (l.toolBuffers.get? delta.index).getD .empty = bufferOf (deltasAt delta.index done) := by
      rw [hl]
      split_ifs with hnone
      · rw [hnone]
        rfl
      · rfl
    have hhere : coherent (deltasAt delta.index done ++ [delta]) = false := by
      by_contra hcoherent
      refine hconflict fun index => ?_
      rw [deltasAt_concat, hdelta]
      by_cases hindex : delta.index = index
      · subst hindex
        simpa [Option.filter_some] using hcoherent
      · simpa [Option.filter_some, hindex] using hdone index
    simp only [hbuffer, append_conflict (hdone delta.index) hhere requestId]

theorem deliver_conflict (requestId : String) {s : StreamState O} (h : s.consumerClosed = false)
    {done : List (ProviderChunk O)} {l : StreamLocals O} (hl : Gathered done l) {step : ChunkStep O}
    (hread : step.Read) (hdone : Consistent done) (hconflict : ¬ Consistent (done ++ [step.chunk])) :
    (deliver requestId s l step).2.2 =
      .error (.raised (ToolCallBuffer.malformedFragments requestId)) := by
  obtain ⟨s₁, -, htext⟩ := deliverText_read h l hread
  have htool := deliverTool_conflict requestId s₁ (l := { l with
    textFragments := l.textFragments ++ (step.chunk.textDelta.filter (· ≠ "")).toList })
    hl.toolBuffers hdone hconflict
  simp only [deliver, htext]
  generalize deliverTool requestId s₁ _ step = delivered at htool ⊢
  obtain ⟨t, l', left⟩ := delivered
  simp only at htool
  subst htool
  rfl

theorem consume_conflict (requestId : String) {deadline : ℚ} (target : ModelTarget)
    {answer : StreamAnswer O} (hanswer : Sends answer deadline) (steps : List (ChunkStep O))
    (hsteps : ∀ step ∈ steps, step ∈ answer.chunks) (done : List (ProviderChunk O)) (hdone : Consistent done)
    (hconflict : ¬ Consistent (done ++ steps.map (·.chunk)))
    (honce : ((done ++ steps.map (·.chunk)).filterMap (·.structuredOutput)).length ≤ 1)
    {s : StreamState O} (h : s.consumerClosed = false) {l : StreamLocals O} (hb : Buffered s l)
    (hl : Gathered done l) :
    (consume requestId deadline target answer steps false s l).2.2 =
      .error (.raised (ToolCallBuffer.malformedFragments requestId)) := by
  induction steps generalizing done s l with
  | nil =>
    rw [List.map_nil, List.append_nil] at hconflict
    exact absurd hdone hconflict
  | cons step steps ih =>
    obtain ⟨hstep, hrest⟩ := List.forall_mem_cons.mp hsteps
    have hread := hanswer.reads step hstep
    have hsplit : done ++ (step :: steps).map (·.chunk) =
        (done ++ [step.chunk]) ++ steps.map (·.chunk) := by simp
    rw [hsplit] at hconflict honce
    unfold consume
    simp only [remaining_of_lt (hanswer.checks step hstep), markInvoked, Bool.false_eq_true, if_false]
    by_cases hnext : Consistent (done ++ [step.chunk])
    · obtain ⟨hok, hgathered⟩ := deliver_gathers requestId h hl hread hnext
        (((List.sublist_append_left _ _).filterMap _).length_le.trans honce)
      have hreads := deliver_reads requestId h hb hread
      generalize deliver requestId s l step = delivered at hok hgathered hreads
      obtain ⟨t, l', left⟩ := delivered
      simp only at hok hgathered hreads
      subst hok
      simp only
      exact ih hrest _ hnext hconflict honce (hreads.consumerClosed.trans h) hreads.buffered hgathered
    · have hleft := deliver_conflict requestId h hl hread hdone hnext
      generalize deliver requestId s l step = delivered at hleft
      obtain ⟨t, l', left⟩ := delivered
      simp only at hleft
      subst hleft
      rfl

theorem Conveys.once {chunks : List (ProviderChunk O)} {said : Said O} (h : Conveys chunks said) :
    (chunks.filterMap (·.structuredOutput)).length ≤ 1 := by
  rw [h.structuredOutput]
  cases said.structuredOutput <;> simp

theorem Conveys.consistent_iff {chunks : List (ProviderChunk O)} {said : Said O} (h : Conveys chunks said) :
    Consistent chunks ↔ (said.family.items.all fun p => coherent p.2) = true := by
  rw [Gateway.consistent_iff, List.all_eq_true]
  constructor
  · rintro hchunks ⟨index, deltas⟩ hmem
    have hcoherent := hchunks index
    rwa [h.deltas, (said.family.mem_items_iff index deltas).mp hmem] at hcoherent
  · intro hfamily index
    rw [h.deltas]
    cases hget : said.family.get? index with
    | none => rfl
    | some deltas => exact hfamily _ ((said.family.mem_items_iff index deltas).mpr hget)

theorem buffers_of_conveys {chunks : List (ProviderChunk O)} {said : Said O} (h : Conveys chunks said)
    {buffers : Dict ℕ ToolCallBuffer} (hbuffers : Buffers chunks buffers) :
    buffers.items = said.family.items.map fun p => (p.1, bufferOf p.2) := by
  have hascends : Entries.Ascending (said.family.items.map fun p => (p.1, bufferOf p.2)) :=
    List.pairwise_map.mpr said.family.ascending
  have hsame : buffers = ⟨_, hascends⟩ := by
    apply Dict.ext_get?
    intro index
    rw [hbuffers, h.deltas]
    cases hget : said.family.get? index with
    | none =>
      rw [Option.getD_none, if_pos rfl]
      cases hother : Dict.get? ⟨_, hascends⟩ index with
      | none => rfl
      | some buffer =>
        obtain ⟨p, hp, hpair⟩ := List.mem_map.mp ((Dict.mem_items_iff _ _ _).mpr hother)
        have hfound := (said.family.mem_items_iff p.1 p.2).mp hp
        rw [(Prod.mk.inj hpair).1, hget] at hfound
        cases hfound
    | some deltas =>
      have hne : deltas ≠ [] := fun hnil => h.nonempty index (hnil ▸ hget)
      rw [Option.getD_some, if_neg hne]
      have hmem := List.mem_map_of_mem (f := fun p : ℕ × List ToolCallDelta => (p.1, bufferOf p.2))
        ((said.family.mem_items_iff index deltas).mpr hget)
      exact ((Dict.mem_items_iff ⟨_, hascends⟩ _ _).mp hmem).symm
  rw [hsame]

theorem assembled_of_conveys {chunks : List (ProviderChunk O)} {said : Said O} (h : Conveys chunks said)
    {l : StreamLocals O} (hl : Gathered chunks l) (requestId : String) :
    l.usage = said.usage ∧ l.providerRequestId = said.providerRequestId ∧
      assembled l requestId =
        (said.family.items.mapM fun p => (bufferOf p.2).build requestId) >>= fun calls =>
          .ok (said.answer calls) := by
  have husage : l.usage = said.usage := hl.usage.trans h.usage
  have hrequest : l.providerRequestId = said.providerRequestId :=
    hl.providerRequestId.trans h.providerRequestId
  have hstructured : l.structuredOutput = said.structuredOutput := by
    rw [hl.structuredOutput, h.structuredOutput, getLast?_toList]
  have hfinish : l.finishReason = said.finishReason := hl.finishReason.trans h.finishReason
  have htext : String.join l.textFragments = said.text := hl.text.trans h.text
  refine ⟨husage, hrequest, ?_⟩
  unfold assembled Said.answer
  rw [buffers_of_conveys h hl.toolBuffers, List.mapM_map]
  simp only [husage, hrequest, hstructured, hfinish, htext]
  rfl

section
variable (g : DefaultModelGateway O) (request : ModelRequest O) (deadline : ℚ)

def opening (s : StreamState O) (target : ModelTarget) (script : StreamScript O) : Except Exn Unit := do
  (admitCall s.world target script deadline request.requestId).2
  credential g.hasSecretProvider target script deadline request.requestId
  script.provider.opened

def Said.finish (said : Said O) (s : StreamState O) (target : ModelTarget) (script : StreamScript O) :
    Except Exn (AttemptRecord × ModelResponse O) := do
  let calls ← said.family.build request.requestId
  let succeeded := attemptRecord s.attempts target script script.finishedAt .succeeded
    said.providerRequestId said.usage s.fallbackReason
  let r ← response request target (said.answer calls) (s.attempts ++ [succeeded])
  return (succeeded, r)

variable {deadline}

theorem consume_conveys {answer : StreamAnswer O} (hanswer : Sends answer deadline)
    (hending : answer.ending = .ok ()) {said : Said O} (hconveys : Conveys (answer.chunks.map (·.chunk)) said)
    (target : ModelTarget) (requestId : String) {s : StreamState O} (hclosed : s.consumerClosed = false) :
    ∃ t l left, consume requestId deadline target answer answer.chunks true s .initial = (t, l, left) ∧
      t.failures = s.failures ∧ t.fallbackReason = s.fallbackReason ∧
      if (said.family.items.all fun p => coherent p.2) then
        left = .ok () ∧ Gathered (answer.chunks.map (·.chunk)) l
      else left = .error (.raised (ToolCallBuffer.malformedFragments requestId)) := by
  rw [consume_first, remaining_of_lt (firstCheck_lt hanswer)]
  simp only
  have hb : Buffered { s with
      world := s.world.log (.invoked target.key (some answer.firstCheck)) } .initial := by
    simp [Buffered, StreamLocals.initial]
  have hreads := consume_reads requestId deadline target (by rw [hending]; simp) answer.chunks
    hanswer.reads (s := { s with
      world := s.world.log (.invoked target.key (some answer.firstCheck)) }) hclosed hb
  have honce := hconveys.once
  have hfamily := hconveys.consistent_iff
  obtain ⟨payloads, hdelivered, -⟩ := hreads.payloads
  split_ifs with hcoherent
  · obtain ⟨hok, hgathered⟩ := consume_gathers requestId target hanswer hending
      answer.chunks (fun _ h => h) [] (hfamily.mpr hcoherent) honce (s := { s with
        world := s.world.log (.invoked target.key (some answer.firstCheck)) }) hclosed hb gathered_initial
    exact ⟨_, _, _, rfl, hdelivered.failures, hdelivered.fallbackReason, hok, hgathered⟩
  · have hnone : Consistent ([] : List (ProviderChunk O)) := fun _ => ⟨"", "", fun _ h => by cases h⟩
    have hleft := consume_conflict requestId target hanswer answer.chunks (fun _ h => h) [] hnone
      (fun hconsistent => hcoherent (hfamily.mp hconsistent)) honce (s := { s with
        world := s.world.log (.invoked target.key (some answer.firstCheck)) }) hclosed hb gathered_initial
    exact ⟨_, _, _, rfl, hdelivered.failures, hdelivered.fallbackReason, hleft⟩

theorem tryStream_conveys {s : StreamState O} (hclosed : s.consumerClosed = false) (target : ModelTarget)
    {script : StreamScript O} (hsends : Sends script.provider deadline)
    (hending : script.provider.ending = .ok ()) {said : Said O}
    (hconveys : Conveys (script.provider.chunks.map (·.chunk)) said) :
    (tryStream g request deadline s target script).outcome =
      (opening g request deadline s target script >>= fun _ =>
        said.finish request s target script).mapError .raised := by
  unfold tryStream opening
  cases hadm : admitCall s.world target script deadline request.requestId with
  | mk w admitted =>
    cases admitted with
    | error e => rfl
    | ok u =>
      simp only
      cases hcredential : credential g.hasSecretProvider target script deadline request.requestId with
      | error e => rfl
      | ok u =>
        cases hopened : script.provider.opened with
        | error e => rfl
        | ok u =>
          obtain ⟨t, l, left, hconsume, hfailures, hreason, hleft⟩ := consume_conveys hsends hending hconveys
            target request.requestId (s := { s with world := w }) hclosed
          have hattempts : t.attempts = s.attempts := by
            unfold CallState.attempts
            rw [hfailures]
          simp only [hconsume]
          unfold Said.finish ToolDeltas.build
          split_ifs at hleft ⊢ with hcoherent
          · obtain ⟨rfl, hgathered⟩ := hleft
            obtain ⟨husage, hrequestId, hassembled⟩ := assembled_of_conveys hconveys hgathered request.requestId
            simp only [closeIterator, hsends.close, finishStream, hassembled, husage, hrequestId, hattempts,
              hreason, bind_assoc]
            rfl
          · subst hleft
            simp only [closeIterator, hsends.close]
            rfl

end

theorem fragments_of_build {deltas : List ToolCallDelta} {requestId : String} {call : ToolCall O}
    (hcoherent : coherent deltas = true) (h : (bufferOf deltas).build requestId = .ok call) :
    Fragments call deltas := by
  obtain ⟨hids, hnames⟩ := Bool.and_eq_true_iff.mp hcoherent
  simp only [agreed, List.all_eq_true, Option.all_eq_true, beq_iff_eq] at hids hnames
  unfold ToolCallBuffer.build bufferOf at h
  cases hid : deltas.findSome? (·.id) with
  | none =>
    simp only [hid] at h
    cases h
  | some id =>
    cases hname : deltas.findSome? (·.name) with
    | none =>
      simp only [hid, hname] at h
      cases h
    | some name =>
      simp only [hid, hname] at h
      cases harguments : O.loads (String.join (deltas.map (·.argumentsFragment))) with
      | error e =>
        rw [harguments] at h
        cases e <;> cases h
      | ok arguments =>
        simp only [harguments] at h
        split_ifs at h with hvalid
        cases Except.ok.inj h
        refine ⟨fun delta hdelta value hvalue => ?_, fun delta hdelta value hvalue => ?_, ?_, ?_, harguments⟩
        · exact (Option.some.inj (hid.symm.trans (hids delta hdelta value hvalue))).symm
        · exact (Option.some.inj (hname.symm.trans (hnames delta hdelta value hvalue))).symm
        · exact List.exists_of_findSome?_eq_some hid
        · exact List.exists_of_findSome?_eq_some hname

theorem Fragments.coherent {call : ToolCall O} {deltas : List ToolCallDelta} (h : Fragments call deltas) :
    coherent deltas = true :=
  coherent_iff.mpr ⟨call.id, call.name, fun delta hdelta => ⟨h.ids delta hdelta, h.names delta hdelta⟩⟩

theorem build_eq_ok_iff {family : ToolDeltas} {requestId : String} {calls : List (ToolCall O)} :
    family.build requestId = .ok calls ↔
      List.Forall₂ (fun p call => Fragments call p.2) family.items calls := by
  unfold ToolDeltas.build
  generalize family.items = items
  induction items generalizing calls with
  | nil =>
    rw [List.forall₂_nil_left_iff]
    constructor
    · intro h
      exact (Except.ok.inj h).symm
    · rintro rfl
      rfl
  | cons p items ih =>
    rw [List.all_cons, List.mapM_cons]
    constructor
    · intro h
      split_ifs at h with hcoherent
      obtain ⟨hhere, hrest⟩ := Bool.and_eq_true_iff.mp hcoherent
      obtain ⟨call, hcall, h⟩ := bind_eq_ok.mp h
      obtain ⟨later, hlater, h⟩ := bind_eq_ok.mp h
      cases Except.ok.inj h
      exact .cons (fragments_of_build hhere hcall) (ih.mp (by rw [if_pos hrest]; exact hlater))
    · intro h
      cases h with
      | cons hcall hlater =>
        have hrest := ih.mpr hlater
        split_ifs at hrest with hcoherent
        rw [if_pos (by rw [hcall.coherent, hcoherent]; rfl), build_bufferOf hcall, hrest]
        rfl

theorem build_error {family : ToolDeltas} {requestId : String} {e : Exn}
    (h : (family.build requestId : Except Exn (List (ToolCall O))) = .error e) :
    e = ToolCallBuffer.malformedFragments requestId ∨ ∃ p ∈ family.items,
      O.loads (String.join (p.2.map (·.argumentsFragment))) = .error (.other e) := by
  unfold ToolDeltas.build at h
  split_ifs at h
  · clear * - h
    generalize family.items = items at h
    induction items with
    | nil => cases h
    | cons p items ih =>
      rw [List.mapM_cons] at h
      cases hcall : ((bufferOf p.2).build requestId : Except Exn (ToolCall O)) with
      | ok call =>
        rw [hcall] at h
        cases hlater : (items.mapM fun p => (bufferOf p.2).build requestId :
            Except Exn (List (ToolCall O))) with
        | ok later =>
          rw [hlater] at h
          cases h
        | error e' =>
          rw [hlater] at h
          cases Except.error.inj h
          rcases ih hlater with rfl | ⟨q, hq, hloads⟩
          · exact .inl rfl
          · exact .inr ⟨q, List.mem_cons_of_mem p hq, hloads⟩
      | error e' =>
        rw [hcall] at h
        cases Except.error.inj h
        unfold ToolCallBuffer.build at hcall
        split at hcall
        · split at hcall
          · exact .inl (Except.error.inj hcall).symm
          · next hloads =>
            cases Except.error.inj hcall
            exact .inr ⟨p, List.mem_cons_self, hloads⟩
          · split_ifs at hcall
            exact .inl (Except.error.inj hcall).symm
        · exact .inl (Except.error.inj hcall).symm
  · exact .inl (Except.error.inj h).symm

/-- The calls have ids of their own and names that the request offers. -/
structure Offered (request : ModelRequest O) (calls : List (ToolCall O)) : Prop where
  ids : (calls.map (·.id)).Nodup
  names : ∀ call ∈ calls, call.name ∈ request.toolNames

theorem validateToolCalls_error {request : ModelRequest O} {calls : List (ToolCall O)} {ids : List String}
    {e : Exn} (h : validateToolCalls request calls ids = .error e) :
    e = malformed "Provider returned an unknown or duplicate tool call" request.requestId := by
  induction calls generalizing ids with
  | nil => cases h
  | cons call calls ih =>
    unfold validateToolCalls at h
    split_ifs at h
    · exact (Except.error.inj h).symm
    · exact ih h

theorem validateToolCalls_iff (request : ModelRequest O) (calls : List (ToolCall O)) (ids : List String) :
    validateToolCalls request calls ids = .ok () ↔ Offered request calls ∧ ∀ call ∈ calls, call.id ∉ ids := by
  induction calls generalizing ids with
  | nil => exact iff_of_true rfl ⟨⟨List.nodup_nil, by simp⟩, by simp⟩
  | cons call calls ih =>
    unfold validateToolCalls
    constructor
    · intro h
      split_ifs at h with hbad
      simp only [Bool.or_eq_true, Bool.not_eq_true', List.contains_eq_mem, decide_eq_true_eq,
        decide_eq_false_iff_not, not_or, not_not] at hbad
      obtain ⟨hoffered, hids⟩ := (ih _).mp h
      refine ⟨⟨List.nodup_cons.mpr ⟨fun hmem => ?_, hoffered.ids⟩, ?_⟩, ?_⟩
      · obtain ⟨c, hc, hsame⟩ := List.mem_map.mp hmem
        exact hids c hc (hsame ▸ List.mem_cons_self)
      · exact List.forall_mem_cons.mpr ⟨hbad.1, hoffered.names⟩
      · exact List.forall_mem_cons.mpr ⟨hbad.2, fun c hc hmem => hids c hc (List.mem_cons_of_mem _ hmem)⟩
    · rintro ⟨hoffered, hids⟩
      have hname := hoffered.names call List.mem_cons_self
      have hid := hids call List.mem_cons_self
      obtain ⟨hfresh, hnodup⟩ := List.nodup_cons.mp hoffered.ids
      rw [if_neg (by simp [hname, hid])]
      refine (ih _).mpr ⟨⟨hnodup, fun c hc => hoffered.names c (List.mem_cons_of_mem call hc)⟩, ?_⟩
      intro c hc hmem
      rcases List.mem_cons.mp hmem with hsame | hmem
      · exact hfresh (List.mem_map.mpr ⟨c, hc, hsame⟩)
      · exact hids c (List.mem_cons_of_mem call hc) hmem

theorem response_toolCalls {request : ModelRequest O} {target : ModelTarget} {answer : ProviderResponse O}
    {attempts : List AttemptRecord} {r : ModelResponse O}
    (h : response request target answer attempts = .ok r) :
    r.toolCalls = answer.toolCalls ∧ Offered request answer.toolCalls := by
  obtain ⟨structured, -, h⟩ := bind_eq_ok.mp h
  obtain ⟨_, -, h⟩ := bind_eq_ok.mp h
  obtain ⟨_, hcalls, h⟩ := bind_eq_ok.mp h
  refine ⟨?_, ((validateToolCalls_iff request answer.toolCalls []).mp hcalls).1⟩
  simp only at h
  split at h
  · cases h
  · obtain ⟨totalUsage, -, h⟩ := bind_eq_ok.mp h
    obtain ⟨_, hr⟩ := construct_eq_ok (mapError_eq_ok.mp h)
    rw [← hr]

/-- Calls that the request does not offer make a response malformed, unless its structured output
    is refused first. -/
theorem response_unoffered {request : ModelRequest O} (target : ModelTarget) {answer : ProviderResponse O}
    (attempts : List AttemptRecord) {structured : Option O.Value}
    (hstructured : structuredOutput request answer = .ok structured) (h : ¬ Offered request answer.toolCalls) :
    ∃ message, response request target answer attempts = .error (malformed message request.requestId) := by
  unfold response
  rw [hstructured]
  by_cases hmixed : (!(structured.isSome && !answer.toolCalls.isEmpty)) = true
  · cases hcalls : validateToolCalls request answer.toolCalls [] with
    | ok u => exact absurd ((validateToolCalls_iff request answer.toolCalls []).mp hcalls).1 h
    | error e =>
      rw [validateToolCalls_error hcalls]
      simp only [hmixed, require_true, bind, Except.bind]
      exact ⟨_, rfl⟩
  · simp only [Bool.not_eq_true] at hmixed
    simp only [hmixed, require_false, bind, Except.bind]
    exact ⟨_, rfl⟩

def withChunks (script : StreamScript O) (steps : List (ChunkStep O)) : StreamScript O :=
  { script with provider := { script.provider with chunks := steps } }

/-- The tool calls of a stream do not depend on how their deltas are interleaved. Every interleaving of
    a family ends the attempt alike. A response has one call for each index, in the order of the indices,
    spelled by the deltas of the index in their own order, with ids of their own and names that the
    request offers; a family that spells no such calls is rejected as malformed, unless the JSON reader
    fails otherwise; and one that does ends as the response with its calls ends. -/
theorem tool_calls_ignore_interleaving (g : DefaultModelGateway O) (request : ModelRequest O) {deadline : ℚ}
    {s : StreamState O} (hclosed : s.consumerClosed = false) (target : ModelTarget) {script : StreamScript O}
    (hsends : Sends script.provider deadline) (hending : script.provider.ending = .ok ()) {said : Said O}
    (hconveys : Conveys (script.provider.chunks.map (·.chunk)) said) :
    let outcome := (tryStream g request deadline s target script).outcome
    let spelled := fun calls => List.Forall₂ (fun p call => Fragments call p.2) said.family.items calls
    (∀ steps, Sends (withChunks script steps).provider deadline → Conveys (steps.map (·.chunk)) said →
      (tryStream g request deadline s target (withChunks script steps)).outcome = outcome) ∧
    (∀ record r, outcome = .ok (record, r) → spelled r.toolCalls ∧ Offered request r.toolCalls) ∧
    (∀ structured, opening g request deadline s target script = .ok () →
      structuredOutput request (said.answer []) = .ok structured →
      (¬ ∃ calls, spelled calls ∧ Offered request calls) →
        ∃ e, outcome = .error (.raised e) ∧ ((∃ message, e = malformed message request.requestId) ∨
          ∃ p ∈ said.family.items, O.loads (String.join (p.2.map (·.argumentsFragment))) = .error (.other e))) ∧
    ∀ calls, opening g request deadline s target script = .ok () → spelled calls →
      let succeeded := attemptRecord s.attempts target script script.finishedAt .succeeded
        said.providerRequestId said.usage s.fallbackReason
      outcome = ((response request target (said.answer calls) (s.attempts ++ [succeeded])).map
        fun r => (succeeded, r)).mapError .raised := by
  intro outcome spelled
  have houtcome : outcome = (opening g request deadline s target script >>= fun _ =>
      said.finish request s target script).mapError .raised :=
    tryStream_conveys g request hclosed target hsends hending hconveys
  clear_value outcome
  subst houtcome
  refine ⟨fun steps hsteps hagain => ?_, fun record r h => ?_, fun structured hopening hstructured hnone => ?_,
    fun calls hopening hcalls => ?_⟩
  · exact tryStream_conveys g request hclosed target hsteps hending hagain
  · obtain ⟨_, -, h⟩ := bind_eq_ok.mp (mapError_eq_ok.mp h)
    obtain ⟨calls, hcalls, h⟩ := bind_eq_ok.mp h
    obtain ⟨answered, hresponse, h⟩ := bind_eq_ok.mp h
    cases Except.ok.inj h
    obtain ⟨htools, hoffered⟩ := response_toolCalls hresponse
    rw [htools]
    exact ⟨build_eq_ok_iff.mp hcalls, hoffered⟩
  · rw [hopening]
    cases hbuild : (said.family.build request.requestId : Except Exn (List (ToolCall O))) with
    | error e =>
      refine ⟨e, ?_, ?_⟩
      · simp only [Said.finish, hbuild]
        rfl
      · rcases build_error hbuild with rfl | hloads
        · exact .inl ⟨_, rfl⟩
        · exact .inr hloads
    | ok calls =>
      have hunoffered : ¬ Offered request (said.answer calls).toolCalls := fun hoffered =>
        hnone ⟨calls, build_eq_ok_iff.mp hbuild, hoffered⟩
      have hanswer : structuredOutput request (said.answer calls) = .ok structured := hstructured
      obtain ⟨message, hresponse⟩ := response_unoffered target (s.attempts ++
        [attemptRecord s.attempts target script script.finishedAt .succeeded said.providerRequestId
          said.usage s.fallbackReason]) hanswer hunoffered
      refine ⟨malformed message request.requestId, ?_, .inl ⟨message, rfl⟩⟩
      simp only [Said.finish, hbuild, hresponse, bind, Except.bind]
      rfl
  · rw [hopening]
    simp only [Said.finish, build_eq_ok_iff.mpr hcalls, bind, Except.bind]
    generalize response request target (said.answer calls) _ = answered
    cases answered <;> rfl

namespace Sample

def emptyObjects : Objects :=
  ⟨Unit, fun _ => true, fun text => if text = "\x7b\x7d" then .ok () else .error .decode⟩

def searchRequest : ModelRequest emptyObjects :=
  ⟨"request-1", [.text "hello"], 1, [.text, .toolCalling], ["search"], none⟩

def opens (index : ℕ) (id : String) : ToolCallDelta := ⟨index, some id, some "search", "\x7b"⟩

def closes (index : ℕ) : ToolCallDelta := ⟨index, none, none, "\x7d"⟩

def toolStep (delta : ToolCallDelta) : ChunkStep emptyObjects :=
  ⟨1, ⟨none, some delta, none, some .toolCalls, none, none⟩, true, true, true⟩

def inTurn : StreamAnswer emptyObjects where
  opened := .ok ()
  chunks := [toolStep (opens 0 "a"), toolStep (closes 0), toolStep (opens 1 "b"), toolStep (closes 1)]
  lastCheck := 1
  ending := .ok ()
  close := .ok ()

def parallel : List (ChunkStep emptyObjects) :=
  [toolStep (opens 1 "b"), toolStep (opens 0 "a"), toolStep (closes 1), toolStep (closes 0)]

def searches : Said emptyObjects where
  text := ""
  usage := none
  providerRequestId := none
  structuredOutput := none
  finishReason := .toolCalls
  family := ⟨[(0, [opens 0 "a", closes 0]), (1, [opens 1 "b", closes 1])], by decide⟩

theorem conveys_searches {chunks : List (ProviderChunk emptyObjects)} (htext : textsOf chunks = [])
    (husage : chunks.filterMap (·.usage) = []) (hrequest : chunks.filterMap (·.providerRequestId) = [])
    (hstructured : chunks.filterMap (·.structuredOutput) = [])
    (hfinish : (chunks.filterMap (·.finishReason)).getLast? = some .toolCalls)
    (hdeltas : ∀ index, deltasAt index chunks = (searches.family.get? index).getD []) :
    Conveys chunks searches where
  text := by rw [htext]; rfl
  usage := by rw [husage]; rfl
  providerRequestId := by rw [hrequest]; rfl
  structuredOutput := by rw [hstructured]; rfl
  finishReason := by rw [hfinish]; rfl
  deltas := hdeltas
  nonempty
    | 0 => by decide
    | 1 => by decide
    | _ + 2 => by simp [searches, Dict.get?, List.lookup]

theorem conveys_inTurn : Conveys (inTurn.chunks.map (·.chunk)) searches :=
  conveys_searches rfl rfl rfl rfl rfl fun
    | 0 => by decide
    | 1 => by decide
    | _ + 2 => by simp [inTurn, toolStep, opens, closes, deltasAt, searches, Dict.get?, List.lookup]

theorem conveys_parallel : Conveys (parallel.map (·.chunk)) searches :=
  conveys_searches rfl rfl rfl rfl rfl fun
    | 0 => by decide
    | 1 => by decide
    | _ + 2 => by simp [parallel, toolStep, opens, closes, deltasAt, searches, Dict.get?, List.lookup]

end Sample

open Sample in
/-- Two tool calls sent in turn or in parallel end the attempt alike. -/
theorem parallel_calls_read_alike :
    (tryStream (⟨["openai"], fun _ _ => .ok 1, false⟩ : DefaultModelGateway emptyObjects) searchRequest 60
      (.initial Table.empty) (target none 0) (withChunks (script 1 inTurn) parallel)).outcome =
    (tryStream (⟨["openai"], fun _ _ => .ok 1, false⟩ : DefaultModelGateway emptyObjects) searchRequest 60
      (.initial Table.empty) (target none 0) (script 1 inTurn)).outcome := by
  have hsends : Sends (script 1 inTurn).provider 60 := {
    reads := by simp [script, inTurn, toolStep, ChunkStep.Read]
    checks := by simp [script, inTurn, toolStep]
    lastCheck := by norm_num [script, inTurn]
    close := rfl }
  have hparallel : Sends (withChunks (script 1 inTurn) parallel).provider 60 := {
    reads := by simp [withChunks, parallel, toolStep, ChunkStep.Read]
    checks := by simp [withChunks, parallel, toolStep]
    lastCheck := by norm_num [withChunks, script, inTurn]
    close := rfl }
  exact (tool_calls_ignore_interleaving _ searchRequest (s := .initial Table.empty) rfl (target none 0)
    hsends rfl conveys_inTurn).1 parallel hparallel conveys_parallel

end Gateway
end Zhiyi
