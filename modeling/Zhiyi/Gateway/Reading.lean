import Zhiyi.Gateway.StreamTrace

set_option autoImplicit false

/-! What a consumer that reads a stream to its end sees: numbered items, a terminal
or error item only at the end, and no further attempt after a visible delta. -/
namespace Zhiyi
namespace Gateway
open Python

variable {O : Objects}

def ChunkPayload.isDelta : ChunkPayload O → Bool
  | .textDelta _ | .toolCallDelta _ => true
  | _ => false

def ChunkPayload.isUsage : ChunkPayload O → Bool
  | .usage _ => true
  | _ => false

def ChunkPayload.text? : ChunkPayload O → Option String
  | .textDelta text => some text
  | _ => none

/-- The items with the given payloads, numbered from `n`. -/
def itemsFrom (n : ℕ) (payloads : List (ChunkPayload O)) : List (ModelChunk O) :=
  (payloads.zipIdx n).map fun p => ⟨p.2, p.1⟩

@[simp] theorem itemsFrom_nil (n : ℕ) : itemsFrom n ([] : List (ChunkPayload O)) = [] := rfl

theorem itemsFrom_append (n : ℕ) (a b : List (ChunkPayload O)) :
    itemsFrom n (a ++ b) = itemsFrom n a ++ itemsFrom (n + a.length) b := by
  simp [itemsFrom, List.zipIdx_append]

theorem map_sequence_itemsFrom (n : ℕ) (payloads : List (ChunkPayload O)) :
    (itemsFrom n payloads).map (·.sequence) = List.range' n payloads.length := by
  simp [itemsFrom, List.map_map, Function.comp_def, List.zipIdx_map_snd]

theorem map_payload_itemsFrom (n : ℕ) (payloads : List (ChunkPayload O)) :
    (itemsFrom n payloads).map (·.payload) = payloads := by
  simp [itemsFrom, List.map_map, Function.comp_def, List.zipIdx_map_fst]

def streamItems (events : List (Event O)) : List (ModelChunk O) :=
  events.filterMap fun
    | .yielded chunk => some chunk
    | _ => none

theorem streamItems_append (a b : List (Event O)) :
    streamItems (a ++ b) = streamItems a ++ streamItems b := List.filterMap_append

theorem streamItems_yielded (items : List (ModelChunk O)) :
    streamItems (items.map .yielded) = items := by
  simp [streamItems, List.filterMap_map]

/-- `t` is `s` after items with the given payloads have been read. -/
structure Delivered (s t : StreamState O) (payloads : List (ChunkPayload O)) : Prop where
  world : t.world =
    ⟨s.world.breakers, s.world.events ++ (itemsFrom s.sequence payloads).map .yielded⟩
  sequence : t.sequence = s.sequence + payloads.length
  visible : t.visible = (s.visible || payloads.any (·.isDelta))
  failures : t.failures = s.failures
  fallbackReason : t.fallbackReason = s.fallbackReason
  steps : t.steps = s.steps
  consumerClosed : t.consumerClosed = s.consumerClosed

theorem Delivered.refl (s : StreamState O) : Delivered s s [] := by
  constructor <;> simp

theorem Delivered.trans {s t u : StreamState O} {a b : List (ChunkPayload O)}
    (h : Delivered s t a) (h' : Delivered t u b) : Delivered s u (a ++ b) := by
  constructor
  · rw [h'.world, h.world, h.sequence, itemsFrom_append]
    simp
  · rw [h'.sequence, h.sequence, List.length_append, Nat.add_assoc]
  · rw [h'.visible, h.visible, List.any_append, Bool.or_assoc]
  · rw [h'.failures, h.failures]
  · rw [h'.fallbackReason, h.fallbackReason]
  · rw [h'.steps, h.steps]
  · rw [h'.consumerClosed, h.consumerClosed]

theorem yieldItem_read {s : StreamState O} (h : s.consumerClosed = false) (payload : ChunkPayload O) :
    yieldItem s payload true =
      ({ s with world := s.world.log (.yielded ⟨s.sequence, payload⟩), sequence := s.sequence + 1 },
        .ok ()) := by
  simp [yieldItem, h]

theorem Delivered.item {s t : StreamState O} {payload : ChunkPayload O}
    (hvisible : t.visible = (s.visible || payload.isDelta))
    (ht : t = { s with
      world := s.world.log (.yielded ⟨s.sequence, payload⟩)
      sequence := s.sequence + 1
      visible := t.visible }) : Delivered s t [payload] := by
  rw [ht]
  refine ⟨?_, rfl, ?_, rfl, rfl, rfl, rfl⟩
  · simp [World.log, itemsFrom]
  · simpa using hvisible

def ChunkStep.Read (step : ChunkStep O) : Prop :=
  step.readsText = true ∧ step.readsTool = true ∧ step.readsUsage = true

def Buffered (s : StreamState O) (l : StreamLocals O) : Prop :=
  ∀ index buffer, l.toolBuffers.get? index = some buffer → s.visible = true

/-- The attempt goes on, or it has stopped at an error. -/
def Undisrupted (left : Except Interrupt Unit) : Prop :=
  ∀ interrupt, left = .error interrupt → ∃ e, interrupt = .raised e ∧ e ≠ .cancelled

theorem undisrupted_ok : Undisrupted (.ok ()) := by simp [Undisrupted]

theorem undisrupted_model (error : ModelError) : Undisrupted (.error (.raised (.model error))) := by
  simp [Undisrupted]

/-- Reading from `s` with the variables `l` has led to `t` with `l'`. -/
structure Reads (s : StreamState O) (l : StreamLocals O) (t : StreamState O) (l' : StreamLocals O)
    (left : Except Interrupt Unit) : Prop where
  payloads : ∃ payloads, Delivered s t payloads ∧
    (∀ payload ∈ payloads, payload.isDelta = true ∨ payload.isUsage = true) ∧
    l'.textFragments = l.textFragments ++ payloads.filterMap (·.text?)
  buffered : Buffered t l'
  left : Undisrupted left

theorem Reads.trans {s t u : StreamState O} {l l' l'' : StreamLocals O}
    {left left' : Except Interrupt Unit} (h : Reads s l t l' left) (h' : Reads t l' u l'' left') :
    Reads s l u l'' left' := by
  obtain ⟨a, ha, hkinda, htexta⟩ := h.payloads
  obtain ⟨b, hb, hkindb, htextb⟩ := h'.payloads
  refine ⟨⟨a ++ b, ha.trans hb, ?_, ?_⟩, h'.buffered, h'.left⟩
  · exact List.forall_mem_append.mpr ⟨hkinda, hkindb⟩
  · rw [htextb, htexta, List.filterMap_append, List.append_assoc]

theorem Reads.silent {s : StreamState O} {l l' : StreamLocals O} {left : Except Interrupt Unit}
    (hb : Buffered s l) (htext : l'.textFragments = l.textFragments)
    (hbuffers : l'.toolBuffers = l.toolBuffers) (hleft : Undisrupted left) : Reads s l s l' left := by
  refine ⟨⟨[], .refl s, by simp, by simp [htext]⟩, fun index buffer hget => ?_, hleft⟩
  exact hb index buffer (hbuffers ▸ hget)

theorem deliverText_reads {s : StreamState O} (h : s.consumerClosed = false) {l : StreamLocals O}
    (hb : Buffered s l) {step : ChunkStep O} (hread : step.Read) :
    Reads s l (deliverText s l step).1 (deliverText s l step).2.1 (deliverText s l step).2.2 := by
  unfold deliverText
  split
  · exact .silent hb rfl rfl undisrupted_ok
  · next text htext =>
    split_ifs
    · exact .silent hb rfl rfl undisrupted_ok
    · rw [hread.1, yieldItem_read (s := { s with visible := true }) h]
      refine ⟨⟨[.textDelta text], .item ?_ rfl, ?_, rfl⟩, fun _ _ _ => rfl, undisrupted_ok⟩
      · simp [ChunkPayload.isDelta]
      · simp [ChunkPayload.isDelta]

theorem append_error {buffer : ToolCallBuffer} {delta : ToolCallDelta} {requestId : String} {e : Exn}
    (h : buffer.append delta requestId = .error e) :
    buffer ≠ .empty ∧ e = ToolCallBuffer.malformedFragments requestId := by
  constructor
  · rintro rfl
    obtain ⟨buffer', hbuffer'⟩ := empty_append delta requestId
    rw [hbuffer'] at h
    cases h
  · have hagree : ∀ {known new : Option String},
        ToolCallBuffer.agree known new requestId = .error e →
          e = ToolCallBuffer.malformedFragments requestId := by
      intro known new hagree
      unfold ToolCallBuffer.agree at hagree
      split at hagree
      · cases hagree
      · split_ifs at hagree
        cases hagree
        rfl
      · cases hagree
    rcases bind_eq_error.mp h with h | ⟨_, -, h⟩
    · exact hagree h
    · rcases bind_eq_error.mp h with h | ⟨_, -, h⟩
      · exact hagree h
      · cases h

theorem deliverTool_reads (requestId : String) {s : StreamState O} (h : s.consumerClosed = false)
    {l : StreamLocals O} (hb : Buffered s l) {step : ChunkStep O} (hread : step.Read) :
    Reads s l (deliverTool requestId s l step).1 (deliverTool requestId s l step).2.1
      (deliverTool requestId s l step).2.2 := by
  unfold deliverTool
  split
  · exact .silent hb rfl rfl undisrupted_ok
  · next delta hdelta =>
    simp only
    split
    · next e happend =>
      -- only a buffer the consumer has seen refuses a fragment
      obtain ⟨hfresh, rfl⟩ := append_error happend
      have hvisible : s.visible = true := by
        cases hget : l.toolBuffers.get? delta.index with
        | none => simp [hget] at hfresh
        | some buffer => exact hb delta.index buffer hget
      have hs : { s with visible := true } = s := by
        rw [← hvisible]
      rw [hs]
      exact .silent hb rfl rfl (undisrupted_model _)
    · next buffer happend =>
      rw [hread.2.1, yieldItem_read (s := { s with visible := true }) h]
      refine ⟨⟨[.toolCallDelta delta], .item ?_ rfl, ?_, ?_⟩, fun _ _ _ => rfl, undisrupted_ok⟩
      · simp [ChunkPayload.isDelta]
      · simp [ChunkPayload.isDelta]
      · simp [ChunkPayload.text?]

theorem deliverUsage_reads {s : StreamState O} (h : s.consumerClosed = false) {l : StreamLocals O}
    (hb : Buffered s l) {step : ChunkStep O} (hread : step.Read) :
    Reads s l (deliverUsage s l step).1 (deliverUsage s l step).2.1 (deliverUsage s l step).2.2 := by
  unfold deliverUsage
  split
  · exact .silent hb rfl rfl undisrupted_ok
  · next usage husage =>
    rw [hread.2.2, yieldItem_read h]
    refine ⟨⟨[.usage usage], .item ?_ rfl, ?_, ?_⟩, hb, undisrupted_ok⟩
    · simp [ChunkPayload.isDelta]
    · simp [ChunkPayload.isUsage]
    · simp [ChunkPayload.text?]

theorem collect_reads (requestId : String) {s : StreamState O} {l : StreamLocals O} (hb : Buffered s l)
    (chunk : ProviderChunk O) :
    Reads s l s (collect requestId l chunk).1 (collect requestId l chunk).2 := by
  refine .silent hb ?_ (collect_structured requestId l chunk).2.2 ?_
  · unfold collect
    cases chunk.structuredOutput <;> cases l.structuredOutput <;> rfl
  · unfold collect malformed
    cases chunk.structuredOutput <;> cases l.structuredOutput <;>
      first | exact undisrupted_ok | exact undisrupted_model _

theorem Reads.consumerClosed {s t : StreamState O} {l l' : StreamLocals O}
    {left : Except Interrupt Unit} (h : Reads s l t l' left) : t.consumerClosed = s.consumerClosed := by
  obtain ⟨payloads, hdelivered, -⟩ := h.payloads
  exact hdelivered.consumerClosed

theorem deliver_reads (requestId : String) {s : StreamState O} (h : s.consumerClosed = false)
    {l : StreamLocals O} (hb : Buffered s l) {step : ChunkStep O} (hread : step.Read) :
    Reads s l (deliver requestId s l step).1 (deliver requestId s l step).2.1
      (deliver requestId s l step).2.2 := by
  have htext := deliverText_reads h hb hread
  unfold deliver
  split
  · next heq => simpa only [heq] using htext
  · next s₁ l₁ heq =>
    rw [heq] at htext
    have h₁ : s₁.consumerClosed = false := htext.consumerClosed.trans h
    have htool := deliverTool_reads requestId h₁ htext.buffered hread
    split
    · next heq =>
      rw [heq] at htool
      exact htext.trans htool
    · next s₂ l₂ heq =>
      rw [heq] at htool
      have h₂ : s₂.consumerClosed = false := htool.consumerClosed.trans h₁
      have husage := deliverUsage_reads h₂ htool.buffered hread
      split
      · next heq =>
        rw [heq] at husage
        exact (htext.trans htool).trans husage
      · next s₃ l₃ heq =>
        rw [heq] at husage
        exact ((htext.trans htool).trans husage).trans
          (collect_reads requestId husage.buffered step.chunk)

theorem remaining_error {deadline now : ℚ} {requestId : String} {e : Exn}
    (h : remaining deadline now requestId = .error e) : ∃ error, e = .model error := by
  unfold remaining at h
  split_ifs at h
  cases h
  exact ⟨_, rfl⟩

theorem consume_reads (requestId : String) (deadline : ℚ) (target : ModelTarget)
    {answer : StreamAnswer O} (hending : answer.ending ≠ .error .cancelled)
    (steps : List (ChunkStep O)) (hread : ∀ step ∈ steps, step.Read) {s : StreamState O}
    (h : s.consumerClosed = false) {l : StreamLocals O} (hb : Buffered s l) :
    Reads s l (consume requestId deadline target answer steps false s l).1
      (consume requestId deadline target answer steps false s l).2.1
      (consume requestId deadline target answer steps false s l).2.2 := by
  induction steps generalizing s l with
  | nil =>
    unfold consume
    split
    · next e hcheck =>
      obtain ⟨error, rfl⟩ := remaining_error hcheck
      exact .silent hb rfl rfl (undisrupted_model error)
    · refine .silent hb rfl rfl fun interrupt hleft => ?_
      cases hanswer : answer.ending with
      | ok u => simp [hanswer, Except.mapError] at hleft
      | error e =>
        rw [hanswer] at hleft hending
        cases hleft
        exact ⟨e, rfl, fun he => hending (by rw [he])⟩
  | cons step steps ih =>
    obtain ⟨hstep, hsteps⟩ := List.forall_mem_cons.mp hread
    have hdeliver := deliver_reads requestId h hb hstep
    unfold consume
    split
    · next e hcheck =>
      obtain ⟨error, rfl⟩ := remaining_error hcheck
      exact .silent hb rfl rfl (undisrupted_model error)
    · simp only [markInvoked, Bool.false_eq_true, if_false]
      split
      · next heq => simpa only [heq] using hdeliver
      · next s' l' heq =>
        rw [heq] at hdeliver
        exact hdeliver.trans (ih hsteps (hdeliver.consumerClosed.trans h) hdeliver.buffered)

def Uncancelled {α : Type} (answer : Except Exn α) : Prop := answer ≠ .error .cancelled

theorem Uncancelled.bind {α β : Type} {x : Except Exn α} {f : α → Except Exn β} (h : Uncancelled x)
    (hf : ∀ a, Uncancelled (f a)) : Uncancelled (x >>= f) := by
  intro hbind
  rcases bind_eq_error.mp hbind with hx | ⟨a, -, ha⟩
  · exact h hx
  · exact hf a ha

theorem uncancelled_ok {α : Type} (a : α) : Uncancelled (.ok a) := by simp [Uncancelled]

theorem uncancelled_model {α : Type} (error : ModelError) :
    Uncancelled (.error (.model error) : Except Exn α) := by simp [Uncancelled]

theorem uncancelled_require (condition : Bool) (error : ModelError) :
    Uncancelled (require condition (.model error)) := by
  cases condition <;> simp [Uncancelled]

theorem uncancelled_remaining (deadline now : ℚ) (requestId : String) :
    Uncancelled (remaining deadline now requestId) := by
  intro h
  obtain ⟨error, he⟩ := remaining_error h
  cases he

theorem uncancelled_timeoutAs (message requestId : String) {answer : Except Exn Unit}
    (h : Uncancelled answer) : Uncancelled (timeoutAs message requestId answer) := by
  unfold timeoutAs
  split
  · exact uncancelled_model _
  · exact h

/-- The consumer reads every item, nobody cancels the call, and the sleeper only
    returns or times out. -/
structure Plain (script : StreamScript O) : Prop where
  reads : ∀ step ∈ script.provider.chunks, step.Read
  limiter : Uncancelled script.limiter
  credential : Uncancelled script.credential
  opened : Uncancelled script.provider.opened
  ending : Uncancelled script.provider.ending
  close : Uncancelled script.provider.close
  sleeper : ∀ e, script.backoff = .error e → e = .timeout

/-- `json.loads` does not raise a cancellation. -/
def Objects.LoadsUncancelled (O : Objects) : Prop :=
  ∀ text e, O.loads text = .error (.other e) → e ≠ .cancelled

theorem admitCall_uncancelled {w w' : World O} {target : ModelTarget} {script : StreamScript O}
    (h : Plain script) {deadline : ℚ} {requestId : String} {answer : Except Exn Unit}
    (hadm : admitCall w target script deadline requestId = (w', answer)) : Uncancelled answer := by
  have hwait : Uncancelled (limiterWait target script deadline requestId) := by
    unfold limiterWait
    split_ifs
    · exact uncancelled_ok ()
    · exact (uncancelled_remaining _ _ _).bind fun _ => uncancelled_timeoutAs _ _ h.limiter
  unfold admitCall at hadm
  split at hadm
  · next e hlimiter =>
    rw [← (Prod.mk.inj hadm).2]
    rwa [hlimiter] at hwait
  · simp only at hadm
    split_ifs at hadm
    · rw [← (Prod.mk.inj hadm).2]
      exact uncancelled_ok ()
    · rw [← (Prod.mk.inj hadm).2]
      exact uncancelled_model _

theorem credential_uncancelled {script : StreamScript O} (h : Plain script) (hasSecretProvider : Bool)
    (target : ModelTarget) (deadline : ℚ) (requestId : String) :
    Uncancelled (credential hasSecretProvider target script deadline requestId) := by
  unfold credential
  split_ifs
  · exact uncancelled_ok ()
  · exact uncancelled_model _
  · refine (uncancelled_remaining _ _ _).bind fun _ => ?_
    split
    · exact uncancelled_model _
    · exact uncancelled_model _
    · exact h.credential

theorem assembled_uncancelled (hloads : O.LoadsUncancelled) (l : StreamLocals O) (requestId : String) :
    Uncancelled (assembled l requestId) := by
  have hbuild : ∀ buffer : ToolCallBuffer, Uncancelled (buffer.build requestId : Except Exn (ToolCall O)) := by
    intro buffer
    unfold ToolCallBuffer.build
    split
    · split
      · exact uncancelled_model _
      · next e he => simpa [Uncancelled] using hloads _ _ he
      · split_ifs
        · exact uncancelled_ok _
        · exact uncancelled_model _
    · exact uncancelled_model _
  unfold assembled
  refine Uncancelled.bind ?_ fun _ => uncancelled_ok _
  generalize l.toolBuffers.items = buffers
  induction buffers with
  | nil => exact uncancelled_ok _
  | cons buffer buffers ih =>
    rw [List.mapM_cons]
    exact (hbuild buffer.2).bind fun _ => ih.bind fun _ => uncancelled_ok _

theorem aggregate_uncancelled (usages : List ModelUsage) : Uncancelled (ModelUsage.aggregate usages) := by
  have hnew : ∀ f, Uncancelled ((ModelUsage.new f).mapError .python) := by
    intro f
    cases ModelUsage.new f <;> simp [Uncancelled, Except.mapError]
  unfold ModelUsage.aggregate
  split_ifs
  · exact hnew _
  · refine Uncancelled.bind ?_ fun _ => hnew _
    unfold aggregateAmount
    simp only
    split_ifs
    · exact uncancelled_ok _
    · split
      · split
        · exact uncancelled_ok _
        · simp [Uncancelled]
      · exact uncancelled_ok _

theorem response_uncancelled (request : ModelRequest O) (target : ModelTarget)
    (answer : ProviderResponse O) (attempts : List AttemptRecord) :
    Uncancelled (response request target answer attempts) := by
  have htools : ∀ calls ids, Uncancelled (validateToolCalls request calls ids) := by
    intro calls
    induction calls with
    | nil => exact fun ids => uncancelled_ok ()
    | cons call calls ih =>
      intro ids
      unfold validateToolCalls
      split_ifs
      · exact uncancelled_model _
      · exact ih _
  unfold response
  refine Uncancelled.bind ?_ fun structured => ?_
  · unfold structuredOutput
    split
    · exact uncancelled_model _
    · split
      · exact uncancelled_ok _
      · exact uncancelled_model _
    · exact uncancelled_model _
    · exact uncancelled_ok _
  · refine (uncancelled_require _ _).bind fun _ => (htools _ _).bind fun _ => ?_
    simp only
    split
    · exact uncancelled_model _
    · refine (aggregate_uncancelled _).bind fun totalUsage => ?_
      cases ModelResponse.new _ <;> simp [Uncancelled, Except.mapError]

theorem finishStream_uncancelled (hloads : O.LoadsUncancelled) (request : ModelRequest O)
    (s : StreamState O) (target : ModelTarget) (script : StreamScript O) (l : StreamLocals O) :
    Uncancelled (finishStream request s target script l) :=
  (assembled_uncancelled hloads l _).bind fun _ =>
    (response_uncancelled request target _ _).bind fun _ => uncancelled_ok _

def Event.isDelta : Event O → Bool
  | .yielded chunk => chunk.payload.isDelta
  | _ => false

def Event.startsAttempt : Event O → Bool
  | .admitted _ | .refused _ | .invoked _ _ | .slept _ => true
  | _ => false

def Event.isEmitted : Event O → Bool
  | .emitted _ => true
  | _ => false

def responseText (r : ModelResponse O) : String := String.join (r.content.map (·.text))

/-- What the `try` block of an attempt has shown to the consumer. -/
structure TriedReads (s : StreamState O) (tried : StreamTried O) : Prop where
  state : ∃ opening payloads,
    (∀ event ∈ opening, event.startsAttempt = true) ∧
    (∀ payload ∈ payloads, payload.isDelta = true ∨ payload.isUsage = true) ∧
    tried.state.world.events =
      s.world.events ++ (opening ++ (itemsFrom s.sequence payloads).map .yielded) ∧
    tried.state.sequence = s.sequence + payloads.length ∧
    tried.state.visible = (s.visible || payloads.any (·.isDelta)) ∧
    ∀ succeeded r, tried.outcome = .ok (succeeded, r) →
      responseText r = String.join (payloads.filterMap (·.text?))
  consumerClosed : tried.state.consumerClosed = s.consumerClosed
  left : ∀ interrupt, tried.outcome = .error interrupt → ∃ e, interrupt = .raised e ∧ e ≠ .cancelled

theorem TriedReads.stopped {s : StreamState O} {w : World O} {opening : List (Event O)} {admitted : Bool}
    {e : Exn} (hopening : ∀ event ∈ opening, event.startsAttempt = true)
    (hw : w.events = s.world.events ++ opening) (he : e ≠ .cancelled) :
    TriedReads s ⟨{ s with world := w }, admitted, .initial, .error (.raised e)⟩ := by
  refine ⟨⟨opening, [], hopening, by simp, by simpa using hw, rfl, by simp, by simp⟩, rfl, ?_⟩
  rintro interrupt h
  cases h
  exact ⟨e, rfl, he⟩

theorem Undisrupted.close {left : Except Interrupt Unit} (h : Undisrupted left)
    {answer : StreamAnswer O} (hclose : Uncancelled answer.close) :
    Undisrupted (closeIterator answer left) := by
  unfold closeIterator
  split
  · exact h
  · split
    · next e he =>
      intro interrupt hinterrupt
      cases hinterrupt
      exact ⟨e, rfl, fun hcancelled => hclose (by rw [he, hcancelled])⟩
    · exact h

theorem TriedReads.ofDelivered {s t : StreamState O} {w : World O} {opening : List (Event O)}
    {payloads : List (ChunkPayload O)} {admitted : Bool} {l : StreamLocals O}
    {outcome : Except Interrupt (AttemptRecord × ModelResponse O)}
    (hopening : ∀ event ∈ opening, event.startsAttempt = true)
    (hkinds : ∀ payload ∈ payloads, payload.isDelta = true ∨ payload.isUsage = true)
    (hw : w.events = s.world.events ++ opening) (ht : Delivered { s with world := w } t payloads)
    (htext : ∀ succeeded r, outcome = .ok (succeeded, r) →
      responseText r = String.join (payloads.filterMap (·.text?)))
    (hleft : ∀ interrupt, outcome = .error interrupt → ∃ e, interrupt = .raised e ∧ e ≠ .cancelled) :
    TriedReads s ⟨t, admitted, l, outcome⟩ := by
  refine ⟨⟨opening, payloads, hopening, hkinds, ?_, ht.sequence, ht.visible, htext⟩,
    ht.consumerClosed, hleft⟩
  simp only [ht.world, hw, List.append_assoc]

theorem admitCall_opening {w w' : World O} {target : ModelTarget} {script : StreamScript O} {deadline : ℚ}
    {requestId : String} {answer : Except Exn Unit}
    (h : admitCall w target script deadline requestId = (w', answer)) :
    ∃ opening, (∀ event ∈ opening, event.startsAttempt = true) ∧ w'.events = w.events ++ opening := by
  unfold admitCall at h
  split at h
  · cases h
    exact ⟨[], by simp, by simp⟩
  · simp only at h
    split_ifs at h
    · obtain ⟨rfl, -⟩ := Prod.mk.inj h
      exact ⟨[.admitted target.key], by simp [Event.startsAttempt], rfl⟩
    · obtain ⟨rfl, -⟩ := Prod.mk.inj h
      exact ⟨[.refused target.key], by simp [Event.startsAttempt], rfl⟩

section
variable (g : DefaultModelGateway O) (request : ModelRequest O) (deadline : ℚ)

theorem finishStream_text {s : StreamState O} {target : ModelTarget} {script : StreamScript O}
    {l : StreamLocals O} {succeeded : AttemptRecord} {r : ModelResponse O}
    (h : finishStream request s target script l = .ok (succeeded, r)) :
    responseText r = String.join l.textFragments := by
  obtain ⟨answer, hanswer, h⟩ := bind_eq_ok.mp h
  obtain ⟨r', hr, h⟩ := bind_eq_ok.mp h
  cases h
  obtain ⟨toolCalls, -, h⟩ := bind_eq_ok.mp hanswer
  cases h
  unfold responseText
  rw [(response_eq_ok hr).1]
  simp only
  split_ifs with hempty
  · simp [String.join]
  · simp only [ne_eq, not_not] at hempty
    rw [hempty]
    rfl

theorem tryStream_reads (hloads : O.LoadsUncancelled) {s : StreamState O}
    (hs : s.consumerClosed = false) (target : ModelTarget) {script : StreamScript O}
    (h : Plain script) : TriedReads s (tryStream g request deadline s target script) := by
  unfold tryStream
  split
  · next w e hadm =>
    obtain ⟨opening, hopening, hw⟩ := admitCall_opening hadm
    exact .stopped hopening hw fun he => admitCall_uncancelled h hadm (by rw [he])
  · next w hadm =>
    obtain ⟨opening, hopening, hw⟩ := admitCall_opening hadm
    simp only
    split
    · next e hcredential =>
      exact .stopped hopening hw fun he => credential_uncancelled h _ _ _ _ (hcredential.trans (by rw [he]))
    · split
      · next e hopened =>
        have hinvoked : ∀ event ∈ opening ++ [.invoked target.key none], event.startsAttempt = true :=
          List.forall_mem_append.mpr ⟨hopening, by simp [Event.startsAttempt]⟩
        refine .stopped hinvoked ?_ fun he => h.opened (hopened.trans (by rw [he]))
        simp [World.log, hw]
      · rw [consume_first]
        cases hcheck : remaining deadline script.provider.firstCheck request.requestId with
        | error e =>
          obtain ⟨error, rfl⟩ := remaining_error hcheck
          simp only [closeIterator]
          cases hclose : script.provider.close with
          | error e =>
            exact .stopped hopening hw fun he => h.close (hclose.trans (by rw [he]))
          | ok u => exact .stopped hopening hw (by simp)
        | ok left =>
          have hreads := consume_reads request.requestId deadline target h.ending
            script.provider.chunks h.reads (s := { s with
              world := w.log (.invoked target.key (some script.provider.firstCheck)) }) hs
            (l := .initial) (by simp [Buffered, StreamLocals.initial])
          have hclose := hreads.left.close h.close
          obtain ⟨payloads, hdelivered, hkinds, htext⟩ := hreads.payloads
          simp only
          generalize consume request.requestId deadline target script.provider script.provider.chunks
            false _ _ = consumed at hdelivered htext hclose ⊢
          obtain ⟨t, l, left⟩ := consumed
          simp only at hdelivered htext hclose ⊢
          have hstart : ∀ event ∈ opening ++ [.invoked target.key (some script.provider.firstCheck)],
              event.startsAttempt = true :=
            List.forall_mem_append.mpr ⟨hopening, by simp [Event.startsAttempt]⟩
          have hevents : (w.log (.invoked target.key (some script.provider.firstCheck))).events =
              s.world.events ++ (opening ++ [.invoked target.key (some script.provider.firstCheck)]) := by
            simp [World.log, hw]
          split
          · next e hleft =>
            exact .ofDelivered hstart hkinds hevents hdelivered (by simp) fun interrupt hinterrupt =>
              hclose interrupt (hleft.trans (congrArg _ (Except.error.inj hinterrupt)))
          · refine .ofDelivered hstart hkinds hevents hdelivered ?_ ?_
            · intro succeeded r hfinish
              rw [finishStream_text request (mapError_eq_ok.mp hfinish), htext]
              rfl
            · intro interrupt hinterrupt
              cases hfinish : finishStream request t target script l with
              | ok a => simp [hfinish, Except.mapError] at hinterrupt
              | error e =>
                rw [hfinish] at hinterrupt
                cases hinterrupt
                exact ⟨e, rfl, fun he => finishStream_uncancelled hloads request t target script l
                  (by rw [hfinish, he])⟩

/-- The events from the first visible delta on. -/
def afterDelta (events : List (Event O)) : List (Event O) := events.dropWhile fun event => !event.isDelta

/-- After a visible delta no attempt begins and no retry is awaited: at most the
    attempt of the delta is still recorded. -/
def Settled (events : List (Event O)) : Prop :=
  (∀ event ∈ afterDelta events, event.startsAttempt = false) ∧
    (afterDelta events).countP (·.isEmitted) ≤ 1

theorem Settled.append {before after : List (Event O)}
    (hbefore : ∀ event ∈ before, event.isDelta = false)
    (hafter : ∀ event ∈ after, event.startsAttempt = false)
    (hemitted : after.countP (·.isEmitted) ≤ 1) : Settled (before ++ after) := by
  have hdrop : afterDelta (before ++ after) = afterDelta after := by
    unfold afterDelta
    rw [List.dropWhile_append_of_pos fun event hevent => by simp [hbefore event hevent]]
  have hsuffix : afterDelta after <:+ after := List.dropWhile_suffix _
  unfold Settled
  rw [hdrop]
  exact ⟨fun event hevent => hafter event (hsuffix.subset hevent),
    (hsuffix.sublist.countP_le).trans hemitted⟩

structure Fresh (s : StreamState O) : Prop where
  consumerClosed : s.consumerClosed = false
  visible : s.visible = false
  quiet : ∀ event ∈ s.world.events, event.isDelta = false
  items : ∃ payloads, streamItems s.world.events = itemsFrom 0 payloads ∧
    s.sequence = payloads.length ∧ ∀ payload ∈ payloads, payload.isUsage = true

def EndsWith (front : List (ChunkPayload O)) (payloads : List (ChunkPayload O)) : StreamEnd → Prop
  | .terminal => ∃ r, payloads = front ++ [.terminal r] ∧
      responseText r = String.join (front.filterMap (·.text?))
  | .errorItem => ∃ error, payloads = front ++ [.error error] ∧ ∃ payload ∈ front, payload.isDelta = true
  | .raised e => payloads = front ∧ (∀ payload ∈ front, payload.isUsage = true) ∧
      ∃ error, e = .model error
  | .closed | .abandoned => False

/-- What the consumer of a stream has seen when it has ended. -/
structure StreamLaw (s : StreamState O) (ended : StreamEnd) : Prop where
  settled : Settled s.world.events
  items : ∃ front payloads, streamItems s.world.events = itemsFrom 0 payloads ∧
    (∀ payload ∈ front, payload.isDelta = true ∨ payload.isUsage = true) ∧
    EndsWith front payloads ended

theorem Fresh.raised {s : StreamState O} (h : Fresh s) (error : ModelError) :
    StreamLaw s (.raised (.model error)) := by
  obtain ⟨payloads, hitems, -, husage⟩ := h.items
  refine ⟨?_, payloads, payloads, hitems, fun payload hp => .inr (husage payload hp), rfl, husage,
    error, rfl⟩
  have hsettled : Settled (s.world.events ++ []) := Settled.append h.quiet (by simp) (by simp)
  simpa using hsettled

theorem lastItem_read {s : StreamState O} (h : s.consumerClosed = false) (payload : ChunkPayload O)
    (ended : StreamEnd) : lastItem s payload ended =
      ({ s with world := s.world.log (.yielded ⟨s.sequence, payload⟩), sequence := s.sequence + 1 },
        ended) := by
  simp only [lastItem, yieldItem_read h]

/-- What has been shown when the `try` block of an attempt ends, the earlier
    attempts included. -/
structure Shown (t : StreamState O) (front : List (ChunkPayload O)) : Prop where
  kinds : ∀ payload ∈ front, payload.isDelta = true ∨ payload.isUsage = true
  items : streamItems t.world.events = itemsFrom 0 front
  sequence : t.sequence = front.length
  visible : t.visible = front.any (·.isDelta)
  settled : ∀ tail : List (Event O), (∀ event ∈ tail, event.startsAttempt = false) →
    tail.countP (·.isEmitted) ≤ 1 → Settled (t.world.events ++ tail)

theorem TriedReads.shown {s : StreamState O} (hs : Fresh s) {tried : StreamTried O}
    (h : TriedReads s tried) : ∃ front, Shown tried.state front ∧
      ∀ succeeded r, tried.outcome = .ok (succeeded, r) →
        responseText r = String.join (front.filterMap (·.text?)) := by
  obtain ⟨opening, payloads, hopening, hkinds, hevents, hsequence, hvisible, htext⟩ := h.state
  obtain ⟨usages, hitems, hlength, husage⟩ := hs.items
  have hnodelta : ∀ payload ∈ usages, payload.isDelta = false := by
    intro payload hp
    have hkind := husage payload hp
    cases payload <;> simp_all [ChunkPayload.isDelta, ChunkPayload.isUsage]
  have hnotext : usages.filterMap (·.text?) = [] := by
    rw [List.filterMap_eq_nil_iff]
    intro payload hp
    have hkind := husage payload hp
    cases payload <;> simp_all [ChunkPayload.text?, ChunkPayload.isUsage]
  have hsilent : streamItems opening = [] := by
    rw [streamItems, List.filterMap_eq_nil_iff]
    intro event hevent
    have hstart := hopening event hevent
    cases event <;> simp_all [Event.startsAttempt]
  refine ⟨usages ++ payloads, ⟨?_, ?_, ?_, ?_, fun tail htail hcount => ?_⟩, fun succeeded r hok => ?_⟩
  · exact List.forall_mem_append.mpr ⟨fun payload hp => .inr (husage payload hp), hkinds⟩
  · rw [hevents, streamItems_append, streamItems_append, streamItems_yielded, hitems, hsilent,
      itemsFrom_append, hlength]
    simp
  · rw [hsequence, hlength, List.length_append]
  · have hany : usages.any (·.isDelta) = false := List.any_eq_false.mpr (by simpa using hnodelta)
    rw [hvisible, hs.visible, List.any_append, hany]
  · rw [hevents, ← List.append_assoc, List.append_assoc]
    refine .append (List.forall_mem_append.mpr ⟨hs.quiet, fun event hevent => ?_⟩)
      (List.forall_mem_append.mpr ⟨?_, htail⟩) ?_
    · have hstart := hopening event hevent
      cases event <;> simp_all [Event.startsAttempt, Event.isDelta]
    · simp [Event.startsAttempt]
    · rw [List.countP_append, List.countP_map]
      simpa [Function.comp_def, Event.isEmitted] using hcount
  · rw [htext succeeded r hok, List.filterMap_append, hnotext, List.nil_append]

def Closing (w w' : World O) : Prop :=
  ∃ reports record, w'.events = w.events ++ (reports ++ [.emitted record]) ∧
    (∀ event ∈ reports, event.startsAttempt = false ∧ event.isDelta = false) ∧
    reports.countP (·.isEmitted) = 0 ∧ streamItems reports = []

theorem reportIf_closing (admitted : Bool) (w : World O) (target : ModelTarget)
    (script : StreamScript O) (r : Report) (record : AttemptRecord) :
    Closing w ((reportIf admitted w target script r).log (.emitted record)) := by
  unfold reportIf
  split_ifs
  · let before := circuitBreaker (script.beforeReport w.breakers) target
    refine ⟨[.reported target.key r before (before.report r script.reportedAt)], record,
      List.append_assoc .., by simp [Event.startsAttempt, Event.isDelta], by simp [Event.isEmitted],
      rfl⟩
  · exact ⟨[], record, rfl, by simp, rfl, rfl⟩

theorem Shown.last {t : StreamState O} {front : List (ChunkPayload O)} (h : Shown t front)
    (hclosed : t.consumerClosed = false) {w : World O} (hw : Closing t.world w)
    {payload : ChunkPayload O} {ended : StreamEnd}
    (hends : EndsWith front (front ++ [payload]) ended) :
    StreamLaw (lastItem { t with world := w } payload ended).1
      (lastItem { t with world := w } payload ended).2 := by
  obtain ⟨reports, record, hevents, hreports, hcount, hsilent⟩ := hw
  rw [lastItem_read (s := { t with world := w }) hclosed]
  refine ⟨?_, front, front ++ [payload], ?_, h.kinds, hends⟩
  · simp only [World.log, hevents, List.append_assoc]
    refine h.settled _ ?_ ?_
    · exact List.forall_mem_append.mpr ⟨fun event he => (hreports event he).1,
        by simp [Event.startsAttempt]⟩
    · rw [List.countP_append, hcount]
      simp [Event.isEmitted]
  · simp only [World.log, hevents, streamItems_append, h.items, hsilent, itemsFrom_append]
    simp [streamItems, itemsFrom, h.sequence]

theorem Shown.fresh {t : StreamState O} {front : List (ChunkPayload O)} (h : Shown t front)
    (hclosed : t.consumerClosed = false) (hvisible : t.visible = false) {w : World O}
    (hw : Closing t.world w) : Fresh { t with world := w } := by
  obtain ⟨reports, record, hevents, hreports, hcount, hsilent⟩ := hw
  have husage : ∀ payload ∈ front, payload.isUsage = true := by
    intro payload hp
    have hnot : payload.isDelta = false := by
      have hany := h.visible.symm.trans hvisible
      simpa using List.any_eq_false.mp hany payload hp
    simpa [hnot] using h.kinds payload hp
  have hquiet : ∀ event ∈ t.world.events, event.isDelta = false := by
    intro event he
    cases event with
    | yielded chunk =>
      have hmem : chunk ∈ streamItems t.world.events := List.mem_filterMap.mpr ⟨_, he, rfl⟩
      rw [h.items] at hmem
      have hpayload : chunk.payload ∈ front := by
        rw [← map_payload_itemsFrom 0 front]
        exact List.mem_map_of_mem hmem
      have hkind := husage _ hpayload
      cases hp : chunk.payload <;> simp_all [Event.isDelta, ChunkPayload.isDelta, ChunkPayload.isUsage]
    | _ => rfl
  refine ⟨hclosed, hvisible, ?_, front, ?_, h.sequence, husage⟩
  · rw [hevents]
    refine List.forall_mem_append.mpr ⟨hquiet, List.forall_mem_append.mpr
      ⟨fun event he => (hreports event he).2, by simp [Event.isDelta]⟩⟩
  · rw [hevents, streamItems_append, streamItems_append, hsilent, h.items]
    simp [streamItems]

theorem Fresh.fail {s : StreamState O} (h : Fresh s) (record : AttemptRecord) (error : ModelError) :
    Fresh (s.fail record error) := ⟨h.consumerClosed, h.visible, h.quiet, h.items⟩

theorem streamAttempt_reads (hloads : O.LoadsUncancelled) {s : StreamState O} (hs : Fresh s)
    (target : ModelTarget) {script : StreamScript O} (h : Plain script) :
    match streamAttempt g request deadline s target script with
    | (t, .exited ended) => StreamLaw t ended
    | (t, .failed record error) => Fresh (t.fail record error) := by
  have htried := tryStream_reads g request deadline hloads hs.consumerClosed target h
  obtain ⟨front, hshown, htext⟩ := htried.shown hs
  have hclosed := htried.consumerClosed.trans hs.consumerClosed
  have hleft := htried.left
  unfold streamAttempt
  generalize tryStream g request deadline s target script = tried at hshown htext hclosed hleft ⊢
  obtain ⟨t, admitted, l, outcome⟩ := tried
  simp only at hshown htext hclosed hleft ⊢
  cases outcome with
  | ok finished =>
    obtain ⟨succeeded, r⟩ := finished
    refine hshown.last hclosed (reportIf_closing true t.world target script .success succeeded) ?_
    exact ⟨r, rfl, htext succeeded r rfl⟩
  | error interrupt =>
    obtain ⟨e, rfl, he⟩ := hleft interrupt rfl
    have hclosing := reportIf_closing admitted t.world target script
      (.failure (asModelError "Model stream timed out" request.requestId e).code)
      (attemptRecord s.attempts target script script.failedAt
        (.failed (asModelError "Model stream timed out" request.requestId e).code)
        (asModelError "Model stream timed out" request.requestId e).providerRequestId
        ((asModelError "Model stream timed out" request.requestId e).usage.or l.usage) s.fallbackReason)
    have hvisible := hshown.visible
    cases e with
    | cancelled => exact absurd rfl he
    | _ =>
      simp only
      split_ifs with hdelta
      · exact hshown.last hclosed hclosing ⟨_, rfl, by simpa [hdelta] using hvisible⟩
      · exact (hshown.fresh hclosed (by simpa using hdelta) hclosing).fail _ _

theorem fresh_rule (hloads : O.LoadsUncancelled) :
    LoopRule (streamAttempt g request deadline) .raised Plain (fun e => ∃ error, e = .model error) Fresh
      StreamLaw where
  attempt s target script h hs := by
    have hattempt := streamAttempt_reads g request deadline hloads (s := s.beginAttempt target script)
      ⟨hs.consumerClosed, hs.visible, hs.quiet, hs.items⟩ target h
    split <;> simp_all only
  slept s delay hs := by
    obtain ⟨payloads, hitems, hsequence, husage⟩ := hs.items
    refine ⟨hs.consumerClosed, hs.visible, ?_, payloads, ?_, hsequence, husage⟩
    · exact List.forall_mem_append.mpr ⟨hs.quiet, by simp [Event.isDelta]⟩
    · simpa [World.log, streamItems_append, streamItems] using hitems
  reason s code hs := ⟨hs.consumerClosed, hs.visible, hs.quiet, hs.items⟩
  raised s e he hs := by
    obtain ⟨error, rfl⟩ := he
    exact hs.raised error
  model error := ⟨error, rfl⟩
  sleeper script e h he := .inl (h.sleeper e he)

theorem fresh_initial (breakers : Breakers) : Fresh (.initial breakers : StreamState O) :=
  ⟨rfl, rfl, by simp [CallState.initial], [], rfl, rfl, by simp⟩

theorem preflight_model {route : ModelRoute}
    (hestimate : ∀ target ∈ route.targets, ∀ e, g.estimate target request ≠ .error e) {e : Exn}
    (h : g.preflightRoute route request = .error e) : ∃ error, e = .model error := by
  obtain ⟨target, htarget, h⟩ := forM_eq_error h
  unfold DefaultModelGateway.preflightTarget DefaultModelGateway.provider at h
  rcases bind_eq_error.mp h with h | ⟨_, -, h⟩
  · exact ⟨_, (require_eq_error.mp h).2.symm⟩
  rcases bind_eq_error.mp h with h | ⟨_, -, h⟩
  · exact ⟨_, (require_eq_error.mp h).2.symm⟩
  rcases bind_eq_error.mp h with h | ⟨_, -, h⟩
  · exact ⟨_, (require_eq_error.mp h).2.symm⟩
  rcases bind_eq_error.mp h with h | ⟨_, -, h⟩
  · cases hbound : g.estimate target request with
    | error error => exact absurd hbound (hestimate target htarget error)
    | ok bound =>
      rw [hbound] at h
      cases h
  · exact ⟨_, (require_eq_error.mp h).2.symm⟩

theorem provider_model (target : ModelTarget) {e : Exn}
    (h : g.provider target request.requestId = .error e) : ∃ error, e = .model error :=
  ⟨_, (require_eq_error.mp h).2.symm⟩

/-- What a consumer that reads a stream to its end sees: items numbered from zero,
    and at the end either one terminal item with the text of all text deltas, or one
    error item after a visible delta, or a raised `ModelError` after usage items only.
    After a visible delta no attempt begins. -/
theorem stream_law (route : ModelRoute) (start : ℚ) (breakers : Breakers) (env : ℕ → StreamScript O)
    (hplain : ∀ n, Plain (env n)) (hloads : O.LoadsUncancelled)
    (hestimate : ∀ target ∈ route.targets, ∀ e, g.estimate target request ≠ .error e) :
    let run := stream g request route start breakers env
    let items := streamItems run.1.world.events
    items.map (·.sequence) = List.range items.length ∧
    Settled run.1.world.events ∧
    ∃ front, (∀ payload ∈ front, payload.isDelta = true ∨ payload.isUsage = true) ∧
      EndsWith front (items.map (·.payload)) run.2 := by
  intro run items
  have hlaw : StreamLaw run.1 run.2 := by
    simp only [run, stream]
    split
    · next e hpreflight =>
      obtain ⟨error, rfl⟩ := preflight_model g request hestimate hpreflight
      exact (fresh_initial breakers).raised error
    · exact (fresh_rule g request _ hloads).routeLoop _ _ env hplain _ route.targets
        (fun target _ e he => provider_model g request target he) (fresh_initial breakers) none
        (by simp [ModelRoute.targets])
  obtain ⟨front, payloads, hitems, hkinds, hends⟩ := hlaw.items
  refine ⟨?_, hlaw.settled, front, hkinds, ?_⟩
  · simp only [items, hitems, map_sequence_itemsFrom]
    simp [itemsFrom, List.range_eq_range']
  · simpa only [items, hitems, map_payload_itemsFrom] using hends

end

open Sample in
/-- A stream of one text chunk and one usage chunk. -/
theorem stream_law_of_sample :
    let answer : StreamAnswer objects := {
      opened := .ok ()
      chunks := [⟨0, ⟨some "hello", none, none, none, none, none⟩, true, true, true⟩,
        ⟨0, ⟨none, none, (ModelUsage.new {}).toOption, some .stop, none, none⟩, true, true, true⟩]
      lastCheck := 0
      ending := .ok ()
      close := .ok () }
    let run := stream gateway request (route none 0) 0 Table.empty fun _ => script 0 answer
    let items := streamItems run.1.world.events
    items.map (·.sequence) = List.range items.length ∧
    Settled run.1.world.events ∧
    ∃ front, (∀ payload ∈ front, payload.isDelta = true ∨ payload.isUsage = true) ∧
      EndsWith front (items.map (·.payload)) run.2 := by
  intro answer
  refine stream_law gateway request (route none 0) 0 Table.empty (fun _ => script 0 answer)
    (fun _ => ⟨?_, ?_, ?_, ?_, ?_, ?_, ?_⟩) ?_ ?_
  · simp [answer, script, ChunkStep.Read]
  all_goals simp [answer, script, Uncancelled, Objects.LoadsUncancelled, objects, gateway]

end Gateway
end Zhiyi
