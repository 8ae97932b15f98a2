import Zhiyi.Gateway.Trace

set_option autoImplicit false

/-! What one attempt of `stream` does to its breaker and provider. An attempt that
begins after the consumer has closed the generator is left without a report as
soon as it reaches an item. -/
namespace Zhiyi
namespace Gateway
open Python

variable {O : Objects} (g : DefaultModelGateway O) (request : ModelRequest O) (deadline : ℚ)

/-- `t` is `s` after some items and a change of the stream's own variables. -/
structure Yields (s t : StreamState O) : Prop where
  world : ∃ items, Quiet items ∧ t.world = ⟨s.world.breakers, s.world.events ++ items⟩
  failures : t.failures = s.failures
  fallbackReason : t.fallbackReason = s.fallbackReason
  steps : t.steps = s.steps

theorem Yields.refl (s : StreamState O) : Yields s s :=
  ⟨⟨[], quiet_nil, by simp⟩, rfl, rfl, rfl⟩

theorem Yields.trans {s t u : StreamState O} (h : Yields s t) (h' : Yields t u) : Yields s u := by
  obtain ⟨items, hitems, hworld⟩ := h.world
  obtain ⟨items', hitems', hworld'⟩ := h'.world
  refine ⟨⟨items ++ items', hitems.append hitems', ?_⟩, h'.failures.trans h.failures,
    h'.fallbackReason.trans h.fallbackReason, h'.steps.trans h.steps⟩
  rw [hworld', hworld, List.append_assoc]

theorem Yields.show (s : StreamState O) : Yields s { s with visible := true } :=
  ⟨⟨[], quiet_nil, by simp⟩, rfl, rfl, rfl⟩

theorem yieldItem_yields (s : StreamState O) (payload : ChunkPayload O) (reads : Bool) :
    Yields s (yieldItem s payload reads).1 := by
  unfold yieldItem
  split_ifs
  · exact .refl s
  all_goals exact ⟨⟨_, quiet_yielded _, rfl⟩, rfl, rfl, rfl⟩

theorem deliverText_yields (s : StreamState O) (l : StreamLocals O) (step : ChunkStep O) :
    Yields s (deliverText s l step).1 := by
  unfold deliverText
  split
  · exact .refl s
  · split_ifs
    · exact .refl s
    · exact (Yields.show s).trans (yieldItem_yields _ _ _)

theorem deliverTool_yields (requestId : String) (s : StreamState O) (l : StreamLocals O)
    (step : ChunkStep O) : Yields s (deliverTool requestId s l step).1 := by
  unfold deliverTool
  split
  · exact .refl s
  · simp only
    split
    · exact Yields.show s
    · exact (Yields.show s).trans (yieldItem_yields _ _ _)

theorem deliverUsage_yields (s : StreamState O) (l : StreamLocals O) (step : ChunkStep O) :
    Yields s (deliverUsage s l step).1 := by
  unfold deliverUsage
  split
  · exact .refl s
  · exact yieldItem_yields _ _ _

theorem deliver_yields (requestId : String) (s : StreamState O) (l : StreamLocals O)
    (step : ChunkStep O) : Yields s (deliver requestId s l step).1 := by
  have htext := deliverText_yields s l step
  unfold deliver
  split
  · next heq => simpa only [heq] using htext
  · next s₁ l₁ heq =>
    rw [heq] at htext
    have htool := htext.trans (deliverTool_yields requestId s₁ l₁ step)
    split
    · next heq => simpa only [heq] using htool
    · next s₂ l₂ heq =>
      rw [heq] at htool
      have husage := htool.trans (deliverUsage_yields s₂ l₂ step)
      split
      · next heq => simpa only [heq] using husage
      · next heq => simpa only [heq] using husage

theorem consume_yields (requestId : String) (target : ModelTarget) (answer : StreamAnswer O)
    (steps : List (ChunkStep O)) (s : StreamState O) (l : StreamLocals O) :
    Yields s (consume requestId deadline target answer steps false s l).1 := by
  induction steps generalizing s l with
  | nil =>
    unfold consume
    split
    · exact .refl s
    · exact .refl s
  | cons step steps ih =>
    have hdeliver := deliver_yields requestId s l step
    unfold consume
    split
    · exact .refl s
    · simp only [markInvoked, Bool.false_eq_true, if_false]
      split
      · next heq => simpa only [heq] using hdeliver
      · next s' l' heq =>
        rw [heq] at hdeliver
        exact hdeliver.trans (ih s' l')

/-- The clock reading before the first `anext`. -/
def StreamAnswer.firstCheck (answer : StreamAnswer O) : ℚ :=
  (answer.chunks.head?.map (·.check)).getD answer.lastCheck

theorem consume_first (requestId : String) (target : ModelTarget) (answer : StreamAnswer O)
    (s : StreamState O) (l : StreamLocals O) :
    consume requestId deadline target answer answer.chunks true s l =
      match remaining deadline answer.firstCheck requestId with
      | .error e => (s, l, .error (.raised e))
      | .ok _ => consume requestId deadline target answer answer.chunks false
          { s with world := s.world.log (.invoked target.key (some answer.firstCheck)) } l := by
  unfold StreamAnswer.firstCheck
  cases answer.chunks with
  | nil =>
    unfold consume
    simp only [List.head?_nil, Option.map_none, Option.getD_none]
    cases remaining deadline answer.lastCheck requestId <;> rfl
  | cons step steps =>
    unfold consume
    simp only [List.head?_cons, Option.map_some, Option.getD_some]
    cases remaining deadline step.check requestId <;> rfl

def carriesItem (chunk : ProviderChunk O) : Bool :=
  chunk.textDelta.any (· ≠ "") || chunk.toolCallDelta.isSome || chunk.usage.isSome

/-- The chunks reach an item before the deadline and before a repeated structured
    output. -/
def ReachesItem (deadline : ℚ) : Bool → List (ChunkStep O) → Prop
  | _, [] => False
  | structured, step :: steps =>
    step.check < deadline ∧
      (carriesItem step.chunk = true ∨
        (structured && step.chunk.structuredOutput.isSome) = false ∧
          ReachesItem deadline (structured || step.chunk.structuredOutput.isSome) steps)

/-- No item is lost, and the consumer reads on if the attempt goes on. -/
structure Received (s : StreamState O) (left : Except Interrupt Unit) : Prop where
  kept : left ≠ .error .abandoned
  reads : left = .ok () → s.consumerClosed = false

theorem yieldItem_received {s : StreamState O} (h : s.consumerClosed = false)
    (payload : ChunkPayload O) (reads : Bool) :
    Received (yieldItem s payload reads).1 (yieldItem s payload reads).2 := by
  unfold yieldItem
  cases reads <;> constructor <;> simp [h]

theorem deliverText_received {s : StreamState O} (h : s.consumerClosed = false) (l : StreamLocals O)
    (step : ChunkStep O) :
    Received (deliverText s l step).1 (deliverText s l step).2.2 := by
  unfold deliverText
  split
  · exact ⟨by simp, fun _ => h⟩
  · split_ifs
    · exact ⟨by simp, fun _ => h⟩
    · exact yieldItem_received (s := { s with visible := true }) h _ _

theorem deliverTool_received (requestId : String) {s : StreamState O} (h : s.consumerClosed = false)
    (l : StreamLocals O) (step : ChunkStep O) :
    Received (deliverTool requestId s l step).1 (deliverTool requestId s l step).2.2 := by
  unfold deliverTool
  split
  · exact ⟨by simp, fun _ => h⟩
  · simp only
    split
    · exact ⟨by simp, by simp⟩
    · exact yieldItem_received (s := { s with visible := true }) h _ _

theorem deliverUsage_received {s : StreamState O} (h : s.consumerClosed = false) (l : StreamLocals O)
    (step : ChunkStep O) :
    Received (deliverUsage s l step).1 (deliverUsage s l step).2.2 := by
  unfold deliverUsage
  split
  · exact ⟨by simp, fun _ => h⟩
  · exact yieldItem_received h _ _

theorem collect_kept (requestId : String) (l : StreamLocals O) (chunk : ProviderChunk O) :
    (collect requestId l chunk).2 ≠ .error .abandoned := by
  unfold collect
  cases chunk.structuredOutput <;> cases l.structuredOutput <;> simp

theorem deliver_received (requestId : String) {s : StreamState O} (h : s.consumerClosed = false)
    (l : StreamLocals O) (step : ChunkStep O) :
    Received (deliver requestId s l step).1 (deliver requestId s l step).2.2 := by
  have htext := deliverText_received h l step
  unfold deliver
  split
  · next heq => simpa only [heq] using htext
  · next s₁ l₁ heq =>
    rw [heq] at htext
    have htool := deliverTool_received requestId (htext.reads rfl) l₁ step
    split
    · next heq => simpa only [heq] using htool
    · next s₂ l₂ heq =>
      rw [heq] at htool
      have husage := deliverUsage_received (htool.reads rfl) l₂ step
      split
      · next heq => simpa only [heq] using husage
      · next s₃ l₃ heq =>
        rw [heq] at husage
        exact ⟨collect_kept requestId l₃ step.chunk, fun _ => husage.reads rfl⟩

theorem consume_received {requestId : String} {target : ModelTarget} {answer : StreamAnswer O}
    (steps : List (ChunkStep O)) {s : StreamState O} (h : s.consumerClosed = false)
    (l : StreamLocals O) :
    (consume requestId deadline target answer steps false s l).2.2 ≠ .error .abandoned := by
  induction steps generalizing s l with
  | nil =>
    unfold consume
    split
    · simp
    · cases answer.ending <;> simp [Except.mapError]
  | cons step steps ih =>
    have hdeliver := deliver_received requestId h l step
    unfold consume
    split
    · simp
    · simp only [markInvoked, Bool.false_eq_true, if_false]
      split
      · next heq => simpa only [heq] using hdeliver.kept
      · next s' l' heq =>
        rw [heq] at hdeliver
        exact ih (hdeliver.reads rfl) l'

theorem collect_structured (requestId : String) (l : StreamLocals O) (chunk : ProviderChunk O) :
    ((collect requestId l chunk).2 = .ok () ↔
      (l.structuredOutput.isSome && chunk.structuredOutput.isSome) = false) ∧
    ((collect requestId l chunk).2 = .ok () → (collect requestId l chunk).1.structuredOutput.isSome =
      (l.structuredOutput.isSome || chunk.structuredOutput.isSome)) ∧
    (collect requestId l chunk).1.toolBuffers = l.toolBuffers := by
  unfold collect
  cases hchunk : chunk.structuredOutput <;> cases l.structuredOutput <;> simp

theorem deliverText_closed {s : StreamState O} (h : s.consumerClosed = true) (l : StreamLocals O)
    (step : ChunkStep O) :
    deliverText s l step = (s, l, .ok ()) ∧ step.chunk.textDelta.any (· ≠ "") = false ∨
      step.chunk.textDelta.any (· ≠ "") = true ∧
        (deliverText s l step).2.2 = .error .abandoned := by
  unfold deliverText
  cases step.chunk.textDelta with
  | none => exact .inl ⟨rfl, rfl⟩
  | some text => by_cases hempty : text = "" <;> simp [hempty, yieldItem, h]

theorem deliverUsage_closed {s : StreamState O} (h : s.consumerClosed = true) (l : StreamLocals O)
    (step : ChunkStep O) :
    deliverUsage s l step = (s, l, .ok ()) ∧ step.chunk.usage.isSome = false ∨
      step.chunk.usage.isSome = true ∧ (deliverUsage s l step).2.2 = .error .abandoned := by
  unfold deliverUsage
  cases step.chunk.usage with
  | none => exact .inl ⟨rfl, rfl⟩
  | some usage => simp [yieldItem, h]

theorem empty_append (delta : ToolCallDelta) (requestId : String) :
    ∃ buffer, ToolCallBuffer.empty.append delta requestId = .ok buffer := by
  unfold ToolCallBuffer.append ToolCallBuffer.empty ToolCallBuffer.agree
  cases delta.id <;> cases delta.name <;> exact ⟨_, rfl⟩

theorem deliverTool_closed (requestId : String) {s : StreamState O} (h : s.consumerClosed = true)
    {l : StreamLocals O} (hl : l.toolBuffers = Dict.empty) (step : ChunkStep O) :
    deliverTool requestId s l step = (s, l, .ok ()) ∧ step.chunk.toolCallDelta.isSome = false ∨
      step.chunk.toolCallDelta.isSome = true ∧
        (deliverTool requestId s l step).2.2 = .error .abandoned := by
  unfold deliverTool
  cases step.chunk.toolCallDelta with
  | none => exact .inl ⟨rfl, rfl⟩
  | some delta =>
    obtain ⟨buffer, hbuffer⟩ := empty_append delta requestId
    simp [hl, hbuffer, yieldItem, h]

/-- After the close a chunk loses its first item, or it is only collected. -/
theorem deliver_closed (requestId : String) {s : StreamState O} (h : s.consumerClosed = true)
    {l : StreamLocals O} (hl : l.toolBuffers = Dict.empty) (step : ChunkStep O) :
    (carriesItem step.chunk = true → (deliver requestId s l step).2.2 = .error .abandoned) ∧
    (carriesItem step.chunk = false → deliver requestId s l step =
      (s, (collect requestId l step.chunk).1, (collect requestId l step.chunk).2)) := by
  unfold deliver carriesItem
  rcases deliverText_closed h l step with ⟨htext, hnotext⟩ | ⟨htext, hlost⟩
  · simp only [htext, hnotext]
    rcases deliverTool_closed requestId h hl step with
      ⟨htool, hnotool⟩ | ⟨htool, hlost⟩
    · simp only [htool, hnotool]
      rcases deliverUsage_closed h l step with ⟨husage, hnousage⟩ | ⟨husage, hlost⟩
      · simp [husage, hnousage]
      · refine ⟨fun _ => ?_, by simp [husage]⟩
        split
        · next heq => simpa only [heq] using hlost
        · next heq => simp [heq] at hlost
    · refine ⟨fun _ => ?_, by simp [htool]⟩
      split
      · next heq => simpa only [heq] using hlost
      · next heq => simp [heq] at hlost
  · refine ⟨fun _ => ?_, by rw [htext]; simp⟩
    split
    · next heq => simpa only [heq] using hlost
    · next heq => simp [heq] at hlost

/-- After the close an attempt is left exactly when its chunks reach an item. -/
theorem consume_closed {requestId : String} {target : ModelTarget} {answer : StreamAnswer O}
    (steps : List (ChunkStep O)) {s : StreamState O} (h : s.consumerClosed = true)
    {l : StreamLocals O} (hl : l.toolBuffers = Dict.empty) :
    (consume requestId deadline target answer steps false s l).2.2 = .error .abandoned ↔
      ReachesItem deadline l.structuredOutput.isSome steps := by
  induction steps generalizing l with
  | nil =>
    unfold consume ReachesItem
    split
    · simp
    · cases answer.ending <;> simp [Except.mapError]
  | cons step steps ih =>
    obtain ⟨hitem, hquiet⟩ := deliver_closed requestId h hl step
    obtain ⟨hok, hstructured, hbuffers⟩ := collect_structured requestId l step.chunk
    unfold consume ReachesItem
    cases hcheck : remaining deadline step.check requestId with
    | error e =>
      have hlate : ¬ step.check < deadline := fun hlt => by simp [remaining_of_lt hlt] at hcheck
      simp [hlate]
    | ok left =>
      simp only [markInvoked, Bool.false_eq_true, if_false, remaining_eq_ok hcheck, true_and]
      cases hcarries : carriesItem step.chunk with
      | true =>
        have hlost := hitem hcarries
        simp only [true_or, iff_true]
        split
        · next heq => simpa only [heq] using hlost
        · next heq => simp [heq] at hlost
      | false =>
        rw [hquiet hcarries]
        simp only [Bool.false_eq_true, false_or]
        cases hcollect : (collect requestId l step.chunk).2 with
        | error e =>
          have hkept := collect_kept requestId l step.chunk
          rw [hcollect] at hok hkept
          simp_all
        | ok u =>
          simp only [hok.mp hcollect, true_and]
          rw [← hstructured hcollect]
          exact ih (hbuffers.trans hl)

/-- What stops an admitted attempt before its provider is invoked, as the exception
    its `try` block raises. -/
def earlyStream (requestId : String) (target : ModelTarget) (script : StreamScript O) : Except Exn Unit := do
  credential g.hasSecretProvider target script deadline requestId
  match script.provider.opened, remaining deadline script.provider.firstCheck requestId with
  | .ok (), .error e => do
    script.provider.close
    .error e
  | _, _ => .ok ()

/-- An attempt, begun after the consumer's close, whose provider reaches an item. -/
structure Leaks (requestId : String)
    (step : AttemptStep (StreamAnswer O)) : Prop where
  closed : step.consumerClosed = true
  admits : Admits step.breakers step.target step.script deadline requestId
  early : earlyStream g deadline requestId step.target step.script = .ok ()
  opened : step.script.provider.opened = .ok ()
  reaches : ReachesItem deadline false step.script.provider.chunks

/-- The exception a `try` block of a stream is left with; a closing consumer counts
    as a cancellation. -/
def leftBy {α : Type} : Except Interrupt α → Option Exn
  | .error (.raised e) => some e
  | .error .closed => some .cancelled
  | _ => none

theorem tryStream_trace (s : StreamState O) (target : ModelTarget) (script : StreamScript O) :
    TriedTrace s.world target script deadline request.requestId
      (earlyStream g deadline request.requestId target script)
      (tryStream g request deadline s target script).state.world
      (tryStream g request deadline s target script).admitted
      (leftBy (tryStream g request deadline s target script).outcome) := by
  unfold tryStream
  split
  · next w e hadm =>
    obtain ⟨hnot, quiet, hquiet, hevents⟩ := admitCall_error hadm
    exact .unadmitted w e quiet hquiet hnot hevents
  · next w hadm =>
    obtain ⟨hadmits, rfl⟩ := admitCall_ok hadm
    simp only
    split
    · next e hcredential =>
      refine .early e hadmits ?_
      simp only [earlyStream, hcredential]
      rfl
    · next hcredential =>
      split
      · next e hopened =>
        have hearly : earlyStream g deadline request.requestId target script = .ok () := by
          simp only [earlyStream, hcredential, hopened]
          rfl
        simp only [World.log, List.append_assoc, List.cons_append, List.nil_append]
        exact .invoked none [] _ quiet_nil hadmits hearly
      · next hopened =>
        rw [consume_first]
        cases hcheck : remaining deadline script.provider.firstCheck request.requestId with
        | error e =>
          have hearly : earlyStream g deadline request.requestId target script =
              (script.provider.close >>= fun _ => .error e) := by
            simp only [earlyStream, hcredential, hopened, hcheck]
            rfl
          simp only [closeIterator]
          cases hclose : script.provider.close with
          | error e' =>
            refine .early e' hadmits ?_
            rw [hearly, hclose]
            rfl
          | ok u =>
            refine .early e hadmits ?_
            rw [hearly, hclose]
            rfl
        | ok left =>
          have hearly : earlyStream g deadline request.requestId target script = .ok () := by
            simp only [earlyStream, hcredential, hopened, hcheck]
            rfl
          let admitted : World O :=
            ⟨admittedBreakers s.world.breakers target script, s.world.events ++ [.admitted target.key]⟩
          have hyields := consume_yields deadline request.requestId target script.provider
            script.provider.chunks
            { s with world := admitted.log (.invoked target.key (some script.provider.firstCheck)) }
            .initial
          obtain ⟨items, hitems, hworld⟩ := hyields.world
          simp only [admitted, World.log, List.append_assoc, List.cons_append, List.nil_append] at hworld ⊢
          split <;> simp only [hworld] <;>
            exact .invoked (some script.provider.firstCheck) items _ hitems hadmits hearly

theorem closeIterator_abandoned (answer : StreamAnswer O) {left : Except Interrupt Unit} :
    closeIterator answer left = .error .abandoned ↔ left = .error .abandoned := by
  unfold closeIterator
  split
  · simp
  · next hleft =>
    refine ⟨fun h => ?_, fun h => absurd h hleft⟩
    cases hclose : answer.close <;> rw [hclose] at h
    · cases h
    · exact h

theorem consume_abandoned (requestId : String) (target : ModelTarget) (answer : StreamAnswer O)
    (s : StreamState O) :
    (consume requestId deadline target answer answer.chunks false s .initial).2.2 =
        .error .abandoned ↔
      s.consumerClosed = true ∧ ReachesItem deadline false answer.chunks := by
  cases h : s.consumerClosed with
  | false => simpa using consume_received deadline answer.chunks h .initial
  | true =>
    rw [eq_self, true_and]
    exact consume_closed deadline answer.chunks h rfl

theorem tryStream_abandoned (s : StreamState O) (target : ModelTarget) (script : StreamScript O) :
    (tryStream g request deadline s target script).outcome = .error .abandoned ↔
      Leaks g deadline request.requestId (stepOf s target script) := by
  unfold tryStream
  split
  · next w e hadm =>
    refine iff_of_false (by simp) fun hleaks => ?_
    exact (admitCall_error hadm).1 hleaks.admits
  · next w hadm =>
    have hadmits := (admitCall_ok hadm).1
    simp only
    split
    · next e hcredential =>
      refine iff_of_false (by simp) fun hleaks => ?_
      have hearly := hleaks.early
      simp [stepOf, earlyStream, hcredential, bind, Except.bind] at hearly
    · next hcredential =>
      split
      · next e hopened =>
        refine iff_of_false (by simp) fun hleaks => ?_
        have hok := hleaks.opened
        simp [stepOf, hopened] at hok
      · next hopened =>
        rw [consume_first]
        cases hcheck : remaining deadline script.provider.firstCheck request.requestId with
        | error e =>
          simp only [closeIterator]
          refine iff_of_false (by cases script.provider.close <;> simp) fun hleaks => ?_
          have hearly := hleaks.early
          simp only [stepOf, earlyStream, hcredential, hopened, hcheck] at hearly
          cases hclose : script.provider.close <;> rw [hclose] at hearly <;> cases hearly
        | ok left =>
          have hearly : earlyStream g deadline request.requestId target script = .ok () := by
            simp only [earlyStream, hcredential, hopened, hcheck]
            rfl
          have hleaks : Leaks g deadline request.requestId (stepOf s target script) ↔
              s.consumerClosed = true ∧ ReachesItem deadline false script.provider.chunks :=
            ⟨fun h => ⟨h.closed, h.reaches⟩, fun h => ⟨h.1, hadmits, hearly, hopened, h.2⟩⟩
          have hconsume := consume_abandoned deadline request.requestId target script.provider
            { s with world := w.log (.invoked target.key (some script.provider.firstCheck)) }
          rw [hleaks, ← hconsume, ← closeIterator_abandoned script.provider]
          simp only
          split
          · next e hleft => simp [hleft]
          · next hleft =>
            simp only [hleft, reduceCtorEq, iff_false]
            cases finishStream request _ target script _ <;> simp [Except.mapError]

theorem lastItem_yields (s : StreamState O) (payload : ChunkPayload O) (ended : StreamEnd) :
    Yields s (lastItem s payload ended).1 := by
  have hyields := yieldItem_yields s payload true
  unfold lastItem
  split <;> simpa only [*] using hyields

/-- What the `try` block leaves of the call's own variables. -/
theorem tryStream_keeps (s : StreamState O) (target : ModelTarget) (script : StreamScript O) :
    (tryStream g request deadline s target script).state.failures = s.failures ∧
    (tryStream g request deadline s target script).state.fallbackReason = s.fallbackReason ∧
    (tryStream g request deadline s target script).state.steps = s.steps := by
  unfold tryStream
  split
  · exact ⟨rfl, rfl, rfl⟩
  · next w hadm =>
    simp only
    split
    · exact ⟨rfl, rfl, rfl⟩
    · split
      · exact ⟨rfl, rfl, rfl⟩
      · rw [consume_first]
        cases remaining deadline script.provider.firstCheck request.requestId with
        | error e =>
          simp only
          split <;> exact ⟨rfl, rfl, rfl⟩
        | ok left =>
          have hyields := consume_yields deadline request.requestId target script.provider
            script.provider.chunks
            { s with world := w.log (.invoked target.key (some script.provider.firstCheck)) } .initial
          simp only
          split <;> exact ⟨hyields.failures, hyields.fallbackReason, hyields.steps⟩

theorem streamAttempt_steps (s : StreamState O) (target : ModelTarget) (script : StreamScript O) :
    (streamAttempt g request deadline s target script).1.steps = s.steps := by
  have hkeeps := (tryStream_keeps g request deadline s target script).2.2
  have hlast : ∀ (t : StreamState O) (payload : ChunkPayload O) (ended : StreamEnd),
      (lastItem t payload ended).1.steps = t.steps :=
    fun t payload ended => (lastItem_yields t payload ended).steps
  unfold streamAttempt
  simp only
  split
  · exact (hlast _ _ _).trans hkeeps
  · exact hkeeps
  · exact hkeeps
  · exact hkeeps
  · split_ifs
    · exact (hlast _ _ _).trans hkeeps
    · exact hkeeps

/-- An attempt of `stream` reports what it was admitted for unless it leaks, and
    then it ends the call. -/
theorem streamAttempt_traced :
    Traced (streamAttempt g request deadline) deadline request.requestId
      (fun step => earlyStream g deadline request.requestId step.target step.script)
      (Leaks g deadline request.requestId) := by
  refine ⟨streamAttempt_steps g request deadline, fun s target script => ?_⟩
  have htried := tryStream_trace g request deadline s target script
  have habandoned := tryStream_abandoned g request deadline s target script
  unfold streamAttempt
  generalize tryStream g request deadline s target script = tried at htried habandoned
  obtain ⟨t, admitted, l, outcome⟩ := tried
  simp only at htried habandoned ⊢
  split
  · next outcome succeeded r =>
    have hnot : ¬ Leaks g deadline request.requestId (stepOf s target script) := by
      simpa using habandoned
    obtain ⟨rfl, -⟩ := htried.of_none
    obtain ⟨items, hitems, hworld⟩ := (lastItem_yields { t with
      world := (t.world.report target script .success).log (.emitted succeeded) }
      (.terminal r) .terminal).world
    refine ⟨true, htried.finish (r := .success) (by simp [leftBy])
      ((quiet_emitted succeeded).append hitems) ((congrArg World.events hworld).trans ?_),
      by simp [hnot], by simp⟩
    simp [World.log, reportIf]
  · have hleaks : Leaks g deadline request.requestId (stepOf s target script) :=
      habandoned.mp rfl
    obtain ⟨-, hadmits, hearly, at_, items, hitems, hevents⟩ := htried.of_none
    exact ⟨false, ⟨_, hevents, .left at_ items hitems hadmits hearly⟩, by simp [hleaks],
      fun _ => ⟨_, rfl⟩⟩
  · have hnot : ¬ Leaks g deadline request.requestId (stepOf s target script) := by
      simpa using habandoned
    exact ⟨true, htried.finish (r := .cancelled) (by simp [leftBy, failureReport])
      (quiet_emitted _) rfl, by simp [hnot], by simp⟩
  · have hnot : ¬ Leaks g deadline request.requestId (stepOf s target script) := by
      simpa using habandoned
    exact ⟨true, htried.finish (r := .cancelled) (by simp [leftBy, failureReport])
      (quiet_emitted _) rfl, by simp [hnot], by simp⟩
  · next outcome e hother =>
    have hnot : ¬ Leaks g deadline request.requestId (stepOf s target script) := by
      simpa using habandoned
    have hr : ∀ e' ∈ leftBy (.error (.raised e) : Except Interrupt (AttemptRecord × ModelResponse O)),
        .failure (failureCode e) = failureReport e' := by
      intro e' he'
      obtain rfl : e = e' := Option.some.inj he'
      exact (failureReport_of_ne fun h => hother h).symm
    simp only [asModelError_code]
    split_ifs
    · refine ⟨true, ?_, by simp [hnot], by simp⟩
      generalize ChunkPayload.error _ = payload
      generalize attemptRecord _ _ _ _ _ _ _ _ = failed
      obtain ⟨items, hitems, hworld⟩ := (lastItem_yields { t with
        world := (reportIf admitted t.world target script (.failure (failureCode e))).log
          (.emitted failed) } payload .errorItem).world
      refine htried.finish hr ((quiet_emitted failed).append hitems)
        ((congrArg World.events hworld).trans ?_)
      simp [World.log]
    · exact ⟨true, htried.finish hr (quiet_emitted _) rfl, by simp [hnot], by simp⟩

end Gateway
end Zhiyi
