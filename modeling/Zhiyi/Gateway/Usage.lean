import Zhiyi.Gateway.StreamTrace

set_option autoImplicit false

/-! The total usage of a response against the attempts of its call. Attempts that
recorded no usage are left out of the total. -/
namespace Zhiyi
namespace Gateway
open Python

/-- Nothing about the consumption is missing. -/
def ModelUsage.isWhole (usage : ModelUsage) : Bool :=
  !usage.incomplete && usage.inputTokens.isSome && usage.outputTokens.isSome &&
    usage.totalTokens.isSome && usage.amount.isSome

theorem exists_not_whole (usages : List ModelUsage) :
    (∃ usage ∈ usages, usage.isWhole = false) ↔
      (((∃ usage ∈ usages, usage.incomplete = true) ∨ ∃ usage ∈ usages, usage.inputTokens.isSome = false) ∨
        ∃ usage ∈ usages, usage.outputTokens.isSome = false) ∨
          (∃ usage ∈ usages, usage.totalTokens.isSome = false) ∨
            ∃ usage ∈ usages, usage.amount.isNone = true := by
  simp only [← exists_or, ← and_or_left]
  refine exists_congr fun usage => and_congr_right fun _ => ?_
  simp only [ModelUsage.isWhole, Bool.and_eq_false_iff, Bool.not_eq_false', Option.isSome_eq_false_iff,
    or_assoc]

theorem aggregateOptional_snd (values : List (Option ℕ)) :
    (aggregateOptional values).2 = true ↔ ∃ value ∈ values, value.isSome = false := by
  have hlength : (values.filterMap id).length = values.length ↔ ∀ value ∈ values, value.isSome = true :=
    List.filterMap_length_eq_length
  simp only [aggregateOptional, bne_iff_ne, ne_eq, hlength, not_forall, exists_prop, Bool.not_eq_true]

theorem aggregateOptional_fst {values : List (Option ℕ)} {n : ℕ} (h : (aggregateOptional values).1 = some n) :
    n = (values.filterMap id).sum := by
  simp only [aggregateOptional] at h
  split_ifs at h
  exact (Option.some.inj h).symm

theorem aggregateAmount_eq_ok {usages : List ModelUsage} {total : Option (Decimal × String)}
    (h : aggregateAmount usages = .ok total) :
    total.isNone = true ↔
      (∃ usage ∈ usages, usage.amount.isNone = true) ∨
        (fromKeys (usages.filterMap (·.currency))).length ≠ 1 := by
  unfold aggregateAmount at h
  simp only at h
  split_ifs at h with hany
  · cases h
    exact iff_of_true rfl (.inl (List.any_eq_true.mp hany))
  · simp only [List.any_eq_true, not_exists, not_and] at hany
    have hnone : ¬∃ usage ∈ usages, usage.amount.isNone = true := by simpa using hany
    simp only [hnone, false_or]
    split at h
    · next currency hcurrency =>
      rw [hcurrency]
      split at h
      · cases h
        simp
      · cases h
    · next hcurrencies =>
      cases h
      simp only [Option.isNone_none, true_iff]
      intro hone
      obtain ⟨currency, hcurrency⟩ := List.length_eq_one_iff.mp hone
      exact hcurrencies currency hcurrency

/-- The usages do not add up to a whole: there is none, one of them is not whole, or they
    are not in one currency. -/
def Short (usages : List ModelUsage) : Prop :=
  usages = [] ∨ (∃ usage ∈ usages, usage.isWhole = false) ∨
    (fromKeys (usages.filterMap (·.currency))).length ≠ 1

theorem ModelUsage.new_eq_ok {f : ModelUsageFields} {usage : ModelUsage}
    (h : (ModelUsage.new f).mapError Exn.python = .ok usage) : usage.toModelUsageFields = f := by
  obtain ⟨_, rfl⟩ := construct_eq_ok (mapError_eq_ok.mp h)
  rfl

def knownSum (field : ModelUsage → Option ℕ) (usages : List ModelUsage) : ℕ := (usages.filterMap field).sum

structure Aggregates (usages : List ModelUsage) (total : ModelUsage) : Prop where
  incomplete : total.incomplete = true ↔ Short usages
  inputTokens : ∀ n, total.inputTokens = some n → n = knownSum (·.inputTokens) usages
  outputTokens : ∀ n, total.outputTokens = some n → n = knownSum (·.outputTokens) usages
  totalTokens : ∀ n, total.totalTokens = some n → n = knownSum (·.totalTokens) usages

theorem aggregates_of_aggregate {usages : List ModelUsage} {total : ModelUsage}
    (h : ModelUsage.aggregate usages = .ok total) : Aggregates usages total := by
  unfold ModelUsage.aggregate at h
  split_ifs at h with hempty
  · have hfields := ModelUsage.new_eq_ok h
    constructor <;> simp [hfields, hempty, Short]
  · simp only at h
    obtain ⟨amount, hamount, h⟩ := bind_eq_ok.mp h
    have hfields := ModelUsage.new_eq_ok h
    have hsum : ∀ (field : ModelUsage → Option ℕ) n,
        (aggregateOptional (usages.map field)).1 = some n → n = knownSum field usages := by
      intro field n hn
      rw [aggregateOptional_fst hn, knownSum, List.filterMap_map]
      rfl
    refine ⟨?_, ?_, ?_, ?_⟩
    · have hnone := aggregateAmount_eq_ok hamount
      rw [hfields]
      simp only [Bool.or_eq_true, List.any_eq_true, aggregateOptional_snd, List.mem_map,
        exists_exists_and_eq_and, hnone, Short, hempty, false_or, exists_not_whole, or_assoc]
    all_goals
      intro n hn
      rw [hfields] at hn
      exact hsum _ n hn

variable {O : Objects}

def recorded (events : List (Event O)) : List AttemptRecord :=
  events.filterMap fun
    | .emitted a => some a
    | _ => none

/-- The recorded attempts that invoked a provider. The flag says whether one was invoked
    since the last record. -/
def invokers : Bool → List (Event O) → List AttemptRecord
  | _, [] => []
  | _, .invoked _ _ :: events => invokers true events
  | invoked, .emitted a :: events => if invoked then a :: invokers false events else invokers false events
  | invoked, _ :: events => invokers invoked events

theorem recorded_append (a b : List (Event O)) : recorded (a ++ b) = recorded a ++ recorded b :=
  List.filterMap_append

theorem recorded_yielded (items : List (ModelChunk O)) : recorded (items.map .yielded) = [] := by
  simp [recorded, List.filterMap_map]

theorem mem_recorded_of_mem_invokers {a : AttemptRecord} {invoked : Bool} {events : List (Event O)}
    (h : a ∈ invokers invoked events) : a ∈ recorded events := by
  induction events generalizing invoked with
  | nil => cases h
  | cons event events ih =>
    cases event with
    | emitted b =>
      simp only [invokers] at h
      split_ifs at h
      · rcases List.mem_cons.mp h with rfl | h
        · exact List.mem_cons_self
        · exact List.mem_cons_of_mem _ (ih h)
      · exact List.mem_cons_of_mem _ (ih h)
    | _ => exact ih h

def AttemptRecord.isAccounted (a : AttemptRecord) : Bool := a.usage.any ModelUsage.isWhole

/-- The total is marked incomplete when the consumption of an invoked provider is not known,
    and its known tokens are the sums over the attempts. -/
structure HonestUsage (r : ModelResponse O) (invoked : List AttemptRecord) : Prop where
  flagged : ∀ a ∈ invoked, a.isAccounted = false → r.totalUsage.incomplete = true
  inputTokens : ∀ n, r.totalUsage.inputTokens = some n →
    n = knownSum (·.inputTokens) (r.attempts.filterMap (·.usage))
  outputTokens : ∀ n, r.totalUsage.outputTokens = some n →
    n = knownSum (·.outputTokens) (r.attempts.filterMap (·.usage))
  totalTokens : ∀ n, r.totalUsage.totalTokens = some n →
    n = knownSum (·.totalTokens) (r.attempts.filterMap (·.usage))

/-- Every attempt that invoked a provider recorded a usage, or what was recorded is short
    already. -/
def UsagesRecorded (r : ModelResponse O) (invoked : List AttemptRecord) : Prop :=
  (∀ a ∈ invoked, a.usage.isSome = true) ∨ Short (r.attempts.filterMap (·.usage))

structure Answers (events : List (Event O)) (r : ModelResponse O) : Prop where
  attempts : recorded events = r.attempts
  total : ModelUsage.aggregate (r.attempts.filterMap (·.usage)) = .ok r.totalUsage

theorem Answers.honest_iff {events : List (Event O)} {r : ModelResponse O} (h : Answers events r) :
    HonestUsage r (invokers false events) ↔ UsagesRecorded r (invokers false events) := by
  have haggregates := aggregates_of_aggregate h.total
  constructor
  · intro hhonest
    by_contra hmissing
    obtain ⟨hunrecorded, hlong⟩ := not_or.mp hmissing
    obtain ⟨a, ha, hnone⟩ : ∃ a ∈ invokers false events, a.usage = none := by simpa using hunrecorded
    exact hlong (haggregates.incomplete.mp
      (hhonest.flagged a ha (by simp [AttemptRecord.isAccounted, hnone])))
  · intro hrecorded
    refine ⟨fun a ha hunaccounted => haggregates.incomplete.mpr ?_, haggregates.inputTokens,
      haggregates.outputTokens, haggregates.totalTokens⟩
    rcases hrecorded with hsome | hshort
    · -- its own usage is not whole, and it is among those of the total
      obtain ⟨usage, husage⟩ := Option.isSome_iff_exists.mp (hsome a ha)
      have hmem : a ∈ r.attempts := h.attempts ▸ mem_recorded_of_mem_invokers ha
      refine .inr (.inl ⟨usage, List.mem_filterMap.mpr ⟨a, hmem, husage⟩, ?_⟩)
      simpa [AttemptRecord.isAccounted, husage] using hunaccounted
    · exact hshort

theorem response_total {request : ModelRequest O} {target : ModelTarget} {answer : ProviderResponse O}
    {attempts : List AttemptRecord} {r : ModelResponse O}
    (h : response request target answer attempts = .ok r) :
    r.attempts = attempts ∧ ModelUsage.aggregate (r.attempts.filterMap (·.usage)) = .ok r.totalUsage := by
  have hattempts := (response_eq_ok h).2
  obtain ⟨structured, -, h⟩ := bind_eq_ok.mp h
  obtain ⟨_, -, h⟩ := bind_eq_ok.mp h
  obtain ⟨_, -, h⟩ := bind_eq_ok.mp h
  simp only at h
  split at h
  · cases h
  · obtain ⟨totalUsage, htotal, h⟩ := bind_eq_ok.mp h
    obtain ⟨_, hr⟩ := construct_eq_ok (mapError_eq_ok.mp h)
    refine ⟨hattempts, ?_⟩
    rw [hattempts, htotal, ← hr]

section
variable (g : DefaultModelGateway O) (request : ModelRequest O) (deadline : ℚ)

theorem admitCall_recorded {P : Type} {w w' : World O} {target : ModelTarget} {script : AttemptScript P}
    {requestId : String} {answer : Except Exn Unit}
    (h : admitCall w target script deadline requestId = (w', answer)) :
    recorded w'.events = recorded w.events := by
  unfold admitCall at h
  split at h
  · cases h
    rfl
  · simp only at h
    split_ifs at h <;> obtain ⟨rfl, -⟩ := Prod.mk.inj h <;> simp [World.log, recorded]

theorem reportIf_recorded {P : Type} (admitted : Bool) (w : World O) (target : ModelTarget)
    (script : AttemptScript P) (report : Report) :
    recorded (reportIf admitted w target script report).events = recorded w.events := by
  unfold reportIf
  split_ifs <;> simp [World.report, recorded]

theorem tryComplete_recorded (s : CompleteState O) (target : ModelTarget) (script : CompleteScript O) :
    recorded (tryComplete g request deadline s target script).world.events = recorded s.world.events := by
  unfold tryComplete
  split
  · next w e hadm => exact admitCall_recorded deadline hadm
  · next w hadm =>
    have hrecorded := admitCall_recorded deadline hadm
    split
    · exact hrecorded
    · split
      · exact hrecorded
      · simp only
        split <;> simpa [World.log, recorded] using hrecorded

def LogRecorded {P : Type} (s : CallState O P) : Prop := recorded s.world.events = s.attempts

theorem LogRecorded.fail {P : Type} {s t : CallState O P} {record : AttemptRecord} (error : ModelError)
    (hs : LogRecorded s) (hfailures : t.failures = s.failures)
    (hevents : recorded t.world.events = recorded s.world.events ++ [record]) :
    LogRecorded (t.fail record error) := by
  unfold LogRecorded at hs ⊢
  simp [CallState.fail, CallState.attempts, hevents, hs, hfailures]

theorem tryComplete_ok_total {s : CompleteState O} {target : ModelTarget} {script : CompleteScript O}
    {succeeded : AttemptRecord} {r : ModelResponse O}
    (h : (tryComplete g request deadline s target script).outcome = .ok (succeeded, r)) :
    r.attempts = s.attempts ++ [succeeded] ∧
      ModelUsage.aggregate (r.attempts.filterMap (·.usage)) = .ok r.totalUsage := by
  unfold tryComplete at h
  split at h
  · cases h
  · split at h
    · cases h
    · split at h
      · cases h
      · simp only at h
        split at h
        · cases h
        · obtain ⟨answered, hresponse, hpair⟩ := map_eq_ok.mp h
          cases hpair
          exact response_total hresponse

theorem completeAttempt_recorded {s : CompleteState O} (hs : LogRecorded s) (target : ModelTarget)
    (script : CompleteScript O) :
    match completeAttempt g request deadline s target script with
    | (t, .exited result) => ∀ r, result = .ok r → Answers t.world.events r
    | (t, .failed record error) => LogRecorded (t.fail record error) := by
  have hrecorded := tryComplete_recorded g request deadline s target script
  have hok := @tryComplete_ok_total O g request deadline s target script
  unfold completeAttempt
  generalize tryComplete g request deadline s target script = tried at hrecorded hok
  obtain ⟨w, admitted, answer, outcome⟩ := tried
  simp only at hrecorded hok ⊢
  cases outcome with
  | ok p =>
    obtain ⟨succeeded, r⟩ := p
    intro r' hr
    cases hr
    obtain ⟨hattempts, htotal⟩ := hok rfl
    refine ⟨?_, htotal⟩
    have hreport := reportIf_recorded true w target script .success
    rw [World.log, recorded_append, hattempts, ← hs, ← hrecorded, ← hreport]
    rfl
  | error e =>
    have hreport := fun report => reportIf_recorded admitted w target script report
    cases e with
    | cancelled =>
      intro r hr
      cases hr
    | _ =>
      refine LogRecorded.fail _ hs rfl ?_
      rw [World.log, recorded_append, hreport, hrecorded]
      rfl

theorem complete_rule :
    LoopRule (completeAttempt g request deadline) Except.error (fun _ => True) (fun _ => True) LogRecorded
      (fun s result => ∀ r, result = .ok r → Answers s.world.events r) where
  attempt s target script _ hs := by
    have hattempt := completeAttempt_recorded g request deadline (s := s.beginAttempt target script) hs
      target script
    generalize completeAttempt g request deadline (s.beginAttempt target script) target script = result at *
    obtain ⟨t, ended⟩ := result
    cases ended <;> exact hattempt
  slept s delay hs := by
    rw [LogRecorded, World.log, recorded_append]
    exact (List.append_nil _).trans hs
  reason s code hs := hs
  raised s e _ _ r hr := by cases hr
  model _ := trivial
  sleeper _ _ _ _ := .inr trivial

theorem yieldItem_recorded (s : StreamState O) (payload : ChunkPayload O) (reads : Bool) :
    recorded (yieldItem s payload reads).1.world.events = recorded s.world.events := by
  unfold yieldItem
  split_ifs <;> simp [World.log, recorded]

theorem deliverText_recorded (s : StreamState O) (l : StreamLocals O) (step : ChunkStep O) :
    recorded (deliverText s l step).1.world.events = recorded s.world.events := by
  unfold deliverText
  split
  · rfl
  · split_ifs
    · rfl
    · exact yieldItem_recorded _ _ _

theorem deliverTool_recorded (requestId : String) (s : StreamState O) (l : StreamLocals O)
    (step : ChunkStep O) :
    recorded (deliverTool requestId s l step).1.world.events = recorded s.world.events := by
  unfold deliverTool
  split
  · rfl
  · simp only
    split
    · rfl
    · exact yieldItem_recorded _ _ _

theorem deliverUsage_recorded (s : StreamState O) (l : StreamLocals O) (step : ChunkStep O) :
    recorded (deliverUsage s l step).1.world.events = recorded s.world.events := by
  unfold deliverUsage
  split
  · rfl
  · exact yieldItem_recorded _ _ _

theorem deliver_recorded (requestId : String) (s : StreamState O) (l : StreamLocals O) (step : ChunkStep O) :
    recorded (deliver requestId s l step).1.world.events = recorded s.world.events := by
  have htext := deliverText_recorded s l step
  unfold deliver
  split
  · next heq => simpa [heq] using htext
  · next s₁ l₁ heq =>
    rw [heq] at htext
    have htool := deliverTool_recorded requestId s₁ l₁ step
    split
    · next heq => simpa [heq] using htool.trans htext
    · next s₂ l₂ heq =>
      rw [heq] at htool
      have husage := deliverUsage_recorded s₂ l₂ step
      split
      · next heq => simpa [heq] using husage.trans (htool.trans htext)
      · next heq =>
        rw [heq] at husage
        exact husage.trans (htool.trans htext)

theorem markInvoked_recorded (s : StreamState O) (target : ModelTarget) (first : Bool) (check : ℚ) :
    recorded (markInvoked s target first check).world.events = recorded s.world.events := by
  unfold markInvoked
  split_ifs <;> simp [World.log, recorded]

theorem consume_recorded (requestId : String) (target : ModelTarget) (answer : StreamAnswer O)
    (steps : List (ChunkStep O)) (first : Bool) (s : StreamState O) (l : StreamLocals O) :
    recorded (consume requestId deadline target answer steps first s l).1.world.events =
      recorded s.world.events := by
  induction steps generalizing first s l with
  | nil =>
    unfold consume
    split
    · rfl
    · exact markInvoked_recorded s target first _
  | cons step steps ih =>
    unfold consume
    split
    · rfl
    · have hmark := markInvoked_recorded s target first step.check
      have hdeliver := deliver_recorded requestId (markInvoked s target first step.check) l step
      split
      · next heq =>
        rw [heq] at hdeliver
        exact hdeliver.trans hmark
      · next s' l' heq =>
        rw [heq] at hdeliver
        exact (ih false s' l').trans (hdeliver.trans hmark)

theorem tryStream_recorded (s : StreamState O) (target : ModelTarget) (script : StreamScript O) :
    recorded (tryStream g request deadline s target script).state.world.events = recorded s.world.events := by
  unfold tryStream
  split
  · next w e hadm => exact admitCall_recorded deadline hadm
  · next w hadm =>
    have hrecorded := admitCall_recorded deadline hadm
    simp only
    split
    · exact hrecorded
    · split
      · simpa [World.log, recorded] using hrecorded
      · have hconsume := consume_recorded deadline request.requestId target script.provider
          script.provider.chunks true { s with world := w } .initial
        split <;> exact hconsume.trans hrecorded

theorem finishStream_ok {s : StreamState O} {target : ModelTarget} {script : StreamScript O}
    {l : StreamLocals O} {succeeded : AttemptRecord} {r : ModelResponse O}
    (h : finishStream request s target script l = .ok (succeeded, r)) :
    r.attempts = s.attempts ++ [succeeded] ∧
      ModelUsage.aggregate (r.attempts.filterMap (·.usage)) = .ok r.totalUsage := by
  obtain ⟨answer, -, h⟩ := bind_eq_ok.mp h
  obtain ⟨answered, hresponse, h⟩ := bind_eq_ok.mp h
  cases h
  exact response_total hresponse

theorem tryStream_ok {s : StreamState O} {target : ModelTarget} {script : StreamScript O}
    {succeeded : AttemptRecord} {r : ModelResponse O}
    (h : (tryStream g request deadline s target script).outcome = .ok (succeeded, r)) :
    r.attempts = s.attempts ++ [succeeded] ∧
      ModelUsage.aggregate (r.attempts.filterMap (·.usage)) = .ok r.totalUsage := by
  have hfailures := (tryStream_keeps g request deadline s target script).1
  unfold tryStream at h hfailures
  split at h
  · cases h
  · next hadm =>
    simp only [hadm] at h hfailures
    split at h
    · cases h
    · next hcredential =>
      simp only [hcredential] at hfailures
      split at h
      · cases h
      · next hopened =>
        simp only [hopened] at hfailures
        split at h
        · cases h
        · next hclose =>
          simp only [hclose] at hfailures
          obtain ⟨hattempts, htotal⟩ := finishStream_ok request (mapError_eq_ok.mp h)
          refine ⟨?_, htotal⟩
          rw [hattempts, CallState.attempts, hfailures]
          rfl

theorem lastItem_cases (s : StreamState O) (payload : ChunkPayload O) (ended : StreamEnd) :
    (lastItem s payload ended).2 = .abandoned ∨
      lastItem s payload ended =
        ({ s with world := s.world.log (.yielded ⟨s.sequence, payload⟩), sequence := s.sequence + 1 },
          ended) := by
  unfold lastItem yieldItem
  split_ifs <;> simp

theorem streamAttempt_recorded {s : StreamState O} (hs : LogRecorded s) (target : ModelTarget)
    (script : StreamScript O) :
    match streamAttempt g request deadline s target script with
    | (t, .exited ended) => ended = .terminal → ∃ n r,
        t.world.events.getLast? = some (.yielded ⟨n, .terminal r⟩) ∧ Answers t.world.events r
    | (t, .failed record error) => LogRecorded (t.fail record error) := by
  have hrecorded := tryStream_recorded g request deadline s target script
  have hfailures := (tryStream_keeps g request deadline s target script).1
  have hok := @tryStream_ok O g request deadline s target script
  unfold streamAttempt
  generalize tryStream g request deadline s target script = tried at hrecorded hfailures hok
  obtain ⟨t, admitted, l, outcome⟩ := tried
  simp only at hrecorded hfailures hok ⊢
  have hreport := fun report => reportIf_recorded admitted t.world target script report
  cases outcome with
  | ok p =>
    obtain ⟨succeeded, r⟩ := p
    obtain ⟨hattempts, htotal⟩ := hok rfl
    have hsuccess := reportIf_recorded true t.world target script .success
    simp only
    rcases lastItem_cases { t with world := (t.world.report target script .success).log (.emitted succeeded) }
      (.terminal r) .terminal with hlast | hlast
    · rw [hlast]
      intro h
      cases h
    · rw [hlast]
      intro _
      refine ⟨t.sequence, r, List.getLast?_concat, ?_, htotal⟩
      rw [World.log, recorded_append, World.log, recorded_append, hattempts, ← hs, ← hrecorded, ← hsuccess]
      exact List.append_nil _
  | error interrupt =>
    cases interrupt with
    | abandoned =>
      intro h
      cases h
    | closed =>
      intro h
      cases h
    | raised e =>
      cases e with
      | cancelled =>
        intro h
        cases h
      | _ =>
        simp only
        split_ifs
        · generalize ChunkPayload.error _ = payload
          generalize CallState.mk _ _ _ _ _ _ _ = shown
          rcases lastItem_cases shown payload .errorItem with hlast | hlast
          · rw [hlast]
            intro h
            cases h
          · rw [hlast]
            intro h
            cases h
        · refine LogRecorded.fail _ hs hfailures ?_
          rw [World.log, recorded_append, hreport, hrecorded]
          rfl

theorem stream_rule :
    LoopRule (streamAttempt g request deadline) StreamEnd.raised (fun _ => True) (fun _ => True) LogRecorded
      (fun s ended => ended = .terminal → ∃ n r,
        s.world.events.getLast? = some (.yielded ⟨n, .terminal r⟩) ∧ Answers s.world.events r) where
  attempt s target script _ hs := by
    have hattempt := streamAttempt_recorded g request deadline (s := s.beginAttempt target script) hs
      target script
    generalize streamAttempt g request deadline (s.beginAttempt target script) target script = result at *
    obtain ⟨t, ended⟩ := result
    cases ended <;> exact hattempt
  slept s delay hs := by
    rw [LogRecorded, World.log, recorded_append]
    exact (List.append_nil _).trans hs
  reason s code hs := hs
  raised s e _ _ := nofun
  model _ := trivial
  sleeper _ _ _ _ := .inr trivial

theorem recorded_initial {P : Type} (breakers : Breakers) :
    LogRecorded (.initial breakers : CallState O P) := rfl

theorem complete_answers {route : ModelRoute} {start : ℚ} {breakers : Breakers} {env : ℕ → CompleteScript O}
    {r : ModelResponse O} (h : (complete g request route start breakers env).2 = .ok r) :
    Answers (complete g request route start breakers env).1.world.events r := by
  unfold complete at h ⊢
  simp only at h ⊢
  split at h
  · cases h
  · exact (complete_rule g request _).routeLoop_all _ _ env _ route.targets (recorded_initial breakers) r h

theorem stream_answers {route : ModelRoute} {start : ℚ} {breakers : Breakers} {env : ℕ → StreamScript O}
    (h : (stream g request route start breakers env).2 = .terminal) :
    ∃ n r, (stream g request route start breakers env).1.world.events.getLast? =
        some (.yielded ⟨n, .terminal r⟩) ∧
      Answers (stream g request route start breakers env).1.world.events r := by
  unfold stream at h ⊢
  simp only at h ⊢
  split at h
  · cases h
  · exact (stream_rule g request _).routeLoop_all _ _ env _ route.targets (recorded_initial breakers) h

/-- The total usage of a response is honest exactly when every attempt that invoked a
    provider recorded a usage, or the recorded usages are short. -/
theorem total_usage_honest_iff (route : ModelRoute) (start : ℚ) (breakers : Breakers) :
    (∀ (env : ℕ → CompleteScript O) (r : ModelResponse O),
      let run := complete g request route start breakers env
      run.2 = .ok r → (HonestUsage r (invokers false run.1.world.events) ↔
        UsagesRecorded r (invokers false run.1.world.events))) ∧
    (∀ env : ℕ → StreamScript O,
      let run := stream g request route start breakers env
      run.2 = .terminal → ∃ n r,
        run.1.world.events.getLast? = some (.yielded ⟨n, .terminal r⟩) ∧
        (HonestUsage r (invokers false run.1.world.events) ↔
          UsagesRecorded r (invokers false run.1.world.events))) := by
  refine ⟨fun env r hr => (complete_answers g request hr).honest_iff, fun env hended => ?_⟩
  obtain ⟨n, r, hlast, hanswers⟩ := stream_answers g request hended
  exact ⟨n, r, hlast, hanswers.honest_iff⟩

end

namespace Sample

def wholeUsage : ModelUsage where
  inputTokens := some 10
  outputTokens := some 5
  totalTokens := some 15
  amount := some ⟨3, -2⟩
  currency := some "USD"
  incomplete := false
  valid := by decide

theorem hello_ne_empty : "hello" ≠ "" := by
  decide

def answer : ProviderResponse objects where
  content := [⟨"hello", hello_ne_empty⟩]
  finishReason := .stop
  usage := some wholeUsage
  providerRequestId := none
  toolCalls := []
  structuredOutput := none

def timeoutOnce : ℕ → CompleteScript objects
  | 0 => script 0 (.error .timeout)
  | _ => script 1 (.ok answer)

end Sample

open Sample in
/-- An answer at the first attempt is accounted for. -/
theorem total_usage_of_answer :
    ∃ r, (complete gateway request (route none 0) 0 Table.empty fun _ => script 0 (.ok answer)).2 = .ok r ∧
      HonestUsage r (invokers false
        (complete gateway request (route none 0) 0 Table.empty fun _ => script 0
          (.ok answer)).1.world.events) := by
  have hrecorded : ∀ a ∈ invokers false
      (complete gateway request (route none 0) 0 Table.empty fun _ => script 0 (.ok answer)).1.world.events,
      a.usage.isSome = true := by decide +kernel
  have hisOk : (complete gateway request (route none 0) 0 Table.empty fun _ =>
      script 0 (.ok answer)).2.isOk = true := by decide +kernel
  cases hanswer : (complete gateway request (route none 0) 0 Table.empty fun _ => script 0 (.ok answer)).2 with
  | error e => simp [hanswer, Except.isOk, Except.toBool] at hisOk
  | ok r =>
    exact ⟨r, rfl, ((total_usage_honest_iff gateway request (route none 0) 0 Table.empty).1 _ r hanswer).mpr
      (.inl hrecorded)⟩

open Sample in
/-- The consumption of the attempt that timed out is missing, and the total is presented as
    complete. -/
theorem timeout_missing_from_total :
    ∃ r, (complete gateway request (route none 1) 0 Table.empty timeoutOnce).2 = .ok r ∧
      ¬ HonestUsage r
        (invokers false (complete gateway request
          (route none 1) 0 Table.empty timeoutOnce).1.world.events) := by
  have hunaccounted : ∃ a ∈ invokers false
      (complete gateway request (route none 1) 0 Table.empty timeoutOnce).1.world.events,
      a.isAccounted = false := by decide +kernel
  have hcomplete : (complete gateway request (route none 1) 0 Table.empty timeoutOnce).2.toOption.map
      (·.totalUsage.incomplete) = some false := by decide +kernel
  cases hanswer : (complete gateway request (route none 1) 0 Table.empty timeoutOnce).2 with
  | error e => simp [hanswer, Except.toOption] at hcomplete
  | ok r =>
    refine ⟨r, rfl, fun hhonest => ?_⟩
    obtain ⟨a, ha, hmissing⟩ := hunaccounted
    simp [hanswer, Except.toOption, hhonest.flagged a ha hmissing] at hcomplete

end Gateway
end Zhiyi
